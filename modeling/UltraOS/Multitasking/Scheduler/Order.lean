import UltraOS.Multitasking.Scheduler.Sleep

/-!
# The order of the threads

What holds along every run of the scheduler with the tree of the sleeping blockers, as long as no thread falls
asleep until the latest time in it, and what goes wrong if one does.
-/

namespace UltraOS.Tasks

open List RedBlackTree

def treeBoot (cpuCount : Nat) : Tasks (State Nat) := (boot cpuCount).withSleeping (State.empty Nat)

/-- If the thread of the CPU falls asleep, a thread that sleeps until the same time is not among the latest. -/
def SleepsApart (k : Tasks (State Nat)) (cpu : Nat) : Prop :=
  let thread := k.threads (k.cpus cpu).currentThread
  ∀ blocker ∈ thread.blocker, thread.requestedState = .blocked ∧ (k.blockers blocker).shouldBlock = true ∧
    (k.blockers blocker).type = .sleep →
    ∀ other < k.blockerCount, other ∈ k.mSleepingThreads → (k.blockers other).wakeTime = (k.blockers blocker).wakeTime →
      ∃ later < k.blockerCount, later ∈ k.mSleepingThreads ∧ (k.blockers other).wakeTime < (k.blockers later).wakeTime

def Action.picks : Action → Option (Nat × Nat)
  | .pickNext cpu now => some (cpu, now)
  | _ => none

/-- `pick_next` puts the current thread to sleep when it has woken the others, unless the thread dies. -/
def Apart (k : Tasks (State Nat)) (action : Action) : Prop :=
  ∀ pick ∈ action.picks, ∀ k' ∈ (do SleepQueue.wake (← k.freeDeferredThreads) pick.2).toOption,
    k'.Dies pick.1 ∨ k'.SleepsApart pick.1

instance (s : State Nat) (b : Nat) : Decidable (b ∈ s) := inferInstanceAs (Decidable (s.nodes b ≠ none))

instance (k : Tasks (State Nat)) (cpu : Nat) : Decidable (k.SleepsApart cpu) := by
  unfold SleepsApart
  infer_instance

instance (k : Tasks (State Nat)) (action : Action) : Decidable (k.Apart action) :=
  inferInstanceAs (Decidable (∀ pick ∈ action.picks, _))

variable {k k' : Tasks} {p : Nat → Place} {s : State Nat} {cpu : Nat}

lemma Mirrors.mem_iff (hm : Mirrors k s) {b : Nat} : b ∈ s ↔ b ∈ k.mSleepingThreads := by
  obtain ⟨t, hshape, -, horder⟩ := hm
  change s.nodes b ≠ none ↔ _
  rw [← hshape.represents.mem_addresses, addresses, horder, map_map, mem_map]
  simp

lemma Mirrors.le_getLast (hm : Mirrors k s) {c d : Nat} (hc : c ∈ k.mSleepingThreads.getLast?)
    (hd : d ∈ k.mSleepingThreads) : (k.blockers d).wakeTime ≤ (k.blockers c).wakeTime := by
  obtain ⟨t, hshape, -, horder⟩ := hm
  obtain ⟨others, hqueue⟩ := getLast?_eq_some_iff.mp hc
  have hsorted := hshape.sorted
  rw [Ascending, horder, pairwise_map, hqueue, pairwise_append] at hsorted
  rw [hqueue, mem_append, mem_singleton] at hd
  rcases hd with hd | rfl
  · simpa [wakeTraits, byNumber, Traits.valueLess] using hsorted.2.2 d hd c (mem_singleton_self c)
  · exact le_rfl

/-- The thread that falls asleep is not in the queue, and the last one there sleeps until another time. -/
lemma Mirrors.apart (hm : Mirrors k s) (h : Placed k p (some cpu)) (hp : p (k.cpus cpu).currentThread = .running cpu)
    (hapart : (k.withSleeping s).SleepsApart cpu) (b : Nat)
    (hrequest : (k.threads (k.cpus cpu).currentThread).requestedState = .blocked)
    (hblocker : (k.threads (k.cpus cpu).currentThread).blocker = some b) (hblock : (k.blockers b).shouldBlock = true)
    (hsleep : (k.blockers b).type = .sleep) : b ∉ k.mSleepingThreads ∧ ∀ c ∈ k.mSleepingThreads.getLast?,
    (k.blockers c).wakeTime ≠ (k.blockers b).wakeTime := by
  have hlt {c : Nat} (hc : c ∈ k.mSleepingThreads) : c < k.blockerCount := (h.blocker_lt ((h.sleeping c).mp hc).1).1
  obtain ⟨-, -, -, hasks, -⟩ := h.fits_of hp
  have hthread : (k.blockers b).thread = (k.cpus cpu).currentThread := by
    rcases hasks with ⟨-, hnone⟩ | ⟨c, -, hc, hcall⟩
    · rw [hnone] at hblocker
      cases hblocker
    · cases Option.some.inj (hc.symm.trans hblocker)
      exact (h.called _ b (.inr hcall)).2
  refine ⟨fun hmem => ?_, fun c hc heq => ?_⟩
  · have hplace := ((h.sleeping b).mp hmem).1
    rw [hthread, hp] at hplace
    cases hplace
  · have hmem := mem_of_getLast? hc
    obtain ⟨d, -, hd, hlater⟩ := hapart b hblocker ⟨hrequest, hblock, hsleep⟩ c (hlt hmem) (hm.mem_iff.mpr hmem) heq
    exact absurd (hm.le_getLast hc (hm.mem_iff.mp hd)) hlater.not_ge

lemma Mirrors.pickNext (hm : Mirrors k s) (h : Sound k p) (hcpu : cpu < k.cpuCount) (now : Nat)
    (hapart : (k.withSleeping s).Apart (.pickNext cpu now)) :
    Sim (k.pickNext cpu now) ((k.withSleeping s).pickNext cpu now) := by
  obtain ⟨k1, p1, hfree, h1, hc1, hkeeps1⟩ := settles_freeDeferredThreads (h.placed.enter cpu) h.counted
  obtain ⟨k2, p2, hwake, h2, -, hkeeps2⟩ := settles_wakeLoop now h1 hc1 rfl
  change SleepQueue.wake k1 now = .ok k2 at hwake
  have hkeeps := hkeeps1.trans hkeeps2
  obtain ⟨-, hp⟩ := hkeeps.running _ cpu (h.placed.onCpu cpu hcpu (by simp))
  obtain ⟨s1, hfree', hm1⟩ := hm.freeDeferredLoop _ 0 k1 hfree
  obtain ⟨s2, hwake', hm2⟩ := hm1.wake now k2 hwake
  change (k.withSleeping s).freeDeferredThreads = _ at hfree'
  replace hapart := hapart (cpu, now) rfl
  rw [hfree', ok_bind, hwake'] at hapart
  rw [Tasks.pickNext, Tasks.pickNext, hfree, hfree', ok_bind, ok_bind, hwake, hwake', ok_bind, ok_bind]
  refine .ite (fun _ => .bind (hm2.killCurrentThread _) ?_) fun hlive => .bind (hm2.applyRequest _ ?_) ?_
  · exact fun _ _ h => .bind (h.switchThreads cpu _) fun _ _ h => .ok h
  · rw [← hkeeps.cpus] at hp hlive ⊢
    refine hm2.apart h2 hp ((hapart _ rfl).resolve_left fun (hdies : k2.Dies cpu) => hlive ?_)
    rw [hdies.1, hdies.2]
    rfl
  · exact fun _ _ h => .bind (h.switchThreads cpu _) fun _ _ h => .ok h

lemma Mirrors.prepare (hm : Mirrors k s) (h : Placed k p none) (cpu : Nat) (type : BlockerType) (wakeTime : Nat) :
    Mirrors (k.prepare cpu type wakeTime) s := by
  refine hm.congr rfl fun b hb => ?_
  have hlt := (h.blocker_lt ((h.sleeping b).mp hb).1).1
  change (Function.update k.blockers k.blockerCount _ b).wakeTime = _
  rw [Function.update_of_ne hlt.ne]

lemma Mirrors.registerLoop (hm : Mirrors k s) (q : Nat) (ts : List Nat) :
    Sim (registerLoop q ts k) (registerLoop q ts (k.withSleeping s)) := by
  induction ts generalizing k s with
  | nil => exact .ok hm
  | cons t ts ih => exact .bind (.assert (.ok hm)) fun _ _ hm => ih hm

lemma Mirrors.exitProcess (hm : Mirrors k s) (cpu : Nat) (code : Int) : Mirrors (k.exitProcess cpu code) s ∧
    (k.withSleeping s).exitProcess cpu code = (k.exitProcess cpu code).withSleeping s := by
  obtain ⟨hexit, heq⟩ := hm.exitProcessWith (k.threads (k.cpus cpu).currentThread).owner code
  have heq : (k.withSleeping s).exitProcessWith
      ((k.withSleeping s).threads ((k.withSleeping s).cpus cpu).currentThread).owner code = _ := heq
  unfold Tasks.exitProcess
  dsimp only
  rw [heq]
  generalize k.exitProcessWith (k.threads (k.cpus cpu).currentThread).owner code = r at hexit
  obtain ⟨k1, first⟩ := r
  cases first with
  | false => exact ⟨hexit, rfl⟩
  | true => exact ⟨hexit, rfl⟩

/-- Every action does the same with the tree as with the list. -/
lemma Mirrors.step (hm : Mirrors k s) (h : Sound k p) (action : Action) (hperm : k.Permits action)
    (hapart : (k.withSleeping s).Apart action) : Sim (k.step action) ((k.withSleeping s).step action) := by
  cases action with
  | registerProcess q => exact .assert (Mirrors.registerLoop (k := { k with mProcesses := q :: k.mProcesses }) hm q _)
  | createThread q => exact .ok_ite (.ok hm) (.ok hm)
  | registerThread t => exact .ite (fun _ => .assert (.ok hm)) fun _ => .assert (.assert (.ok hm))
  | lockMutex cpu mutex =>
    exact .assert (.assert (.ite (fun _ => .ok hm) fun _ => .ok (hm.prepare h.placed cpu .mutex 0)))
  | unlockMutex cpu mutex => exact .assert (.ok hm)
  | prepare cpu type => exact .ok (hm.prepare h.placed cpu type 0)
  | block cpu b => exact .assert (.ok hm)
  | sleep cpu wakeTime => exact .assert (.ok (hm.prepare h.placed cpu .sleep wakeTime))
  | testUnblock b => exact .ok_ite (.ok hm) (.ok hm)
  | unblock b => exact Mirrors.unblockUnchecked (by exact hm) b
  | exitProcess cpu code =>
    obtain ⟨hexit, heq⟩ := hm.exitProcess cpu code
    rw [Tasks.step, Tasks.step, heq]
    exact .ok hexit
  | crash cpu code =>
    obtain ⟨hexit, heq⟩ := hm.exitProcess cpu (-code)
    rw [Tasks.step, Tasks.step, Tasks.crash, Tasks.crash, heq]
    exact .ok hexit
  | pickNext cpu now => exact hm.pickNext h hperm.1 now hapart
  | _ => exact .ok hm

lemma step_mirrored (h : Sound k p) (hm : Mirrors k s) (action : Action)
    (hperm : scheduler.admits (k.withSleeping s) action) (hapart : (k.withSleeping s).Apart action) :
    ∃ k' p' s', (k.withSleeping s).step action = .ok (k'.withSleeping s') ∧ Sound k' p' ∧ Mirrors k' s' ∧
      Moves k k' p p' action := by
  have hperm : k.Permits action := by cases action <;> exact hperm
  obtain ⟨k', p', hok, hsound, hmoves⟩ := step_sound h action hperm
  obtain ⟨s', hok', hm'⟩ := hm.step h action hperm hapart k' hok
  exact ⟨k', p', s', hok', hsound, hm', hmoves⟩

/-- The state is that of a sound one with a list, with the tree in its place. -/
def Backed (kt : Tasks (State Nat)) : Prop := ∃ k p s, kt = withSleeping k s ∧ Sound k p ∧ Mirrors k s

lemma backed_boot (cpuCount : Nat) : Backed (treeBoot cpuCount) :=
  ⟨_, _, _, rfl, sound_boot cpuCount, .nil, shape_empty _, ⟨rfl, rfl⟩, rfl⟩

variable {kt : Tasks (State Nat)}

lemma Backed.step {action : Action} (h : Backed kt) (hperm : scheduler.admits kt action) (hapart : kt.Apart action) :
    ∃ kt', scheduler.step kt action = .ok kt' ∧ Backed kt' := by
  obtain ⟨k, p, s, rfl, hsound, hm⟩ := h
  obtain ⟨k', p', s', hok, hsound', hm', -⟩ := step_mirrored hsound hm action hperm hapart
  exact ⟨_, hok, k', p', s', rfl, hsound', hm'⟩

lemma Mirrors.holds_iff (hm : Mirrors k s) {t : Nat} (situation : Situation) :
    situation.Holds (k.withSleeping s) t ↔ situation.Holds k t := by
  cases situation with
  | blocked =>
    refine and_congr_right fun _ => exists_congr fun b => and_congr_right fun _ => and_congr_right fun _ => ?_
    rw [withSleeping_mSleepingThreads, hm.mem_iff]
    exact Iff.rfl
  | _ => exact Iff.rfl

/-- Every registered thread is in one situation, the threads are counted, an unblocked thread is not
blocked, and a thread is ready for a bounded number of `pick_next`s. -/
structure Orderly (k : Tasks (State Nat)) : Prop where
  situation : ∀ thread, k.Enlisted thread → ∃! situation : Situation, situation.Holds k thread
  counted : ∀ process ∈ k.mProcesses, (k.processes process).aliveThreadCount =
    (k.processes process).threads.countP k.isUnfinished
  returns : ∀ blocker ∈ k.unblocked, ∀ thread, k.Enlisted thread →
    (k.threads thread).call = .inside blocker → ¬ Situation.blocked.Holds k thread
  turn : ∀ thread ∈ k.mReadyThreads, ∀ actions, scheduler.Admissible k actions → scheduler.EveryStep Apart k actions →
    scheduler.EveryState (fun k' => thread ∈ k'.mReadyThreads) k actions →
    actions.countP Action.isPickNext ≤ k.mReadyThreads.idxOf thread

/-- While a thread stays in the ready queue, every `pick_next` brings it closer to the head. -/
lemma Sound.turn {t : Nat} {actions : List Action} (h : Sound k p) (hm : Mirrors k s) (hready : t ∈ k.mReadyThreads)
    (hadm : scheduler.Admissible (k.withSleeping s) actions) (hapart : scheduler.EveryStep Apart (k.withSleeping s) actions)
    (hstays : scheduler.EveryState (fun k' => t ∈ k'.mReadyThreads) (k.withSleeping s) actions) :
    actions.countP Action.isPickNext ≤ k.mReadyThreads.idxOf t := by
  induction actions generalizing k p s with
  | nil => exact zero_le
  | cons action actions ih =>
    obtain ⟨k', p', s', hok, hsound, hm', hmoves⟩ := step_mirrored h hm action hadm.1 hapart.1
    have hstays' := ((Machine.everyState_cons hok).mp hstays).2
    have hready' : t ∈ k'.mReadyThreads := hstays'.first
    have hrest := ih hsound hm' hready' ((Machine.admissible_cons hok).mp hadm).2
      ((Machine.everyStep_cons hok).mp hapart).2 hstays'
    have hold : ∀ u ∈ k.mReadyThreads, ¬ p u ≠ .ready := fun u hu hne => hne ((h.placed.ready.mem_iff u).mp hu)
    obtain ⟨queue, hflows, hqueue⟩ := hmoves.queue
    rw [countP_cons]
    cases haction : action.isPickNext with
    | true =>
      rw [haction, if_pos rfl] at hqueue
      rw [hqueue] at hready' hrest
      have hless := hflows.idxOf_tail_lt h.placed.ready.nodup hold hready hready'
      rw [if_pos rfl]
      omega
    | false =>
      rw [haction, if_neg (by simp)] at hqueue
      rw [hqueue] at hready' hrest
      have hle := hflows.idxOf_le h.placed.ready.nodup hold hready hready'
      rw [if_neg (by simp)]
      omega

lemma Sound.orderly (h : Sound k p) (hm : Mirrors k s) : Orderly (k.withSleeping s) where
  situation t henlisted := by
    simp only [hm.holds_iff]
    exact ⟨(p t).situation, (h.placed.holds_iff henlisted _).mpr rfl,
      fun situation hholds => (h.placed.holds_iff henlisted situation).mp hholds⟩
  counted q hpr := by
    change (k.processes q).aliveThreadCount = _
    rw [h.counted.counted q hpr]
    apply countP_congr
    intro t ht
    rw [h.isAlive_eq hpr ht]
    exact Iff.rfl
  returns b hb t henlisted hcall hblk := by
    obtain ⟨u, hp⟩ := h.placed.holds_blocked.mp ((hm.holds_iff _).mp hblk)
    obtain ⟨-, -, -, hin, hsh⟩ := h.placed.fits_of hp
    rw [BlockCall.inside.inj (hin.symm.trans hcall), (h.placed.unblocked b hb).2] at hsh
    cases hsh
  turn t hready actions hadm hapart hstays := h.turn hm hready hadm hapart hstays

/-- Along every run of the scheduler on any number of CPUs in which no thread falls asleep until the latest time of
the tree, no assertion fails, no node is read that has been deleted, and the threads are in order. -/
theorem orderly_run (cpuCount : Nat) (actions : List Action)
    (hadmissible : scheduler.Admissible (treeBoot cpuCount) actions)
    (hapart : scheduler.EveryStep Apart (treeBoot cpuCount) actions) :
    scheduler.EveryState Orderly (treeBoot cpuCount) actions := by
  apply Machine.everyState_of_everyStep (I := Backed) _ _ (backed_boot cpuCount) hadmissible hapart
  · rintro _ ⟨k, p, s, rfl, h, hm⟩
    exact h.orderly hm
  · exact fun _ _ h => h.step

theorem orderly_run_sample : (scheduler.Admissible (treeBoot 2) sampleActions ∧
    scheduler.EveryStep Apart (treeBoot 2) sampleActions) ∧ scheduler.EveryState Orderly (treeBoot 2) sampleActions :=
  ⟨by decide +kernel, orderly_run 2 sampleActions (by decide +kernel) (by decide +kernel)⟩

/-- Two threads sleep until the same time, and the process of the second one is ended by its other thread. A third
thread is about to sleep. -/
def equalSleeps : List Action :=
  [.createProcess, .registerProcess 1, .createProcess, .registerProcess 2, .createThread 2, .registerThread 3,
    .createProcess, .registerProcess 3, .tick 0, .acquire 0, .pickNext 0 0, .switchTask 0,
    .sleep 0 10, .acquire 0, .pickNext 0 0, .switchTask 0, .sleep 0 10, .acquire 0, .pickNext 0 0, .switchTask 0,
    .exitProcess 0 0, .acquire 0, .pickNext 0 0, .switchTask 0, .sleep 0 20, .acquire 0]

/-- The second thread is put in front of the first and becomes the last node for the tree, and the node behind the
super root is still it when it has been deleted. -/
theorem not_orderly_equalSleeps : scheduler.Admissible (treeBoot 1) (equalSleeps ++ [.pickNext 0 0]) ∧
    scheduler.EveryState (fun _ => True) (treeBoot 1) equalSleeps ∧ ¬ scheduler.EveryState Orderly (treeBoot 1)
    (equalSleeps ++ [.pickNext 0 0]) := by
  refine ⟨by decide +kernel, by decide +kernel, fun horderly => ?_⟩
  have hfails : (scheduler.run (treeBoot 1) (equalSleeps ++ [.pickNext 0 0])).isOk = false := by decide +kernel
  obtain ⟨k, hok, -⟩ := horderly.last
  rw [hok] at hfails
  cases hfails

/-- A thread that has finished stays so whatever happens, and is neither ready nor on a CPU again. -/
def Final (k : Tasks (State Nat)) : Prop :=
  ∀ thread, Situation.finished.Holds k thread → ∀ actions, scheduler.Admissible k actions →
    scheduler.EveryStep Apart k actions →
    scheduler.EveryState (fun k' => Situation.finished.Holds k' thread ∧ thread ∉ k'.mReadyThreads ∧
      ∀ cpu < k'.cpuCount, (k'.cpus cpu).currentThread ≠ thread) k actions

lemma Sound.final (h : Sound k p) (hm : Mirrors k s) : Final (k.withSleeping s) := by
  intro t hfinished actions hadm hapart
  apply Machine.everyState_of_everyStep
    (I := fun kt => ∃ k p s, kt = withSleeping k s ∧ Sound k p ∧ Mirrors k s ∧ (p t).isFinished = true) _ _
    ⟨k, p, s, rfl, h, hm, h.placed.holds_finished.mp hfinished⟩ hadm hapart
  · rintro _ ⟨k, p, s, rfl, h, -, hp⟩
    refine ⟨h.placed.holds_finished.mpr hp, fun hready => ?_, fun cpu hcpu heq => ?_⟩
    · rw [(h.placed.ready.mem_iff t).mp hready] at hp
      cases hp
    · rw [h.placed.current_place ⟨hcpu, heq⟩] at hp
      cases hp
  · rintro _ action ⟨k, p, s, rfl, h, hm, hp⟩ hperm hapart
    obtain ⟨k', p', s', hok, hsound, hm', hmoves⟩ := step_mirrored h hm action hperm hapart
    exact ⟨_, hok, k', p', s', rfl, hsound, hm', (hmoves.finished t).mpr (.inl hp)⟩

/-- A finished thread never runs again. -/
theorem final_run (cpuCount : Nat) (actions : List Action)
    (hadmissible : scheduler.Admissible (treeBoot cpuCount) actions)
    (hapart : scheduler.EveryStep Apart (treeBoot cpuCount) actions) :
    scheduler.EveryState Final (treeBoot cpuCount) actions := by
  apply Machine.everyState_of_everyStep (I := Backed) _ _ (backed_boot cpuCount) hadmissible hapart
  · rintro _ ⟨k, p, s, rfl, h, hm⟩
    exact h.final hm
  · exact fun _ _ h => h.step

theorem final_run_sample : scheduler.EveryState Final (treeBoot 2) sampleActions :=
  final_run 2 sampleActions (by decide +kernel) (by decide +kernel)

end UltraOS.Tasks
