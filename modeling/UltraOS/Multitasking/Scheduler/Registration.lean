import UltraOS.Multitasking.Scheduler.Actions

/-!
# The making and the registration of threads

A thread that has been made is in no queue before it is registered. It then becomes ready, or is freed if
its process has been exited in the meantime.
-/

namespace UltraOS.Tasks

open List Function

variable {k k' : Tasks} {p : Nat → Place} {q t : Nat} {hand : Option Nat}
  (h : Sound k p) (hk : Killers k p) (hc : Counted k p)
  (hlarge : k.cpuCount ≤ q)

section

def enrolled (k : Tasks) (process : Nat) (proc : Process) (processCount : Nat) : Tasks :=
  { k with
    threads := update k.threads k.threadCount { owner := process }
    threadCount := k.threadCount + 1
    processes := update k.processes process { proc with threads := (k.processes process).threads ++ [k.threadCount] }
    processCount := processCount }

variable {proc : Process} {processCount : Nat}

lemma enrolled_threads_self : (enrolled k q proc processCount).threads k.threadCount = { owner := q } := update_self ..

lemma enrolled_threads_of_ne (hne : t ≠ k.threadCount) : (enrolled k q proc processCount).threads t = k.threads t :=
  update_of_ne hne _ _

lemma enrolled_processes_self : (enrolled k q proc processCount).processes q =
    { proc with threads := (k.processes q).threads ++ [k.threadCount] } :=
  update_self ..

lemma enrolled_processes_of_ne {u : Nat} (hne : u ≠ q) : (enrolled k q proc processCount).processes u = k.processes u :=
  update_of_ne hne _ _

lemma Placed.ne_new (h : Placed k p hand) (hp : p t ≠ .fresh) : t ≠ k.threadCount := ne_of_lt (h.lt hp)

lemma Placed.enroll (h : Placed k p none) (q : Nat) (proc : Process) (processCount : Nat) :
    Placed (enrolled k q proc processCount) p none := by
  refine { h with fits := fun t => ?_, quiet := fun cpu hcpu hhand hphase => ?_,
                  fresh := fun t ht => h.fresh t (Nat.le_of_succ_le ht),
                  called := fun t b hcall => ?_ }
  · by_cases heq : t = k.threadCount
    · rw [heq, h.fresh k.threadCount le_rfl, Fits, enrolled_threads_self]
      exact ⟨rfl, rfl, rfl⟩
    · exact (fits_congr (enrolled_threads_of_ne heq) rfl rfl rfl _).mpr (h.fits t)
  · have hcur := h.onCpu cpu hcpu hhand
    have hne : (k.cpus cpu).currentThread ≠ k.threadCount := h.ne_new (by simp [hcur])
    exact (congrArg Thread.requestedState (enrolled_threads_of_ne hne)).trans (h.quiet cpu hcpu hhand hphase)
  · by_cases heq : t = k.threadCount
    · rw [heq, enrolled_threads_self] at hcall
      rcases hcall with hcall | hcall <;> cases hcall
    · rw [enrolled_threads_of_ne heq] at hcall
      exact h.called t b hcall

lemma Counted.enroll (h : Placed k p none) (hc : Counted k p) (hlarge : k.cpuCount ≤ q) (hless : q < processCount)
    (hle : k.processCount ≤ processCount) (hn : proc.aliveThreadCount = (k.processes q).aliveThreadCount ∨
    q ∉ k.mProcesses ∧ proc.aliveThreadCount = 0) : Counted (enrolled k q proc processCount) p := by
  have hfresh := h.fresh k.threadCount le_rfl
  have howner {u : Nat} (hlt : u < k.threadCount) : (enrolled k q proc processCount).threads u = k.threads u :=
    enrolled_threads_of_ne hlt.ne
  have hmono {owner u : Nat} (hmem : u ∈ (k.processes owner).threads) :
      u ∈ ((enrolled k q proc processCount).processes owner).threads := by
    by_cases heq : owner = q
    · rw [heq] at hmem
      rw [heq, enrolled_processes_self]
      exact mem_append_left _ hmem
    · rwa [enrolled_processes_of_ne heq]
  have hcases {owner u : Nat} (hmem : u ∈ ((enrolled k q proc processCount).processes owner).threads) :
      u ∈ (k.processes owner).threads ∨ u = k.threadCount ∧ owner = q := by
    by_cases heq : owner = q
    · rw [heq, enrolled_processes_self, mem_append, mem_singleton] at hmem
      rw [heq]
      exact hmem.imp_right fun hnew => ⟨hnew, rfl⟩
    · rw [enrolled_processes_of_ne heq] at hmem
      exact .inl hmem
  refine
    { registered := fun u hu => ?_
      nodup := fun u => ?_
      lt := fun u t ht => ?_
      owner := fun u t ht => ?_
      member := fun u halive => ?_
      idle := fun cpu hcpu => ?_
      listed := fun u hu => ?_
      cpus := hc.cpus.trans hle
      uncreated := fun u hu => ?_
      unregistered := fun u hu hnot => ?_
      counted := fun u hu => ?_ }
  · obtain ⟨hu, hlt⟩ := hc.registered u hu
    exact ⟨hu, hlt.trans_le hle⟩
  · by_cases heq : u = q
    · rw [heq, enrolled_processes_self, nodup_append]
      refine ⟨hc.nodup q, nodup_singleton _, ?_⟩
      rintro a ha b hb rfl
      rw [mem_singleton] at hb
      exact ne_of_lt (hc.lt q a ha) hb
    · rw [enrolled_processes_of_ne heq]
      exact hc.nodup u
  · rcases hcases ht with ht | ⟨rfl, -⟩
    · exact Nat.lt_succ_of_lt (hc.lt u t ht)
    · exact lt_add_one _
  · rcases hcases ht with ht | ⟨rfl, rfl⟩
    · rw [howner (hc.lt u t ht)]
      exact hc.owner u t ht
    · rw [enrolled_threads_self]
  · have hlt : u < k.threadCount := h.lt (by rintro heq; rw [heq] at halive; cases halive)
    rw [howner hlt]
    exact (hc.member u halive).imp_right fun hreg => ⟨hmono hreg.1, hreg.2⟩
  · have hlt : (k.cpus cpu).idleTask < k.threadCount := by
      apply h.lt
      rcases h.idle cpu hcpu with hidle | hidle <;> simp [hidle]
    exact (congrArg Thread.owner (howner hlt)).trans_lt (hc.idle cpu hcpu)
  · by_cases heq : u = k.threadCount
    · rw [heq, enrolled_threads_self, enrolled_processes_self]
      exact mem_append_right _ (mem_singleton_self _)
    · have hlt : u < k.threadCount := lt_of_le_of_ne (Nat.le_of_lt_succ hu) heq
      rw [howner hlt]
      exact hmono (hc.listed u hlt)
  · have hne : u ≠ q := fun heq => by
      have hu : processCount ≤ u := hu
      omega
    rw [enrolled_processes_of_ne hne]
    exact hc.uncreated u (hle.trans hu)
  · obtain ⟨hzero, hall⟩ := hc.unregistered u hu hnot
    refine ⟨?_, fun t ht => ?_⟩
    · by_cases heq : u = q
      · rw [heq] at hzero
        rw [heq, enrolled_processes_self]
        rcases hn with hn | ⟨-, hn⟩
        · exact hn.trans hzero
        · exact hn
      · rwa [enrolled_processes_of_ne heq]
    · rcases hcases ht with ht | ⟨rfl, -⟩
      · exact hall t ht
      · exact hfresh
  · by_cases heq : u = q
    · rw [heq] at hu
      rcases hn with hn | ⟨hnot, -⟩
      · rw [heq, enrolled_processes_self, hn, hc.counted q hu, countP_append, countP_singleton, hfresh]
        rfl
      · exact absurd hu hnot
    · rw [enrolled_processes_of_ne heq]
      exact hc.counted u hu

lemma Killers.enroll (hk : Killers k p) (h : Placed k p none)
    (hstate : proc.state = (k.processes q).state ∨ q ∉ k.mProcesses) : Killers (enrolled k q proc processCount) p := by
  -- The new thread is no killer, and a killer belongs to a registered process.
  have hflag (u : Nat) (hu : ((enrolled k q proc processCount).threads u).shouldKillAllThreads = true) :
      u ≠ k.threadCount := by
    rintro rfl
    rw [enrolled_threads_self] at hu
    cases hu
  refine ⟨fun t t' ht ht' heq => ?_, fun t ht => ?_, fun t ht => ?_⟩
  · rw [enrolled_threads_of_ne (hflag t ht), enrolled_threads_of_ne (hflag t' ht')] at heq
    rw [enrolled_threads_of_ne (hflag t ht)] at ht
    rw [enrolled_threads_of_ne (hflag t' ht')] at ht'
    exact hk.unique t t' ht ht' heq
  · have hne := hflag t ht
    rw [enrolled_threads_of_ne hne] at ht ⊢
    obtain ⟨hmem, halive⟩ := hk.exiting t ht
    refine ⟨hmem, ?_⟩
    by_cases heq : (k.threads t).owner = q
    · rw [heq] at hmem halive
      rw [heq, enrolled_processes_self]
      rcases hstate with hstate | hnot
      · exact fun hcontra => halive (hstate ▸ hcontra)
      · exact absurd hmem hnot
    · rwa [enrolled_processes_of_ne heq]
  · have hne : t ≠ k.threadCount := h.ne_new (by rcases ht with ht | ht <;> simp [ht])
    rw [enrolled_threads_of_ne hne]
    refine (hk.dead t ht).imp_right ?_
    rintro ⟨killer, hsame, hkill, hfin⟩
    have hkiller : killer ≠ k.threadCount := h.ne_new (by rcases hfin with hp | hp <;> simp [hp])
    refine ⟨killer, ?_, ?_, hfin⟩
    · rw [enrolled_threads_of_ne hkiller, hsame]
    · rw [enrolled_threads_of_ne hkiller, hkill]

lemma Sound.createProcess (h : Sound k p) : Sound k.createProcess p := by
  have hnew : k.processCount ∉ k.mProcesses := fun hmem => lt_irrefl _ (h.counted.registered _ hmem).2
  have heq : k.createProcess = enrolled k k.processCount {} (k.processCount + 1) := by
    rw [enrolled, h.counted.uncreated k.processCount le_rfl]
    rfl
  rw [heq]
  exact ⟨h.placed.enroll _ _ _, Counted.enroll h.placed h.counted h.counted.cpus (lt_add_one _) (Nat.le_succ _)
      (.inr ⟨hnew, rfl⟩),
    h.killers.enroll h.placed (.inr hnew)⟩

lemma Sound.createThread (h : Sound k p) (hpr : q ∈ k.mProcesses) : Sound (k.createThread q) p := by
  obtain ⟨hlarge, hless⟩ := h.counted.registered q hpr
  rw [Tasks.createThread]
  split
  · exact ⟨h.placed.enroll q (k.processes q) k.processCount,
      Counted.enroll h.placed h.counted hlarge hless le_rfl (.inl rfl),
      h.killers.enroll h.placed (.inl rfl)⟩
  · exact h

end

def started (k : Tasks) (thread : Nat) : Tasks :=
  { k with
    threads := update k.threads thread { k.threads thread with state := .ready }
    processes := update k.processes (k.threads thread).owner
      { k.processes (k.threads thread).owner with
        aliveThreadCount := (k.processes (k.threads thread).owner).aliveThreadCount + 1 }
    mReadyThreads := k.mReadyThreads ++ [thread] }

lemma frame_started (k : Tasks) (t : Nat) : Frame k (started k t) t :=
  .of_update rfl rfl rfl (fun _ => by simp only [started, update_count]) rfl

variable (hp : p t = .fresh) (hlt : t < k.threadCount)
  (hless : q < k.processCount) (hpr : (k.threads t).owner ∈ k.mProcesses)
  (hnew : q ∉ k.mProcesses)

lemma Placed.start (h : Placed k p none) (hp : p t = .fresh) (hlt : t < k.threadCount) :
    Placed (started k t) (update p t .ready) none := by
  obtain ⟨-, hreq, hb⟩ := h.fits_of hp
  exact h.shift (frame_started k t) hp (by simp) rfl (by simp [Fits, started, hreq, hb])
    (h.loose hp hlt (by simp))

include hc hp in
lemma Counted.start (hreg : k.Registered t) : Counted (started k t) (update p t .ready) := by
  apply hc.move (frame_started k t) hreg
  · intro q hne
    simp only [started, update_count, if_neg hne]
  · rw [Tags.countP_update_of_mem (hc.nodup _) hreg.1 (by rw [hp]; rfl) rfl, ← hc.counted _ hreg.2]
    simp only [started, update_count, if_true]

include hk hp in
lemma Killers.start : Killers (started k t) (update p t .ready) := by
  have hfin (u : Nat) : (update p t .ready u).isFinished = (p u).isFinished :=
    field_eq Place.isFinished (fun u hne => update_of_ne hne _ _) (by rw [update_self, hp]; rfl) u
  apply hk.transport (frame_started k t).owner_eq
  · exact field_eq _ (frame_started k t).threads (by simp [started])
  · intro q hstate
    simpa only [started, update_count] using hstate
  · exact fun _ hmem => hmem
  · exact fun u hu => (hfin u).trans hu
  · intro u hu
    rw [hfin] at hu
    refine .inl ⟨hu, congrArg Thread.state ((frame_started k t).threads u ?_)⟩
    rintro rfl
    rw [hp] at hu
    cases hu

include h hp hlt hpr in
lemma Sound.start : Sound (started k t) (update p t .ready) where
  placed := h.placed.start hp hlt
  counted := h.counted.start hp ⟨h.counted.listed t hlt, hpr⟩
  killers := h.killers.start hp

lemma steady_start (hp : p t = .fresh) : Steady k (started k t) p (update p t .ready) :=
  Steady.of_append (by rw [hp]; rfl) (by simp [hp]) rfl

lemma Placed.isOnAList_fresh (h : Placed k p hand) (hp : p t = .fresh) : k.isOnAList t = false :=
  h.isOnAList_eq_false (by simp [hp]) (by simp [hp]) (by simp [hp])

lemma Sound.registerLoop {threads : List Nat} (h : Sound k p) (hnodup : threads.Nodup)
    (hths : ∀ t ∈ threads, t ∈ (k.processes q).threads) (hfresh : ∀ t ∈ threads, p t = .fresh)
    (hpr : q ∈ k.mProcesses) : ∃ k' p', registerLoop q threads k = .ok k' ∧ Sound k' p' ∧ Steady k k' p p' := by
  induction threads generalizing k p with
  | nil => exact ⟨k, p, rfl, h, Steady.of_eq rfl⟩
  | cons t threads ih =>
    obtain ⟨hnotMem, hnodup⟩ := nodup_cons.mp hnodup
    have hp := hfresh t mem_cons_self
    have hmem := hths t mem_cons_self
    have howner := h.counted.owner q t hmem
    have hstarted := h.start hp (h.counted.lt q t hmem) (howner ▸ hpr)
    have hstep : registerLoop q (t :: threads) k = registerLoop q threads (started k t) := by
      rw [Tasks.registerLoop, insertReady_eq (by exact h.placed.isOnAList_fresh hp), ok_bind, started, howner]
      rfl
    obtain ⟨k', p', hok, hsound, hsteady⟩ := ih hstarted hnodup (fun u hu => by
        rw [(frame_started k t).processThreads]
        exact hths u (mem_cons_of_mem _ hu))
      (fun u hu => by
        have hne : u ≠ t := fun heq => hnotMem (heq ▸ hu)
        rw [update_of_ne hne]
        exact hfresh u (mem_cons_of_mem _ hu))
      hpr
    exact ⟨k', p', hstep.trans hok, hsound, (steady_start hp).trans hsteady⟩

include h hlarge hless hnew in
lemma Sound.enlist : Sound { k with mProcesses := q :: k.mProcesses } p where
  placed := { h.placed with fits := fun t => (fits_congr rfl rfl rfl rfl _).mpr (h.placed.fits t) }
  counted := by
    obtain ⟨hzero, hall⟩ := h.counted.unregistered q hlarge hnew
    exact
      { h.counted with
        registered := fun u hu => by
          rcases mem_cons.mp hu with rfl | hu
          · exact ⟨hlarge, hless⟩
          · exact h.counted.registered u hu
        member := fun t halive => (h.counted.member t halive).imp_right fun hreg => ⟨hreg.1, mem_cons_of_mem _ hreg.2⟩
        unregistered := fun u hu hnot => h.counted.unregistered u hu fun hmem => hnot (mem_cons_of_mem _ hmem)
        counted := fun u hu => by
          rcases mem_cons.mp hu with rfl | hu
          · rw [show _ = _ from hzero, eq_comm, countP_eq_zero]
            intro t ht
            rw [hall t ht]
            exact Bool.false_ne_true
          · exact h.counted.counted u hu }
  killers := h.killers.transport (fun _ => rfl) (fun _ => rfl) (fun _ hstate => hstate)
    (fun _ hmem => mem_cons_of_mem _ hmem) (fun _ ht => ht) (fun _ ht => .inl ⟨ht, rfl⟩)

include h hlarge hless hnew in
lemma Sound.registerProcess : ∃ k' p', k.registerProcess q = .ok k' ∧ Sound k' p' ∧ Steady k k' p p' := by
  rw [Tasks.registerProcess, assert_bind hnew]
  obtain ⟨k', p', hok, hsound, hsteady⟩ :=
    (h.enlist hlarge hless hnew).registerLoop (h.counted.nodup q) (fun _ hmem => hmem)
      (h.counted.unregistered q hlarge hnew).2 mem_cons_self
  exact ⟨k', p', hok, hsound, hsteady.finished, hsteady.fresh, hsteady.ready, hsteady.queued⟩

lemma Placed.fresh_of_undefined (h : Placed k p none) (hstate : (k.threads t).state = .undefined) : p t = .fresh := by
  have hfits := h.fits t
  cases hp : p t with
  | fresh => rfl
  | idle | ready | blocked b | running cpu | deferred | freed => simp_all [Fits]

def stillborn (k : Tasks) (thread : Nat) : Tasks :=
  { k with
    threads := update k.threads thread { k.threads thread with shouldDie := true, exitCode := 0, state := .dead }
    mThreadsToFree := k.mThreadsToFree ++ [thread] }

lemma frame_stillborn (k : Tasks) (t : Nat) : Frame k (stillborn k t) t := .of_update rfl rfl rfl (fun _ => rfl) rfl

include h hp hlt hpr in
lemma Sound.stillborn : Sound (stillborn k t) (update p t .freed) := by
  have hframe := frame_stillborn k t
  refine ⟨?_, ?_, ?_⟩
  · exact h.placed.shift hframe hp (by simp) rfl (by simp [Fits, Tasks.stillborn])
      (h.placed.loose hp hlt (by simp))
  · apply h.counted.relocate hframe.sameOwners (fun hnew => by cases hnew) (fun _ => hpr) (fun _ _ => rfl)
    intro q hmem
    rw [Tags.countP_update_of_eq (by rw [hp]; rfl)]
    exact h.counted.counted q hmem
  · apply h.killers.transport hframe.owner_eq
    · exact field_eq _ hframe.threads (by simp [Tasks.stillborn])
    · exact fun _ hstate => hstate
    · exact fun _ hmem => hmem
    · intro u hu
      rw [update_apply]
      split
      · rfl
      · exact hu
    · intro u hu
      by_cases heq : u = t
      · exact .inr (.inl (by simp [heq, Tasks.stillborn]))
      · rw [update_of_ne heq] at hu
        exact .inl ⟨hu, congrArg Thread.state (hframe.threads u heq)⟩

include h hlt in
lemma Sound.registerThread (hstate : (k.threads t).state = .undefined) (hpr : (k.threads t).owner ∈ k.mProcesses) :
    (k.processes (k.threads t).owner).state = .alive ∧ k.registerThread t = .ok (started k t) ∧ Sound (started k t)
    (update p t .ready) ∨ (k.processes (k.threads t).owner).state ≠ .alive ∧ k.registerThread t =
    .ok (Tasks.stillborn k t) ∧ Sound (Tasks.stillborn k t) (update p t .freed) := by
  have hp := h.placed.fresh_of_undefined hstate
  have hlist := h.placed.isOnAList_fresh hp
  by_cases halive : (k.processes (k.threads t).owner).state = .alive
  · refine .inl ⟨halive, ?_, h.start hp hlt hpr⟩
    rw [Tasks.registerThread]
    rw [if_neg (fun hne => hne halive), assert_bind hpr]
    exact insertReady_eq hlist
  · refine .inr ⟨halive, ?_, h.stillborn hp hlt hpr⟩
    rw [Tasks.registerThread]
    rw [if_pos halive, freeThread_eq (by exact hlist)]
    simp [exitWith, setState, updateThread, Tasks.stillborn]

end UltraOS.Tasks
