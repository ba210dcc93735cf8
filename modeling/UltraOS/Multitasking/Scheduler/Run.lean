import UltraOS.Multitasking.Scheduler.Registration

/-!
# Runs of the scheduler

From a system whose CPUs run their idle tasks, every run of the actions keeps every thread in one place.
No assertion fails, no wake-up is lost, and a thread in the ready queue gets its turn.
-/

namespace UltraOS.Tasks

open List Place

variable {k k' : Tasks} {p : Nat → Place}

section

def Ends (k : Tasks) (place : Nat → Place) : Action → Nat → Prop
  | .pickNext cpu _, thread => k.Dies cpu ∧ Condemned k place (k.cpus cpu).currentThread thread
  | .registerThread new, thread => thread = new ∧ (k.processes (k.threads new).owner).state ≠ .alive
  | _, _ => False

def Action.isPickNext : Action → Bool
  | .pickNext .. => true
  | _ => false

/-- What an action does to the places of the threads and to the ready queue. -/
structure Moves (k k' : Tasks) (place place' : Nat → Place) (action : Action) : Prop where
  finished : ∀ thread, (place' thread).isFinished = true ↔ (place thread).isFinished = true ∨ Ends k place action thread
  fresh : ∀ thread, place' thread = .fresh → place thread = .fresh
  queue : ∃ queue, Queue.Flows (fun thread => place thread ≠ .ready) k.mReadyThreads queue ∧
    k'.mReadyThreads = if action.isPickNext then queue.tail else queue

variable {action : Action}

lemma Steady.moves {p' : Nat → Place} (h : Steady k k' p p') (hends : ∀ t, ¬ Ends k p action t)
    (haction : action.isPickNext = false) : Moves k k' p p' action where
  finished t := by rw [h.finished, or_iff_left (hends t)]
  fresh := h.fresh
  queue := ⟨k'.mReadyThreads, h.queued, by rw [haction]; rfl⟩

lemma moves_of_eq (heq : k'.mReadyThreads = k.mReadyThreads) (hends : ∀ t, ¬ Ends k p action t)
    (haction : action.isPickNext = false) : Moves k k' p p action :=
  (Steady.of_eq heq).moves hends haction

lemma step_sound (h : Sound k p) (action : Action) (hperm : k.Permits action) :
    ∃ k' p', k.step action = .ok k' ∧ Sound k' p' ∧ Moves k k' p p' action := by
  cases action with
  | createProcess => exact ⟨_, p, rfl, h.createProcess, moves_of_eq rfl (fun _ => id) rfl⟩
  | registerProcess q =>
    obtain ⟨k', p', hok, hsound, hsteady⟩ := h.registerProcess hperm.1 hperm.2.1 hperm.2.2.1
    exact ⟨k', p', hok, hsound, hsteady.moves (fun _ => id) rfl⟩
  | createThread q =>
    refine ⟨_, p, rfl, h.createThread hperm, moves_of_eq ?_ (fun _ => id) rfl⟩
    rw [Tasks.createThread]
    split <;> rfl
  | registerThread t =>
    have hp := h.placed.fresh_of_undefined hperm.2.1
    rcases h.registerThread hperm.1 hperm.2.1 hperm.2.2.1 with
      ⟨halive, hok, hsound⟩ | ⟨halive, hok, hsound⟩
    · exact ⟨_, _, hok, hsound, (steady_start hp).moves (fun _ hends => hends.2 halive) rfl⟩
    · refine ⟨_, _, hok, hsound, fun u => ?_, fun u hu => ?_, _, Queue.Flows.refl _ _, rfl⟩
      · by_cases heq : u = t
        · rw [heq, Function.update_self]
          exact iff_of_true rfl (.inr ⟨rfl, halive⟩)
        · rw [Function.update_of_ne heq, or_iff_left]
          exact fun hends => heq hends.1
      · by_cases heq : u = t
        · rw [heq, hp]
        · rwa [Function.update_of_ne heq] at hu
  | setInvulnerable cpu v => exact ⟨_, p, rfl, h.setInvulnerable hperm.1 v, moves_of_eq rfl (fun _ => id) rfl⟩
  | lockMutex cpu mutex =>
    obtain ⟨hexec, -, hinvulnerable, howner⟩ := hperm
    rw [step, lockMutex, hinvulnerable, assert_true, ok_bind, assert_bind howner]
    split
    · exact ⟨_, p, rfl, h.withMutexes _ k.unblockers, moves_of_eq rfl (fun _ => id) rfl⟩
    · exact ⟨_, p, rfl, h.prepare hexec.1 .mutex 0, moves_of_eq rfl (fun _ => id) rfl⟩
  | unlockMutex cpu mutex =>
    rw [step, unlockMutex, assert_bind hperm.2]
    exact ⟨_, p, rfl, h.withMutexes _ k.unblockers, moves_of_eq rfl (fun _ => id) rfl⟩
  | prepare cpu type => exact ⟨_, p, rfl, h.prepare hperm.1.1 type 0, moves_of_eq rfl (fun _ => id) rfl⟩
  | block cpu b =>
    obtain ⟨k', hok, hsound, hready⟩ := h.block hperm.1 hperm.2
    exact ⟨k', p, hok, hsound, moves_of_eq hready (fun _ => id) rfl⟩
  | sleep cpu wakeTime =>
    obtain ⟨k', hok, hsound, hready⟩ := h.sleep hperm.1 wakeTime
    exact ⟨k', p, hok, hsound, moves_of_eq hready (fun _ => id) rfl⟩
  | returnFromBlock cpu => exact ⟨_, p, rfl, h.returnFromBlock hperm, moves_of_eq rfl (fun _ => id) rfl⟩
  | testUnblock b =>
    rw [step, testUnblock]
    split
    · exact ⟨_, p, rfl, h.withMutexes k.mutexOwners _, moves_of_eq rfl (fun _ => id) rfl⟩
    · exact ⟨_, p, rfl, h, moves_of_eq rfl (fun _ => id) rfl⟩
  | unblock b =>
    obtain ⟨k', p', hok, hsound, hsteady⟩ := h.unblock hperm.1
    exact ⟨k', p', hok, hsound, hsteady.moves (fun _ => id) rfl⟩
  | exitThread cpu code => exact ⟨_, p, rfl, h.exitThread hperm code, moves_of_eq rfl (fun _ => id) rfl⟩
  | exitProcess cpu code =>
    exact ⟨_, p, rfl, h.exitProcess hperm code, moves_of_eq (exitProcess_mReadyThreads k cpu code) (fun _ => id) rfl⟩
  | crash cpu code =>
    exact ⟨_, p, rfl, h.crash hperm code, moves_of_eq (exitProcess_mReadyThreads k cpu (-code)) (fun _ => id) rfl⟩
  | tick cpu => exact ⟨_, p, rfl, h.tick hperm, moves_of_eq rfl (fun _ => id) rfl⟩
  | acquire cpu => exact ⟨_, p, rfl, h.acquire hperm.1, moves_of_eq rfl (fun _ => id) rfl⟩
  | pickNext cpu now =>
    obtain ⟨k', p', hok, hpl, hcnt, hkillers, hret, -, -, -, -, -, queue, hflows, htail⟩ :=
      pickNext_spec h.placed h.counted h.killers hperm.1 now
    exact ⟨k', p', hok, ⟨hpl, hcnt, hkillers⟩, hret.finished, fun t => (hret.fresh t).mp, queue, hflows, htail⟩
  | switchTask cpu => exact ⟨_, p, rfl, h.switchTask hperm.1 hperm.2, moves_of_eq rfl (fun _ => id) rfl⟩

end

variable {q : Nat}

section

def bootPlace (cpuCount thread : Nat) : Place := if thread < cpuCount then .running thread else .fresh

variable {cpuCount : Nat} {thread t : Nat}

lemma bootPlace_of_lt (h : t < cpuCount) : bootPlace cpuCount t = .running t := if_pos h

lemma bootPlace_of_le (h : cpuCount ≤ t) : bootPlace cpuCount t = .fresh := if_neg h.not_gt

lemma bootPlace_ne {p : Place} (hrung : ∀ cpu, p ≠ .running cpu) (hfresh : p ≠ .fresh) : bootPlace cpuCount t ≠ p := by
  unfold bootPlace
  split
  · exact (hrung t).symm
  · exact hfresh.symm

lemma lists_boot {p : Place} (hrung : ∀ cpu, p ≠ .running cpu) (hfresh : p ≠ .fresh)
    : Tags.Lists (bootPlace cpuCount) p [] where
  mem_iff _ := iff_of_false not_mem_nil (bootPlace_ne hrung hfresh)
  nodup := nodup_nil

lemma placed_boot (cpuCount : Nat) : Placed (boot cpuCount) (bootPlace cpuCount) none where
  ready := lists_boot (by simp) (by simp)
  deferred := lists_boot (by simp) (by simp)
  freed := lists_boot (by simp) (by simp)
  sleeping b := iff_of_false not_mem_nil fun hblk => bootPlace_ne (by simp) (by simp) hblk.1
  sleeping_nodup := nodup_nil
  fits t := by
    by_cases hlt : t < cpuCount
    · rw [bootPlace_of_lt hlt]
      exact ⟨hlt, rfl, fun _ => if_pos hlt, .inl ⟨rfl, rfl⟩, fun _ => ⟨rfl, rfl⟩⟩
    · rw [bootPlace_of_le (not_lt.mp hlt)]
      exact ⟨if_neg hlt, rfl, rfl⟩
  onCpu cpu hcpu _ := bootPlace_of_lt hcpu
  quiet _ _ _ _ := rfl
  idle cpu hcpu := .inr (bootPlace_of_lt hcpu)
  idle_unique _ _ _ _ heq := heq
  fresh t ht := bootPlace_of_le ht
  called t b hcall := by rcases hcall with hcall | hcall <;> cases hcall
  pending _ _ := rfl
  unblocked b hb := absurd hb not_mem_nil

lemma boot_threads_of_lt (h : q < cpuCount) : ((boot cpuCount).processes q).threads = [q] :=
  congrArg Process.threads (if_pos h)

lemma boot_processes_of_le (h : cpuCount ≤ q) : (boot cpuCount).processes q = {} := if_neg h.not_gt

lemma mem_boot_threads (h : t ∈ ((boot cpuCount).processes q).threads) : t = q ∧ q < cpuCount := by
  by_cases hlt : q < cpuCount
  · rw [boot_threads_of_lt hlt, mem_singleton] at h
    exact ⟨h, hlt⟩
  · rw [boot_processes_of_le (not_lt.mp hlt)] at h
    exact absurd h not_mem_nil

lemma counted_boot (cpuCount : Nat) : Counted (boot cpuCount) (bootPlace cpuCount) where
  registered q hpr := absurd hpr not_mem_nil
  nodup q := by
    by_cases hlt : q < cpuCount
    · rw [boot_threads_of_lt hlt]
      exact nodup_singleton q
    · rw [boot_processes_of_le (not_lt.mp hlt)]
      exact nodup_nil
  lt q t ht := by
    obtain ⟨rfl, hlt⟩ := mem_boot_threads ht
    exact hlt
  owner q t ht := (mem_boot_threads ht).1
  member t halive := by
    refine .inl ⟨t, ?_, rfl⟩
    by_contra hlt
    have hle : cpuCount ≤ t := not_lt.mp hlt
    rw [bootPlace_of_le hle] at halive
    cases halive
  idle cpu hcpu := hcpu
  listed t ht := by
    have hself : t ∈ ((boot cpuCount).processes t).threads := by
      rw [boot_threads_of_lt (by exact ht)]
      exact mem_singleton_self t
    exact hself
  cpus := le_rfl
  uncreated q hpr := by rw [boot_processes_of_le (by exact hpr)]
  unregistered q hpr _ := by
    rw [boot_processes_of_le (by exact hpr)]
    exact ⟨rfl, by simp⟩
  counted q hpr := absurd hpr not_mem_nil

lemma sound_boot (cpuCount : Nat) : Sound (boot cpuCount) (bootPlace cpuCount) where
  placed := placed_boot cpuCount
  counted := counted_boot cpuCount
  killers :=
    { unique := fun _ _ ht => by cases ht
      exiting := fun _ ht => by cases ht
      dead := fun t ht => by
        rcases ht with ht | ht <;>
          exact absurd ht (bootPlace_ne (by simp) (by simp)) }

end

inductive Situation where
  | running
  | ready
  | blocked
  | finished

section

variable {Q : Type} (k : Tasks Q) (thread : Nat)

def Situation.Holds [Membership Nat Q] : Situation → Prop
  | .running => (k.threads thread).state = .running ∧ ∃! cpu, cpu < k.cpuCount ∧ (k.cpus cpu).currentThread = thread
  | .ready => (k.threads thread).state = .ready ∧ k.mReadyThreads.count thread = 1
  | .blocked => (k.threads thread).state = .blocked ∧
      ∃ blocker, (k.threads thread).blocker = some blocker ∧ thread ∉ k.mReadyThreads ∧
        (blocker ∈ k.mSleepingThreads ↔ (k.blockers blocker).type = .sleep)
  | .finished => (k.mDeferredDeletedDeadThreads ++ k.mThreadsToFree).count thread = 1

def Enlisted : Prop := (k.threads thread).state ≠ .undefined ∧ ∀ cpu < k.cpuCount, (k.cpus cpu).idleTask ≠ thread

/-- The thread has been registered, and it is on no list of finished threads. -/
def isUnfinished : Bool :=
  (k.threads thread).state ≠ .undefined && thread ∉ k.mDeferredDeletedDeadThreads ++ k.mThreadsToFree

end

variable {thread t : Nat} (h : Placed k p none)

section

include h

lemma Placed.current_place {cpu : Nat}
    (hcpu : cpu < k.cpuCount ∧ (k.cpus cpu).currentThread = t) : p t = .running cpu := by
  rw [← hcpu.2]
  exact h.onCpu cpu hcpu.1 (by simp)

lemma Placed.holds_running : Situation.running.Holds k t ↔ ∃ cpu, p t = .running cpu := by
  constructor
  · rintro ⟨-, cpu, hcpu, -⟩
    exact ⟨cpu, h.current_place hcpu⟩
  · rintro ⟨cpu, hp⟩
    have hfits := h.fits_of hp
    refine ⟨hfits.2.2.1 (by simp), cpu, ⟨hfits.1, hfits.2.1⟩, ?_⟩
    intro u hu
    have hsame := h.current_place hu
    rw [hp] at hsame
    exact (running.inj hsame).symm

lemma Placed.holds_ready : Situation.ready.Holds k t ↔ p t = .ready := by
  constructor
  · rintro ⟨-, hn⟩
    exact (h.ready.mem_iff t).mp (count_pos_iff.mp (by omega))
  · intro hp
    have hfits := h.fits_of hp
    exact ⟨hfits.1, count_eq_one_of_mem h.ready.nodup ((h.ready.mem_iff t).mpr hp)⟩

lemma Placed.holds_finished : Situation.finished.Holds k t ↔ (p t).isFinished = true := by
  rw [isFinished_iff, ← h.deferred.mem_iff, ← h.freed.mem_iff, ← mem_append]
  constructor
  · intro hn
    have hone : (k.mDeferredDeletedDeadThreads ++ k.mThreadsToFree).count t = 1 := hn
    exact count_pos_iff.mp (by omega)
  · apply count_eq_one_of_mem
    rw [nodup_append]
    refine ⟨h.deferred.nodup, h.freed.nodup, ?_⟩
    rintro a ha b hb rfl
    rw [h.deferred.mem_iff] at ha
    rw [h.freed.mem_iff, ha] at hb
    cases hb

lemma Placed.holds_blocked : Situation.blocked.Holds k t ↔ ∃ b, p t = .blocked b := by
  constructor
  · rintro ⟨hstate, b, hb, -, hsleeping⟩
    refine (h.place_of_blocked hstate).resolve_right fun hp => ?_
    -- A thread that has been freed while it slept is not among the sleeping ones any more.
    obtain ⟨u, hu, hcall, hsleep⟩ := (h.fits_of hp).2 hstate
    have heq : b = u := Option.some.inj (hb.symm.trans hu)
    have ht := (h.called t u (.inr hcall)).2
    have hmem := (h.sleeping u).mp (heq ▸ hsleeping.mpr (heq ▸ hsleep))
    rw [ht, hp] at hmem
    cases hmem.1
  · rintro ⟨b, hp⟩
    obtain ⟨hstate, -, hb, -, -⟩ := h.fits_of hp
    refine ⟨hstate, b, hb, ?_, ?_⟩
    · rw [h.ready.mem_iff, hp]
      simp
    · rw [h.sleeping, (h.blocker_lt hp).2, and_iff_right hp]

end

def Place.situation : Place → Situation
  | .running _ => .running
  | .ready => .ready
  | .blocked _ => .blocked
  | _ => .finished

include h in
lemma Placed.holds_iff (henlisted : k.Enlisted t)
    (situation : Situation) : situation.Holds k t ↔ situation = (p t).situation := by
  have hfits := h.fits t
  have hfresh : p t ≠ .fresh := by
    intro hp
    rw [hp] at hfits
    exact henlisted.1 hfits.1
  have hidle : p t ≠ .idle := by
    intro hp
    rw [hp] at hfits
    obtain ⟨-, -, -, -, cpu, hcpu, heq⟩ := hfits
    exact henlisted.2 cpu hcpu heq
  cases situation with
  | running =>
    rw [h.holds_running]
    cases hp : p t <;> simp_all [situation]
  | ready =>
    rw [h.holds_ready]
    cases hp : p t <;> simp_all [situation]
  | blocked =>
    rw [h.holds_blocked]
    cases hp : p t <;> simp_all [situation]
  | finished =>
    rw [h.holds_finished]
    cases hp : p t <;> simp_all [situation, isFinished]

lemma Sound.isAlive_eq (h : Sound k p) (hpr : q ∈ k.mProcesses)
    (ht : t ∈ (k.processes q).threads) : (p t).isAlive = k.isUnfinished t := by
  have hfits := h.placed.fits t
  have hlists : t ∈ k.mDeferredDeletedDeadThreads ++ k.mThreadsToFree ↔ (p t).isFinished = true := by
    rw [mem_append, h.placed.deferred.mem_iff, h.placed.freed.mem_iff, isFinished_iff]
  rw [Bool.eq_iff_iff, isUnfinished, Bool.and_eq_true, decide_eq_true_iff, decide_eq_true_iff, hlists]
  cases hp : p t with
  | idle =>
    rw [hp] at hfits
    obtain ⟨-, -, -, -, cpu, hcpu, heq⟩ := hfits
    exact absurd ht (h.counted.idle_notMem hcpu heq hpr)
  | running cpu =>
    rw [hp] at hfits
    simp [isAlive, isFinished, hfits.2.2.1 (by simp)]
  | fresh | ready | blocked b =>
    rw [hp] at hfits
    simp [isAlive, isFinished, hfits.1]
  | deferred | freed => simp [isAlive, isFinished]

/-- Two threads of a process. The one is unblocked before it is parked, and then ends the process while
the other one sleeps. -/
def sampleActions : List Action :=
  [.createProcess, .registerProcess 2, .createThread 2, .registerThread 3,
    .tick 0, .acquire 0, .pickNext 0 0, .switchTask 0,
    .tick 1, .acquire 1, .pickNext 1 0, .switchTask 1,
    .prepare 0 .io, .testUnblock 0, .block 0 0, .unblock 0,
    .acquire 0, .pickNext 0 0, .switchTask 0, .returnFromBlock 0,
    .sleep 1 5, .acquire 1, .pickNext 1 1, .switchTask 1,
    .exitProcess 0 1, .acquire 0, .pickNext 0 2, .switchTask 0]

end UltraOS.Tasks
