import UltraOS.Multitasking.Scheduler.Run

/-!
# The kernel stacks

Between the end of the section of `pick_next` and `switch_task` a CPU still executes on the stack of the
thread that it has left, while the thread may be in the ready queue already, or on the list of the
deferred ones. The stacks are safe as long as no other CPU enters the section in between.
-/

namespace UltraOS.Tasks

open Function

variable {k k' : Tasks} {p p' : Nat → Place} {cpu : Nat} {q : Nat}

section

/-- The CPUs, the lock and the list of the finalizer stay as they are. -/
structure Kept (k k' : Tasks) : Prop where
  cpus : k'.cpus = k.cpus
  cpuCount : k'.cpuCount = k.cpuCount
  queuesLock : k'.queuesLock = k.queuesLock
  mThreadsToFree : k'.mThreadsToFree = k.mThreadsToFree

variable {k'' : Tasks}

lemma Kept.trans (h : Kept k k') (h' : Kept k' k'') : Kept k k'' where
  cpus := h'.cpus.trans h.cpus
  cpuCount := h'.cpuCount.trans h.cpuCount
  queuesLock := h'.queuesLock.trans h.queuesLock
  mThreadsToFree := h'.mThreadsToFree.trans h.mThreadsToFree

/-- The flags of the threads and the owners of the mutexes stay as they are. -/
structure Guards (k k' : Tasks) : Prop where
  isInvulnerable : ∀ thread, (k'.threads thread).isInvulnerable = (k.threads thread).isInvulnerable
  mutexOwners : k'.mutexOwners = k.mutexOwners

lemma Guards.trans (h : Guards k k') (h' : Guards k' k'') : Guards k k'' where
  isInvulnerable t := (h'.isInvulnerable t).trans (h.isInvulnerable t)
  mutexOwners := h'.mutexOwners.trans h.mutexOwners

variable {t : Nat}

lemma Guards.of_update {new : Thread} (hths : k'.threads = update k.threads t new)
    (hnew : new.isInvulnerable = (k.threads t).isInvulnerable)
    (howners : k'.mutexOwners = k.mutexOwners) : Guards k k' where
  isInvulnerable := by
    rw [hths]
    exact field_eq _ (fun u hne => update_of_ne hne _ _) (by rw [update_self, hnew])
  mutexOwners := howners

lemma kept_insertReady (hok : k.insertReady t = .ok k') : Kept k k' ∧ Guards k k' := by
  rw [insertReady] at hok
  obtain ⟨_, -, hok⟩ := of_bind hok
  cases hok
  exact ⟨⟨rfl, rfl, rfl, rfl⟩, fun _ => rfl, rfl⟩

lemma kept_threadUnblock (hok : k.threadUnblock t = .ok k') : Kept k k' ∧ Guards k k' := by
  rw [threadUnblock] at hok
  split at hok
  · cases hok
  · cases hok
    split <;> exact ⟨⟨rfl, rfl, rfl, rfl⟩, Guards.of_update rfl rfl rfl⟩

lemma kept_unblockUnchecked {b : Nat} (hok : k.unblockUnchecked b = .ok k') : Kept k k' ∧ Guards k k' := by
  rw [unblockUnchecked] at hok
  split at hok
  · cases hok
    exact ⟨⟨rfl, rfl, rfl, rfl⟩, fun _ => rfl, rfl⟩
  · obtain ⟨k1, hunblock, hinsert⟩ := of_bind hok
    obtain ⟨hkept, hgrd⟩ := kept_threadUnblock hunblock
    obtain ⟨hkept', hguards'⟩ := kept_insertReady hinsert
    exact ⟨hkept.trans hkept', hgrd.trans hguards'⟩

lemma kept_registerLoop {threads : List Nat} (hok : registerLoop q threads k = .ok k') : Kept k k' ∧ Guards k k' := by
  induction threads generalizing k with
  | nil =>
    cases hok
    exact ⟨⟨rfl, rfl, rfl, rfl⟩, fun _ => rfl, rfl⟩
  | cons t threads ih =>
    rw [registerLoop] at hok
    obtain ⟨k1, hinsert, hrest⟩ := of_bind hok
    obtain ⟨hkept, hgrd⟩ := kept_insertReady hinsert
    obtain ⟨hkept', hguards'⟩ := ih hrest
    have hstart : Kept k k1 := Kept.trans (by exact ⟨rfl, rfl, rfl, rfl⟩) hkept
    have hstate : Guards k ((k.setState t .ready).incrementAliveThreadCount q) := Guards.of_update rfl rfl rfl
    exact ⟨hstart.trans hkept', (hstate.trans hgrd).trans hguards'⟩

end

def Action.acquiring : Action → Option Nat
  | .acquire cpu => some cpu
  | _ => none

/-- No other CPU is between the end of its section and its `switch_task` when a CPU takes the lock. -/
def Settled (k : Tasks) (action : Action) : Prop :=
  ∀ cpu ∈ action.acquiring.toList, ∀ other < k.cpuCount, other ≠ cpu → (k.cpus other).phase ≠ .unlocked

instance (k : Tasks) (action : Action) : Decidable (k.Settled action) :=
  inferInstanceAs (Decidable (∀ cpu ∈ action.acquiring.toList, _))

/-- Each stack is executed on by one CPU, and none of them has been handed to the finalizer. -/
def SafeStacks (k : Tasks) : Prop :=
  (∀ cpu < k.cpuCount, ∀ other < k.cpuCount, other ≠ cpu → (k.cpus other).stack ≠ (k.cpus cpu).stack) ∧
    ∀ cpu < k.cpuCount, (k.cpus cpu).stack ∉ k.mThreadsToFree

instance (k : Tasks) : Decidable k.SafeStacks := inferInstanceAs (Decidable (_ ∧ _))

/-- One CPU at most has left its thread without having left the stack of it. -/
structure Windows (k : Tasks) (place : Nat → Place) : Prop where
  locked : ∀ cpu < k.cpuCount, (k.cpus cpu).phase = .locked → k.queuesLock = some cpu
  settled : ∀ cpu < k.cpuCount, (k.cpus cpu).phase ≠ .unlocked → (k.cpus cpu).stack = (k.cpus cpu).currentThread
  alone : ∀ cpu < k.cpuCount, (k.cpus cpu).phase = .unlocked → ∀ other < k.cpuCount, other ≠ cpu →
    (k.cpus other).phase ≠ .unlocked ∧ (k.cpus other).phase ≠ .locked
  left : ∀ cpu < k.cpuCount, (k.cpus cpu).phase = .unlocked →
    place (k.cpus cpu).stack ≠ .fresh ∧ (k.cpus cpu).stack ∉ k.mThreadsToFree ∧
      ∀ other < k.cpuCount, other ≠ cpu → (k.cpus other).currentThread ≠ (k.cpus cpu).stack

lemma Placed.currentThread_ne (h : Placed k p none) {u : Nat} (hcpu : cpu < k.cpuCount)
    (hu : u < k.cpuCount) (hne : u ≠ cpu) : (k.cpus u).currentThread ≠ (k.cpus cpu).currentThread := by
  intro heq
  have hp := h.onCpu u hu (by simp)
  rw [heq, h.onCpu cpu hcpu (by simp)] at hp
  exact hne (Place.running.inj hp).symm

lemma Windows.safeStacks (hw : Windows k p) (h : Placed k p none) : SafeStacks k := by
  constructor
  · intro cpu hcpu u hu hne
    by_cases hphase : (k.cpus cpu).phase = .unlocked
    · obtain ⟨-, -, hcurrents⟩ := hw.left cpu hcpu hphase
      rw [hw.settled u hu (hw.alone cpu hcpu hphase u hu hne).1]
      exact hcurrents u hu hne
    · rw [hw.settled cpu hcpu hphase]
      by_cases hphase' : (k.cpus u).phase = .unlocked
      · obtain ⟨-, -, hcurrents⟩ := hw.left u hu hphase'
        exact (hcurrents cpu hcpu hne.symm).symm
      · rw [hw.settled u hu hphase']
        exact h.currentThread_ne hcpu hu hne
  · intro cpu hcpu
    by_cases hphase : (k.cpus cpu).phase = .unlocked
    · exact (hw.left cpu hcpu hphase).2.1
    · rw [hw.settled cpu hcpu hphase, h.freed.mem_iff, h.onCpu cpu hcpu (by simp)]
      simp

lemma windows_boot (cpuCount : Nat) : Windows (boot cpuCount) (bootPlace cpuCount) where
  locked _ _ hphase := by cases hphase
  settled _ _ _ := rfl
  alone _ _ hphase := by cases hphase
  left _ _ hphase := by cases hphase

lemma Windows.stay (hw : Windows k p) (hcpus : k'.cpus = k.cpus) (hn : k'.cpuCount = k.cpuCount)
    (hlock : k'.queuesLock = k.queuesLock) (hfree : ∀ t, p t ≠ .fresh → t ∉ k.mThreadsToFree → t ∉ k'.mThreadsToFree)
    (hfresh : ∀ t, p' t = .fresh → p t = .fresh) : Windows k' p' where
  locked := by
    rw [hn, hcpus, hlock]
    exact hw.locked
  settled := by
    rw [hn, hcpus]
    exact hw.settled
  alone := by
    rw [hn, hcpus]
    exact hw.alone
  left := by
    rw [hn, hcpus]
    intro cpu hcpu hphase
    obtain ⟨hp, hstack, hrest⟩ := hw.left cpu hcpu hphase
    exact ⟨fun heq => hp (hfresh _ heq), hfree _ hp hstack, hrest⟩

lemma Windows.keep (hw : Windows k p) (hkept : Kept k k')
    (hfresh : ∀ t, p' t = .fresh → p t = .fresh) : Windows k' p' :=
  hw.stay hkept.cpus hkept.cpuCount hkept.queuesLock (fun _ _ ht => hkept.mThreadsToFree ▸ ht) hfresh

lemma Windows.advance {phase : CpuPhase} {stack : Nat} (hw : Windows k p)
    (hcpus : k'.cpus = update k.cpus cpu { k.cpus cpu with phase := phase, stack := stack })
    (hn : k'.cpuCount = k.cpuCount) (hfree : k'.mThreadsToFree = k.mThreadsToFree)
    (hlock : phase = .locked → k'.queuesLock = some cpu)
    (hlocks : ∀ u, u ≠ cpu → k.queuesLock = some u → k'.queuesLock = some u) (hphase : phase ≠ .unlocked)
    (hstack : stack = (k.cpus cpu).currentThread)
    (halone : phase = .locked → ∀ u < k.cpuCount, u ≠ cpu → (k.cpus u).phase ≠ .unlocked) : Windows k' p := by
  have hself : k'.cpus cpu = { k.cpus cpu with phase := phase, stack := stack } := by rw [hcpus, update_self]
  have hoth (u : Nat) (hne : u ≠ cpu) : k'.cpus u = k.cpus u := by rw [hcpus, update_of_ne hne]
  have hne {u : Nat} (hunl : (k'.cpus u).phase = .unlocked) : u ≠ cpu := by
    rintro rfl
    rw [hself] at hunl
    exact hphase hunl
  constructor
  · intro u hu hlocked
    rw [hn] at hu
    by_cases heq : u = cpu
    · rw [heq] at hlocked ⊢
      rw [hself] at hlocked
      exact hlock hlocked
    · rw [hoth u heq] at hlocked
      exact hlocks u heq (hw.locked u hu hlocked)
  · intro u hu hunl
    rw [hn] at hu
    by_cases heq : u = cpu
    · rwa [heq, hself]
    · rw [hoth u heq] at hunl ⊢
      exact hw.settled u hu hunl
  · intro u hu hunl third hthird hthird'
    have heq := hne hunl
    rw [hn] at hu hthird
    rw [hoth u heq] at hunl
    by_cases heq' : third = cpu
    · rw [heq', hself]
      exact ⟨hphase, fun hlocked => halone hlocked u hu heq hunl⟩
    · rw [hoth third heq']
      exact hw.alone u hu hunl third hthird hthird'
  · intro u hu hunl
    have heq := hne hunl
    rw [hn] at hu ⊢
    rw [hoth u heq] at hunl ⊢
    obtain ⟨hp, hstack', hcurrents⟩ := hw.left u hu hunl
    refine ⟨hp, hfree ▸ hstack', fun third hthird hthird' => ?_⟩
    rw [field_eq Cpu.currentThread hoth (by rw [hself])]
    exact hcurrents third hthird hthird'

lemma Windows.pickNext {now : Nat} (hw : Windows k p) (h : Sound k p) (hcpu : cpu < k.cpuCount)
    (hphase : (k.cpus cpu).phase = .locked) : ∃ k' p', k.pickNext cpu now = .ok k' ∧ Sound k' p' ∧ Windows k' p' := by
  obtain ⟨k', p', hok, hpl, hcnt, hkillers, hret, hoth, hstack, hunl, hlock, hkept,
    -⟩ := pickNext_spec h.placed h.counted h.killers hcpu now
  have hp := h.placed.onCpu cpu hcpu (by simp)
  have hsettled := hw.settled cpu hcpu (by simp [hphase])
  -- No CPU has the lock, or is in the window, besides this one.
  have halone : ∀ u < k.cpuCount, u ≠ cpu → (k.cpus u).phase ≠ .unlocked ∧ (k.cpus u).phase ≠ .locked := by
    intro u hu hne
    constructor
    · intro hother'
      exact (hw.alone u hu hother' cpu hcpu hne.symm).2 hphase
    · intro hother'
      have hlocked := hw.locked u hu hother'
      rw [hw.locked cpu hcpu hphase] at hlocked
      exact hne (Option.some.inj hlocked).symm
  refine ⟨k', p', hok, ⟨hpl, hcnt, hkillers⟩, ?_⟩
  have hcases {u : Nat} (hu : u < k'.cpuCount) (hunl : (k'.cpus u).phase = .unlocked) :
      u = cpu := by
    rw [hret.cpuCount] at hu
    by_contra hne
    rw [hoth u hne] at hunl
    exact (halone u hu hne).1 hunl
  refine
    { locked := fun u hu hlocked => ?_
      settled := fun u hu hphase' => ?_
      alone := fun u hu hphase' third hthird hne => ?_
      left := fun u hu hphase' => ?_ }
  · rw [hret.cpuCount] at hu
    by_cases hne : u = cpu
    · rw [hne, hunl] at hlocked
      cases hlocked
    · rw [hoth u hne] at hlocked
      exact absurd hlocked (halone u hu hne).2
  · rw [hret.cpuCount] at hu
    have hne : u ≠ cpu := fun heq => hphase' (heq ▸ hunl)
    rw [hoth u hne]
    exact hw.settled u hu (halone u hu hne).1
  · obtain rfl := hcases hu hphase'
    rw [hret.cpuCount] at hthird
    rw [hoth third hne]
    exact halone third hthird hne
  · obtain rfl := hcases hu hphase'
    rw [hstack, hsettled]
    refine ⟨?_, hkept, fun third hthird hne => ?_⟩
    · rw [Ne, hret.fresh, hp]
      simp
    · rw [hret.cpuCount] at hthird
      rw [hoth third hne]
      exact h.placed.currentThread_ne hcpu hthird hne

/-- The CPU enters the scheduler, and the other ones, the lock and the list of the finalizer stay. -/
structure Entered (k k' : Tasks) (cpu : Nat) : Prop where
  cpus : k'.cpus = update k.cpus cpu { k.cpus cpu with phase := .scheduling }
  cpuCount : k'.cpuCount = k.cpuCount
  queuesLock : k'.queuesLock = k.queuesLock
  mThreadsToFree : k'.mThreadsToFree = k.mThreadsToFree

lemma Windows.entered (hw : Windows k p) (hexec : k.Executes cpu) (h : Entered k k' cpu) : Windows k' p := by
  apply hw.advance h.cpus h.cpuCount h.mThreadsToFree
  · simp
  · intro u _ heq
    rw [h.queuesLock, heq]
  · simp
  · exact hw.settled cpu hexec.1 (by simp [hexec.2])
  · simp

lemma exitProcessWith_alive (halive : (k.processes q).state = .alive) (code : Int) : k.exitProcessWith q code =
    (k.updateProcess q fun p => { p with state := .exiting, exitCode := code }, true) :=
  if_pos halive

lemma entered_exitProcess (k : Tasks) (cpu : Nat) (code : Int) : Entered k (k.exitProcess cpu code) cpu := by
  rw [Tasks.exitProcess]
  by_cases halive : (k.processes (k.threads (k.cpus cpu).currentThread).owner).state = .alive
  · rw [exitProcessWith_alive halive]
    exact ⟨rfl, rfl, rfl, rfl⟩
  · rw [exitProcessWith_not_first halive]
    exact ⟨rfl, rfl, rfl, rfl⟩

lemma step_windows (h : Sound k p) (hw : Windows k p) (action : Action) (hperm : k.Permits action)
    (hsettled : k.Settled action) : ∃ k' p', k.step action = .ok k' ∧ Sound k' p' ∧ Windows k' p' := by
  obtain ⟨k', p', hok, hsound, hmoves⟩ := step_sound h action hperm
  have hkeep {k1 : Tasks} (heq : k.step action = .ok k1) (hkept : Kept k k1) :
      ∃ k' p', k.step action = .ok k' ∧ Sound k' p' ∧ Windows k' p' := by
    cases hok.symm.trans heq
    exact ⟨k', p', hok, hsound, hw.keep hkept hmoves.fresh⟩
  have henter {cpu : Nat} {k1 : Tasks} (hexec : k.Executes cpu) (heq : k.step action = .ok k1)
      (hentered : Entered k k1 cpu) :
      ∃ k' p', k.step action = .ok k' ∧ Sound k' p' ∧ Windows k' p' := by
    cases hok.symm.trans heq
    exact ⟨k', p', hok, hsound, (hw.entered hexec hentered).keep ⟨rfl, rfl, rfl, rfl⟩ hmoves.fresh⟩
  cases action with
  | createProcess | setInvulnerable cpu v | prepare cpu type | returnFromBlock cpu => exact hkeep rfl ⟨rfl, rfl, rfl, rfl⟩
  | registerProcess q =>
    refine hkeep hok ?_
    rw [step, Tasks.registerProcess] at hok
    obtain ⟨_, -, hloop⟩ := of_bind hok
    exact Kept.trans (by exact ⟨rfl, rfl, rfl, rfl⟩) (kept_registerLoop hloop).1
  | createThread q =>
    refine hkeep rfl ?_
    rw [Tasks.createThread]
    split <;> exact ⟨rfl, rfl, rfl, rfl⟩
  | registerThread t =>
    rcases h.registerThread hperm.1 hperm.2.1 hperm.2.2.1 with
      ⟨-, heq, -⟩ | ⟨-, heq, -⟩
    · exact hkeep heq ⟨rfl, rfl, rfl, rfl⟩
    · cases hok.symm.trans heq
      refine ⟨_, p', hok, hsound, hw.stay rfl rfl rfl (fun u hu hnot => ?_) hmoves.fresh⟩
      -- The thread was in no window, as it had never run.
      have hne : u ≠ t := by
        rintro rfl
        exact hu (h.placed.fresh_of_undefined hperm.2.1)
      intro hmem
      rcases List.mem_append.mp hmem with hmem | hmem
      · exact hnot hmem
      · exact hne (List.mem_singleton.mp hmem)
  | lockMutex cpu mutex =>
    refine hkeep hok ?_
    rw [step, lockMutex] at hok
    obtain ⟨_, -, hok⟩ := of_bind hok
    obtain ⟨_, -, hok⟩ := of_bind hok
    split at hok <;> obtain rfl := Except.ok.inj hok <;> exact ⟨rfl, rfl, rfl, rfl⟩
  | unlockMutex cpu mutex =>
    refine hkeep hok ?_
    rw [step, unlockMutex] at hok
    obtain ⟨_, -, hok⟩ := of_bind hok
    cases hok
    exact ⟨rfl, rfl, rfl, rfl⟩
  | block cpu b => exact henter hperm.1.1 (block_eq h.placed hperm.1.1) ⟨rfl, rfl, rfl, rfl⟩
  | sleep cpu wakeTime =>
    exact henter hperm.1.1 (block_eq (h.prepare hperm.1.1 .sleep wakeTime).placed hperm.1.1) ⟨rfl, rfl, rfl, rfl⟩
  | testUnblock b =>
    refine hkeep rfl ?_
    rw [testUnblock]
    split <;> exact ⟨rfl, rfl, rfl, rfl⟩
  | unblock b =>
    refine hkeep hok ?_
    exact Kept.trans (by exact ⟨rfl, rfl, rfl, rfl⟩) (kept_unblockUnchecked hok).1
  | exitThread cpu code => exact henter hperm.1 rfl ⟨rfl, rfl, rfl, rfl⟩
  | exitProcess cpu code => exact henter hperm.1 rfl (entered_exitProcess k cpu code)
  | crash cpu code =>
    have hentered := entered_exitProcess k cpu (-code)
    have hcrash : Entered k (k.crash cpu code) cpu :=
      ⟨hentered.cpus, hentered.cpuCount, hentered.queuesLock, hentered.mThreadsToFree⟩
    exact henter hperm.1 rfl hcrash
  | tick cpu => exact henter hperm rfl ⟨rfl, rfl, rfl, rfl⟩
  | acquire cpu =>
    cases hok
    have hwindows : Windows (k.acquire cpu) p := by
      have hcpus : (k.acquire cpu).cpus =
          update k.cpus cpu { k.cpus cpu with phase := .locked, stack := (k.cpus cpu).stack } := rfl
      apply hw.advance hcpus rfl rfl
      · exact fun _ => rfl
      · intro u _ heq
        rw [hperm.2.2] at heq
        cases heq
      · simp
      · exact hw.settled cpu hperm.1 (by simp [hperm.2.1])
      · exact fun _ => hsettled cpu (by simp [Action.acquiring])
    exact ⟨_, p', rfl, hsound, hwindows.keep ⟨rfl, rfl, rfl, rfl⟩ hmoves.fresh⟩
  | pickNext cpu now => exact hw.pickNext h hperm.1 hperm.2
  | switchTask cpu =>
    cases hok
    have hwindows : Windows (k.switchTask cpu) p := by
      have hcpus : (k.switchTask cpu).cpus =
          update k.cpus cpu { k.cpus cpu with phase := .thread, stack := (k.cpus cpu).currentThread } := rfl
      apply hw.advance hcpus rfl rfl
      · simp
      · exact fun _ _ heq => heq
      · simp
      · rfl
      · simp
    exact ⟨_, p', rfl, hsound, hwindows.keep ⟨rfl, rfl, rfl, rfl⟩ hmoves.fresh⟩

/-- The stacks are safe along every run in which no CPU takes the lock while another one has left its
thread, but not the stack of it. -/
theorem safeStacks_run (cpuCount : Nat) (actions : List Action)
    (hadmissible : scheduler.Admissible (boot cpuCount) actions)
    (hsettled : scheduler.EveryStep Settled (boot cpuCount) actions) :
    scheduler.EveryState SafeStacks (boot cpuCount) actions := by
  apply Machine.everyState_of_everyStep (I := fun k => ∃ p, Sound k p ∧ Windows k p) _ _
    ⟨bootPlace cpuCount, sound_boot cpuCount, windows_boot cpuCount⟩ hadmissible hsettled
  · rintro k ⟨p, h, hw⟩
    exact hw.safeStacks h.placed
  · rintro k action ⟨p, h, hw⟩ hperm hsettled
    obtain ⟨k', p', hok, hsound, hwindows⟩ := step_windows h hw action hperm hsettled
    exact ⟨k', hok, p', hsound, hwindows⟩

theorem safeStacks_run_sample : (scheduler.Admissible (boot 2) sampleActions ∧
    scheduler.EveryStep Settled (boot 2) sampleActions) ∧ scheduler.EveryState SafeStacks (boot 2) sampleActions :=
  ⟨by decide +kernel, safeStacks_run 2 sampleActions (by decide +kernel) (by decide +kernel)⟩

/-- The thread of a CPU is put back into the ready queue for a second one. -/
def handover : List Action :=
  [.createProcess, .registerProcess 2, .tick 0, .acquire 0, .pickNext 0 0, .switchTask 0,
    .createProcess, .registerProcess 3, .tick 0, .acquire 0, .pickNext 0 0]

def death : List Action :=
  [.createProcess, .registerProcess 2, .tick 0, .acquire 0, .pickNext 0 0, .switchTask 0,
    .exitThread 0 0, .acquire 0, .pickNext 0 0]

/-- Another CPU takes the thread before the first one has left the stack, or hands it to the
finalizer. -/
theorem not_safeStacks :
    (scheduler.Admissible (boot 2) (handover ++ [.tick 1, .acquire 1, .pickNext 1 0, .switchTask 1]) ∧
      ¬ scheduler.EveryState SafeStacks (boot 2) (handover ++ [.tick 1, .acquire 1, .pickNext 1 0, .switchTask 1])) ∧
    (scheduler.Admissible (boot 2) (death ++ [.tick 1, .acquire 1, .pickNext 1 0]) ∧
      ¬ scheduler.EveryState SafeStacks (boot 2) (death ++ [.tick 1, .acquire 1, .pickNext 1 0])) := by
  decide +kernel

end UltraOS.Tasks
