import UltraOS.Multitasking.Scheduler.Stacks

/-!
# Invulnerable threads

A thread with the flag does not die of its own accord. The thread that exits its process, however, takes
the others along by the queues they are in, and does not look at their flags.
-/

namespace UltraOS.Tasks

variable {k k' : Tasks} {p p' : Nat → Place} {cpu : Nat} {action : Action}

section

def IsQueued (k : Tasks) (thread : Nat) : Prop :=
  thread ∈ k.mReadyThreads ∨ ∃ blocker ∈ k.mSleepingThreads, (k.blockers blocker).thread = thread

/-- A thread that dies and exits its process has no invulnerable sibling in a queue. -/
def Merciful (k : Tasks) : Action → Prop
  | .pickNext cpu _ =>
    k.Dies cpu → (k.threads (k.cpus cpu).currentThread).shouldKillAllThreads = true →
    ∀ thread ∈ (k.processes (k.threads (k.cpus cpu).currentThread).owner).threads,
      k.IsQueued thread → (k.threads thread).isInvulnerable = false
  | _ => True

def Unharmed (k : Tasks) : Prop :=
  ∀ thread ∈ k.mDeferredDeletedDeadThreads ++ k.mThreadsToFree,
    (k.threads thread).isInvulnerable = false ∧ ∀ owned ∈ k.mutexOwners, owned.2 ≠ thread

instance (k : Tasks) : Decidable k.Unharmed := inferInstanceAs (Decidable (∀ thread ∈ _, _))

/-- The owners of the mutexes are invulnerable, and finished threads and new ones are not. -/
structure Guarded (k : Tasks) (place : Nat → Place) : Prop where
  finished : ∀ thread, (place thread).isFinished = true → (k.threads thread).isInvulnerable = false
  fresh : ∀ thread, place thread = .fresh → (k.threads thread).isInvulnerable = false
  owners : ∀ owned ∈ k.mutexOwners, (k.threads owned.2).isInvulnerable = true

variable {t : Nat}

lemma Placed.mem_finished (h : Placed k p none) :
    t ∈ k.mDeferredDeletedDeadThreads ++ k.mThreadsToFree ↔ (p t).isFinished = true := by
  rw [List.mem_append, h.deferred.mem_iff, h.freed.mem_iff, isFinished_iff]

lemma Placed.exposed_iff (h : Placed k p none) : Exposed k p t ↔ k.IsQueued t := by
  rw [Exposed, IsQueued, h.ready.mem_iff]
  apply or_congr_right
  constructor
  · rintro ⟨b, hp, hsleep⟩
    have ht := (h.blocker_lt hp).2
    exact ⟨b, (h.sleeping b).mpr ⟨ht ▸ hp, hsleep⟩, ht⟩
  · rintro ⟨b, hmem, rfl⟩
    obtain ⟨hp, hsleep⟩ := (h.sleeping b).mp hmem
    exact ⟨b, hp, hsleep⟩

lemma Guarded.unharmed (hg : Guarded k p) (h : Placed k p none) : Unharmed k := by
  intro t ht
  have hflag := hg.finished t (h.mem_finished.mp ht)
  refine ⟨hflag, ?_⟩
  rintro owned howned rfl
  rw [hg.owners owned howned] at hflag
  cases hflag

lemma guarded_boot (cpuCount : Nat) : Guarded (boot cpuCount) (bootPlace cpuCount) where
  finished _ _ := rfl
  fresh _ _ := rfl
  owners _ howned := absurd howned List.not_mem_nil

lemma Guarded.keep (hg : Guarded k p) (hgrd : Guards k k') (hmoves : Moves k k' p p' action)
    (hends : ∀ t, Ends k p action t → (k.threads t).isInvulnerable = false) : Guarded k' p' where
  finished t ht := by
    rw [hgrd.isInvulnerable]
    rcases (hmoves.finished t).mp ht with hold | hnew
    · exact hg.finished t hold
    · exact hends t hnew
  fresh t ht := by
    rw [hgrd.isInvulnerable]
    exact hg.fresh t (hmoves.fresh t ht)
  owners owned howned := by
    rw [hgrd.isInvulnerable]
    exact hg.owners owned (hgrd.mutexOwners ▸ howned)

end

lemma guards_exitProcess (k : Tasks) (cpu : Nat) (code : Int) : Guards k (k.exitProcess cpu code) := by
  rw [Tasks.exitProcess]
  by_cases halive : (k.processes (k.threads (k.cpus cpu).currentThread).owner).state = .alive
  · rw [exitProcessWith_alive halive]
    have hkiller : Guards k (k.updateThread (k.cpus cpu).currentThread fun t =>
        { t with shouldKillAllThreads := true }) := Guards.of_update rfl rfl rfl
    exact hkiller.trans (Guards.of_update rfl rfl rfl)
  · rw [exitProcessWith_not_first halive]
    exact Guards.of_update rfl rfl rfl

lemma Guarded.current (hg : Guarded k p) (h : Sound k p) (hcpu : cpu < k.cpuCount)
    (hoth : ∀ u, u ≠ (k.cpus cpu).currentThread → (k'.threads u).isInvulnerable = (k.threads u).isInvulnerable)
    (howners : ∀ owned ∈ k'.mutexOwners, owned ∈ k.mutexOwners ∧ owned.2 ≠ (k.cpus cpu).currentThread ∨
      (k'.threads owned.2).isInvulnerable = true) : Guarded k' p := by
  have hp := h.placed.onCpu cpu hcpu (by simp)
  refine ⟨fun t ht => ?_, fun t ht => ?_, fun owned howned => ?_⟩
  · rw [hoth t]
    · exact hg.finished t ht
    · rintro rfl
      rw [hp] at ht
      cases ht
  · rw [hoth t]
    · exact hg.fresh t ht
    · rintro rfl
      rw [hp] at ht
      cases ht
  · rcases howners owned howned with ⟨hold, hne⟩ | hflag
    · rw [hoth _ hne]
      exact hg.owners owned hold
    · exact hflag

lemma step_guarded (h : Sound k p) (hg : Guarded k p) (action : Action) (hperm : k.Permits action)
    (hmerciful : k.Merciful action) : ∃ k' p', k.step action = .ok k' ∧ Sound k' p' ∧ Guarded k' p' := by
  obtain ⟨k', p', hok, hsound, hmoves⟩ := step_sound h action hperm
  have hkeep {k1 : Tasks} (hends : ∀ t, Ends k p action t →
      (k.threads t).isInvulnerable = false) (heq : k.step action = .ok k1) (hgrd : Guards k k1) :
      ∃ k' p', k.step action = .ok k' ∧ Sound k' p' ∧ Guarded k' p' := by
    cases hok.symm.trans heq
    exact ⟨k', p', hok, hsound, hg.keep hgrd hmoves hends⟩
  -- A new thread has the flag that its number has had before.
  have hnew := hg.fresh k.threadCount (h.placed.fresh _ le_rfl)
  cases action with
  | createProcess => exact hkeep (fun _ => False.elim) rfl (Guards.of_update rfl hnew.symm rfl)
  | registerProcess q =>
    refine hkeep (fun _ => False.elim) hok ?_
    rw [step, Tasks.registerProcess] at hok
    obtain ⟨_, -, hloop⟩ := of_bind hok
    exact Guards.trans (by exact ⟨fun _ => rfl, rfl⟩) (kept_registerLoop hloop).2
  | createThread q =>
    refine hkeep (fun _ => False.elim) rfl ?_
    rw [Tasks.createThread]
    split
    · exact Guards.of_update rfl hnew.symm rfl
    · exact ⟨fun _ => rfl, rfl⟩
  | registerThread t =>
    have hends (u : Nat) (hu : Ends k p (.registerThread t) u) : (k.threads u).isInvulnerable = false := by
      rw [hu.1]
      exact hg.fresh t (h.placed.fresh_of_undefined hperm.2.1)
    rcases h.registerThread hperm.1 hperm.2.1 hperm.2.2.1 with
      ⟨-, heq, -⟩ | ⟨-, heq, -⟩ <;> exact hkeep hends heq (Guards.of_update rfl rfl rfl)
  | setInvulnerable cpu v =>
    refine ⟨_, p, rfl, h.setInvulnerable hperm.1 v, ?_⟩
    apply hg.current h hperm.1.1.1
    · intro u hne
      have heq : (k.setInvulnerable cpu v).threads u = k.threads u := Function.update_of_ne hne _ _
      rw [heq]
    · intro owned howned
      by_cases hself : owned.2 = (k.cpus cpu).currentThread
      · have hv : v = true := by
          refine hperm.2.resolve_right fun hnone => ?_
          exact hnone owned howned hself
        have heq : (k.setInvulnerable cpu v).threads (k.cpus cpu).currentThread =
            { k.threads (k.cpus cpu).currentThread with isInvulnerable := v } :=
          Function.update_self ..
        right
        rw [hself, heq, hv]
      · exact .inl ⟨howned, hself⟩
  | lockMutex cpu mutex =>
    obtain ⟨hexec, -, hinvulnerable, howner⟩ := hperm
    have heq := hok
    rw [step, lockMutex, hinvulnerable, assert_true, ok_bind, assert_bind howner] at hok
    split at hok
    · cases hok
      refine ⟨_, p, heq, h.withMutexes _ k.unblockers, ?_⟩
      refine hg.current h hexec.1.1 (fun _ _ => rfl) fun owned howned => ?_
      right
      rcases List.mem_cons.mp howned with rfl | hold
      · exact hinvulnerable
      · exact hg.owners owned hold
    · cases hok
      exact hkeep (fun _ => False.elim) heq (Guards.of_update rfl rfl rfl)
  | unlockMutex cpu mutex =>
    have heq := hok
    rw [step, unlockMutex, assert_bind hperm.2] at hok
    cases hok
    refine ⟨_, p, heq, h.withMutexes _ k.unblockers, ?_⟩
    refine hg.current h hperm.1.1.1 (fun _ _ => rfl) fun owned howned => ?_
    exact .inr (hg.owners owned (List.mem_filter.mp howned).1)
  | prepare cpu type | returnFromBlock cpu | exitThread cpu code => exact hkeep (fun _ => False.elim) rfl (Guards.of_update rfl rfl rfl)
  | block cpu b => exact hkeep (fun _ => False.elim) (block_eq h.placed hperm.1.1) (Guards.of_update rfl rfl rfl)
  | sleep cpu wakeTime =>
    have hprepare : Guards k (k.prepare cpu .sleep wakeTime) := Guards.of_update rfl rfl rfl
    exact hkeep (fun _ => False.elim) (block_eq (h.prepare hperm.1.1 .sleep wakeTime).placed hperm.1.1)
      (hprepare.trans (Guards.of_update rfl rfl rfl))
  | testUnblock b =>
    refine hkeep (fun _ => False.elim) rfl ?_
    rw [testUnblock]
    split <;> exact ⟨fun _ => rfl, rfl⟩
  | unblock b =>
    exact hkeep (fun _ => False.elim) hok (Guards.trans (by exact ⟨fun _ => rfl, rfl⟩) (kept_unblockUnchecked hok).2)
  | exitProcess cpu code => exact hkeep (fun _ => False.elim) rfl (guards_exitProcess k cpu code)
  | crash cpu code =>
    have hcrash : Guards k (k.crash cpu code) := (guards_exitProcess k cpu (-code)).trans ⟨fun _ => rfl, rfl⟩
    exact hkeep (fun _ => False.elim) rfl hcrash
  | tick cpu | acquire cpu | switchTask cpu => exact hkeep (fun _ => False.elim) rfl ⟨fun _ => rfl, rfl⟩
  | pickNext cpu now =>
    obtain ⟨k1, place1, heq, -, -, -, hret, -⟩ := pickNext_spec h.placed h.counted h.killers hperm.1 now
    refine hkeep ?_ heq ⟨hret.isInvulnerable, hret.mutexOwners⟩
    rintro t ⟨hdies, rfl | ⟨hkiller, hmem, hexposed⟩⟩
    · exact hdies.2
    · exact hmerciful hdies hkiller t hmem (h.placed.exposed_iff.mp hexposed)

lemma not_unharmed_of_not_merciful (h : Sound k p) (hperm : k.Permits action)
    (hmerciful : ¬ k.Merciful action) (hok : k.step action = .ok k') : ¬ Unharmed k' := by
  cases action with
  | pickNext cpu now =>
    obtain ⟨k1, p', heq, hpl, -, -, hret, -⟩ := pickNext_spec h.placed h.counted h.killers hperm.1 now
    cases hok.symm.trans heq
    intro hunharmed
    apply hmerciful
    intro hdies hkiller t hmem hqueued
    have hcondemned : Condemned k p (k.cpus cpu).currentThread t :=
      .inr ⟨hkiller, hmem, h.placed.exposed_iff.mpr hqueued⟩
    have hfin := (hret.finished t).mpr (.inr ⟨hdies, hcondemned⟩)
    rw [← hret.isInvulnerable]
    exact (hunharmed t (hpl.mem_finished.mpr hfin)).1
  | _ => exact absurd trivial hmerciful

/-- Invulnerable threads are spared exactly along the runs in which no thread that exits its process has
an invulnerable sibling in a queue. -/
theorem unharmed_run_iff (cpuCount : Nat) (actions : List Action)
    (hadmissible : scheduler.Admissible (boot cpuCount) actions) :
    scheduler.EveryState Unharmed (boot cpuCount) actions ↔ scheduler.EveryStep Merciful (boot cpuCount) actions := by
  apply Machine.everyState_iff_everyStep (I := fun k => ∃ p, Sound k p ∧ Guarded k p) _ _ _
    ⟨bootPlace cpuCount, sound_boot cpuCount, guarded_boot cpuCount⟩ hadmissible
  · rintro k ⟨p, h, hg⟩
    exact hg.unharmed h.placed
  · rintro k action ⟨p, h, hg⟩ hperm hmerciful
    obtain ⟨k', p', hok, hsound, hguarded⟩ := step_guarded h hg action hperm hmerciful
    exact ⟨k', hok, p', hsound, hguarded⟩
  · rintro k action k' ⟨p, h, -⟩ hperm hmerciful hok
    exact not_unharmed_of_not_merciful h hperm hmerciful hok

def massacre : List Action :=
  [.createProcess, .registerProcess 1, .createThread 1, .registerThread 2,
    .tick 0, .acquire 0, .pickNext 0 0, .switchTask 0,
    .setInvulnerable 0 true, .lockMutex 0 7, .tick 0, .acquire 0, .pickNext 0 0, .switchTask 0,
    .exitProcess 0 0, .acquire 0, .pickNext 0 0]

/-- The thread is invulnerable for a while and exits its process then. -/
theorem unharmed_run_iff_sample : scheduler.EveryStep Merciful (boot 1)
    (massacre.take 9 ++ [.setInvulnerable 0 false, .exitProcess 0 0, .acquire 0, .pickNext 0 0]) :=
  (unharmed_run_iff 1 _ (by decide +kernel)).mp (by decide +kernel)

theorem not_unharmed_massacre : scheduler.Admissible (boot 1) massacre ∧
    ¬ scheduler.EveryState Unharmed (boot 1) massacre := by
  decide +kernel

end UltraOS.Tasks
