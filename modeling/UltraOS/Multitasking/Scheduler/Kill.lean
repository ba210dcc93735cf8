import Mathlib.Data.List.TakeWhile
import UltraOS.Multitasking.Scheduler.Sections

/-!
# The killing of threads

`kill_current_thread` for the current thread alone and for all threads of its process. The threads that
are ready or asleep are freed, those that another blocker can be interrupted for become ready, and the
other ones are only told to die.
-/

namespace UltraOS.Tasks

open List Function Queue.Flows

variable {k k' : Tasks} {place : Nat → Place} {t cur p cpu blocker : Nat} {k'' : Tasks}
  (h : Placed k place (some cpu)) (hc : Counted k place) (hreg : k.Registered t)
  (hcpu : (k.cpus cpu).currentThread = cur)

/-- One thread changes, but keeps what the scheduler never changes. -/
structure Strikes (k k' : Tasks) (thread : Nat) : Prop extends Frame k k' thread where
  shouldKillAllThreads : (k'.threads thread).shouldKillAllThreads = (k.threads thread).shouldKillAllThreads
  isInvulnerable : (k'.threads thread).isInvulnerable = (k.threads thread).isInvulnerable
  processState : ∀ process, (k'.processes process).state = (k.processes process).state
  mutexOwners : k'.mutexOwners = k.mutexOwners

lemma Strikes.trans (h : Strikes k k' t) (h' : Strikes k' k'' t) : Strikes k k'' t where
  threads other hne := (h'.threads other hne).trans (h.threads other hne)
  call := h'.call.trans h.call
  owner := h'.owner.trans h.owner
  blocker blocker := (h.blocker blocker).trans (h'.blocker blocker)
  blockers blocker hne := (h'.blockers blocker (by rwa [(h.blocker blocker).thread])).trans (h.blockers blocker hne)
  processThreads p := (h'.processThreads p).trans (h.processThreads p)
  cpus := h'.cpus.trans h.cpus
  cpuCount := h'.cpuCount.trans h.cpuCount
  threadCount := h'.threadCount.trans h.threadCount
  blockerCount := h'.blockerCount.trans h.blockerCount
  processCount := h'.processCount.trans h.processCount
  mProcesses := h'.mProcesses.trans h.mProcesses
  unblocked := h'.unblocked.trans h.unblocked
  shouldKillAllThreads := h'.shouldKillAllThreads.trans h.shouldKillAllThreads
  isInvulnerable := h'.isInvulnerable.trans h.isInvulnerable
  processState p := (h'.processState p).trans (h.processState p)
  mutexOwners := h'.mutexOwners.trans h.mutexOwners

lemma strikes_exitWith (k : Tasks) (t : Nat) (code : Int) : Strikes k (k.exitWith t code) t where
  toFrame := .of_update rfl rfl rfl (fun _ => rfl) rfl
  shouldKillAllThreads := by simp [exitWith, updateThread]
  isInvulnerable := by simp [exitWith, updateThread]
  processState _ := rfl
  mutexOwners := rfl

lemma strikes_woken (ht : (k.blockers blocker).thread = t) (res : BlockResult) :
    Strikes k (woken k t blocker res) t where
  toFrame := frame_woken ht res
  shouldKillAllThreads := by simp [woken]
  isInvulnerable := by simp [woken]
  processState _ := rfl
  mutexOwners := rfl

lemma Placed.exitWith {hand : Option Nat} (h : Placed k place hand)
    (hidle : ∀ cpu < k.cpuCount, (k.cpus cpu).idleTask ≠ t) (code : Int) : Placed (k.exitWith t code) place hand := by
  have hframe := (strikes_exitWith k t code).toFrame
  refine { h with fits := fun other => ?_, quiet := fun other hu hhand hphase => ?_,
                  called := fun other blocker hcall => h.called other blocker (hframe.call_eq other ▸ hcall) }
  · by_cases heq : other = t
    · rw [heq]
      cases hpl : place t with
      | idle =>
        obtain ⟨-, -, -, -, cpu, hcpu, hsame⟩ := h.fits_of hpl
        exact absurd hsame (hidle cpu hcpu)
      | running cpu =>
        obtain ⟨hcpu, hcur, hstate, hasks, -⟩ := h.fits_of hpl
        refine ⟨hcpu, hcur, ?_, ?_, fun hsame => absurd hsame (hidle cpu hcpu)⟩
        · simpa [Tasks.exitWith, updateThread] using hstate
        · simpa [Asks, Tasks.exitWith, updateThread] using hasks
      | fresh | ready | blocked _ | deferred | freed => simpa [Fits, Tasks.exitWith, updateThread] using h.fits_of hpl
    · exact (fits_congr (hframe.threads other heq) rfl rfl rfl _).mpr (h.fits other)
  · rw [field_eq Thread.requestedState hframe.threads (by simp [Tasks.exitWith, updateThread])]
    exact h.quiet other hu hhand hphase

lemma Counted.exitWith (hc : Counted k place) (t : Nat) (code : Int) : Counted (k.exitWith t code) place :=
  hc.same (strikes_exitWith k t code).sameOwners fun _ => rfl

variable {new : Place}

section

def disposed (k : Tasks) (process : Nat) (ready sleeping deferred freed : List Nat) : Tasks :=
  { k.updateProcess process fun p => { p with aliveThreadCount := p.aliveThreadCount - 1 } with
    mReadyThreads := ready
    mSleepingThreads := sleeping
    mDeferredDeletedDeadThreads := deferred
    mThreadsToFree := freed }

lemma update_count (processes : Nat → Process) (p n other : Nat) :
    update processes p { processes p with aliveThreadCount := n } other =
      { processes other with
        aliveThreadCount := if other = p then n else (processes other).aliveThreadCount } := by
  by_cases heq : other = p
  · rw [heq, update_self, if_pos rfl]
  · rw [update_of_ne heq, if_neg heq]

lemma strikes_disposed (k : Tasks) (p t : Nat) (ready sleeping deferred freed : List Nat) :
    Strikes k (disposed k p ready sleeping deferred freed) t where
  toFrame := .of_update (update_eq_self t k.threads).symm rfl rfl
    (fun _ => by simp only [disposed, updateProcess, update_count]) rfl
  shouldKillAllThreads := rfl
  isInvulnerable := rfl
  processState _ := by simp only [disposed, updateProcess, update_count]
  mutexOwners := rfl

include hc hreg

lemma Counted.dispose {ready sleeping deferred freed : List Nat} (hold : (place t).isAlive = true)
    (hnew : new.isAlive = false) :
    Counted (disposed k (k.threads t).owner ready sleeping deferred freed) (update place t new) := by
  apply hc.retire (strikes_disposed k _ t ready sleeping deferred freed).toFrame hreg hold hnew
  · simp only [disposed, updateProcess, update_count, if_true]
  · intro other hne
    simp only [disposed, updateProcess, update_count, if_neg hne]

lemma Counted.decrement_eq (halive : (place t).isAlive = true) :
    k.decrementAliveThreadCount (k.threads t).owner = .ok (k.updateProcess (k.threads t).owner fun p =>
        { p with aliveThreadCount := p.aliveThreadCount - 1 }) := by
  rw [decrementAliveThreadCount, assert_bind (hc.count_ne_zero hreg halive)]
  rfl

lemma Counted.ne_idle : ∀ cpu < k.cpuCount, (k.cpus cpu).idleTask ≠ t := by
  rintro cpu hcpu rfl
  have hidle := hc.idle cpu hcpu
  have hpr := (hc.registered _ hreg.2).1
  omega

end

section

/-- Where a thread of a process is after the killer of the process. -/
def killedPlace (k : Tasks) (current thread : Nat) : Place → Place
  | .running cpu => if thread = current then .deferred else .running cpu
  | .ready => .freed
  | .blocked blocker =>
    if (k.blockers blocker).type = .sleep then .freed
    else if (k.blockers blocker).type.isInterruptable then .ready
    else .blocked blocker
  | place => place

def QueuedOnly (k k' : Tasks) (place : Nat → Place) (thread : Nat) : Prop :=
  Queue.Flows (fun other => other = thread ∧ place other ≠ .ready) k.mReadyThreads k'.mReadyThreads

/-- One thread is killed and gets a new place, and nothing else changes. -/
def KillsTo (k : Tasks) (place : Nat → Place) (cpu thread : Nat) (new : Place) (result : Run Tasks) : Prop :=
  ∃ k', result = .ok k' ∧ Placed k' (update place thread new) (some cpu) ∧ Counted k' (update place thread new) ∧
    Strikes k k' thread ∧ QueuedOnly k k' place thread

/-- The killed thread gets the place it should have. -/
def Kills (k : Tasks) (place : Nat → Place) (cpu current thread : Nat) (result : Run Tasks) : Prop :=
  KillsTo k place cpu thread (killedPlace k current thread (place thread)) result

include h hc in
lemma kills_current (hcur : place cur = .running cpu) (hdead : (k.threads cur).state = .dead)
    (hreg : k.Registered cur) : Kills k place cpu cur cur (k.killThread (k.threads cur).owner cur cur) := by
  have hlist : k.isOnAList cur = false := h.isOnAList_eq_false (by simp [hcur]) (by simp [hcur]) (by simp [hcur])
  have halive : (place cur).isAlive = true := by rw [hcur]; rfl
  have hnew : killedPlace k cur cur (place cur) = .deferred := by rw [hcur, killedPlace, if_pos rfl]
  refine ⟨disposed k (k.threads cur).owner k.mReadyThreads k.mSleepingThreads
    (k.mDeferredDeletedDeadThreads ++ [cur]) k.mThreadsToFree, ?_, ?_, ?_,
    strikes_disposed k _ cur _ _ _ _, refl _ _⟩
  · rw [killThread, if_pos rfl, hc.decrement_eq hreg halive, ok_bind]
    exact insertDeferred_eq hlist
  · rw [hnew]
    exact h.shift (strikes_disposed k _ cur _ _ _ _).toFrame hcur (by simp) rfl hdead
      (h.loose_current hcur fun other hu heq => absurd heq (hc.ne_idle hreg other hu))
  · rw [hnew]
    exact hc.dispose hreg halive rfl

include h hc in
lemma kills_ready (hpl : place t = .ready) (hreg : k.Registered t) : KillsTo k place cpu t .freed (do
      let k ← k.decrementAliveThreadCount (k.threads t).owner
      let k ← k.popOff t
      k.freeThread t) := by
  have hfits := h.fits_of hpl
  have hstate : (k.threads t).state = .ready := hfits.1
  have hmem : t ∈ k.mReadyThreads := (h.ready.mem_iff t).mpr hpl
  have hdef : t ∉ k.mDeferredDeletedDeadThreads := by
    rw [h.deferred.mem_iff, hpl]
    simp
  have hfreed : t ∉ k.mThreadsToFree := by
    rw [h.freed.mem_iff, hpl]
    simp
  have herase : t ∉ k.mReadyThreads.erase t := h.ready.nodup.not_mem_erase
  refine ⟨disposed k (k.threads t).owner (k.mReadyThreads.erase t) k.mSleepingThreads
    k.mDeferredDeletedDeadThreads (k.mThreadsToFree ++ [t]), ?_, ?_, ?_,
    strikes_disposed k _ t _ _ _ _, erase _ _ _⟩
  · rw [hc.decrement_eq hreg (by rw [hpl]; rfl), ok_bind, popOff]
    have hon : isOnAList (k.updateProcess (k.threads t).owner fun p =>
        { p with aliveThreadCount := p.aliveThreadCount - 1 }) t = true := by
      simp [isOnAList, updateProcess, hmem]
    rw [hon, assert_true, ok_bind]
    dsimp only [updateProcess]
    rw [erase_of_not_mem hdef, erase_of_not_mem hfreed]
    apply freeThread_eq
    simp [isOnAList, hdef, hfreed, herase]
  · exact h.shift (strikes_disposed k _ t _ _ _ _).toFrame hpl (by simp) rfl
      (by simp [Fits, disposed, updateProcess, hstate]) (h.loose hpl (h.lt (by simp [hpl])) (by simp))
  · exact hc.dispose hreg (by rw [hpl]; rfl) rfl

lemma removeSleepingBlocker_eq (hmem : blocker ∈ k.mSleepingThreads) : k.removeSleepingBlocker blocker =
    .ok { k with mSleepingThreads := k.mSleepingThreads.erase blocker } := by
  have hfound : blocker ∈ k.mSleepingThreads.dropWhile fun other =>
      decide ((k.blockers other).wakeTime < (k.blockers blocker).wakeTime) := by
    rw [← takeWhile_append_dropWhile (p := fun other =>
      decide ((k.blockers other).wakeTime < (k.blockers blocker).wakeTime)) (l := k.mSleepingThreads),
      mem_append] at hmem
    refine hmem.resolve_left fun hbef => ?_
    have hless := mem_takeWhile_imp hbef
    simp at hless
  rw [removeSleepingBlocker, assert_bind hfound]
  rfl

variable (hne : t ≠ cur)

include h hc in
lemma kills_sleeping (hpl : place t = .blocked blocker) (hsleep : (k.blockers blocker).type = .sleep)
    (hreg : k.Registered t) : KillsTo k place cpu t .freed (do
      let k ← k.decrementAliveThreadCount (k.threads t).owner
      let k ← k.removeSleepingBlocker blocker
      k.freeThread t) := by
  have ht := (h.blocker_lt hpl).2
  have hlist : k.isOnAList t = false := h.isOnAList_eq_false (by simp [hpl]) (by simp [hpl]) (by simp [hpl])
  have hmem : blocker ∈ k.mSleepingThreads := (h.sleeping blocker).mpr ⟨ht ▸ hpl, hsleep⟩
  refine ⟨disposed k (k.threads t).owner k.mReadyThreads (k.mSleepingThreads.erase blocker)
    k.mDeferredDeletedDeadThreads (k.mThreadsToFree ++ [t]), ?_, ?_, ?_,
    strikes_disposed k _ t _ _ _ _, refl _ _⟩
  · rw [hc.decrement_eq hreg (by rw [hpl]; rfl), ok_bind,
      removeSleepingBlocker_eq (k := k.updateProcess _ _) hmem, ok_bind]
    exact freeThread_eq hlist
  · obtain ⟨hstate, -, hb, hcall, -⟩ := h.fits_of hpl
    refine h.shift (strikes_disposed k _ t _ _ _ _).toFrame hpl (by simp) rfl ?_
      (h.loose hpl (h.lt (by simp [hpl])) (by simp))
    refine ⟨?_, fun _ => ⟨blocker, hb, hcall, hsleep⟩⟩
    simp [disposed, updateProcess, hstate]
  · exact hc.dispose hreg (by rw [hpl]; rfl) rfl

include h hc hreg in
lemma kills_told (hpl : killedPlace k cur t (place t) = place t) : Kills k place cpu cur t (.ok (k.exitWith t 0)) := by
  refine ⟨_, rfl, ?_, ?_, strikes_exitWith k t 0, refl _ _⟩
  · rw [hpl, update_eq_self]
    exact h.exitWith (hc.ne_idle hreg) 0
  · rw [hpl, update_eq_self]
    exact hc.exitWith t 0

lemma exitWith_state (k : Tasks) (t : Nat) (code : Int) :
    ((k.exitWith t code).threads t).state = (k.threads t).state := by
  simp [exitWith, updateThread]

lemma Registered.exitWith (h : k.Registered t) (code : Int) : (k.exitWith t code).Registered t := by
  rwa [Registered, (strikes_exitWith k t code).owner]

lemma Kills.of_exitWith {res : Run Tasks} (hnew : killedPlace k cur t (place t) = new)
    (h : KillsTo (k.exitWith t 0) place cpu t new res) : Kills k place cpu cur t res := by
  obtain ⟨k', hok, hplaced, hcnt, hstr, hqueued⟩ := h
  exact ⟨k', hok, hnew ▸ hplaced, hnew ▸ hcnt, (strikes_exitWith k t 0).trans hstr, hqueued⟩

include h hc hne in
lemma kills_blocked (hpl : place t = .blocked blocker) (hreg : k.Registered t) :
    Kills k place cpu cur t (k.killThread (k.threads t).owner cur t) := by
  have h1 := h.exitWith (hc.ne_idle hreg) 0
  have hc1 := hc.exitWith t 0
  obtain ⟨hstate, hreq, hb, hcall, hsh⟩ := h1.fits_of hpl
  have ht := (h1.blocker_lt hpl).2
  rw [killThread, if_neg hne]
  dsimp only
  rw [hstate]
  rw [hb]
  dsimp only
  rw [show (k.exitWith t 0).blockers = k.blockers from rfl]
  by_cases hsleep : (k.blockers blocker).type = .sleep
  · rw [if_pos hsleep, ← (strikes_exitWith k t 0).owner]
    apply Kills.of_exitWith (by rw [hpl, killedPlace, if_pos hsleep])
    exact kills_sleeping h1 hc1 hpl hsleep (hreg.exitWith 0)
  · rw [if_neg hsleep, threadInterrupt, hb]
    dsimp only
    rw [show (k.exitWith t 0).blockers = k.blockers from rfl]
    by_cases hinterrupt : (k.blockers blocker).type.isInterruptable = true
    · rw [if_pos hinterrupt, ok_bind, if_pos rfl]
      apply Kills.of_exitWith (by rw [hpl, killedPlace, if_neg hsleep, if_pos hinterrupt])
      have hlist : (k.exitWith t 0).isOnAList t = false :=
        h1.isOnAList_eq_false (by simp [hpl]) (by simp [hpl]) (by simp [hpl])
      have hawake : blocker ∉ (k.exitWith t 0).mSleepingThreads := by
        rw [h1.sleeping]
        exact fun hsleeping => hsleep hsleeping.2
      refine ⟨woken (k.exitWith t 0) t blocker .interrupted, ?_, h1.wake hpl .interrupted,
        hc1.wake h1 hpl .interrupted, strikes_woken ht .interrupted,
        append _ ⟨rfl, by simp [hpl]⟩⟩
      rw [woken, erase_of_not_mem hawake]
      exact insertReady_eq hlist
    · rw [if_neg hinterrupt, ok_bind, if_neg (by simp)]
      apply kills_told h hc hreg
      rw [hpl, killedPlace, if_neg hsleep, if_neg hinterrupt]

include h hc hreg hne in
lemma kills_other (hblk : (k.threads t).state ≠ .blocked) (hready : (k.threads t).state ≠ .ready)
    (hpl : killedPlace k cur t (place t) = place t) : Kills k place cpu cur t (k.killThread p cur t) := by
  have hkill : k.killThread p cur t = .ok (k.exitWith t 0) := by
    rw [killThread, if_neg hne]
    dsimp only
    rw [exitWith_state]
    split
    · exact absurd ‹_› hblk
    · exact absurd ‹_› hready
    · rfl
  rw [hkill]
  exact kills_told h hc hreg hpl

include h hc hcpu in
/-- The killer of a process at one of its threads. A thread that is finished already has to be dead, as
it would be disposed of again otherwise. -/
lemma kills_thread (hcur : t = cur → place cur = .running cpu) (hself : (k.threads cur).state = .dead)
    (ht : t ∈ (k.processes p).threads) (hpr : p ∈ k.mProcesses) (hdead : (place t).isFinished = true →
    (k.threads t).state = .dead) : Kills k place cpu cur t (k.killThread p cur t) := by
  have howner : (k.threads t).owner = p := hc.owner p t ht
  have hreg : k.Registered t := by
    rw [Registered, howner]
    exact ⟨ht, hpr⟩
  rw [← howner]
  by_cases hne : t = cur
  · subst hne
    exact kills_current h hc (hcur rfl) hself hreg
  have hfits := h.fits t
  cases hpl : place t with
  | blocked blocker => exact kills_blocked h hc hne hpl hreg
  | ready =>
    rw [hpl] at hfits
    rw [killThread, if_neg hne]
    dsimp only
    rw [exitWith_state, hfits.1, ← (strikes_exitWith k t 0).owner]
    apply Kills.of_exitWith (by rw [hpl, killedPlace])
    exact kills_ready (h.exitWith (hc.ne_idle hreg) 0) (hc.exitWith t 0) hpl (hreg.exitWith 0)
  | fresh =>
    rw [hpl] at hfits
    have hundefined : (k.threads t).state = .undefined := hfits.1
    exact kills_other h hc hreg hne (by simp [hundefined]) (by simp [hundefined]) (by rw [hpl]; rfl)
  | idle =>
    rw [hpl] at hfits
    obtain ⟨-, -, -, -, other, hu, heq⟩ := hfits
    exact absurd heq (hc.ne_idle hreg other hu)
  | running other =>
    rw [hpl] at hfits
    have hnecpu : some cpu ≠ some other := by
      intro heq
      rw [← Option.some.inj heq] at hfits
      exact hne (hfits.2.1.symm.trans hcpu)
    have hrung := hfits.2.2.1 hnecpu
    exact kills_other h hc hreg hne (by simp [hrung]) (by simp [hrung])
      (by rw [hpl, killedPlace, if_neg hne])
  | deferred | freed =>
    have hstate := hdead (by rw [hpl]; rfl)
    exact kills_other h hc hreg hne (by simp [hstate]) (by simp [hstate]) (by rw [hpl]; rfl)

lemma killThread_current_threads (hok : k.killThread p cur cur = .ok k') : k'.threads = k.threads := by
  rw [killThread, if_pos rfl, decrementAliveThreadCount, bind_assoc] at hok
  obtain ⟨_, -, hok⟩ := of_bind hok
  rw [pure_bind, insertDeferred] at hok
  obtain ⟨_, -, hok⟩ := of_bind hok
  cases hok
  rfl

end

section

structure Purges (k k' : Tasks) (place place' : Nat → Place) (current : Nat) (threads : List Nat) : Prop where
  killed : ∀ thread ∈ threads, place' thread = killedPlace k current thread (place thread)
  other : ∀ thread, thread ∉ threads → k'.threads thread = k.threads thread ∧ place' thread = place thread
  queued : Queue.Flows (fun thread => thread ∈ threads ∧ place thread ≠ .ready) k.mReadyThreads k'.mReadyThreads
  current : k'.threads current = k.threads current
  owner : ∀ thread, (k'.threads thread).owner = (k.threads thread).owner
  shouldKillAllThreads : ∀ thread, (k'.threads thread).shouldKillAllThreads = (k.threads thread).shouldKillAllThreads
  isInvulnerable : ∀ thread, (k'.threads thread).isInvulnerable = (k.threads thread).isInvulnerable
  processState : ∀ process, (k'.processes process).state = (k.processes process).state
  mProcesses : k'.mProcesses = k.mProcesses
  cpus : k'.cpus = k.cpus
  cpuCount : k'.cpuCount = k.cpuCount
  mutexOwners : k'.mutexOwners = k.mutexOwners

lemma killedPlace_congr (h : ∀ blocker, (k'.blockers blocker).type = (k.blockers blocker).type)
    (cur t : Nat) (p : Place) : killedPlace k' cur t p = killedPlace k cur t p := by
  cases p <;> simp only [killedPlace, h]

variable {threads : List Nat}

lemma Strikes.purges {p' : Nat → Place} (h : Strikes k k' t) (hnotMem : t ∉ threads)
    (hcur : k'.threads cur = k.threads cur) (hqueued : QueuedOnly k k' place t)
    (h' : Purges k' k'' (update place t (killedPlace k cur t (place t))) p' cur threads) :
    Purges k k'' place p' cur (t :: threads) where
  killed other hu := by
    rcases mem_cons.mp hu with rfl | hu
    · rw [(h'.other other hnotMem).2, update_self]
    · have hne : other ≠ t := fun heq => hnotMem (heq ▸ hu)
      rw [h'.killed other hu, update_of_ne hne, killedPlace_congr fun b => (h.blocker b).type]
  other other hu := by
    obtain ⟨hne, hu⟩ := ne_and_not_mem_of_not_mem_cons hu
    obtain ⟨ht, hpl⟩ := h'.other other hu
    exact ⟨ht.trans (h.threads other hne), hpl.trans (update_of_ne hne _ _)⟩
  queued := by
    apply Queue.Flows.trans (hqueued.mono _) (h'.queued.mono _)
    · rintro other ⟨rfl, hu⟩
      exact ⟨mem_cons_self, hu⟩
    · rintro other ⟨hmem, hu⟩
      have hne : other ≠ t := fun heq => hnotMem (heq ▸ hmem)
      rw [update_of_ne hne] at hu
      exact ⟨mem_cons_of_mem _ hmem, hu⟩
  current := h'.current.trans hcur
  owner other := (h'.owner other).trans (h.owner_eq other)
  shouldKillAllThreads other :=
    (h'.shouldKillAllThreads other).trans (field_eq _ h.threads h.shouldKillAllThreads other)
  isInvulnerable other := (h'.isInvulnerable other).trans (field_eq _ h.threads h.isInvulnerable other)
  processState p := (h'.processState p).trans (h.processState p)
  mProcesses := h'.mProcesses.trans h.mProcesses
  cpus := h'.cpus.trans h.cpus
  cpuCount := h'.cpuCount.trans h.cpuCount
  mutexOwners := h'.mutexOwners.trans h.mutexOwners

include h hc hcpu in
lemma killLoop_spec (hcur : cur ∈ threads → place cur = .running cpu) (hself : (k.threads cur).state = .dead)
    (hnodup : threads.Nodup) (hths : ∀ t ∈ threads, t ∈ (k.processes p).threads) (hpr : p ∈ k.mProcesses)
    (hdead : ∀ t ∈ threads, (place t).isFinished = true → (k.threads t).state = .dead) : ∃ k' p',
    killLoop p cur threads k = .ok k' ∧ Placed k' p' (some cpu) ∧ Counted k' p' ∧ Purges k k' place p' cur threads := by
  induction threads generalizing k place with
  | nil =>
    refine ⟨k, place, rfl, h, hc, ?_⟩
    constructor <;> first | exact refl _ _ | simp
  | cons t threads ih =>
    obtain ⟨hnotMem, hnodup⟩ := nodup_cons.mp hnodup
    obtain ⟨k1, hok, h1, hc1, hstr, hqueued⟩ : Kills k place cpu cur t _ :=
      kills_thread h hc hcpu (fun heq => hcur (heq ▸ mem_cons_self)) hself
        (hths t mem_cons_self) hpr (hdead t mem_cons_self)
    have hsame : k1.threads cur = k.threads cur := by
      by_cases heq : t = cur
      · rw [heq] at hok
        rw [killThread_current_threads hok]
      · exact hstr.threads cur (Ne.symm heq)
    have hne {other : Nat} (hu : other ∈ threads) : other ≠ t := fun heq => hnotMem (heq ▸ hu)
    have hrest := ih h1 hc1 (by rw [hstr.cpus, hcpu])
      (fun hmem => by
        rw [update_of_ne (hne hmem)]
        exact hcur (mem_cons_of_mem _ hmem))
      (by rw [hsame, hself])
      hnodup
      (fun other hu => by
        rw [hstr.processThreads]
        exact hths other (mem_cons_of_mem _ hu))
      (by rw [hstr.mProcesses]; exact hpr)
      (fun other hu hfin => by
        rw [update_of_ne (hne hu)] at hfin
        rw [hstr.threads other (hne hu)]
        exact hdead other (mem_cons_of_mem _ hu) hfin)
    obtain ⟨k', p', hloop, h', hc', hpurges⟩ := hrest
    rw [killLoop, hok, ok_bind]
    exact ⟨k', p', hloop, h', hc', hstr.purges hnotMem hsame hqueued hpurges⟩

end

def Condemned (k : Tasks) (place : Nat → Place) (current thread : Nat) : Prop :=
  thread = current ∨ (k.threads current).shouldKillAllThreads = true ∧
    thread ∈ (k.processes (k.threads current).owner).threads ∧ Exposed k place thread

/-- The current thread has died, with those that it has taken along. -/
structure Executed (k k' : Tasks) (place place' : Nat → Place) (current : Nat) : Prop where
  deferred : place' current = .deferred
  dead : (k'.threads current).state = .dead
  finished : ∀ thread, (place' thread).isFinished = true ↔
    (place thread).isFinished = true ∨ Condemned k place current thread
  fresh : ∀ thread, place' thread = .fresh ↔ place thread = .fresh
  queued : Queued k k' place
  isInvulnerable : ∀ thread, (k'.threads thread).isInvulnerable = (k.threads thread).isInvulnerable
  cpus : k'.cpus = k.cpus
  cpuCount : k'.cpuCount = k.cpuCount
  mutexOwners : k'.mutexOwners = k.mutexOwners

lemma strikes_setState (k : Tasks) (t : Nat) (s : ThreadState) : Strikes k (k.setState t s) t where
  toFrame := .of_update rfl rfl rfl (fun _ => rfl) rfl
  shouldKillAllThreads := by simp [setState, updateThread]
  isInvulnerable := by simp [setState, updateThread]
  processState _ := rfl
  mutexOwners := rfl

lemma setState_shouldKillAllThreads (k : Tasks) (t other : Nat) (s : ThreadState) :
    ((k.setState t s).threads other).shouldKillAllThreads = (k.threads other).shouldKillAllThreads :=
  field_eq _ (strikes_setState k t s).threads (strikes_setState k t s).shouldKillAllThreads other

lemma setState_isInvulnerable (k : Tasks) (t other : Nat) (s : ThreadState) :
    ((k.setState t s).threads other).isInvulnerable = (k.threads other).isInvulnerable :=
  field_eq _ (strikes_setState k t s).threads (strikes_setState k t s).isInvulnerable other

variable (hk : Killers k place) (hpl : place cur = .running cpu)

include h hpl in
lemma Placed.setState_current (hidle : ∀ other < k.cpuCount, (k.cpus other).idleTask ≠ cur)
    (s : ThreadState) : Placed (k.setState cur s) place (some cpu) := by
  obtain ⟨hlt, hcur, -, hasks, -⟩ := h.fits_of hpl
  have hmoved : Placed (k.setState cur s) (update place cur (place cur)) (some cpu) := by
    rw [hpl]
    refine h.shift (strikes_setState k cur s).toFrame hpl (by simp) rfl ?_ ?_
    · refine ⟨hlt, hcur, fun hne => absurd rfl hne, ?_, fun heq => absurd heq (hidle cpu hlt)⟩
      simpa [Asks, setState, updateThread] using hasks
    · exact h.loose_current hpl fun other hu heq => absurd heq (hidle other hu)
  rwa [update_eq_self] at hmoved

lemma Counted.setState (hc : Counted k place) (t : Nat) (s : ThreadState) : Counted (k.setState t s) place :=
  hc.same (strikes_setState k t s).sameOwners fun _ => rfl

lemma isFinished_killedPlace (k : Tasks) (cur t : Nat) (place : Nat → Place) (hrung : ∀ cpu, place t = .running cpu →
    t ≠ cur) : (killedPlace k cur t (place t)).isFinished = true ↔ (place t).isFinished = true ∨ Exposed k place t := by
  rw [Exposed]
  cases hpl : place t with
  | running cpu => simp [killedPlace, if_neg (hrung cpu hpl), Place.isFinished]
  | blocked blocker =>
    by_cases hsleep : (k.blockers blocker).type = .sleep
    · simp [killedPlace, hsleep, Place.isFinished]
    · simp only [killedPlace, if_neg hsleep]
      split <;> simp [Place.isFinished, hsleep]
  | fresh | idle | ready | deferred | freed => simp [killedPlace, Place.isFinished]

lemma killedPlace_eq_fresh (k : Tasks) (cur t : Nat) (p : Place) : killedPlace k cur t p = .fresh ↔ p = .fresh := by
  cases p <;> simp only [killedPlace, reduceCtorEq] <;> split_ifs <;> simp

lemma Killers.dead_of_killer (hk : Killers k place) (hkill : (k.threads cur).shouldKillAllThreads = true)
    (hrung : (place cur).isFinished = false) (howner : (k.threads t).owner = (k.threads cur).owner)
    (hfin : (place t).isFinished = true) : (k.threads t).state = .dead := by
  rcases hk.dead t (isFinished_iff.mp hfin) with hdead | ⟨killer, hsame, hflag, hpl⟩
  · exact hdead
  · have heq : killer = cur := hk.unique killer cur hflag hkill (hsame.trans howner)
    rw [heq, ← isFinished_iff, hrung] at hpl
    cases hpl

include h hc hk in
lemma killAll_spec (hcpu : (k.cpus cpu).currentThread = cur) (hpl : place cur = .running cpu)
    (hreg : k.Registered cur) (hkill : (k.threads cur).shouldKillAllThreads = true) : ∃ k' p',
    killLoop (k.threads cur).owner cur (k.processes (k.threads cur).owner).threads (k.setState cur .dead) =
    .ok k' ∧ Placed k' p' (some cpu) ∧ Counted k' p' ∧ Killers k' p' ∧ Executed k k' place p' cur := by
  have hstr := strikes_setState k cur .dead
  have hrung : (place cur).isFinished = false := by rw [hpl]; rfl
  have hloop := killLoop_spec (h.setState_current hpl (hc.ne_idle hreg) .dead)
    (hc.setState cur .dead) hcpu (fun _ => hpl) (by simp [setState, updateThread])
    (hc.nodup (k.threads cur).owner)
    (fun t ht => ht) hreg.2
    (fun t ht hfin => by
      have hne : t ≠ cur := by
        rintro rfl
        rw [hfin] at hrung
        cases hrung
      rw [hstr.threads t hne]
      exact hk.dead_of_killer hkill hrung (hc.owner _ t ht) hfin)
  obtain ⟨k', p', hok, h', hc', hp⟩ := hloop
  have hdef : p' cur = .deferred := by rw [hp.killed cur hreg.1, hpl, killedPlace, if_pos rfl]
  have hflag (t : Nat) : (k'.threads t).shouldKillAllThreads = (k.threads t).shouldKillAllThreads := by
    rw [hp.shouldKillAllThreads, setState_shouldKillAllThreads]
  have howner (t : Nat) : (k'.threads t).owner = (k.threads t).owner := (hp.owner t).trans (hstr.owner_eq t)
  have hexec : Executed k k' place p' cur := by
    refine ⟨hdef, ?_, fun t => ?_, fun t => ?_, hp.queued.mono fun _ hnew => hnew.2,
      fun t => ?_, hp.cpus, hp.cpuCount, hp.mutexOwners⟩
    · rw [hp.current]
      simp [setState, updateThread]
    · by_cases heq : t = cur
      · rw [heq, hdef]
        exact iff_of_true rfl (.inr (.inl rfl))
      by_cases ht : t ∈ (k.processes (k.threads cur).owner).threads
      · rw [hp.killed t ht, isFinished_killedPlace _ cur t place fun _ _ => heq]
        exact or_congr_right ⟨fun hexposed => .inr ⟨hkill, ht, hexposed⟩,
          fun hcondemned => (hcondemned.resolve_left heq).2.2⟩
      · rw [(hp.other t ht).2, or_iff_left]
        exact fun hcondemned => ht (hcondemned.resolve_left heq).2.1
    · by_cases ht : t ∈ (k.processes (k.threads cur).owner).threads
      · rw [hp.killed t ht, killedPlace_eq_fresh]
      · rw [(hp.other t ht).2]
    · rw [hp.isInvulnerable, setState_isInvulnerable]
  refine ⟨k', p', hok, h', hc', ?_, hexec⟩
  apply hk.transport howner hflag
  · exact fun p hstate => hp.processState p ▸ hstate
  · exact fun p hpr => hp.mProcesses ▸ hpr
  · exact fun t ht => (hexec.finished t).mpr (.inl ht)
  · intro t ht
    by_cases hmem : t ∈ (k.processes (k.threads cur).owner).threads
    · exact .inr (.inr ⟨cur, (hc.owner _ t hmem).symm, hkill, by rw [hdef]; rfl⟩)
    · obtain ⟨hsame, hp'⟩ := hp.other t hmem
      have hne : t ≠ cur := fun heq => hmem (heq ▸ hreg.1)
      rw [hp'] at ht
      exact .inl ⟨ht, by rw [hsame, hstr.threads t hne]⟩

/-- Processes that have the same threads, and may only get from being alive to exiting. -/
def Exits (k : Tasks) (processes : Nat → Process) : Prop :=
  ∀ process, (processes process).threads = (k.processes process).threads ∧
    (processes process).aliveThreadCount = (k.processes process).aliveThreadCount ∧
    ((k.processes process).state ≠ .alive → (processes process).state ≠ .alive)

variable {processes : Nat → Process}

lemma Placed.withProcesses {hand : Option Nat} (h : Placed k place hand) (processes : Nat → Process) :
    Placed { k with processes := processes } place hand :=
  { h with fits := fun t => (fits_congr rfl rfl rfl rfl _).mpr (h.fits t) }

lemma Counted.withProcesses (hc : Counted k place) (hexits : k.Exits processes) :
    Counted { k with processes := processes } place :=
  hc.same ⟨fun _ => rfl, fun p => (hexits p).1, fun _ => rfl, rfl, rfl, rfl, rfl⟩ fun p => (hexits p).2.1

lemma exitProcessWith_eq (k : Tasks) (p : Nat) (code : Int) :
    ∃ processes, (k.exitProcessWith p code).1 = { k with processes := processes } ∧ k.Exits processes := by
  unfold exitProcessWith
  split
  · refine ⟨_, rfl, fun other => ?_⟩
    by_cases heq : other = p
    · simp [heq]
    · simp [update_of_ne heq]
  · exact ⟨k.processes, rfl, fun _ => ⟨rfl, rfl, id⟩⟩

def reaped (k : Tasks) (current : Nat) : Tasks :=
  if (k.processes (k.threads current).owner).aliveThreadCount = 0 then
    (k.exitProcessWith (k.threads current).owner (k.threads current).exitCode).1
  else k

lemma reaped_eq (k : Tasks) (cur : Nat) :
    ∃ processes, k.reaped cur = { k with processes := processes } ∧ k.Exits processes := by
  unfold reaped
  split
  · exact exitProcessWith_eq k _ _
  · exact ⟨k.processes, rfl, fun _ => ⟨rfl, rfl, id⟩⟩

def deceased (k : Tasks) (current : Nat) : Tasks :=
  (k.setState current .dead).updateProcess (k.threads current).owner fun p =>
    { p with aliveThreadCount := p.aliveThreadCount - 1 }

lemma deceased_processState (k : Tasks) (cur p : Nat) :
    ((k.deceased cur).processes p).state = (k.processes p).state := by
  simp only [deceased, updateProcess, setState, updateThread, update_count]

section

include h hc hpl

lemma killCurrentThread_eq (hreg : k.Registered cur) (hkill : (k.threads cur).shouldKillAllThreads = false) :
    k.killCurrentThread cur = .ok { (k.deceased cur).reaped cur with
      mDeferredDeletedDeadThreads := k.mDeferredDeletedDeadThreads ++ [cur] } := by
  have hstr := strikes_setState k cur .dead
  have hregistered1 : (k.setState cur .dead).Registered cur := by rwa [Registered, hstr.owner]
  obtain ⟨processes, hreaped, -⟩ := reaped_eq (k.deceased cur) cur
  have hlist : ((k.deceased cur).reaped cur).isOnAList cur = false := by
    rw [hreaped]
    exact h.isOnAList_eq_false (by simp [hpl]) (by simp [hpl]) (by simp [hpl])
  have hdecrement := (hc.setState cur .dead).decrement_eq hregistered1 (by rw [hpl]; rfl)
  have hdef : ((k.deceased cur).reaped cur).mDeferredDeletedDeadThreads = k.mDeferredDeletedDeadThreads := by
    rw [hreaped]
    rfl
  rw [killCurrentThread]
  rw [setState_shouldKillAllThreads, hkill, if_neg (by simp), hdecrement, ok_bind, hstr.owner]
  have hinsert := insertDeferred_eq hlist
  rw [hdef, reaped] at hinsert
  rw [reaped]
  have howner : ((k.deceased cur).threads cur).owner = (k.threads cur).owner := hstr.owner
  rw [howner] at hinsert ⊢
  exact hinsert

lemma Placed.decease (hreg : k.Registered cur) :
    Placed { k.deceased cur with
        mDeferredDeletedDeadThreads := k.mDeferredDeletedDeadThreads ++ [cur] }
      (update place cur .deferred) (some cpu) ∧
    Counted { k.deceased cur with
        mDeferredDeletedDeadThreads := k.mDeferredDeletedDeadThreads ++ [cur] }
      (update place cur .deferred) := by
  have hstr := strikes_setState k cur .dead
  have h1 := h.setState_current hpl (hc.ne_idle hreg) .dead
  have hc1 := hc.setState cur .dead
  have hregistered1 : (k.setState cur .dead).Registered cur := by rwa [Registered, hstr.owner]
  have hlist : (k.setState cur .dead).isOnAList cur = false :=
    h1.isOnAList_eq_false (by simp [hpl]) (by simp [hpl]) (by simp [hpl])
  obtain ⟨k2, hok2, h2, hc2, -⟩ := kills_current h1 hc1 hpl (by simp [setState, updateThread]) hregistered1
  rw [killThread, if_pos rfl, hc1.decrement_eq hregistered1 (by rw [hpl]; rfl), ok_bind,
    insertDeferred_eq (by exact hlist), hstr.owner] at hok2
  cases hok2
  rw [hpl, killedPlace, if_pos rfl] at h2 hc2
  exact ⟨h2, hc2⟩

include hk in
lemma killOne_spec (hreg : k.Registered cur) (hkill : (k.threads cur).shouldKillAllThreads = false) :
    ∃ k' p', k.killCurrentThread cur = .ok k' ∧ Placed k' p' (some cpu) ∧ Counted k' p' ∧ Killers k' p' ∧
    Executed k k' place p' cur := by
  have hstr := strikes_setState k cur .dead
  obtain ⟨processes, hreaped, hexits⟩ := reaped_eq (k.deceased cur) cur
  obtain ⟨h1, hc1⟩ := h.decease hc hpl hreg
  have hok := killCurrentThread_eq h hc hpl hreg hkill
  rw [hreaped] at hok
  refine ⟨_, update place cur .deferred, hok, h1.withProcesses processes, hc1.withProcesses (by exact hexits), ?_,
    ⟨update_self .., ?_, fun t => ?_, fun t => ?_, refl _ _,
      fun t => setState_isInvulnerable k cur t .dead, rfl, rfl, rfl⟩⟩
  · apply hk.transport (by exact hstr.owner_eq)
      (by exact fun t => setState_shouldKillAllThreads k cur t .dead)
    · intro p hstate
      apply (hexits p).2.2
      rwa [deceased_processState]
    · exact fun _ hmem => hmem
    · intro t ht
      rw [update_apply]
      split
      · rfl
      · exact ht
    · intro t ht
      by_cases heq : t = cur
      · exact .inr (.inl (by simp [heq, deceased, setState, updateThread, updateProcess]))
      · rw [update_of_ne heq] at ht
        exact .inl ⟨ht, congrArg Thread.state (hstr.threads t heq)⟩
  · simp [deceased, setState, updateThread, updateProcess]
  · by_cases heq : t = cur
    · rw [heq, update_self]
      exact iff_of_true rfl (.inr (.inl rfl))
    · rw [update_of_ne heq, or_iff_left]
      rintro (hsame | ⟨hflag, -⟩)
      · exact heq hsame
      · rw [hkill] at hflag
        cases hflag
  · by_cases heq : t = cur
    · rw [heq, update_self, hpl]
      simp
    · rw [update_of_ne heq]

end

include h hc hk in
lemma killCurrentThread_spec (hcpu : (k.cpus cpu).currentThread = cur) (hpl : place cur = .running cpu)
    (hreg : k.Registered cur) : ∃ k' p', k.killCurrentThread cur = .ok k' ∧ Placed k' p' (some cpu) ∧
    Counted k' p' ∧ Killers k' p' ∧ Executed k k' place p' cur := by
  cases hkill : (k.threads cur).shouldKillAllThreads with
  | false => exact killOne_spec h hc hk hpl hreg hkill
  | true =>
    have hstr := strikes_setState k cur .dead
    have hall := killAll_spec h hc hk hcpu hpl hreg hkill
    rw [killCurrentThread]
    rwa [setState_shouldKillAllThreads, hkill, if_pos rfl, hstr.owner]

end UltraOS.Tasks
