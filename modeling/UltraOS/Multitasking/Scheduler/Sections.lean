import UltraOS.Multitasking.Scheduler.Placement

/-!
# The sections under the queues lock

What the parts of `pick_next`, `unblock` and the registrations do to the places of the threads. None of
their assertions fails.
-/

namespace UltraOS.Tasks

open Function

variable {k k' : Tasks} {p : Nat → Place} {hand : Option Nat} {t bl : Nat}
  (ht : (k.blockers bl).thread = t) (hc : Counted k p)
  (h : Placed k p hand) (hp : p t = .blocked bl)

section

lemma Placed.isOnAList_iff (h : Placed k p hand) (t : Nat) :
    k.isOnAList t = true ↔ p t = .ready ∨ p t = .deferred ∨ p t = .freed := by
  rw [isOnAList, Bool.or_eq_true, Bool.or_eq_true, decide_eq_true_iff, decide_eq_true_iff,
    decide_eq_true_iff, h.ready.mem_iff, h.deferred.mem_iff, h.freed.mem_iff, or_assoc]

lemma Placed.isOnAList_eq_false (h : Placed k p hand) (hready : p t ≠ .ready)
    (hdef : p t ≠ .deferred) (hfreed : p t ≠ .freed) : k.isOnAList t = false := by
  rw [← Bool.not_eq_true, h.isOnAList_iff]
  rintro (heq | heq | heq)
  · exact hready heq
  · exact hdef heq
  · exact hfreed heq

lemma insertReady_eq (h : k.isOnAList t = false) :
    k.insertReady t = .ok { k with mReadyThreads := k.mReadyThreads ++ [t] } := by
  rw [insertReady, h, Bool.not_false, assert_true, ok_bind]
  rfl

lemma insertDeferred_eq (h : k.isOnAList t = false) : k.insertDeferred t =
    .ok { k with mDeferredDeletedDeadThreads := k.mDeferredDeletedDeadThreads ++ [t] } := by
  rw [insertDeferred, h, Bool.not_false, assert_true, ok_bind]
  rfl

lemma freeThread_eq (h : k.isOnAList t = false) :
    k.freeThread t = .ok { k with mThreadsToFree := k.mThreadsToFree ++ [t] } := by
  rw [freeThread, h, Bool.not_false, assert_true, ok_bind]
  rfl

lemma Placed.ne_idle (h : Placed k p hand) (hidle : p t ≠ .idle)
    (hrung : ∀ cpu, p t ≠ .running cpu) : ∀ cpu < k.cpuCount, (k.cpus cpu).idleTask ≠ t := by
  rintro cpu hcpu rfl
  rcases h.idle cpu hcpu with heq | heq
  · exact hidle heq
  · exact hrung cpu heq

lemma Placed.lt (h : Placed k p hand) (hp : p t ≠ .fresh) : t < k.threadCount := by
  by_contra hge
  exact hp (h.fresh t (not_lt.mp hge))

variable {new : Place}

lemma Placed.loose {old : Place} (h : Placed k p hand) (hp : p t = old) (hlt : t < k.threadCount)
    (hold : old ≠ .idle ∧ ∀ cpu, old ≠ .running cpu) : Loose k p hand t new where
  running cpu heq := absurd (hp.symm.trans heq) (hold.2 cpu)
  idle cpu hcpu heq := absurd heq (h.ne_idle (hp ▸ hold.1) (fun c => hp ▸ hold.2 c) cpu hcpu)
  lt := hlt

lemma Placed.loose_current {cpu : Nat} (h : Placed k p (some cpu)) (hp : p t = .running cpu)
    (hidle : ∀ u < k.cpuCount, (k.cpus u).idleTask = t → new = .idle) : Loose k p (some cpu) t new where
  running u hu := by
    rw [hp] at hu
    rw [Place.running.inj hu]
  idle := hidle
  lt := h.lt (by simp [hp])

end

variable {new : Place}

lemma update_setResult (blockers : Nat → Blocker) (bl : Nat) (res : BlockResult) (u : Nat) :
    (blockers u).Advances (update blockers bl ((blockers bl).setResult res) u) := by
  by_cases heq : u = bl
  · rw [heq, update_self]
    exact Blocker.advances_setResult (blockers bl) res
  · rw [update_of_ne heq]
    exact Blocker.Advances.refl (blockers u)

/-- The thread is taken off its blocker and put into the ready queue. -/
def woken (k : Tasks) (thread blocker : Nat) (result : BlockResult) : Tasks :=
  { k with
    mSleepingThreads := k.mSleepingThreads.erase blocker
    mReadyThreads := k.mReadyThreads ++ [thread]
    blockers := update k.blockers blocker ((k.blockers blocker).setResult result)
    threads := update k.threads thread { k.threads thread with blocker := none, state := .ready } }

include ht in
lemma frame_woken (res : BlockResult) : Frame k (woken k t bl res) t := by
  have hframe : Frame k { woken k t bl res with blockers := k.blockers } t := .of_update rfl rfl rfl (fun _ => rfl) rfl
  refine { hframe with blocker := update_setResult k.blockers bl res, blockers := fun u hne => ?_ }
  apply update_of_ne
  rintro rfl
  exact hne ht

include h hp in
lemma Placed.wake (res : BlockResult) : Placed (woken k t bl res) (update p t .ready) hand := by
  obtain ⟨hstate, hreq, hb, hcall, hsh⟩ := h.fits_of hp
  have ht := (h.called t bl (.inr hcall)).2
  exact h.shift (frame_woken ht res) hp (by simp) rfl (by simp [Fits, woken, hreq])
    (h.loose hp (h.lt (by simp [hp])) (by simp))

section

/-- A thread that the killer of its process frees: it is ready or asleep. -/
def Exposed (k : Tasks) (place : Nat → Place) (thread : Nat) : Prop :=
  place thread = .ready ∨ ∃ blocker, place thread = .blocked blocker ∧ (k.blockers blocker).type = .sleep

/-- The same threads are finished, and the scheduler keeps what it never changes. -/
structure Spares (k k' : Tasks) (place place' : Nat → Place) : Prop where
  finished : ∀ thread, (place' thread).isFinished = (place thread).isFinished
  fresh : ∀ thread, place' thread = .fresh ↔ place thread = .fresh
  state : ∀ thread, (place thread).isFinished = true → (k'.threads thread).state = (k.threads thread).state
  owner : ∀ thread, (k'.threads thread).owner = (k.threads thread).owner
  shouldKillAllThreads : ∀ thread, (k'.threads thread).shouldKillAllThreads = (k.threads thread).shouldKillAllThreads
  isInvulnerable : ∀ thread, (k'.threads thread).isInvulnerable = (k.threads thread).isInvulnerable
  processes : k'.processes = k.processes
  mProcesses : k'.mProcesses = k.mProcesses
  mutexOwners : k'.mutexOwners = k.mutexOwners

/-- Threads that are on no CPU move. -/
structure Keeps (k k' : Tasks) (place place' : Nat → Place) : Prop extends Spares k k' place place' where
  exposed : ∀ thread, Exposed k' place' thread ↔ Exposed k place thread
  running : ∀ thread cpu, place thread = .running cpu →
    k'.threads thread = k.threads thread ∧ place' thread = .running cpu
  ready : ∀ thread, place thread = .ready → place' thread = .ready
  queued : Queued k k' place
  cpus : k'.cpus = k.cpus
  cpuCount : k'.cpuCount = k.cpuCount

variable {k'' : Tasks} {p' p'' : Nat → Place}

lemma Spares.trans (h : Spares k k' p p') (h' : Spares k' k'' p' p'') : Spares k k'' p p'' where
  finished u := (h'.finished u).trans (h.finished u)
  fresh u := (h'.fresh u).trans (h.fresh u)
  state u hp := by rw [h'.state u ((h.finished u).trans hp), h.state u hp]
  owner u := (h'.owner u).trans (h.owner u)
  shouldKillAllThreads u := (h'.shouldKillAllThreads u).trans (h.shouldKillAllThreads u)
  isInvulnerable u := (h'.isInvulnerable u).trans (h.isInvulnerable u)
  processes := h'.processes.trans h.processes
  mProcesses := h'.mProcesses.trans h.mProcesses
  mutexOwners := h'.mutexOwners.trans h.mutexOwners

lemma Spares.of_update (hframe : Frame k k' t) (hfin : (p t).isFinished = false)
    (hnew : new.isFinished = false) (hfresh : p t ≠ .fresh) (hnewFresh : new ≠ .fresh)
    (hkill : (k'.threads t).shouldKillAllThreads = (k.threads t).shouldKillAllThreads)
    (hinvulnerable : (k'.threads t).isInvulnerable = (k.threads t).isInvulnerable)
    (hprocesses : k'.processes = k.processes) (hmutexes : k'.mutexOwners = k.mutexOwners) :
    Spares k k' p (update p t new) where
  finished := field_eq Place.isFinished (fun u hne => update_of_ne hne _ _) (by rw [update_self, hfin, hnew])
  fresh u := by
    by_cases heq : u = t
    · rw [heq, update_self]
      exact iff_of_false hnewFresh hfresh
    · rw [update_of_ne heq]
  state u hu := by
    rw [hframe.threads]
    rintro rfl
    rw [hfin] at hu
    cases hu
  owner := hframe.owner_eq
  shouldKillAllThreads := field_eq _ hframe.threads hkill
  isInvulnerable := field_eq _ hframe.threads hinvulnerable
  processes := hprocesses
  mProcesses := hframe.mProcesses
  mutexOwners := hmutexes

lemma Spares.refl (k : Tasks) (p : Nat → Place) : Spares k k p p :=
  ⟨fun _ => rfl, fun _ => Iff.rfl, fun _ _ => rfl, fun _ => rfl, fun _ => rfl, fun _ => rfl, rfl, rfl, rfl⟩

lemma Keeps.refl (k : Tasks) (p : Nat → Place) : Keeps k k p p :=
  ⟨Spares.refl k p, fun _ => Iff.rfl, fun _ _ h => ⟨rfl, h⟩, fun _ h => h, Queue.Flows.refl _ _, rfl, rfl⟩

lemma Keeps.trans (h : Keeps k k' p p') (h' : Keeps k' k'' p' p'') : Keeps k k'' p p'' where
  toSpares := h.toSpares.trans h'.toSpares
  exposed u := (h'.exposed u).trans (h.exposed u)
  running u cpu hp := by
    obtain ⟨ht, hp'⟩ := h.running u cpu hp
    obtain ⟨hthread', hplace''⟩ := h'.running u cpu hp'
    exact ⟨hthread'.trans ht, hplace''⟩
  ready u hp := h'.ready u (h.ready u hp)
  queued := h.queued.trans (h'.queued.mono fun u hu hp => hu (h.ready u hp))
  cpus := h'.cpus.trans h.cpus
  cpuCount := h'.cpuCount.trans h.cpuCount

lemma Killers.spare (hk : Killers k p) (h : Spares k k' p p') : Killers k' p' := by
  apply hk.transport h.owner h.shouldKillAllThreads
  · exact fun q hstate => h.processes ▸ hstate
  · exact fun q hpr => h.mProcesses ▸ hpr
  · exact fun t ht => (h.finished t).trans ht
  · intro t ht
    rw [h.finished] at ht
    exact .inl ⟨ht, h.state t ht⟩

/-- The section succeeds, and the threads stay in their places but for those that `Keeps` lets move. -/
def Settles (k : Tasks) (place : Nat → Place) (hand : Option Nat) (result : Run Tasks) : Prop :=
  ∃ k' place', result = .ok k' ∧ Placed k' place' hand ∧ Counted k' place' ∧ Keeps k k' place place'

lemma Settles.after {res : Run Tasks} (hkeeps : Keeps k k' p p')
    (h : Settles k' p' hand res) : Settles k p hand res := by
  obtain ⟨k'', p'', hok, hpl, hcnt, hkeeps'⟩ := h
  exact ⟨k'', p'', hok, hpl, hcnt, hkeeps.trans hkeeps'⟩

end

include hc h hp in
lemma Counted.wake (res : BlockResult) : Counted (woken k t bl res) (update p t .ready) := by
  apply hc.keep (frame_woken (h.blocker_lt hp).2 res).sameOwners
  · simp [hp]
  · rw [hp]
    rfl
  · intro q
    rfl

include h hp in
lemma spares_woken (res : BlockResult) : Spares k (woken k t bl res) p (update p t .ready) :=
  Spares.of_update (frame_woken (h.blocker_lt hp).2 res) (by rw [hp]; rfl) rfl (by simp [hp]) (by simp)
    (by simp [woken]) (by simp [woken]) rfl rfl

include h hp in
lemma keeps_woken (hsleep : (k.blockers bl).type = .sleep) (res : BlockResult) :
    Keeps k (woken k t bl res) p (update p t .ready) where
  toSpares := spares_woken h hp res
  exposed u := by
    have htype (b : Nat) := (update_setResult k.blockers bl res b).type
    by_cases heq : u = t
    · rw [heq]
      exact iff_of_true (.inl (update_self ..)) (.inr ⟨bl, hp, hsleep⟩)
    · simp only [Exposed, woken, htype, update_of_ne heq]
  running u cpu hu := by
    have hne : u ≠ t := by
      rintro rfl
      rw [hp] at hu
      cases hu
    exact ⟨update_of_ne hne _ _, (update_of_ne hne _ _).trans hu⟩
  ready u hu := by
    by_cases heq : u = t
    · rw [heq, update_self]
    · rw [update_of_ne heq, hu]
  queued := Queue.Flows.append _ (by simp [hp])
  cpus := rfl
  cpuCount := rfl

include ht in
lemma unblockUnchecked_blocked (hstate : (k.threads t).state = .blocked) (hb : (k.threads t).blocker = some bl)
    (hsh : (k.blockers bl).shouldBlock = true) (hlist : k.isOnAList t = false) :
    k.unblockUnchecked bl = .ok { k with
      mReadyThreads := k.mReadyThreads ++ [t]
      blockers := update k.blockers bl ((k.blockers bl).setResult .unblocked)
      threads := update k.threads t { k.threads t with blocker := none, state := .ready } } := by
  unfold unblockUnchecked
  rw [ht, if_neg (by simp [hstate]), threadUnblock, hb]
  dsimp only
  rw [if_pos hsh, ok_bind]
  simp only [updateThread, setResult, updateBlocker, hstate, if_true]
  exact insertReady_eq hlist

include h hp in
lemma unblockUnchecked_eq : { k with mSleepingThreads := k.mSleepingThreads.erase bl }.unblockUnchecked bl =
    .ok (woken k t bl .unblocked) := by
  obtain ⟨hstate, hreq, hb, hcall, hsh⟩ := h.fits_of hp
  exact unblockUnchecked_blocked (h.blocker_lt hp).2 hstate hb hsh
    (h.isOnAList_eq_false (by simp [hp]) (by simp [hp]) (by simp [hp]))

lemma settles_wakeLoop (now : Nat) {sleeping : List Nat} (h : Placed k p hand) (hc : Counted k p)
    (hsleeping : k.mSleepingThreads = sleeping) : Settles k p hand (wakeLoop now sleeping k) := by
  induction sleeping generalizing k p with
  | nil => exact ⟨k, p, rfl, h, hc, Keeps.refl k p⟩
  | cons bl sleeping ih =>
    rw [wakeLoop]
    split
    · obtain ⟨hp, htype⟩ := (h.sleeping bl).mp (by rw [hsleeping]; exact List.mem_cons_self)
      have hrest : k.mSleepingThreads.erase bl = sleeping := by rw [hsleeping, List.erase_cons_head]
      have hwoken := unblockUnchecked_eq h hp
      rw [hrest] at hwoken
      rw [hwoken, ok_bind]
      apply Settles.after (keeps_woken h hp htype .unblocked)
      exact ih (h.wake hp .unblocked) (hc.wake h hp .unblocked) hrest
    · exact ⟨k, p, rfl, h, hc, Keeps.refl k p⟩

open List

def handedOver (k : Tasks) (thread : Nat) : Tasks :=
  { k with
    mDeferredDeletedDeadThreads := k.mDeferredDeletedDeadThreads.erase thread
    mThreadsToFree := k.mThreadsToFree ++ [thread] }

lemma frame_handedOver (k : Tasks) (t : Nat) : Frame k (handedOver k t) t :=
  .of_update (update_eq_self t k.threads).symm rfl rfl (fun _ => rfl) rfl

lemma Placed.handOver (h : Placed k p hand) (hp : p t = .deferred) :
    Placed (handedOver k t) (update p t .freed) hand := by
  have hdead : (k.threads t).state = .dead := h.fits_of hp
  exact h.shift (frame_handedOver k t) hp (by simp) rfl (by simp [Fits, handedOver, hdead])
    (h.loose hp (h.lt (by simp [hp])) (by simp))

lemma Counted.handOver (hc : Counted k p) (hp : p t = .deferred) : Counted (handedOver k t) (update p t .freed) := by
  apply hc.keep (frame_handedOver k t).sameOwners
  · simp [hp]
  · rw [hp]
    rfl
  · intro q
    rfl

lemma keeps_handedOver (hp : p t = .deferred) : Keeps k (handedOver k t) p (update p t .freed) where
  finished u := by
    by_cases heq : u = t
    · rw [heq, update_self, hp]
      rfl
    · rw [update_of_ne heq]
  fresh u := by
    by_cases heq : u = t
    · rw [heq, update_self, hp]
      simp
    · rw [update_of_ne heq]
  exposed u := by
    by_cases heq : u = t
    · rw [heq, Exposed, Exposed, update_self, hp]
      simp
    · rw [Exposed, Exposed, update_of_ne heq]
      rfl
  running u cpu hu := by
    refine ⟨rfl, (update_of_ne ?_ _ _).trans hu⟩
    rintro rfl
    rw [hp] at hu
    cases hu
  ready u hu := by
    rw [update_of_ne]
    · exact hu
    · rintro rfl
      rw [hp] at hu
      cases hu
  queued := Queue.Flows.refl _ _
  state _ _ := rfl
  owner _ := rfl
  shouldKillAllThreads _ := rfl
  isInvulnerable _ := rfl
  processes := rfl
  mProcesses := rfl
  mutexOwners := rfl
  cpus := rfl
  cpuCount := rfl

/-- The deferred threads are on this list only, and each of them once. -/
def DeferredOnly (k : Tasks) (threads : List Nat) : Prop :=
  k.mDeferredDeletedDeadThreads = threads ∧ threads.Nodup ∧
    ∀ thread ∈ threads, thread ∉ k.mReadyThreads ∧ thread ∉ k.mThreadsToFree

lemma Placed.deferredOnly (h : Placed k p hand) : DeferredOnly k k.mDeferredDeletedDeadThreads := by
  refine ⟨rfl, h.deferred.nodup, fun t ht => ?_⟩
  have hp : p t = .deferred := (h.deferred.mem_iff t).mp ht
  rw [h.ready.mem_iff, h.freed.mem_iff, hp]
  simp

lemma freeDeferredLoop_step {kept ts : List Nat} (h : DeferredOnly k (kept ++ t :: ts)) (n : Nat) :
    DeferredOnly (handedOver k t) (kept ++ ts) ∧ freeDeferredLoop (n + 1) k kept.length =
      freeDeferredLoop n (handedOver k t) (if ts = [] then 0 else kept.length + 1) := by
  obtain ⟨hlist, hnodup, hoff⟩ := h
  obtain ⟨hnot, hnodup⟩ := nodup_middle.mp hnodup |> nodup_cons.mp
  obtain ⟨hready, hfreed⟩ := hoff t (by simp)
  have hdef : k.mDeferredDeletedDeadThreads.erase t = kept ++ ts := by
    rw [hlist, erase_append_right _ fun hin => hnot (mem_append_left ts hin), erase_cons_head]
  refine ⟨⟨hdef, hnodup, fun u hu => ?_⟩, ?_⟩
  · have hmem : u ∈ kept ++ t :: ts := by
      rw [mem_append, mem_cons]
      exact (mem_append.mp hu).imp_right .inr
    refine ⟨(hoff u hmem).1, fun hin => ?_⟩
    rcases mem_append.mp hin with hin | hin
    · exact (hoff u hmem).2 hin
    · exact hnot (mem_singleton.mp hin ▸ hu)
  · have hget : (kept ++ t :: ts).getD kept.length 0 = t := by simp
    have herase : (kept ++ t :: ts).eraseIdx kept.length = kept ++ ts := by
      rw [eraseIdx_append_of_length_le le_rfl, Nat.sub_self]
      rfl
    have hpos : kept.length ≠ (kept ++ t :: ts).length := by simp
    have hfree : isOnAList { k with mDeferredDeletedDeadThreads := kept ++ ts } t = false := by
      rw [isOnAList, decide_eq_false hready, decide_eq_false hnot, decide_eq_false hfreed]
      rfl
    rw [freeDeferredLoop, hlist, if_neg hpos]
    dsimp only
    rw [hget, herase, freeThread_eq hfree, ok_bind, handedOver, hdef]
    simp

/-- The loop ends as soon as the iterator is behind the last thread, which it need not be before all
threads are handed over. -/
lemma settles_freeDeferredLoop (n : Nat) (kept ts : List Nat) (h : Placed k p hand) (hc : Counted k p)
    (hlist : k.mDeferredDeletedDeadThreads = kept ++ ts) (hn : (kept ++ ts).length < n) :
    Settles k p hand (freeDeferredLoop n k kept.length) := by
  induction n generalizing k p kept ts with
  | zero => omega
  | succ n ih =>
    rcases ts with _ | ⟨t, ts⟩
    · rw [freeDeferredLoop, hlist, append_nil, if_pos rfl]
      exact ⟨k, p, rfl, h, hc, Keeps.refl k p⟩
    · have hp : p t = .deferred := (h.deferred.mem_iff t).mp (by simp [hlist])
      obtain ⟨h1, hrun⟩ := freeDeferredLoop_step (hlist ▸ h.deferredOnly) n
      rw [length_append, length_cons] at hn
      rw [hrun]
      apply Settles.after (keeps_handedOver hp)
      rcases ts with _ | ⟨u, ts⟩
      · exact ih [] kept (h.handOver hp) (hc.handOver hp) (by simpa using h1.1) (by simpa using hn)
      · have hpos := ih (kept ++ [u]) ts (h.handOver hp) (hc.handOver hp) (by simpa using h1.1)
          (by simp at hn ⊢; omega)
        simpa using hpos

lemma settles_freeDeferredThreads (h : Placed k p hand) (hc : Counted k p) : Settles k p hand k.freeDeferredThreads :=
  settles_freeDeferredLoop _ [] _ h hc rfl (lt_add_one _)

lemma exists_odd_shiftLeft {a : Nat} : (∃ e, 2 * a + 1 = 1 <<< e) ↔ a = 0 := by
  constructor
  · rintro ⟨_ | e, he⟩
    · exact Nat.mul_eq_zero.mp (Nat.succ.inj he) |>.resolve_left (by decide)
    · rw [Nat.shiftLeft_succ] at he
      omega
  · rintro rfl
    exact ⟨0, rfl⟩

lemma exists_even_shiftLeft {a : Nat} : (∃ e, 2 * a + 2 = 1 <<< e) ↔ ∃ e, a + 1 = 1 <<< e := by
  constructor
  · rintro ⟨_ | e, he⟩
    · exact absurd he (by rw [Nat.shiftLeft_zero]; omega)
    · rw [Nat.shiftLeft_succ] at he
      exact ⟨e, by omega⟩
  · rintro ⟨e, he⟩
    exact ⟨e + 1, by rw [Nat.shiftLeft_succ]; omega⟩

/-- Every other thread behind the iterator is handed over, and only an iterator that was popped at the last
node goes on at the first one. -/
lemma freeDeferredLoop_eq (n : Nat) (kept ts : List Nat) (h : DeferredOnly k (kept ++ ts))
    (hn : (kept ++ ts).length < n) : ∃ handed left, freeDeferredLoop n k kept.length = .ok { k with
        mDeferredDeletedDeadThreads := left, mThreadsToFree := k.mThreadsToFree ++ handed } ∧
      (handed ++ left).Perm (kept ++ ts) ∧
      (left = [] ↔ ∃ e, 2 * kept.length + ts.length + 1 = 1 <<< e) := by
  induction n generalizing k kept ts with
  | zero => omega
  | succ n ih =>
    rcases ts with _ | ⟨t, ts⟩
    · refine ⟨[], kept, ?_, by simp, ?_⟩
      · have hlist : k.mDeferredDeletedDeadThreads = kept := by rw [h.1, append_nil]
        rw [freeDeferredLoop, hlist, if_pos rfl, append_nil, ← hlist]
      · rw [length_nil, add_zero, exists_odd_shiftLeft, length_eq_zero_iff]
    · obtain ⟨h1, hrun⟩ := freeDeferredLoop_step h n
      rw [length_append, length_cons] at hn
      rw [hrun]
      rcases ts with _ | ⟨u, ts⟩
      · rw [append_nil] at h1
        obtain ⟨handed, left, hloop, hperm, hleft⟩ := ih [] kept h1 (by rw [nil_append]; omega)
        refine ⟨t :: handed, left, ?_, ?_, ?_⟩
        · simpa [handedOver] using hloop
        · exact (hperm.cons t).trans (perm_append_singleton t kept).symm
        · rw [hleft, length_singleton, exists_even_shiftLeft]
          simp
      · obtain ⟨handed, left, hloop, hperm, hleft⟩ := ih (kept ++ [u]) ts (by simpa using h1) (by simp at hn ⊢; omega)
        refine ⟨t :: handed, left, ?_, ?_, ?_⟩
        · simpa [handedOver] using hloop
        · rw [append_assoc] at hperm
          exact (hperm.cons t).trans perm_middle.symm
        · have hsum : 2 * (kept ++ [u]).length + ts.length = 2 * kept.length + (t :: u :: ts).length := by
            simp only [length_append, length_cons, length_nil]
            omega
          rw [hleft, hsum]

/-- Every thread on the list is handed over once, and the list is empty afterwards. -/
def Drains (k : Tasks) : Prop :=
  ∃ handed, k.freeDeferredThreads = .ok { k with
    mDeferredDeletedDeadThreads := [], mThreadsToFree := k.mThreadsToFree ++ handed } ∧
    handed.Perm k.mDeferredDeletedDeadThreads

/-- The loop passes over every other thread, so that some lengths leave one behind. -/
theorem drains_iff (h : DeferredOnly k k.mDeferredDeletedDeadThreads) :
    Drains k ↔ ∃ e, k.mDeferredDeletedDeadThreads.length + 1 = 1 <<< e := by
  obtain ⟨handed, left, hrun, hperm, hleft⟩ := freeDeferredLoop_eq _ [] k.mDeferredDeletedDeadThreads h (lt_add_one _)
  rw [length_nil, mul_zero, zero_add] at hleft
  rw [← hleft]
  constructor
  · rintro ⟨handed', hdrain, -⟩
    have heq := congrArg mDeferredDeletedDeadThreads (Except.ok.inj (hrun.symm.trans hdrain))
    exact heq
  · rintro rfl
    rw [append_nil] at hperm
    exact ⟨handed, hrun, hperm⟩

theorem drains_iff_three : Drains { boot 1 with mDeferredDeletedDeadThreads := [5, 6, 7] } :=
  (drains_iff ⟨rfl, by decide, by decide⟩).mpr ⟨2, rfl⟩

/-- The second one of two threads stays on the list. -/
theorem not_drains_two : ¬Drains { boot 1 with mDeferredDeletedDeadThreads := [5, 6] } := by
  rintro ⟨handed, hrun, -⟩
  have heq := congrArg mDeferredDeletedDeadThreads (Except.ok.inj hrun)
  cases heq

end UltraOS.Tasks
