import Mathlib.Data.List.Basic
import UltraOS.Base.Fault
import UltraOS.Library.Machine

/-!
# Mutexes

`Mutex` and `SharedMutex` of `Kernel/Multitasking/Mutex.cpp`. Each section under `m_state_access_lock` is
one step. A thread that has to wait is queued, and a thread that is woken does not own anything: it goes
through the loop of `lock` again and may be queued once more.
-/

namespace UltraOS

open List

/-- A bound on what the threads of a lock can still do without a new call of `lock`. -/
def waitingPotential (bound pending holders woken : Nat) : Nat := (2 * pending + holders) * (bound + 1) + woken

variable {bound holders woken woken' : Nat}

lemma waitingPotential_acquire {pending : Nat} (h : woken' ≤ woken) :
    waitingPotential bound pending (holders + 1) woken' < waitingPotential bound (pending + 1) holders woken := by
  have hmul : (2 * (pending + 1) + holders) * (bound + 1) =
      (2 * pending + (holders + 1)) * (bound + 1) + (bound + 1) := by
    rw [← Nat.succ_mul]
    congr 1
    omega
  unfold waitingPotential
  omega

lemma waitingPotential_release {pending : Nat} (h : woken' ≤ bound) :
    waitingPotential bound pending holders woken' < waitingPotential bound pending (holders + 1) woken := by
  have hmul : (2 * pending + (holders + 1)) * (bound + 1) = (2 * pending + holders) * (bound + 1) + (bound + 1) := by
    rw [← Nat.succ_mul]
    rfl
  unfold waitingPotential
  omega

structure Mutex where
  mOwner : Option Nat := none
  mWaiters : List Nat := []
  woken : List Nat := []
  /-- The threads whose `lock` has returned and that have not yet called `unlock`. -/
  inside : List Nat := []

namespace Mutex

section

variable (m : Mutex)

/-- One round of the loop of `lock`. -/
def lock (thread : Nat) : Run Mutex := do
  assert (m.mOwner ≠ some thread) "Mutex deadlock"
  if m.mOwner = none then
    return { m with mOwner := some thread, inside := thread :: m.inside }
  else return { m with mWaiters := m.mWaiters ++ [thread] }

def unlock (thread : Nat) : Run Mutex := do
  assert (m.mOwner = some thread) "m_owner == Thread::current()"
  let m := { m with mOwner := none, inside := m.inside.erase thread }
  match m.mWaiters with
  | [] => return m
  | waiter :: waiters => return { m with mWaiters := waiters, woken := waiter :: m.woken }

inductive Action where
  | lock (thread : Nat)
  | retry (thread : Nat)
  | unlock (thread : Nat)

def step : Action → Run Mutex
  | .lock thread => m.lock thread
  | .retry thread => { m with woken := m.woken.erase thread }.lock thread
  | .unlock thread => m.unlock thread

def Permits : Action → Prop
  | .lock thread => thread ∉ m.mWaiters ∧ thread ∉ m.woken ∧ thread ∉ m.inside
  | .retry thread => thread ∈ m.woken
  | .unlock thread => thread ∈ m.inside

def machine : Machine Mutex Action Fault where
  step := step
  admits := Permits

instance (action : Action) : Decidable (machine.admits m action) := by
  cases action <;> dsimp only [machine, Permits] <;> infer_instance

/-- The action is not the first one of a call of `lock`. -/
def Action.isContinuing : Action → Bool
  | .lock _ => false
  | _ => true

def pending : Nat := m.mWaiters.length + m.woken.length

def potential (bound : Nat) : Nat := waitingPotential bound m.pending m.inside.length m.woken.length

end

variable {m : Mutex}

/-- The owner is inside, and every other thread waits at most once. -/
structure Arranged (m : Mutex) : Prop where
  inside : m.inside = m.mOwner.toList
  outside : ∀ thread ∈ m.mWaiters ++ m.woken, thread ∉ m.inside
  nodup : (m.mWaiters ++ m.woken).Nodup

/-- If the mutex is free, and a thread waits, a thread has been woken. -/
structure Fair (m : Mutex) : Prop extends Arranged m where
  awake : m.mOwner = none → m.mWaiters ≠ [] → m.woken ≠ []

/-- A round of the loop gets the mutex or queues the thread, and no thread is left behind in either
case, as the mutex has an owner. -/
lemma Arranged.lock {t : Nat} (h : Arranged m) (hwaits : t ∉ m.mWaiters ++ m.woken) (hinside : t ∉ m.inside) : ∃ m',
    m.lock t = .ok m' ∧ Fair m' ∧ m'.woken = m.woken ∧ (m'.inside = t :: m.inside ∧ m'.mWaiters = m.mWaiters ∨
    m'.inside = m.inside ∧ m'.mWaiters = m.mWaiters ++ [t]) := by
  have howner : m.mOwner ≠ some t := by
    intro howner
    apply hinside
    rw [h.inside, howner]
    exact mem_singleton_self t
  rw [Mutex.lock, assert_bind howner]
  by_cases hnone : m.mOwner = none
  · have hnil : m.inside = [] := by
      rw [h.inside, hnone]
      rfl
    rw [if_pos hnone]
    refine ⟨_, rfl, ⟨⟨by rw [hnil]; rfl, ?_, h.nodup⟩, fun hfree => nomatch hfree⟩, rfl, .inl ⟨rfl, rfl⟩⟩
    intro u hu hmem
    rw [hnil] at hmem
    exact hwaits (mem_singleton.mp hmem ▸ hu)
  · rw [if_neg hnone]
    have hperm : (m.mWaiters ++ [t] ++ m.woken).Perm (t :: (m.mWaiters ++ m.woken)) := by
      rw [append_assoc]
      exact perm_middle
    refine ⟨_, rfl, ⟨⟨h.inside, ?_, ?_⟩, fun hfree => absurd hfree hnone⟩, rfl, .inr ⟨rfl, rfl⟩⟩
    · intro u hu
      rcases mem_cons.mp (hperm.mem_iff.mp hu) with rfl | hu
      · exact hinside
      · exact h.outside u hu
    · exact hperm.nodup_iff.mpr (nodup_cons.mpr ⟨hwaits, h.nodup⟩)

lemma Fair.retry {t : Nat} (h : Fair m) (hwoken : t ∈ m.woken) : ∃ m', m.step (.retry t) =
    .ok m' ∧ Fair m' ∧ m'.pending ≤ m.pending ∧ ∀ bound, m'.potential bound < m.potential bound := by
  have hnodup := (nodup_append.mp h.nodup).2.1
  have hlen : (m.woken.erase t).length + 1 = m.woken.length := length_erase_add_one hwoken
  have hsub : (m.mWaiters ++ m.woken.erase t).Sublist (m.mWaiters ++ m.woken) := erase_sublist.append_left m.mWaiters
  have harranged : Arranged { m with woken := m.woken.erase t } :=
    ⟨h.inside, fun u hu => h.outside u (hsub.subset hu), h.nodup.sublist hsub⟩
  have hwaits : t ∉ m.mWaiters ++ m.woken.erase t := by
    intro hmem
    rcases mem_append.mp hmem with hmem | hmem
    · exact (nodup_append.mp h.nodup).2.2 t hmem t hwoken rfl
    · exact hnodup.not_mem_erase hmem
  have hinside := h.outside t (mem_append_right _ hwoken)
  obtain ⟨m', hok, hfair, hkept, hcases⟩ := harranged.lock hwaits hinside
  dsimp only at hkept hcases
  have hkept' : m'.woken.length + 1 = m.woken.length := by rw [hkept, hlen]
  refine ⟨m', hok, hfair, ?_⟩
  rcases hcases with ⟨hin, hqueue⟩ | ⟨hin, hqueue⟩
  · have hpend : m'.pending + 1 = m.pending := by rw [pending, pending, ← hkept', hqueue, add_assoc]
    refine ⟨by omega, fun bound => ?_⟩
    rw [potential, potential, ← hpend, hin, length_cons]
    exact waitingPotential_acquire (by omega)
  · have hpend : m'.pending = m.pending := by
      rw [pending, pending, ← hkept', hqueue, length_append, length_singleton]
      omega
    refine ⟨by omega, fun bound => ?_⟩
    rw [potential, potential, hpend, hin]
    unfold waitingPotential
    omega

lemma Fair.unlock {t : Nat} (h : Fair m) (hinside : t ∈ m.inside) : ∃ m', m.unlock t = .ok m' ∧ Fair m' ∧ m'.pending ≤
    m.pending ∧ ∀ bound, m.pending ≤ bound → m'.potential bound < m.potential bound := by
  have howner : m.mOwner = some t := by
    rw [h.inside] at hinside
    exact Option.mem_toList.mp hinside
  have hin : m.inside = [t] := by
    rw [h.inside, howner]
    rfl
  have hleft : m.inside.erase t = [] := by rw [hin, erase_cons_head]
  have hone : m.inside.length = 1 := by rw [hin, length_singleton]
  -- Nobody is inside, and the same threads are pending, whether or not one of them is woken.
  have hfreed {m' : Mutex} (howner : m'.mOwner = none) (hinside : m'.inside = [])
      (hperm : (m'.mWaiters ++ m'.woken).Perm (m.mWaiters ++ m.woken))
      (hawake : m'.mWaiters ≠ [] → m'.woken ≠ []) : Fair m' ∧ m'.pending ≤ m.pending ∧
        ∀ bound, m.pending ≤ bound → m'.potential bound < m.potential bound := by
    have hpend : m'.pending = m.pending := by rw [pending, pending, ← length_append, ← length_append, hperm.length_eq]
    have hwoken : m'.woken.length ≤ m'.pending := le_add_self
    refine ⟨⟨⟨?_, ?_, hperm.nodup_iff.mpr h.nodup⟩, fun _ => hawake⟩, hpend.le, fun bound hbound => ?_⟩
    · rw [hinside, howner]
      rfl
    · intro u _
      rw [hinside]
      exact not_mem_nil
    · rw [potential, potential, hpend, hone, hinside]
      exact waitingPotential_release (by omega)
  rw [Mutex.unlock, assert_bind howner]
  cases hwait : m.mWaiters with
  | nil =>
    refine ⟨_, rfl, hfreed rfl hleft ?_ (fun hqueue => absurd rfl hqueue)⟩
    rw [hwait]
  | cons w waiters =>
    refine ⟨_, rfl, hfreed rfl hleft ?_ (fun _ => cons_ne_nil _ _)⟩
    rw [hwait, cons_append]
    exact perm_middle

/-- Every action that is permitted succeeds. Without a new call of `lock`, the threads come closer to
the end of what they can do. -/
lemma step_fair (h : Fair m) (action : Action) (hperm : m.Permits action) :
    ∃ m', m.step action = .ok m' ∧ Fair m' ∧ (action.isContinuing = true →
      m'.pending ≤ m.pending ∧ ∀ bound, m.pending ≤ bound → m'.potential bound < m.potential bound) := by
  cases action with
  | lock t =>
    have hwaits : t ∉ m.mWaiters ++ m.woken := fun hmem => (mem_append.mp hmem).elim hperm.1 hperm.2.1
    obtain ⟨m', hok, hfair, -⟩ := h.lock hwaits hperm.2.2
    exact ⟨m', hok, hfair, fun hfalse => nomatch hfalse⟩
  | retry t =>
    obtain ⟨m', hok, hfair, hpend, hpot⟩ := h.retry hperm
    exact ⟨m', hok, hfair, fun _ => ⟨hpend, fun bound _ => hpot bound⟩⟩
  | unlock t =>
    obtain ⟨m', hok, hfair, hpend⟩ := h.unlock hperm
    exact ⟨m', hok, hfair, fun _ => hpend⟩

/-- One thread at most is inside, a waiter of a free mutex will be followed by a woken thread, and once no
new thread comes the queue gets empty. -/
structure Orderly (m : Mutex) : Prop where
  exclusion : m.inside.length ≤ 1
  awake : m.inside = [] → m.mWaiters ≠ [] → m.woken ≠ []
  drains : ∀ actions, machine.Admissible m actions →
    (∀ action ∈ actions, action.isContinuing = true) → actions.length ≤ m.potential m.pending

lemma Fair.orderly (h : Fair m) : Orderly m where
  exclusion := by
    rw [h.inside]
    cases m.mOwner <;> simp
  awake hinside := by
    apply h.awake
    rw [h.inside] at hinside
    cases hcases : m.mOwner with
    | none => rfl
    | some owner =>
      rw [hcases] at hinside
      cases hinside
  drains _ hadm hcontinuing := Machine.length_le_of_potential (fun _ => step_fair) h hadm hcontinuing le_rfl

end Mutex

inductive LockMode where
  | exclusive
  | shared
deriving DecidableEq

structure SharedMutex where
  mSharedRefcount : Int := 0
  mSharedWaiters : List Nat := []
  mExclusiveWaiters : List Nat := []
  woken : List (Nat × LockMode) := []
  /-- The threads whose call has returned and that have not yet unlocked. -/
  inside : List (Nat × LockMode) := []

namespace SharedMutex

section

variable (m : SharedMutex)

def exclusiveMode : Int := -1

def freeMode : Int := 0

def exclusiveLock (thread : Nat) : SharedMutex :=
  if m.mSharedRefcount = freeMode then
    { m with mSharedRefcount := exclusiveMode, inside := (thread, .exclusive) :: m.inside }
  else { m with mExclusiveWaiters := m.mExclusiveWaiters ++ [thread] }

def sharedLock (thread : Nat) : SharedMutex :=
  if m.mSharedRefcount ≥ freeMode then
    { m with mSharedRefcount := m.mSharedRefcount + 1, inside := (thread, .shared) :: m.inside }
  else { m with mSharedWaiters := m.mSharedWaiters ++ [thread] }

def wakeLoop : (waiters : List Nat) → SharedMutex → SharedMutex
  | [], m => m
  | waiter :: waiters, m => wakeLoop waiters { m with mSharedWaiters := waiters, woken := (waiter, .shared) :: m.woken }

def wakeExclusive : SharedMutex :=
  match m.mExclusiveWaiters with
  | [] => m
  | waiter :: waiters => { m with mExclusiveWaiters := waiters, woken := (waiter, .exclusive) :: m.woken }

def exclusiveUnlock (thread : Nat) : Run SharedMutex := do
  assert (m.mSharedRefcount = exclusiveMode) "m_shared_refcount == exclusive_mode"
  let m := { m with mSharedRefcount := freeMode, inside := m.inside.erase (thread, .exclusive) }
  if m.mSharedWaiters ≠ [] then return wakeLoop m.mSharedWaiters m
  else return m.wakeExclusive

def sharedUnlock (thread : Nat) : Run SharedMutex := do
  assert (m.mSharedRefcount > freeMode) "m_shared_refcount > free_mode"
  let m := { m with
    mSharedRefcount := m.mSharedRefcount - 1, inside := m.inside.erase (thread, .shared) }
  if m.mSharedRefcount = freeMode then return m.wakeExclusive else return m

inductive Action where
  | lock (thread : Nat) (mode : LockMode)
  | retry (thread : Nat) (mode : LockMode)
  | unlock (thread : Nat) (mode : LockMode)

def lock (thread : Nat) : LockMode → SharedMutex
  | .exclusive => m.exclusiveLock thread
  | .shared => m.sharedLock thread

def step : Action → Run SharedMutex
  | .lock thread mode => .ok (m.lock thread mode)
  | .retry thread mode => .ok ({ m with woken := m.woken.erase (thread, mode) }.lock thread mode)
  | .unlock thread .exclusive => m.exclusiveUnlock thread
  | .unlock thread .shared => m.sharedUnlock thread

def IsIdle (thread : Nat) : Prop :=
  thread ∉ m.mSharedWaiters ∧ thread ∉ m.mExclusiveWaiters ∧ ∀ waiter ∈ m.woken, waiter.1 ≠ thread

def Permits : Action → Prop
  | .lock thread _ => m.IsIdle thread
  | .retry thread mode => (thread, mode) ∈ m.woken
  | .unlock thread mode => m.IsIdle thread ∧ (thread, mode) ∈ m.inside

def machine : Machine SharedMutex Action Fault where
  step := step
  admits := Permits

instance (action : Action) : Decidable (machine.admits m action) := by
  cases action <;> dsimp only [machine, Permits, IsIdle] <;> infer_instance

/-- The action is not the first one of a call of a locking function. -/
def Action.isContinuing : Action → Bool
  | .lock .. => false
  | _ => true

def pending : Nat := m.mSharedWaiters.length + m.mExclusiveWaiters.length + m.woken.length

def potential (bound : Nat) : Nat := waitingPotential bound m.pending m.inside.length m.woken.length

end

variable {m m' : SharedMutex} {thread t : Nat}

/-- The count is the one of the threads inside, and shared waiters wait for an exclusive one. -/
structure Counted (m : SharedMutex) : Prop where
  held : (∃ thread, m.inside = [(thread, .exclusive)] ∧ m.mSharedRefcount = exclusiveMode) ∨
    (∀ holder ∈ m.inside, holder.2 = .shared) ∧ m.mSharedRefcount = m.inside.length
  shared : m.mSharedWaiters ≠ [] → m.mSharedRefcount = exclusiveMode

/-- If the mutex is free, and a thread waits, a thread has been woken. -/
structure Fair (m : SharedMutex) : Prop extends Counted m where
  awake : m.mSharedRefcount = freeMode → m.mExclusiveWaiters ≠ [] → m.woken ≠ []

lemma Counted.all_shared (h : Counted m) (hn : m.mSharedRefcount ≥ freeMode) :
    (∀ w ∈ m.inside, w.2 = .shared) ∧ m.mSharedRefcount = m.inside.length := by
  refine h.held.resolve_left ?_
  rintro ⟨-, -, hexclusive⟩
  rw [hexclusive] at hn
  exact absurd hn (by decide)

lemma Counted.sharedWaiters_eq_nil (h : Counted m) (hn : m.mSharedRefcount ≥ freeMode) : m.mSharedWaiters = [] := by
  by_contra hwait
  rw [h.shared hwait] at hn
  exact absurd hn (by decide)

lemma Counted.inside_eq_nil (h : Counted m) (hn : m.mSharedRefcount = freeMode) : m.inside = [] := by
  obtain ⟨-, hlen⟩ := h.all_shared (Int.le_of_eq hn.symm)
  apply eq_nil_of_length_eq_zero
  rw [hn] at hlen
  exact Int.ofNat_eq_zero.mp hlen.symm

lemma Counted.lock (h : Counted m) (t : Nat) (mode : LockMode) : Fair (m.lock t mode) ∧ (m.lock t mode).woken =
    m.woken ∧ ((m.lock t mode).inside.length = m.inside.length + 1 ∧ (m.lock t mode).pending = m.pending ∨
    (m.lock t mode).inside = m.inside ∧ (m.lock t mode).pending = m.pending + 1) := by
  cases mode with
  | exclusive =>
    rw [SharedMutex.lock, exclusiveLock]
    by_cases hfree : m.mSharedRefcount = freeMode
    · rw [if_pos hfree]
      refine ⟨⟨⟨.inl ⟨t, ?_, rfl⟩, fun _ => rfl⟩, fun hn => nomatch hn⟩, rfl, .inl ⟨rfl, rfl⟩⟩
      rw [h.inside_eq_nil hfree]
    · rw [if_neg hfree]
      refine ⟨⟨⟨h.held, h.shared⟩, fun hn => absurd hn hfree⟩, rfl, .inr ⟨rfl, ?_⟩⟩
      rw [pending, pending, length_append, length_singleton]
      dsimp only
      omega
  | shared =>
    rw [SharedMutex.lock, sharedLock]
    by_cases hfree : m.mSharedRefcount ≥ freeMode
    · obtain ⟨hshared, hlen⟩ := h.all_shared hfree
      have hpositive : m.mSharedRefcount + 1 ≠ freeMode := by
        unfold freeMode at hfree ⊢
        omega
      rw [if_pos hfree]
      refine ⟨⟨⟨.inr ⟨?_, ?_⟩, ?_⟩, fun hn => absurd hn hpositive⟩, rfl, .inl ⟨rfl, rfl⟩⟩
      · intro w hholder
        rcases mem_cons.mp hholder with rfl | hholder
        · rfl
        · exact hshared w hholder
      · rw [hlen, length_cons]
        rfl
      · exact fun hwait => absurd (h.sharedWaiters_eq_nil hfree) hwait
    · have hheld : m.mSharedRefcount = exclusiveMode := by
        rcases h.held with ⟨-, -, hexclusive⟩ | ⟨-, hlen⟩
        · exact hexclusive
        · exact absurd (hlen ▸ Int.natCast_nonneg _) hfree
      rw [if_neg hfree]
      refine ⟨⟨⟨h.held, fun _ => hheld⟩, fun hn => ?_⟩, rfl, .inr ⟨rfl, ?_⟩⟩
      · exact absurd (Int.le_of_eq hn.symm) hfree
      · rw [pending, pending, length_append, length_singleton]
        dsimp only
        omega

lemma wakeLoop_eq (waiters : List Nat) (m : SharedMutex) :
    ∃ woken, (wakeLoop waiters m) = { m with
      mSharedWaiters := if waiters = [] then m.mSharedWaiters else [], woken := woken } ∧
      woken.length = waiters.length + m.woken.length := by
  induction waiters generalizing m with
  | nil => exact ⟨m.woken, rfl, (zero_add _).symm⟩
  | cons w waiters ih =>
    obtain ⟨woken, heq, hlen⟩ := ih { m with mSharedWaiters := waiters, woken := (w, .shared) :: m.woken }
    refine ⟨woken, ?_, ?_⟩
    · rw [wakeLoop, heq]
      by_cases hnil : waiters = [] <;> simp [hnil]
    · rw [hlen, length_cons, length_cons]
      omega

/-- The mutex has been given back, and every pending thread still is pending. -/
structure Released (m m' : SharedMutex) : Prop where
  inside : m'.inside = m.inside
  mSharedRefcount : m'.mSharedRefcount = m.mSharedRefcount
  mSharedWaiters : m'.mSharedWaiters = []
  pending : m'.pending = m.pending
  awake : m'.mExclusiveWaiters ≠ [] → m'.woken ≠ []

lemma released_wakeExclusive (hwait : m.mSharedWaiters = []) : Released m m.wakeExclusive := by
  unfold wakeExclusive
  split
  · rename_i hnil
    exact ⟨rfl, rfl, hwait, rfl, fun hexclusive => absurd hnil hexclusive⟩
  · rename_i w waiters hcons
    refine ⟨rfl, rfl, hwait, ?_, fun _ => cons_ne_nil _ _⟩
    rw [SharedMutex.pending, SharedMutex.pending, hcons, length_cons, length_cons]
    dsimp only
    omega

lemma released_wakeLoop (hwait : m.mSharedWaiters ≠ []) : Released m (wakeLoop m.mSharedWaiters m) := by
  obtain ⟨woken, heq, hlen⟩ := wakeLoop_eq m.mSharedWaiters m
  have hpositive := length_pos_of_ne_nil hwait
  rw [heq, if_neg hwait]
  refine ⟨rfl, rfl, rfl, ?_, fun _ => ne_nil_of_length_pos ?_⟩
  · rw [SharedMutex.pending, SharedMutex.pending, hlen, length_nil]
    dsimp only
    omega
  · rw [hlen]
    omega

lemma potential_lt_of_inside (hinside : m'.inside.length + 1 = m.inside.length)
    (hpend : m'.pending = m.pending) (hbound : m.pending ≤ bound) : m'.potential bound < m.potential bound := by
  have hwoken : m'.woken.length ≤ m'.pending := le_add_self
  rw [potential, potential, hpend, ← hinside]
  exact waitingPotential_release (by omega)

lemma Fair.exclusiveUnlock (h : Fair m) (hinside : (t, .exclusive) ∈ m.inside) : ∃ m',
    m.exclusiveUnlock t = .ok m' ∧ Fair m' ∧ m'.pending = m.pending ∧ m'.inside.length + 1 = m.inside.length := by
  obtain ⟨hin, hn⟩ : m.inside = [(t, .exclusive)] ∧ m.mSharedRefcount = exclusiveMode := by
    rcases h.held with ⟨u, hin, hn⟩ | ⟨hshared, -⟩
    · rw [hin, mem_singleton] at hinside
      exact ⟨hinside ▸ hin, hn⟩
    · exact nomatch hshared _ hinside
  have hleft : m.inside.erase (t, .exclusive) = [] := by rw [hin, erase_cons_head]
  have hrel {m' : SharedMutex}
      (hm : Released { m with
        mSharedRefcount := freeMode, inside := m.inside.erase (t, .exclusive) } m') :
      Fair m' ∧ m'.pending = m.pending ∧ m'.inside.length + 1 = m.inside.length := by
    have hnil : m'.inside = [] := hm.inside.trans hleft
    refine ⟨⟨⟨.inr ⟨?_, ?_⟩, fun hwait => absurd hm.mSharedWaiters hwait⟩, fun _ => hm.awake⟩, hm.pending, ?_⟩
    · rw [hnil]
      exact fun w hholder => absurd hholder not_mem_nil
    · rw [hm.mSharedRefcount, hnil]
      rfl
    · rw [hnil, hin]
      rfl
  rw [SharedMutex.exclusiveUnlock, assert_bind hn]
  by_cases hwait : m.mSharedWaiters = []
  · rw [if_neg (not_not_intro hwait)]
    exact ⟨_, rfl, hrel (released_wakeExclusive hwait)⟩
  · rw [if_pos hwait]
    exact ⟨_, rfl, hrel (released_wakeLoop hwait)⟩

lemma Fair.sharedUnlock (h : Fair m) (hinside : (t, .shared) ∈ m.inside) : ∃ m',
    m.sharedUnlock t = .ok m' ∧ Fair m' ∧ m'.pending = m.pending ∧ m'.inside.length + 1 = m.inside.length := by
  have hpositive := length_pos_of_mem hinside
  obtain ⟨hshared, hn⟩ : (∀ w ∈ m.inside, w.2 = .shared) ∧ m.mSharedRefcount = m.inside.length := by
    refine h.held.resolve_left ?_
    rintro ⟨u, hin, -⟩
    rw [hin, mem_singleton] at hinside
    cases hinside
  have hlen : (m.inside.erase (t, .shared)).length + 1 = m.inside.length := length_erase_add_one hinside
  have hgreater : m.mSharedRefcount > freeMode := by
    rw [hn]
    exact Int.ofNat_lt.mpr hpositive
  have hwait : m.mSharedWaiters = [] := h.sharedWaiters_eq_nil (Int.le_of_lt hgreater)
  have hheld : (∀ w ∈ m.inside.erase (t, .shared), w.2 = .shared) ∧
      m.mSharedRefcount - 1 = (m.inside.erase (t, .shared)).length :=
    ⟨fun w hholder => hshared w (mem_of_mem_erase hholder), by omega⟩
  rw [SharedMutex.sharedUnlock, assert_bind hgreater]
  dsimp only
  split
  · have hm := released_wakeExclusive (m := { m with
      mSharedRefcount := m.mSharedRefcount - 1, inside := m.inside.erase (t, .shared) }) hwait
    refine ⟨_, rfl, ⟨⟨.inr ?_, fun hnot => absurd hm.mSharedWaiters hnot⟩, fun _ => hm.awake⟩, hm.pending, ?_⟩
    · rwa [hm.inside, hm.mSharedRefcount]
    · rwa [hm.inside]
  · rename_i hzero
    exact ⟨_, rfl, ⟨⟨.inr hheld, fun hnot => absurd hwait hnot⟩, fun hfree => absurd hfree hzero⟩, rfl, hlen⟩

lemma Fair.retry {mode : LockMode} (h : Fair m) (hwoken : (t, mode) ∈ m.woken) : ∃ m', m.step (.retry t mode) = .ok m' ∧
    Fair m' ∧ m'.pending ≤ m.pending ∧ ∀ bound, m'.potential bound < m.potential bound := by
  have hlen : (m.woken.erase (t, mode)).length + 1 = m.woken.length := length_erase_add_one hwoken
  have hcnt : Counted { m with woken := m.woken.erase (t, mode) } := ⟨h.held, h.shared⟩
  obtain ⟨hfair, hkept, hcases⟩ := hcnt.lock t mode
  have hless : SharedMutex.pending { m with woken := m.woken.erase (t, mode) } + 1 = m.pending := by
    rw [pending, pending, ← hlen]
    rfl
  refine ⟨_, rfl, hfair, ?_⟩
  rcases hcases with ⟨hin, hpend⟩ | ⟨hin, hpend⟩
  · refine ⟨by omega, fun bound => ?_⟩
    rw [potential, potential, hin, hpend, hkept, ← hless]
    exact waitingPotential_acquire (by dsimp only; omega)
  · refine ⟨by omega, fun bound => ?_⟩
    rw [potential, potential, hin, hpend, hkept, hless]
    unfold waitingPotential
    dsimp only
    omega

/-- Every action that is permitted succeeds. Without a new call of a locking function, the threads come
closer to the end of what they can do. -/
lemma step_fair (h : Fair m) (action : Action) (hperm : m.Permits action) :
    ∃ m', m.step action = .ok m' ∧ Fair m' ∧ (action.isContinuing = true →
      m'.pending ≤ m.pending ∧ ∀ bound, m.pending ≤ bound → m'.potential bound < m.potential bound) := by
  have hunlock {m' : SharedMutex} (hpend : m'.pending = m.pending) (hinside : m'.inside.length + 1 = m.inside.length) :
      m'.pending ≤ m.pending ∧ ∀ bound, m.pending ≤ bound → m'.potential bound < m.potential bound :=
    ⟨hpend.le, fun _ hbound => potential_lt_of_inside hinside hpend hbound⟩
  cases action with
  | lock t mode => exact ⟨_, rfl, (h.lock t mode).1, fun hfalse => nomatch hfalse⟩
  | retry t mode =>
    obtain ⟨m', hok, hfair, hpend, hpot⟩ := h.retry hperm
    exact ⟨m', hok, hfair, fun _ => ⟨hpend, fun bound _ => hpot bound⟩⟩
  | unlock t mode =>
    cases mode with
    | exclusive =>
      obtain ⟨m', hok, hfair, hpend, hinside⟩ := h.exclusiveUnlock hperm.2
      exact ⟨m', hok, hfair, fun _ => hunlock hpend hinside⟩
    | shared =>
      obtain ⟨m', hok, hfair, hpend, hinside⟩ := h.sharedUnlock hperm.2
      exact ⟨m', hok, hfair, fun _ => hunlock hpend hinside⟩

/-- An exclusive holder is the only one, shared waiters wait for it, a waiter of a free mutex will be
followed by a woken thread, and once no new thread comes the queues get empty. -/
structure Orderly (m : SharedMutex) : Prop where
  exclusion : ∀ thread, (thread, .exclusive) ∈ m.inside → m.inside = [(thread, .exclusive)]
  queued : m.mSharedWaiters ≠ [] → ∃ thread, m.inside = [(thread, .exclusive)]
  awake : m.inside = [] → m.mSharedWaiters ++ m.mExclusiveWaiters ≠ [] → m.woken ≠ []
  drains : ∀ actions, machine.Admissible m actions →
    (∀ action ∈ actions, action.isContinuing = true) → actions.length ≤ m.potential m.pending

lemma Fair.orderly (h : Fair m) : Orderly m where
  exclusion t ht := by
    rcases h.held with ⟨u, hin, -⟩ | ⟨hshared, -⟩
    · rw [hin, mem_singleton] at ht
      rw [hin, ht]
    · exact nomatch hshared _ ht
  queued hwait := by
    rcases h.held with ⟨t, hin, -⟩ | ⟨-, hn⟩
    · exact ⟨t, hin⟩
    · exact absurd (h.sharedWaiters_eq_nil (hn ▸ Int.natCast_nonneg _)) hwait
  awake hinside hwait := by
    have hn : m.mSharedRefcount = freeMode := by
      rcases h.held with ⟨t, hin, -⟩ | ⟨-, hn⟩
      · rw [hinside] at hin
        cases hin
      · rw [hn, hinside]
        rfl
    apply h.awake hn
    rwa [h.sharedWaiters_eq_nil (Int.le_of_eq hn.symm), nil_append] at hwait
  drains _ hadm hcontinuing := Machine.length_le_of_potential (fun _ => step_fair) h hadm hcontinuing le_rfl

end SharedMutex

lemma Mutex.fair_initial : Mutex.Fair {} := ⟨⟨rfl, by simp, by simp⟩, fun _ hwait => absurd rfl hwait⟩

lemma SharedMutex.fair_initial : SharedMutex.Fair {} :=
  ⟨⟨.inr ⟨by simp, rfl⟩, fun hwait => absurd rfl hwait⟩, fun _ hwait => absurd rfl hwait⟩

/-- Both mutexes keep what they promise along every run, and no assertion fails. -/
theorem orderly_mutexes (actions : List Mutex.Action) (sharedActions : List SharedMutex.Action)
    (hadmissible : Mutex.machine.Admissible {} actions) (hshared : SharedMutex.machine.Admissible {} sharedActions) :
    Mutex.machine.EveryState Mutex.Orderly {} actions ∧
    SharedMutex.machine.EveryState SharedMutex.Orderly {} sharedActions := by
  constructor
  · apply Machine.everyState_of_step (fun _ h => h.orderly) _ Mutex.fair_initial hadmissible
    intro m action h hperm
    obtain ⟨m', hok, hfair, -⟩ := Mutex.step_fair h action hperm
    exact ⟨m', hok, hfair⟩
  · apply Machine.everyState_of_step (fun _ h => h.orderly) _ SharedMutex.fair_initial hshared
    intro m action h hperm
    obtain ⟨m', hok, hfair, -⟩ := SharedMutex.step_fair h action hperm
    exact ⟨m', hok, hfair⟩

/-- A woken thread finds the mutex locked again, and is queued once more. -/
def mutexSample : List Mutex.Action := [.lock 0, .lock 1, .unlock 0, .lock 2, .retry 1, .unlock 2, .retry 1, .unlock 1]

/-- Readers are preferred to the writers that wait with them. -/
def sharedMutexSample : List SharedMutex.Action :=
  [.lock 0 .exclusive, .lock 1 .exclusive, .lock 2 .shared, .lock 3 .shared, .unlock 0 .exclusive,
    .retry 2 .shared, .retry 3 .shared, .unlock 2 .shared, .unlock 3 .shared, .retry 1 .exclusive,
    .unlock 1 .exclusive]

theorem orderly_mutexes_samples : (Mutex.machine.Admissible {} mutexSample ∧
    SharedMutex.machine.Admissible {} sharedMutexSample) ∧ Mutex.machine.EveryState Mutex.Orderly {} mutexSample ∧
    SharedMutex.machine.EveryState SharedMutex.Orderly {} sharedMutexSample :=
  ⟨by decide, orderly_mutexes mutexSample sharedMutexSample (by decide) (by decide)⟩

end UltraOS
