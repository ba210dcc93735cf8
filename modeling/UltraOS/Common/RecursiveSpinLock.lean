import Mathlib.Data.List.Basic
import UltraOS.Base.Fault
import UltraOS.Library.Machine

/-!
# The recursive spin lock

`RecursiveInterruptSafeSpinLock` of `Kernel/Common/Lock.h`. The owner of the lock is the number of a CPU,
which `do_lock` takes once in front of its loop. While a thread waits, the loop lets interrupts through,
and the thread may go on on another CPU with the number of the first one.
-/

namespace UltraOS

open List

/-- Where a thread stands in `lock` and `unlock`. -/
inductive LockPhase where
  | outside
  /-- In the loop of `do_lock`. -/
  | trying (thisCpu : Nat)
  /-- Between the `Interrupts::enable` and the `Interrupts::disable` of the loop. -/
  | serving (thisCpu : Nat)
  /-- Between the exchange and `++m_depth`. -/
  | entering
  /-- Between the last `--m_depth` and the store that frees the lock. -/
  | leaving
deriving DecidableEq

def LockPhase.isTrying : LockPhase → Bool
  | .trying _ => true
  | _ => false

def LockPhase.isServing : LockPhase → Bool
  | .serving _ => true
  | _ => false

structure LockThread where
  cpu : Option Nat := none
  interrupts : Bool := true
  phase : LockPhase := .outside
  interruptState : Bool := false
  /-- The `interrupt_state`s of the guards that the thread is in, the innermost one first. -/
  guards : List Bool := []

/-- The thread is inside of the lock, has just taken it, or is about to free it. -/
def LockThread.Owns (t : LockThread) : Prop := t.guards ≠ [] ∨ t.phase = .entering ∨ t.phase = .leaving

instance (t : LockThread) : Decidable t.Owns := inferInstanceAs (Decidable (_ ∨ _))

structure RecursiveSpinLock where
  /-- `none` stands for `unlocked`. -/
  mLock : Option Nat := none
  mDepth : Nat := 0
  threads : Nat → LockThread
  threadCount : Nat
  cpuCount : Nat

namespace RecursiveSpinLock

variable (l : RecursiveSpinLock)

def updateThread (thread : Nat) (new : LockThread) : RecursiveSpinLock :=
  { l with threads := Function.update l.threads thread new }

def lock (thread : Nat) : Run RecursiveSpinLock :=
  let t := l.threads thread
  match t.cpu with
  | none => .error .badPointer
  | some cpu =>
    .ok (l.updateThread thread { t with interruptState := t.interrupts, interrupts := false, phase := .trying cpu })

/-- The `compare_and_exchange` of the loop and what depends on it. -/
def attempt (thread : Nat) : Run RecursiveSpinLock :=
  let t := l.threads thread
  match t.phase with
  | .trying thisCpu =>
    match l.mLock with
    | none => .ok { l.updateThread thread { t with phase := .entering } with mLock := some thisCpu }
    | some expected =>
      if expected = thisCpu then .ok (l.updateThread thread { t with phase := .entering })
      else if t.interruptState then
        .ok (l.updateThread thread { t with interrupts := true, phase := .serving thisCpu })
      else .ok l
  | _ => .error .badPointer

/-- The `Interrupts::disable` of the loop. -/
def retry (thread : Nat) : Run RecursiveSpinLock :=
  let t := l.threads thread
  match t.phase with
  | .serving thisCpu => .ok (l.updateThread thread { t with interrupts := false, phase := .trying thisCpu })
  | _ => .error .badPointer

def increment (thread : Nat) : RecursiveSpinLock :=
  let t := l.threads thread
  { l.updateThread thread { t with phase := .outside, guards := t.interruptState :: t.guards } with
    mDepth := l.mDepth + 1 }

def unlock (thread : Nat) : Run RecursiveSpinLock :=
  let t := l.threads thread
  match t.guards with
  | [] => .error .badPointer
  | interruptState :: guards => do
    assert (l.mDepth > 0) "m_depth > 0"
    let t :=
      if l.mDepth - 1 = 0 then { t with phase := .leaving, interruptState := interruptState, guards := guards }
      else { t with interrupts := interruptState || t.interrupts, guards := guards }
    return { l.updateThread thread t with mDepth := l.mDepth - 1 }

def release (thread : Nat) : RecursiveSpinLock :=
  let t := l.threads thread
  { l.updateThread thread
      { t with interrupts := t.interruptState || t.interrupts, phase := .outside } with
    mLock := none }

inductive Action where
  | setInterrupts (thread : Nat) (value : Bool)
  | lock (thread : Nat)
  | attempt (thread : Nat)
  | retry (thread : Nat)
  | increment (thread : Nat)
  | unlock (thread : Nat)
  | release (thread : Nat)
  | preempt (thread : Nat)
  | resume (thread cpu : Nat)

def step : Action → Run RecursiveSpinLock
  | .setInterrupts thread value => .ok (l.updateThread thread { l.threads thread with interrupts := value })
  | .lock thread => l.lock thread
  | .attempt thread => l.attempt thread
  | .retry thread => l.retry thread
  | .increment thread => .ok (l.increment thread)
  | .unlock thread => l.unlock thread
  | .release thread => .ok (l.release thread)
  | .preempt thread => .ok (l.updateThread thread { l.threads thread with cpu := none })
  | .resume thread cpu => .ok (l.updateThread thread { l.threads thread with cpu := some cpu })

def Runs (thread : Nat) : Prop := thread < l.threadCount ∧ (l.threads thread).cpu ≠ none

def Permits : Action → Prop
  | .setInterrupts thread _ => l.Runs thread ∧ (l.threads thread).phase = .outside ∧ (l.threads thread).guards = []
  | .lock thread => l.Runs thread ∧ (l.threads thread).phase = .outside
  | .attempt thread => l.Runs thread ∧ (l.threads thread).phase.isTrying
  | .retry thread => l.Runs thread ∧ (l.threads thread).phase.isServing
  | .increment thread => l.Runs thread ∧ (l.threads thread).phase = .entering
  | .unlock thread => l.Runs thread ∧ (l.threads thread).phase = .outside ∧ (l.threads thread).guards ≠ []
  | .release thread => l.Runs thread ∧ (l.threads thread).phase = .leaving
  | .preempt thread => l.Runs thread ∧ (l.threads thread).interrupts = true
  | .resume thread cpu => thread < l.threadCount ∧ cpu < l.cpuCount ∧
      (l.threads thread).cpu = none ∧ ∀ other < l.threadCount, (l.threads other).cpu ≠ some cpu

def machine : Machine RecursiveSpinLock Action Fault where
  step := step
  admits := Permits

instance (action : Action) : Decidable (machine.admits l action) := by
  cases action <;> dsimp only [machine, Permits, Runs] <;> infer_instance

def initial (cpuCount threadCount : Nat) : RecursiveSpinLock where
  threads _ := {}
  threadCount := threadCount
  cpuCount := cpuCount

def Owns (thread : Nat) : Prop := (l.threads thread).Owns

instance (thread : Nat) : Decidable (l.Owns thread) :=
  inferInstanceAs (Decidable (l.threads thread).Owns)

def Exclusive : Prop :=
  (∀ thread < l.threadCount, ∀ other < l.threadCount, l.Owns thread → l.Owns other → thread = other) ∧
    (∀ thread < l.threadCount, l.Owns thread → l.mDepth = (l.threads thread).guards.length) ∧
    (∀ thread < l.threadCount, (l.threads thread).phase = .leaving → l.mDepth = 0) ∧
    (l.mLock = none ↔ ∀ thread < l.threadCount, ¬ l.Owns thread)

instance : Decidable l.Exclusive := inferInstanceAs (Decidable (_ ∧ _))

/-- The thread of an exchange runs on the CPU whose number it has taken. -/
def Unmoved : Action → Prop
  | .attempt thread => (l.threads thread).phase = .trying ((l.threads thread).cpu.getD 0)
  | _ => True

instance (action : Action) : Decidable (l.Unmoved action) := by cases action <;> dsimp only [Unmoved] <;> infer_instance

variable {l} {l' : RecursiveSpinLock} {thread : Nat} {new : LockThread}

/-- The owner stays on the CPU whose number is in the lock, as it lets no interrupts through. -/
structure Excludes (l : RecursiveSpinLock) : Prop where
  distinct : ∀ thread other cpu, (l.threads thread).cpu = some cpu → (l.threads other).cpu = some cpu → thread = other
  absent : ∀ thread, l.threadCount ≤ thread → l.threads thread = {}
  trying : ∀ thread cpu, (l.threads thread).phase = .trying cpu → (l.threads thread).interrupts = false
  owner : ∀ thread, l.Owns thread → (l.threads thread).interrupts = false ∧
    l.mDepth = (l.threads thread).guards.length ∧
    ∃ cpu, (l.threads thread).cpu = some cpu ∧ l.mLock = some cpu
  held : l.mLock ≠ none → ∃ thread, l.Owns thread
  free : l.mLock = none → l.mDepth = 0
  nested : ∀ thread, ∀ state ∈ (l.threads thread).guards.dropLast, state = false
  again : ∀ thread, (l.threads thread).guards ≠ [] → (l.threads thread).phase ≠ .outside →
    (l.threads thread).interruptState = false
  leaving : ∀ thread, (l.threads thread).phase = .leaving → (l.threads thread).guards = []

variable (h : Excludes l) (ht : l.Owns thread) (hlt : thread < l.threadCount)
  (hths : l'.threads = Function.update l.threads thread new)
  (hn : l'.threadCount = l.threadCount)
  (hcpu : ∀ u cpu, u ≠ thread → new.cpu = some cpu → (l.threads u).cpu ≠ some cpu)
  (htrying : ∀ cpu, new.phase = .trying cpu → new.interrupts = false)

include h ht in
lemma Excludes.unique {u : Nat} (hu : l.Owns u) : thread = u := by
  obtain ⟨-, -, cpu, hcpu, hlock⟩ := h.owner thread ht
  obtain ⟨-, -, cpu', hcpu', hlock'⟩ := h.owner u hu
  have heq : cpu = cpu' := Option.some.inj (hlock.symm.trans hlock')
  exact h.distinct thread u cpu hcpu (heq ▸ hcpu')

include h ht in
lemma Excludes.lt_of_owns : thread < l.threadCount := by
  by_contra hle
  rw [Owns, h.absent thread (Nat.not_lt.mp hle)] at ht
  rcases ht with hgrd | hphase | hphase
  · exact hgrd rfl
  · cases hphase
  · cases hphase

lemma Excludes.exclusive (h : Excludes l) : l.Exclusive := by
  refine ⟨?_, ?_, ?_, ?_, ?_⟩
  · exact fun thread _ u _ ht hu => h.unique ht hu
  · exact fun thread _ ht => (h.owner thread ht).2.1
  · intro thread _ hphase
    rw [(h.owner thread (.inr (.inr hphase))).2.1, h.leaving thread hphase]
    rfl
  · intro hnone thread _ ht
    obtain ⟨-, -, cpu, -, hlock⟩ := h.owner thread ht
    rw [hnone] at hlock
    cases hlock
  · intro hnone
    by_contra hlock
    obtain ⟨thread, ht⟩ := h.held hlock
    exact hnone thread (h.lt_of_owns ht) ht

lemma excludes_initial (cpuCount threadCount : Nat) : Excludes (initial cpuCount threadCount) where
  distinct _ _ _ hcpu := nomatch hcpu
  absent _ _ := rfl
  trying _ _ hphase := nomatch hphase
  owner _ howns := by
    rcases howns with hgrd | hphase | hphase
    · exact absurd rfl hgrd
    · cases hphase
    · cases hphase
  held hlock := absurd rfl hlock
  free _ := rfl
  nested _ _ hstate := nomatch hstate
  again _ hgrd := absurd rfl hgrd
  leaving _ hphase := nomatch hphase

include h hlt hths hn hcpu htrying in
lemma Excludes.update (hself : new.Owns → new.interrupts = false ∧ l'.mDepth = new.guards.length ∧
    ∃ cpu, new.cpu = some cpu ∧ l'.mLock = some cpu) (hoth : ∀ u, u ≠ thread → l.Owns u → l'.mDepth = l.mDepth ∧
    l'.mLock = l.mLock) (hheld : l'.mLock ≠ none → new.Owns ∨ ∃ u, u ≠ thread ∧ l.Owns u) (hfree : l'.mLock = none →
    l'.mDepth = 0) (hnested : ∀ s ∈ new.guards.dropLast, s = false) (hagain : new.guards ≠ [] → new.phase ≠ .outside →
    new.interruptState = false) (hleav : new.phase = .leaving → new.guards = []) : Excludes l' := by
  have hat : l'.threads thread = new := by rw [hths, Function.update_self]
  have hne {u : Nat} (hu : u ≠ thread) : l'.threads u = l.threads u := by rw [hths, Function.update_of_ne hu]
  -- What is said of every thread is a fact about the new one and an old fact about the others.
  have hall {P : Nat → LockThread → Prop} (hnew : P thread new) (hold : ∀ u, P u (l.threads u))
      (u : Nat) : P u (l'.threads u) := by
    by_cases heq : u = thread
    · rwa [heq, hat]
    · rw [hne heq]
      exact hold u
  refine
    { distinct := fun t u cpu ht hu => ?_
      absent := fun t ht => ?_
      trying := hall (P := fun _ t => ∀ cpu, t.phase = .trying cpu → t.interrupts = false) htrying h.trying
      owner := fun t ht => ?_
      held := fun hlock => ?_
      free := hfree
      nested := hall (P := fun _ t => ∀ s ∈ t.guards.dropLast, s = false) hnested h.nested
      again := hall (P := fun _ t => t.guards ≠ [] → t.phase ≠ .outside → t.interruptState = false) hagain h.again
      leaving := hall (P := fun _ t => t.phase = .leaving → t.guards = []) hleav h.leaving }
  · by_cases heq : t = thread
    · by_cases heq' : u = thread
      · rw [heq, heq']
      · rw [heq, hat] at ht
        rw [hne heq'] at hu
        exact absurd hu (hcpu u cpu heq' ht)
    · rw [hne heq] at ht
      by_cases heq' : u = thread
      · rw [heq', hat] at hu
        exact absurd ht (hcpu t cpu heq hu)
      · rw [hne heq'] at hu
        exact h.distinct t u cpu ht hu
  · rw [hn] at ht
    rw [hne (fun heq => absurd hlt (Nat.not_lt.mpr (heq ▸ ht)))]
    exact h.absent t ht
  · by_cases heq : t = thread
    · rw [Owns, heq, hat] at ht
      rw [heq, hat]
      exact hself ht
    · rw [Owns, hne heq] at ht
      obtain ⟨hirq, hdepth, hcpu'⟩ := h.owner t ht
      obtain ⟨hdepth', hlock'⟩ := hoth t heq ht
      rw [hne heq, hdepth', hlock']
      exact ⟨hirq, hdepth, hcpu'⟩
  · rcases hheld hlock with hnew | ⟨u, hu, howns⟩
    · refine ⟨thread, ?_⟩
      rwa [Owns, hat]
    · refine ⟨u, ?_⟩
      rwa [Owns, hne hu]

include h hlt hcpu htrying in
lemma Excludes.quiet (hgrd : new.guards = (l.threads thread).guards) (howns : new.Owns ↔ l.Owns thread)
    (hkept : l.Owns thread → new.interrupts = false ∧ new.cpu = (l.threads thread).cpu)
    (hagain : new.guards ≠ [] → new.phase ≠ .outside → new.interruptState = false)
    (hleav : new.phase = .leaving → (l.threads thread).phase = .leaving) : Excludes (l.updateThread thread new) := by
  refine h.update hlt rfl rfl hcpu htrying ?_ (fun _ _ _ => ⟨rfl, rfl⟩) ?_ h.free ?_ hagain ?_
  · intro hnew
    have hold := howns.mp hnew
    obtain ⟨-, hdepth, hlock⟩ := h.owner thread hold
    obtain ⟨hirq, hsame⟩ := hkept hold
    rw [hgrd, hsame]
    exact ⟨hirq, hdepth, hlock⟩
  · intro hlock
    obtain ⟨owner, howner⟩ := h.held hlock
    by_cases heq : owner = thread
    · exact .inl (howns.mpr (heq ▸ howner))
    · exact .inr ⟨owner, heq, howner⟩
  · rw [hgrd]
    exact h.nested thread
  · intro hphase
    rw [hgrd]
    exact h.leaving thread (hleav hphase)

variable {cpu : Nat}

include h hlt hths hn in
lemma Excludes.own (hoth : ∀ u, u ≠ thread → ¬ l.Owns u) (hold : (l.threads thread).cpu = some cpu)
    (hcpu : new.cpu = some cpu) (hlock : l'.mLock = some cpu) (hirq : new.interrupts = false)
    (hdepth : l'.mDepth = new.guards.length) (howns : new.Owns) (hnested : ∀ s ∈ new.guards.dropLast, s = false)
    (hagain : new.guards ≠ [] → new.phase ≠ .outside → new.interruptState = false)
    (hleav : new.phase = .leaving → new.guards = []) : Excludes l' := by
  refine h.update hlt hths hn ?_ (fun _ _ => hirq) ?_ ?_ (fun _ => .inl howns) ?_ hnested hagain hleav
  · intro u cpu' hne hnew hu
    rw [← hnew, hcpu, ← hold] at hu
    exact hne (h.distinct u thread cpu (hu.trans hold) hold)
  · exact fun _ => ⟨hirq, hdepth, cpu, hcpu, hlock⟩
  · exact fun u hne howner => absurd howner (hoth u hne)
  · intro hnone
    rw [hlock] at hnone
    cases hnone

lemma Excludes.same_cpu (h : Excludes l) (u cpu : Nat) (hne : u ≠ thread)
    (hcpu : (l.threads thread).cpu = some cpu) : (l.threads u).cpu ≠ some cpu :=
  fun hu => hne (h.distinct u thread cpu hu hcpu)

lemma owns_of_guards {t t' : LockThread} (hgrd : t'.guards = t.guards) (hphase : t.phase ≠ .entering ∧
    t.phase ≠ .leaving) (hphase' : t'.phase ≠ .entering ∧ t'.phase ≠ .leaving) : t'.Owns ↔ t.Owns := by
  simp [LockThread.Owns, hgrd, hphase, hphase']

lemma Excludes.lock (h : Excludes l) (hruns : l.Runs thread)
    (hphase : (l.threads thread).phase = .outside) : ∃ l', l.lock thread = .ok l' ∧ Excludes l' := by
  obtain ⟨cpu, hcpu⟩ := Option.ne_none_iff_exists'.mp hruns.2
  rw [RecursiveSpinLock.lock, hcpu]
  refine ⟨_, rfl, h.quiet hruns.1
    (fun u cpu' hne hnew => h.same_cpu u cpu' hne (hcpu.trans hnew)) (fun _ _ => rfl) rfl ?_
    (fun _ => ⟨rfl, hcpu.symm⟩) ?_ ?_⟩
  · refine owns_of_guards rfl ?_ ?_
    · simp [hphase]
    · simp
  · intro hgrd _
    exact (h.owner thread (.inl hgrd)).1
  · intro hleav
    cases hleav

section

include h hlt

/-- An exchange on the CPU whose number the thread has taken. If it finds that number in the lock, the
owner runs on this CPU, so it is the thread itself. -/
lemma Excludes.attempt (hcpu : (l.threads thread).cpu = some cpu)
    (hphase : (l.threads thread).phase = .trying cpu) : ∃ l', l.attempt thread = .ok l' ∧ Excludes l' := by
  have hirq := h.trying thread cpu hphase
  rw [RecursiveSpinLock.attempt, hphase]
  cases hlock : l.mLock with
  | none =>
    have hfree : ∀ u, ¬ l.Owns u := by
      intro u hu
      obtain ⟨-, -, cpu', -, hlock'⟩ := h.owner u hu
      rw [hlock] at hlock'
      cases hlock'
    have hgrd : (l.threads thread).guards = [] := by
      by_contra hgrd
      exact hfree thread (.inl hgrd)
    refine ⟨_, rfl, h.own hlt rfl rfl (fun u _ => hfree u) hcpu hcpu rfl hirq ?_
      (.inr (.inl rfl)) (h.nested thread) ?_ ?_⟩
    · rw [hgrd]
      exact h.free hlock
    · exact fun hnot => absurd hgrd hnot
    · exact fun _ => hgrd
  | some expected =>
    dsimp only
    by_cases heq : expected = cpu
    · obtain ⟨owner, howner⟩ := h.held (by simp [hlock])
      obtain ⟨-, hdepth, cpu', hcpu', hlock'⟩ := h.owner owner howner
      have hsame : cpu' = cpu := (Option.some.inj (hlock'.symm.trans hlock)).trans heq
      obtain rfl := h.distinct owner thread cpu (hsame ▸ hcpu') hcpu
      have hgrd : (l.threads owner).guards ≠ [] := by
        intro hgrd
        simp [Owns, LockThread.Owns, hgrd, hphase] at howner
      rw [if_pos heq]
      refine ⟨_, rfl, h.own hlt rfl rfl ?_ hcpu hcpu (heq ▸ hlock) hirq hdepth (.inr (.inl rfl)) (h.nested owner) ?_ ?_⟩
      · exact fun u hne hu => hne (h.unique hu howner)
      · exact fun _ _ => h.again owner hgrd (by simp [hphase])
      · intro hleav
        cases hleav
    · have hnot : ¬ l.Owns thread := by
        intro howns
        obtain ⟨-, -, cpu', hcpu', hlock'⟩ := h.owner thread howns
        have hsame : cpu' = cpu := Option.some.inj (hcpu'.symm.trans hcpu)
        exact heq ((Option.some.inj (hlock.symm.trans hlock')).trans hsame)
      rw [if_neg heq]
      split
      · refine ⟨_, rfl, h.quiet hlt (fun u cpu => h.same_cpu u cpu) ?_ rfl ?_ (fun howns => absurd howns hnot) ?_ ?_⟩
        · intro cpu' hu
          cases hu
        · refine owns_of_guards rfl ?_ ?_
          · simp [hphase]
          · simp
        · exact fun hgrd => absurd (.inl hgrd) hnot
        · intro hleav
          cases hleav
      · exact ⟨l, rfl, h⟩

lemma Excludes.retry (hserving : (l.threads thread).phase.isServing = true) : ∃ l',
    l.retry thread = .ok l' ∧ Excludes l' := by
  cases hphase : (l.threads thread).phase with
  | serving thisCpu =>
    rw [RecursiveSpinLock.retry, hphase]
    refine ⟨_, rfl, h.quiet hlt (fun u cpu => h.same_cpu u cpu) (fun _ _ => rfl) rfl ?_ (fun _ => ⟨rfl, rfl⟩) ?_ ?_⟩
    · refine owns_of_guards rfl ?_ ?_
      · simp [hphase]
      · simp
    · exact fun hgrd _ => h.again thread hgrd (by simp [hphase])
    · intro hleav
      cases hleav
  | _ =>
    rw [hphase] at hserving
    cases hserving

lemma Excludes.increment (hphase : (l.threads thread).phase = .entering) : Excludes (l.increment thread) := by
  have howns : l.Owns thread := .inr (.inl hphase)
  obtain ⟨hirq, hdepth, cpu, hcpu, hlock⟩ := h.owner thread howns
  refine h.own hlt rfl rfl (fun u hne hu => hne (h.unique hu howns)) hcpu hcpu hlock hirq ?_ (.inl (by simp)) ?_ ?_ ?_
  · rw [length_cons, ← hdepth]
    rfl
  · cases hgrd : (l.threads thread).guards with
    | nil => simp
    | cons s guards =>
      intro state' hmem
      rw [dropLast_cons_of_ne_nil (by simp)] at hmem
      rcases mem_cons.mp hmem with rfl | hmem
      · exact h.again thread (by simp [hgrd]) (by simp [hphase])
      · exact h.nested thread state' (by rwa [hgrd])
  · exact fun _ houtside => absurd rfl houtside
  · intro hleav
    cases hleav

lemma Excludes.unlock (hphase : (l.threads thread).phase = .outside)
    (hgrd : (l.threads thread).guards ≠ []) : ∃ l', l.unlock thread = .ok l' ∧ Excludes l' := by
  have howns : l.Owns thread := .inl hgrd
  obtain ⟨hirq, hdepth, cpu, hcpu, hlock⟩ := h.owner thread howns
  have hoth : ∀ u, u ≠ thread → ¬ l.Owns u := fun u hne hu => hne (h.unique hu howns)
  obtain ⟨s, guards, hcases⟩ := exists_cons_of_ne_nil hgrd
  have hnested := h.nested thread
  rw [hcases] at hdepth hnested
  have hpositive : l.mDepth > 0 := by
    rw [hdepth]
    exact Nat.succ_pos _
  have hrest : l.mDepth - 1 = guards.length := by rw [hdepth, length_cons, Nat.add_sub_cancel]
  rw [RecursiveSpinLock.unlock, hcases]
  dsimp only
  rw [assert_bind hpositive]
  refine ⟨_, rfl, ?_⟩
  by_cases hzero : l.mDepth - 1 = 0
  · have hnil : guards = [] := eq_nil_of_length_eq_zero (hrest.symm.trans hzero)
    rw [if_pos hzero]
    refine h.own hlt rfl rfl hoth hcpu hcpu hlock hirq hrest (.inr (.inr rfl)) ?_ ?_ (fun _ => hnil)
    · simp [hnil]
    · exact fun hnot => absurd hnil hnot
  · have hne : guards ≠ [] := by
      rintro rfl
      exact hzero hrest
    rw [dropLast_cons_of_ne_nil hne] at hnested
    rw [if_neg hzero]
    refine h.own hlt rfl rfl hoth hcpu hcpu hlock ?_ hrest (.inl hne) ?_ ?_ ?_
    · rw [hnested s mem_cons_self, hirq]
      rfl
    · exact fun state' hmem => hnested state' (mem_cons_of_mem _ hmem)
    · exact fun _ houtside => absurd hphase houtside
    · intro hleav
      rw [hphase] at hleav
      cases hleav

lemma Excludes.release (hphase : (l.threads thread).phase = .leaving) : Excludes (l.release thread) := by
  have howns : l.Owns thread := .inr (.inr hphase)
  have hgrd := h.leaving thread hphase
  have hnew : ¬ LockThread.Owns { l.threads thread with
      interrupts := (l.threads thread).interruptState || (l.threads thread).interrupts
      phase := .outside } := by
    simp [LockThread.Owns, hgrd]
  refine h.update hlt rfl rfl (fun u cpu => h.same_cpu u cpu) ?_
    (fun howns => absurd howns hnew) ?_ (fun hheld => absurd rfl hheld) ?_ (h.nested thread) ?_ ?_
  · intro cpu hu
    cases hu
  · exact fun u hne hu => absurd (h.unique hu howns) hne
  · intro _
    exact (h.owner thread howns).2.1.trans (by rw [hgrd]; rfl)
  · exact fun hnot => absurd hgrd hnot
  · intro hleav
    cases hleav

/-- A thread that lets interrupts through does not own the lock, so it may leave its CPU. -/
lemma Excludes.preempt (hirq : (l.threads thread).interrupts = true) :
    Excludes (l.updateThread thread { l.threads thread with cpu := none }) := by
  have hnot : ¬ l.Owns thread := by
    intro howns
    rw [(h.owner thread howns).1] at hirq
    cases hirq
  refine h.quiet hlt ?_ (h.trying thread) rfl Iff.rfl (fun howns => absurd howns hnot) (h.again thread) id
  intro u cpu _ hcpu
  cases hcpu

lemma Excludes.resume (hnone : (l.threads thread).cpu = none)
    (hoth : ∀ u < l.threadCount, (l.threads u).cpu ≠ some cpu) :
    Excludes (l.updateThread thread { l.threads thread with cpu := some cpu }) := by
  have hnot : ¬ l.Owns thread := by
    intro howns
    obtain ⟨-, -, cpu', hcpu', -⟩ := h.owner thread howns
    rw [hnone] at hcpu'
    cases hcpu'
  refine h.quiet hlt ?_ (h.trying thread) rfl Iff.rfl (fun howns => absurd howns hnot) (h.again thread) id
  intro u cpu' _ hcpu
  cases hcpu
  by_cases hu : u < l.threadCount
  · exact hoth u hu
  · rw [h.absent u (Nat.not_lt.mp hu)]
    simp

end

lemma step_excludes (h : Excludes l) (action : Action) (hperm : l.Permits action)
    (hunmoved : l.Unmoved action) : ∃ l', l.step action = .ok l' ∧ Excludes l' := by
  cases action with
  | setInterrupts thread v =>
    obtain ⟨⟨hlt, -⟩, hphase, hgrd⟩ := hperm
    have hnot : ¬ l.Owns thread := by simp [Owns, LockThread.Owns, hphase, hgrd]
    refine ⟨_, rfl, h.quiet hlt (fun u cpu => h.same_cpu u cpu) ?_ rfl Iff.rfl
      (fun howns => absurd howns hnot) (h.again thread) id⟩
    intro cpu htrying
    rw [hphase] at htrying
    cases htrying
  | lock thread => exact h.lock hperm.1 hperm.2
  | attempt thread =>
    obtain ⟨⟨hlt, hcpu⟩, -⟩ := hperm
    obtain ⟨cpu, hcpu⟩ := Option.ne_none_iff_exists'.mp hcpu
    rw [Unmoved, hcpu] at hunmoved
    exact h.attempt hlt hcpu hunmoved
  | retry thread => exact h.retry hperm.1.1 hperm.2
  | increment thread => exact ⟨_, rfl, h.increment hperm.1.1 hperm.2⟩
  | unlock thread => exact h.unlock hperm.1.1 hperm.2.1 hperm.2.2
  | release thread => exact ⟨_, rfl, h.release hperm.1.1 hperm.2⟩
  | preempt thread => exact ⟨_, rfl, h.preempt hperm.1.1 hperm.2⟩
  | resume thread cpu => exact ⟨_, rfl, h.resume hperm.1 hperm.2.2.1 hperm.2.2.2⟩

/-- The lock excludes the threads from each other along every run in which the thread of an exchange runs
on the CPU whose number it has taken. -/
theorem exclusive_run (cpuCount threadCount : Nat) (actions : List Action)
    (hadmissible : machine.Admissible (initial cpuCount threadCount) actions)
    (hunmoved : machine.EveryStep Unmoved (initial cpuCount threadCount) actions) :
    machine.EveryState Exclusive (initial cpuCount threadCount) actions :=
  Machine.everyState_of_everyStep (fun _ h => h.exclusive)
    (fun _ action h hperm hunmoved => step_excludes h action hperm hunmoved)
    (excludes_initial cpuCount threadCount) hadmissible hunmoved

def reentry : List Action :=
  [.resume 0 0, .resume 1 1, .lock 0, .attempt 0, .increment 0, .lock 1, .attempt 1,
    .lock 0, .attempt 0, .increment 0, .retry 1, .attempt 1, .unlock 0, .unlock 0, .release 0,
    .retry 1, .attempt 1, .increment 1, .unlock 1, .release 1]

theorem exclusive_run_reentry : (machine.Admissible (initial 2 2) reentry ∧
    machine.EveryStep Unmoved (initial 2 2) reentry) ∧ machine.EveryState Exclusive (initial 2 2) reentry :=
  ⟨by decide +kernel, exclusive_run 2 2 reentry (by decide +kernel) (by decide +kernel)⟩

/-- A thread waits on CPU 0, goes on on CPU 1 and takes the lock with the number of CPU 0, where another
thread finds its own number in the lock. -/
def migration : List Action :=
  [.resume 0 1, .resume 1 0, .lock 0, .attempt 0, .increment 0, .lock 1, .attempt 1, .preempt 1,
    .resume 2 0, .unlock 0, .release 0, .preempt 0, .resume 1 1, .retry 1, .attempt 1, .increment 1,
    .lock 2, .attempt 2, .increment 2]

theorem not_exclusive_migration : machine.Admissible (initial 2 3) migration ∧
    ¬ machine.EveryState Exclusive (initial 2 3) migration := by
  decide +kernel

end RecursiveSpinLock

end UltraOS
