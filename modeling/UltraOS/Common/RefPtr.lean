import Mathlib.Logic.Function.Basic
import UltraOS.Base.Fault
import UltraOS.Library.Machine

/-!
# Reference counted pointers

`Kernel/Common/RefPtr.h`. An object and its counter are made and destroyed together, so one number stands for
both, and a `RefPtr` is that number or null. Assignment lets go of the old object before it takes the new
one.
-/

namespace UltraOS

open Function List

abbrev RefPtr : Type := Option Nat

/-- The counters, zero where there is none, and the variables, nothing for one that is not constructed. -/
structure RefPtrs where
  counters : Nat → Nat := fun _ => 0
  next : Nat := 0
  pointers : List (Option RefPtr)

namespace RefPtrs

def increment (s : RefPtrs) : RefPtr → Run RefPtrs
  | none => .ok s
  | some c =>
    if s.counters c = 0 then .error .badPointer
    else .ok { s with counters := update s.counters c (s.counters c + 1) }

/-- The last one destroys the object and the counter. -/
def decrement (s : RefPtrs) : RefPtr → Run RefPtrs
  | none => .ok s
  | some c =>
    if s.counters c = 0 then .error .badPointer
    else .ok { s with counters := update s.counters c (s.counters c - 1) }

def get (s : RefPtrs) (i : Nat) : Run RefPtr :=
  match s.pointers[i]? with
  | some (some p) => .ok p
  | _ => .error .badPointer

def put (s : RefPtrs) (i : Nat) (p : Option RefPtr) : RefPtrs := { s with pointers := s.pointers.set i p }

inductive Action where
  /-- `RefPtr::create` or a `RefPtr` of a fresh pointer. -/
  | create (i : Nat)
  | copyConstruct (i j : Nat)
  | moveConstruct (i j : Nat)
  | copyAssign (i j : Nat)
  | moveAssign (i j : Nat)
  | reset (i : Nat)
  | destruct (i : Nat)

def step (s : RefPtrs) : Action → Run RefPtrs
  | .create i => .ok ({ s with
      counters := update s.counters s.next 1
      next := s.next + 1 }.put i (some (some s.next)))
  | .copyConstruct i j => do
    let p ← s.get j
    (s.put i (some p)).increment p
  | .moveConstruct i j => do
    let p ← s.get j
    return (s.put i (some p)).put j (some none)
  | .copyAssign i j => do
    let s ← s.decrement (← s.get i)
    let p ← s.get j
    (s.put i (some p)).increment p
  | .moveAssign i j => do
    let p ← s.get i
    let q ← s.get j
    return (s.put i (some q)).put j (some p)
  | .reset i => do
    let s ← s.decrement (← s.get i)
    return s.put i (some none)
  | .destruct i => do
    let s ← s.decrement (← s.get i)
    return s.put i none

/-- Variables are constructed before they are used, and only once. -/
def Admits (s : RefPtrs) : Action → Prop
  | .create i => s.pointers[i]? = some none
  | .copyConstruct i j | .moveConstruct i j => s.pointers[i]? = some none ∧ ∃ p, s.pointers[j]? = some (some p)
  | .copyAssign i j | .moveAssign i j => (∃ p, s.pointers[i]? = some (some p)) ∧ ∃ p, s.pointers[j]? = some (some p)
  | .reset i | .destruct i => ∃ p, s.pointers[i]? = some (some p)

def machine : Machine RefPtrs Action Fault where
  step := step
  admits := Admits

def sharers (s : RefPtrs) (c : Nat) : Nat := s.pointers.count (some (some c))

/-- Every counter is the number of the variables that share its object, and zero, which stands for no
object, exactly where there is none of them. -/
def Counted (s : RefPtrs) : Prop := ∀ c, s.counters c = s.sharers c

/-- The last variable of an object is not assigned to itself. -/
def SpareSelf (s : RefPtrs) : Action → Prop
  | .copyAssign i j => i = j → ∀ c, s.pointers[i]? = some (some (some c)) → s.sharers c ≠ 1
  | _ => True

variable {s s' : RefPtrs} {i j : Nat} {p q : RefPtr}

def held (p : Option RefPtr) (c : Nat) : Nat := if p = some (some c) then 1 else 0

lemma held_self (c : Nat) : held (some (some c)) c = 1 := if_pos rfl

variable {c : Nat} {old : Option RefPtr}

lemma held_of_ne {c' : Nat} (h : c' ≠ c) : held (some (some c)) c' = 0 :=
  if_neg fun heq => h (Option.some.inj (Option.some.inj heq)).symm

lemma get_eq (h : s.pointers[i]? = some (some p)) : s.get i = .ok p := by rw [get, h]

lemma increment_eq (hp : ∀ c, held (some p) c ≤ s.counters c) :
    s.increment p = .ok { s with counters := fun c => s.counters c + held (some p) c } := by
  cases p with
  | none => rfl
  | some c =>
    have hc := hp c
    rw [held_self] at hc
    rw [increment, if_neg (by omega)]
    congr 2
    funext c'
    by_cases heq : c' = c
    · rw [heq, update_self, held_self]
    · rw [update_of_ne heq, held_of_ne heq, add_zero]

lemma decrement_eq (hp : ∀ c, held (some p) c ≤ s.counters c) :
    s.decrement p = .ok { s with counters := fun c => s.counters c - held (some p) c } := by
  cases p with
  | none => rfl
  | some c =>
    have hc := hp c
    rw [held_self] at hc
    rw [decrement, if_neg (by omega)]
    congr 2
    funext c'
    by_cases heq : c' = c
    · rw [heq, update_self, held_self]
    · rw [update_of_ne heq, held_of_ne heq, Nat.sub_zero]

lemma held_le (h : s.pointers[i]? = some old) (c : Nat) : held old c ≤ s.sharers c := by
  unfold held
  split
  · rename_i heq
    exact count_pos_iff.mpr (heq ▸ mem_of_getElem? h)
  · exact zero_le

lemma sharers_put (h : s.pointers[i]? = some old) (new : Option RefPtr) (c : Nat) :
    (s.put i new).sharers c + held old c = s.sharers c + held new c := by
  have hle := held_le h c
  obtain ⟨hlt, rfl⟩ := List.getElem?_eq_some_iff.mp h
  have hn := count_set (a := new) (b := some (some c)) hlt
  simp only [beq_iff_eq] at hn
  change (s.put i new).sharers c = s.sharers c - held _ c + held new c at hn
  omega

structure Sound (s : RefPtrs) : Prop where
  counted : s.Counted
  fresh : ∀ c, s.next ≤ c → s.counters c = 0

lemma Sound.held_le_counters (h : s.Sound) (hi : s.pointers[i]? = some old) (c : Nat) :
    held old c ≤ s.counters c := h.counted c ▸ held_le hi c

lemma Sound.held_le_sub (h : s.Sound) (hi : s.pointers[i]? = some (some p)) (hj : s.pointers[j]? = some (some q))
    (hspare : s.SpareSelf (.copyAssign i j)) (c : Nat) : held (some q) c ≤ s.counters c - held (some p) c := by
  rw [h.counted c]
  by_cases hij : i = j
  · subst hij
    cases hi.symm.trans hj
    have hle := held_le hi c
    by_cases hc : p = some c
    · subst hc
      have := hspare rfl c hi
      rw [held_self] at hle ⊢
      omega
    · rw [held, if_neg fun heq => hc (Option.some.inj heq)]
      exact zero_le
  · have hput := sharers_put hi none c
    have hle := held_le (s := s.put i none) ((List.getElem?_set_ne hij).trans hj) c
    have hnone : held none c = 0 := rfl
    omega

lemma Sound.exchange (h : s.Sound) (hi : s.pointers[i]? = some old) (hj : s.pointers[j]? = some (some q))
    (hold : ∀ c, held (some p) c = held old c) : ((s.put i (some q)).put j (some p)).Sound := by
  have hj' : (s.put i (some q)).pointers[j]? = some (some q) := by
    by_cases heq : i = j
    · subst heq
      exact List.getElem?_set_self (List.getElem?_eq_some_iff.mp hi).1
    · exact (List.getElem?_set_ne heq).trans hj
  refine ⟨fun c => (h.counted c).trans ?_, h.fresh⟩
  have := sharers_put hi (some q) c
  have := sharers_put hj' (some p) c
  have := hold c
  omega

lemma Sound.step (h : s.Sound) {action : Action} (hadm : s.Admits action) (hspare : s.SpareSelf action) :
    ∃ s', s.step action = .ok s' ∧ s'.Sound := by
  -- The counters change by what the variable held and by what it holds then.
  have hput {i : Nat} {old new : Option RefPtr} {f : Nat → Nat} {n : Nat} (hi : s.pointers[i]? = some old)
      (hf : ∀ c, f c + held old c = s.counters c + held new c) (hfresh : ∀ c, n ≤ c → f c = 0) :
      (RefPtrs.put ⟨f, n, s.pointers⟩ i new).Sound := by
    refine ⟨fun c => ?_, hfresh⟩
    have hsharers := sharers_put hi new c
    have hcnt := h.counted c
    have hc := hf c
    change f c = (s.put i new).sharers c
    omega
  have hdrop {i : Nat} {p : RefPtr} (hi : s.pointers[i]? = some (some p)) (new : Option RefPtr)
      (hnew : ∀ c, held new c = 0) :
      (RefPtrs.put { s with counters := fun c => s.counters c - held (some p) c } i new).Sound := by
    refine hput hi (fun c => ?_) fun c hc => ?_
    · rw [hnew c, Nat.sub_add_cancel (h.held_le_counters hi c)]
      rfl
    · rw [h.fresh c hc, Nat.zero_sub]
  cases action with
  | create i =>
    refine ⟨_, rfl, hput hadm (fun c => ?_) fun c hc => ?_⟩
    · by_cases heq : c = s.next
      · rw [heq, update_self, held_self, h.fresh _ le_rfl]
        rfl
      · rw [update_of_ne heq, held_of_ne heq]
        rfl
    · rw [update_of_ne (by omega)]
      exact h.fresh c (by omega)
  | copyConstruct i j =>
    obtain ⟨hi, p, hj⟩ := hadm
    refine ⟨RefPtrs.put { s with counters := fun c => s.counters c + held (some p) c } i (some p), ?_,
      hput hi (fun _ => rfl) fun c hc => ?_⟩
    · rw [RefPtrs.step, get_eq hj, ok_bind]
      exact increment_eq (s := s.put i (some p)) (h.held_le_counters hj)
    · have := h.held_le_counters hj c
      have := h.fresh c hc
      omega
  | moveConstruct i j =>
    obtain ⟨hi, p, hj⟩ := hadm
    exact ⟨_, by rw [RefPtrs.step, get_eq hj, ok_bind, pure_eq_ok], h.exchange hi hj fun _ => rfl⟩
  | copyAssign i j =>
    obtain ⟨⟨p, hi⟩, q, hj⟩ := hadm
    have hleft := h.held_le_sub hi hj hspare
    let dropped := { s with counters := fun c => s.counters c - held (some p) c }
    refine ⟨RefPtrs.put { s with counters := fun c => dropped.counters c + held (some q) c } i (some q), ?_,
      hput hi (fun c => ?_) fun c hc => ?_⟩
    · rw [RefPtrs.step, get_eq hi, ok_bind, decrement_eq (h.held_le_counters hi), ok_bind,
        get_eq (s := dropped) hj, ok_bind]
      exact increment_eq (s := dropped.put i (some q)) hleft
    · have := h.held_le_counters hi c
      dsimp only [dropped]
      omega
    · have := hleft c
      have := h.fresh c hc
      dsimp only [dropped]
      omega
  | moveAssign i j =>
    obtain ⟨⟨p, hi⟩, q, hj⟩ := hadm
    refine ⟨_, ?_, h.exchange hi hj fun _ => rfl⟩
    rw [RefPtrs.step, get_eq hi, ok_bind, get_eq hj, ok_bind, pure_eq_ok]
  | reset i =>
    obtain ⟨p, hi⟩ := hadm
    refine ⟨_, ?_, hdrop hi (some none) fun _ => rfl⟩
    rw [RefPtrs.step, get_eq hi, ok_bind, decrement_eq (h.held_le_counters hi), ok_bind, pure_eq_ok]
  | destruct i =>
    obtain ⟨p, hi⟩ := hadm
    refine ⟨_, ?_, hdrop hi none fun _ => rfl⟩
    rw [RefPtrs.step, get_eq hi, ok_bind, decrement_eq (h.held_le_counters hi), ok_bind, pure_eq_ok]

/-- The last variable of an object destroys it when it is assigned to itself. -/
lemma Sound.step_self_ne (h : s.Sound) (hi : s.pointers[i]? = some (some (some c)))
    (halone : s.sharers c = 1) : s.step (.copyAssign i i) ≠ .ok s' := by
  let dropped := { s with counters := fun c' => s.counters c' - held (some (some c)) c' }
  have hdead : (dropped.put i (some (some c))).counters c = 0 := by
    change s.counters c - held _ c = 0
    rw [h.counted c, halone, held_self]
  rw [RefPtrs.step, get_eq hi, ok_bind, decrement_eq (h.held_le_counters hi), ok_bind,
    get_eq (s := dropped) hi, ok_bind, increment, if_pos hdead]
  intro heq
  cases heq

/-- The counters are right and objects are destroyed with their last variable exactly if no variable that
holds an object alone is assigned to itself. -/
theorem counted_run_iff_spareSelf (count : Nat) (actions : List Action)
    (hactions : machine.Admissible { pointers := replicate count none } actions) :
    machine.EveryState Counted { pointers := replicate count none } actions ↔
    machine.EveryStep SpareSelf { pointers := replicate count none } actions := by
  have hinitial : Sound { pointers := replicate count none } := by
    refine ⟨fun c => (count_eq_zero.mpr fun hmem => ?_).symm, fun _ _ => rfl⟩
    cases eq_of_mem_replicate hmem
  refine Machine.everyState_iff_everyStep (fun _ => Sound.counted) (fun _ _ h => h.step) ?_ hinitial hactions
  intro s action s' h hadm hnot hstep
  cases action with
  | copyAssign i j =>
    refine absurd (fun hij c hi halone => ?_) hnot
    subst hij
    exact h.step_self_ne hi halone hstep
  | _ => exact absurd trivial hnot

theorem counted_run_sample : machine.EveryState Counted { pointers := replicate 2 none }
    [.create 0, .copyConstruct 1 0, .copyAssign 0 0, .destruct 1] := by
  refine (counted_run_iff_spareSelf 2 _ ?_).mpr ?_
  · exact ⟨rfl, ⟨rfl, _, rfl⟩, ⟨⟨_, rfl⟩, _, rfl⟩, ⟨_, rfl⟩, trivial⟩
  · refine ⟨trivial, trivial, fun _ c hc => ?_, trivial, trivial⟩
    cases hc
    decide

/-- A lone variable is assigned to itself: its counter is touched after it is destroyed. -/
theorem self_assignment_touches_destroyed :
    machine.run { pointers := [none] } [.create 0, .copyAssign 0 0] = .error .badPointer := rfl

end RefPtrs

end UltraOS
