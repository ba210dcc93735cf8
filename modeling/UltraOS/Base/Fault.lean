import Mathlib.Algebra.Order.Ring.Nat

/-!
# How a kernel computation stops

Kernel code either returns or stops the machine: an `ASSERT` fails, the code calls `runtime::panic`, a pointer that
is not a live object is followed, or a loop outlives the steps the model grants it. A computation is an
`Except Fault`.
-/

namespace UltraOS

/-- Why a computation stopped without returning. -/
inductive Fault where
  /-- `ASSERT(expression)` with the text of the expression. -/
  | assertion (expression : String)
  | panic (reason : String)
  /-- A null, dangling or mistyped pointer was followed. -/
  | badPointer
  | outOfFuel
  deriving DecidableEq

abbrev Run (α : Type) : Type := Except Fault α

/-- The `ASSERT` of `Core/Runtime.h`. -/
def assert (condition : Bool) (expression : String) : Run Unit :=
  if condition then .ok () else .error (.assertion expression)

variable {α β : Type}

@[simp] lemma assert_true (expression : String) : assert true expression = .ok () := rfl

@[simp] lemma ok_bind (a : α) (f : α → Run β) : (Except.ok a >>= f) = f a := rfl

@[simp] lemma error_bind (e : Fault) (f : α → Run β) : ((Except.error e : Run α) >>= f) = .error e := rfl

@[simp] lemma pure_eq_ok (a : α) : (pure a : Run α) = .ok a := rfl

lemma assert_bind {α : Type} {c : Prop} [Decidable c] {text : String} {f : Unit → Run α} (h : c) :
    (assert (decide c) text >>= f) = f () := by
  rw [decide_eq_true h, assert_true, ok_bind]

lemma bind_eq_ok {x : Run α} {f : α → Run β} {b : β} : (x >>= f) = .ok b ↔ ∃ a, x = .ok a ∧ f a = .ok b := by
  cases x with
  | error e | ok a => simp

/-- A sequence returns only if both parts do. -/
lemma of_bind {x : Run α} {f : α → Run β} {b : β} (h : (x >>= f) = .ok b) : ∃ a, x = .ok a ∧ f a = .ok b :=
  bind_eq_ok.mp h

lemma bind_congr_ok {x : Run α} {f g : α → Run β} (h : ∀ a, x = .ok a → f a = g a) : (x >>= f) = (x >>= g) := by
  cases x with
  | error e => rfl
  | ok a => exact h a rfl

section

variable {σ : Type} {s s' : σ} {x : EStateM Fault σ α} {f : α → EStateM Fault σ β}

lemma bind_of_ok {a : α} (h : x s = .ok a s') : (x >>= f) s = f a s' := by
  change EStateM.bind x f s = _
  rw [EStateM.bind, h]

lemma bind_of_error {fault : Fault} (h : x s = .error fault s') : (x >>= f) s = .error fault s' := by
  change EStateM.bind x f s = _
  rw [EStateM.bind, h]

end

lemma assert_eq_ok {condition : Bool} {expression : String} :
    assert condition expression = .ok () ↔ condition = true := by
  cases condition <;> simp [assert]

end UltraOS
