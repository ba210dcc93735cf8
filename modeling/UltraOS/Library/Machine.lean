import Mathlib.Algebra.Order.Ring.Nat

/-!
# Runs of a machine whose steps can fail

A machine has states, operations, a step that may fail, and a condition under which an operation may be issued. The
rules carry a fact from single steps to whole runs: an invariant, a simulation by an abstract step, and exact
criteria for a property of all states or steps along a run.
-/

structure Machine (σ op ε : Type) where
  step : σ → op → Except ε σ
  admits : σ → op → Prop

namespace Machine

variable {σ op ε : Type} (M : Machine σ op ε)

def run : σ → List op → Except ε σ
  | s, [] => .ok s
  | s, o :: ops =>
    match M.step s o with
    | .ok s' => run s' ops
    | .error e => .error e

/-- No step fails, and `P` holds in every state from the first to the last. -/
def EveryState (P : σ → Prop) : σ → List op → Prop
  | s, [] => P s
  | s, o :: ops => P s ∧ match M.step s o with
      | .ok s' => EveryState P s' ops
      | .error _ => False

/-- Every operation meets `C` in the state before it. -/
def EveryStep (C : σ → op → Prop) : σ → List op → Prop
  | _, [] => True
  | s, o :: ops => C s o ∧ match M.step s o with
      | .ok s' => EveryStep C s' ops
      | .error _ => True

/-- Every operation is issued in a state that admits it. -/
def Admissible (s : σ) (ops : List op) : Prop := M.EveryStep M.admits s ops

instance decidableEveryState {P : σ → Prop} [∀ s, Decidable (P s)] :
    (s : σ) → (ops : List op) → Decidable (M.EveryState P s ops)
  | s, [] => inferInstanceAs (Decidable (P s))
  | s, o :: ops => by
    have := fun s' => decidableEveryState (P := P) s' ops
    dsimp only [EveryState]
    cases M.step s o <;> infer_instance

instance decidableEveryStep {C : σ → op → Prop} [∀ s o, Decidable (C s o)] :
    (s : σ) → (ops : List op) → Decidable (M.EveryStep C s ops)
  | _, [] => .isTrue trivial
  | s, o :: ops => by
    have := fun s' => decidableEveryStep (C := C) s' ops
    dsimp only [EveryStep]
    cases M.step s o <;> infer_instance

instance [∀ s o, Decidable (M.admits s o)] (s : σ) (ops : List op) : Decidable (M.Admissible s ops) :=
  inferInstanceAs (Decidable (M.EveryStep M.admits s ops))

variable {M} {s s' : σ} {o : op} {ops : List op}

lemma run_cons (h : M.step s o = .ok s') : M.run s (o :: ops) = M.run s' ops := by rw [run, h]

variable {P : σ → Prop}

lemma everyState_cons (h : M.step s o = .ok s') : M.EveryState P s (o :: ops) ↔ P s ∧ M.EveryState P s' ops := by
  rw [EveryState, h]

variable {C : σ → op → Prop}

lemma everyStep_cons (h : M.step s o = .ok s') : M.EveryStep C s (o :: ops) ↔ C s o ∧ M.EveryStep C s' ops := by
  rw [EveryStep, h]

lemma admissible_cons (h : M.step s o = .ok s') : M.Admissible s (o :: ops) ↔ M.admits s o ∧ M.Admissible s' ops :=
  everyStep_cons h

lemma EveryState.first (h : M.EveryState P s ops) : P s := by
  cases ops with
  | nil => exact h
  | cons o ops => exact h.1

lemma EveryState.last (h : M.EveryState P s ops) : ∃ s', M.run s ops = .ok s' ∧ P s' := by
  induction ops generalizing s with
  | nil => exact ⟨s, rfl, h⟩
  | cons o ops ih =>
    cases hstep : M.step s o with
    | error e =>
      rw [EveryState, hstep] at h
      exact h.2.elim
    | ok s' =>
      rw [run_cons hstep]
      exact ih ((everyState_cons hstep).mp h).2

variable {I : σ → Prop}

lemma run_preserves (hstep : ∀ s o s', I s → M.admits s o → M.step s o = .ok s' → I s') (hinv : I s)
    (hops : M.Admissible s ops) (hrun : M.run s ops = .ok s') : I s' := by
  induction ops generalizing s with
  | nil =>
    cases hrun
    exact hinv
  | cons o ops ih =>
    cases hok : M.step s o with
    | error e =>
      rw [run, hok] at hrun
      cases hrun
    | ok next =>
      rw [run_cons hok] at hrun
      have hops' := (admissible_cons hok).mp hops
      exact ih (hstep s o next hinv hops'.1 hok) hops'.2 hrun

lemma run_simulates {α : Type} {next : α → op → α} {R : σ → α → Prop}
    (hstep : ∀ s a o, R s a → M.admits s o → ∃ s', M.step s o = .ok s' ∧ R s' (next a o)) {a : α}
    (hrel : R s a) (hops : M.Admissible s ops) : ∃ s', M.run s ops = .ok s' ∧ R s' (ops.foldl next a) := by
  induction ops generalizing s a with
  | nil => exact ⟨s, rfl, hrel⟩
  | cons o ops ih =>
    obtain ⟨s', hok, hrel'⟩ := hstep s a o hrel hops.1
    rw [run_cons hok]
    exact ih hrel' ((admissible_cons hok).mp hops).2

/-- Where every step under `C` succeeds and preserves an invariant, the invariant holds along every run
whose steps meet `C`. -/
lemma everyState_of_everyStep (hIP : ∀ s, I s → P s)
    (hstep : ∀ s o, I s → M.admits s o → C s o → ∃ s', M.step s o = .ok s' ∧ I s') (hinv : I s)
    (hops : M.Admissible s ops) (hC : M.EveryStep C s ops) : M.EveryState P s ops := by
  induction ops generalizing s with
  | nil => exact hIP s hinv
  | cons o ops ih =>
    obtain ⟨s', hok, hinv'⟩ := hstep s o hinv hops.1 hC.1
    rw [everyState_cons hok]
    exact ⟨hIP s hinv, ih hinv' ((admissible_cons hok).mp hops).2 ((everyStep_cons hok).mp hC).2⟩

lemma everyState_of_step (hIP : ∀ s, I s → P s) (hstep : ∀ s o, I s → M.admits s o → ∃ s', M.step s o = .ok s' ∧ I s')
    (hinv : I s) (hops : M.Admissible s ops) : M.EveryState P s ops :=
  everyState_of_everyStep hIP (fun s o hI hadm _ => hstep s o hI hadm) hinv hops hops

/-- Operations that lower a potential as long as another quantity, which they do not raise, is within a
bound. -/
lemma length_le_of_potential {C : op → Prop} {size : σ → Nat} {F : σ → Nat → Nat} {bound : Nat} (hstep : ∀ s, I s →
    ∀ o, M.admits s o → ∃ s', M.step s o = .ok s' ∧ I s' ∧ (C o → size s' ≤ size s ∧ ∀ bound, size s ≤ bound →
    F s' bound < F s bound)) (hinv : I s) (hops : M.Admissible s ops) (hC : ∀ o ∈ ops, C o) (hbound : size s ≤ bound) :
    ops.length ≤ F s bound := by
  induction ops generalizing s with
  | nil => exact zero_le
  | cons o ops ih =>
    obtain ⟨s', hok, hinv', hlowers⟩ := hstep s hinv o hops.1
    obtain ⟨hsize, hless⟩ := hlowers (hC o List.mem_cons_self)
    have hrest := ih hinv' ((admissible_cons hok).mp hops).2
      (fun o' ho' => hC o' (List.mem_cons_of_mem o ho')) (hsize.trans hbound)
    exact hrest.trans_lt (hless bound hbound)

/-- Where a step under `C` succeeds and preserves an invariant, and any other step fails or ends in a
state without `P`, `P` holds along a run exactly when every step meets `C`. -/
lemma everyState_iff_everyStep (hIP : ∀ s, I s → P s) (hgood : ∀ s o, I s → M.admits s o → C s o →
    ∃ s', M.step s o = .ok s' ∧ I s') (hbad : ∀ s o s', I s → M.admits s o → ¬ C s o → M.step s o = .ok s' → ¬ P s')
    (hinv : I s) (hops : M.Admissible s ops) : M.EveryState P s ops ↔ M.EveryStep C s ops := by
  induction ops generalizing s with
  | nil => exact ⟨fun _ => trivial, fun _ => hIP s hinv⟩
  | cons o ops ih =>
    by_cases hC : C s o
    · obtain ⟨s', hok, hinv'⟩ := hgood s o hinv hops.1 hC
      rw [everyState_cons hok, everyStep_cons hok, ih hinv' ((admissible_cons hok).mp hops).2]
      exact ⟨fun h => ⟨hC, h.2⟩, fun h => ⟨hIP s hinv, h.2⟩⟩
    · refine ⟨fun h => ?_, fun h => absurd h.1 hC⟩
      cases hok : M.step s o with
      | error e =>
        rw [EveryState, hok] at h
        exact h.2.elim
      | ok s' => exact absurd ((everyState_cons hok).mp h).2.first (hbad s o s' hinv hops.1 hC hok)

/-- Two conditions on single steps that agree wherever an invariant holds, which the second one preserves,
agree along every run. -/
lemma everyStep_iff_everyStep {D : σ → op → Prop} (hstep : ∀ s o, I s → M.admits s o → (C s o ↔ D s o))
    (hpreserved : ∀ s o s', I s → M.admits s o → D s o → M.step s o = .ok s' → I s') (hinv : I s)
    (hops : M.Admissible s ops) : M.EveryStep C s ops ↔ M.EveryStep D s ops := by
  induction ops generalizing s with
  | nil => exact Iff.rfl
  | cons o ops ih =>
    have hhead := hstep s o hinv hops.1
    cases hok : M.step s o with
    | error e => rwa [EveryStep, EveryStep, hok, and_true, and_true]
    | ok s' =>
      rw [everyStep_cons hok, everyStep_cons hok, hhead]
      refine and_congr_right fun hD => ?_
      exact ih (hpreserved s o s' hinv hops.1 hD hok) ((admissible_cons hok).mp hops).2

end Machine
