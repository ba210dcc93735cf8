/-!
# Search for a run of cells

A loop that looks for a number of cells in a row knows, in front of each position, how many of the cells
right before it are clear, and that no run was long enough so far.
-/

namespace RunSearch

/-- The clear cells in front of a position, as many as there are. -/
structure Tail (isClear : Nat → Prop) (position count : Nat) : Prop where
  le : count ≤ position
  clear : ∀ k, position - count ≤ k → k < position → isClear k
  stops : count < position → ¬isClear (position - count - 1)

structure Scanned (isClear : Nat → Prop) (needed position count : Nat) : Prop extends Tail isClear position count where
  lt : count < needed
  none : ∀ start, start + needed ≤ position → ¬∀ j < needed, isClear (start + j)

variable {isClear : Nat → Prop} {needed pos n : Nat}

theorem Tail.zero : Tail isClear 0 0 :=
  ⟨Nat.le_refl 0, fun k _ hk => absurd hk (Nat.not_lt_zero k), fun h => absurd h (Nat.lt_irrefl 0)⟩

variable (h : Scanned isClear needed pos n) (hset : ¬isClear pos) (hclear : isClear pos)

theorem Tail.succ (h : Tail isClear pos n) (hclear : isClear pos) : Tail isClear (pos + 1) (n + 1) := by
  have hle := h.le
  refine ⟨Nat.succ_le_succ hle, fun k hk hlt => ?_, fun hlt => ?_⟩
  · rcases Nat.lt_succ_iff_lt_or_eq.mp hlt with hlt | rfl
    · exact h.clear k (by omega) hlt
    · exact hclear
  · have hstops := h.stops (by omega)
    rwa [show pos + 1 - (n + 1) - 1 = pos - n - 1 by omega]

include hset in
theorem Tail.reset : Tail isClear (pos + 1) 0 := ⟨Nat.zero_le _, fun k hk hlt => absurd hlt (by omega), fun _ => hset⟩

theorem Tail.le_of_clear (h : Tail isClear pos n) (first : Nat)
    (hclear : ∀ k, first ≤ k → k < pos → isClear k) : pos ≤ first + n := by
  refine Nat.le_of_not_lt fun hlt => ?_
  exact h.stops (by omega) (hclear _ (by omega) (by omega))

theorem Scanned.zero (hneeded : 0 < needed) : Scanned isClear needed 0 0 :=
  ⟨Tail.zero, hneeded, fun start hstart => absurd hstart (by omega)⟩

include h hclear in
theorem Scanned.full (hfull : n + 1 = needed) : ∀ j < needed, isClear (pos - n + j) :=
  fun j hj => (h.toTail.succ hclear).clear _ (by omega) (by have := h.le; omega)

include h hclear in
theorem Scanned.extend (hlt : n + 1 ≠ needed) : Scanned isClear needed (pos + 1) (n + 1) := by
  have hmore := h.lt
  refine ⟨h.toTail.succ hclear, by omega, fun start hstart hall => ?_⟩
  by_cases hbef : start + needed ≤ pos
  · exact h.none start hbef hall
  · have hrun := h.le_of_clear start fun k hk hklt => by
      rw [← Nat.add_sub_cancel' hk]
      exact hall _ (by omega)
    omega

include h hset in
theorem Scanned.reset : Scanned isClear needed (pos + 1) 0 := by
  have hmore := h.lt
  refine ⟨Tail.reset hset, by omega, fun start hstart hall => ?_⟩
  by_cases hbef : start + needed ≤ pos
  · exact h.none start hbef hall
  · refine hset ?_
    rw [← Nat.add_sub_cancel' (show start ≤ pos by omega)]
    exact hall _ (by omega)

end RunSearch
