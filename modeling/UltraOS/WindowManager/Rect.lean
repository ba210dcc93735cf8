import Mathlib.Data.Set.Basic
import Mathlib.Order.MinMax
import UltraOS.Base.Fault

/-!
# Rectangles

`BasicRect` of `Kernel/WindowManager/Rect.h`, and `invalidate_rects_based_on_drag_delta` of `Window.cpp`. The
coordinates are integers, as no computation with them overflows.
-/

namespace UltraOS

structure Rect where
  x : Int := 0
  y : Int := 0
  width : Int := 0
  height : Int := 0
deriving DecidableEq

namespace Rect

variable (r s : Rect) (p : Int × Int)

def left : Int := r.x

def right : Int := r.x + r.width - 1

def top : Int := r.y

def bottom : Int := r.y + r.height - 1

def intersected : Rect :=
  let newLeft := max r.left s.left
  let newRight := min r.right s.right
  let newTop := max r.top s.top
  let newBottom := min r.bottom s.bottom
  if newLeft > newRight ∨ newTop > newBottom then {}
  else ⟨newLeft, newTop, newRight - newLeft + 1, newBottom - newTop + 1⟩

/-- The zeros for an empty intersection are overwritten. -/
def intersect : Rect :=
  let newLeft := max r.left s.left
  let newRight := min r.right s.right
  let newTop := max r.top s.top
  let newBottom := min r.bottom s.bottom
  let r := if newLeft > newRight ∨ newTop > newBottom then {} else r
  { r with x := newLeft, y := newTop, width := newRight - newLeft + 1, height := newBottom - newTop + 1 }

def intersects : Bool := r.left ≤ s.right && s.left ≤ r.right && r.top ≤ s.bottom && s.top ≤ r.bottom

def united : Rect := ⟨min r.left s.left, min r.top s.top, max r.width s.width, max r.height s.height⟩

def contains : Bool := p.1 ≥ r.x && p.1 ≤ r.x + r.width && p.2 ≥ r.y && p.2 ≤ r.y + r.height

def points : Set (Int × Int) := {p | r.left ≤ p.1 ∧ p.1 ≤ r.right ∧ r.top ≤ p.2 ∧ p.2 ≤ r.bottom}

/-- The least rectangle around the points of both. -/
def IsHull (t : Rect) : Prop :=
  r.points ∪ s.points ⊆ t.points ∧ ∀ u : Rect, r.points ∪ s.points ⊆ u.points → t.points ⊆ u.points

def Solid : Prop := 0 < r.width ∧ 0 < r.height

def Overlap : Prop := r.Solid ∧ s.Solid ∧ r.left ≤ s.right ∧ s.left ≤ r.right ∧ r.top ≤ s.bottom ∧ s.top ≤ r.bottom

variable {r s p}

lemma mem_points : p ∈ r.points ↔ r.x ≤ p.1 ∧ p.1 < r.x + r.width ∧ r.y ≤ p.2 ∧ p.2 < r.y + r.height := by
  show _ ∧ _ ↔ _
  unfold left right top bottom
  omega

lemma contains_iff : (r.contains p = true ↔ p ∈ r.points) ↔ ¬ (r.x ≤ p.1 ∧ p.1 ≤ r.x + r.width ∧ r.y ≤ p.2 ∧
    p.2 ≤ r.y + r.height ∧ (p.1 = r.x + r.width ∨ p.2 = r.y + r.height)) := by
  simp only [mem_points, contains, Bool.and_eq_true, decide_eq_true_eq]
  omega

lemma points_intersected : (r.intersected s).points = r.points ∩ s.points := by
  ext p
  rw [Set.mem_inter_iff, mem_points, mem_points, mem_points]
  unfold intersected left right top bottom
  dsimp only
  split <;> dsimp only <;> omega

lemma nonempty_inter : (r.points ∩ s.points).Nonempty ↔ Overlap r s := by
  simp only [Set.Nonempty, Set.mem_inter_iff, mem_points, Overlap, Solid, left, right, top, bottom]
  constructor
  · rintro ⟨p, hr, hs⟩
    omega
  · intro h
    exact ⟨(max r.x s.x, max r.y s.y), by dsimp only; omega⟩

lemma intersect_eq_iff : r.intersect s = r.intersected s ↔ Overlap r s ∨
    max r.left s.left = 0 ∧ min r.right s.right = -1 ∧ max r.top s.top = 0 ∧ min r.bottom s.bottom = -1 := by
  unfold intersect intersected Overlap Solid left right top bottom
  dsimp only
  split
  · rw [Rect.mk.injEq]
    omega
  · exact iff_of_true rfl (Or.inl (by omega))

lemma intersects_iff : (r.intersects s = true ↔ (r.points ∩ s.points).Nonempty) ↔
    (r.left ≤ s.right ∧ s.left ≤ r.right ∧ r.top ≤ s.bottom ∧ s.top ≤ r.bottom → r.Solid ∧ s.Solid) := by
  simp only [nonempty_inter, intersects, Bool.and_eq_true, decide_eq_true_eq, Overlap, and_assoc]
  rw [← and_assoc (a := r.Solid), iff_and_self]

lemma points_subset_iff (h : r.Solid) : r.points ⊆ s.points ↔
    s.x ≤ r.x ∧ r.x + r.width ≤ s.x + s.width ∧ s.y ≤ r.y ∧ r.y + r.height ≤ s.y + s.height := by
  obtain ⟨hwidth, hheight⟩ := h
  constructor
  · intro hsub
    have hfirst := mem_points.mp (@hsub (r.x, r.y) (mem_points.mpr ⟨le_rfl, by omega, le_rfl, by omega⟩))
    have hlast := mem_points.mp (@hsub (r.right, r.bottom) (mem_points.mpr (by unfold right bottom; dsimp only; omega)))
    unfold right bottom at hlast
    dsimp only at hfirst hlast
    omega
  · intro hle p hp
    rw [mem_points] at hp ⊢
    omega

lemma points_eq_empty (h : ¬ r.Solid) : r.points = ∅ := by
  ext p
  rw [mem_points, Set.mem_empty_iff_false, iff_false]
  unfold Solid at h
  omega

lemma united_spec : ((r.united s).x ≤ r.x ∧ (r.united s).x ≤ s.x ∧ ((r.united s).x = r.x ∨ (r.united s).x = s.x)) ∧
    ((r.united s).y ≤ r.y ∧ (r.united s).y ≤ s.y ∧ ((r.united s).y = r.y ∨ (r.united s).y = s.y)) ∧
    (r.width ≤ (r.united s).width ∧ s.width ≤ (r.united s).width ∧ ((r.united s).width = r.width ∨
    (r.united s).width = s.width)) ∧ r.height ≤ (r.united s).height ∧ s.height ≤ (r.united s).height ∧
    ((r.united s).height = r.height ∨ (r.united s).height = s.height) :=
  ⟨⟨min_le_left _ _, min_le_right _ _, min_choice _ _⟩, ⟨min_le_left _ _, min_le_right _ _, min_choice _ _⟩,
    ⟨le_max_left _ _, le_max_right _ _, max_choice _ _⟩, le_max_left _ _, le_max_right _ _, max_choice _ _⟩

variable (r s) in
/-- When `united` is the hull: of two rectangles one is inside the other on each axis, and an empty one adds nothing. -/
def Aligned : Prop :=
  (r.Solid → s.Solid → (r.x ≤ s.x ∧ s.x + s.width ≤ r.x + r.width ∨ s.x ≤ r.x ∧ r.x + r.width ≤ s.x + s.width) ∧
    (r.y ≤ s.y ∧ s.y + s.height ≤ r.y + r.height ∨ s.y ≤ r.y ∧ r.y + r.height ≤ s.y + s.height)) ∧
  (r.Solid → ¬ s.Solid → r.x ≤ s.x ∧ r.y ≤ s.y ∧ s.width ≤ r.width ∧ s.height ≤ r.height) ∧
  (¬ r.Solid → s.Solid → s.x ≤ r.x ∧ s.y ≤ r.y ∧ r.width ≤ s.width ∧ r.height ≤ s.height) ∧
  (¬ r.Solid → ¬ s.Solid → (r.width ≤ 0 ∧ s.width ≤ 0) ∨ (r.height ≤ 0 ∧ s.height ≤ 0))

lemma isHull_united_iff : IsHull r s (r.united s) ↔ Aligned r s := by
  have hunited := united_spec (r := r) (s := s)
  have hsolid : r.Solid ∨ s.Solid → (r.united s).Solid := by
    unfold Solid
    omega
  unfold Aligned
  by_cases hr : r.Solid <;> by_cases hs : s.Solid
  · simp only [IsHull, Set.union_subset_iff, points_subset_iff, hr, hs, hsolid, true_or, not_true, true_imp_iff,
      false_imp_iff, and_true]
    exact ⟨fun ⟨hsub, _⟩ => by omega, fun h => ⟨by omega, fun u hu => by omega⟩⟩
  · simp only [IsHull, points_eq_empty hs, Set.union_empty, points_subset_iff, hr, hs, hsolid, true_or, not_true,
      not_false_eq_true, true_imp_iff, false_imp_iff, and_true, true_and]
    refine ⟨fun ⟨_, hleast⟩ => ?_, fun h => ⟨by omega, fun u hu => by omega⟩⟩
    have h := hleast r ⟨le_rfl, le_rfl, le_rfl, le_rfl⟩
    omega
  · simp only [IsHull, points_eq_empty hr, Set.empty_union, points_subset_iff, hr, hs, hsolid, or_true, not_true,
      not_false_eq_true, true_imp_iff, false_imp_iff, and_true, true_and]
    refine ⟨fun ⟨_, hleast⟩ => ?_, fun h => ⟨by omega, fun u hu => by omega⟩⟩
    have h := hleast s ⟨le_rfl, le_rfl, le_rfl, le_rfl⟩
    omega
  · have hempty : r.width ≤ 0 ∧ s.width ≤ 0 ∨ r.height ≤ 0 ∧ s.height ≤ 0 ↔ ¬ (r.united s).Solid := by
      unfold Solid
      omega
    simp only [IsHull, points_eq_empty, hr, hs, hempty, not_false_eq_true, Set.union_empty, Set.empty_subset, true_and,
      true_imp_iff, false_imp_iff]
    refine ⟨fun hleast hu => ?_, fun hu t => by simp [points_eq_empty hu]⟩
    have h := (points_subset_iff hu).mp (hleast {})
    unfold Solid at hu
    dsimp only at h
    omega

variable (r s p) in
/-- What the operations denote, on the sets of points. -/
def Lawful : Prop :=
  (r.contains p = true ↔ p ∈ r.points) ∧ (r.intersected s).points = r.points ∩ s.points ∧
    r.intersect s = r.intersected s ∧ (r.intersects s = true ↔ (r.points ∩ s.points).Nonempty) ∧ IsHull r s (r.united s)

/-- `contains` has the edges after the last row and column, `intersect` overwrites the zeros of an empty
intersection, `intersects` finds empty rectangles, and `united` takes the larger sizes. -/
theorem lawful_iff (r s : Rect) (p : Int × Int) : Lawful r s p ↔ ¬ (r.x ≤ p.1 ∧ p.1 ≤ r.x + r.width ∧ r.y ≤ p.2 ∧
    p.2 ≤ r.y + r.height ∧ (p.1 = r.x + r.width ∨ p.2 = r.y + r.height)) ∧ (Overlap r s ∨ max r.left s.left = 0 ∧
    min r.right s.right = -1 ∧ max r.top s.top = 0 ∧ min r.bottom s.bottom = -1) ∧ (r.left ≤ s.right ∧
    s.left ≤ r.right ∧ r.top ≤ s.bottom ∧ s.top ≤ r.bottom → r.Solid ∧ s.Solid) ∧ Aligned r s := by
  rw [Lawful, contains_iff, intersect_eq_iff, intersects_iff, isHull_united_iff]
  exact and_congr_right fun _ => and_iff_right points_intersected

theorem not_lawful_disjoint : ¬ Lawful ⟨0, 0, 2, 2⟩ ⟨5, 0, 2, 2⟩ (2, 0) := by
  intro h
  exact contains_iff.mp h.1 (by decide)

end Rect

inductive DragDirection where
  | none
  | left
  | right
  | up
  | down
  | upLeft
  | downLeft
  | upRight
  | downRight

def dragDirection (oldRect newRect : Rect) : Run DragDirection := do
  if oldRect = newRect then return .none
  if oldRect.left = newRect.left then
    assert (oldRect.top ≠ newRect.top) "old_rect.top() != new_rect.top()"
    return if oldRect.top > newRect.top then .up else .down
  if oldRect.top = newRect.top then
    assert (oldRect.left ≠ newRect.left) "old_rect.left() != new_rect.left()"
    return if oldRect.left > newRect.left then .left else .right
  if oldRect.top > newRect.top then return if oldRect.left > newRect.left then .upLeft else .upRight
  return if oldRect.left > newRect.left then .downLeft else .downRight

def dirtyRects (oldRect newRect : Rect) : DragDirection → List Rect
  | .none => []
  | .left => [⟨newRect.right, newRect.top, oldRect.right - newRect.right + 1, newRect.height⟩]
  | .right => [⟨oldRect.left, oldRect.top, newRect.left - oldRect.left + 1, newRect.height⟩]
  | .up => [⟨newRect.left, newRect.bottom, newRect.width, oldRect.bottom - newRect.bottom + 1⟩]
  | .down => [⟨oldRect.left, oldRect.top, newRect.width, newRect.top - oldRect.top + 1⟩]
  | .upLeft => [ ⟨newRect.right, oldRect.top, oldRect.right - newRect.right + 1, newRect.bottom - oldRect.top + 1⟩,
    ⟨oldRect.left, newRect.bottom, oldRect.width, oldRect.bottom - newRect.bottom + 1⟩]
  | .downLeft => [ ⟨oldRect.left, oldRect.top, oldRect.width, newRect.top - oldRect.top + 1⟩,
    ⟨newRect.right, newRect.top, oldRect.right - newRect.right + 1, oldRect.bottom - newRect.top + 1⟩]
  | .upRight => [ ⟨oldRect.left, oldRect.top, newRect.left - oldRect.left + 1, newRect.bottom - oldRect.top + 1⟩,
    ⟨oldRect.left, newRect.bottom, oldRect.width, oldRect.bottom - newRect.bottom + 1⟩]
  | .downRight => [ ⟨oldRect.left, oldRect.top, oldRect.width, newRect.top - oldRect.top + 1⟩,
    ⟨oldRect.left, newRect.top, newRect.left - oldRect.left + 1, newRect.bottom - newRect.top + 1⟩]

def invalidateRectsBasedOnDragDelta (oldRect newRect : Rect) : Run (List Rect) := do
  return dirtyRects oldRect newRect (← dragDirection oldRect newRect)

/-- Whatever a window uncovers when it is dragged is submitted, and no assertion fails. -/
theorem exists_mem_invalidateRects (oldRect : Rect) (newX newY : Int) : ∃ rects,
    invalidateRectsBasedOnDragDelta oldRect { oldRect with x := newX, y := newY } = .ok rects ∧
    ∀ p ∈ oldRect.points, p ∉ { oldRect with x := newX, y := newY }.points → ∃ r ∈ rects, p ∈ r.points := by
  obtain ⟨x, y, width, height⟩ := oldRect
  rw [invalidateRectsBasedOnDragDelta]
  -- The nine directions. In each one a point of the old rectangle is behind an edge of the new one.
  rcases lt_trichotomy x newX with hx | rfl | hx <;> rcases lt_trichotomy y newY with hy | rfl | hy
  all_goals
    simp [dragDirection, dirtyRects, Rect.mem_points, Rect.left, Rect.right, Rect.top, Rect.bottom, *, ne_of_lt,
      ne_of_gt, lt_asymm]
    try omega

end UltraOS
