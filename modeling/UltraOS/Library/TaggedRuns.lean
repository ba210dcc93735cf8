import Mathlib.Algebra.Order.Ring.Nat
import Mathlib.Data.List.Pairwise

/-!
# Runs that are told apart by their tags

An array of tags holds runs of cells whose lengths are recorded nowhere: all cells of a run carry one non-zero tag,
adjacent runs carry different tags, and all other cells are zero. The end of a run is found by walking along it,
runs can be written over blank cells, and a run can be blanked.
-/

namespace TaggedRuns

open List

structure Span where
  first : Nat
  length : Nat
deriving DecidableEq

def Span.Holds (r : Span) (cell : Nat) : Prop := r.first ≤ cell ∧ cell < r.first + r.length

def fill (tags : Nat → Nat) (r : Span) (tag : Nat) : Nat → Nat :=
  fun cell => if r.first ≤ cell ∧ cell < r.first + r.length then tag else tags cell

def blanks (tags : Nat → Nat) : Nat → Nat
  | 0 => 0
  | n + 1 => blanks tags n + if tags n = 0 then 1 else 0

structure Tagged (tags : Nat → Nat) (n : Nat) (spans : List Span) : Prop where
  inside : ∀ r ∈ spans, 0 < r.length ∧ r.first + r.length ≤ n
  disjoint : spans.Pairwise fun r s => r.first + r.length ≤ s.first ∨ s.first + s.length ≤ r.first
  uniform : ∀ r ∈ spans, ∀ cell, r.Holds cell → tags cell = tags r.first
  nonzero : ∀ r ∈ spans, tags r.first ≠ 0
  differ : ∀ r ∈ spans, ∀ s ∈ spans, r.first + r.length = s.first → tags r.first ≠ tags s.first
  blank : ∀ cell, (∀ r ∈ spans, ¬ r.Holds cell) → tags cell = 0

variable {tags : Nat → Nat} {n : Nat} {spans : List Span} {r s : Span} {tag : Nat} {cell : Nat}

lemma fill_of_holds (h : r.Holds cell) : fill tags r tag cell = tag := if_pos h

lemma fill_of_not_holds (h : ¬ r.Holds cell) : fill tags r tag cell = tags cell := if_neg h

lemma Span.holds_first (h : 0 < r.length) : r.Holds r.first := ⟨le_rfl, by omega⟩

lemma Span.holds_singleton {u : Nat} : (⟨cell, 1⟩ : Span).Holds u ↔ u = cell := by
  unfold Span.Holds
  dsimp only
  omega

lemma fill_cons (tags : Nat → Nat) (cell length tag : Nat) :
    fill (fill tags ⟨cell, 1⟩ tag) ⟨cell + 1, length⟩ tag = fill tags ⟨cell, length + 1⟩ tag := by
  funext u
  unfold fill
  dsimp only
  split
  · rw [if_pos (by omega)]
  · by_cases hu : u = cell
    · rw [if_pos (by omega), if_pos (by omega)]
    · rw [if_neg (by omega), if_neg (by omega)]

lemma fill_empty (tags : Nat → Nat) (cell tag : Nat) : fill tags ⟨cell, 0⟩ tag = tags := by
  funext u
  exact if_neg (by dsimp only; omega)

variable (h : Tagged tags n spans) (hr : r ∈ spans) (hlen : 0 < r.length)
  (hin : r.first + r.length ≤ n) (hs : s ∈ spans)

include h hr hs in
lemma Tagged.disjoint_of_ne (hne : r ≠ s) : r.first + r.length ≤ s.first ∨ s.first + s.length ≤ r.first := by
  have hsymm : Std.Symm fun r s : Span =>
      r.first + r.length ≤ s.first ∨ s.first + s.length ≤ r.first := ⟨fun _ _ => Or.symm⟩
  exact h.disjoint.forall hr hs hne

include h hr hs in
lemma Tagged.eq_of_holds (hrc : r.Holds cell) (hsc : s.Holds cell) : r = s := by
  by_contra hne
  have hdisj := h.disjoint_of_ne hr hs hne
  unfold Span.Holds at hrc hsc
  omega

include h hr in
lemma Tagged.stops : tags (r.first + r.length) ≠ tags r.first := by
  by_cases hnext : ∃ s ∈ spans, s.Holds (r.first + r.length)
  · obtain ⟨s, hs, hholds⟩ := hnext
    have hne : r ≠ s := by
      intro heq
      rw [← heq] at hholds
      exact absurd hholds.2 (lt_irrefl _)
    have hfirst : r.first + r.length = s.first := by
      have hdisj := h.disjoint_of_ne hr hs hne
      have hlen := (h.inside r hr).1
      unfold Span.Holds at hholds
      omega
    rw [hfirst]
    exact (h.differ r hr s hs hfirst).symm
  · rw [h.blank _ fun s hs hholds => hnext ⟨s, hs, hholds⟩]
    exact (h.nonzero r hr).symm

include h hlen hin in
lemma Tagged.insert (hblank : ∀ cell, r.Holds cell → tags cell = 0) (htag : tag ≠ 0) (hleft : 0 < r.first →
    tag ≠ tags (r.first - 1)) (hright : tag ≠ tags (r.first + r.length)) : Tagged (fill tags r tag) n (r :: spans) := by
  have hfirst : fill tags r tag r.first = tag := fill_of_holds (Span.holds_first hlen)
  -- a cell of an old run is not blank, so the new run does not hold it
  have hold : ∀ s ∈ spans, ∀ cell, s.Holds cell → ¬ r.Holds cell := by
    intro s hs cell hcell hnew
    have hzero := hblank cell hnew
    rw [h.uniform s hs cell hcell] at hzero
    exact h.nonzero s hs hzero
  have holdFirst : ∀ s ∈ spans, fill tags r tag s.first = tags s.first := fun s hs =>
    fill_of_not_holds (hold s hs s.first (Span.holds_first (h.inside s hs).1))
  refine ⟨?_, ?_, ?_, ?_, ?_, ?_⟩
  · exact forall_mem_cons.mpr ⟨⟨hlen, hin⟩, h.inside⟩
  · refine pairwise_cons.mpr ⟨fun s hs => ?_, h.disjoint⟩
    have hs' := (h.inside s hs).1
    have hcell := hold s hs (max r.first s.first)
    unfold Span.Holds at hcell
    omega
  · refine forall_mem_cons.mpr ⟨fun cell hcell => ?_, fun s hs cell hcell => ?_⟩
    · rw [fill_of_holds hcell, hfirst]
    · rw [fill_of_not_holds (hold s hs cell hcell), holdFirst s hs, h.uniform s hs cell hcell]
  · refine forall_mem_cons.mpr ⟨by rwa [hfirst], fun s hs => ?_⟩
    rw [holdFirst s hs]
    exact h.nonzero s hs
  · intro s hs t ht heq
    rcases mem_cons.mp hs with hsr | hsOld
    · rcases mem_cons.mp ht with htr | htOld
      · rw [hsr, htr] at heq
        omega
      · rw [hsr] at heq
        rwa [hsr, hfirst, holdFirst t htOld, ← heq]
    · rcases mem_cons.mp ht with htr | htOld
      · rw [htr] at heq
        have hlengthOld := (h.inside s hsOld).1
        have hlast := h.uniform s hsOld (r.first - 1) ⟨by omega, by omega⟩
        rw [htr, holdFirst s hsOld, hfirst, ← hlast]
        exact (hleft (by omega)).symm
      · rw [holdFirst s hsOld, holdFirst t htOld]
        exact h.differ s hsOld t htOld heq
  · intro cell hcell
    rw [fill_of_not_holds (hcell r (by simp))]
    exact h.blank cell fun s hs => hcell s (by simp [hs])

variable {xs ys : List Span}

lemma Tagged.erase (h : Tagged tags n (xs ++ r :: ys)) : Tagged (fill tags r 0) n (xs ++ ys) := by
  have hr : r ∈ xs ++ r :: ys := by simp
  have hsub : ∀ s ∈ xs ++ ys, s ∈ xs ++ r :: ys := by
    intro s hs
    rcases mem_append.mp hs with hs | hs
    · simp [hs]
    · simp [hs]
  have hsublist : (xs ++ ys).Sublist (xs ++ r :: ys) := (sublist_cons_self r ys).append_left xs
  have hne : ∀ s ∈ xs ++ ys, r ≠ s := by
    intro s hs heq
    have hlen := (h.inside r hr).1
    rw [← heq] at hs
    obtain ⟨-, hback, hcross⟩ := pairwise_append.mp h.disjoint
    rcases mem_append.mp hs with hs | hs
    · have hdisj := hcross r hs r (by simp)
      omega
    · have hdisj := (pairwise_cons.mp hback).1 r hs
      omega
  have hkeep : ∀ s ∈ xs ++ ys, ∀ cell, s.Holds cell → fill tags r 0 cell = tags cell := by
    intro s hs cell hcell
    apply fill_of_not_holds
    intro hin
    exact hne s hs (h.eq_of_holds hr (hsub s hs) hin hcell)
  have hfirst : ∀ s ∈ xs ++ ys, fill tags r 0 s.first = tags s.first := fun s hs =>
    hkeep s hs s.first (Span.holds_first (h.inside s (hsub s hs)).1)
  refine ⟨fun s hs => h.inside s (hsub s hs), h.disjoint.sublist hsublist, ?_, ?_, ?_, ?_⟩
  · intro s hs cell hcell
    rw [hkeep s hs cell hcell, hfirst s hs, h.uniform s (hsub s hs) cell hcell]
  · intro s hs
    rw [hfirst s hs]
    exact h.nonzero s (hsub s hs)
  · intro s hs t ht heq
    rw [hfirst s hs, hfirst t ht]
    exact h.differ s (hsub s hs) t (hsub t ht) heq
  · intro cell hcell
    by_cases hin : r.Holds cell
    · exact fill_of_holds hin
    · rw [fill_of_not_holds hin]
      apply h.blank
      intro s hs
      rcases mem_append.mp hs with hs | hs
      · exact hcell s (by simp [hs])
      · rcases mem_cons.mp hs with rfl | hs
        · exact hin
        · exact hcell s (by simp [hs])

lemma blanks_congr {tags' : Nat → Nat} (h : ∀ cell < n, tags cell = tags' cell) : blanks tags n = blanks tags' n := by
  induction n with
  | zero => rfl
  | succ n ih => rw [blanks, blanks, ih fun cell hcell => h cell (by omega), h n (lt_add_one n)]

lemma blanks_zero (n : Nat) : blanks (fun _ => 0) n = n := by
  induction n with
  | zero => rfl
  | succ n ih => simp [blanks, ih]

lemma blanks_fill (htag : tag ≠ 0) (hin : r.first + r.length ≤ n) (hblank : ∀ cell, r.Holds cell → tags cell = 0) :
    blanks (fill tags r tag) n + r.length = blanks tags n := by
  have hprefix : ∀ k ≤ r.length, blanks (fill tags r tag) (r.first + k) + k = blanks tags (r.first + k) := by
    intro k hk
    induction k with
    | zero =>
      apply blanks_congr
      intro cell hcell
      exact fill_of_not_holds fun h => absurd h.1 (by omega)
    | succ k ih =>
      have hcell : r.Holds (r.first + k) := ⟨by omega, by omega⟩
      have hrest := ih (by omega)
      rw [← add_assoc r.first, blanks, blanks, fill_of_holds hcell, hblank _ hcell, if_neg htag, if_pos rfl]
      omega
  have hsuffix : ∀ k, blanks (fill tags r tag) (r.first + r.length + k) + r.length =
      blanks tags (r.first + r.length + k) := by
    intro k
    induction k with
    | zero => exact hprefix r.length le_rfl
    | succ k ih =>
      have hcell : ¬ r.Holds (r.first + r.length + k) := fun h => absurd h.2 (by omega)
      rw [← add_assoc (r.first + r.length), blanks, blanks, fill_of_not_holds hcell]
      omega
  have hn := hsuffix (n - (r.first + r.length))
  rwa [Nat.add_sub_cancel' hin] at hn

include hin in
lemma blanks_fill_zero (huniform : ∀ cell, r.Holds cell → tags cell = tag) (htag : tag ≠ 0) :
    blanks (fill tags r 0) n = blanks tags n + r.length := by
  have href : fill (fill tags r 0) r tag = tags := by
    funext cell
    by_cases hcell : r.Holds cell
    · rw [fill_of_holds hcell, huniform cell hcell]
    · rw [fill_of_not_holds hcell, fill_of_not_holds hcell]
  have hn : blanks (fill (fill tags r 0) r tag) n + r.length = blanks (fill tags r 0) n :=
    blanks_fill htag hin fun cell hcell => fill_of_holds hcell
  rw [← hn, href]

/-! ### Runs that all carry the same tag

Adjacent runs cannot be told apart then: the tags only show which cells some run holds. -/

structure Shown (tags : Nat → Nat) (n : Nat) (spans : List Span) : Prop where
  inside : ∀ r ∈ spans, 0 < r.length ∧ r.first + r.length ≤ n
  disjoint : spans.Pairwise fun r s => r.first + r.length ≤ s.first ∨ s.first + s.length ≤ r.first
  shows : ∀ cell, tags cell ≠ 0 ↔ ∃ r ∈ spans, r.Holds cell

def total : List Span → Nat
  | [] => 0
  | r :: spans => r.length + total spans

lemma total_append (xs ys : List Span) : total (xs ++ ys) = total xs + total ys := by
  induction xs with
  | nil => exact (zero_add _).symm
  | cons r xs ih => rw [cons_append, total, ih, total, add_assoc]

/-- Every cell is blank or in a run. -/
lemma Tagged.blanks_add_total (h : Tagged tags n spans) : blanks tags n + total spans = n := by
  induction spans generalizing tags with
  | nil =>
    have hzero : tags = fun _ => 0 := funext fun cell => h.blank cell (by simp)
    rw [hzero, blanks_zero, total, add_zero]
  | cons r spans ih =>
    have hr : r ∈ r :: spans := mem_cons_self
    have hfill := blanks_fill_zero (h.inside r hr).2 (h.uniform r hr) (h.nonzero r hr)
    have hrest := ih (show Tagged tags n ([] ++ r :: spans) from h).erase
    rw [total]
    omega

lemma Shown.insert (h : Shown tags n spans) (hlen : 0 < r.length) (hin : r.first + r.length ≤ n)
    (hblank : ∀ cell, r.Holds cell → tags cell = 0) (htag : tag ≠ 0) : Shown (fill tags r tag) n (r :: spans) := by
  refine ⟨forall_mem_cons.mpr ⟨⟨hlen, hin⟩, h.inside⟩, pairwise_cons.mpr ⟨fun s hs => ?_, h.disjoint⟩, fun cell => ?_⟩
  · have hs' := (h.inside s hs).1
    have hcell : ¬(r.Holds (max r.first s.first) ∧ s.Holds (max r.first s.first)) := fun hboth =>
      (h.shows _).mpr ⟨s, hs, hboth.2⟩ (hblank _ hboth.1)
    unfold Span.Holds at hcell
    omega
  · by_cases hcell : r.Holds cell
    · rw [fill_of_holds hcell]
      exact iff_of_true htag ⟨r, mem_cons_self, hcell⟩
    · rw [fill_of_not_holds hcell, h.shows cell]
      constructor
      · intro hheld
        obtain ⟨s, hs, hholds⟩ := hheld
        exact ⟨s, mem_cons_of_mem r hs, hholds⟩
      · intro hheld
        obtain ⟨s, hs, hholds⟩ := hheld
        rcases mem_cons.mp hs with rfl | hs
        · exact absurd hholds hcell
        · exact ⟨s, hs, hholds⟩

lemma Shown.erase (h : Shown tags n (xs ++ r :: ys)) : Shown (fill tags r 0) n (xs ++ ys) := by
  have hsublist : (xs ++ ys).Sublist (xs ++ r :: ys) := (sublist_cons_self r ys).append_left xs
  obtain ⟨-, hback, hcross⟩ := pairwise_append.mp h.disjoint
  have hapart : ∀ s ∈ xs ++ ys, r.first + r.length ≤ s.first ∨ s.first + s.length ≤ r.first := by
    intro s hs
    rcases mem_append.mp hs with hs | hs
    · exact (hcross s hs r mem_cons_self).symm
    · exact (pairwise_cons.mp hback).1 s hs
  refine ⟨fun s hs => h.inside s (hsublist.subset hs), h.disjoint.sublist hsublist, fun cell => ?_⟩
  by_cases hcell : r.Holds cell
  · rw [fill_of_holds hcell]
    refine iff_of_false (fun hne => hne rfl) fun hheld => ?_
    obtain ⟨s, hs, hholds⟩ := hheld
    have hdisj := hapart s hs
    unfold Span.Holds at hcell hholds
    omega
  · rw [fill_of_not_holds hcell, h.shows cell]
    constructor
    · intro hheld
      obtain ⟨s, hs, hholds⟩ := hheld
      rcases mem_append.mp hs with hs | hs
      · exact ⟨s, mem_append_left _ hs, hholds⟩
      · rcases mem_cons.mp hs with rfl | hs
        · exact absurd hholds hcell
        · exact ⟨s, mem_append_right _ hs, hholds⟩
    · intro hheld
      obtain ⟨s, hs, hholds⟩ := hheld
      exact ⟨s, hsublist.subset hs, hholds⟩

end TaggedRuns
