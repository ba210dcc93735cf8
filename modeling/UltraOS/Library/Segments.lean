import Mathlib.Algebra.Order.Ring.Nat
import Mathlib.Data.List.Chain

/-!
# Lists of labelled segments

A segment occupies the natural numbers from its `lo` on, its `hi` excluded, and carries a label. A list of segments
is normal when they are proper, ascend without overlap, and no two that touch have the same label, so that the
label of each number determines the list. Its last segment begins at the least number from which on the labels
are uniform.
-/

namespace Segments

open List

variable {α κ : Type} (lo hi : α → Nat) (label : α → κ)

def labelAt : List α → Nat → Option κ
  | [], _ => none
  | s :: l, a => if lo s ≤ a ∧ a < hi s then some (label s) else labelAt l a

structure Normal (l : List α) : Prop where
  proper : ∀ s ∈ l, lo s < hi s
  ordered : l.Pairwise fun s t => hi s ≤ lo t
  maximal : l.IsChain fun s t => hi s = lo t → label s ≠ label t

/-- From `start` on a label extends down to every smaller number. -/
def UniformFrom (f : Nat → Option κ) (start : Nat) : Prop := ∀ x y t, start ≤ y → y ≤ x → f x = some t → f y = some t

variable {lo hi : α → Nat} {label : α → κ}

lemma labelAt_append (l m : List α) (a : Nat) :
    labelAt lo hi label (l ++ m) a = (labelAt lo hi label l a).or (labelAt lo hi label m a) := by
  induction l with
  | nil => rfl
  | cons s l ih =>
    simp only [cons_append, labelAt]
    split
    · rfl
    · exact ih

variable {l : List α} {a : Nat}

lemma labelAt_eq_none (h : ∀ s ∈ l, a < lo s ∨ hi s ≤ a) : labelAt lo hi label l a = none := by
  induction l with
  | nil => rfl
  | cons s l ih =>
    have hs := h s (by simp)
    rw [labelAt, if_neg (by omega)]
    exact ih fun t ht => h t (by simp [ht])

lemma exists_mem_of_labelAt {t : κ}
    (h : labelAt lo hi label l a = some t) : ∃ s ∈ l, lo s ≤ a ∧ a < hi s ∧ label s = t := by
  induction l with
  | nil => cases h
  | cons s l ih =>
    rw [labelAt] at h
    split at h
    · rename_i hin
      exact ⟨s, by simp, hin.1, hin.2, Option.some.inj h⟩
    · obtain ⟨s', hs', hrest⟩ := ih h
      exact ⟨s', by simp [hs'], hrest⟩

variable {s : α}

lemma labelAt_of_mem (hl : l.Pairwise fun s t => hi s ≤ lo t) (hs : s ∈ l) (hlo : lo s ≤ a) (hhi : a < hi s) : labelAt lo hi label l a = some (label s) := by
  induction l with
  | nil => cases hs
  | cons t l ih =>
    obtain ⟨ht, hl⟩ := pairwise_cons.mp hl
    rw [labelAt]
    rcases mem_cons.mp hs with rfl | hs
    · rw [if_pos ⟨hlo, hhi⟩]
    · have hts := ht s hs
      rw [if_neg (by omega)]
      exact ih hl hs

variable {m : List α}

lemma normal_append : Normal lo hi label (l ++ m) ↔ Normal lo hi label l ∧ Normal lo hi label m ∧
    (∀ s ∈ l, ∀ t ∈ m, hi s ≤ lo t) ∧ ∀ s ∈ l.getLast?, ∀ t ∈ m.head?, hi s = lo t → label s ≠ label t := by
  constructor
  · intro h
    obtain ⟨hl, hm, hlm⟩ := pairwise_append.mp h.ordered
    obtain ⟨hl', hm', hjoint⟩ := isChain_append.mp h.maximal
    exact ⟨⟨fun s hs => h.proper s (by simp [hs]), hl, hl'⟩,
      ⟨fun s hs => h.proper s (by simp [hs]), hm, hm'⟩, hlm, hjoint⟩
  · intro ⟨hl, hm, hlm, hjoint⟩
    refine ⟨fun s hs => ?_, pairwise_append.mpr ⟨hl.ordered, hm.ordered, hlm⟩,
      isChain_append.mpr ⟨hl.maximal, hm.maximal, hjoint⟩⟩
    rcases mem_append.mp hs with hs | hs
    · exact hl.proper s hs
    · exact hm.proper s hs

lemma normal_singleton : Normal lo hi label [s] ↔ lo s < hi s := by
  constructor
  · intro h
    exact h.proper s (by simp)
  · intro h
    exact ⟨by simpa using h, by simp, by simp⟩

variable {t : α}

lemma normal_concat : Normal lo hi label (l ++ [s, t]) ↔
    Normal lo hi label (l ++ [s]) ∧ lo t < hi t ∧ hi s ≤ lo t ∧ (hi s = lo t → label s ≠ label t) := by
  rw [show l ++ [s, t] = (l ++ [s]) ++ [t] by simp, normal_append, normal_singleton]
  constructor
  · intro ⟨hl, ht, hlt, hjoint⟩
    exact ⟨hl, ht, hlt s (by simp) t (by simp), hjoint s (by simp) t (by simp)⟩
  · intro ⟨hl, ht, hst, hjoint⟩
    refine ⟨hl, ht, fun r hr t' ht' => ?_, by simpa using hjoint⟩
    obtain rfl := mem_singleton.mp ht'
    rcases mem_append.mp hr with hr | hr
    · have hrs := (pairwise_append.mp hl.ordered).2.2 r hr s (by simp)
      have hs := hl.proper s (by simp)
      omega
    · obtain rfl := mem_singleton.mp hr
      exact hst

lemma Normal.replace_last (h : Normal lo hi label (l ++ [s])) (hlo : lo t = lo s)
    (hlabel : label t = label s) (ht : lo t < hi t) : Normal lo hi label (l ++ [t]) := by
  obtain ⟨hl, -, hcross, hjoint⟩ := normal_append.mp h
  refine normal_append.mpr ⟨hl, normal_singleton.mpr ht, ?_, ?_⟩
  · intro r hr t' ht'
    obtain rfl := mem_singleton.mp ht'
    rw [hlo]
    exact hcross r hr s (by simp)
  · intro r hr t' ht'
    obtain rfl : t = t' := by simpa using ht'
    rw [hlo, hlabel]
    exact hjoint r hr s (by simp)

lemma Normal.replace_head (h : Normal lo hi label (s :: m)) (hhi : hi t = hi s)
    (hlabel : label t = label s) (ht : lo t < hi t) : Normal lo hi label (t :: m) := by
  obtain ⟨-, hm, hcross, hjoint⟩ := (normal_append (l := [s])).mp h
  refine (normal_append (l := [t])).mpr ⟨normal_singleton.mpr ht, hm, ?_, ?_⟩
  · intro t' ht' r hr
    obtain rfl := mem_singleton.mp ht'
    rw [hhi]
    exact hcross s (by simp) r hr
  · intro t' ht' r hr
    obtain rfl : t = t' := by simpa using ht'
    rw [hhi, hlabel]
    exact hjoint s (by simp) r hr

lemma Normal.glue (hl : Normal lo hi label (l ++ [s]))
    (hm : Normal lo hi label (s :: m)) : Normal lo hi label (l ++ s :: m) := by
  obtain ⟨hl', -, hcross, hjoint⟩ := normal_append.mp hl
  refine normal_append.mpr ⟨hl', hm, ?_, by simpa using hjoint⟩
  intro r hr t ht
  have hrs := hcross r hr s (by simp)
  rcases mem_cons.mp ht with rfl | ht
  · exact hrs
  · have hst := (pairwise_cons.mp hm.ordered).1 t ht
    have hs := hm.proper s (by simp)
    omega

lemma uniformFrom_iff (h : Normal lo hi label (l ++ [s])) (start : Nat) :
    UniformFrom (labelAt lo hi label (l ++ [s])) start ↔ lo s ≤ start := by
  have hbef : ∀ r ∈ l, hi r ≤ lo s := fun r hr => (pairwise_append.mp h.ordered).2.2 r hr s (by simp)
  have hs := h.proper s (by simp)
  constructor
  · intro huniform
    by_contra hlt
    -- the number in front of the last segment would carry its label, so a segment that ends there
    have hfront := huniform (lo s) (lo s - 1) (label s) (by omega) (by omega)
      (labelAt_of_mem h.ordered (by simp) le_rfl hs)
    obtain ⟨r, hr, hlo, hhi, hlabel⟩ := exists_mem_of_labelAt hfront
    rcases mem_append.mp hr with hr | hr
    · have hrs := hbef r hr
      obtain ⟨xs, ys, rfl⟩ := append_of_mem hr
      cases ys with
      | nil =>
        have hch := (isChain_append.mp h.maximal).2.2 r (by simp) s (by simp)
        exact hch (by omega) hlabel
      | cons r' ys =>
        -- another segment lies between, too short to be proper
        have hord := (pairwise_append.mp (pairwise_append.mp h.ordered).1).2.1
        have hrr' := (pairwise_cons.mp hord).1 r' (by simp)
        have hr' := h.proper r' (by simp)
        have hr's := hbef r' (by simp)
        omega
    · obtain rfl := mem_singleton.mp hr
      omega
  · intro hle x y t hy hyx hx
    obtain ⟨r, hr, hlo, hhi, rfl⟩ := exists_mem_of_labelAt hx
    rcases mem_append.mp hr with hr | hr
    · have hrs := hbef r hr
      omega
    · obtain rfl := mem_singleton.mp hr
      exact labelAt_of_mem h.ordered (by simp) (by omega) (by omega)

end Segments
