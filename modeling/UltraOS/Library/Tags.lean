import Mathlib.Algebra.Order.Ring.Nat
import Mathlib.Data.List.Nodup

/-!
# Lists of the objects with a tag

Every object has a tag, and a list holds exactly the objects with a given tag. When one object gets
another tag, the lists of the tags change at this object only, and so do the numbers of the objects whose
tags have a property.
-/

namespace Tags

open List Function

variable {α τ : Type} [DecidableEq α]

/-- The list holds the objects with the tag, without duplicates. -/
structure Lists (tags : α → τ) (tag : τ) (objects : List α) : Prop where
  mem_iff : ∀ a, a ∈ objects ↔ tags a = tag
  nodup : objects.Nodup

variable {tags : α → τ} {tag new : τ} {objects : List α} {x : α}
  (h : Lists tags tag objects) (hold : tags x ≠ tag) (hnew : new ≠ tag)

include h hold hnew in
lemma Lists.keep : Lists (update tags x new) tag objects where
  mem_iff a := by
    rw [h.mem_iff, update_apply]
    split
    · rename_i heq
      exact iff_of_false (heq ▸ hold) hnew
    · exact Iff.rfl
  nodup := h.nodup

include h hold in
lemma Lists.append : Lists (update tags x tag) tag (objects ++ [x]) where
  mem_iff a := by
    rw [mem_append, mem_singleton, h.mem_iff, update_apply]
    split
    · rename_i heq
      exact iff_of_true (.inr heq) rfl
    · rename_i hne
      exact or_iff_left hne
  nodup := by
    rw [nodup_append]
    refine ⟨h.nodup, nodup_singleton x, ?_⟩
    rintro a ha b hb rfl
    rw [mem_singleton] at hb
    exact hold (hb ▸ (h.mem_iff a).mp ha)

include h hnew in
lemma Lists.erase : Lists (update tags x new) tag (objects.erase x) where
  mem_iff a := by
    rw [h.nodup.mem_erase_iff, h.mem_iff, update_apply]
    split
    · rename_i heq
      exact iff_of_false (fun hand => hand.1 heq) hnew
    · rename_i hne
      exact and_iff_right hne
  nodup := h.nodup.erase x

def relist [DecidableEq τ] (tag old new : τ) (x : α) (objects : List α) : List α :=
  if new = tag then if old = tag then objects else objects ++ [x]
  else if old = tag then objects.erase x
  else objects

include h in
lemma Lists.relist [DecidableEq τ] {old : τ} (hold : tags x = old) :
    Lists (update tags x new) tag (relist tag old new x objects) := by
  unfold Tags.relist
  split_ifs with hnew hsame hcase
  · rwa [hnew, ← hsame, ← hold, update_eq_self, hold, hsame]
  · subst hnew
    exact h.append fun heq => hsame (hold.symm.trans heq)
  · exact h.erase hnew
  · exact h.keep (hold ▸ hcase) hnew

variable {p : τ → Bool} {l : List α}

lemma countP_update_of_notMem (hx : x ∉ l) :
    l.countP (fun a => p (update tags x new a)) = l.countP (fun a => p (tags a)) := by
  apply countP_congr
  intro a ha
  have hne : a ≠ x := fun heq => hx (heq ▸ ha)
  rw [update_of_ne hne]

lemma countP_update_of_eq (heq : p new = p (tags x)) :
    l.countP (fun a => p (update tags x new a)) = l.countP (fun a => p (tags a)) := by
  apply countP_congr
  intro a _
  rw [update_apply]
  split
  · rename_i hax
    rw [hax, heq]
  · exact Iff.rfl

lemma countP_update_of_mem (hl : l.Nodup) (hx : x ∈ l) (hold : p (tags x) = false) (hnew : p new = true) :
    l.countP (fun a => p (update tags x new a)) = l.countP (fun a => p (tags a)) + 1 := by
  induction l with
  | nil => cases hx
  | cons a l ih =>
    obtain ⟨ha, hl⟩ := nodup_cons.mp hl
    rcases mem_cons.mp hx with rfl | hx
    · rw [countP_cons, countP_cons, countP_update_of_notMem ha, update_self, hnew, hold, if_pos rfl, if_neg (by simp)]
    · have hne : a ≠ x := fun heq => ha (heq ▸ hx)
      rw [countP_cons, countP_cons, ih hl hx, update_of_ne hne]
      omega

lemma countP_update_of_mem_of_false (hl : l.Nodup) (hx : x ∈ l) (hold : p (tags x) = true) (hnew : p new = false) :
    l.countP (fun a => p (tags a)) = l.countP (fun a => p (update tags x new a)) + 1 := by
  have hback : l.countP (fun a => p (update (update tags x new) x (tags x) a)) =
      l.countP (fun a => p (update tags x new a)) + 1 :=
    countP_update_of_mem hl hx (by rw [update_self, hnew]) hold
  rwa [update_idem, update_eq_self] at hback

end Tags
