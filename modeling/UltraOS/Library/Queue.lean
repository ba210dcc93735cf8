import Mathlib.Algebra.Order.Ring.Nat
import Mathlib.Data.List.Nodup

/-!
# Queues

Elements leave a queue from anywhere, and others are put behind its end. An element that stays in the
queue gets no further from its head, and it gets closer whenever the head is taken.
-/

namespace Queue

open List

variable {α : Type} {new : α → Prop} {l l' l'' : List α} {x : α}

/-- Some elements of the queue are left, in their order, and those behind them are new. -/
def Flows (new : α → Prop) (l l' : List α) : Prop :=
  ∃ kept added, kept.Sublist l ∧ l' = kept ++ added ∧ ∀ a ∈ added, new a

lemma Flows.refl (new : α → Prop) (l : List α) : Flows new l l :=
  ⟨l, [], List.Sublist.refl l, (append_nil l).symm, by simp⟩

lemma Flows.append (l : List α) (hx : new x) : Flows new l (l ++ [x]) :=
  ⟨l, [x], List.Sublist.refl l, rfl, by simpa using hx⟩

lemma Flows.erase [DecidableEq α] (new : α → Prop) (l : List α) (x : α) : Flows new l (l.erase x) :=
  ⟨l.erase x, [], erase_sublist, (append_nil _).symm, by simp⟩

lemma Flows.trans (h : Flows new l l') (h' : Flows new l' l'') : Flows new l l'' := by
  obtain ⟨kept, added, hkept, rfl, hadded⟩ := h
  obtain ⟨kept', added', hkept', rfl, hadded'⟩ := h'
  obtain ⟨left, right, rfl, hleft, hright⟩ := sublist_append_iff.mp hkept'
  refine ⟨left, right ++ added', hleft.trans hkept, append_assoc _ _ _, ?_⟩
  intro a ha
  rcases mem_append.mp ha with ha | ha
  · exact hadded a (hright.subset ha)
  · exact hadded' a ha

lemma Flows.mono {new' : α → Prop} (h : Flows new l l') (hnew : ∀ a, new a → new' a) : Flows new' l l' := by
  obtain ⟨kept, added, hkept, heq, hadded⟩ := h
  exact ⟨kept, added, hkept, heq, fun a ha => hnew a (hadded a ha)⟩

variable [DecidableEq α]

lemma idxOf_le_of_sublist (h : l'.Sublist l) (hnodup : l.Nodup) (hx : x ∈ l') : l'.idxOf x ≤ l.idxOf x := by
  induction h with
  | slnil => exact le_rfl
  | @cons l1 l2 a hsub ih =>
    obtain ⟨hnotMem, hnodup⟩ := nodup_cons.mp hnodup
    have hne : a ≠ x := fun heq => hnotMem (heq ▸ hsub.subset hx)
    rw [idxOf_cons_ne _ hne]
    exact le_trans (ih hnodup hx) (Nat.le_succ _)
  | @cons_cons l1 l2 a hsub ih =>
    by_cases heq : a = x
    · rw [heq, idxOf_cons_self]
      exact zero_le
    · rw [idxOf_cons_ne _ heq, idxOf_cons_ne _ heq]
      have hx : x ∈ l1 := (mem_cons.mp hx).resolve_left (Ne.symm heq)
      exact Nat.succ_le_succ (ih (nodup_cons.mp hnodup).2 hx)

lemma Flows.idxOf_le (h : Flows new l l') (hnodup : l.Nodup) (hold : ∀ a ∈ l, ¬ new a) (hx : x ∈ l)
    (hx' : x ∈ l') : l'.idxOf x ≤ l.idxOf x := by
  obtain ⟨kept, added, hkept, rfl, hadded⟩ := h
  have hmem : x ∈ kept := (mem_append.mp hx').resolve_right fun hnew => hold x hx (hadded x hnew)
  rw [idxOf_append_of_mem hmem]
  exact idxOf_le_of_sublist hkept hnodup hmem

lemma Flows.idxOf_tail_lt (h : Flows new l l') (hnodup : l.Nodup) (hold : ∀ a ∈ l, ¬ new a)
    (hx : x ∈ l) (hx' : x ∈ l'.tail) : l'.tail.idxOf x < l.idxOf x := by
  obtain ⟨kept, added, hkept, rfl, hadded⟩ := h
  have hnew : x ∉ added := fun hnew => hold x hx (hadded x hnew)
  cases kept with
  | nil => exact absurd (mem_of_mem_tail hx') hnew
  | cons head kept =>
    rw [cons_append, tail_cons] at hx' ⊢
    have hmem : x ∈ kept := (mem_append.mp hx').resolve_right hnew
    have hhead : head ≠ x := by
      rintro rfl
      exact (nodup_cons.mp (hkept.nodup hnodup)).1 hmem
    have hle := idxOf_le_of_sublist hkept hnodup (mem_cons_of_mem head hmem)
    rw [idxOf_cons_ne _ hhead] at hle
    rw [idxOf_append_of_mem hmem]
    omega

end Queue
