import UltraOS.Memory.VirtualAllocator.Model

/-!
# Tidy sets of ranges

The allocated ranges are tidy when they are proper, lie inside the base range, and ascend with a gap
between any two. For a tidy set the lookups of the allocator find what they are meant to find, and
`mergeAndEmplace` adds a range that lies in a gap and leaves the set tidy.
-/

namespace UltraOS.VirtualAllocator

open List OrderedSet Range

structure Tidy (base : Range) (ranges : List Range) : Prop where
  proper : ∀ r ∈ ranges, r.mBegin < r.mEnd
  apart : ranges.Pairwise fun l r => l.mEnd < r.mBegin
  inside : ∀ r ∈ ranges, base.mBegin ≤ r.mBegin ∧ r.mEnd ≤ base.mEnd

def Covered (ranges : List Range) (address : Nat) : Prop := ∃ r ∈ ranges, r.contains address = true

instance (ranges : List Range) (address : Nat) : Decidable (Covered ranges address) :=
  inferInstanceAs (Decidable (∃ r ∈ ranges, _))

lemma less_iff (l r : Range) : less l r = true ↔ l.mBegin < r.mBegin := by simp [less]

lemma not_less_iff (l r : Range) : less l r = false ↔ r.mBegin ≤ l.mBegin := by simp [less]

variable {base : Range} {xs ys ranges : List Range}

lemma tidy_append : Tidy base (xs ++ ys) ↔ Tidy base xs ∧ Tidy base ys ∧ ∀ l ∈ xs, ∀ r ∈ ys, l.mEnd < r.mBegin := by
  constructor
  · intro h
    obtain ⟨hfront, hback, hcross⟩ := pairwise_append.mp h.apart
    exact ⟨⟨fun r hr => h.proper r (by simp [hr]), hfront, fun r hr => h.inside r (by simp [hr])⟩,
      ⟨fun r hr => h.proper r (by simp [hr]), hback, fun r hr => h.inside r (by simp [hr])⟩, hcross⟩
  · intro ⟨hfront, hback, hcross⟩
    exact ⟨forall_mem_append.mpr ⟨hfront.proper, hback.proper⟩, pairwise_append.mpr ⟨hfront.apart, hback.apart, hcross⟩,
      forall_mem_append.mpr ⟨hfront.inside, hback.inside⟩⟩

variable {m : Range}

lemma covered_append (xs ys : List Range) (a : Nat) : Covered (xs ++ ys) a ↔ Covered xs a ∨ Covered ys a := by
  simp [Covered, or_and_right, exists_or]

lemma covered_cons (r : Range) (ranges : List Range) (a : Nat) :
    Covered (r :: ranges) a ↔ (r.mBegin ≤ a ∧ a < r.mEnd) ∨ Covered ranges a := by
  simp [Covered]

lemma covered_nil (a : Nat) : ¬ Covered [] a := by simp [Covered]

variable (h : Tidy base (xs ++ ys))

lemma Tidy.split (h : Tidy base ranges) (addr : Nat) : ∃ xs ys,
    ranges = xs ++ ys ∧ (∀ r ∈ xs, r.mBegin < addr) ∧ ∀ r ∈ ys, addr ≤ r.mBegin := by
  induction ranges with
  | nil => exact ⟨[], [], rfl, by simp, by simp⟩
  | cons x ranges ih =>
    obtain ⟨hx, hrs, hcross⟩ := (@tidy_append base [x] ranges).mp h
    obtain ⟨xs, ys, rfl, hfront, hback⟩ := ih hrs
    by_cases hlt : x.mBegin < addr
    · exact ⟨x :: xs, ys, rfl, forall_mem_cons.mpr ⟨hlt, hfront⟩, hback⟩
    · refine ⟨[], x :: (xs ++ ys), rfl, by simp, ?_⟩
      refine forall_mem_cons.mpr ⟨by omega, fun r hr => ?_⟩
      have hxr := hcross x (by simp) r hr
      have hprop := hx.proper x (by simp)
      omega

variable {addr : Nat} (hfront : ∀ r ∈ xs, r.mBegin < addr) (hback : ∀ r ∈ ys, addr ≤ r.mBegin)

include hfront hback in
lemma lowerBound_split : lowerBound (xs ++ ys) addr = ys.head? :=
  lowerBound_append (by simpa using hfront) (by simpa using hback)

include h in
lemma Tidy.begin_lt : ∀ l ∈ xs, ∀ r ∈ ys, l.mBegin < r.mBegin := by
  intro l hl r hr
  have hcross := (tidy_append.mp h).2.2 l hl r hr
  have hprop := h.proper l (by simp [hl])
  omega

include h in
lemma Tidy.prev_head : prev less ys.head? (xs ++ ys) = xs.getLast? := by
  apply prev_append
  intro x hx
  refine ⟨fun y hy => ?_, fun y hy => ?_⟩
  · exact (less_iff y x).mpr (h.begin_lt y hy x (mem_of_mem_head? hx))
  · obtain ⟨tail, rfl⟩ : ∃ tail, ys = x :: tail := by
      cases ys with
      | nil => simp at hx
      | cons z tail => exact ⟨tail, by simp_all⟩
    rcases mem_cons.mp hy with rfl | hy
    · exact (not_less_iff y y).mpr le_rfl
    · have hlt := (@Tidy.begin_lt base (xs ++ [x]) tail (by simpa using h)) x (by simp) y hy
      simp only [less, decide_eq_false_iff_not]
      omega

include hfront hback in
lemma eq_nil_of_head_eq (h : ys.head? = (xs ++ ys).head?) : xs = [] := by
  cases xs with
  | nil => rfl
  | cons x xs =>
    have hx := hfront x (by simp)
    have hx' := hback x (mem_of_mem_head? (by simpa using h))
    omega

include h hfront in
lemma Tidy.around_eq (hback : ∀ r ∈ ys, addr < r.mBegin) : around (xs ++ ys) addr = (xs.getLast?, ys.head?) := by
  have hlower := lowerBound_split hfront fun r hr => le_of_lt (hback r hr)
  have hbegins : beginsAt ys.head? addr = false := by
    cases ys with
    | nil => rfl
    | cons r ys => simpa [beginsAt] using ne_of_gt (hback r (by simp))
  simp only [around, hlower, hbegins, Bool.not_false, if_true]
  split
  · rw [h.prev_head]
  · rename_i hhead
    obtain rfl := eq_nil_of_head_eq hfront (fun r hr => le_of_lt (hback r hr)) (Decidable.not_not.mp hhead)
    rfl

variable {r : Range}

lemma Tidy.around_begin (h : Tidy base (xs ++ r :: ys)) : around (xs ++ r :: ys) r.mBegin = (some r, ys.head?) := by
  have hfront : ∀ l ∈ xs, l.mBegin < r.mBegin := fun l hl => h.begin_lt l hl r (by simp)
  have hback : ∀ l ∈ ys, r.mBegin < l.mBegin := fun l hl =>
    (@Tidy.begin_lt base (xs ++ [r]) ys (by simpa using h)) r (by simp) l hl
  have hlower := @lowerBound_split xs (r :: ys) r.mBegin hfront
    (forall_mem_cons.mpr ⟨le_rfl, fun l hl => le_of_lt (hback l hl)⟩)
  have hnext : next less r (xs ++ r :: ys) = ys.head? := by
    apply next_append
    · intro l hl
      exact (not_less_iff r l).mpr (le_of_lt (hfront l hl))
    · exact (not_less_iff r r).mpr le_rfl
    · intro l hl
      exact (less_iff r l).mpr (hback l hl)
  simp [around, hlower, beginsAt, hnext]

lemma Tidy.around_contains (h : Tidy base ranges) (hr : r ∈ ranges) (hin : r.contains addr = true)
    : (around ranges addr).1 = some r := by
  obtain ⟨xs, ys, rfl⟩ := append_of_mem hr
  obtain ⟨hbegin, hend⟩ := (contains_iff _ _).mp hin
  by_cases heq : r.mBegin = addr
  · rw [← heq, h.around_begin]
  · have hfront : ∀ l ∈ xs ++ [r], l.mBegin < addr := by
      intro l hl
      rcases mem_append.mp hl with hl | hl
      · have hlt := h.begin_lt l hl r (by simp)
        omega
      · rw [mem_singleton.mp hl]
        omega
    have hback : ∀ l ∈ ys, addr < l.mBegin := by
      intro l hl
      have hlt := (pairwise_cons.mp (pairwise_append.mp h.apart).2.1).1 l hl
      omega
    have hsplit : xs ++ r :: ys = xs ++ [r] ++ ys := by simp
    rw [hsplit] at h ⊢
    rw [h.around_eq hfront hback, List.getLast?_concat]

lemma Tidy.around_free (h : Tidy base ranges) (hfree : ∀ r ∈ ranges, r.contains addr = false) : ∃ xs ys, ranges = xs ++
    ys ∧ (∀ r ∈ xs, r.mEnd ≤ addr) ∧ (∀ r ∈ ys, addr < r.mBegin) ∧ around ranges addr = (xs.getLast?, ys.head?) := by
  obtain ⟨xs, ys, rfl, hfront, hback⟩ := h.split addr
  have hout : ∀ r ∈ xs ++ ys, ¬ (r.mBegin ≤ addr ∧ addr < r.mEnd) := by
    intro r hr hin
    have hnot := hfree r hr
    rw [(contains_iff _ _).mpr hin] at hnot
    cases hnot
  have hends : ∀ r ∈ xs, r.mEnd ≤ addr := by
    intro r hr
    have hlt := hfront r hr
    have hnot := hout r (by simp [hr])
    omega
  have hbegins : ∀ r ∈ ys, addr < r.mBegin := by
    intro r hr
    have hle := hback r hr
    have hprop := h.proper r (by simp [hr])
    have hnot := hout r (by simp [hr])
    omega
  exact ⟨xs, ys, rfl, hends, hbegins, h.around_eq hfront hbegins⟩

variable {a : Nat}

lemma not_covered_behind (h : Tidy base ys) (hback : ∀ r ∈ ys, a ≤ r.mBegin)
    (hbegins : beginsAt ys.head? a = false) : ¬ Covered ys a := by
  cases ys with
  | nil => exact covered_nil a
  | cons x ys =>
    have hx : x.mBegin ≠ a := by simpa [beginsAt] using hbegins
    have hxa := hback x (by simp)
    intro ⟨r, hr, hin⟩
    obtain ⟨hbegin, -⟩ := (contains_iff _ _).mp hin
    rcases mem_cons.mp hr with rfl | hr
    · omega
    · have hlt := (@Tidy.begin_lt base [x] ys h) x (by simp) r hr
      omega

lemma covered_concat_iff {p : Range} (h : Tidy base (xs ++ [p])) (hp : p.mBegin < a)
    : Covered (xs ++ [p]) a ↔ p.contains a = true := by
  constructor
  · intro ⟨r, hr, hin⟩
    rcases mem_append.mp hr with hr | hr
    · have hcross := (tidy_append.mp h).2.2 r hr p (by simp)
      simp only [contains_iff] at hin
      omega
    · rwa [mem_singleton.mp hr] at hin
  · intro hin
    exact ⟨p, by simp, hin⟩

lemma isAllocated_eq (s : VirtualAllocator) (h : Tidy s.mBaseRange s.mAllocatedRanges) (a : Nat)
    : s.isAllocated a = .ok (decide (Covered s.mAllocatedRanges a)) := by
  unfold isAllocated
  by_cases hb : s.mBaseRange.contains a = true
  · rw [if_neg (by simp [hb])]
    by_cases hempty : s.mAllocatedRanges = []
    · simp [hempty, covered_nil]
    · rw [if_neg (by simpa using hempty)]
      obtain ⟨xs, ys, heq, hfront, hback⟩ := h.split a
      rw [heq] at h hempty ⊢
      rw [lowerBound_split hfront hback]
      cases hbegins : beginsAt ys.head? a with
      | true =>
        rw [if_pos hbegins]
        obtain ⟨r, tail, rfl, hr⟩ : ∃ r tail, ys = r :: tail ∧ r.mBegin = a := by
          cases ys with
          | nil => simp [beginsAt] at hbegins
          | cons r tail => exact ⟨r, tail, rfl, by simpa [beginsAt] using hbegins⟩
        have hin : r.contains a = true := by simpa [hr] using hr ▸ h.proper r (by simp)
        have hcov : Covered (xs ++ r :: tail) a := ⟨r, by simp, hin⟩
        simp [deref, hin, hcov]
      | false =>
        have hbeh : ¬ Covered ys a := not_covered_behind (tidy_append.mp h).2.1 hback hbegins
        rw [if_neg (by simp [hbegins])]
        split
        · rename_i hhead
          obtain rfl := eq_nil_of_head_eq hfront hback hhead
          simp [hbeh]
        · rename_i hhead
          rw [h.prev_head]
          rcases eq_nil_or_concat xs with rfl | ⟨f, p, rfl⟩
          · exact absurd rfl hhead
          · rw [concat_eq_append] at *
            have hlast : Covered (f ++ [p] ++ ys) a ↔ p.contains a = true := by
              rw [covered_append, covered_concat_iff (tidy_append.mp h).1 (hfront p (by simp)), or_iff_left hbeh]
            simp only [List.getLast?_concat, deref, ok_bind, pure_eq_ok, hlast, Bool.decide_eq_true]
  · rw [if_pos (by simp [hb])]
    have hout : ¬ Covered s.mAllocatedRanges a := by
      intro ⟨r, hr, hin⟩
      have hinside := h.inside r hr
      simp only [contains_iff] at hin hb
      omega
    simp [hout]

lemma emplace_between (hbef : ∀ r ∈ xs, r.mBegin < m.mBegin) (hbeh : ∀ r ∈ ys, m.mBegin < r.mBegin) :
    emplace less m (xs ++ ys) = xs ++ m :: ys := by
  apply emplace_append
  · intro r hr
    have hlt := hbef r hr
    exact ⟨(less_iff r m).mpr hlt, (not_less_iff m r).mpr hlt.le⟩
  · intro r hr
    exact (less_iff m r).mpr (hbeh r hr)

lemma Tidy.remove_eq (h : Tidy base (xs ++ r :: ys)) : remove less r (xs ++ r :: ys) = xs ++ ys := by
  apply remove_append
  · exact (not_less_iff r r).mpr le_rfl
  · intro l hl
    exact (less_iff l r).mpr (h.begin_lt l hl r (by simp))
  · intro l hl
    exact (less_iff r l).mpr ((@Tidy.begin_lt base (xs ++ [r]) ys (by simpa using h)) r (by simp) l hl)

def without : RangeIterator → List Range → List Range
  | none, ranges => ranges
  | some r, ranges => remove less r ranges

lemma mergeAndEmplace_eq {before after p q : RangeIterator} {n : Range}
    (hp : before.filter (fun r => r.mEnd == n.mBegin) = p) (hq : after.filter (fun r => r.mBegin == n.mEnd) = q)
    (hle : p.elim n.mBegin Range.mBegin ≤ q.elim n.mEnd mEnd) : mergeAndEmplace ranges before after n =
    .ok (emplace less ⟨p.elim n.mBegin Range.mBegin, q.elim n.mEnd mEnd⟩ (without q (without p ranges))) := by
  have hmerged := fromTwoPointers_eq_ok hle
  rw [mergeAndEmplace, hp, hq]
  cases p with
  | none =>
    cases q with
    | none => rfl
    | some q => exact bind_eq_ok.mpr ⟨_, hmerged, rfl⟩
  | some p =>
    cases q with
    | none | some q => exact bind_eq_ok.mpr ⟨_, hmerged, rfl⟩

lemma Tidy.append_left (h : Tidy base (xs ++ m :: ys)) : Tidy base (xs ++ ys) := by
  obtain ⟨hfront, hrest, hcross⟩ := tidy_append.mp h
  exact tidy_append.mpr ⟨hfront, ((@tidy_append base [m] ys).mp hrest).2.1, fun l hl r hr =>
    hcross l hl r (mem_cons_of_mem m hr)⟩

lemma iff_or_between (p : Prop) (n a : Nat) : p ↔ p ∨ n ≤ a ∧ a < n := ⟨.inl, fun h => h.resolve_right (by omega)⟩

include h

lemma Tidy.touching_before {first : Nat} (hbef : ∀ r ∈ xs, r.mEnd ≤ first) (hfirst : base.mBegin ≤ first) : ∃ p f,
    xs.getLast?.filter (fun r => r.mEnd == first) = p ∧ without p (xs ++ ys) = f ++ ys ∧ Tidy base (f ++ ys) ∧
    (∀ r ∈ f, r.mEnd < p.elim first mBegin) ∧ base.mBegin ≤ p.elim first mBegin ∧ p.elim first mBegin ≤ first ∧ ∀ a,
    Covered xs a ↔ Covered f a ∨ p.elim first mBegin ≤ a ∧ a < first := by
  have hnone : (∀ r ∈ xs, r.mEnd < first) → xs.getLast?.filter (fun r => r.mEnd == first) = none :=
    fun hall => Option.filter_eq_none_iff.mpr fun r hr => by
      have hlt := hall r (mem_of_getLast? hr)
      simp only [beq_iff_eq]
      omega
  by_cases hall : ∀ r ∈ xs, r.mEnd < first
  · exact ⟨none, xs, hnone hall, rfl, h, hall, hfirst, le_rfl, fun a => iff_or_between _ _ a⟩
  · rcases eq_nil_or_concat xs with rfl | ⟨f, p, rfl⟩
    · exact absurd (by simp) hall
    · rw [concat_eq_append] at *
      have hinside := h.inside p (by simp)
      have hprop := h.proper p (by simp)
      have hf := (tidy_append.mp (tidy_append.mp h).1).2.2
      have hp : p.mEnd = first := by
        refine le_antisymm (hbef p (by simp)) (not_lt.mp fun hlt => hall fun r hr => ?_)
        rcases mem_append.mp hr with hr | hr
        · have hrp := hf r hr p (by simp)
          omega
        · rwa [mem_singleton.mp hr]
      rw [append_assoc, singleton_append] at h ⊢
      refine ⟨some p, f, by simp [Option.filter, hp], h.remove_eq, h.append_left, fun r hr => hf r hr p (by simp),
        hinside.1, by dsimp only [Option.elim]; omega, fun a => ?_⟩
      simp [covered_append, covered_cons, covered_nil, hp]

lemma Tidy.touching_behind {last : Nat} (hbeh : ∀ r ∈ ys, last ≤ r.mBegin) (hlast : last ≤ base.mEnd) :
    ∃ q b, ys.head?.filter (fun r => r.mBegin == last) = q ∧ without q (xs ++ ys) = xs ++ b ∧
    Tidy base (xs ++ b) ∧ (∀ r ∈ b, q.elim last mEnd < r.mBegin) ∧ q.elim last mEnd ≤ base.mEnd ∧
    last ≤ q.elim last mEnd ∧ ∀ a, Covered ys a ↔ Covered b a ∨ last ≤ a ∧ a < q.elim last mEnd := by
  cases ys with
  | nil => exact ⟨none, [], rfl, rfl, h, by simp, hlast, le_rfl, fun a => iff_or_between _ _ a⟩
  | cons q b =>
    have hq := hbeh q (by simp)
    have hb := ((@tidy_append base [q] b).mp (tidy_append.mp h).2.1).2.2 q (by simp)
    have hprop := h.proper q (by simp)
    by_cases htouch : q.mBegin = last
    · refine ⟨some q, b, by simp [Option.filter, htouch], h.remove_eq, h.append_left, hb,
        (h.inside q (by simp)).2, by dsimp only [Option.elim]; omega, fun a => ?_⟩
      rw [covered_cons, htouch]
      exact or_comm
    · refine ⟨none, q :: b, by simp [Option.filter, htouch], rfl, h, ?_, hlast, le_rfl, fun a => iff_or_between _ _ a⟩
      refine forall_mem_cons.mpr ⟨by dsimp only [Option.elim]; omega, fun r hr => ?_⟩
      have hlt := hb r hr
      dsimp only [Option.elim]
      omega

lemma emplace_spec (hm : m.mBegin < m.mEnd) (hinside : base.mBegin ≤ m.mBegin ∧ m.mEnd ≤ base.mEnd)
    (hbef : ∀ r ∈ xs, r.mEnd < m.mBegin) (hbeh : ∀ r ∈ ys, m.mEnd < r.mBegin) :
    emplace less m (xs ++ ys) = xs ++ m :: ys ∧ Tidy base (xs ++ m :: ys) := by
  obtain ⟨hfront, hback, hcross⟩ := tidy_append.mp h
  refine ⟨emplace_between (fun r hr => ?_) fun r hr => hm.trans (hbeh r hr), tidy_append.mpr
    ⟨hfront, ⟨?_, pairwise_cons.mpr ⟨hbeh, hback.apart⟩, ?_⟩, fun l hl => ?_⟩⟩
  · exact lt_trans (hfront.proper r hr) (hbef r hr)
  · exact forall_mem_cons.mpr ⟨hm, hback.proper⟩
  · exact forall_mem_cons.mpr ⟨hinside, hback.inside⟩
  · exact forall_mem_cons.mpr ⟨hbef l hl, hcross l hl⟩

/-- A range that lies in the gap between two parts of a tidy set is added to it, together with the
neighbours it touches. -/
lemma mergeAndEmplace_spec {n : Range} (hn : n.mBegin < n.mEnd) (hinside : base.mBegin ≤ n.mBegin ∧ n.mEnd ≤ base.mEnd)
    (hbef : ∀ r ∈ xs, r.mEnd ≤ n.mBegin) (hbeh : ∀ r ∈ ys, n.mEnd ≤ r.mBegin) : ∃ ranges, mergeAndEmplace (xs ++ ys)
    xs.getLast? ys.head? n = .ok ranges ∧ Tidy base ranges ∧ ∀ a, Covered ranges a ↔ Covered (xs ++ ys) a ∨
    n.contains a = true := by
  obtain ⟨p, f, hp, hremove, hf, hbefore', hfirst, hle, hcov⟩ := h.touching_before hbef hinside.1
  obtain ⟨q, b, hq, hremove', hb, hbehind', hlast, hle', hcovered'⟩ := hf.touching_behind hbeh hinside.2
  obtain ⟨hemplace, htidy⟩ := @emplace_spec base f b ⟨p.elim n.mBegin Range.mBegin, q.elim n.mEnd mEnd⟩ hb
    (by dsimp only; omega) ⟨hfirst, hlast⟩ hbefore' hbehind'
  refine ⟨_, mergeAndEmplace_eq hp hq (by omega), ?_⟩
  rw [hremove, hremove', hemplace]
  refine ⟨htidy, fun a => ?_⟩
  rw [covered_append, covered_cons, covered_append, hcov a, hcovered' a, contains_iff]
  grind

end UltraOS.VirtualAllocator
