import UltraOS.Memory.MemoryMap.Model

/-!
# What shattering leaves

Of an address interval the memory map keeps everything if it is reserved and the whole pages if it
is free (`kept`). Copying an E820 entry keeps the interval of the entry, and shattering two
overlapping ranges keeps the parts of both that `overlay` lists: the greater type wins where they
overlap.
-/

namespace UltraOS

open List Page

/-- An entry as `copyAlignedFrom` leaves it: proper, typed, and made of whole pages if free. -/
structure PhysicalRange.Whole (r : PhysicalRange) : Prop where
  proper : r.mBegin < r.mEnd
  bounded : r.mEnd < addressSpace
  typed : free ≤ r.type
  paged : r.type = free → r.mBegin % 4096 = 0 ∧ r.mEnd % 4096 = 0

/-- What a firmware entry has to satisfy: it is not empty, does not wrap and has a type. -/
structure E820Entry.WellFormed (e : E820Entry) : Prop where
  nonempty : 0 < e.length
  bounded : e.baseAddress + e.length < addressSpace
  typed : PhysicalRange.free ≤ e.type

instance (e : E820Entry) : Decidable e.WellFormed :=
  decidable_of_iff (0 < e.length ∧ e.baseAddress + e.length < addressSpace ∧ PhysicalRange.free ≤ e.type)
    ⟨fun ⟨hnonempty, hbounded, htyped⟩ => ⟨hnonempty, hbounded, htyped⟩, fun h => ⟨h.nonempty, h.bounded, h.typed⟩⟩

def E820Entry.Covers (e : E820Entry) (a : Nat) : Prop := e.baseAddress ≤ a ∧ a < e.baseAddress + e.length

namespace MemoryMap

open PhysicalRange

/-- What is kept of the addresses from `first` on, `last` excluded. -/
def kept (first last type : Nat) : List PhysicalRange :=
  if type = free then
    if ceil first < floor last then [⟨⟨ceil first, floor last⟩, type⟩] else []
  else if first < last then [⟨⟨first, last⟩, type⟩]
  else []

variable {first last : Nat}

lemma kept_of_le (h : last ≤ first) (type : Nat) : kept first last type = [] := by
  have hceil := ceil_spec first
  have hfloor := floor_spec last
  have hpages : ¬ ceil first < floor last := by omega
  have hbs : ¬ first < last := by omega
  rw [kept, if_neg hpages, if_neg hbs, ite_self]

variable {r : PhysicalRange}

lemma kept_of_whole (h : r.Whole) : kept r.mBegin r.mEnd r.type = [r] := by
  unfold kept
  split
  · rename_i hfree
    obtain ⟨hbegin, hend⟩ := h.paged hfree
    have hceil : ceil r.mBegin = r.mBegin := by
      have hspec := ceil_spec r.mBegin
      omega
    have hfloor : floor r.mEnd = r.mEnd := by
      have hspec := floor_spec r.mEnd
      omega
    rw [hceil, hfloor, if_pos h.proper]
  · rw [if_pos h.proper]

lemma mem_kept {type : Nat} (hlast : last < addressSpace) (htype : free ≤ type) (h : r ∈ kept first last type) :
    r.Whole ∧ r.type = type ∧ first ≤ r.mBegin ∧ r.mEnd ≤ last := by
  have hceil := ceil_spec first
  have hfloor := floor_spec last
  unfold kept at h
  split at h
  · split at h
    · rename_i hlt
      obtain rfl := mem_singleton.mp h
      exact ⟨⟨hlt, by dsimp only; omega, htype, fun _ => ⟨hceil.2.2, hfloor.2.2⟩⟩, rfl, hceil.1, hfloor.1⟩
    · cases h
  · rename_i hres
    split at h
    · rename_i hlt
      obtain rfl := mem_singleton.mp h
      exact ⟨⟨hlt, hlast, htype, fun hfree => absurd hfree hres⟩, rfl, le_rfl, le_rfl⟩
    · cases h

lemma alignedTo_setLength (hend : r.mEnd < addressSpace) :
    ∃ r', r.alignedTo pageSize = .ok r' ∧ r'.type = r.type ∧ (ceil r.mBegin < floor r.mEnd →
        r'.setLength (roundDown r'.length) = ⟨⟨ceil r.mBegin, floor r.mEnd⟩, r.type⟩ ∧ pageSize ≤ r'.length) ∧
      (¬ ceil r.mBegin < floor r.mEnd → (r'.setLength (roundDown r'.length)).empty = true ∧ r'.length < pageSize) := by
  have hceil := ceil_spec r.mBegin
  have hfloor := floor_spec r.mEnd
  unfold addressSpace at hend
  refine ⟨⟨if ceil r.mBegin < r.mEnd then ⟨ceil r.mBegin, r.mEnd⟩ else {}, r.type⟩,
    by rw [alignedTo, Range.alignedTo_pageSize hend, ok_bind, pure_eq_ok], rfl, ?_, ?_⟩
  · intro hlt
    have hlen := floor_spec (r.mEnd - ceil r.mBegin)
    have hround : ceil r.mBegin + floor (r.mEnd - ceil r.mBegin) = floor r.mEnd := by omega
    have hwrap : floor r.mEnd % addressSpace = floor r.mEnd := Nat.mod_eq_of_lt (by unfold addressSpace; omega)
    have hin : ceil r.mBegin < r.mEnd := by omega
    simp only [if_pos hin, Range.length, setLength, setEnd, roundDown_eq_floor, hround, hwrap, pageSize, true_and]
    omega
  · intro hge
    by_cases hin : ceil r.mBegin < r.mEnd
    · have hlen := floor_spec (r.mEnd - ceil r.mBegin)
      have hround : floor (r.mEnd - ceil r.mBegin) = 0 := by omega
      have hwrap : ceil r.mBegin % addressSpace = ceil r.mBegin := Nat.mod_eq_of_lt (by unfold addressSpace; omega)
      simp only [if_pos hin, Range.length, setLength, setEnd, roundDown_eq_floor, hround,
        add_zero, hwrap, Range.empty_iff, pageSize, true_and]
      omega
    · simp only [if_neg hin]
      exact ⟨rfl, by decide⟩

lemma trimmed_spec (h : r.mBegin ≤ r.mEnd) (hend : r.mEnd < addressSpace) :
    ∃ r', trimmed r = .ok r' ∧ [r'].filter isValidRange = kept r.mBegin r.mEnd r.type := by
  unfold trimmed kept
  by_cases hfree : r.type = free
  · obtain ⟨r', hr', htype, hpages, hnone⟩ := alignedTo_setLength hend
    refine ⟨r'.setLength (roundDown r'.length), by simp [isFree, hfree, hr'], ?_⟩
    rw [if_pos hfree]
    by_cases hlt : ceil r.mBegin < floor r.mEnd
    · have hceil := ceil_spec r.mBegin
      have hfloor := floor_spec r.mEnd
      have hvalid : isValidRange ⟨⟨ceil r.mBegin, floor r.mEnd⟩, r.type⟩ = true := by
        have hlen : pageSize ≤ floor r.mEnd - ceil r.mBegin := by
          unfold pageSize
          omega
        simp [isValidRange, Range.empty, Range.length, hlt.ne, hlen]
      rw [(hpages hlt).1, if_pos hlt]
      simp [hvalid]
    · rw [if_neg hlt]
      simp [isValidRange, (hnone hlt).1]
  · refine ⟨r, by simp [isFree, hfree], ?_⟩
    rw [if_neg hfree]
    by_cases hlt : r.mBegin < r.mEnd
    · rw [if_pos hlt]
      simp [isValidRange, isReserved, isFree, hfree, Range.empty, hlt.ne]
    · rw [if_neg hlt]
      simp [isValidRange, Range.empty, show r.mBegin = r.mEnd by omega]

def copied (e : E820Entry) : List PhysicalRange := kept e.baseAddress (e.baseAddress + e.length) e.type

lemma copyAlignedFrom_eq_ok {e820 : List E820Entry} (h : ∀ e ∈ e820, e.WellFormed) :
    copyAlignedFrom e820 = .ok (e820.flatMap copied) := by
  induction e820 with
  | nil => rfl
  | cons e ts ih =>
    have he := h e (by simp)
    have hrest := ih fun e' he' => h e' (by simp [he'])
    rw [copyAlignedFrom, flatMap_cons, PhysicalRange.ofLength, Range.ofLength_eq_ok he.bounded]
    simp only [ok_bind, pure_eq_ok, hrest]
    unfold copied kept
    by_cases hfree : e.type = free
    · obtain ⟨r', hr', _, hpages, hnone⟩ := alignedTo_setLength
        (r := ⟨⟨e.baseAddress, e.baseAddress + e.length⟩, e.type⟩) he.bounded
      rw [if_neg (by simpa using hfree), if_pos hfree, hr', ok_bind]
      by_cases hlt : ceil e.baseAddress < floor (e.baseAddress + e.length)
      · obtain ⟨hset, hlen⟩ := hpages hlt
        have hkeep : ¬ (r'.empty = true ∨ r'.length < pageSize) := by
          simp only [Range.empty_iff, Range.length] at hlen ⊢
          unfold pageSize at *
          omega
        rw [if_neg hkeep, if_pos hlt, hset]
        rfl
      · rw [if_pos (Or.inr (hnone hlt).2), if_neg hlt]
        rfl
    · rw [if_pos hfree, if_neg hfree, if_pos (by have := he.nonempty; omega)]
      rfl

/-- The parts of two overlapping ranges that are left, the first one beginning first. -/
def overlay (l r : PhysicalRange) : List PhysicalRange :=
  if l.type = r.type then [l.setEnd (max l.mEnd r.mEnd)]
  else if r.type < l.type then l :: kept l.mEnd r.mEnd r.type
  else kept l.mBegin r.mBegin l.type ++ r :: kept r.mEnd l.mEnd l.type

lemma overlay_ne_nil (l r : PhysicalRange) : overlay l r ≠ [] := by
  unfold overlay
  split
  · simp
  · split <;> simp

variable {l : PhysicalRange}

lemma whole_setEnd_max (hl : l.Whole) (hr : r.Whole) (htype : l.type = r.type)
    : (l.setEnd (max l.mEnd r.mEnd)).Whole := by
  rcases le_total l.mEnd r.mEnd with hle | hle
  · rw [max_eq_right hle]
    exact ⟨hl.proper.trans_le hle, hr.bounded, hl.typed,
      fun hfree => ⟨(hl.paged hfree).1, (hr.paged (htype ▸ hfree)).2⟩⟩
  · rwa [max_eq_left hle]

lemma kept_default : kept ({} : PhysicalRange).mBegin ({} : PhysicalRange).mEnd ({} : PhysicalRange).type = [] :=
  kept_of_le le_rfl _

lemma partBehind_spec (r : PhysicalRange) (h : l.mEnd < addressSpace) : ∃ c, l.partBehind r = .ok c ∧
    c.mBegin ≤ c.mEnd ∧ c.mEnd < addressSpace ∧ kept c.mBegin c.mEnd c.type = kept r.mEnd l.mEnd l.type := by
  unfold partBehind
  by_cases hle : r.mEnd ≤ l.mEnd
  · rw [if_pos hle, Range.fromTwoPointers_eq_ok hle]
    exact ⟨_, rfl, hle, h, rfl⟩
  · rw [if_neg hle]
    exact ⟨_, rfl, le_rfl, by decide, by rw [kept_default, kept_of_le (by omega)]⟩

lemma shatterAgainst_spec (hl : l.Whole) (hr : r.Whole) (h : l.contains r.mBegin = true) :
    ∃ a b c, l.shatterAgainst r = .ok (a, b, c) ∧ (∀ p ∈ [a, b, c], p.mBegin ≤ p.mEnd ∧ p.mEnd < addressSpace) ∧
      kept a.mBegin a.mEnd a.type ++ kept b.mBegin b.mEnd b.type ++ kept c.mBegin c.mEnd c.type = overlay l r := by
  have hlproper := hl.proper
  have hrproper := hr.proper
  have hlbound := hl.bounded
  have hrbound := hr.bounded
  have hzero : ({} : PhysicalRange).mBegin ≤ ({} : PhysicalRange).mEnd ∧
      ({} : PhysicalRange).mEnd < addressSpace := by decide
  obtain ⟨hbegin, hend⟩ := (Range.contains_iff _ _).mp h
  simp only [shatterAgainst, overlay, h, assert_true, ok_bind, pure_eq_ok]
  by_cases htype : l.type = r.type
  · have hmax : (if l.mEnd > r.mEnd then l.mEnd else r.mEnd) = max l.mEnd r.mEnd := by split <;> omega
    have hwhole := whole_setEnd_max hl hr htype
    rw [if_pos htype, if_pos htype, hmax]
    refine ⟨_, {}, {}, rfl, ?_, ?_⟩
    · simpa [hzero] using ⟨hwhole.proper.le, hwhole.bounded⟩
    · rw [kept_default, append_nil, append_nil, kept_of_whole hwhole]
  · obtain ⟨c, hc, hcle, hcbound, hkept⟩ := partBehind_spec (l := l) r hlbound
    simp only [if_neg htype, hc, ok_bind]
    by_cases hgt : l.type > r.type
    · rw [if_pos hgt, if_pos hgt]
      by_cases hle : l.mEnd ≤ r.mEnd
      · rw [if_pos hle]
        refine ⟨l, r.setBegin l.mEnd, c, rfl, ?_, ?_⟩
        · simpa using ⟨⟨hlproper.le, hlbound⟩, ⟨hle, hrbound⟩, hcle, hcbound⟩
        · rw [hkept, kept_of_le hle, kept_of_whole hl, append_nil]
          rfl
      · rw [if_neg hle]
        refine ⟨l, {}, {}, rfl, ?_, ?_⟩
        · simpa [hzero] using ⟨hlproper.le, hlbound⟩
        · rw [kept_default, kept_of_whole hl, kept_of_le (by omega), append_nil, append_nil]
    · rw [if_neg hgt, if_neg hgt]
      refine ⟨l.setEnd r.mBegin, r, c, rfl, ?_, ?_⟩
      · have hcut : r.mBegin < addressSpace := by omega
        simpa using ⟨⟨hbegin, hcut⟩, ⟨hrproper.le, hrbound⟩, hcle, hcbound⟩
      · rw [hkept, kept_of_whole hr, append_assoc]
        rfl

/-- The type of the piece is the greatest one of the ranges that cover the address. -/
def Governs (l r p : PhysicalRange) (x : Nat) : Prop :=
  (l.mBegin ≤ x ∧ x < l.mEnd ∧ p.type = l.type ∨ r.mBegin ≤ x ∧ x < r.mEnd ∧ p.type = r.type) ∧
    (l.mBegin ≤ x ∧ x < l.mEnd → l.type ≤ p.type) ∧ (r.mBegin ≤ x ∧ x < r.mEnd → r.type ≤ p.type)

/-- Pieces that ascend without overlap and cover two ranges, one piece if these are of one type. -/
structure Covers (l r : PhysicalRange) (pieces : List PhysicalRange) : Prop where
  proper : ∀ p ∈ pieces, p.mBegin < p.mEnd
  apart : pieces.Pairwise fun p q => p.mEnd ≤ q.mBegin
  covered : ∀ x, (∃ p ∈ pieces, p.mBegin ≤ x ∧ x < p.mEnd) ↔ l.mBegin ≤ x ∧ x < l.mEnd ∨ r.mBegin ≤ x ∧ x < r.mEnd
  greatest : ∀ p ∈ pieces, ∀ x, p.mBegin ≤ x → x < p.mEnd → Governs l r p x
  few : pieces.length ≤ 3
  merged : l.type = r.type → pieces.length = 1

/-- It is enough to look at all three slots, of which the empty ones say nothing. -/
lemma covers_filter {a b c : PhysicalRange} (hle : ∀ p ∈ [a, b, c], p.mBegin ≤ p.mEnd)
    (hapart : [a, b, c].Pairwise fun p q => p.mBegin < p.mEnd → q.mBegin < q.mEnd → p.mEnd ≤ q.mBegin)
    (hcovered : ∀ x, (∃ p ∈ [a, b, c], p.mBegin ≤ x ∧ x < p.mEnd) ↔ l.mBegin ≤ x ∧ x < l.mEnd ∨ r.mBegin ≤ x ∧
    x < r.mEnd) (hgreatest : ∀ p ∈ [a, b, c], ∀ x, p.mBegin ≤ x → x < p.mEnd → Governs l r p x)
    (hmerged : l.type = r.type → a.mBegin < a.mEnd ∧ b.mBegin = b.mEnd ∧ c.mBegin = c.mEnd) :
    Covers l r ([a, b, c].filter fun p => p.mBegin ≠ p.mEnd) := by
  have hproper {p : PhysicalRange} (hp : p ∈ [a, b, c].filter fun p => p.mBegin ≠ p.mEnd) :
      p ∈ [a, b, c] ∧ p.mBegin < p.mEnd := by
    obtain ⟨hmem, hne⟩ := mem_filter.mp hp
    exact ⟨hmem, lt_of_le_of_ne (hle p hmem) (of_decide_eq_true hne)⟩
  refine ⟨fun p hp => (hproper hp).2, ?_, fun x => ?_, fun p hp => hgreatest p (hproper hp).1,
    length_filter_le _ _, fun heq => ?_⟩
  · exact (hapart.filter _).imp_of_mem fun hp hq h => h (hproper hp).2 (hproper hq).2
  · rw [← hcovered x]
    constructor
    · rintro ⟨p, hp, hx⟩
      exact ⟨p, (hproper hp).1, hx⟩
    · rintro ⟨p, hp, hx⟩
      exact ⟨p, mem_filter.mpr ⟨hp, decide_eq_true (by omega)⟩, hx⟩
  · obtain ⟨ha, hb, hc⟩ := hmerged heq
    simp [ha.ne, hb, hc]

theorem shatterAgainst_covers (hl : l.mBegin < l.mEnd) (hr : r.mBegin < r.mEnd) (hle : l.mBegin ≤ r.mBegin)
    (hlt : r.mBegin < l.mEnd) : ∃ a b c, l.shatterAgainst r = .ok (a, b, c) ∧
      Covers l r ([a, b, c].filter fun p => p.mBegin ≠ p.mEnd) := by
  have hcon : l.contains r.mBegin = true := (Range.contains_iff _ _).mpr ⟨hle, hlt⟩
  obtain ⟨c, hc, hbegin, hend, htype⟩ : ∃ c, l.partBehind r = .ok c ∧ c.mEnd = (if r.mEnd ≤ l.mEnd then l.mEnd else 0) ∧
      c.mBegin = (if r.mEnd ≤ l.mEnd then r.mEnd else 0) ∧ (r.mEnd ≤ l.mEnd → c.type = l.type) := by
    unfold partBehind
    split
    · rw [Range.fromTwoPointers_eq_ok ‹_›]
      exact ⟨_, rfl, rfl, rfl, fun _ => rfl⟩
    · exact ⟨_, rfl, rfl, rfl, fun h => absurd h ‹_›⟩
  simp only [shatterAgainst, hcon, assert_true, ok_bind, pure_eq_ok, hc]
  split
  · refine ⟨_, {}, {}, rfl, covers_filter ?_ ?_ ?_ ?_ ?_⟩ <;> simp [setEnd, Governs] <;> grind
  · split
    · split
      · refine ⟨_, _, c, rfl, covers_filter ?_ ?_ ?_ ?_ ?_⟩ <;> simp [setEnd, setBegin, Governs] <;> grind
      · refine ⟨_, {}, {}, rfl, covers_filter ?_ ?_ ?_ ?_ ?_⟩ <;> simp [setEnd, Governs] <;> grind
    · refine ⟨_, r, c, rfl, covers_filter ?_ ?_ ?_ ?_ ?_⟩ <;> simp [setEnd, Governs] <;> grind

theorem shatterAgainst_covers_inside : ∃ a b c, shatterAgainst ⟨⟨0, 0x3000⟩, 1⟩ ⟨⟨0x1000, 0x2000⟩, 2⟩ = .ok (a, b, c) ∧
      Covers ⟨⟨0, 0x3000⟩, 1⟩ ⟨⟨0x1000, 0x2000⟩, 2⟩ ([a, b, c].filter fun p => p.mBegin ≠ p.mEnd) :=
  shatterAgainst_covers (by decide) (by decide) (by decide) (by decide)

variable (xs ys : List PhysicalRange)

lemma insertIdx_append_add (k : Nat) (c : PhysicalRange) :
    (xs ++ ys).insertIdx (xs.length + k) c = xs ++ ys.insertIdx k c := by
  induction xs with
  | nil => simp
  | cons d xs ih =>
    rw [length_cons, show xs.length + 1 + k = xs.length + k + 1 by omega,
      cons_append, insertIdx_succ_cons, ih, cons_append]

lemma emplacePieces_spec (l r a b c : PhysicalRange) (h : [a, b, c].filter isValidRange ≠ []) : (do
      let (es, j) ←
        emplacePieces xs.length xs.length (xs ++ l :: r :: ys) [a, b, c]
      if j = xs.length then
        .error (.panic (couldNotMerge l r))
      else if j - xs.length = 1 then eraseRangeAt es j
      else return es) = .ok (xs ++ [a, b, c].filter isValidRange ++ ys) := by
  have herase (x y : PhysicalRange) : (xs ++ x :: y :: ys).eraseIdx (xs.length + 1) = xs ++ x :: ys := by
    rw [eraseIdx_append_of_length_le (by omega)]
    simp
  have hinsert := insertIdx_append_add xs (a :: b :: ys) 2 c
  have htwo : xs.length + 2 - xs.length = 2 := by omega
  cases ha : isValidRange a <;> cases hb : isValidRange b <;> cases hc : isValidRange c <;>
    simp [emplacePieces, emplaceRangeAt, eraseRangeAt, ha, hb, hc, herase, hinsert, htwo, add_assoc] at h ⊢

lemma shatterAt_eq_ok (hl : l.Whole) (hr : r.Whole) (h : l.contains r.mBegin = true) :
    shatterAt xs.length l r (xs ++ l :: r :: ys) = .ok (xs ++ overlay l r ++ ys) := by
  obtain ⟨a, b, c, hshatter, hprop, hkept⟩ := shatterAgainst_spec hl hr h
  have ha := hprop a (by simp)
  have hb := hprop b (by simp)
  have hc := hprop c (by simp)
  obtain ⟨a', hatrim, hakept⟩ := trimmed_spec ha.1 ha.2
  obtain ⟨b', hbtrim, hbkept⟩ := trimmed_spec hb.1 hb.2
  obtain ⟨c', hctrim, hckept⟩ := trimmed_spec hc.1 hc.2
  have hps : [a', b', c'].filter isValidRange = overlay l r := by
    rw [show [a', b', c'] = [a'] ++ [b'] ++ [c'] from rfl, filter_append, filter_append, hakept, hbkept, hckept, hkept]
  simp only [shatterAt, hshatter, hatrim, hbtrim, hctrim, ok_bind]
  rw [emplacePieces_spec xs ys l r a' b' c' (hps ▸ overlay_ne_nil l r), hps]

end MemoryMap

end UltraOS
