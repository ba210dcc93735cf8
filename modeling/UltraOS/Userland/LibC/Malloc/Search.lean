import UltraOS.Library.RunSearch
import UltraOS.Library.TaggedRuns
import UltraOS.Userland.LibC.Malloc.Model

/-!
# The search for free chunks

What `find_contiguous_bits` sees of the holes in a bitmap. A count smaller than a unit is only looked for inside of
one unit. A greater one is only found where the hole begins in one unit and goes up to the end of a later one, and
for exactly one unit the first free unit decides: without a free bit right in front of it, the search gives up or
points to the bit behind the end of a unit.
-/

namespace UltraOS.LibC

open BitWords RunSearch TaggedRuns BitVec List

def Visible (bitmap : List (BitVec 64)) (count : Nat) : Prop :=
  (count < 64 ∧ ∃ i b, i < bitmap.length ∧ b + count ≤ 64 ∧ Clear bitmap (64 * i + b) (64 * i + b + count)) ∨
  (count = 64 ∧ ∃ i, i + 1 < bitmap.length ∧ Clear bitmap (64 * i + 63) (64 * i + 128) ∧
    ∀ j ≤ i, ¬Clear bitmap (64 * j) (64 * j + 64)) ∨
  (64 < count ∧ ∃ first i, first < 64 * i ∧ i < bitmap.length ∧ first + count ≤ 64 * i + 64 ∧
    Clear bitmap first (64 * i + 64))

structure Room (bitmap : List (BitVec 64)) (count unitOffset bitOffset : Nat) : Prop where
  bit : bitOffset < 64
  inside : 64 * unitOffset + bitOffset + count ≤ 64 * bitmap.length
  clear : Clear bitmap (64 * unitOffset + bitOffset) (64 * unitOffset + bitOffset + count)

/-- The bit behind the end of a unit in front of a free one. -/
structure Astray (bitmap : List (BitVec 64)) (count unitOffset bitOffset : Nat) : Prop where
  count : count = 64
  bit : bitOffset = 64
  inside : unitOffset + 1 < bitmap.length
  clear : Clear bitmap (64 * unitOffset + 64) (64 * unitOffset + 128)

/-- The search ends with room exactly where it sees a hole. -/
def Settles (bitmap : List (BitVec 64)) (count : Nat) (result : Option (Nat × Nat)) : Prop :=
  Visible bitmap count ∧ (∃ u b, result = some (u, b) ∧ Room bitmap count u b) ∨
    ¬Visible bitmap count ∧ (result = none ∨ ∃ u b, result = some (u, b) ∧ Astray bitmap count u b)

section

variable {unit : BitVec 64} {n : Nat}

lemma holeLoop_spec (remaining i : Nat) (firstIndex : Option Nat) (contiguousCount : Nat)
    (hi : i + remaining = 64) (hscanned : Scanned (unit.getLsbD · = false) n i contiguousCount)
    (hfirst : firstIndex.getD i = i - contiguousCount) :
    (∃ b, holeLoop unit n remaining i firstIndex contiguousCount = some b ∧ b + n ≤ 64 ∧
      ∀ j < n, unit.getLsbD (b + j) = false) ∨ (holeLoop unit n remaining i firstIndex contiguousCount = none ∧
      ∀ b, b + n ≤ 64 → ¬∀ j < n, unit.getLsbD (b + j) = false) := by
  induction remaining generalizing i firstIndex contiguousCount with
  | zero =>
    obtain rfl : i = 64 := hi
    exact .inr ⟨rfl, hscanned.none⟩
  | succ remaining ih =>
    have hle := hscanned.le
    rw [holeLoop]
    split
    · rename_i hclear
      rw [hfirst]
      split
      · rename_i hfull
        exact .inl ⟨_, rfl, by omega, hscanned.full hclear hfull⟩
      · rename_i hmore
        refine ih (i + 1) _ _ (by omega) (hscanned.extend hclear hmore) ?_
        rw [Option.getD_some]
        omega
    · rename_i hset
      exact ih (i + 1) _ _ (by omega) (hscanned.reset hset) rfl

lemma findHoleInUnit_spec (unit : BitVec 64) (hn : 0 < n) :
    (∃ b, findHoleInUnit unit n = some b ∧ b + n ≤ 64 ∧ ∀ j < n, unit.getLsbD (b + j) = false) ∨
    (findHoleInUnit unit n = none ∧ ∀ b, b + n ≤ 64 → ¬∀ j < n, unit.getLsbD (b + j) = false) :=
  holeLoop_spec 64 0 none 0 rfl (.zero hn) rfl

end

section

variable {bm : List (BitVec 64)} {unit : BitVec 64} {n i contiguousCount : Nat}
  (hunit : bm[i]? = some unit) (hne : unit ≠ 0#64)

include hunit in
lemma clear_iff_of_unit {b n : Nat} (hn : b + n ≤ 64) :
    Clear bm (64 * i + b) (64 * i + b + n) ↔ ∀ j < n, unit.getLsbD (b + j) = false := by
  constructor
  · intro hclear j hj
    rw [← bit_of_getElem? hunit (by omega)]
    exact hclear _ (by omega) (by omega)
  · intro hclear k hk hlt
    have hbit := bit_of_getElem? hunit (b := b + (k - 64 * i - b)) (by omega)
    rw [show 64 * i + (b + (k - 64 * i - b)) = k by omega] at hbit
    rw [hbit]
    exact hclear _ (by omega)

include hunit in
lemma clear_unit_iff : Clear bm (64 * i) (64 * i + 64) ↔ unit = 0#64 := by
  have hiff := clear_iff_of_unit hunit (b := 0) (n := 64) le_rfl
  rw [add_zero] at hiff
  rw [hiff]
  constructor
  · intro hclear
    refine eq_of_getLsbD_eq fun k hk => ?_
    rw [← zero_add k, hclear k (by omega), getLsbD_zero]
  · intro hzero k _
    rw [hzero, getLsbD_zero]

abbrev UnitTail (bitmap : List (BitVec 64)) (i contiguousCount : Nat) : Prop :=
  Tail (bit bitmap · = false) (64 * i) contiguousCount

lemma unitTail_of_allOnes (hunit : bm[i]? = some (allOnes 64)) : UnitTail bm (i + 1) 0 := by
  have hbit := bit_of_getElem? hunit (b := 63) (by omega)
  rw [getLsbD_allOnes] at hbit
  have hset : ¬bit bm (64 * i + 63) = false := by
    rw [hbit]
    exact Bool.noConfusion
  exact Tail.reset hset

lemma unitTail_of_zero (htail : UnitTail bm i contiguousCount) (hunit : bm[i]? = some 0#64) :
    UnitTail bm (i + 1) (contiguousCount + 64) := by
  have hclear := (clear_unit_iff hunit).mpr rfl
  have hle := htail.le
  refine ⟨by omega, fun k hk hlt => ?_, fun hlt => ?_⟩
  · rcases lt_or_ge k (64 * i) with hold | hnew
    · exact htail.clear k (by omega) hold
    · exact hclear k hnew (by omega)
  · have hstops := htail.stops (by omega)
    rwa [show 64 * (i + 1) - (contiguousCount + 64) - 1 = 64 * i - contiguousCount - 1 by omega]

include hunit hne in
lemma unitTail_of_ne_zero : UnitTail bm (i + 1) unit.clz.toNat := by
  have hlt := clz_lt hne
  refine ⟨by omega, fun k hk hklt => ?_, fun _ => ?_⟩
  · have hbit := bit_of_getElem? hunit (b := k - 64 * i) (by omega)
    rw [show 64 * i + (k - 64 * i) = k by omega] at hbit
    rw [hbit]
    exact getLsbD_of_clz_le (by omega)
  · have hset := getLsbD_true_clz_of_ne_zero (by decide) hne
    have hbit := bit_of_getElem? hunit (b := 64 - 1 - unit.clz.toNat) (by omega)
    rw [show 64 * (i + 1) - unit.clz.toNat - 1 = 64 * i + (64 - 1 - unit.clz.toNat) by omega, hbit, hset]
    exact Bool.noConfusion

/-- The search in front of a unit: the clear bits that it counted, and where they begin. -/
structure Scan (bitmap : List (BitVec 64)) (i contiguousCount : Nat) (first : Option (Nat × Nat)) : Prop where
  tail : UnitTail bitmap i contiguousCount
  begins : 0 < contiguousCount → ∃ u b, first = some (u, b) ∧ b < 64 ∧ 64 * u + b + contiguousCount = 64 * i
  idle : contiguousCount = 0 → first = none ∨ ∃ u, u + 1 = i ∧ first = some (u, 64)

def Ends (bitmap : List (BitVec 64)) (count i : Nat) : Prop :=
  count ≤ 64 * i + 64 ∧ Clear bitmap (64 * i + 64 - count) (64 * i + 64)

lemma Ends.clear_unit (h : Ends bm n i) (hn : 64 ≤ n) : Clear bm (64 * i) (64 * i + 64) :=
  fun k hk hlt => h.2 k (by omega) hlt

lemma Ends.le (h : Ends bm n i) (htail : UnitTail bm i contiguousCount) : n ≤ contiguousCount + 64 := by
  have hle := h.1
  have hrun := htail.le_of_clear (64 * i + 64 - n) fun k hk hlt => h.2 k hk (by omega)
  omega

lemma Scan.room {first : Option (Nat × Nat)} (h : Scan bm i contiguousCount first) (hi : i < bm.length)
    (hends : Ends bm n i) (hn : 64 ≤ n) (hlt : contiguousCount < n) (hpos : 0 < contiguousCount) : ∃ u b,
    first = some (u, b) ∧ Room bm n u b := by
  obtain ⟨u, b, hfirst, hb, hsum⟩ := h.begins hpos
  have hle := hends.le h.tail
  refine ⟨u, b, hfirst, hb, by omega, fun k hk hklt => ?_⟩
  rcases lt_or_ge k (64 * i) with hold | hnew
  · exact h.tail.clear k (by omega) hold
  · exact hends.clear_unit hn k hnew (by omega)

end

section

variable {bm us : List (BitVec 64)} {unit : BitVec 64} {n i contiguousCount : Nat} {first : Option (Nat × Nat)}

/-- What is left of the bitmap in front of the loop. -/
def Remains (bitmap units : List (BitVec 64)) (i : Nat) : Prop := units = bitmap.drop i

variable (h : Remains bm (unit :: us) i)

include h in
lemma Remains.head : bm[i]? = some unit := by
  have hhead := congrArg head? h
  rw [head?_cons, head?_drop] at hhead
  exact hhead.symm

include h in
lemma Remains.tail : Remains bm us (i + 1) := by
  have htail := congrArg List.tail h
  rwa [tail_cons, tail_drop] at htail

include h in
lemma Remains.lt : i < bm.length := (List.getElem?_eq_some_iff.mp h.head).1

lemma Remains.length_le (h : Remains bm [] i) : bm.length ≤ i := drop_eq_nil_iff.mp h.symm

lemma findLoop_small (hn : 0 < n) (hsmall : n < 64) (us : List (BitVec 64)) (i : Nat) (contiguousCount : Nat)
    (first : Option (Nat × Nat)) (hunits : Remains bm us i) (hlt : contiguousCount < n) (hbef : ∀ j b, j < i →
    b + n ≤ 64 → ¬Clear bm (64 * j + b) (64 * j + b + n)) : Settles bm n (findLoop n us i contiguousCount first) := by
  induction us generalizing i contiguousCount first with
  | nil =>
    refine .inr ⟨?_, .inl rfl⟩
    rintro (⟨_, j, b, hj, hb, hclear⟩ | ⟨heq, _⟩ | ⟨hgt, _⟩)
    · exact hbef j b (hj.trans_le hunits.length_le) hb hclear
    · omega
    · omega
  | cons unit us ih =>
    have hunit := hunits.head
    -- a unit without a hole of its own leaves nothing that could be returned later
    have hstep : (∀ b, b + n ≤ 64 → ¬∀ j < n, unit.getLsbD (b + j) = false) →
        ∀ j b, j < i + 1 → b + n ≤ 64 → ¬Clear bm (64 * j + b) (64 * j + b + n) := by
      intro hnone j b hj hb hclear
      rcases Nat.lt_succ_iff_lt_or_eq.mp hj with hj | rfl
      · exact hbef j b hj hb hclear
      · exact hnone b hb ((clear_iff_of_unit hunit hb).mp hclear)
    rw [findLoop]
    split
    · rename_i hones
      refine ih (i + 1) 0 none hunits.tail hn (hstep fun b hb hall => ?_)
      have hbit := hall 0 hn
      rw [hones, getLsbD_allOnes, decide_eq_false_iff_not] at hbit
      omega
    · rw [if_pos (show n < bitsPerUnit from hsmall)]
      rcases findHoleInUnit_spec unit hn with ⟨b, hfound, hb, hall⟩ | ⟨hfound, hnone⟩
      · rw [hfound]
        have hclear := (clear_iff_of_unit hunit hb).mpr hall
        have hi := hunits.lt
        exact .inl ⟨.inl ⟨hsmall, i, b, hi, hb, hclear⟩, i, b, rfl, by omega, by omega, hclear⟩
      · rw [hfound]
        have hne : unit ≠ 0#64 := by
          intro hzero
          exact hnone 0 (by omega) fun k _ => by rw [hzero, getLsbD_zero]
        have hclz : unit.clz.toNat < n := by
          refine not_le.mp fun hle => ?_
          refine hnone (64 - n) (by omega) fun k _ => getLsbD_of_clz_le (by omega)
        rw [leadingBits, trailingBits, if_neg hne, if_neg hne, if_neg (by omega)]
        have hlt64 := clz_lt hne
        rw [if_neg (show unit.clz.toNat ≠ bitsPerUnit from hlt64.ne), ite_self]
        exact ih (i + 1) _ _ hunits.tail hclz (hstep hnone)

lemma findLoop_wide (hn : 64 ≤ n) (us : List (BitVec 64)) (i contiguousCount : Nat) (first : Option (Nat × Nat))
    (hunits : Remains bm us i) (h : Scan bm i contiguousCount first) (hlt : contiguousCount < n)
    (hbef : ∀ j < i, ¬Ends bm n j) : (findLoop n us i contiguousCount first = none ∧ ∀ j < bm.length, ¬Ends bm n j) ∨
    ∃ j counted, j < bm.length ∧ Ends bm n j ∧ (∀ k < j, ¬Ends bm n k) ∧ counted < n ∧
    Scan bm j counted (findLoop n us i contiguousCount first) := by
  induction us generalizing i contiguousCount first with
  | nil => exact .inl ⟨rfl, fun j hj => hbef j (hj.trans_le hunits.length_le)⟩
  | cons unit us ih =>
    have hunit := hunits.head
    have hnext : ¬Ends bm n i → ∀ j < i + 1, ¬Ends bm n j := by
      intro hnone j hj
      rcases Nat.lt_succ_iff_lt_or_eq.mp hj with hj | rfl
      · exact hbef j hj
      · exact hnone
    have hset : unit ≠ 0#64 → ¬Ends bm n i := fun hne hends => hne ((clear_unit_iff hunit).mp (hends.clear_unit hn))
    rw [findLoop]
    split
    · rename_i hones
      rw [hones] at hunit hset
      exact ih (i + 1) 0 none hunits.tail ⟨unitTail_of_allOnes hunit, fun h => absurd h (lt_irrefl 0),
        fun _ => .inl rfl⟩ (by omega) (hnext (hset (by decide)))
    · rw [if_neg (show ¬n < bitsPerUnit from Nat.not_lt.mpr hn)]
      dsimp only
      rw [leadingBits, trailingBits]
      by_cases hzero : unit = 0#64
      · rw [hzero] at hunit
        have htail := unitTail_of_zero h.tail hunit
        rw [if_pos hzero, if_pos hzero, if_pos rfl, bitsPerUnit]
        split
        · rename_i hfull
          have hends : Ends bm n i :=
            ⟨by have := h.tail.le; omega, fun k hk hklt => htail.clear k (by omega) (by omega)⟩
          exact .inr ⟨i, _, hunits.lt, hends, hbef, hlt, h⟩
        · rename_i hmore
          have hnone := hnext fun hends => hmore (hends.le h.tail)
          split
          · rename_i hnil
            rw [hnil, zero_add] at htail
            exact ih (i + 1) 64 _ hunits.tail ⟨htail, fun _ => ⟨i, 0, rfl, by omega, by omega⟩,
              fun h => absurd h (by decide)⟩ (by omega) hnone
          · obtain ⟨u, b, hfirst, hb, hsum⟩ := h.begins (by omega)
            exact ih (i + 1) _ first hunits.tail ⟨htail, fun _ => ⟨u, b, hfirst, hb, by omega⟩,
              fun h => absurd h (by omega)⟩ (by omega) hnone
      · have hclz := clz_lt hzero
        rw [if_neg hzero, if_neg hzero, if_neg (by omega),
          if_neg (show unit.clz.toNat ≠ bitsPerUnit from hclz.ne), ite_self]
        refine ih (i + 1) _ _ hunits.tail ⟨unitTail_of_ne_zero hunit hzero,
          fun _ => ⟨i, _, rfl, ?_, ?_⟩, fun hnil => .inr ⟨i, rfl, ?_⟩⟩ (by omega) (hnext (hset hzero))
        · rw [bitsPerUnit]
          omega
        · rw [bitsPerUnit]
          omega
        · rw [hnil]
          rfl

end

lemma Visible.ends {bm : List (BitVec 64)} {n : Nat} (h : Visible bm n)
    (hn : 64 ≤ n) : ∃ j < bm.length, Ends bm n j := by
  rcases h with ⟨hsmall, _⟩ | ⟨rfl, i, hi, hclear, _⟩ | ⟨_, first, i, _, hi, hroom, hclear⟩
  · omega
  · exact ⟨i + 1, hi, by omega, fun k hk hlt => hclear k (by omega) (by omega)⟩
  · exact ⟨i, hi, by omega, fun k hk hlt => hclear k (by omega) hlt⟩

lemma findContiguousBits_settles (bm : List (BitVec 64)) {n : Nat} (hn : 0 < n) :
    Settles bm n (findContiguousBits bm n) := by
  rcases lt_or_ge n 64 with hsmall | hwide
  · exact findLoop_small hn hsmall bm 0 0 none rfl hn fun j b hj => absurd hj (Nat.not_lt_zero j)
  have hstart : Scan bm 0 0 none := ⟨Tail.zero, fun h => absurd h (lt_irrefl 0), fun _ => .inl rfl⟩
  rcases findLoop_wide hwide bm 0 0 none rfl hstart hn fun j hj => absurd hj (Nat.not_lt_zero j) with
    ⟨hnone, hall⟩ | ⟨j, counted, hj, hends, hfirst, hlt, hscan⟩
  · refine .inr ⟨fun hvis => ?_, .inl hnone⟩
    obtain ⟨j, hj, hends⟩ := hvis.ends hwide
    exact hall j hj hends
  have hle := hends.le hscan.tail
  have hroom := hscan.room hj hends hwide hlt
  rcases Nat.eq_or_lt_of_le hwide with rfl | hlarge
  · rcases Nat.eq_zero_or_pos counted with hnil | hpos
    · -- no free bit in front of the first free unit
      refine .inr ⟨?_, (hscan.idle hnil).imp_right fun ⟨u, hu, hsome⟩ =>
        ⟨u, 64, hsome, rfl, rfl, by omega, fun k hk hklt => hends.clear_unit hwide k (by omega) (by omega)⟩⟩
      rintro (⟨hsmall, _⟩ | ⟨_, e, he, hclear, hbef⟩ | ⟨hlarge, _⟩)
      · omega
      · rcases lt_or_ge e j with hej | hje
        · have hnext : Ends bm 64 (e + 1) := ⟨by omega, fun k hk hklt => hclear k (by omega) (by omega)⟩
          have heq : e + 1 = j := le_antisymm hej (not_lt.mp fun hlt => hfirst (e + 1) hlt hnext)
          exact hscan.tail.stops (by omega) (hclear _ (by omega) (by omega))
        · exact hbef j hje (hends.clear_unit hwide)
      · omega
    · obtain ⟨e, rfl⟩ : ∃ e, j = e + 1 := ⟨j - 1, by have := hscan.tail.le; omega⟩
      refine .inl ⟨.inr (.inl ⟨rfl, e, hj, fun k hk hklt => ?_, fun k hk hclear => ?_⟩), hroom hpos⟩
      · rcases lt_or_ge k (64 * (e + 1)) with hold | hnew
        · exact hscan.tail.clear k (by omega) hold
        · exact hends.clear_unit hwide k hnew (by omega)
      · exact hfirst k (by omega) ⟨by omega, fun b hb hblt => hclear b (by omega) hblt⟩
  · have hfit := hends.1
    exact .inl ⟨.inr (.inr ⟨hlarge, _, j, by omega, hj, by omega, hends.2⟩), hroom (by omega)⟩

/-- What the search returns is a hole, and it returns nothing only where there is none. -/
def FindsRun (bitmap : List (BitVec 64)) (count : Nat) : Prop :=
  match findContiguousBits bitmap count with
  | some (u, b) => Room bitmap count u b
  | none => ¬∃ first, first + count ≤ 64 * bitmap.length ∧ Clear bitmap first (first + count)

/-- The search goes wrong exactly if there are holes and none is visible. -/
theorem findsRun_iff (bitmap : List (BitVec 64)) {count : Nat} (hcount : 0 < count) : FindsRun bitmap count ↔
      ((∃ first, first + count ≤ 64 * bitmap.length ∧ Clear bitmap first (first + count)) → Visible bitmap count) := by
  unfold FindsRun
  rcases findContiguousBits_settles bitmap hcount with
    ⟨hvis, u, b, hfound, hroom⟩ | ⟨hnot, hnone | ⟨u, b, hfound, hstray⟩⟩
  · rw [hfound]
    exact iff_of_true hroom fun _ => hvis
  · rw [hnone]
    exact ⟨fun h hrun => absurd hrun h, fun h hrun => hnot (h hrun)⟩
  · rw [hfound]
    refine iff_of_false (fun hroom => ?_) fun h => hnot (h ⟨64 * u + 64, ?_, ?_⟩)
    · exact absurd hroom.bit (by have := hstray.bit; omega)
    · have := hstray.inside
      have := hstray.count
      omega
    · rw [hstray.count]
      exact hstray.clear

theorem findsRun_small : FindsRun [1#64, 0#64] 2 :=
  (findsRun_iff [1#64, 0#64] (by decide)).mpr fun _ =>
    .inl ⟨by decide, 1, 0, by decide, by decide, fun k hk hlt => (clear_unit_iff (i := 1) rfl).mpr rfl k hk (by omega)⟩

/-- A free unit behind a full one is given up for the count of a unit. -/
theorem not_findsRun_behind_full : ¬FindsRun (allOnes 64 :: replicate (bitmapBytes / 8 - 1) 0#64) 64 := by
  have hnone : findContiguousBits (allOnes 64 :: replicate (bitmapBytes / 8 - 1) 0#64) 64 = none := rfl
  rw [FindsRun, hnone]
  refine not_not_intro ⟨64, ?_, (clear_unit_iff (i := 1) rfl).mpr rfl⟩
  rw [length_cons, length_replicate]
  decide

end UltraOS.LibC
