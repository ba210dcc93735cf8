import UltraOS.Base.Fault
import UltraOS.Base.Format

/-!
# Address ranges and pages

`Kernel/Memory/Range.h` and the rounding functions of `Kernel/Memory/Page.h`, for the 64-bit build:
an address is a natural number below `addressSpace`, and the sums that the code may let wrap are
taken modulo it. A range holds the addresses from its begin on, its end excluded.
-/

namespace UltraOS

def addressSpace : Nat := 0x10000000000000000

structure Range where
  mBegin : Nat := 0
  mEnd : Nat := 0
deriving DecidableEq

namespace Range

def ofLength (start length : Nat) : Run Range := do
  let range : Range := ⟨start, (start + length) % addressSpace⟩
  assert (range.mBegin ≤ range.mEnd) "m_begin <= m_end"
  return range

def fromTwoPointers (first last : Nat) : Run Range := do
  assert (first ≤ last) "begin <= end"
  return ⟨first, last⟩

/-- The difference is never negative: every constructor checks that the begin comes first. -/
def length (r : Range) : Nat := r.mEnd - r.mBegin

def contains (r : Range) (address : Nat) : Bool := address ≥ r.mBegin && address < r.mEnd

def empty (r : Range) : Bool := r.mBegin == r.mEnd

def overlaps (r other : Range) : Bool :=
  if r.empty || other.empty then false
  else r.contains other.mBegin || other.contains r.mBegin

/-- `aligned_to`: the range from the first multiple of `alignment` on, or the empty range at zero
when there is none in it. -/
def alignedTo (r : Range) (alignment : Nat) : Run Range :=
  let remainder := r.mBegin % alignment
  let alignedBegin :=
    if remainder ≠ 0 then (r.mBegin + (alignment - remainder)) % addressSpace else r.mBegin
  if alignedBegin < r.mBegin ∨ alignedBegin ≥ r.mEnd then .ok {}
  else fromTwoPointers alignedBegin r.mEnd

def setLength (r : Range) (length : Nat) : Range := { r with mEnd := (r.mBegin + length) % addressSpace }

def containsRange (r other : Range) : Bool := r.contains other.mBegin && other.mEnd ≤ r.mEnd

def clippedWithBegin (r : Range) (address : Nat) : Run Range := do
  assert (r.contains address || address == r.mEnd) "contains(address) || address == end()"
  fromTwoPointers address r.mEnd

def clippedWithEnd (r : Range) (address : Nat) : Run Range := do
  assert (r.contains address || address == r.mEnd) "contains(address) || address == end()"
  fromTwoPointers r.mBegin address

def describe (r : Range) : String :=
  toHexString r.mBegin ++ " -> " ++ toHexString r.mEnd ++ " length: " ++ toString r.length

@[simp]
lemma contains_iff (r : Range) (addr : Nat) : r.contains addr = true ↔ r.mBegin ≤ addr ∧ addr < r.mEnd := by
  simp [contains]

@[simp]
lemma empty_iff (r : Range) : r.empty = true ↔ r.mBegin = r.mEnd := by simp [empty]

lemma fromTwoPointers_eq_ok {first last : Nat} (h : first ≤ last) : fromTwoPointers first last = .ok ⟨first, last⟩ := by
  simp [fromTwoPointers, h]

lemma lt_of_ofLength {start length : Nat} {r : Range} (hlen : length < addressSpace)
    (h : ofLength start length = .ok r) : start + length < addressSpace := by
  obtain ⟨_, hle, _⟩ := of_bind h
  have hle : start ≤ (start + length) % addressSpace := of_decide_eq_true (assert_eq_ok.mp hle)
  unfold addressSpace at *
  omega

lemma ofLength_eq_ok {start length : Nat} (h : start + length < addressSpace) :
    ofLength start length = .ok ⟨start, start + length⟩ := by
  simp [ofLength, Nat.mod_eq_of_lt h]

end Range

def pageSize : Nat := 4096

namespace Page

/-- `round_down`: masking the offset in the page away is subtracting it. -/
def roundDown (size : Nat) : Nat := if size % pageSize ≠ 0 then size - size % pageSize else size

/-- `round_up`: a whole page even for no bytes at all. -/
def roundUp (size : Nat) : Nat :=
  if size = 0 then pageSize
  else if size % pageSize ≠ 0 then
    (size + pageSize) % addressSpace - (size + pageSize) % addressSpace % pageSize
  else size

def floor (address : Nat) : Nat := address / pageSize * pageSize

def ceil (address : Nat) : Nat := (address + (pageSize - 1)) / pageSize * pageSize

lemma floor_spec (addr : Nat) : floor addr ≤ addr ∧ addr < floor addr + 4096 ∧ floor addr % 4096 = 0 := by
  unfold floor pageSize
  omega

lemma ceil_spec (addr : Nat) : addr ≤ ceil addr ∧ ceil addr < addr + 4096 ∧ ceil addr % 4096 = 0 := by
  unfold ceil pageSize
  omega

lemma roundUp_mod (size : Nat) : roundUp size % 4096 = 0 := by
  unfold roundUp pageSize addressSpace
  split
  · rfl
  · split <;> omega

lemma roundUp_lt {size : Nat} (h : size < addressSpace) : roundUp size < addressSpace := by
  unfold roundUp pageSize addressSpace at *
  split
  · omega
  · split <;> omega

lemma roundUp_eq_self {size : Nat} (hmod : size % 4096 = 0) (hne : size ≠ 0) : roundUp size = size := by
  rw [roundUp, if_neg hne]
  exact if_neg fun h => h hmod

lemma roundDown_eq_floor (size : Nat) : roundDown size = floor size := by
  unfold roundDown floor pageSize
  split <;> omega

end Page

def ceilTo (alignment address : Nat) : Nat :=
  if address % alignment ≠ 0 then address + (alignment - address % alignment) else address

lemma ceilTo_spec {a addr : Nat} (h : 0 < a) : a ∣ ceilTo a addr ∧ addr ≤ ceilTo a addr ∧ ∀ u, a ∣ u →
    addr ≤ u → ceilTo a addr ≤ u := by
  have hdiv := Nat.div_add_mod addr a
  have hmod := Nat.mod_lt addr h
  unfold ceilTo
  split
  · rename_i hne
    have hnext : addr + (a - addr % a) = a * (addr / a + 1) := by
      rw [Nat.mul_add, Nat.mul_one]
      omega
    refine ⟨⟨_, hnext⟩, Nat.le_add_right _ _, fun u hdvd hle => ?_⟩
    obtain ⟨k, rfl⟩ := hdvd
    rw [hnext]
    refine Nat.mul_le_mul_left _ (Nat.lt_of_not_le fun hk => ?_)
    have hback := Nat.mul_le_mul_left a hk
    omega
  · rename_i hzero
    exact ⟨Nat.dvd_of_mod_eq_zero (not_not.mp hzero), Nat.le_refl _, fun _ _ hle => hle⟩

/-- In a range whose end does not wrap the next multiple does not wrap either. -/
lemma Range.alignedTo_eq {r : Range} {a : Nat} (h : r.mEnd < addressSpace) (ha : a < addressSpace) : r.alignedTo a =
      .ok (if ceilTo a r.mBegin < r.mEnd then ⟨ceilTo a r.mBegin, r.mEnd⟩ else {}) := by
  simp only [alignedTo, ceilTo]
  unfold addressSpace at *
  split
  · by_cases hin : r.mBegin + (a - r.mBegin % a) < r.mEnd
    · rw [Nat.mod_eq_of_lt (by omega), if_neg (by omega), if_pos hin]
      exact fromTwoPointers_eq_ok (by omega)
    · rw [if_pos (by omega), if_neg hin]
  · by_cases hin : r.mBegin < r.mEnd
    · rw [if_neg (by omega), if_pos hin]
      exact fromTwoPointers_eq_ok (by omega)
    · rw [if_pos (by omega), if_neg hin]

lemma Range.alignedTo_pageSize {r : Range} (h : r.mEnd < addressSpace) : r.alignedTo pageSize =
      .ok (if Page.ceil r.mBegin < r.mEnd then ⟨Page.ceil r.mBegin, r.mEnd⟩ else {}) := by
  have hceil : ceilTo pageSize r.mBegin = Page.ceil r.mBegin := by
    unfold ceilTo Page.ceil pageSize
    split <;> omega
  rw [alignedTo_eq h (by decide), hceil]

end UltraOS
