import UltraOS.Memory.HeapAllocator.Bitmap

/-!
# The loops of the heap over one block

What the searching, marking and clearing loops do to the ids of a block's chunks, and what
`allocate` does to a block that it takes chunks from.
-/

namespace UltraOS.HeapBlock

open TaggedRuns Nat

variable {id : Nat}

lemma ofNat_ne_zero (hid : id < 4) (hne : id ≠ 0) : BitVec.ofNat 8 id ≠ 0 := by
  intro h
  have hnat := congrArg BitVec.toNat h
  simp at hnat
  omega

structure Marked (bitmap bitmap' : List (BitVec 8)) (r : Span) (id : Nat) : Prop where
  length : bitmap'.length = bitmap.length
  ids : chunkId bitmap' = fill (chunkId bitmap) r id

lemma mark_spec (hid : id < 4) (chunks first : Nat) (bm : List (BitVec 8)) (hinside : first + chunks ≤ 4 * bm.length)
    (hblank : ∀ c, (⟨first, chunks⟩ : Span).Holds c → chunkId bm c = 0) : ∃ bitmap',
    mark (BitVec.ofNat 8 id) chunks (2 * first) bm = .ok bitmap' ∧ Marked bm bitmap' ⟨first, chunks⟩ id := by
  induction chunks generalizing first bm with
  | zero => exact ⟨bm, rfl, rfl, (fill_empty _ _ _).symm⟩
  | succ chunks ih =>
    have hfirst : first < 4 * bm.length := by omega
    have hstep := chunkId_or hid hfirst (hblank first (Span.holds_first (by simp)))
    rw [mark, controlByte_eq_ok hfirst, ok_bind]
    generalize hbitmap : bm.set (2 * first / 8) (bm.getD (first / 4) 0 |||
      (BitVec.ofNat 8 id <<< bitIndex (2 * first))) = next at hstep ⊢
    have hlen : next.length = bm.length := by rw [← hbitmap, List.length_set]
    have hrest : ∀ c, (⟨first + 1, chunks⟩ : Span).Holds c → chunkId next c = 0 := by
      intro c hchunk
      have hge : first + 1 ≤ c := hchunk.1
      have hlt : c < first + 1 + chunks := hchunk.2
      have hne : ¬ (⟨first, 1⟩ : Span).Holds c := by
        rw [Span.holds_singleton]
        omega
      rw [hstep, fill_of_not_holds hne]
      exact hblank c ⟨le_of_succ_le hge, by dsimp only; omega⟩
    obtain ⟨bitmap', hmark, hmarked⟩ := ih (first + 1) next (by omega) hrest
    refine ⟨bitmap', hmark, hmarked.length.trans hlen, ?_⟩
    rw [hmarked.ids, hstep, fill_cons]

variable {b : HeapBlock} {chunks first : Nat}

section

structure Cleared (heap heap' : HeapBlock) (r : Span) : Prop where
  eq : heap' = { heap with bitmap := heap'.bitmap, freeChunks := heap.freeChunks + r.length }
  length : heap'.bitmap.length = heap.bitmap.length
  ids : chunkId heap'.bitmap = fill (chunkId heap.bitmap) r 0

variable {c : Nat}

lemma release_spec (h : c < 4 * b.bitmap.length) : Cleared b (b.release (2 * c) (b.bitmap.getD (c / 4) 0)
      (BitVec.ofNat 8 (chunkId b.bitmap c) <<< bitIndex (2 * c))) ⟨c, 1⟩ :=
  ⟨rfl, List.length_set, chunkId_xor h⟩

variable {next heap' : HeapBlock}

lemma Cleared.cons (hfirst : Cleared b next ⟨c, 1⟩)
    (hrest : Cleared next heap' ⟨c + 1, chunks⟩) : Cleared b heap' ⟨c, chunks + 1⟩ := by
  refine ⟨?_, hrest.length.trans hfirst.length, ?_⟩
  · rw [hrest.eq, hfirst.eq]
    simp only [add_assoc, add_comm 1 chunks]
  · rw [hrest.ids, hfirst.ids, fill_cons]

variable {r : Span}

lemma Cleared.chunkSize (h : Cleared b heap' r) : heap'.chunkSize = b.chunkSize := by rw [h.eq]

/-- A run of chunks carries an id, and the chunk behind it is in the map and carries another one. -/
structure Carries (heap : HeapBlock) (first chunks id : Nat) : Prop where
  inside : first + chunks < 4 * heap.bitmap.length
  ids : ∀ chunk, (⟨first, chunks⟩ : Span).Holds chunk → chunkId heap.bitmap chunk = id
  stop : chunkId heap.bitmap (first + chunks) ≠ id

lemma Carries.rest (h : Carries b first (chunks + 1) id) (hclr : Cleared b next ⟨first, 1⟩) :
    Carries next (first + 1) chunks id := by
  have hbeh : ∀ c, first < c → chunkId next.bitmap c = chunkId b.bitmap c := by
    intro c hlt
    rw [hclr.ids]
    exact fill_of_not_holds (Span.holds_singleton.not.mpr hlt.ne')
  have hbound : first + 1 + chunks = first + (chunks + 1) := by omega
  refine ⟨?_, ?_, ?_⟩
  · rw [hclr.length, hbound]
    exact h.inside
  · intro c hchunk
    have hge : first + 1 ≤ c := hchunk.1
    have hlt : c < first + 1 + chunks := hchunk.2
    rw [hbeh c hge]
    exact h.ids c ⟨le_of_succ_le hge, by rwa [← hbound]⟩
  · rw [hbeh _ (by omega), hbound]
    exact h.stop

lemma clear_known_spec (ptr : Nat) (hid : id < 4) (hne : id ≠ 0) (chunks : Nat) (n first : Nat) (b : HeapBlock)
    (freed : Nat) (hn : chunks < n) (hrun : Carries b first chunks id) : ∃ heap', clear ptr n (2 * first)
    (BitVec.ofNat 8 id) b freed = .ok (heap', freed + chunks * b.chunkSize) ∧ Cleared b heap' ⟨first, chunks⟩ := by
  have hinside := hrun.inside
  induction chunks generalizing n first b freed with
  | zero =>
    obtain ⟨n, rfl⟩ := exists_eq_succ_of_ne_zero hn.ne'
    have hu := (shift_bitIndex_inj (chunkId_lt b.bitmap first) hid first).not.mpr hrun.stop
    refine ⟨b, ?_, rfl, rfl, (fill_empty _ _ _).symm⟩
    rw [clear, controlByte_eq_ok (by omega), ok_bind, if_neg (ofNat_ne_zero hid hne)]
    simp only [mask_eq_chunkId_shift, ne_eq, hu, not_false_eq_true, if_true, pure_eq_ok, add_zero, zero_mul]
  | succ chunks ih =>
    obtain ⟨n, rfl⟩ := exists_eq_succ_of_ne_zero (ne_of_gt (zero_lt_of_lt hn))
    have hfirst : first < 4 * b.bitmap.length := by omega
    have hidFirst := hrun.ids first (Span.holds_first (by simp))
    have hclr := release_spec hfirst
    rw [clear, controlByte_eq_ok hfirst, ok_bind, if_neg (ofNat_ne_zero hid hne)]
    simp only [mask_eq_chunkId_shift, hidFirst, ne_eq, not_true_eq_false, if_false]
    rw [hidFirst] at hclr
    have hrest := hrun.rest hclr
    obtain ⟨heap', hclear, hcleared'⟩ := ih n (first + 1) _ (freed + b.chunkSize) (by omega) hrest hrest.inside
    refine ⟨heap', ?_, hclr.cons hcleared'⟩
    rw [show 2 * first + 2 = 2 * (first + 1) by omega, hclear, hclr.chunkSize,
      Nat.succ_mul, add_assoc, add_comm b.chunkSize]

lemma clear_spec (ptr : Nat) {spans : List Span} (htagged : Tagged (chunkId b.bitmap) b.chunkCount spans)
    (hr : r ∈ spans) (hspare : b.chunkCount < 4 * b.bitmap.length) : ∃ heap', clear ptr (4 * b.bitmap.length + 1)
    (2 * r.first) 0 b 0 = .ok (heap', r.length * b.chunkSize) ∧ Cleared b heap' r := by
  obtain ⟨first, length⟩ := r
  obtain ⟨hlen, hinside⟩ := htagged.inside _ hr
  have hne := htagged.nonzero _ hr
  have hstop := htagged.stops hr
  dsimp only at hlen hinside hne hstop ⊢
  obtain ⟨chunks, rfl⟩ := exists_eq_succ_of_ne_zero hlen.ne'
  have hfirst : first < 4 * b.bitmap.length := by omega
  have hlt := chunkId_lt b.bitmap first
  have hrun : Carries b first (chunks + 1) (chunkId b.bitmap first) := ⟨by omega, htagged.uniform _ hr, hstop⟩
  have hclr := release_spec hfirst
  rw [clear, controlByte_eq_ok hfirst, ok_bind, if_pos rfl]
  simp only [allocationMask_bitIndex, mask_eq_chunkId_shift, shift_bitIndex_shift hlt, ofNat_ne_zero hlt hne, if_false]
  obtain ⟨heap', hclear, hcleared'⟩ := clear_known_spec ptr hlt hne chunks
    (4 * b.bitmap.length) (first + 1) _ (0 + b.chunkSize) (by omega) (hrun.rest hclr)
  refine ⟨heap', ?_, hclr.cons hcleared'⟩
  rw [show 2 * first + 2 = 2 * (first + 1) by omega, hclear, hclr.chunkSize, Nat.succ_mul,
    zero_add, add_comm b.chunkSize]

end

variable {aligned o needed : Nat}

/-- Enough free chunks in a row that start at an aligned one. -/
structure Found (heap : HeapBlock) (needed aligned offset first : Nat) : Prop where
  inside : first + needed ≤ heap.chunkCount
  blank : ∀ chunk, (⟨first, needed⟩ : Span).Holds chunk → chunkId heap.bitmap chunk = 0
  offset_le : offset ≤ first
  dvd : aligned ∣ first - offset

lemma skip_eq {pos : Nat} (hal : 0 < aligned) (ho : o ≤ pos) : (if 2 * aligned > 2 then
        2 * pos - 2 * o + 2 * aligned - (2 * pos - 2 * o + 2 * aligned) % (2 * aligned) + 2 * o - 2 else 2 * pos) + 2 =
      2 * (o + ((pos - o) / aligned + 1) * aligned) := by
  have hdouble : 2 * pos - 2 * o + 2 * aligned = 2 * (pos - o + aligned) := by omega
  have hmod : (pos - o + aligned) % aligned = (pos - o) % aligned := add_mod_right _ _
  have hdiv := div_add_mod (pos - o) aligned
  have hmul : ((pos - o) / aligned + 1) * aligned = aligned * ((pos - o) / aligned) + aligned := by
    rw [add_mul, one_mul, mul_comm]
  rw [hdouble, mul_mod_mul_left, hmod, hmul]
  split
  · omega
  · have hone : aligned = 1 := by omega
    subst hone
    omega

/-- What the search tells about the places from a chunk on: the lowest one, or that there is none. -/
def Settles (heap : HeapBlock) (needed aligned offset first : Nat) : Option Nat → Prop
  | none => ∀ other, Found heap needed aligned offset other → other < first
  | some bit => ∃ found, bit = 2 * found ∧ Found heap needed aligned offset found ∧
      ∀ other, Found heap needed aligned offset other → first ≤ other → found ≤ other

lemma Settles.mono {res : Option Nat} {next : Nat} (h : Settles b needed aligned o next res)
    (hnext : ∀ u, Found b needed aligned o u → first ≤ u → next ≤ u) : Settles b needed aligned o first res := by
  cases res with
  | none =>
    intro u hu
    exact not_le.mp fun hle => not_lt.mpr (hnext u hu hle) (h u hu)
  | some bit =>
    obtain ⟨found, hbit, hfound, hleast⟩ := h
    exact ⟨found, hbit, hfound, fun u hu hle => hleast u hu (hnext u hu hle)⟩

lemma Found.skip {pos u : Nat} (h : Found b needed aligned o u) (hal : 0 < aligned)
    (hoccupied : chunkId b.bitmap pos ≠ 0) (hreach : pos < u + needed)
    (ho : o ≤ pos) : o + ((pos - o) / aligned + 1) * aligned ≤ u := by
  have hbeh : pos < u := not_le.mp fun hle => hoccupied (h.blank pos ⟨hle, hreach⟩)
  obtain ⟨k, hk⟩ := h.dvd
  have hlt : (pos - o) / aligned < k := by
    rw [Nat.div_lt_iff_lt_mul hal, mul_comm]
    omega
  have hle : ((pos - o) / aligned + 1) * aligned ≤ k * aligned := mul_le_mul_right _ hlt
  rw [mul_comm k, ← hk] at hle
  have ho := h.offset_le
  omega

/-- The loop of `allocate` over the map. The chunks from `first` on are free, and there are less of
them than needed. -/
lemma search_spec (hmap : b.chunkCount ≤ 4 * b.bitmap.length) (hal : 0 < aligned) (n first cur atBit : Nat)
    (hpos : 0 < n) (hn : b.chunkCount < first + cur + n) (hcur : cur < needed) (hatBit : cur ≠ 0 → atBit = 2 * first)
    (hblank : ∀ c, (⟨first, cur⟩ : Span).Holds c → chunkId b.bitmap c = 0) (ho : o ≤ first)
    (hdvd : aligned ∣ first - o) : ∃ res, search b needed (2 * aligned) (2 * o) n (2 * (first + cur)) cur atBit =
    .ok res ∧ Settles b needed aligned o first res := by
  induction n generalizing first cur atBit with
  | zero => exact absurd hpos (lt_irrefl 0)
  | succ n ih =>
    by_cases hin : first + cur < b.chunkCount
    · have hmask := mask_eq_zero_iff b.bitmap (first + cur)
      rw [search, if_pos (by omega), controlByte_eq_ok (by omega), ok_bind]
      by_cases hfree : chunkId b.bitmap (first + cur) = 0
      · have hstart : (if cur + 1 = 1 then 2 * (first + cur) else atBit) = 2 * first := by
          split
          · omega
          · exact hatBit (by omega)
        have hblank' : ∀ c, (⟨first, cur + 1⟩ : Span).Holds c → chunkId b.bitmap c = 0 := by
          intro c hchunk
          have hge : first ≤ c := hchunk.1
          have hlt : c < first + (cur + 1) := hchunk.2
          by_cases heq : c = first + cur
          · rw [heq, hfree]
          · exact hblank c ⟨hge, by dsimp only; omega⟩
        simp only [hmask.mpr hfree, if_true, hstart]
        by_cases hfit : cur + 1 = needed
        · rw [if_pos hfit]
          rw [hfit] at hblank'
          exact ⟨_, rfl, first, rfl, ⟨by omega, hblank', ho, hdvd⟩, fun _ _ hle => hle⟩
        · have hnext : 2 * (first + cur) + 2 = 2 * (first + (cur + 1)) := by omega
          rw [if_neg hfit, hnext]
          exact ih first (cur + 1) (2 * first) (by omega) (by omega) (by omega)
            (fun _ => rfl) hblank' ho hdvd
      · simp only [hmask.not.mpr hfree, if_false]
        rw [skip_eq hal (by omega)]
        have hdiv := lt_div_mul_add hal (a := first + cur - o)
        have hnext : ((first + cur - o) / aligned + 1) * aligned = (first + cur - o) / aligned * aligned + aligned := by
          rw [add_mul, one_mul]
        obtain ⟨res, hsearch, hsettles⟩ :=
          ih (o + ((first + cur - o) / aligned + 1) * aligned) 0 0 (by omega)
            (by omega) (by omega) (fun h => absurd rfl h)
            (fun c hchunk => absurd (hchunk.1.trans_lt hchunk.2) (by simp)) (by omega)
            (by rw [Nat.add_sub_cancel_left]; exact Nat.dvd_mul_left _ _)
        refine ⟨res, hsearch, hsettles.mono fun u hu hle => ?_⟩
        exact hu.skip hal hfree (by omega) (by omega)
    · rw [search, if_neg (by omega)]
      refine ⟨none, rfl, fun u hu => ?_⟩
      have hinside := hu.inside
      omega

variable {a : Nat}

section

open HeapAllocator

variable {width number : Nat}

lemma eq_zero_of_countBits (h : countBits width number = 0) (hwidth : number >>> width = 0) : number = 0 := by
  induction width generalizing number with
  | zero => exact hwidth
  | succ width ih =>
    rw [countBits] at h
    rw [shiftRight_succ_inside] at hwidth
    have hhalf := ih (by omega) hwidth
    omega

lemma isPowerOfTwo_of_countBits (h : countBits width number = 1) (hwidth : number >>> width = 0)
    : number.isPowerOfTwo := by
  induction width generalizing number with
  | zero => simp [countBits] at h
  | succ width ih =>
    rw [countBits] at h
    rw [shiftRight_succ_inside] at hwidth
    by_cases hodd : number % 2 = 1
    · have hhalf := eq_zero_of_countBits (by omega) hwidth
      exact ⟨0, by omega⟩
    · obtain ⟨k, hk⟩ := ih (by omega) hwidth
      exact ⟨k + 1, by omega⟩

lemma isPowerOfTwo_of_countSetBits (h : countSetBits a = 1) (hle : a ≤ 4096) : a.isPowerOfTwo := by
  apply isPowerOfTwo_of_countBits h
  rw [shiftRight_eq_div_pow]
  exact div_eq_of_lt (hle.trans_lt (by decide))

lemma dvd_or_dvd (h : a.isPowerOfTwo) : a ∣ 32 ∧ a ≤ 32 ∨ 32 ∣ a ∧ 32 < a := by
  obtain ⟨k, rfl⟩ := h
  by_cases hk : k ≤ 5
  · left
    exact ⟨Nat.pow_dvd_pow 2 hk, Nat.pow_le_pow_right (by decide) hk⟩
  · right
    exact ⟨Nat.pow_dvd_pow 2 (show 5 ≤ k by omega), Nat.pow_lt_pow_right (show 1 < 2 by decide) (show 5 < k by omega)⟩

end

/-- How `feed_block` lays a block out, with at least one spare entry at the end of the map. -/
structure LaidOut (heap : HeapBlock) : Prop where
  chunkSize : heap.chunkSize = 32
  aligned : 32 ∣ heap.data
  data : heap.data = heap.address + headerSize + heap.bitmap.length
  spare : heap.chunkCount < 4 * heap.bitmap.length

def startOffset (heap : HeapBlock) (alignment : Nat) : Nat :=
  if alignment > 32 then
    if heap.data % alignment ≠ 0 then (alignment - heap.data % alignment) / 32 else 0
  else 0

lemma alignedOffset_eq (h : b.chunkSize = 32) (a : Nat) : b.alignedOffset a = 2 * b.startOffset a := by
  simp only [alignedOffset, startOffset, h]
  split
  · split
    · exact mul_comm _ _
    · rfl
  · rfl

lemma bitsPerAlignedBlock_eq (h : b.chunkSize = 32) (a : Nat) : b.bitsPerAlignedBlock a = 2 * max (a / 32) 1 := by
  rw [bitsPerAlignedBlock, h]
  omega

lemma aligned_startOffset (hdata : 32 ∣ b.data) {m : Nat} (hlt : 32 < 32 * m)
    : 32 * m ∣ b.data + b.startOffset (32 * m) * 32 := by
  obtain ⟨d, hd⟩ := hdata
  rw [startOffset, if_pos hlt, hd, mul_mod_mul_left]
  split
  · have hquotient : (32 * m - 32 * (d % m)) / 32 = m - d % m := by omega
    have hmod := mod_lt d (show 0 < m by omega)
    have hdiv := div_add_mod d m
    refine ⟨d / m + 1, ?_⟩
    rw [hquotient, mul_assoc, mul_add, mul_one]
    omega
  · have hmod : d % m = 0 := by omega
    rw [zero_mul, add_zero]
    exact Nat.mul_dvd_mul_left 32 (Nat.dvd_of_mod_eq_zero hmod)

lemma startOffset_lt {m : Nat} (hm : 0 < m) : b.startOffset (32 * m) < m := by
  unfold startOffset
  split
  · have hmod := mod_lt b.data (show 0 < 32 * m by omega)
    split <;> omega
  · exact hm

lemma aligned_iff (hdata : 32 ∣ b.data) (hpower : a.isPowerOfTwo) : a ∣ b.data + first * 32 ↔
    b.startOffset a ≤ first ∧ max (a / 32) 1 ∣ first - b.startOffset a := by
  rcases dvd_or_dvd hpower with ⟨hsmall, hle⟩ | ⟨hlarge, hlt⟩
  · have hone : max (a / 32) 1 = 1 := by omega
    rw [startOffset, if_neg hle.not_gt, hone]
    refine iff_of_true ?_ ⟨zero_le _, Nat.one_dvd _⟩
    exact Nat.dvd_add (Nat.dvd_trans hsmall hdata) (Nat.dvd_trans hsmall (Nat.dvd_mul_left 32 _))
  · obtain ⟨m, rfl⟩ := hlarge
    have hb : max (32 * m / 32) 1 = m := by omega
    have ho := @startOffset_lt b m (by omega)
    have hdvd := aligned_startOffset hdata hlt
    rw [hb]
    by_cases hle : b.startOffset (32 * m) ≤ first
    · have hfirst : b.data + first * 32 =
          b.data + b.startOffset (32 * m) * 32 + 32 * (first - b.startOffset (32 * m)) := by omega
      rw [hfirst, Nat.dvd_add_right hdvd, Nat.mul_dvd_mul_iff_left (by decide), and_iff_right hle]
    · refine iff_of_false (fun hfirst => ?_) fun h => hle h.1
      have hdiff := dvd_sub hdvd hfirst
      rw [show b.data + b.startOffset (32 * m) * 32 - (b.data + first * 32) =
        32 * (b.startOffset (32 * m) - first) by omega, Nat.mul_dvd_mul_iff_left (by decide)] at hdiff
      have hzero := eq_zero_of_dvd_of_lt hdiff (by omega)
      omega

/-- Free chunks that meet a request, from the first one on. -/
structure Vacant (heap : HeapBlock) (bytes alignment first : Nat) : Prop where
  inside : first + (bytes + heap.chunkSize - 1) / heap.chunkSize ≤ heap.chunkCount
  blank : ∀ chunk, (⟨first, (bytes + heap.chunkSize - 1) / heap.chunkSize⟩ : Span).Holds chunk →
    chunkId heap.bitmap chunk = 0
  aligned : alignment ∣ heap.data + first * heap.chunkSize

lemma vacant_iff_found (h : LaidOut b) (hpower : a.isPowerOfTwo) {bs : Nat} : Vacant b bs a first ↔
    Found b ((bs + 31) / 32) (max (a / 32) 1) (b.startOffset a) first := by
  constructor
  · intro hvacant
    obtain ⟨hinside, hblank, hal⟩ := hvacant
    rw [h.chunkSize] at hinside hblank hal
    obtain ⟨ho, hdvd⟩ := (aligned_iff h.aligned hpower).mp hal
    exact ⟨hinside, hblank, ho, hdvd⟩
  · intro hfound
    have hal := (aligned_iff h.aligned hpower).mpr ⟨hfound.offset_le, hfound.dvd⟩
    rw [← h.chunkSize] at hal
    refine ⟨?_, ?_, hal⟩
    · rw [h.chunkSize]
      exact hfound.inside
    · rw [h.chunkSize]
      exact hfound.blank

/-- The same block with a run of free chunks marked by an id that no neighbor has. -/
structure Taken (heap heap' : HeapBlock) (r : Span) (id : Nat) : Prop where
  eq : heap' = { heap with bitmap := heap'.bitmap, freeChunks := heap.freeChunks - r.length }
  marked : Marked heap.bitmap heap'.bitmap r id
  inside : r.first + r.length ≤ heap.chunkCount
  blank : ∀ chunk, r.Holds chunk → chunkId heap.bitmap chunk = 0
  nonzero : id ≠ 0
  left : 0 < r.first → id ≠ chunkId heap.bitmap (r.first - 1)
  right : id ≠ chunkId heap.bitmap (r.first + r.length)

lemma leftNeighbor_eq_ok (h : first ≤ 4 * b.bitmap.length) : b.leftNeighbor (2 * first) =
      .ok (BitVec.ofNat 8 (if first = 0 then 0 else chunkId b.bitmap (first - 1))) := by
  unfold leftNeighbor
  by_cases hfirst : first = 0
  · simp [hfirst]
  · rw [if_pos (by omega), if_neg hfirst, show 2 * first - 2 = 2 * (first - 1) by omega]
    exact neighborId_eq_ok (by omega)

lemma rightNeighbor_eq_ok (h : first < b.chunkCount) (hspare : first + chunks < 4 * b.bitmap.length) :
    b.rightNeighbor (2 * first) chunks = .ok (BitVec.ofNat 8 (chunkId b.bitmap (first + chunks))) := by
  unfold rightNeighbor
  rw [if_pos (by omega), show 2 * first + chunks * 2 = 2 * (first + chunks) by omega]
  exact neighborId_eq_ok hspare

lemma mark_found_spec (hspare : b.chunkCount < 4 * b.bitmap.length) (hneeded : 0 < needed)
    (hfound : Found b needed aligned o first) : ∃ left right id bitmap', b.leftNeighbor (2 * first) = .ok left ∧
      b.rightNeighbor (2 * first) needed = .ok right ∧ uniqueId left right 256 0 = .ok id ∧
      mark id needed (2 * first) b.bitmap = .ok bitmap' ∧
      Taken b { b with bitmap := bitmap', freeChunks := b.freeChunks - needed } ⟨first, needed⟩ id.toNat := by
  have hinside := hfound.inside
  have hleftLt : (if first = 0 then 0 else chunkId b.bitmap (first - 1)) < 4 := by
    split
    · decide
    · exact chunkId_lt _ _
  obtain ⟨id, hid, hne, hleft, hright⟩ := uniqueId_spec ⟨_, hleftLt⟩ ⟨_, chunkId_lt b.bitmap (first + needed)⟩
  have hidNat : (BitVec.ofNat 8 id).toNat = id.val := by
    rw [BitVec.toNat_ofNat]
    exact mod_eq_of_lt (by omega)
  obtain ⟨bitmap', hmark, hmarked⟩ := mark_spec id.isLt needed first b.bitmap (by omega)
    hfound.blank
  refine ⟨_, _, _, bitmap', leftNeighbor_eq_ok (by omega),
    rightNeighbor_eq_ok (by omega) (by omega), hid, hmark, rfl, ?_, hinside, hfound.blank, ?_, ?_, ?_⟩
  · rwa [hidNat]
  · rw [hidNat]
    exact fun h => hne (Fin.ext h)
  · intro hpos h
    rw [hidNat] at h
    exact hleft (Fin.ext (h.trans (if_neg hpos.ne').symm))
  · intro h
    rw [hidNat] at h
    exact hright (Fin.ext h)

lemma take_spec (hlayout : LaidOut b) (hcnt : b.freeChunks = blanks (chunkId b.bitmap) b.chunkCount) {bs : Nat}
    (hbs : bs ≠ 0) (hpower : a.isPowerOfTwo) : (b.take bs a = .ok none ∧ ∀ first, ¬Vacant b bs a first) ∨
    ∃ heap' first id, b.take bs a = .ok (some (heap', b.data + first * 32)) ∧ Taken b heap' ⟨first, (bs + 31) / 32⟩ id ∧
    Vacant b bs a first ∧ ∀ u, Vacant b bs a u → first ≤ u := by
  have hspare := hlayout.spare
  have hneeded : b.chunksNeeded bs = (bs + 31) / 32 := by
    rw [chunksNeeded, hlayout.chunkSize]
    omega
  simp only [vacant_iff_found hlayout hpower]
  by_cases hfew : b.freeBytes < bs
  · refine .inl ⟨?_, fun first hfound => ?_⟩
    · rw [take, if_pos hfew]
    · have hblanks := blanks_fill (show 1 ≠ 0 by decide) hfound.inside hfound.blank
      rw [freeBytes, hlayout.chunkSize, hcnt] at hfew
      dsimp only at hblanks
      omega
  · obtain ⟨res, hsearch, hsettles⟩ := search_spec hspare.le (show 0 < max (a / 32) 1 by omega) (b.chunkCount + 1)
      (b.startOffset a) 0 0 (by omega) (by omega)
      (show 0 < (bs + 31) / 32 by omega) (fun h => absurd rfl h)
      (fun c hchunk => absurd (hchunk.1.trans_lt hchunk.2) (by simp)) le_rfl
      (by simp)
    rw [take, if_neg hfew]
    simp only [add_zero] at hsearch
    simp only [hneeded, alignedOffset_eq hlayout.chunkSize, bitsPerAlignedBlock_eq hlayout.chunkSize]
    rw [hsearch, ok_bind]
    cases res with
    | none => exact .inl ⟨rfl, fun first hfound => not_lt.mpr hfound.offset_le (hsettles first hfound)⟩
    | some bit =>
      obtain ⟨first, rfl, hfirst, hleast⟩ := hsettles
      obtain ⟨left, right, id, bitmap', hleft, hright, hid, hmark, htaken⟩ := mark_found_spec hspare (by omega) hfirst
      have hptr : 2 * first / 2 * b.chunkSize = first * 32 := by
        rw [hlayout.chunkSize]
        omega
      simp only [hleft, hright, hid, hmark, ok_bind, pure_eq_ok, hptr]
      exact .inr ⟨_, first, id.toNat, rfl, htaken, hfirst, fun u hu => hleast u hu hu.offset_le⟩

end UltraOS.HeapBlock
