import UltraOS.Memory.HeapAllocator.Invariant

/-!
# The calls of the kernel heap preserve its invariant
-/

namespace UltraOS.HeapAllocator

open TaggedRuns List HeapBlock

variable {ptr : Nat} {b : HeapBlock} {live : List Allocation} {s : HeapAllocator}
  (h : Sound s.heapBlocks s.totalFreeBytes live)

section

/-- A region that can become a block: it is large enough for the header and a chunk, overlaps no
block, and its map has a spare entry behind that of the last chunk. -/
def Feedable (s : HeapAllocator) (ptr size : Nat) : Prop :=
  72 ≤ size ∧ ptr + size < addressSpace ∧ (layOut ptr size defaultChunkSize).chunkCount <
      4 * (layOut ptr size defaultChunkSize).bitmap.length ∧
    ∀ heap ∈ s.heapBlocks, ptr + size ≤ heap.address ∨ heap.dataEnd ≤ ptr

instance (s : HeapAllocator) (ptr size : Nat) : Decidable (Feedable s ptr size) :=
  inferInstanceAs (Decidable (_ ∧ _))

lemma sizeSub_eq {l r : Nat} (hle : r ≤ l) (hl : l < addressSpace) : sizeSub l r = l - r := by
  unfold sizeSub addressSpace at *
  omega

/-- A block right after `feed_block`, in a region of the given size. -/
structure Fresh (heap : HeapBlock) (ptr size : Nat) : Prop where
  address : heap.address = ptr
  chunkSize : heap.chunkSize = 32
  aligned : 32 ∣ heap.data
  data : heap.data = ptr + headerSize + heap.bitmap.length
  dataEnd : heap.dataEnd ≤ ptr + size
  freeChunks : heap.freeChunks = heap.chunkCount
  ids : chunkId heap.bitmap = fun _ => 0

variable {size chunkSize : Nat} (hchunk : 0 < chunkSize) (hroom : 40 + chunkSize ≤ size) (hsize : size < addressSpace)

lemma slack_spec (addr : Nat) (hchunk : 0 < chunkSize) :
    ∃ slack, (if addr % chunkSize ≠ 0 then chunkSize - addr % chunkSize else 0) = slack ∧
      slack < chunkSize ∧ chunkSize ∣ addr + slack ∧ (slack = 0 ↔ chunkSize ∣ addr) := by
  have hlt := Nat.mod_lt addr hchunk
  have hdiv := Nat.div_add_mod addr chunkSize
  refine ⟨_, rfl, ?_⟩
  split
  · rename_i hne
    refine ⟨by omega, ⟨addr / chunkSize + 1, ?_⟩, by omega, fun hdvd => absurd (Nat.mod_eq_zero_of_dvd hdvd) hne⟩
    rw [mul_add, mul_one]
    omega
  · rename_i hzero
    have hdvd := Nat.dvd_of_mod_eq_zero (not_not.mp hzero)
    exact ⟨hchunk, hdvd, fun _ => hdvd, fun _ => rfl⟩

include hchunk hroom hsize in
lemma layOut_eq : ∃ bs, layOut ptr size chunkSize =
    ⟨ptr, ptr + 40 + bs, (size - 40 - bs) / chunkSize, chunkSize, (size - 40 - bs) / chunkSize, replicate bs 0⟩ ∧ bs ≤
    size - 40 ∧ chunkSize ∣ ptr + 40 + bs ∧ 1 + ((size - 40) / chunkSize - 1) / 4 ≤ bs ∧
    (bs = 1 + ((size - 40) / chunkSize - 1) / 4 ↔ chunkSize ∣ ptr + 40 + (1 + ((size - 40) / chunkSize - 1) / 4)) := by
  have hpure : sizeSub size 40 = size - 40 := sizeSub_eq (by omega) hsize
  have hn : 0 < (size - 40) / chunkSize := Nat.div_pos (by omega) hchunk
  have hle : (size - 40) / chunkSize ≤ size - 40 := Nat.div_le_self _ _
  have hone : sizeSub ((size - 40) / chunkSize) 1 = (size - 40) / chunkSize - 1 := sizeSub_eq hn (by omega)
  have hmul := Nat.div_mul_le_self (size - 40) chunkSize
  unfold layOut headerSize
  simp only [hpure, hone]
  generalize (size - 40) / chunkSize = n at *
  obtain ⟨slack, hslack, hlt, hdvd, hzero⟩ := slack_spec (ptr + 40 + (1 + (n - 1) / 4)) hchunk
  have hfits : 1 + (n - 1) / 4 + slack ≤ size - 40 := by
    have hproduct := Nat.le_mul_of_pos_right (n - 1) hchunk
    rw [Nat.sub_one_mul] at hproduct
    omega
  have hrest : sizeSub (size - 40) (1 + (n - 1) / 4 + slack) = size - 40 - (1 + (n - 1) / 4 + slack) :=
    sizeSub_eq hfits (by omega)
  rw [hslack, hrest, ← Nat.div_eq_sub_mod_div]
  refine ⟨_, rfl, hfits, ?_, by omega, ?_⟩
  · rwa [← add_assoc]
  · rw [← hzero]
    omega

lemma layOut_fresh (hsize : 72 ≤ size) (hspace : ptr + size < addressSpace) :
    Fresh (layOut ptr size defaultChunkSize) ptr size := by
  obtain ⟨bs, heq, hbs, hdvd, -⟩ := @layOut_eq ptr size 32 (by decide) hsize (by omega)
  rw [defaultChunkSize, heq]
  refine ⟨rfl, rfl, hdvd, ?_, ?_, rfl, chunkId_replicate bs⟩
  · simp [headerSize]
  · unfold dataEnd
    dsimp only
    omega

/-- The map ends right in front of the chunks, with no entry but those of the chunks. -/
def Tight (ptr size chunkSize : Nat) : Prop :=
  4 ∣ (size - 40) / chunkSize ∧ chunkSize ∣ ptr + 40 + (size - 40) / chunkSize / 4 ∧
    (size - 40) / chunkSize / 4 ≤ (size - 40) % chunkSize

instance (ptr size chunkSize : Nat) : Decidable (Tight ptr size chunkSize) :=
  inferInstanceAs (Decidable (_ ∧ _))

include hchunk hroom hsize in
lemma spare_iff_not_tight : (layOut ptr size chunkSize).chunkCount < 4 * (layOut ptr size chunkSize).bitmap.length ↔
    ¬Tight ptr size chunkSize := by
  obtain ⟨bs, heq, hbs, -, hle, hslack⟩ := @layOut_eq ptr size chunkSize hchunk hroom hsize
  have hn : 0 < (size - 40) / chunkSize := Nat.div_pos (by omega) hchunk
  have hmod := Nat.mod_lt (size - 40) hchunk
  have hdiv := Nat.div_add_mod (size - 40) chunkSize
  rw [heq, length_replicate, Tight]
  dsimp only
  generalize (size - 40) / chunkSize = n, (size - 40) % chunkSize = ts at *
  rw [← hdiv]
  have hquarter : 4 ∣ n → 1 + (n - 1) / 4 = n / 4 := by omega
  by_cases hin : bs ≤ ts
  · rw [Nat.add_sub_assoc hin, Nat.mul_add_div hchunk, Nat.div_eq_of_lt (by omega), add_zero]
    by_cases hfour : 4 ∣ n
    · rw [hquarter hfour] at hslack hle
      rw [← hslack]
      omega
    · omega
  · have hless : (chunkSize * n + ts - bs) / chunkSize < n := by
      rw [Nat.div_lt_iff_lt_mul hchunk, mul_comm n]
      omega
    refine iff_of_true (by omega) ?_
    intro htight
    have hend := hslack.mpr (hquarter htight.1 ▸ htight.2.1)
    omega

/-- The header, a map with an entry behind that of the last chunk, and the chunks, as begin and length. -/
def areas (heap : HeapBlock) : List (Nat × Nat) :=
  [(heap.address, headerSize), (heap.address + headerSize, (heap.chunkCount + 4) / 4),
    (heap.data, heap.chunkCount * heap.chunkSize)]

/-- The areas of a block of the given size are in it and do not overlap, and the chunks are aligned. -/
structure WellPlaced (heap : HeapBlock) (size : Nat) : Prop where
  inside : ∀ area ∈ areas heap, heap.address ≤ area.1 ∧ area.1 + area.2 ≤ heap.address + size
  apart : (areas heap).Pairwise fun a b => a.1 + a.2 ≤ b.1 ∨ b.1 + b.2 ≤ a.1
  aligned : heap.chunkSize ∣ heap.data

lemma wellPlaced_iff {b : HeapBlock} (hchunks : 0 < b.chunkCount * b.chunkSize) :
    WellPlaced b size ↔ b.address + 40 + (b.chunkCount + 4) / 4 ≤ b.data ∧
    b.data + b.chunkCount * b.chunkSize ≤ b.address + size ∧ b.chunkSize ∣ b.data := by
  constructor
  · intro h
    have hin := h.inside
    have hapart := h.apart
    simp only [areas, headerSize, forall_mem_cons, pairwise_cons] at hin hapart
    exact ⟨by omega, by omega, h.aligned⟩
  · intro h
    obtain ⟨hmap, hend, hal⟩ := h
    refine ⟨?_, ?_, hal⟩
    · simp only [areas, headerSize, forall_mem_cons]
      exact ⟨by omega, by omega, by omega, by simp⟩
    · simp only [areas, headerSize, pairwise_cons, forall_mem_cons]
      exact ⟨⟨by omega, by omega, by simp⟩, ⟨by omega, by simp⟩, by simp, Pairwise.nil⟩

/-- `feed_block` places a block well exactly if the region has room for a chunk and the map does not end
right behind the entry of the last chunk. -/
theorem layOut_wellPlaced_iff (hsize : size < addressSpace) (hpower : chunkSize.isPowerOfTwo)
    (hcount : 0 < (layOut ptr size chunkSize).chunkCount) :
    WellPlaced (layOut ptr size chunkSize) size ↔ 40 + chunkSize ≤ size ∧ ¬Tight ptr size chunkSize := by
  have hchunk := Nat.pos_of_isPowerOfTwo hpower
  have hproduct := Nat.le_mul_of_pos_left chunkSize hcount
  rw [wellPlaced_iff (mul_pos hcount hchunk)]
  by_cases hroom : 40 + chunkSize ≤ size
  · rw [← spare_iff_not_tight hchunk hroom hsize]
    obtain ⟨bs, heq, hbs, hdvd, -⟩ := @layOut_eq ptr size chunkSize hchunk hroom hsize
    have hdiv := Nat.div_mul_le_self (size - 40 - bs) chunkSize
    rw [heq, length_replicate]
    dsimp only
    exact ⟨fun h => ⟨hroom, by omega⟩, fun h => ⟨by omega, by omega, hdvd⟩⟩
  · refine iff_of_false ?_ fun h => hroom h.1
    intro h
    have hmap : ptr + 40 + _ ≤ (layOut ptr size chunkSize).data := h.1
    have hend : _ + (layOut ptr size chunkSize).chunkCount * chunkSize ≤ ptr + size := h.2.1
    omega

theorem layOut_wellPlaced_page : WellPlaced (layOut 0x1000 4096 32) 4096 :=
  (layOut_wellPlaced_iff (by decide) ⟨5, rfl⟩ (by decide)).mpr (by decide)

theorem not_wellPlaced_tight : (layOut 0x1000 3136 32).chunkCount = 96 ∧ ¬WellPlaced (layOut 0x1000 3136 32) 3136 := by
  refine ⟨by decide, fun h => ?_⟩
  have hmap := ((wellPlaced_iff (by decide)).mp h).1
  revert hmap
  decide

lemma feedBlock_perm (s : HeapAllocator) (ptr size : Nat) :
    (s.feedBlock ptr size).heapBlocks.Perm (layOut ptr size defaultChunkSize :: s.heapBlocks) := by
  unfold feedBlock
  cases s.heapBlocks with
  | nil => exact List.Perm.refl _
  | cons first ts => exact List.Perm.swap _ _ _

lemma freeBytesOf_feedBlock (s : HeapAllocator) (ptr size : Nat) : freeBytesOf (s.feedBlock ptr size).heapBlocks =
    (layOut ptr size defaultChunkSize).freeBytes + freeBytesOf s.heapBlocks := by
  unfold feedBlock
  cases s.heapBlocks with
  | nil => rfl
  | cons first ts => exact add_left_comm _ _ _

lemma Fresh.shows (h : Fresh b ptr size) (hspare : b.chunkCount < 4 * b.bitmap.length)
    (hnot : ∀ a ∈ live, ¬ b.owns a) : b.Shows live := by
  refine ⟨⟨h.chunkSize, h.aligned, ?_, hspare⟩, ?_, ?_⟩
  · rw [h.address]
    exact h.data
  · rw [spans, filter_eq_nil_iff.mpr hnot, h.ids]
    exact ⟨by simp, .nil, by simp, by simp, by simp, by simp⟩
  · rw [h.ids, blanks_zero]
    exact h.freeChunks

include h in
lemma Sound.feed (hfeed : Feedable s ptr size) :
    Sound (s.feedBlock ptr size).heapBlocks (s.feedBlock ptr size).totalFreeBytes live := by
  obtain ⟨hsize, hspace, hspare, hapart⟩ := hfeed
  have hperm := feedBlock_perm s ptr size
  have htotal : (s.feedBlock ptr size).totalFreeBytes = s.totalFreeBytes +
    (layOut ptr size defaultChunkSize).chunkCount * 32 := rfl
  have hbs := freeBytesOf_feedBlock s ptr size
  have hfresh := layOut_fresh hsize hspace
  generalize layOut ptr size defaultChunkSize = b at hperm htotal hbs hspare hfresh
  have haddr := hfresh.address
  have hdata := hfresh.data
  have hend := hfresh.dataEnd
  have hnot : ∀ a ∈ live, ¬ b.owns a := by
    intro a ha
    obtain ⟨u, hu, howns, -⟩ := h.owned a ha
    have hotherData := LaidOut.address_lt_data (h.shows u hu).laidOut
    have hr := hapart u hu
    rw [owns_iff] at howns ⊢
    omega
  refine ⟨?_, ?_, ?_, h.aligned, ?_⟩
  · intro u hu
    rcases mem_cons.mp (hperm.mem_iff.mp hu) with rfl | hold
    · exact hfresh.shows hspare hnot
    · exact h.shows u hold
  · rw [(hperm.map _).pairwise_iff Or.symm, map_cons, pairwise_cons]
    refine ⟨?_, h.apart⟩
    intro extent hextent
    obtain ⟨u, hu, rfl⟩ := mem_map.mp hextent
    have hr := hapart u hu
    omega
  · intro a ha
    obtain ⟨u, hu, howns⟩ := h.owned a ha
    exact ⟨u, hperm.mem_iff.mpr (mem_cons_of_mem _ hu), howns⟩
  · rw [htotal, h.total, hbs, freeBytes, hfresh.freeChunks, hfresh.chunkSize]
    exact add_comm _ _

end

variable {a : Allocation} {blocks blocks' : List HeapBlock} {total : Nat}

section

/-- What `allocate` does to the list of blocks. -/
inductive TakenFrom (a : Allocation) : List HeapBlock → List HeapBlock → Prop where
  | intro (front : List HeapBlock) {heap : HeapBlock} (back : List HeapBlock) {heap' : HeapBlock}
      {first id : Nat} (hptr : a.ptr = heap.data + first * 32) (haligned : a.alignment ∣ a.ptr)
      (htaken : HeapBlock.Taken heap heap' ⟨first, a.chunks⟩ id) :
      TakenFrom a (front ++ heap :: back) (front ++ heap' :: back)

lemma TakenFrom.cons (b : HeapBlock) (h : TakenFrom a blocks blocks') : TakenFrom a (b :: blocks) (b :: blocks') := by
  cases h with
  | intro xs ys hptr hal htaken => exact .intro (b :: xs) ys hptr hal htaken

variable {bs al : Nat}

/-- A pointer to the lowest free chunks that meet a request, in the first block that has some. -/
def FirstFit (bytes alignment : Nat) (blocks : List HeapBlock) (ptr : Nat) : Prop :=
  ∃ front heap back first, blocks = front ++ heap :: back ∧
    (∀ other ∈ front, ∀ chunk, ¬other.Vacant bytes alignment chunk) ∧ heap.Vacant bytes alignment first ∧
    (∀ chunk, heap.Vacant bytes alignment chunk → first ≤ chunk) ∧ ptr = heap.data + first * heap.chunkSize

lemma FirstFit.cons (h : FirstFit bs al blocks ptr)
    (hnone : ∀ c, ¬b.Vacant bs al c) : FirstFit bs al (b :: blocks) ptr := by
  obtain ⟨xs, taken, ys, first, rfl, hfront, hfirst⟩ := h
  exact ⟨b :: xs, taken, ys, first, rfl, forall_mem_cons.mpr ⟨hnone, hfront⟩, hfirst⟩

lemma takeFirst_spec (hblocks : ∀ b ∈ blocks, b.Shows live) (hbs : bs ≠ 0) (hpower : al.isPowerOfTwo) :
    (takeFirst bs al blocks = .ok none ∧ ∀ b ∈ blocks, ∀ c, ¬b.Vacant bs al c) ∨ ∃ blocks' ptr,
    takeFirst bs al blocks = .ok (some (blocks', ptr, Allocation.chunks ⟨ptr, bs, al⟩ * 32)) ∧
    TakenFrom ⟨ptr, bs, al⟩ blocks blocks' ∧ FirstFit bs al blocks ptr := by
  induction blocks with
  | nil => exact .inl ⟨rfl, by simp⟩
  | cons b ts ih =>
    obtain ⟨hheap, hrest⟩ := forall_mem_cons.mp hblocks
    rcases take_spec hheap.laidOut hheap.counted hbs hpower with
      ⟨htake, hnone⟩ | ⟨heap', first, id, htake, htaken, hvacant, hleast⟩
    · rw [takeFirst, htake, ok_bind]
      rcases ih hrest with ⟨hrun, hempty⟩ | ⟨blocks', ptr, hrun, htaken, hfit⟩
      · simp only [hrun, ok_bind]
        exact .inl ⟨rfl, forall_mem_cons.mpr ⟨hnone, hempty⟩⟩
      · simp only [hrun, ok_bind]
        exact .inr ⟨_, ptr, rfl, htaken.cons b, hfit.cons hnone⟩
    · have hsize := hheap.laidOut.chunkSize
      have hal := hvacant.aligned
      rw [hsize] at hal
      rw [takeFirst, htake, ok_bind]
      refine .inr ⟨heap' :: ts, _, ?_, .intro [] ts rfl hal htaken, [], b, ts, first, rfl, by simp,
        hvacant, hleast, by rw [hsize]⟩
      have hneeded : 1 + (bs - 1) / 32 = (bs + 31) / 32 := by omega
      dsimp only
      rw [chunksNeeded, htaken.resembles.chunkSize, hsize, hneeded]
      rfl

lemma Sound.takenFrom (h : Sound blocks total live) (htaken : TakenFrom a blocks blocks')
    (hbs : a.bytes ≠ 0) : Sound blocks' (total - a.chunks * 32) (a :: live) := by
  cases htaken with
  | intro xs ys hptr hal htaken => exact h.taken htaken hbs hptr hal

variable {s' : HeapAllocator} {bytesLeft : Nat}

include h

lemma Sound.refill {refill : Refill} (hr : ∀ r, refill = .region r → Feedable s r.mBegin r.length)
    (href : s.refillIfNeeded bytesLeft refill = .ok s') : Sound s'.heapBlocks s'.totalFreeBytes live := by
  cases refill with
  | locked =>
    cases href
    exact h
  | uninitialized =>
    rw [refillIfNeeded] at href
    split at href
    · cases href
      exact h
    · split at href
      · cases href
      · cases href
        exact h
  | region r =>
    rw [refillIfNeeded] at href
    split at href
    · cases href
      exact h
    · cases href
      exact h.feed (hr r rfl)

/-- The part of `allocate` behind the refill runs to its end: it returns or finds no room. -/
lemma Sound.allocateRefilled_eq (hbs : bs ≠ 0) (ha : countSetBits al = 1 ∧ al ≤ 4096) : (s.allocateRefilled bs al =
          .error (outOfMemory { s with callsToAllocate := s.callsToAllocate + 1 } bs) ∧
        ∀ b ∈ s.heapBlocks, ∀ c, ¬b.Vacant bs al c) ∨
      ∃ blocks' ptr, s.allocateRefilled bs al = .ok
          ({ s with
              heapBlocks := blocks'
              totalFreeBytes := s.totalFreeBytes - Allocation.chunks ⟨ptr, bs, al⟩ * 32
              callsToAllocate := s.callsToAllocate + 1 }, ptr) ∧
        TakenFrom ⟨ptr, bs, al⟩ s.heapBlocks blocks' ∧
        FirstFit bs al s.heapBlocks ptr := by
  have hpower := isPowerOfTwo_of_countSetBits ha.1 ha.2
  rcases takeFirst_spec h.shows hbs hpower with ⟨htake, hnone⟩ | ⟨blocks', ptr, htake, htaken, hfit⟩
  · refine .inl ⟨?_, hnone⟩
    rw [allocateRefilled, htake]
    rfl
  · refine .inr ⟨blocks', ptr, ?_, htaken, hfit⟩
    rw [allocateRefilled, htake]
    rfl

lemma Sound.allocate {refill : Refill} (hr : ∀ r, refill = .region r → Feedable s r.mBegin r.length)
    (hcall : s.allocate bs al refill = .ok (s', ptr)) :
    Sound s'.heapBlocks s'.totalFreeBytes (⟨ptr, bs, al⟩ :: live) := by
  unfold HeapAllocator.allocate at hcall
  split at hcall
  · cases hcall
  · rename_i hbs
    split at hcall
    · cases hcall
    · rename_i ha
      obtain ⟨refilled, href, hcall⟩ := of_bind hcall
      have hsound := h.refill hr href
      have halign : countSetBits al = 1 ∧ al ≤ 4096 := by omega
      rcases hsound.allocateRefilled_eq (show bs ≠ 0 by omega) halign with
        ⟨hnone, -⟩ | ⟨blocks', ptr', hok, htaken, -⟩
      · rw [hnone] at hcall
        cases hcall
      · rw [hok] at hcall
        cases hcall
        exact hsound.takenFrom htaken (by dsimp only; omega)

end

lemma clearFirst_append {xs : List HeapBlock} (ys : List HeapBlock) {heap' : HeapBlock}
    {freed : Nat} (hfront : ∀ u ∈ xs, u.contains ptr = false) (hheap : b.contains ptr = true)
    (hclear : b.clear ptr (4 * b.bitmap.length + 1) (b.whichBit ptr) 0 0 = .ok (heap', freed)) :
    clearFirst ptr (xs ++ b :: ys) = .ok (xs ++ heap' :: ys, freed) := by
  induction xs with
  | nil =>
    rw [nil_append, clearFirst, if_pos hheap, hclear]
    rfl
  | cons u xs ih =>
    have hu := hfront u (by simp)
    rw [cons_append, clearFirst, hu]
    simp only [Bool.false_eq_true, if_false, ih fun c hc => hfront c (by simp [hc]), ok_bind]
    rfl

/-- What `free` does: in the block that owns the allocation it clears the chunks of the allocation,
and it changes no other block. -/
inductive FreedFrom (a : Allocation) : List HeapBlock → List HeapBlock → Prop where
  | intro (front : List HeapBlock) {heap : HeapBlock} (back : List HeapBlock) {heap' : HeapBlock}
      (howns : heap.owns a) (hcleared : HeapBlock.Cleared heap heap' (heap.span a)) :
      FreedFrom a (front ++ heap :: back) (front ++ heap' :: back)

include h in
lemma Sound.free (ha : a ∈ live) :
    ∃ blocks', s.free a.ptr = .ok { s with
        heapBlocks := blocks'
        totalFreeBytes := s.totalFreeBytes + a.chunks * 32
        callsToFree := s.callsToFree + 1 } ∧
      FreedFrom a s.heapBlocks blocks' := by
  obtain ⟨b, hmem, howns, hdvd⟩ := h.owned a ha
  obtain ⟨xs, ys, hblocks⟩ := append_of_mem hmem
  have hshows := h.shows b hmem
  rw [hblocks] at h ⊢
  obtain ⟨hge, hlt⟩ := owns_iff.mp howns
  have hspan : b.span a ∈ b.spans live := mem_map_of_mem (mem_filter.mpr ⟨ha, howns⟩)
  obtain ⟨heap', hclear, hclr⟩ := clear_spec a.ptr hshows.tagged hspan hshows.laidOut.spare
  have hbit : b.whichBit a.ptr = 2 * (b.span a).first := by
    rw [whichBit, hshows.laidOut.chunkSize, mul_comm]
    rfl
  have hcon : b.contains a.ptr = true := by simp [HeapBlock.contains, hge, hlt.le]
  have hne : a.ptr ≠ 0 := by
    have haddr := LaidOut.address_lt_data hshows.laidOut
    omega
  rw [← hbit, hshows.laidOut.chunkSize] at hclear
  have hfirst := clearFirst_append ys (fun u hu => h.contains_eq_false (mem_append_left ys hu) howns) hcon hclear
  refine ⟨xs ++ heap' :: ys, ?_, .intro xs ys howns hclr⟩
  rw [HeapAllocator.free, if_neg hne, hblocks, hfirst]
  rfl

lemma Sound.freedFrom {before after : List Allocation} (h : Sound blocks total (before ++ a :: after))
    (hfreed : FreedFrom a blocks blocks') : Sound blocks' (total + a.chunks * 32) (before ++ after) := by
  cases hfreed with
  | intro xs ys howns hclr => exact h.cleared howns hclr

end UltraOS.HeapAllocator
