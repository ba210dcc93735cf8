import UltraOS.Memory.HeapAllocator.Block

/-!
# The invariant of the kernel heap

The blocks are related to the allocations that are live: each allocation is a run of chunks of the
block that owns its pointer, the map of a block shows exactly the runs of its live allocations, and
the counters count the chunks that are left. Feeding a block, allocating and freeing preserve this.
-/

namespace UltraOS

open TaggedRuns List HeapBlock

/-- A pointer that `allocate` returned for a request and that was not freed since. -/
structure Allocation where
  ptr : Nat
  bytes : Nat
  alignment : Nat
deriving DecidableEq

def Allocation.chunks (a : Allocation) : Nat := (a.bytes + 31) / 32

variable {id : Nat}

namespace HeapBlock

def owns (heap : HeapBlock) (a : Allocation) : Bool := heap.data ≤ a.ptr && a.ptr < heap.dataEnd

def span (heap : HeapBlock) (a : Allocation) : Span := ⟨(a.ptr - heap.data) / 32, a.chunks⟩

def spans (heap : HeapBlock) (live : List Allocation) : List Span := (live.filter heap.owns).map heap.span

/-- A block whose map shows the live allocations that it owns. -/
structure Shows (heap : HeapBlock) (live : List Allocation) : Prop where
  laidOut : LaidOut heap
  tagged : Tagged (chunkId heap.bitmap) heap.chunkCount (heap.spans live)
  counted : heap.freeChunks = blanks (chunkId heap.bitmap) heap.chunkCount

variable {heap heap' : HeapBlock} {live xs ys : List Allocation} {a : Allocation}

lemma owns_iff : heap.owns a = true ↔ heap.data ≤ a.ptr ∧ a.ptr < heap.dataEnd := by simp [owns]

lemma spans_cons_of_owns (h : heap.owns a) : heap.spans (a :: live) = heap.span a :: heap.spans live := by
  simp [spans, h]

lemma spans_cons_of_not_owns (h : ¬ heap.owns a) : heap.spans (a :: live) = heap.spans live := by simp [spans, h]

lemma spans_append (xs ys : List Allocation) : heap.spans (xs ++ ys) = heap.spans xs ++ heap.spans ys := by simp [spans]

lemma Shows.cons_of_not_owns (h : Shows heap live) (hnot : ¬ heap.owns a) : Shows heap (a :: live) :=
  ⟨h.laidOut, by rw [spans_cons_of_not_owns hnot]; exact h.tagged, h.counted⟩

lemma Shows.erase_of_not_owns (h : Shows heap (xs ++ a :: ys)) (hnot : ¬ heap.owns a) : Shows heap (xs ++ ys) := by
  refine ⟨h.laidOut, ?_, h.counted⟩
  have htagged := h.tagged
  rwa [spans_append, spans_cons_of_not_owns hnot, ← spans_append] at htagged

structure Resembles (heap heap' : HeapBlock) : Prop where
  address : heap'.address = heap.address
  data : heap'.data = heap.data
  chunkCount : heap'.chunkCount = heap.chunkCount
  chunkSize : heap'.chunkSize = heap.chunkSize
  length : heap'.bitmap.length = heap.bitmap.length

variable {r : Span}

lemma Taken.resembles (h : Taken heap heap' r id) : Resembles heap heap' :=
  ⟨by rw [h.eq], by rw [h.eq], by rw [h.eq], by rw [h.eq], h.marked.length⟩

lemma Cleared.resembles (h : Cleared heap heap' r) : Resembles heap heap' :=
  ⟨by rw [h.eq], by rw [h.eq], by rw [h.eq], by rw [h.eq], h.length⟩

lemma Resembles.dataEnd (h : Resembles heap heap') : heap'.dataEnd = heap.dataEnd := by
  rw [HeapBlock.dataEnd, h.data, h.chunkCount, h.chunkSize, HeapBlock.dataEnd]

lemma Resembles.laidOut (h : Resembles heap heap') (hlaidOut : LaidOut heap) : LaidOut heap' := by
  refine ⟨?_, ?_, ?_, ?_⟩
  · rw [h.chunkSize, hlaidOut.chunkSize]
  · rw [h.data]
    exact hlaidOut.aligned
  · rw [h.data, h.address, h.length]
    exact hlaidOut.data
  · rw [h.chunkCount, h.length]
    exact hlaidOut.spare

lemma Resembles.owns (h : Resembles heap heap') (a : Allocation) : heap'.owns a = heap.owns a := by
  rw [HeapBlock.owns, h.data, h.dataEnd, HeapBlock.owns]

lemma Resembles.spans (h : Resembles heap heap') (live : List Allocation) : heap'.spans live = heap.spans live := by
  unfold HeapBlock.spans HeapBlock.owns span
  rw [h.data, h.dataEnd]

lemma Shows.taken (h : Shows heap live) (htaken : Taken heap heap' r id) (hlen : 0 < r.length)
    (hptr : a.ptr = heap.data + r.first * 32) (hchunks : a.chunks = r.length) :
    heap.owns a ∧ Shows heap' (a :: live) ∧ heap'.freeChunks + r.length = heap.freeChunks := by
  have hin := htaken.inside
  have hresm := htaken.resembles
  have howns : heap.owns a := by
    rw [owns_iff, hptr, dataEnd, h.laidOut.chunkSize]
    omega
  have hspan : heap.span a = r := by
    unfold span
    rw [hptr, hchunks, Nat.add_sub_cancel_left, Nat.mul_div_cancel _ (by decide)]
  have hblanks := blanks_fill htaken.nonzero hin htaken.blank
  have hfree : heap'.freeChunks = heap.freeChunks - r.length := by rw [htaken.eq]
  refine ⟨howns, ⟨hresm.laidOut h.laidOut, ?_, ?_⟩, ?_⟩
  · rw [hresm.spans, spans_cons_of_owns howns, hspan, htaken.marked.ids, hresm.chunkCount]
    exact h.tagged.insert hlen hin htaken.blank htaken.nonzero htaken.left htaken.right
  · rw [hfree, h.counted, htaken.marked.ids, hresm.chunkCount, ← hblanks, Nat.add_sub_cancel]
  · rw [hfree, h.counted, ← hblanks, Nat.add_sub_cancel]

lemma Shows.cleared (h : Shows heap (xs ++ a :: ys)) (howns : heap.owns a)
    (hclr : Cleared heap heap' (heap.span a)) : Shows heap' (xs ++ ys) := by
  have hresm := hclr.resembles
  have htagged := h.tagged
  rw [spans_append, spans_cons_of_owns howns] at htagged
  have hmem : heap.span a ∈ heap.spans xs ++ heap.span a :: heap.spans ys := by simp
  have hblanks := blanks_fill_zero (htagged.inside _ hmem).2 (htagged.uniform _ hmem) (htagged.nonzero _ hmem)
  refine ⟨hresm.laidOut h.laidOut, ?_, ?_⟩
  · rw [hresm.spans, spans_append, hclr.ids, hresm.chunkCount]
    exact htagged.erase
  · rw [hclr.ids, hresm.chunkCount, hblanks, ← h.counted, hclr.eq]

end HeapBlock

namespace HeapAllocator

def freeBytesOf : List HeapBlock → Nat
  | [] => 0
  | heap :: rest => heap.freeChunks * heap.chunkSize + freeBytesOf rest

lemma freeBytesOf_append (xs ys : List HeapBlock) : freeBytesOf (xs ++ ys) = freeBytesOf xs + freeBytesOf ys := by
  induction xs with
  | nil => exact (zero_add _).symm
  | cons heap xs ih => rw [cons_append, freeBytesOf, ih, freeBytesOf, add_assoc]

lemma freeBytesOf_split (xs : List HeapBlock) (heap : HeapBlock) (ys : List HeapBlock) :
    freeBytesOf (xs ++ heap :: ys) = heap.freeBytes + (freeBytesOf xs + freeBytesOf ys) := by
  rw [freeBytesOf_append, freeBytesOf, freeBytes, add_left_comm]

/-- The blocks are apart, show the live allocations, and own them; `totalFreeBytes` is what they
have left. -/
structure Sound (blocks : List HeapBlock) (totalFreeBytes : Nat) (live : List Allocation) : Prop where
  shows : ∀ heap ∈ blocks, heap.Shows live
  apart : (blocks.map fun heap => (heap.address, heap.dataEnd)).Pairwise fun p q => p.2 ≤ q.1 ∨ q.2 ≤ p.1
  owned : ∀ a ∈ live, ∃ heap ∈ blocks, heap.owns a ∧ 32 ∣ a.ptr - heap.data
  aligned : ∀ a ∈ live, a.alignment ∣ a.ptr
  total : totalFreeBytes = freeBytesOf blocks

variable {xs ys : List HeapBlock} {heap heap' u : HeapBlock} {total : Nat} {live live' : List Allocation}

lemma LaidOut.address_lt_data (h : heap.LaidOut) : heap.address < heap.data := by
  rw [h.data, headerSize]
  omega

variable (h : Sound (xs ++ heap :: ys) total live) (hu : u ∈ xs ++ ys) {a : Allocation}

include h hu in
lemma Sound.contains_eq_false (howns : heap.owns a) : u.contains a.ptr = false := by
  obtain ⟨hge, hlt⟩ := owns_iff.mp howns
  have hmem : u ∈ xs ++ heap :: ys := by rcases mem_append.mp hu with h | h <;> simp [h]
  have hheap := LaidOut.address_lt_data (h.shows heap (by simp)).laidOut
  have hother' := LaidOut.address_lt_data (h.shows u hmem).laidOut
  have hapart : u.dataEnd ≤ heap.address ∨ heap.dataEnd ≤ u.address := by
    have hpairwise := h.apart
    rw [map_append, map_cons, pairwise_append, pairwise_cons] at hpairwise
    obtain ⟨-, ⟨hback, -⟩, hfront⟩ := hpairwise
    rcases mem_append.mp hu with hin | hin
    · exact hfront _ (mem_map_of_mem hin) (heap.address, heap.dataEnd) (by simp)
    · exact (hback _ (mem_map_of_mem hin)).symm
  unfold HeapBlock.contains
  simp only [ge_iff_le, Bool.and_eq_false_iff, decide_eq_false_iff_not]
  omega

include h hu in
lemma Sound.not_owns (howns : heap.owns a) : ¬ u.owns a := by
  intro hown
  have hcon := h.contains_eq_false hu howns
  obtain ⟨hge, hlt⟩ := owns_iff.mp hown
  simp [HeapBlock.contains, hge, hlt.le] at hcon

include h in
lemma Sound.replace (hresm : heap.Resembles heap') (hshows : heap'.Shows live') (hoth : ∀ u ∈ xs ++ ys, u.Shows live')
    (howned : ∀ a ∈ live', ∃ u ∈ xs ++ heap :: ys, u.owns a ∧ 32 ∣ a.ptr - u.data)
    (hal : ∀ a ∈ live', a.alignment ∣ a.ptr) {total' : Nat}
    (htotal : total' + heap.freeBytes = total + heap'.freeBytes) : Sound (xs ++ heap' :: ys) total' live' := by
  refine ⟨?_, ?_, ?_, hal, ?_⟩
  · intro c hc
    rcases mem_append.mp hc with hin | hin
    · exact hoth c (mem_append_left ys hin)
    · rcases mem_cons.mp hin with rfl | hin
      · exact hshows
      · exact hoth c (mem_append_right xs hin)
  · have hapart := h.apart
    rwa [map_append, map_cons, ← hresm.address, ← hresm.dataEnd,
      ← map_cons (f := fun heap : HeapBlock => (heap.address, heap.dataEnd)),
      ← map_append] at hapart
  · intro a ha
    obtain ⟨c, hc, hown⟩ := howned a ha
    rcases mem_append.mp hc with hin | hin
    · exact ⟨c, by simp [hin], hown⟩
    · rcases mem_cons.mp hin with rfl | hin
      · refine ⟨heap', by simp, ?_⟩
        rwa [hresm.owns, hresm.data]
      · exact ⟨c, by simp [hin], hown⟩
  · have hold := h.total
    rw [freeBytesOf_split] at hold ⊢
    omega

include h in
lemma Sound.taken {first : Nat} (htaken : HeapBlock.Taken heap heap' ⟨first, a.chunks⟩ id)
    (hbs : a.bytes ≠ 0) (hptr : a.ptr = heap.data + first * 32) (hal : a.alignment ∣ a.ptr) :
    Sound (xs ++ heap' :: ys) (total - a.chunks * 32) (a :: live) := by
  have hshows := h.shows heap (by simp)
  have hpos : 0 < a.chunks := by
    unfold Allocation.chunks
    omega
  obtain ⟨howns, hshows', hfree⟩ := hshows.taken htaken hpos hptr rfl
  have hbs : heap'.freeBytes + a.chunks * 32 = heap.freeBytes := by
    simp only [freeBytes, htaken.resembles.chunkSize, hshows.laidOut.chunkSize] at hfree ⊢
    omega
  have htotal : a.chunks * 32 ≤ total := by
    rw [h.total, freeBytesOf_split]
    omega
  refine h.replace htaken.resembles hshows' ?_ ?_ ?_ (by omega)
  · intro u hu
    have hmem : u ∈ xs ++ heap :: ys := by rcases mem_append.mp hu with h | h <;> simp [h]
    exact (h.shows u hmem).cons_of_not_owns (h.not_owns hu howns)
  · refine forall_mem_cons.mpr ⟨⟨heap, by simp, howns, ?_⟩, h.owned⟩
    rw [hptr, Nat.add_sub_cancel_left]
    exact Nat.dvd_mul_left 32 first
  · exact forall_mem_cons.mpr ⟨hal, h.aligned⟩

lemma Sound.cleared {before after : List Allocation} (h : Sound (xs ++ heap :: ys) total (before ++ a :: after))
    (howns : heap.owns a) (hclr : HeapBlock.Cleared heap heap' (heap.span a)) : Sound (xs ++ heap' :: ys)
    (total + a.chunks * 32) (before ++ after) := by
  have hshows := h.shows heap (by simp)
  have hfree : heap'.freeBytes = heap.freeBytes + a.chunks * 32 := by
    rw [freeBytes, hclr.chunkSize, hclr.eq, freeBytes, hshows.laidOut.chunkSize, add_mul]
    rfl
  have hmem : ∀ b ∈ before ++ after, b ∈ before ++ a :: after := by
    intro b hb
    rcases mem_append.mp hb with hb | hb <;> simp [hb]
  refine h.replace hclr.resembles (hshows.cleared howns hclr) ?_
    (fun b hb => h.owned b (hmem b hb)) (fun b hb => h.aligned b (hmem b hb)) (by omega)
  intro u hu
  have hmem : u ∈ xs ++ heap :: ys := by rcases mem_append.mp hu with h | h <;> simp [h]
  exact (h.shows u hmem).erase_of_not_owns (h.not_owns hu howns)

end HeapAllocator

end UltraOS
