import UltraOS.Library.Machine
import UltraOS.Userland.LibC.Malloc.Search

/-!
# Runs of malloc and free

As long as every request is a hole that the search sees in the first block, the bitmap shows the live
allocations and the counter is right. The first request without such a hole breaks this: a second block is
added whose bitmap does not show the new allocation, the chunks behind the end of a unit are handed out
unmarked, or the call does not return.
-/

namespace UltraOS.LibC

open BitWords TaggedRuns List

def bytesIn (blk : HeapBlock) : List Piece → Nat
  | [] => 0
  | piece :: pieces =>
    (if blk.data ≤ piece.address ∧ piece.address < blk.data + blockSize then piece.size else 0) + bytesIn blk pieces

structure Agrees (h : Heap) : Prop where
  disjoint : h.live.Pairwise fun l r => l.address + l.size ≤ r.address ∨ r.address + r.size ≤ l.address
  inside : ∀ piece ∈ h.live, ∃ blk ∈ h.blocks,
    blk.data ≤ piece.address ∧ piece.address + piece.size ≤ blk.data + blockSize
  mapped : ∀ blk ∈ h.blocks, ∀ k < blockSize / chunkSize, bit blk.bitmap k = true ↔
    ∃ piece ∈ h.live, piece.address ≤ blk.data + k * chunkSize ∧ blk.data + k * chunkSize < piece.address + piece.size
  counted : ∀ blk ∈ h.blocks, blk.bytesLeft + bytesIn blk h.live = blockSize

def chunksFor (size : Nat) : Nat := roundToChunks (size + headerSize) / chunkSize

def MallocFits (s : Program) : HeapOp → Prop
  | .malloc size => ∃ blk ∈ s.heap.blocks, Visible blk.bitmap (chunksFor size)
  | .free _ => True

def mallocMachine (os : Nat → Nat) (depth : Nat) : Machine Program HeapOp Fault :=
  ⟨Program.step os depth, Program.Admits⟩

variable {n : Nat}

section

def tags (bitmap : List (BitVec 64)) (k : Nat) : Nat := (bit bitmap k).toNat

variable {bm : List (BitVec 64)} {k : Nat}

lemma tags_eq_zero_iff : tags bm k = 0 ↔ bit bm k = false := Bool.toNat_eq_zero

lemma markBitsStartingAt_spec (set : Bool) (n unitOffset bitOffset : Nat) (bm : List (BitVec 64))
    (hbit : bitOffset < 64) (hin : 64 * unitOffset + bitOffset + n ≤ 64 * bm.length) : ∃ bitmap',
    markBitsStartingAt set n unitOffset bitOffset bm = .ok bitmap' ∧ bitmap'.length = bm.length ∧
    tags bitmap' = fill (tags bm) ⟨64 * unitOffset + bitOffset, n⟩ set.toNat := by
  induction n generalizing unitOffset bitOffset bm with
  | zero => exact ⟨bm, rfl, rfl, (fill_empty _ _ _).symm⟩
  | succ n ih =>
    obtain ⟨unit, hunit⟩ : ∃ unit, bm[unitOffset]? = some unit := ⟨_, List.getElem?_eq_getElem (by omega)⟩
    have hlen : (bm.set unitOffset (writeBit unit bitOffset set)).length = bm.length := length_set
    have hone : tags (bm.set unitOffset (writeBit unit bitOffset set)) =
        fill (tags bm) ⟨64 * unitOffset + bitOffset, 1⟩ set.toNat := by
      funext k
      rw [tags, bit_set hunit hbit]
      by_cases hk : k = 64 * unitOffset + bitOffset
      · rw [if_pos hk, fill_of_holds (Span.holds_singleton.mpr hk)]
      · rw [if_neg hk, fill_of_not_holds fun h => hk (Span.holds_singleton.mp h)]
        rfl
    rw [markBitsStartingAt, hunit]
    dsimp only
    rw [bitsPerUnit, Nat.mod_eq_of_lt hbit]
    split
    · rename_i hlast
      obtain ⟨bitmap', hrun, hlength', htags⟩ := ih (unitOffset + 1) 0 _ (by omega) (by rw [hlen]; omega)
      refine ⟨bitmap', hrun, hlength'.trans hlen, ?_⟩
      rw [htags, hone, show 64 * (unitOffset + 1) + 0 = 64 * unitOffset + bitOffset + 1 by omega, fill_cons]
    · obtain ⟨bitmap', hrun, hlength', htags⟩ := ih unitOffset (bitOffset + 1) _ (by omega) (by rw [hlen]; omega)
      refine ⟨bitmap', hrun, hlength'.trans hlen, ?_⟩
      rw [htags, hone, ← add_assoc, fill_cons]

/-- From a bit behind the end of a unit on, only that unit is written. -/
lemma markBitsStartingAt_astray {set : Bool} {unitOffset bitOffset : Nat} {bitmap' : List (BitVec 64)}
    (hbit : 64 ≤ bitOffset) (hrun : markBitsStartingAt set n unitOffset bitOffset bm = .ok bitmap')
    (hk : 64 * unitOffset + 64 ≤ k) : bit bitmap' k = bit bm k := by
  induction n generalizing bitOffset bm with
  | zero =>
    cases hrun
    rfl
  | succ n ih =>
    rw [markBitsStartingAt] at hrun
    split at hrun
    · cases hrun
    · rename_i unit hunit
      rw [if_neg (show bitOffset + 1 ≠ bitsPerUnit by rw [bitsPerUnit]; omega)] at hrun
      have hmod : bitOffset % bitsPerUnit < 64 := Nat.mod_lt _ (by decide)
      rw [ih (by omega) hrun, bit_set hunit hmod, if_neg (by omega)]

end

section

def pieceAt (data : Nat) (r : Span) : Piece := ⟨data + r.first * chunkSize, r.length * chunkSize⟩

structure Sound (h : Heap) (blk : HeapBlock) (spans : List Span) : Prop where
  blocks : h.blocks = [blk]
  length : blk.bitmap.length = 2048
  data : blk.data ≠ 0
  shown : Shown (tags blk.bitmap) (64 * 2048) spans
  blank : blk.bytesLeft = blanks (tags blk.bitmap) (64 * 2048) * chunkSize
  total : blk.bytesLeft + total spans * chunkSize = blockSize
  live : h.live = spans.map (pieceAt blk.data)
  headers : ∀ r ∈ spans, h.headers (blk.data + r.first * chunkSize) = some ⟨.malloc, r.length * chunkSize⟩

structure Owns (owned : List Nat) (blk : HeapBlock) (spans : List Span) : Prop where
  nodup : owned.Nodup
  live : ∀ ptr ∈ owned, ∃ r ∈ spans, ptr = blk.data + r.first * chunkSize + headerSize

def Holds (s : Program) : Prop := ∃ blk spans, Sound s.heap blk spans ∧ Owns s.owned blk spans

variable {h : Heap} {blk : HeapBlock} {spans : List Span}

lemma bytesIn_map (hin : ∀ r ∈ spans, 0 < r.length ∧ r.first + r.length ≤ 64 * 2048) :
    bytesIn blk (spans.map (pieceAt blk.data)) = total spans * chunkSize := by
  induction spans with
  | nil => rfl
  | cons r spans ih =>
    have hr := hin r mem_cons_self
    rw [map_cons, bytesIn, ih fun s hs => hin s (mem_cons_of_mem r hs), if_pos, TaggedRuns.total, add_mul]
    · rfl
    · unfold pieceAt blockSize chunkSize
      dsimp only
      omega

lemma Sound.agrees (hs : Sound h blk spans) : Agrees h := by
  have huniq : ∀ b ∈ h.blocks, b = blk := by
    intro b hb
    rw [hs.blocks] at hb
    exact mem_singleton.mp hb
  have hmem : blk ∈ h.blocks := by
    rw [hs.blocks]
    exact mem_singleton_self blk
  constructor
  · rw [hs.live, pairwise_map]
    refine hs.shown.disjoint.imp fun {l r} hlr => ?_
    unfold pieceAt chunkSize
    dsimp only
    omega
  · intro p hpiece
    rw [hs.live] at hpiece
    obtain ⟨r, hr, rfl⟩ := mem_map.mp hpiece
    have hin := hs.shown.inside r hr
    refine ⟨blk, hmem, le_self_add, ?_⟩
    unfold pieceAt blockSize chunkSize
    dsimp only
    omega
  · intro b hb k hk
    rw [huniq b hb]
    have hshows := hs.shown.shows k
    rw [Ne, tags_eq_zero_iff, Bool.not_eq_false] at hshows
    rw [hshows, hs.live]
    constructor
    · intro hheld
      obtain ⟨r, hr, hholds⟩ := hheld
      refine ⟨_, mem_map_of_mem hr, ?_⟩
      unfold Span.Holds at hholds
      unfold pieceAt chunkSize
      dsimp only
      omega
    · intro hcov
      obtain ⟨p, hpiece, hge, hlt⟩ := hcov
      obtain ⟨r, hr, rfl⟩ := mem_map.mp hpiece
      refine ⟨r, hr, ?_⟩
      unfold pieceAt chunkSize at hge hlt
      dsimp only at hge hlt
      unfold Span.Holds
      omega
  · intro b hb
    rw [huniq b hb, hs.live, bytesIn_map hs.shown.inside]
    exact hs.total

end

variable {ptr : Nat}

section

variable {os : Nat → Nat} {depth size : Nat} {h : Heap} {blk : HeapBlock} {spans : List Span}

lemma chunksFor_pos (size : Nat) : 0 < chunksFor size := by
  unfold chunksFor roundToChunks headerSize chunkSize
  split <;> omega

lemma roundToChunks_eq (size : Nat) : roundToChunks (size + headerSize) = chunksFor size * chunkSize := by
  unfold chunksFor roundToChunks headerSize chunkSize
  split <;> omega

lemma malloc_eq (hsize : 1 ≤ size ∧ size < mallocThreshold) : malloc os (depth + 1) h size =
    doAlloc os (malloc os depth · nodeSize) h (chunksFor size) >>= fun (h, a) =>
      if a = 0 then .ok (h, 0)
      else .ok ({ writeHeader h a ⟨.malloc, chunksFor size * chunkSize⟩ with
        live := ⟨a, chunksFor size * chunkSize⟩ :: h.live }, a + headerSize) := by
  rw [malloc, if_neg (by omega), if_neg (by omega), roundToChunks_eq]
  dsimp only
  rw [Nat.mul_div_cancel _ (by decide)]
  rfl

lemma doAlloc_eq (hblocks : h.blocks = [blk]) (mallocNode : Heap → Run (Heap × Nat)) (chunks : Nat) :
    doAlloc os mallocNode h chunks = takeChunks blk chunks >>= fun
      | some (blk, a) => .ok ({ h with blocks := [blk] }, a)
      | none => addHeapBlock os mallocNode h >>= fun (h, blk) =>
        .ok ({ h with
          blocks := h.blocks ++ [{ blk with bytesLeft := blk.bytesLeft - chunks * chunkSize }] },
          blk.data) := by
  rw [doAlloc, hblocks, takeFirst]
  cases takeChunks blk chunks with
  | error e => rfl
  | ok taken =>
    cases taken with
    | none | some taken => rfl

lemma takeChunks_of_visible (hs : Sound h blk spans) {chunks : Nat} (hpos : 0 < chunks)
    (hvis : Visible blk.bitmap chunks) : ∃ first bitmap', takeChunks blk chunks = .ok (some ({ blk with
        bitmap := bitmap', bytesLeft := blk.bytesLeft - chunks * chunkSize },
        blk.data + first * chunkSize)) ∧
      bitmap'.length = blk.bitmap.length ∧ tags bitmap' = fill (tags blk.bitmap) ⟨first, chunks⟩ 1 ∧
      first + chunks ≤ 64 * 2048 ∧ (∀ cell, (⟨first, chunks⟩ : Span).Holds cell → tags blk.bitmap cell = 0) ∧
      blanks (tags bitmap') (64 * 2048) + chunks = blanks (tags blk.bitmap) (64 * 2048) := by
  rcases findContiguousBits_settles blk.bitmap hpos with ⟨_, u, b, hfound, hroom⟩ | ⟨hnot, _⟩
  · obtain ⟨hbit, hin, hclear⟩ := hroom
    obtain ⟨bitmap', hmark, hlen, htags⟩ := markBitsStartingAt_spec true chunks u b blk.bitmap hbit hin
    rw [hs.length] at hin
    have hblank : ∀ cell, (⟨64 * u + b, chunks⟩ : Span).Holds cell → tags blk.bitmap cell = 0 :=
      fun cell hcell => tags_eq_zero_iff.mpr (hclear cell hcell.1 hcell.2)
    have hn : blanks (fill (tags blk.bitmap) ⟨64 * u + b, chunks⟩ 1) (64 * 2048) + chunks =
        blanks (tags blk.bitmap) (64 * 2048) := blanks_fill (by decide) hin hblank
    refine ⟨64 * u + b, bitmap', ?_, hlen, htags, hin, hblank, by rw [htags]; exact hn⟩
    have hfit : ¬blk.bytesLeft < chunks * chunkSize := by
      rw [hs.blank]
      exact Nat.not_lt.mpr (Nat.mul_le_mul_right _ (by omega))
    rw [takeChunks, if_neg hfit, hfound]
    dsimp only
    rw [markReservedStartingAt, hmark, ok_bind]
    have ha : blk.data + u * bitsPerUnit * chunkSize + b * chunkSize = blk.data + (64 * u + b) * chunkSize := by
      unfold bitsPerUnit chunkSize
      omega
    rw [ha]
    rfl
  · exact absurd hvis hnot

lemma Sound.malloc (os : Nat → Nat) (depth : Nat) (hs : Sound h blk spans)
    (hsize : 1 ≤ size ∧ size < mallocThreshold) (hvis : Visible blk.bitmap (chunksFor size)) :
    ∃ h' blk' first, malloc os (depth + 1) h size = .ok (h', blk.data + first * chunkSize + headerSize) ∧
    blk'.data = blk.data ∧ Sound h' blk' (⟨first, chunksFor size⟩ :: spans) := by
  have hpos := chunksFor_pos size
  obtain ⟨first, bitmap', htake, hlen, htags, hin, hblank, hn⟩ := takeChunks_of_visible hs hpos hvis
  have hne : blk.data + first * chunkSize ≠ 0 := by
    have hdata := hs.data
    omega
  rw [malloc_eq hsize, doAlloc_eq hs.blocks, htake, ok_bind]
  rw [ok_bind]
  dsimp only
  rw [if_neg hne]
  have hleft : chunksFor size * chunkSize ≤ blk.bytesLeft := by
    rw [hs.blank]
    exact Nat.mul_le_mul_right _ (by omega)
  refine ⟨_, { blk with
    bitmap := bitmap', bytesLeft := blk.bytesLeft - chunksFor size * chunkSize }, first, rfl, rfl, ?_⟩
  exact {
    blocks := rfl
    length := hlen.trans hs.length
    data := hs.data
    shown := by
      rw [htags]
      exact hs.shown.insert hpos hin hblank (by decide)
    blank := by rw [hs.blank, ← hn, add_mul, Nat.add_sub_cancel]
    total := by
      have htotal := hs.total
      rw [TaggedRuns.total, add_mul]
      dsimp only
      omega
    live := by
      rw [hs.live]
      rfl
    headers := by
      intro r hr
      dsimp only [writeHeader]
      rcases mem_cons.mp hr with rfl | hr
      · exact if_pos rfl
      · rw [if_neg]
        · exact hs.headers r hr
        · intro heq
          have hfirst : r.first = first := by
            unfold chunkSize at heq
            omega
          have hcell := Span.holds_first (hs.shown.inside r hr).1
          refine (hs.shown.shows r.first).mpr ⟨r, hr, hcell⟩ (hblank _ ?_)
          unfold Span.Holds
          dsimp only
          omega }

/-- A request without such a hole ends in a heap whose bitmaps do not show it. -/
lemma not_agrees_of_malloc (hos : ∀ k, os k ≠ 0) (hs : Sound h blk spans)
    (hsize : 1 ≤ size ∧ size < mallocThreshold) (hvis : ¬Visible blk.bitmap (chunksFor size))
    {h' : Heap} (hrun : LibC.malloc os (depth + 1) h size = .ok (h', ptr)) : ¬Agrees h' := by
  have hpos := chunksFor_pos size
  rw [malloc_eq hsize, doAlloc_eq hs.blocks] at hrun
  obtain ⟨⟨h1, a⟩, halloc, hrun⟩ := of_bind hrun
  obtain ⟨taken, htake, halloc⟩ := of_bind halloc
  dsimp only at hrun
  -- an address that its block holds and its bitmap does not show
  have hclash : ∀ b ∈ h1.blocks, ∀ k < blockSize / chunkSize, bit b.bitmap k = false →
      a = b.data + k * chunkSize → a ≠ 0 → ¬Agrees h' := by
    intro b hb k hk hclear ha hne hagrees
    rw [if_neg hne] at hrun
    cases hrun
    have hcov : b.data + k * chunkSize < a + chunksFor size * chunkSize := by
      rw [ha]
      exact Nat.lt_add_of_pos_right (mul_pos hpos (by decide))
    have hset := (hagrees.mapped b hb k hk).mpr ⟨_, mem_cons_self, ha.le, hcov⟩
    rw [hclear] at hset
    cases hset
  cases taken with
  | none =>
    obtain ⟨⟨h2, blk2⟩, hadd, halloc⟩ := of_bind halloc
    cases halloc
    have hblk : blk2 = (newBlock os h).2 := by
      unfold addHeapBlock at hadd
      split at hadd
      · cases hadd
      · obtain ⟨⟨h3, next⟩, _, hadd⟩ := of_bind hadd
        dsimp only at hadd
        split at hadd
        · cases hadd
        · cases hadd
          rfl
    refine hclash _ (mem_append_right _ (mem_singleton_self _)) 0 (by decide) ?_ ?_ ?_
    · rw [hblk]
      exact bit_replicate _ 0
    · exact (add_zero _).symm
    · rw [hblk]
      exact hos _
  | some taken =>
    obtain ⟨blk', address'⟩ := taken
    cases halloc
    rcases findContiguousBits_settles blk.bitmap hpos with ⟨hyes, _⟩ | ⟨_, hnone | ⟨u, b, hfound, hstray⟩⟩
    · exact absurd hyes hvis
    · rw [takeChunks, hnone] at htake
      split at htake
      · cases htake
      · cases htake
    · rw [takeChunks, hfound] at htake
      split at htake
      · cases htake
      · obtain ⟨bitmap', hmark, htake⟩ := of_bind htake
        cases htake
        have hin := hstray.inside
        have hdata := hs.data
        rw [hs.length] at hin
        have hsame := markBitsStartingAt_astray hstray.bit.symm.le hmark (k := 64 * u + 64) le_rfl
        refine hclash _ (mem_singleton_self _) (64 * u + 64) ?_ ?_ ?_ ?_
        · rw [show blockSize / chunkSize = 64 * 2048 from rfl]
          omega
        · exact hsame.trans (hstray.clear _ le_rfl (by omega))
        · dsimp only
          rw [hstray.bit]
          unfold bitsPerUnit chunkSize
          omega
        · dsimp only
          omega

end

section

variable {h : Heap} {blk : HeapBlock} {xs ys : List Span} {r : Span}

lemma Sound.free (hs : Sound h blk (xs ++ r :: ys)) : ∃ h' blk', free h (blk.data + r.first * chunkSize + headerSize) =
    .ok h' ∧ blk'.data = blk.data ∧ Sound h' blk' (xs ++ ys) := by
  have hr : r ∈ xs ++ r :: ys := mem_append_right _ mem_cons_self
  obtain ⟨hlengthPos, hin⟩ := hs.shown.inside r hr
  obtain ⟨bitmap', hmark, hlen, htags⟩ := markBitsStartingAt_spec false r.length (r.first / 64)
    (r.first % 64) blk.bitmap (Nat.mod_lt _ (by decide)) (by rw [hs.length]; omega)
  rw [Nat.div_add_mod] at htags
  have hn : blanks (tags bitmap') (64 * 2048) = blanks (tags blk.bitmap) (64 * 2048) + r.length := by
    rw [htags]
    have hset : ∀ cell, r.Holds cell → tags blk.bitmap cell = 1 := by
      intro cell hcell
      have hne := (hs.shown.shows cell).mpr ⟨r, hr, hcell⟩
      rw [Ne, tags_eq_zero_iff, Bool.not_eq_false] at hne
      rw [tags, hne]
      rfl
    exact blanks_fill_zero hin hset (by decide)
  have hfree : freeChunks (blk.data + r.first * chunkSize) (r.length * chunkSize) [blk] =
      .ok [{ blk with bitmap := bitmap', bytesLeft := blk.bytesLeft + r.length * chunkSize }] := by
    rw [freeChunks, if_pos]
    · dsimp only
      rw [Nat.add_sub_cancel_left, Nat.mul_div_cancel _ (by decide), Nat.mul_div_cancel _ (by decide)]
      exact bind_eq_ok.mpr ⟨bitmap', hmark, rfl⟩
    · unfold blockSize chunkSize
      omega
  have hsub : ∀ s ∈ xs ++ ys, s ∈ xs ++ r :: ys := fun s hs' => ((sublist_cons_self r ys).append_left xs).subset hs'
  have hlive : (h.live.eraseP fun p => p.address == blk.data + r.first * chunkSize) =
      (xs ++ ys).map (pieceAt blk.data) := by
    have hu : ∀ s ∈ xs, ¬(pieceAt blk.data s).address = blk.data + r.first * chunkSize := by
      intro s hs' heq
      have hapart := (pairwise_append.mp hs.shown.disjoint).2.2 s hs' r mem_cons_self
      have hspos := (hs.shown.inside s (hsub s (mem_append_left _ hs'))).1
      unfold pieceAt chunkSize at heq
      dsimp only at heq
      omega
    rw [hs.live, map_append, map_cons, eraseP_append_right, eraseP_cons_of_pos, map_append]
    · exact beq_self_eq_true _
    · intro p hpiece heq
      obtain ⟨s, hs', rfl⟩ := mem_map.mp hpiece
      exact hu s hs' (beq_iff_eq.mp heq)
  have hheader : blk.data + r.first * chunkSize + headerSize - headerSize =
      blk.data + r.first * chunkSize := Nat.add_sub_cancel _ _
  refine ⟨{ h with
    blocks := [{ blk with bitmap := bitmap', bytesLeft := blk.bytesLeft + r.length * chunkSize }]
    live := (xs ++ ys).map (pieceAt blk.data) },
    { blk with bitmap := bitmap', bytesLeft := blk.bytesLeft + r.length * chunkSize }, ?_, rfl, ?_⟩
  · rw [LibC.free, if_neg (by unfold headerSize; omega), hheader, hs.headers r hr]
    dsimp only
    rw [hs.blocks, hfree, ok_bind, hlive]
    rfl
  · exact {
      blocks := rfl
      length := hlen.trans hs.length
      data := hs.data
      shown := by
        rw [htags]
        exact hs.shown.erase
      blank := by rw [hs.blank, hn, add_mul]
      total := by
        have htotal := hs.total
        rw [total_append, TaggedRuns.total, add_mul, add_mul] at htotal
        rw [total_append, add_mul]
        dsimp only
        omega
      live := rfl
      headers := fun s hs' => hs.headers s (hsub s hs') }

end

variable {os : Nat → Nat} {s s' : Program}

lemma holds_malloc (os : Nat → Nat) (depth : Nat) {size : Nat} (h : Holds s) (hsize : 1 ≤ size ∧ size < mallocThreshold)
    (hfits : MallocFits s (.malloc size)) : ∃ s', s.step os (depth + 1) (.malloc size) = .ok s' ∧ Holds s' := by
  obtain ⟨blk, spans, hsound, howns⟩ := h
  obtain ⟨b, hb, hvis⟩ := hfits
  rw [hsound.blocks] at hb
  obtain rfl := mem_singleton.mp hb
  obtain ⟨h', blk', first, hrun, hdata, hsound'⟩ := hsound.malloc os depth hsize hvis
  rw [Program.step, hrun, ok_bind]
  refine ⟨_, rfl, blk', _, hsound', nodup_cons.mpr ⟨fun hold => ?_, howns.nodup⟩, fun ptr hptr => ?_⟩
  · obtain ⟨r, hr, heq⟩ := howns.live _ hold
    have hapart := (pairwise_cons.mp hsound'.shown.disjoint).1 r hr
    have hrpos := (hsound.shown.inside r hr).1
    have hpos := chunksFor_pos size
    unfold chunkSize at heq
    dsimp only at hapart
    omega
  · rw [hdata]
    rcases mem_cons.mp hptr with rfl | hptr
    · exact ⟨_, mem_cons_self, rfl⟩
    · obtain ⟨r, hr, heq⟩ := howns.live ptr hptr
      exact ⟨r, mem_cons_of_mem _ hr, heq⟩

lemma holds_free (os : Nat → Nat) (depth : Nat) (h : Holds s) (hptr : ptr ∈ s.owned) :
    ∃ s', s.step os depth (.free ptr) = .ok s' ∧ Holds s' := by
  obtain ⟨blk, spans, hsound, howns⟩ := h
  obtain ⟨r, hr, rfl⟩ := howns.live ptr hptr
  obtain ⟨xs, ys, rfl⟩ := append_of_mem hr
  obtain ⟨h', blk', hrun, hdata, hsound'⟩ := hsound.free
  rw [Program.step, hrun, ok_bind]
  refine ⟨_, rfl, blk', _, hsound', howns.nodup.erase _, fun ptr' hptr' => ?_⟩
  obtain ⟨hne, hold⟩ := howns.nodup.mem_erase_iff.mp hptr'
  obtain ⟨r', hr', rfl⟩ := howns.live ptr' hold
  rw [hdata]
  refine ⟨r', ?_, rfl⟩
  rcases mem_append.mp hr' with hr' | hr'
  · exact mem_append_left _ hr'
  · rcases mem_cons.mp hr' with rfl | hr'
    · exact absurd rfl hne
    · exact mem_append_right _ hr'

lemma mallocInit_holds (depth : Nat) (hos : ∀ k, os k ≠ 0) :
    ∃ h, mallocInit os (depth + 1) = .ok h ∧ Holds ⟨h, []⟩ := by
  have hblank : tags (List.replicate (bitmapBytes / 8) 0#64) = fun _ => 0 := by
    funext k
    exact tags_eq_zero_iff.mpr (bit_replicate _ k)
  have hfresh : Sound { (newBlock os {}).1 with blocks := [(newBlock os {}).2] } (newBlock os {}).2 [] := {
    blocks := rfl
    length := length_replicate
    data := hos _
    shown := by
      dsimp only [newBlock]
      rw [hblank]
      exact ⟨by simp, .nil, by simp⟩
    blank := by
      dsimp only [newBlock]
      rw [hblank, blanks_zero]
      rfl
    total := rfl
    live := rfl
    headers := fun r hr => nomatch hr }
  have hvis : Visible (newBlock os {}).2.bitmap (chunksFor nodeSize) := by
    refine .inl ⟨by decide, 0, 0, ?_, by decide, fun k _ _ => bit_replicate _ k⟩
    dsimp only [newBlock]
    rw [length_replicate]
    decide
  obtain ⟨h, blk', first, hrun, _, hsound⟩ := hfresh.malloc os depth (by decide) hvis
  refine ⟨{ h with endBlock := (newBlock os {}).2.data + first * chunkSize + headerSize }, ?_, blk', _,
    ⟨hsound.blocks, hsound.length, hsound.data, hsound.shown, hsound.blank, hsound.total, hsound.live,
      hsound.headers⟩, nodup_nil, fun ptr hptr => nomatch hptr⟩
  rw [mallocInit]
  dsimp only
  rw [hrun, ok_bind, if_neg]
  · rfl
  · unfold headerSize
    omega

/-- Every call returns and the heap agrees with the live allocations in every state exactly when the search
sees a hole for each request. -/
theorem agrees_iff_mallocFits (os : Nat → Nat) (hos : ∀ k, os k ≠ 0) (depth : Nat) :
    ∃ h, mallocInit os (depth + 1) = .ok h ∧ ∀ ops, (mallocMachine os (depth + 1)).Admissible ⟨h, []⟩ ops →
        ((mallocMachine os (depth + 1)).EveryState (fun s => Agrees s.heap) ⟨h, []⟩ ops ↔
          (mallocMachine os (depth + 1)).EveryStep MallocFits ⟨h, []⟩ ops) := by
  obtain ⟨h, hinit, hholds⟩ := mallocInit_holds depth hos
  refine ⟨h, hinit, fun ops hops => ?_⟩
  refine Machine.everyState_iff_everyStep (I := Holds) ?_ ?_ ?_ hholds hops
  · intro s hs
    obtain ⟨blk, spans, hsound, _⟩ := hs
    exact hsound.agrees
  · intro s o hs hadm hfits
    cases o with
    | malloc size => exact holds_malloc os depth hs hadm hfits
    | free ptr => exact holds_free os (depth + 1) hs hadm
  · intro s o s' hs hadm hfits hstep
    cases o with
    | malloc size =>
      obtain ⟨blk, spans, hsound, _⟩ := hs
      obtain ⟨⟨h', ptr⟩, hrun, hstep⟩ := of_bind hstep
      cases hstep
      refine not_agrees_of_malloc hos hsound hadm (fun hvis => hfits ⟨blk, ?_, hvis⟩) hrun
      rw [hsound.blocks]
      exact mem_singleton_self blk
    | free ptr => exact absurd trivial hfits

/-- What the search finds is a hole, unless it points behind the end of a unit. -/
lemma visible_iff_found (bm : List (BitVec 64)) (hn : 0 < n) :
    Visible bm n ↔ (findContiguousBits bm n).any (fun found => found.2 < 64) = true := by
  rcases findContiguousBits_settles bm hn with ⟨hvis, u, b, hfound, hroom⟩ | ⟨hnot, hnone⟩
  · rw [hfound]
    exact iff_of_true hvis (decide_eq_true hroom.bit)
  · refine iff_of_false hnot ?_
    rcases hnone with hnone | ⟨u, b, hfound, hstray⟩
    · rw [hnone]
      exact Bool.false_ne_true
    · rw [hfound, hstray.bit]
      exact Bool.false_ne_true

instance (s : Program) (o : HeapOp) : Decidable (MallocFits s o) :=
  match o with
  | .malloc size =>
    decidable_of_iff (∃ blk ∈ s.heap.blocks,
        (findContiguousBits blk.bitmap (chunksFor size)).any (fun found => found.2 < 64) = true)
      (exists_congr fun blk => and_congr_right fun _ => (visible_iff_found blk.bitmap (chunksFor_pos size)).symm)
  | .free _ => inferInstanceAs (Decidable True)

instance (os : Nat → Nat) (depth : Nat) (s : Program) (o : HeapOp) :
    Decidable ((mallocMachine os depth).admits s o) := inferInstanceAs (Decidable (s.Admits o))

def sampleOs (k : Nat) : Nat := (k + 1) * 0x1000000

def sampleHeap : Heap := (mallocInit sampleOs 3).toOption.getD {}

theorem agrees_sampleHeap : (mallocMachine sampleOs 3).EveryState (fun s => Agrees s.heap) ⟨sampleHeap, []⟩
    [.malloc 16, .malloc 100, .malloc 2033, .free 0x2000050, .malloc 4000] := by
  obtain ⟨h, hinit, hiff⟩ := agrees_iff_mallocFits sampleOs (fun k => by unfold sampleOs; omega) 2
  have heq : sampleHeap = h := by
    rw [sampleHeap, hinit]
    rfl
  rw [heq]
  refine (hiff _ ?_).mpr ?_
  · rw [← heq]
    decide +kernel
  · rw [← heq]
    decide +kernel

/-- A request of one unit behind a full unit. In the first run its chunks are handed out once more by the
next request; in the second a block is added that does not show them. -/
theorem not_agrees_unit : ((mallocMachine sampleOs 3).Admissible ⟨sampleHeap, []⟩
      [.malloc 1936, .malloc 16, .free 0x2000050, .malloc 2032, .malloc 100] ∧
    ¬(mallocMachine sampleOs 3).EveryState (fun s => Agrees s.heap) ⟨sampleHeap, []⟩
      [.malloc 1936, .malloc 16, .free 0x2000050, .malloc 2032, .malloc 100]) ∧
    (mallocMachine sampleOs 3).Admissible ⟨sampleHeap, []⟩ [.malloc 1968, .malloc 2032] ∧
    ¬(mallocMachine sampleOs 3).EveryState (fun s => Agrees s.heap) ⟨sampleHeap, []⟩ [.malloc 1968, .malloc 2032] := by
  refine ⟨⟨by decide +kernel, fun hevery => ?_⟩, by decide +kernel, fun hevery => ?_⟩
  · obtain ⟨s, hrun, hagrees⟩ := hevery.last
    have hlive : ((mallocMachine sampleOs 3).run ⟨sampleHeap, []⟩ [.malloc 1936, .malloc 16,
        .free 0x2000050, .malloc 2032, .malloc 100]).toOption.map (fun s => s.heap.live.take 2) =
          some [⟨0x2000800, 128⟩, ⟨0x2000800, 2048⟩] := by
      decide +kernel
    rw [hrun] at hlive
    replace hlive : s.heap.live.take 2 = [⟨0x2000800, 128⟩, ⟨0x2000800, 2048⟩] := Option.some.inj hlive
    have hpair := hagrees.disjoint.sublist (take_sublist 2 s.heap.live)
    rw [hlive] at hpair
    exact absurd hpair (by decide)
  · obtain ⟨s, hrun, hagrees⟩ := hevery.last
    have hb : ((mallocMachine sampleOs 3).run ⟨sampleHeap, []⟩ [.malloc 1968, .malloc 2032]).toOption.map
        (fun s => (s.heap.blocks.getLast?.map fun blk => (blk.data, bit blk.bitmap 0), s.heap.live.head?)) =
          some (some (0x4000000, false), some ⟨0x4000000, 2048⟩) := by
      decide +kernel
    rw [hrun] at hb
    obtain ⟨hlast, hhead⟩ := Prod.mk.inj (Option.some.inj hb)
    obtain ⟨blk, hblk, hfields⟩ := Option.map_eq_some_iff.mp hlast
    obtain ⟨hdata, hclear⟩ := Prod.mk.inj hfields
    have hset := (hagrees.mapped blk (mem_of_getLast? hblk) 0 (by decide)).mpr
      ⟨_, mem_of_head? hhead, by rw [hdata]; decide, by rw [hdata]; decide⟩
    rw [hclear] at hset
    cases hset

end UltraOS.LibC
