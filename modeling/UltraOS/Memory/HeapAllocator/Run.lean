import UltraOS.Library.Machine
import UltraOS.Memory.HeapAllocator.Calls

/-!
# Runs of the kernel heap

A run feeds blocks, allocates and frees in any order. Wherever it gets to, the live allocations are
apart, the maps of the blocks show them and nothing else, the counters are right, and freeing one of
them clears its chunks and no others.
-/

namespace UltraOS.HeapAllocator

open TaggedRuns HeapBlock

structure LiveHeap where
  heap : HeapAllocator := {}
  live : List Allocation := []
deriving DecidableEq

inductive Op where
  | feed (ptr size : Nat)
  | allocate (bytes alignment : Nat) (refill : Refill)
  | free (ptr : Nat)

variable {s : LiveHeap}

namespace LiveHeap

def step (s : LiveHeap) : Op → Run LiveHeap
  | .feed ptr size => .ok { s with heap := s.heap.feedBlock ptr size }
  | .allocate bytes alignment refill => do
    let (heap, ptr) ← s.heap.allocate bytes alignment refill
    return { heap, live := ⟨ptr, bytes, alignment⟩ :: s.live }
  | .free ptr => do
    let heap ← s.heap.free ptr
    return { heap, live := s.live.eraseP fun a => a.ptr == ptr }

def Admits (s : LiveHeap) : Op → Prop
  | .feed ptr size => Feedable s.heap ptr size
  | .allocate _ _ (.region range) => Feedable s.heap range.mBegin range.length
  | .allocate _ _ _ => True
  | .free ptr => ptr ∈ s.live.map Allocation.ptr

def machine : Machine LiveHeap Op Fault := ⟨step, Admits⟩

instance (s : LiveHeap) (o : Op) : Decidable (machine.admits s o) := by
  dsimp only [machine]
  unfold Admits
  split <;> infer_instance

lemma sound_step {s' : LiveHeap} {o : Op} (h : Sound s.heap.heapBlocks s.heap.totalFreeBytes s.live) (hadm : s.Admits o)
    (hstep : s.step o = .ok s') : Sound s'.heap.heapBlocks s'.heap.totalFreeBytes s'.live := by
  cases o with
  | feed ptr size =>
    cases hstep
    exact h.feed hadm
  | allocate bs al refill =>
    obtain ⟨⟨blk, ptr⟩, hcall, hstep⟩ := of_bind hstep
    cases hstep
    refine h.allocate ?_ hcall
    intro r hr
    rwa [hr] at hadm
  | free ptr =>
    obtain ⟨b, hb, hptr⟩ := List.mem_map.mp hadm
    obtain ⟨a, before, after, -, ha, hlive, herase⟩ :=
      List.exists_of_eraseP (p := fun a : Allocation => a.ptr == ptr) hb (by simp [hptr])
    have haptr : a.ptr = ptr := by simpa using ha
    rw [hlive] at h
    obtain ⟨blocks', hfree, hfreed⟩ := h.free (a := a) (by simp)
    rw [haptr] at hfree
    simp only [step, hfree, ok_bind, pure_eq_ok, Except.ok.injEq] at hstep
    rw [← hstep]
    rw [herase]
    exact h.freedFrom hfreed

structure Agrees (s : LiveHeap) : Prop where
  disjoint : s.live.Pairwise fun a b => a.ptr + a.chunks * 32 ≤ b.ptr ∨ b.ptr + b.chunks * 32 ≤ a.ptr
  inside : ∀ a ∈ s.live, ∃ heap ∈ s.heap.heapBlocks,
    heap.data ≤ a.ptr ∧ 32 ∣ a.ptr - heap.data ∧ a.ptr + a.chunks * 32 ≤ heap.dataEnd
  aligned : ∀ a ∈ s.live, a.alignment ∣ a.ptr
  tagged : ∀ heap ∈ s.heap.heapBlocks, Tagged (chunkId heap.bitmap) heap.chunkCount (heap.spans s.live)
  counted : ∀ heap ∈ s.heap.heapBlocks, heap.freeChunks = blanks (chunkId heap.bitmap) heap.chunkCount
  total : s.heap.totalFreeBytes = freeBytesOf s.heap.heapBlocks

end LiveHeap

section

variable {blocks : List HeapBlock} {total : Nat} {live : List Allocation} {heap blk : HeapBlock}

lemma Sound.apart_of_ne (h : Sound blocks total live) {u : HeapBlock} (hheap : blk ∈ blocks)
    (hu : u ∈ blocks) (hne : blk ≠ u) : blk.dataEnd ≤ u.address ∨ u.dataEnd ≤ blk.address := by
  have hsymm : Std.Symm fun blk u : HeapBlock =>
      blk.dataEnd ≤ u.address ∨ u.dataEnd ≤ blk.address := ⟨fun _ _ => Or.symm⟩
  exact (List.pairwise_map.mp h.apart).forall hheap hu hne

lemma Sound.chunks_le (h : Sound blocks total live) (hheap : blk ∈ blocks) {a : Allocation} (ha : a ∈ live)
    (howns : blk.owns a) (hdvd : 32 ∣ a.ptr - blk.data) : a.ptr + a.chunks * 32 ≤ blk.dataEnd := by
  have hshows := h.shows blk hheap
  have hin := (hshows.tagged.inside _ (List.mem_map_of_mem (List.mem_filter.mpr ⟨ha, howns⟩))).2
  obtain ⟨hge, -⟩ := owns_iff.mp howns
  unfold span at hin
  dsimp only at hin
  rw [dataEnd, hshows.laidOut.chunkSize]
  omega

lemma Sound.disjoint (h : Sound blocks total live) : live.Pairwise fun a b =>
    a.ptr + a.chunks * 32 ≤ b.ptr ∨ b.ptr + b.chunks * 32 ≤ a.ptr := by
  rw [List.pairwise_iff_forall_sublist]
  intro a b hab
  have ha : a ∈ live := hab.subset (by simp)
  have hb : b ∈ live := hab.subset (by simp)
  obtain ⟨blk, hheap, haowns, hadvd⟩ := h.owned a ha
  obtain ⟨u, hu, hbowns, hbdvd⟩ := h.owned b hb
  have hageb := owns_iff.mp haowns
  have hbgeb := owns_iff.mp hbowns
  by_cases hsame : blk = u
  · subst hsame
    have hspans : [blk.span a, blk.span b].Sublist (blk.spans live) := by
      have hfilter := (hab.filter blk.owns).map blk.span
      simpa [spans, haowns, hbowns] using hfilter
    have htagged := (h.shows blk hheap).tagged
    have hdisj := List.pairwise_iff_forall_sublist.mp htagged.disjoint hspans
    unfold span at hdisj
    dsimp only at hdisj
    omega
  · have haend := h.chunks_le hheap ha haowns hadvd
    have hbend := h.chunks_le hu hb hbowns hbdvd
    have haddr := LaidOut.address_lt_data (h.shows blk hheap).laidOut
    have hotherAddress := LaidOut.address_lt_data (h.shows u hu).laidOut
    have hapart := h.apart_of_ne hheap hu hsame
    omega

lemma Sound.agrees (h : Sound s.heap.heapBlocks s.heap.totalFreeBytes s.live) : s.Agrees := by
  refine ⟨h.disjoint, ?_, h.aligned, fun blk hheap => (h.shows blk hheap).tagged,
    fun blk hheap => (h.shows blk hheap).counted, h.total⟩
  intro a ha
  obtain ⟨blk, hheap, howns, hdvd⟩ := h.owned a ha
  exact ⟨blk, hheap, (owns_iff.mp howns).1, hdvd, h.chunks_le hheap ha howns hdvd⟩

end

lemma LiveHeap.sound_of_run {ops : List Op} (hops : machine.Admissible {} ops) (hrun : machine.run {} ops = .ok s) :
    Sound s.heap.heapBlocks s.heap.totalFreeBytes s.live :=
  Machine.run_preserves (I := fun s : LiveHeap => Sound s.heap.heapBlocks s.heap.totalFreeBytes s.live)
    (fun _ _ _ h hadm hstep => sound_step h hadm hstep) ⟨by simp, .nil, by simp, by simp, rfl⟩ hops hrun

open LiveHeap in
/-- Wherever a run gets to, the heap agrees with its live allocations, and freeing one of them
returns and clears its chunks and no others. -/
theorem agrees_of_run {ops : List Op} {s : LiveHeap} (hops : machine.Admissible {} ops)
    (hrun : machine.run {} ops = .ok s) : s.Agrees ∧ ∀ a ∈ s.live, ∃ s', s.step (.free a.ptr) = .ok s' ∧
      FreedFrom a s.heap.heapBlocks s'.heap.heapBlocks := by
  have hsound := sound_of_run hops hrun
  refine ⟨hsound.agrees, ?_⟩
  intro a ha
  obtain ⟨blocks', hfree, hfreed⟩ := hsound.free ha
  simp only [step, hfree, ok_bind, pure_eq_ok]
  exact ⟨_, rfl, hfreed⟩

open LiveHeap in
theorem agrees_of_run_aligned : ∃ s : LiveHeap,
    machine.run {} [.feed 0x1000 256, .allocate 40 32 .locked, .allocate 70 64 .locked, .free 0x1040] = .ok s ∧
    s.live = [⟨0x1080, 70, 64⟩] ∧ s.Agrees ∧ ∀ a ∈ s.live, ∃ s', s.step (.free a.ptr) = .ok s' ∧
      FreedFrom a s.heap.heapBlocks s'.heap.heapBlocks :=
  have hrun : machine.run {} [.feed 0x1000 256, .allocate 40 32 .locked, .allocate 70 64 .locked, .free 0x1040] = .ok
      { heap :=
          { heapBlocks := [⟨0x1000, 0x1040, 6, 32, 3, [0xA0, 0x02] ++ List.replicate 22 0⟩]
            totalFreeBytes := 96
            callsToAllocate := 2
            callsToFree := 1 }
        live := [⟨0x1080, 70, 64⟩] } := by
    decide
  ⟨_, hrun, rfl, agrees_of_run (by decide) hrun⟩

open LiveHeap in
/-- No chunk is lost: those that the live allocations of a block do not take are free. -/
theorem chunks_of_run {ops : List Op} {s : LiveHeap} (hops : machine.Admissible {} ops)
    (hrun : machine.run {} ops = .ok s) {block : HeapBlock} (hblock : block ∈ s.heap.heapBlocks) :
    block.freeChunks + TaggedRuns.total (block.spans s.live) = block.chunkCount := by
  have hshows := (sound_of_run hops hrun).shows block hblock
  rw [hshows.counted, hshows.tagged.blanks_add_total]

theorem chunks_of_run_aligned : ∃ s : LiveHeap, LiveHeap.machine.run {} [.feed 0x1000 256, .allocate 70 64 .locked] =
    .ok s ∧ ∀ block ∈ s.heap.heapBlocks, block.freeChunks + TaggedRuns.total (block.spans s.live) = block.chunkCount :=
  ⟨_, rfl, fun b => @chunks_of_run [.feed 0x1000 256, .allocate 70 64 .locked] _ (by decide) rfl b⟩

def earlyPanic : Fault := .panic "HeapAllocator: ran out of initial heap memory before MM initialization!"

lemma refillIfNeeded_error {blk : HeapAllocator} {bytesLeft : Nat} {refill : Refill} {e : Fault}
    (h : blk.refillIfNeeded bytesLeft refill = .error e) : refill = .uninitialized ∧ bytesLeft = 0 ∧ e = earlyPanic := by
  unfold refillIfNeeded at h
  split at h
  · cases h
  · split at h
    · cases h
    · split at h
      · rename_i hzero
        cases h
        exact ⟨rfl, hzero, rfl⟩
      · cases h
  · split at h <;> cases h

lemma countSetBits_of_isPowerOfTwo {al : Nat} (h : al.isPowerOfTwo) (hle : al ≤ 4096) : countSetBits al = 1 := by
  have hall : ∀ k : Fin 13, countSetBits (Nat.pow 2 k) = 1 := by decide
  obtain ⟨k, rfl⟩ := h
  have hk : k ≤ 12 := (Nat.pow_le_pow_iff_right (show 1 < 2 by decide)).mp hle
  exact hall ⟨k, by omega⟩

/-- After the refill `allocate` returns the lowest fitting chunks of the first block that has some, and is
out of memory only if no block has. -/
def Serves (heap : HeapAllocator) (bytes alignment : Nat) (refill : Refill) : Prop :=
  ∃ refilled, heap.refillIfNeeded (heap.totalFreeBytes - bytes) refill = .ok refilled ∧
    ((∃ heap' ptr, heap.allocate bytes alignment refill = .ok (heap', ptr) ∧
        FirstFit bytes alignment refilled.heapBlocks ptr) ∨
      heap.allocate bytes alignment refill = .error
          (outOfMemory { refilled with callsToAllocate := refilled.callsToAllocate + 1 } bytes) ∧
        ∀ block ∈ refilled.heapBlocks, ∀ chunk, ¬block.Vacant bytes alignment chunk)

open LiveHeap in
/-- Wherever a run gets to, every request is served, but one that takes the last bytes before the memory manager is
there panics. -/
theorem serves_of_run {ops : List Op} {s : LiveHeap} (hops : machine.Admissible {} ops)
    (hrun : machine.run {} ops = .ok s) {bytes alignment : Nat} {refill : Refill} (hbytes : 0 < bytes ∧
    bytes ≤ upperAllocationThreshold) (hpower : alignment.isPowerOfTwo) (halignment : alignment ≤ 4096)
    (hadmits : s.Admits (.allocate bytes alignment refill)) : s.heap.Serves bytes alignment refill ∨ refill =
    .uninitialized ∧ s.heap.totalFreeBytes ≤ bytes ∧ s.heap.allocate bytes alignment refill = .error earlyPanic := by
  have hsound := sound_of_run hops hrun
  have hbits := countSetBits_of_isPowerOfTwo hpower halignment
  have hcall : s.heap.allocate bytes alignment refill =
      s.heap.refillIfNeeded (s.heap.totalFreeBytes - bytes) refill >>= fun refilled =>
        refilled.allocateRefilled bytes alignment := by
    rw [HeapAllocator.allocate, if_neg (by omega), if_neg (by omega)]
  rw [Serves, hcall]
  cases href : s.heap.refillIfNeeded (s.heap.totalFreeBytes - bytes) refill with
  | error e =>
    obtain ⟨hearly, hleft, rfl⟩ := refillIfNeeded_error href
    exact .inr ⟨hearly, by omega, rfl⟩
  | ok refilled =>
    have hrefilled := hsound.refill (fun r hr => by rwa [hr] at hadmits) href
    refine .inl ⟨refilled, rfl, ?_⟩
    rw [ok_bind]
    rcases hrefilled.allocateRefilled_eq hbytes.1.ne' ⟨hbits, halignment⟩ with
      hnone | ⟨blocks', ptr, hok, -, hfit⟩
    · exact .inr hnone
    · exact .inl ⟨_, ptr, hok, hfit⟩

def sixChunks : LiveHeap where
  heap :=
    { heapBlocks := [⟨0x1000, 0x1040, 6, 32, 6, List.replicate 24 0⟩]
      totalFreeBytes := 192 }

theorem serves_sixChunks : LiveHeap.machine.run {} [.feed 0x1000 256] = .ok sixChunks ∧
    (sixChunks.heap.Serves 70 64 .locked ∨ Refill.locked = .uninitialized ∧ sixChunks.heap.totalFreeBytes ≤ 70 ∧
      sixChunks.heap.allocate 70 64 .locked = .error earlyPanic) :=
  have hrun : LiveHeap.machine.run {} [.feed 0x1000 256] = .ok sixChunks := by decide
  ⟨hrun, serves_of_run (by decide) hrun (by decide) ⟨6, rfl⟩ (by decide) trivial⟩

/-- All six chunks are free, and a request for them panics. -/
theorem not_serves_sixChunks : LiveHeap.machine.run {} [.feed 0x1000 256] = .ok sixChunks ∧
    ¬sixChunks.heap.Serves 192 32 .uninitialized ∧ ∀ b ∈ sixChunks.heap.heapBlocks, b.Vacant 192 32 0 := by
  refine ⟨by decide, fun h => ?_, ?_⟩
  · obtain ⟨refilled, href, -⟩ := h
    have hearly : sixChunks.heap.refillIfNeeded 0 .uninitialized = .error earlyPanic := rfl
    rw [show sixChunks.heap.totalFreeBytes - 192 = 0 from rfl, hearly] at href
    cases href
  · intro b hb
    rw [List.mem_singleton.mp hb]
    refine ⟨by decide, fun c _ => ?_, by decide⟩
    exact congrFun (chunkId_replicate 24) c

end UltraOS.HeapAllocator
