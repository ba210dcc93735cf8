import UltraOS.FileSystem.DiskCache.Refinement

/-!
# Runs of a disk cache

A sequence of requests answers every read from the bytes of the requests before it, and a flush
leaves the device with these bytes.
-/

namespace UltraOS.DiskCache

open CellMemory Setup List

variable {g : Setup} {cache : DiskCache} {bytes : Nat → UInt8} {blockIndex offset o : Nat}

section

variable (h : Refines g cache bytes) (hr : g.InRange blockIndex)

include h

lemma Refines.io_ne_zero : cache.mIoSize ≠ 0 := by
  rw [show cache.mIoSize = g.ioSize from congrArg ioSize h.setup_eq]
  exact h.valid.io_pos.ne'

section

include hr

lemma Refines.readOne {n : Nat} (hn : o + n ≤ g.fsBlockSize) : ∃ cache', cache.readOne blockIndex o n =
    .ok (cache', load bytes (g.start blockIndex + o) n) ∧ Refines g cache' bytes := by
  obtain ⟨cache', b, hcached, href, hmem, hfirst⟩ := h.cachedBlock hr
  obtain ⟨hstart, hin⟩ := start_eq_first h.valid blockIndex
  have has : (o + n) % addressSpace ≤ cache.mFsBlockSize := by
    rw [show cache.mFsBlockSize = g.fsBlockSize from congrArg fsBlockSize h.setup_eq]
    exact le_trans (Nat.mod_le _ _) hn
  have hload : load cache'.memory ((cache'.objects b).virtualAddress +
      (blockIndex - g.first blockIndex) * g.fsBlockSize + o) n =
      load bytes (g.start blockIndex + o) n := by
    apply load_congr
    intro i hi
    rw [hstart, ← hfirst, add_assoc, add_assoc, add_assoc, add_assoc]
    exact href.held b hmem _ (by rw [hfirst]; omega)
  refine ⟨cache', ?_, href⟩
  rw [DiskCache.readOne, assert_bind has, if_neg h.io_ne_zero, hcached, ok_bind]
  dsimp only
  rw [hload]
  rfl

lemma Refines.storeAt (o : Nat) (cells : List UInt8) (hcells : o + cells.length ≤ g.fsBlockSize) :
    ∃ cache' b, cache.cachedBlock blockIndex = .ok (cache', b, (blockIndex - g.first blockIndex) * g.fsBlockSize) ∧
      Refines g { cache'.markDirty b with
        memory := store cache'.memory ((cache'.objects b).virtualAddress +
          (blockIndex - g.first blockIndex) * g.fsBlockSize + o) cells }
        (store bytes (g.start blockIndex + o) cells) := by
  obtain ⟨cache', b, hcached, href, hmem, hfirst⟩ := h.cachedBlock hr
  obtain ⟨hstart, hin⟩ := start_eq_first h.valid blockIndex
  refine ⟨cache', b, hcached, ?_⟩
  have hstore := href.touch hmem
    (show (blockIndex - g.first blockIndex) * g.fsBlockSize + o + cells.length ≤ g.ioSize by omega)
  rwa [hfirst, ← add_assoc, ← add_assoc, ← hstart] at hstore

lemma Refines.writeOne {buf : List UInt8} (hbuf : o + buf.length ≤ g.fsBlockSize) :
    ∃ cache', cache.writeOne blockIndex o buf = .ok (cache', buf) ∧
    Refines g cache' (store bytes (g.start blockIndex + o) buf) := by
  obtain ⟨cache', b, hcached, href⟩ := h.storeAt hr o buf hbuf
  have has : (o + buf.length) % addressSpace ≤ cache.mFsBlockSize := by
    rw [show cache.mFsBlockSize = g.fsBlockSize from congrArg fsBlockSize h.setup_eq]
    exact le_trans (Nat.mod_le _ _) hbuf
  refine ⟨_, ?_, href⟩
  rw [DiskCache.writeOne, assert_bind has, if_neg h.io_ne_zero, hcached, ok_bind]
  rfl

lemma Refines.zeroFillOne : ∃ cache', cache.zeroFillOne blockIndex = .ok cache' ∧
    Refines g cache' (store bytes (g.start blockIndex) (replicate g.fsBlockSize 0)) := by
  obtain ⟨cache', b, hcached, href⟩ := h.storeAt hr 0 (replicate g.fsBlockSize 0) (by simp)
  refine ⟨_, ?_, href⟩
  have hsize : cache'.mFsBlockSize = g.fsBlockSize := congrArg fsBlockSize href.setup_eq
  have hzeros : replicate cache'.mFsBlockSize (0 : UInt8) = replicate g.fsBlockSize 0 := by rw [hsize]
  rw [DiskCache.zeroFillOne, if_neg h.io_ne_zero, hcached, ok_bind]
  dsimp only
  rw [hzeros]
  rfl

end

lemma Refines.flushBlock {b : Nat} (hb : b ∈ cache.mCachedBlocks) : ∃ cache', cache.flushBlock b = .ok cache' ∧
    Refines g cache' bytes ∧ cache'.mCachedBlocks = cache.mCachedBlocks ∧ (cache'.objects b).isDirty = false ∧ ∀ u,
    (cache.objects u).isDirty = false → (cache'.objects u).isDirty = false := by
  cases hdirty : (cache.objects b).isDirty with
  | false => exact ⟨cache, flushBlock_of_clean hdirty, h, rfl, hdirty, fun _ hu => hu⟩
  | true =>
    refine ⟨flushed g cache b, flushBlock_eq h.setup_eq h.valid (h.chunk b hb) hdirty,
      h.flush hb, rfl, flushed_clean, ?_⟩
    intro u hu
    by_cases heq : u = b
    · exact heq ▸ flushed_clean
    · exact (congrArg CachedBlock.isDirty (Function.update_of_ne heq _ _)).trans hu

lemma Refines.flushBlocks {blocks : List Nat} (hblocks : ∀ b ∈ blocks, b ∈ cache.mCachedBlocks) :
    ∃ cache', cache.flushBlocks blocks = .ok cache' ∧ Refines g cache' bytes ∧ cache'.mCachedBlocks =
    cache.mCachedBlocks ∧ (∀ b ∈ blocks, (cache'.objects b).isDirty = false) ∧ ∀ u,
    (cache.objects u).isDirty = false → (cache'.objects u).isDirty = false := by
  induction blocks generalizing cache with
  | nil => exact ⟨cache, rfl, h, rfl, fun _ hnil => (not_mem_nil hnil).elim, fun _ hu => hu⟩
  | cons b blocks ih =>
    obtain ⟨hb, hrest⟩ := forall_mem_cons.mp hblocks
    obtain ⟨cache1, hflush, h1, hlist1, hclean1, hkept1⟩ := h.flushBlock hb
    obtain ⟨cache2, hloop, h2, hlist2, hclean2, hkept2⟩ := ih h1 (fun u hu => hlist1 ▸ hrest u hu)
    refine ⟨cache2, ?_, h2, hlist2.trans hlist1, ?_, fun u hu => hkept2 u (hkept1 u hu)⟩
    · rw [DiskCache.flushBlocks]
      split
      · rw [hflush, ok_bind, hloop]
      · rename_i hdirty
        rw [flushBlock_of_clean (Bool.eq_false_iff.mpr hdirty)] at hflush
        rw [← hloop, Except.ok.inj hflush]
    · intro u hu
      rcases mem_cons.mp hu with rfl | hu
      · exact hkept2 u hclean1
      · exact hclean2 u hu

lemma Refines.flushAll : ∃ cache', cache.flushAll = .ok cache' ∧
    Refines g cache' bytes ∧ ∀ i < g.bytes, cache'.device (g.base + i) = bytes i := by
  obtain ⟨cache', hflush, href, hlist, hclean, -⟩ := h.flushBlocks fun _ hb => hb
  refine ⟨cache', ?_, href, ?_⟩
  · rw [DiskCache.flushAll, if_neg h.io_ne_zero, hflush]
  · intro i hi
    apply href.written i hi
    intro b hb hdirty
    rw [hclean b (hlist ▸ hb)] at hdirty
    cases hdirty

include hr in
lemma Refines.flushSpecific : ∃ cache', cache.flushSpecific blockIndex = .ok cache' ∧ Refines g cache' bytes := by
  rw [DiskCache.flushSpecific, if_neg h.io_ne_zero, blockIndexToCachedIndex_eq h.setup_eq h.valid hr]
  cases hmap : cache.mBlockToCache (g.first blockIndex) with
  | none => exact ⟨cache, rfl, h⟩
  | some b =>
    obtain ⟨hb, -⟩ := (h.inStep.mapped _ _).mp hmap
    obtain ⟨cache', hflush, href, -⟩ := h.flushBlock hb
    exact ⟨cache', hflush, href⟩

end

inductive Request where
  | readOne (blockIndex offset bytes : Nat)
  | writeOne (blockIndex offset : Nat) (buffer : List UInt8)
  | zeroFillOne (blockIndex : Nat)
  | flushSpecific (blockIndex : Nat)
  | flushAll

structure Served where
  cache : DiskCache
  answers : List (List UInt8) := []

def Served.step (s : Served) : Request → Run Served
  | .readOne blockIndex offset bytes => do
    let (cache, answer) ← s.cache.readOne blockIndex offset bytes
    return ⟨cache, s.answers ++ [answer]⟩
  | .writeOne blockIndex offset buffer => do
    let (cache, _) ← s.cache.writeOne blockIndex offset buffer
    return { s with cache := cache }
  | .zeroFillOne blockIndex => do
    let cache ← s.cache.zeroFillOne blockIndex
    return { s with cache := cache }
  | .flushSpecific blockIndex => do
    let cache ← s.cache.flushSpecific blockIndex
    return { s with cache := cache }
  | .flushAll => do
    let cache ← s.cache.flushAll
    return { s with cache := cache }

def Setup.Admits (g : Setup) : Request → Prop
  | .readOne blockIndex offset bytes => g.InRange blockIndex ∧ offset + bytes ≤ g.fsBlockSize
  | .writeOne blockIndex offset buffer => g.InRange blockIndex ∧ offset + buffer.length ≤ g.fsBlockSize
  | .zeroFillOne blockIndex => g.InRange blockIndex
  | .flushSpecific blockIndex => g.InRange blockIndex
  | .flushAll => True

def requests : Machine Served Request Fault where
  step := Served.step
  admits s request := s.cache.setup.Admits request

instance (s : Served) (request : Request) : Decidable (requests.admits s request) := by
  cases request <;> dsimp only [requests, Setup.Admits] <;> infer_instance

structure Flat where
  bytes : Nat → UInt8
  answers : List (List UInt8) := []

def Flat.next (fsBlockSize : Nat) (flat : Flat) : Request → Flat
  | .readOne blockIndex offset bytes =>
    { flat with
      answers := flat.answers ++ [load flat.bytes (blockIndex * fsBlockSize + offset) bytes] }
  | .writeOne blockIndex offset buffer =>
    { flat with bytes := store flat.bytes (blockIndex * fsBlockSize + offset) buffer }
  | .zeroFillOne blockIndex =>
    { flat with
      bytes := store flat.bytes (blockIndex * fsBlockSize) (replicate fsBlockSize 0) }
  | .flushSpecific _ => flat
  | .flushAll => flat

def EvictsSafely (cache : DiskCache) : Prop :=
  cache.mCachedBlocks ≠ [] → ∃ cache' block, cache.evictOne = .ok (cache', block) ∧
    block ∈ cache.mCachedBlocks ∧ ∀ i < cache.mIoSize,
      cache'.device (cache.mFsLbaRange.mBegin * cache.mLogicalBlockSize +
        (cache.objects block).firstBlock * cache.mFsBlockSize + i) =
      cache.memory ((cache.objects block).virtualAddress + i)

/-- The cache stands for the array, and has given the same answers. -/
def Matches (g : Setup) (s : Served) (flat : Flat) : Prop := Refines g s.cache flat.bytes ∧ s.answers = flat.answers

lemma requests_step {s : Served} {flat : Flat} (request : Request) (h : Matches g s flat)
    (hadm : requests.admits s request) :
    ∃ s', requests.step s request = .ok s' ∧ Matches g s' (flat.next g.fsBlockSize request) := by
  obtain ⟨href, hanswers⟩ := h
  have hargs : g.Admits request := href.setup_eq ▸ hadm
  cases request with
  | readOne blockIndex o n =>
    obtain ⟨cache', hread, hrefines'⟩ := href.readOne hargs.1 hargs.2
    refine ⟨⟨cache', s.answers ++ [load flat.bytes (g.start blockIndex + o) n]⟩, ?_, hrefines', ?_⟩
    · simp [requests, Served.step, hread]
    · rw [hanswers]
      rfl
  | writeOne blockIndex o buf =>
    obtain ⟨cache', hwrite, hrefines'⟩ := href.writeOne hargs.1 hargs.2
    exact ⟨{ s with cache := cache' }, by simp [requests, Served.step, hwrite], hrefines', hanswers⟩
  | zeroFillOne blockIndex =>
    obtain ⟨cache', hzero, hrefines'⟩ := href.zeroFillOne hargs
    exact ⟨{ s with cache := cache' }, by simp [requests, Served.step, hzero], hrefines', hanswers⟩
  | flushSpecific blockIndex =>
    obtain ⟨cache', hflush, hrefines'⟩ := href.flushSpecific hargs
    exact ⟨{ s with cache := cache' }, by simp [requests, Served.step, hflush], hrefines', hanswers⟩
  | flushAll =>
    obtain ⟨cache', hflush, hrefines', -⟩ := href.flushAll
    exact ⟨{ s with cache := cache' }, by simp [requests, Served.step, hflush], hrefines', hanswers⟩

lemma Refines.evictsSafely (h : Refines g cache bytes) : cache.EvictsSafely := by
  intro hne
  obtain ⟨cache', b, hevict, -, hb, -, hdevice⟩ := h.evictOne hne
  refine ⟨cache', b, hevict, hb, ?_⟩
  obtain rfl := h.setup_eq
  exact hdevice

/-- A write puts bytes where they are already. -/
def Served.WritesBack (s : Served) : Request → Prop
  | .writeOne blockIndex offset buffer =>
    load s.cache.device (blockIndex * s.cache.mFsBlockSize + offset) buffer.length = buffer
  | _ => True

/-- The requests to a cache that change nothing by a write. -/
def rewrites : Machine Served Request Fault where
  step := Served.step
  admits s request := requests.admits s request ∧ s.WritesBack request

structure OnRam (g : Setup) (s : Served) (flat : Flat) : Prop where
  device_eq : s.cache.device = flat.bytes
  answers_eq : s.answers = flat.answers
  setup_eq : s.cache.setup = g
  uncached : s.cache.mIoSize = 0

lemma OnRam.step {s : Served} {flat : Flat} (hbs : g.bytes < addressSpace) (request : Request) (h : OnRam g s flat)
    (hadm : rewrites.admits s request) :
    ∃ s', rewrites.step s request = .ok s' ∧ OnRam g s' (flat.next g.fsBlockSize request) := by
  obtain ⟨device, answers⟩ := flat
  obtain ⟨rfl, rfl, rfl, hio⟩ := h
  have hmod (blockIndex o n : Nat) (hadm : s.cache.setup.InRange blockIndex ∧ o + n ≤ s.cache.mFsBlockSize) :
      (o + blockIndex * s.cache.mFsBlockSize) % addressSpace = blockIndex * s.cache.mFsBlockSize + o ∧
      (o + n) % addressSpace ≤ s.cache.mFsBlockSize := by
    have hin : blockIndex * s.cache.mFsBlockSize + s.cache.mFsBlockSize ≤ _ := hadm.1.inside
    rw [Nat.mod_eq_of_lt (by omega), Nat.mod_eq_of_lt (by omega), add_comm]
    exact ⟨rfl, hadm.2⟩
  obtain ⟨hadm, hback⟩ := hadm
  cases request with
  | readOne blockIndex o n =>
    obtain ⟨ho, has⟩ := hmod _ _ _ hadm
    refine ⟨{ s with answers := s.answers ++ [_] }, ?_, rfl, rfl, rfl, hio⟩
    simp [rewrites, Served.step, DiskCache.readOne, hio, has, ho, setup]
  | writeOne blockIndex o buf =>
    have has := (hmod _ _ _ hadm).2
    refine ⟨s, ?_, ?_, rfl, rfl, hio⟩
    · simp [rewrites, Served.step, DiskCache.writeOne, hio, has]
    · have hself := store_load_self s.cache.device (blockIndex * s.cache.mFsBlockSize + o) buf.length
      rw [show load _ _ _ = buf from hback] at hself
      exact hself.symm
  | zeroFillOne blockIndex =>
    have ho := (hmod blockIndex 0 0 ⟨hadm, zero_le⟩).1
    rw [zero_add, add_zero] at ho
    refine ⟨{ s with cache := { s.cache with device := _ } }, ?_, rfl, rfl, rfl, hio⟩
    simp [rewrites, Served.step, DiskCache.zeroFillOne, hio, ho, setup, Flat.next]
  | flushSpecific | flushAll =>
    exact ⟨s, by simp [rewrites, Served.step, DiskCache.flushSpecific, DiskCache.flushAll, hio], rfl, rfl, rfl, hio⟩

section

variable (info : StorageInfo) (device memory : Nat → UInt8) (r : Range) (fsBlockSize blockCapacity reg : Nat)
  (hmedium : info.mediumType ≠ .ram) (hsector : info.logicalBlockSize = 512 ∨ info.logicalBlockSize = 4096)
  (hpower : fsBlockSize.isPowerOfTwo) (hcap : max pageSize fsBlockSize ≤ blockCapacity * fsBlockSize)
  (hr : r.mBegin ≤ r.mEnd) (hend : r.mEnd < addressSpace)
  (hwhole : max pageSize fsBlockSize ∣ r.length * info.logicalBlockSize)

include hmedium hsector hpower hcap hr hend hwhole

lemma exists_refines : ∃ cache, create info device memory r fsBlockSize blockCapacity reg = .ok cache ∧
    cache.setup.range = r ∧ cache.setup.logicalBlockSize = info.logicalBlockSize ∧ cache.setup.fsBlockSize =
    fsBlockSize ∧ Refines cache.setup cache fun i => device (cache.setup.base + i) := by
  obtain ⟨cache, hcr, hsized, hrangeEq, hio, hlogical, hfs, hdevice, hlist, hmap, hnext, ho⟩ :=
    create_eq device memory r reg hmedium hsector hpower hcap
  refine ⟨cache, hcr, hrangeEq, hlogical, hfs, ?_⟩
  exact {
    valid := { hsized with
      range_le := hrangeEq ▸ hr
      range_lt := hrangeEq ▸ hend
      whole := by rwa [bytes, hrangeEq, hlogical, hio] }
    setup_eq := rfl
    inStep := {
      nodup := by simp [hlist]
      length_le := by simp [hlist]
      mapped := by simp [hlist, hmap] }
    allocated := by simp [hlist]
    region_eq := by rw [ho, hnext, zero_mul]
    buffer_eq := by simp [hnext]
    chunk := by simp [hlist]
    held := by simp [hlist]
    written := fun i _ _ => by rw [hdevice] }

/-- At the begin of the medium, a RAM disk answers like a cached medium and ends with the same bytes, after
any requests that change nothing by a write. -/
theorem rewrites_agree (hbegin : r.mBegin = 0) (hsize : r.length * info.logicalBlockSize < addressSpace) :
    ∃ cached ram, create info device memory r fsBlockSize blockCapacity reg = .ok cached ∧
    create ⟨info.logicalBlockSize, .ram⟩ device memory r fsBlockSize blockCapacity reg = .ok ram ∧ ∀ ops,
    requests.Admissible ⟨cached, []⟩ ops → rewrites.Admissible ⟨ram, []⟩ ops → ∃ s t cache,
    requests.run ⟨cached, []⟩ ops = .ok s ∧ rewrites.run ⟨ram, []⟩ ops = .ok t ∧ s.answers = t.answers ∧
    s.cache.flushAll = .ok cache ∧ t.cache.flushAll = .ok t.cache ∧ ∀ i < r.length * info.logicalBlockSize,
    cache.device i = t.cache.device i := by
  obtain ⟨cached, hcached, hrangeEq, hlogical, hfs, hinit⟩ := exists_refines info device memory r fsBlockSize
    blockCapacity reg hmedium hsector hpower hcap hr hend hwhole
  have hpos : blockCapacity ≠ 0 := by
    rintro rfl
    simp [pageSize] at hcap
  obtain ⟨ram, hram, hsize, hfsRam, honRam⟩ :
      ∃ ram, create ⟨info.logicalBlockSize, .ram⟩ device memory r fsBlockSize blockCapacity reg = .ok ram ∧
        ram.setup.bytes < addressSpace ∧ ram.setup.fsBlockSize = fsBlockSize ∧
        OnRam ram.setup ⟨ram, []⟩ ⟨device, []⟩ :=
    ⟨{
      mFsLbaRange := r
      mLogicalBlockSize := info.logicalBlockSize
      mFsBlockSize := fsBlockSize
      mCapacity := blockCapacity
      memory := memory
      device := device }, by simp [create, hpos, hsector], hsize, rfl, rfl, rfl, rfl, rfl⟩
  refine ⟨cached, ram, hcached, hram, fun ops hops hrewrites => ?_⟩
  have hb : cached.setup.base = 0 := by rw [base, hrangeEq, hbegin, zero_mul]
  simp only [hb, zero_add] at hinit
  obtain ⟨s, hrun, href, hanswers⟩ := Machine.run_simulates (R := Matches cached.setup)
    (fun _ _ request h => requests_step request h) (a := ⟨device, []⟩) ⟨hinit, rfl⟩ hops
  obtain ⟨t, hrunRam, hdevice, hanswersRam, -, hio⟩ := Machine.run_simulates
    (fun _ _ request h => OnRam.step hsize request h) honRam hrewrites
  obtain ⟨cache, hflush, -, hbs⟩ := href.flushAll
  rw [hfs] at hanswers hbs
  rw [hfsRam] at hdevice hanswersRam
  refine ⟨s, t, cache, hrun, hrunRam, hanswers.trans hanswersRam.symm, hflush, by rw [DiskCache.flushAll, if_pos hio],
    fun i hi => ?_⟩
  rw [bytes, hrangeEq, hlogical, hb] at hbs
  rw [← zero_add i, hbs i hi, hdevice, zero_add]

end

theorem rewrites_agree_sample : ∃ cached ram s t, create ⟨512, .hdd⟩ (fun _ => 5) (fun _ => 0) ⟨0, 8⟩ 512 8 0 =
    .ok cached ∧ create ⟨512, .ram⟩ (fun _ => 5) (fun _ => 0) ⟨0, 8⟩ 512 8 0 = .ok ram ∧
    requests.run ⟨cached, []⟩ [.writeOne 0 0 [5], .readOne 0 0 1] = .ok s ∧
    rewrites.run ⟨ram, []⟩ [.writeOne 0 0 [5], .readOne 0 0 1] = .ok t ∧ s.answers = t.answers := by
  obtain ⟨cached, ram, hcached, hram, hruns⟩ := rewrites_agree ⟨512, .hdd⟩ (fun _ => 5) (fun _ => 0) ⟨0, 8⟩ 512 8 0
    (by decide) (by decide) ⟨9, rfl⟩ (by decide) (by decide) (by decide) (by decide) rfl (by decide)
  refine ⟨cached, ram, ?_⟩
  cases hcached
  cases hram
  obtain ⟨s, t, cache, hs, ht, hanswers, -⟩ := hruns [.writeOne 0 0 [5], .readOne 0 0 1] (by decide +kernel)
    ⟨⟨by decide +kernel, rfl⟩, ⟨by decide +kernel, trivial⟩, trivial⟩
  exact ⟨s, t, rfl, rfl, hs, ht, hanswers⟩

/-- The write of a byte is read back from the cached medium only. -/
theorem not_rewrites_agree_write : ∃ cached ram s t, create ⟨512, .hdd⟩ (fun _ => 0) (fun _ => 0) ⟨0, 8⟩ 512 8 0 =
    .ok cached ∧ create ⟨512, .ram⟩ (fun _ => 0) (fun _ => 0) ⟨0, 8⟩ 512 8 0 = .ok ram ∧
    requests.run ⟨cached, []⟩ [.writeOne 0 0 [7], .readOne 0 0 1] = .ok s ∧
    requests.run ⟨ram, []⟩ [.writeOne 0 0 [7], .readOne 0 0 1] = .ok t ∧ s.answers ≠ t.answers :=
  ⟨_, _, _, _, rfl, rfl, rfl, rfl, by decide +kernel⟩

/-- A disk cache is a flat array of bytes: requests in range get the answers of the array, no block is
evicted that is not on the device then, and a flush of all blocks leaves the array on the device. -/
theorem requests_refine_flat (info : StorageInfo) (device memory : Nat → UInt8) (range : Range)
    (fsBlockSize blockCapacity region : Nat) (hmedium : info.mediumType ≠ .ram) (hsector : info.logicalBlockSize = 512 ∨
    info.logicalBlockSize = 4096) (hpower : fsBlockSize.isPowerOfTwo)
    (hcapacity : max pageSize fsBlockSize ≤ blockCapacity * fsBlockSize) (hrange : range.mBegin ≤ range.mEnd)
    (hend : range.mEnd < addressSpace) (hwhole : max pageSize fsBlockSize ∣ range.length * info.logicalBlockSize) :
    ∃ cache, create info device memory range fsBlockSize blockCapacity region = .ok cache ∧ ∀ ops,
    requests.Admissible ⟨cache, []⟩ ops → ∃ s flat, requests.run ⟨cache, []⟩ ops = .ok s ∧ flat =
    ops.foldl (Flat.next fsBlockSize) ⟨fun i => device (range.mBegin * info.logicalBlockSize + i), []⟩ ∧ s.answers =
    flat.answers ∧ s.cache.InStep ∧ s.cache.EvictsSafely ∧ ∃ cache', s.cache.flushAll = .ok cache' ∧ ∀ i <
    range.length * info.logicalBlockSize, cache'.device (range.mBegin * info.logicalBlockSize + i) = flat.bytes i := by
  obtain ⟨cache, hcr, hrangeEq, hlogical, hfs, hinit⟩ := exists_refines info device memory range fsBlockSize
    blockCapacity region hmedium hsector hpower hcapacity hrange hend hwhole
  refine ⟨cache, hcr, fun ops hops => ?_⟩
  obtain ⟨s, hrun, href, hanswers⟩ := Machine.run_simulates
    (R := Matches cache.setup) (fun _ _ request h => requests_step request h)
    (a := ⟨fun i => device (cache.setup.base + i), []⟩) ⟨hinit, rfl⟩ hops
  obtain ⟨cache', hflush, -, hbs⟩ := href.flushAll
  rw [base, hrangeEq, hlogical, hfs] at hanswers hbs
  rw [bytes, hrangeEq, hlogical] at hbs
  exact ⟨s, _, hrun, rfl, hanswers, href.inStep, href.evictsSafely, cache', hflush, hbs⟩

theorem requests_refine_flat_sample : ∃ cache s, create ⟨512, .hdd⟩ (fun _ => 0) (fun _ => 0) ⟨2, 18⟩ 512 8 0 =
    .ok cache ∧ requests.run ⟨cache, []⟩ [.writeOne 3 5 [7], .readOne 9 0 2, .readOne 3 4 3] = .ok s ∧ s.answers =
    [[0, 0], [0, 7, 0]] := by
  obtain ⟨cache, hcr, hruns⟩ := requests_refine_flat ⟨512, .hdd⟩ (fun _ => 0) (fun _ => 0) ⟨2, 18⟩
    512 8 0 (by decide) (by decide) ⟨9, rfl⟩ (by decide) (by decide) (by decide) (by decide)
  have hc : requests.Admissible ⟨cache, []⟩ [.writeOne 3 5 [7], .readOne 9 0 2, .readOne 3 4 3] := by
    obtain rfl := Except.ok.inj ((show create ⟨512, .hdd⟩ (fun _ => 0) (fun _ => 0) ⟨2, 18⟩ 512 8 0 =
      .ok _ from rfl).symm.trans hcr)
    decide +kernel
  obtain ⟨s, flat, hrun, rfl, hanswers, -⟩ := hruns _ hc
  exact ⟨cache, s, hcr, hrun, hanswers.trans (by decide +kernel)⟩

end UltraOS.DiskCache
