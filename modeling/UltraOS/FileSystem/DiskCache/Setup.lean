import Mathlib.Data.Nat.Bitwise
import UltraOS.FileSystem.DiskCache.Model

/-!
# The setup of a disk cache

The fields of a cache that its constructor sets and no request changes, and the arithmetic of the file
system blocks: where a cached block begins, and which sectors hold it.
-/

namespace UltraOS

open Range Nat

namespace DiskCache

lemma and_complement {n x : Nat} (hn : n.isPowerOfTwo) (hle : n ≤ addressSpace)
    (hx : x < addressSpace) : x &&& complement (n - 1) = x / n * n := by
  obtain ⟨k, rfl⟩ := hn
  have hspace : addressSpace = 2 ^ 64 := by decide
  have hpos : 0 < 2 ^ k := Nat.two_pow_pos k
  have hmask : complement (2 ^ k - 1) = 2 ^ 64 - ((2 ^ k - 1) + 1) := by
    rw [complement, hspace]
    omega
  rw [hspace] at hle hx
  apply eq_of_testBit_eq
  intro i
  rw [testBit_and, hmask, testBit_two_pow_sub_succ (by omega), testBit_two_pow_sub_one,
    testBit_mul_two_pow, testBit_div_two_pow]
  by_cases hi : k ≤ i
  · rw [Nat.sub_add_cancel hi]
    by_cases hbit : i < 64
    · simp [hi, hbit]
    · have hzero : x.testBit i = false := testBit_lt_two_pow (hx.trans_le (Nat.pow_le_pow_right (by decide) (by omega)))
      simp [hzero]
  · simp [hi, not_le.mp hi]

structure Setup where
  range : Range
  ioSize : Nat
  logicalBlockSize : Nat
  fsBlockSize : Nat
  fsBlocksPerIo : Nat
  capacity : Nat
  region : Nat

def setup (cache : DiskCache) : Setup where
  range := cache.mFsLbaRange
  ioSize := cache.mIoSize
  logicalBlockSize := cache.mLogicalBlockSize
  fsBlockSize := cache.mFsBlockSize
  fsBlocksPerIo := cache.mFsBlocksPerIo
  capacity := cache.mCapacity
  region := cache.mRegion

namespace Setup

variable (g : Setup)

def base : Nat := g.range.mBegin * g.logicalBlockSize

def bytes : Nat := g.range.length * g.logicalBlockSize

def start (blockIndex : Nat) : Nat := blockIndex * g.fsBlockSize

/-- A cache block is a power of two of file system blocks and a multiple of the page size, and the
partition is a multiple of the cache block. -/
structure Valid : Prop where
  io_eq : g.ioSize = g.fsBlocksPerIo * g.fsBlockSize
  power : g.fsBlocksPerIo.isPowerOfTwo
  perIo_le : g.fsBlocksPerIo ≤ pageSize
  fs_pos : 0 < g.fsBlockSize
  page_dvd : pageSize ∣ g.ioSize
  sector : g.logicalBlockSize = 512 ∨ g.logicalBlockSize = 4096
  capacity_pos : 0 < g.capacity
  range_le : g.range.mBegin ≤ g.range.mEnd
  range_lt : g.range.mEnd < addressSpace
  whole : g.ioSize ∣ g.bytes

/-- A file system block of the partition whose position is a 64-bit number. -/
structure InRange (blockIndex : Nat) : Prop where
  inside : g.start blockIndex + g.fsBlockSize ≤ g.bytes
  fits : g.start blockIndex < addressSpace

/-- A cache block of the partition, by its first file system block. -/
structure Chunk (blockIndex : Nat) : Prop where
  aligned : g.fsBlocksPerIo ∣ blockIndex
  inside : g.start blockIndex + g.ioSize ≤ g.bytes
  fits : g.start blockIndex < addressSpace

def Covers (blockIndex position : Nat) : Prop :=
  g.start blockIndex ≤ position ∧ position < g.start blockIndex + g.ioSize

def first (blockIndex : Nat) : Nat := blockIndex / g.fsBlocksPerIo * g.fsBlocksPerIo

instance (blockIndex : Nat) : Decidable (g.InRange blockIndex) :=
  decidable_of_iff (g.start blockIndex + g.fsBlockSize ≤ g.bytes ∧ g.start blockIndex < addressSpace)
    ⟨fun h => ⟨h.1, h.2⟩, fun h => ⟨h.inside, h.fits⟩⟩

variable {g} {b i j : Nat}

lemma Valid.perIo_pos (h : g.Valid) : 0 < g.fsBlocksPerIo := by
  obtain ⟨k, hk⟩ := h.power
  rw [hk]
  exact Nat.two_pow_pos k

lemma Valid.io_pos (h : g.Valid) : 0 < g.ioSize := by
  rw [h.io_eq]
  exact mul_pos h.perIo_pos h.fs_pos

lemma Valid.sector_pos (h : g.Valid) : 0 < g.logicalBlockSize := by
  rcases h.sector with hsector | hsector <;> rw [hsector] <;> decide

lemma Valid.sector_dvd (h : g.Valid) : g.logicalBlockSize ∣ g.ioSize := by
  apply dvd_trans _ h.page_dvd
  rcases h.sector with hsector | hsector <;> rw [hsector] <;> decide

lemma Valid.sized (h : g.Valid) : { g with range := {} }.Valid :=
  { h with
    range_le := le_refl 0
    range_lt := show 0 < addressSpace by decide
    whole := by simp [bytes, length] }

lemma Valid.start_eq (h : g.Valid) (hal : g.fsBlocksPerIo ∣ b) : g.start b = b / g.fsBlocksPerIo * g.ioSize := by
  rw [start, h.io_eq, ← mul_assoc, Nat.div_mul_cancel hal]

lemma Chunk.unique (h : g.Valid) (hi : g.Chunk i) (hj : g.Chunk j) {pos : Nat}
    (hposition : g.Covers i pos) (hposition' : g.Covers j pos) : i = j := by
  rw [Covers, h.start_eq hi.aligned] at hposition
  rw [Covers, h.start_eq hj.aligned] at hposition'
  have hdiv : i / g.fsBlocksPerIo = j / g.fsBlocksPerIo := by
    rw [← (Nat.div_eq_iff h.io_pos).mpr ⟨hposition.1, by omega⟩,
      ← (Nat.div_eq_iff h.io_pos).mpr ⟨hposition'.1, by omega⟩]
  rw [← Nat.div_mul_cancel hi.aligned, hdiv, Nat.div_mul_cancel hj.aligned]

lemma InRange.lt (h : g.Valid) (hr : g.InRange b) : b < addressSpace :=
  lt_of_le_of_lt (Nat.le_mul_of_pos_right b h.fs_pos) hr.fits

lemma InRange.chunk (h : g.Valid) (hr : g.InRange b) : g.Chunk (g.first b) := by
  have hle : g.first b ≤ b := div_mul_le_self _ _
  have hstart : g.start (g.first b) = b / g.fsBlocksPerIo * g.ioSize := by rw [start, first, h.io_eq, mul_assoc]
  refine ⟨dvd_mul_left _ _, ?_, ?_⟩
  · obtain ⟨n, hn⟩ := h.whole
    have hlt : b / g.fsBlocksPerIo < n := by
      rw [div_lt_iff_lt_mul h.perIo_pos]
      apply Nat.lt_of_mul_lt_mul_right (a := g.fsBlockSize)
      have hinside := hr.inside
      have hpos := h.fs_pos
      have hproduct : g.ioSize * n = n * g.fsBlocksPerIo * g.fsBlockSize := by rw [h.io_eq, mul_comm, mul_assoc]
      rw [start, hn, hproduct] at hinside
      omega
    calc g.start (g.first b) + g.ioSize
        = (b / g.fsBlocksPerIo + 1) * g.ioSize := by rw [hstart, Nat.add_one_mul]
      _ ≤ n * g.ioSize := mul_le_mul_right _ hlt
      _ = g.bytes := by rw [hn, mul_comm]
  · exact lt_of_le_of_lt (mul_le_mul_right _ hle) hr.fits

lemma start_eq_first (h : g.Valid) (b : Nat) : g.start b = g.start (g.first b) + (b - g.first b) * g.fsBlockSize ∧
    (b - g.first b) * g.fsBlockSize + g.fsBlockSize ≤ g.ioSize := by
  have hle : g.first b ≤ b := div_mul_le_self _ _
  constructor
  · rw [start, start, ← add_mul, Nat.add_sub_cancel' hle]
  · have hlt : b - g.first b < g.fsBlocksPerIo := by
      have hmod := mod_lt b h.perIo_pos
      have hdiv := div_add_mod' b g.fsBlocksPerIo
      rw [first]
      omega
    calc (b - g.first b) * g.fsBlockSize + g.fsBlockSize
        = (b - g.first b + 1) * g.fsBlockSize := (Nat.add_one_mul _ _).symm
      _ ≤ g.fsBlocksPerIo * g.fsBlockSize := mul_le_mul_right _ hlt
      _ = g.ioSize := h.io_eq.symm

end Setup

variable {c : DiskCache} {g : Setup} {b : Nat}

lemma blockIndexToCachedIndex_eq (hsetup : c.setup = g) (h : g.Valid)
    (hr : g.InRange b) : c.blockIndexToCachedIndex b = g.first b := by
  subst hsetup
  exact and_complement h.power (h.perIo_le.trans (by decide)) (hr.lt h)

lemma blockToLbaRange_eq (hsetup : c.setup = g) (h : { g with range := {} }.Valid)
    (hrangeLe : g.range.mBegin ≤ g.range.mEnd) (hlt : g.range.mEnd < addressSpace)
    (hchunk : g.Chunk b) : ∃ rg, c.blockToLbaRange b = .ok rg ∧
    c.mFsLbaRange.containsRange rg = true ∧ rg.mBegin * g.logicalBlockSize =
    g.base + g.start b ∧ rg.length * g.logicalBlockSize = g.ioSize := by
  obtain ⟨lbas, hlbas : g.ioSize = _⟩ := h.sector_dvd
  obtain ⟨lba, hlba⟩ : ∃ lba, lba = b / g.fsBlocksPerIo * lbas := ⟨_, rfl⟩
  have hsectorPos : 0 < g.logicalBlockSize := h.sector_pos
  have hstart : g.start b = lba * g.logicalBlockSize := by
    rw [show g.start b = _ from h.start_eq hchunk.aligned, hlbas, hlba, mul_assoc, mul_comm lbas]
  have hlbasPos : 0 < lbas := by
    apply Nat.pos_of_ne_zero
    intro hzero
    rw [hzero, mul_zero] at hlbas
    exact h.io_pos.ne' hlbas
  have hend : g.range.mBegin + lba + lbas ≤ g.range.mEnd := by
    have hinside : (lba + lbas) * g.logicalBlockSize ≤ g.range.length * g.logicalBlockSize := by
      have hchunkInside := hchunk.inside
      rw [hstart, hlbas, Setup.bytes] at hchunkInside
      rwa [add_mul, mul_comm lbas]
    have hle := Nat.le_of_mul_le_mul_right hinside hsectorPos
    rw [length] at hle
    omega
  have hfsBlockSize : c.mFsBlockSize = g.fsBlockSize := congrArg Setup.fsBlockSize hsetup
  have hlogical : c.mLogicalBlockSize = g.logicalBlockSize := congrArg Setup.logicalBlockSize hsetup
  have hioSize : c.mIoSize = g.ioSize := congrArg Setup.ioSize hsetup
  have hr : c.mFsLbaRange = g.range := congrArg Setup.range hsetup
  have hfirst : c.blockToFirstLba b = lba := by
    rw [blockToFirstLba, hfsBlockSize, hlogical, ← Setup.start, Nat.mod_eq_of_lt hchunk.fits]
    exact Nat.div_eq_of_eq_mul_left hsectorPos hstart
  have hmasked : g.logicalBlockSize = 512 → lba &&& complement 0b111 = lba := by
    intro hsector
    have height : 8 ∣ lbas := by
      have hpage := h.page_dvd
      rw [hlbas, hsector] at hpage
      unfold pageSize at hpage
      omega
    have hdvd : 8 ∣ lba := hlba ▸ Dvd.dvd.mul_left height _
    have hround := and_complement (n := 8) (x := lba) ⟨3, rfl⟩ (by decide) (by omega)
    rwa [Nat.div_mul_cancel hdvd] at hround
  have hcondition : (if c.mFsBlockSize < c.mIoSize ∧ c.mLogicalBlockSize = 512 then
      lba &&& complement 0b111 else lba) = lba := by
    split
    · rename_i hsmall
      exact hmasked (hlogical ▸ hsmall.2)
    · rfl
  refine ⟨⟨g.range.mBegin + lba, g.range.mBegin + lba + lbas⟩, ?_, ?_, ?_, ?_⟩
  · rw [blockToLbaRange, hfirst, hcondition, hr, hioSize, hlogical, hlbas,
      Nat.mul_div_cancel_left _ hsectorPos, Nat.mod_eq_of_lt (by omega)]
    exact ofLength_eq_ok (by omega)
  · rw [hr, containsRange, Bool.and_eq_true, contains_iff, decide_eq_true_iff]
    dsimp only
    omega
  · rw [add_mul, hstart, Setup.base]
  · rw [length, Nat.add_sub_cancel_left, hlbas, mul_comm]

variable {info : StorageInfo} {device memory : Nat → UInt8} {range rg : Range}
  {fsBlockSize blockCapacity region r : Nat}

lemma exists_max_pageSize (hpower : fsBlockSize.isPowerOfTwo) : ∃ perIo, max pageSize fsBlockSize =
    perIo * fsBlockSize ∧ perIo.isPowerOfTwo ∧ perIo ≤ pageSize ∧ pageSize ∣ max pageSize fsBlockSize := by
  obtain ⟨k, rfl⟩ := hpower
  have hpage : pageSize = 2 ^ 12 := by decide
  rw [hpage]
  rcases le_total k 12 with hk | hk
  · rw [max_eq_left (Nat.pow_le_pow_right (by decide) hk)]
    refine ⟨2 ^ (12 - k), ?_, ⟨_, rfl⟩, ?_, dvd_refl _⟩
    · rw [← pow_add, Nat.sub_add_cancel hk]
    · exact Nat.pow_le_pow_right (by decide) (sub_le _ _)
  · rw [max_eq_right (Nat.pow_le_pow_right (by decide) hk)]
    exact ⟨1, (one_mul _).symm, ⟨0, rfl⟩, by decide, pow_dvd_pow 2 hk⟩

lemma ioSizeOf_eq (hpower : fsBlockSize.isPowerOfTwo) : ioSizeOf fsBlockSize = .ok (max pageSize fsBlockSize) := by
  obtain ⟨perIo, -, -, -, hdvd⟩ := exists_max_pageSize hpower
  rw [ioSizeOf]
  by_cases hle : pageSize ≤ fsBlockSize
  · rw [max_eq_right hle] at hdvd ⊢
    rw [if_pos hle, assert_bind (mod_eq_zero_of_dvd hdvd)]
    rfl
  · rw [max_eq_left (Nat.le_of_not_le hle), if_neg hle, assert_bind (Nat.zero_mod _)]
    rfl

lemma create_eq (device memory : Nat → UInt8) (rg : Range) (r : Nat)
    (hmedium : info.mediumType ≠ .ram) (hsector : info.logicalBlockSize = 512 ∨ info.logicalBlockSize = 4096)
    (hpower : fsBlockSize.isPowerOfTwo) (hcap : max pageSize fsBlockSize ≤ blockCapacity * fsBlockSize) : ∃ c,
    create info device memory rg fsBlockSize blockCapacity r = .ok c ∧
    { c.setup with range := {} }.Valid ∧ c.setup.range = rg ∧ c.setup.ioSize = max pageSize fsBlockSize ∧
    c.setup.logicalBlockSize = info.logicalBlockSize ∧ c.setup.fsBlockSize = fsBlockSize ∧ c.device = device ∧
    c.mCachedBlocks = [] ∧ c.mBlockToCache = (fun _ => none) ∧ c.nextObject = 0 ∧ c.mOffsetWithinRegion =
    0 := by
  obtain ⟨perIo, hio, hperIo, hle, hdvd⟩ := exists_max_pageSize hpower
  have hpos : 0 < fsBlockSize := by
    obtain ⟨k, rfl⟩ := hpower
    exact Nat.two_pow_pos k
  have hperIoPos : 0 < perIo := by
    obtain ⟨k, rfl⟩ := hperIo
    exact Nat.two_pow_pos k
  have hdiv : max pageSize fsBlockSize / fsBlockSize = perIo := by rw [hio, Nat.mul_div_cancel _ hpos]
  have hperIoLe : perIo ≤ blockCapacity := by
    rw [hio] at hcap
    exact Nat.le_of_mul_le_mul_right hcap hpos
  have hblocks : 0 < blockCapacity / perIo := div_pos hperIoLe hperIoPos
  refine ⟨{
    mFsLbaRange := rg
    mIoSize := max pageSize fsBlockSize
    mLogicalBlockSize := info.logicalBlockSize
    mFsBlockSize := fsBlockSize
    mFsBlocksPerIo := perIo
    mCapacity := blockCapacity / perIo
    mRegion := r
    memory := memory
    device := device }, ?_, ?_, rfl, rfl, rfl, rfl, rfl, rfl, rfl, rfl, rfl⟩
  · rw [create, assert_bind (show blockCapacity ≠ 0 by omega),
      assert_bind hsector, if_neg hmedium, ioSizeOf_eq hpower, ok_bind, hdiv]
    rw [assert_bind hblocks.ne']
    rfl
  · exact {
      io_eq := hio
      power := hperIo
      perIo_le := hle
      fs_pos := hpos
      page_dvd := hdvd
      sector := hsector
      capacity_pos := hblocks
      range_le := le_refl 0
      range_lt := show 0 < addressSpace by decide
      whole := by simp [Setup.bytes, length] }

/-- The cache block with the file system block is in the range, and its sectors hold the block at the offset that
`cached_block` returns. -/
def Cacheable (cache : DiskCache) (blockIndex : Nat) : Prop :=
  let offset := (blockIndex - cache.blockIndexToCachedIndex blockIndex) * cache.mFsBlockSize
  ∃ lbaRange, cache.blockToLbaRange (cache.blockIndexToCachedIndex blockIndex) = .ok lbaRange ∧
    cache.mFsLbaRange.containsRange lbaRange = true ∧
    lbaRange.mBegin * cache.mLogicalBlockSize + offset =
      cache.mFsLbaRange.mBegin * cache.mLogicalBlockSize + blockIndex * cache.mFsBlockSize ∧
    lbaRange.length * cache.mLogicalBlockSize = cache.mIoSize ∧ offset + cache.mFsBlockSize ≤ cache.mIoSize

/-- `cached_block` loads a block only if the sectors that `Cacheable` speaks of are in the range. -/
lemma contains_of_cachedBlock {c : DiskCache} {b : Nat} {r : DiskCache × Nat × Nat}
    (hnone : c.mBlockToCache (c.blockIndexToCachedIndex b) = none) (hroom : c.mCachedBlocks.length ≠ c.mCapacity)
    (hok : c.cachedBlock b = .ok r) : ∃ lbaRange, c.blockToLbaRange (c.blockIndexToCachedIndex b) = .ok lbaRange ∧
    c.mFsLbaRange.containsRange lbaRange = true := by
  rw [cachedBlock, hnone, loadBlock, if_neg hroom, ok_bind] at hok
  obtain ⟨_, hload, -⟩ := of_bind hok
  obtain ⟨lbaRange, hrange, hload⟩ := of_bind hload
  obtain ⟨_, hcon, -⟩ := of_bind hload
  exact ⟨lbaRange, hrange, assert_eq_ok.mp hcon⟩

lemma Cacheable.flushBlock {c : DiskCache} {b block : Nat} (h : c.Cacheable b)
    (hfirst : (c.objects block).firstBlock = c.blockIndexToCachedIndex b) : ∃ c', c.flushBlock block = .ok c' := by
  obtain ⟨lbaRange, hrange, hcon, -⟩ := h
  rw [DiskCache.flushBlock, hfirst, hrange, ok_bind, hcon]
  split <;> exact ⟨_, rfl⟩

/-- In whatever state a cache is, a block of its range can be cached if and only if the whole cache block around
it is in the range. -/
theorem cacheable_iff (info : StorageInfo) (device memory : Nat → UInt8) (range : Range)
    (fsBlockSize blockCapacity region : Nat) (hmedium : info.mediumType ≠ .ram) (hsector : info.logicalBlockSize = 512 ∨
    info.logicalBlockSize = 4096) (hpower : fsBlockSize.isPowerOfTwo)
    (hcapacity : max pageSize fsBlockSize ≤ blockCapacity * fsBlockSize) (hrange : range.mBegin ≤ range.mEnd)
    (hend : range.mEnd < addressSpace) : ∃ created, create info device memory range fsBlockSize blockCapacity region =
    .ok created ∧ ∀ c : DiskCache, c.setup = created.setup → ∀ b, c.setup.InRange b → (c.Cacheable b ↔
    c.setup.first b * fsBlockSize + max pageSize fsBlockSize ≤ range.length * info.logicalBlockSize) := by
  obtain ⟨created, hcr, hsized, hrangeEq, hioSize, hlogical, hfs, -⟩ :=
    create_eq device memory range region hmedium hsector hpower hcapacity
  refine ⟨created, hcr, fun c hsetup b hin => ?_⟩
  rw [← hsetup] at hsized hrangeEq hioSize hlogical hfs
  rw [← hioSize, ← hfs, ← hrangeEq, ← hlogical]
  have hi : c.blockIndexToCachedIndex b = c.setup.first b :=
    and_complement hsized.power (hsized.perIo_le.trans (by decide))
      (lt_of_le_of_lt (Nat.le_mul_of_pos_right b hsized.fs_pos) hin.fits)
  obtain ⟨hstart, hinside⟩ := Setup.start_eq_first hsized b
  rw [Cacheable, hi]
  constructor
  · rintro ⟨lbaRange, -, hcon, hposition, hlen, -⟩
    dsimp only [Setup.start, Setup.first, setup] at *
    rw [containsRange, Bool.and_eq_true, contains_iff, decide_eq_true_iff] at hcon
    have hends := mul_le_mul_right c.mLogicalBlockSize hcon.2
    have hpos : 0 < c.mIoSize := hsized.io_pos
    rw [length, Nat.sub_mul] at hlen ⊢
    omega
  · intro hle
    have hfits := mul_le_mul_right c.mFsBlockSize (div_mul_le_self b c.mFsBlocksPerIo)
    obtain ⟨lbaRange, hok, hcon, hbegin, hlen⟩ := blockToLbaRange_eq rfl hsized (hrangeEq ▸ hrange)
      (hrangeEq ▸ hend) ⟨dvd_mul_left _ _, hle, hfits.trans_lt hin.fits⟩
    refine ⟨lbaRange, hok, hcon, ?_, hlen, hinside⟩
    rw [show lbaRange.mBegin * c.mLogicalBlockSize = _ from hbegin, add_assoc]
    exact congrArg _ hstart.symm

theorem cacheable_iff_sample : ∃ c, create ⟨512, .hdd⟩ (fun _ => 0) (fun _ => 0) ⟨2, 11⟩ 512 8 0 = .ok c ∧
    c.Cacheable 7 := by
  obtain ⟨c, hcr, hcacheable⟩ := cacheable_iff ⟨512, .hdd⟩ (fun _ => 0) (fun _ => 0) ⟨2, 11⟩ 512 8 0
    (by decide) (by decide) ⟨9, rfl⟩ (by decide) (by decide) (by decide)
  refine ⟨c, hcr, (hcacheable c rfl 7 ?_).mpr ?_⟩ <;> cases hcr <;> decide

theorem not_cacheable_last : ∃ c, create ⟨512, .hdd⟩ (fun _ => 0) (fun _ => 0) ⟨2, 11⟩ 512 8 0 = .ok c ∧
    c.setup.InRange 8 ∧ ¬c.Cacheable 8 ∧
    c.cachedBlock 8 = .error (.assertion "m_fs_lba_range.contains(lba_range)") := by
  refine ⟨_, rfl, by decide, ?_, rfl⟩
  rintro ⟨lbaRange, hok, hcon, -⟩
  cases hok
  cases hcon

end DiskCache

end UltraOS
