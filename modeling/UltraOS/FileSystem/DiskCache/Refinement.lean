import UltraOS.FileSystem.DiskCache.Setup
import UltraOS.Library.Machine

/-!
# A disk cache is a flat array of bytes

The relation between a cache and the bytes that its users see: every buffer holds the bytes of its
cache block, and the device holds all bytes except those of dirty blocks. The parts of the cache keep
it, and the requests follow.
-/

namespace UltraOS.DiskCache

open CellMemory List Function CachedBlock Setup

/-- The list of the cached blocks and the map agree, without duplicates. -/
structure InStep (cache : DiskCache) : Prop where
  nodup : cache.mCachedBlocks.Nodup
  length_le : cache.mCachedBlocks.length ≤ cache.mCapacity
  mapped : ∀ blockIndex block, cache.mBlockToCache blockIndex = some block ↔
    block ∈ cache.mCachedBlocks ∧ (cache.objects block).firstBlock = blockIndex

/-- The cache stands for the bytes of the partition. -/
structure Refines (g : Setup) (cache : DiskCache) (bytes : Nat → UInt8) : Prop where
  valid : g.Valid
  setup_eq : cache.setup = g
  inStep : cache.InStep
  allocated : ∀ block ∈ cache.mCachedBlocks, block < cache.nextObject
  region_eq : cache.mOffsetWithinRegion = cache.nextObject * g.ioSize
  buffer_eq : ∀ block < cache.nextObject, (cache.objects block).virtualAddress = g.region + block * g.ioSize
  chunk : ∀ block ∈ cache.mCachedBlocks, g.Chunk (cache.objects block).firstBlock
  held : ∀ block ∈ cache.mCachedBlocks, ∀ i < g.ioSize, cache.memory ((cache.objects block).virtualAddress + i) =
      bytes (g.start (cache.objects block).firstBlock + i)
  written : ∀ i < g.bytes, (∀ block ∈ cache.mCachedBlocks, (cache.objects block).isDirty = true →
      ¬g.Covers (cache.objects block).firstBlock i) →
    cache.device (g.base + i) = bytes i

variable {g : Setup} {c : DiskCache} {bs : Nat → UInt8} {block b : Nat} {u i : Nat}
  (h : Refines g c bs) (hb : block ∈ c.mCachedBlocks)
  (hclean : (c.objects block).isDirty = false)

namespace Refines

variable (hu : u ∈ c.mCachedBlocks)

include h hb hu in
lemma eq_of_firstBlock_eq (heq : (c.objects block).firstBlock = (c.objects u).firstBlock) : block = u := by
  have hmapped := (h.inStep.mapped _ _).mpr ⟨hb, heq⟩
  rw [(h.inStep.mapped _ _).mpr ⟨hu, rfl⟩] at hmapped
  exact (Option.some.inj hmapped).symm

include h hb hu in
lemma outside (hne : block ≠ u) (hi : g.Covers (c.objects block).firstBlock i) :
    ¬g.Covers (c.objects u).firstBlock i := by
  intro hi'
  apply hne
  apply h.eq_of_firstBlock_eq hb hu
  exact (h.chunk block hb).unique h.valid (h.chunk u hu) hi hi'

lemma apart (h : Refines g c bs) {j : Nat} (hb : block < c.nextObject)
    (hu : u < c.nextObject) (hne : block ≠ u) (hi : i < g.ioSize) (hj : j < g.ioSize) :
    (c.objects block).virtualAddress + i ≠ (c.objects u).virtualAddress + j := by
  intro heq
  apply hne
  rw [h.buffer_eq block hb, h.buffer_eq u hu] at heq
  have hsum : block * g.ioSize + i = u * g.ioSize + j := by omega
  calc block = (block * g.ioSize + i) / g.ioSize := by
        rw [mul_comm, Nat.mul_add_div h.valid.io_pos, Nat.div_eq_of_lt hi, add_zero]
    _ = (u * g.ioSize + j) / g.ioSize := by rw [hsum]
    _ = u := by rw [mul_comm, Nat.mul_add_div h.valid.io_pos, Nat.div_eq_of_lt hj, add_zero]

lemma change {cache' : DiskCache} {bytes' : Nat → UInt8} (h : Refines g c bs)
    (hsetup : cache'.setup = c.setup) (hperm : cache'.mCachedBlocks.Perm c.mCachedBlocks)
    (hmap : cache'.mBlockToCache = c.mBlockToCache) (ho : cache'.mOffsetWithinRegion = c.mOffsetWithinRegion)
    (hnext : cache'.nextObject = c.nextObject)
    (ha : ∀ block, (cache'.objects block).virtualAddress = (c.objects block).virtualAddress)
    (hfirst : ∀ block, (cache'.objects block).firstBlock = (c.objects block).firstBlock)
    (hheld : ∀ block ∈ c.mCachedBlocks, ∀ i < g.ioSize, cache'.memory ((c.objects block).virtualAddress + i) =
        bytes' (g.start (c.objects block).firstBlock + i)) (hwritten : ∀ i < g.bytes, (∀ block ∈ c.mCachedBlocks,
        (cache'.objects block).isDirty = true → ¬g.Covers (c.objects block).firstBlock i) →
      cache'.device (g.base + i) = bytes' i) : Refines g cache' bytes' where
  valid := h.valid
  setup_eq := hsetup.trans h.setup_eq
  inStep := {
    nodup := hperm.nodup_iff.mpr h.inStep.nodup
    length_le := by
      rw [hperm.length_eq, show cache'.mCapacity = c.mCapacity from congrArg capacity hsetup]
      exact h.inStep.length_le
    mapped := fun b block => by rw [hmap, hperm.mem_iff, hfirst, h.inStep.mapped] }
  allocated := fun block hb => hnext ▸ h.allocated block (hperm.mem_iff.mp hb)
  region_eq := by rw [ho, hnext, h.region_eq]
  buffer_eq := fun block hb => by rw [ha, h.buffer_eq block (hnext ▸ hb)]
  chunk := fun block hb => hfirst block ▸ h.chunk block (hperm.mem_iff.mp hb)
  held := fun block hb i hi => by
    rw [ha, hfirst]
    exact hheld block (hperm.mem_iff.mp hb) i hi
  written := fun i hi hclean => by
    apply hwritten i hi
    intro block hb hdirty
    rw [← hfirst]
    exact hclean block (hperm.mem_iff.mpr hb) hdirty

end Refines

lemma apply_update {α : Type} (field : CachedBlock → α) {objects : Nat → CachedBlock} {v : CachedBlock}
    (h : field v = field (objects block)) (u : Nat) : field (update objects block v u) = field (objects u) := by
  by_cases heq : u = block
  · rw [heq, update_self, h]
  · rw [update_of_ne heq]

def flushed (g : Setup) (cache : DiskCache) (block : Nat) : DiskCache :=
  { cache with
    device := store cache.device (g.base + g.start (cache.objects block).firstBlock)
      (load cache.memory (cache.objects block).virtualAddress g.ioSize)
    objects := update cache.objects block { cache.objects block with isDirty := false } }

lemma flushBlock_eq (hsetup : c.setup = g) (hvalid : g.Valid) (hchunk : g.Chunk (c.objects block).firstBlock)
    (hdirty : (c.objects block).isDirty = true) : c.flushBlock block = .ok (flushed g c block) := by
  obtain ⟨r, hr, hcon, hbegin, hlen⟩ := blockToLbaRange_eq hsetup hvalid.sized hvalid.range_le hvalid.range_lt hchunk
  rw [← show c.mLogicalBlockSize = g.logicalBlockSize from congrArg logicalBlockSize hsetup] at hbegin hlen
  rw [flushBlock, if_pos hdirty, hr, ok_bind, hcon, assert_true, ok_bind, writeSectors, hbegin, hlen]
  rfl

include hclean in
lemma flushBlock_of_clean : c.flushBlock block = .ok c := by rw [flushBlock, hclean, if_neg (by simp)]

lemma flushed_device (g : Setup) (hi : i < g.ioSize) :
    (flushed g c block).device (g.base + g.start (c.objects block).firstBlock + i) =
    c.memory ((c.objects block).virtualAddress + i) :=
  store_load hi

lemma flushed_clean : ((flushed g c block).objects block).isDirty = false := by simp [flushed]

include h hb in
lemma Refines.flush : Refines g (flushed g c block) bs := by
  refine h.change rfl (List.Perm.refl _) rfl rfl rfl (apply_update virtualAddress rfl)
    (apply_update firstBlock rfl) h.held ?_
  intro i hi hclean
  by_cases hcovers : g.Covers (c.objects block).firstBlock i
  · obtain ⟨k, rfl⟩ := Nat.exists_eq_add_of_le hcovers.1
    have hk : k < g.ioSize := by
      have hlt := hcovers.2
      omega
    rw [← add_assoc, flushed_device g hk]
    exact h.held block hb k hk
  · have houtside : (flushed g c block).device (g.base + i) = c.device (g.base + i) := by
      apply store_outside
      rw [length_load]
      unfold Setup.Covers at hcovers
      omega
    rw [houtside]
    apply h.written i hi
    intro u hu hdirty
    by_cases heq : u = block
    · exact heq ▸ hcovers
    · apply hclean u hu
      exact (congrArg isDirty (update_of_ne heq _ _)).trans hdirty

def dropped (cache : DiskCache) (block : Nat) : DiskCache :=
  { cache with
    mCachedBlocks := cache.mCachedBlocks.dropLast
    mBlockToCache := update cache.mBlockToCache (cache.objects block).firstBlock none
    objects := update cache.objects block { cache.objects block with firstBlock := 0 } }

/-- An object whose buffer is free for another cache block. -/
structure Spare (g : Setup) (cache : DiskCache) (bytes : Nat → UInt8) (block : Nat) : Prop where
  refines : Refines g cache bytes
  notMem : block ∉ cache.mCachedBlocks
  lt : block < cache.nextObject
  clean : (cache.objects block).isDirty = false
  room : cache.mCachedBlocks.length < cache.mCapacity

lemma Refines.drop {xs : List Nat} (h : Refines g c bs) (hlist : c.mCachedBlocks = xs ++ [block])
    (hclean : (c.objects block).isDirty = false) : Spare g (dropped c block) bs block := by
  have hdrop : (dropped c block).mCachedBlocks = xs := by rw [dropped, hlist, dropLast_concat]
  have hb : block ∈ c.mCachedBlocks := by simp [hlist]
  have hmem : ∀ u, u ∈ c.mCachedBlocks ↔ u ∈ xs ∨ u = block := by simp [hlist]
  have hnodup : xs.Nodup ∧ block ∉ xs := by
    have hall := h.inStep.nodup
    rw [hlist, nodup_append] at hall
    exact ⟨hall.1, fun hfront => hall.2.2 block hfront block (mem_singleton_self block) rfl⟩
  have hne : ∀ u ∈ xs, u ≠ block := fun u hu heq => hnodup.2 (heq ▸ hu)
  have hobj : ∀ u ∈ xs, (dropped c block).objects u = c.objects u := fun u hu => update_of_ne (hne u hu) _ _
  have hmapped : ∀ b u, (dropped c block).mBlockToCache b = some u ↔
      u ∈ (dropped c block).mCachedBlocks ∧ ((dropped c block).objects u).firstBlock = b := by
    intro b u
    rw [hdrop, show (dropped c block).mBlockToCache b =
      if b = (c.objects block).firstBlock then none else c.mBlockToCache b
      from update_apply ..]
    constructor
    · intro hsome
      split at hsome
      · cases hsome
      · rename_i hkey
        obtain ⟨hu, hfirst⟩ := (h.inStep.mapped b u).mp hsome
        rcases (hmem u).mp hu with hfront | rfl
        · exact ⟨hfront, hobj u hfront ▸ hfirst⟩
        · exact absurd hfirst.symm hkey
    · rintro ⟨hu, hfirst⟩
      rw [hobj u hu] at hfirst
      have hcached := (hmem u).mpr (.inl hu)
      rw [if_neg]
      · exact (h.inStep.mapped b u).mpr ⟨hcached, hfirst⟩
      · intro hkey
        exact hne u hu (h.eq_of_firstBlock_eq hcached hb (hfirst.trans hkey))
  have hlen := h.inStep.length_le
  rw [hlist, length_append, length_singleton] at hlen
  exact {
    refines := {
      valid := h.valid
      setup_eq := h.setup_eq
      inStep := {
        nodup := hdrop ▸ hnodup.1
        length_le := by
          rw [hdrop]
          exact Nat.le_of_succ_le hlen
        mapped := hmapped }
      allocated := fun u hu => h.allocated u ((hmem u).mpr (.inl (hdrop ▸ hu)))
      region_eq := h.region_eq
      buffer_eq := fun u hu => by
        rw [← h.buffer_eq u hu]
        exact apply_update virtualAddress (by rfl) u
      chunk := fun u hu => by
        rw [hdrop] at hu
        rw [hobj u hu]
        exact h.chunk u ((hmem u).mpr (.inl hu))
      held := fun u hu => by
        rw [hdrop] at hu
        rw [hobj u hu]
        exact h.held u ((hmem u).mpr (.inl hu))
      written := by
        intro i hi hcovers
        apply h.written i hi
        intro u hu hdirty
        rcases (hmem u).mp hu with hu | rfl
        · rw [← hobj u hu]
          exact hcovers u (hdrop ▸ hu) (hobj u hu ▸ hdirty)
        · rw [hclean] at hdirty
          cases hdirty }
    notMem := hdrop ▸ hnodup.2
    lt := h.allocated block hb
    clean := by
      rw [← hclean]
      exact apply_update isDirty (by rfl) block
    room := by
      rw [hdrop]
      exact hlen }

include h hb hclean in
lemma Refines.device_of_clean (hi : i < g.ioSize) : c.device (g.base + g.start (c.objects block).firstBlock + i) =
    c.memory ((c.objects block).virtualAddress + i) := by
  rw [h.held block hb i hi, add_assoc]
  apply h.written
  · have hin := (h.chunk block hb).inside
    omega
  · intro u hu hdirty
    apply h.outside hb hu
    · rintro rfl
      rw [hclean] at hdirty
      cases hdirty
    · exact ⟨le_self_add, Nat.add_lt_add_left hi _⟩

lemma Refines.evictOne (h : Refines g c bs) (hne : c.mCachedBlocks ≠ []) : ∃ cache' block, c.evictOne =
    .ok (cache', block) ∧ Spare g cache' bs block ∧ block ∈ c.mCachedBlocks ∧ (∀ b, c.mBlockToCache b = none →
    cache'.mBlockToCache b = none) ∧ ∀ i < g.ioSize, cache'.device (g.base + g.start (c.objects block).firstBlock + i) =
    c.memory ((c.objects block).virtualAddress + i) := by
  obtain ⟨xs, block, hlist⟩ := (eq_nil_or_concat c.mCachedBlocks).resolve_left hne
  have hb : block ∈ c.mCachedBlocks := by simp [hlist]
  have hlast : c.mCachedBlocks.getLast? = some block := by simp [hlist]
  have hunmapped : ∀ b key, c.mBlockToCache b = none → update c.mBlockToCache key none b = none := by
    intro b key hnone
    rw [update_apply, hnone, ite_self]
  cases hdirty : (c.objects block).isDirty with
  | false =>
    refine ⟨dropped c block, block, ?_, h.drop (concat_eq_append ▸ hlist) hdirty, hb,
      fun b => hunmapped b _, fun i hi => h.device_of_clean hb hdirty hi⟩
    rw [DiskCache.evictOne, popBack, hlast, ok_bind]
    dsimp only
    rw [hdirty, if_neg (by simp), ok_bind]
    rfl
  | true =>
    have hflushed := h.flush hb
    refine ⟨dropped (flushed g c block) block, block, ?_, ?_, hb,
      fun b => hunmapped b _, fun i hi => flushed_device g hi⟩
    · have hflush : ({ c with mCachedBlocks := c.mCachedBlocks.dropLast } : DiskCache).flushBlock
          block = .ok (flushed g { c with mCachedBlocks := c.mCachedBlocks.dropLast } block) :=
        flushBlock_eq h.setup_eq h.valid (h.chunk block hb) hdirty
      rw [DiskCache.evictOne, popBack, hlast, ok_bind]
      dsimp only
      rw [hdirty, if_pos rfl, hflush, ok_bind]
      rfl
    · exact hflushed.drop (concat_eq_append ▸ hlist) flushed_clean

variable {cells : List UInt8}

lemma Refines.newCachedBlock (h : Refines g c bs) (hroom : c.mCachedBlocks.length < c.mCapacity) :
    Spare g c.newCachedBlock.1 bs c.nextObject := by
  have hioSize : c.mIoSize = g.ioSize := congrArg ioSize h.setup_eq
  have hr : c.mRegion = g.region := congrArg region h.setup_eq
  have hobj : ∀ u ∈ c.mCachedBlocks, c.newCachedBlock.1.objects u = c.objects u :=
    fun u hu => update_of_ne (h.allocated u hu).ne _ _
  have hnew : c.newCachedBlock.1.objects c.nextObject =
      { virtualAddress := c.mRegion + c.mOffsetWithinRegion } := update_self _ _ _
  exact {
    refines := {
      valid := h.valid
      setup_eq := h.setup_eq
      inStep := {
        nodup := h.inStep.nodup
        length_le := h.inStep.length_le
        mapped := by
          intro b u
          refine (h.inStep.mapped b u).trans (and_congr_right fun hu => ?_)
          rw [hobj u hu] }
      allocated := fun u hu => Nat.lt_succ_of_lt (h.allocated u hu)
      region_eq := by rw [DiskCache.newCachedBlock, h.region_eq, hioSize, Nat.add_one_mul]
      buffer_eq := by
        intro u hu
        rcases Nat.lt_succ_iff_lt_or_eq.mp hu with hlt | rfl
        · rw [← h.buffer_eq u hlt]
          exact congrArg virtualAddress (update_of_ne hlt.ne _ _)
        · rw [hnew, ← hr, ← h.region_eq]
      chunk := fun u hu => hobj u hu ▸ h.chunk u hu
      held := fun u hu => hobj u hu ▸ h.held u hu
      written := by
        intro i hi hclean
        apply h.written i hi
        intro u hu hdirty
        rw [← hobj u hu]
        exact hclean u hu (hobj u hu ▸ hdirty) }
    notMem := fun hmem => lt_irrefl _ (h.allocated _ hmem)
    lt := lt_add_one _
    clean := by rw [hnew]
    room := hroom }

def loaded (g : Setup) (cache : DiskCache) (block blockIndex : Nat) : DiskCache :=
  { cache with
    mCachedBlocks := block :: cache.mCachedBlocks
    mBlockToCache := update cache.mBlockToCache blockIndex (some block)
    objects := update cache.objects block { cache.objects block with firstBlock := blockIndex }
    memory := store cache.memory (cache.objects block).virtualAddress
      (load cache.device (g.base + g.start blockIndex) g.ioSize) }

lemma Refines.store_apart (h : Refines g c bs) (o : Nat) (hb : block < c.nextObject) (hu : u < c.nextObject)
    (hne : block ≠ u) (hcells : o + cells.length ≤ g.ioSize) (hi : i < g.ioSize) :
    store c.memory ((c.objects block).virtualAddress + o) cells ((c.objects u).virtualAddress + i) =
    c.memory ((c.objects u).virtualAddress + i) := by
  apply store_outside
  by_contra hin
  apply h.apart hb hu hne (i := (c.objects u).virtualAddress + i - (c.objects block).virtualAddress) (j := i)
  · omega
  · exact hi
  · omega

lemma Spare.load (h : Spare g c bs block) (hchunk : g.Chunk b) (hnone : c.mBlockToCache b = none) :
    Refines g (loaded g c block b) bs := by
  have hr := h.refines
  have hne : ∀ u ∈ c.mCachedBlocks, u ≠ block := fun u hu heq => h.notMem (heq ▸ hu)
  have hobj : ∀ u ∈ c.mCachedBlocks, (loaded g c block b).objects u = c.objects u :=
    fun u hu => update_of_ne (hne u hu) _ _
  have hnew : (loaded g c block b).objects block = { c.objects block with firstBlock := b } := update_self _ _ _
  have hu : ∀ u ∈ c.mCachedBlocks, (c.objects u).firstBlock ≠ b := by
    intro u hu hfirst
    rw [(hr.inStep.mapped b u).mpr ⟨hu, hfirst⟩] at hnone
    cases hnone
  have hmapped : ∀ key u, (loaded g c block b).mBlockToCache key = some u ↔
      u ∈ block :: c.mCachedBlocks ∧ ((loaded g c block b).objects u).firstBlock = key := by
    intro key u
    rw [show (loaded g c block b).mBlockToCache key =
      if key = b then some block else c.mBlockToCache key from update_apply ..,
      mem_cons]
    constructor
    · intro hsome
      split at hsome
      · rename_i hkey
        cases hsome
        exact ⟨.inl rfl, by rw [hnew, hkey]⟩
      · obtain ⟨hmem, hfirst⟩ := (hr.inStep.mapped key u).mp hsome
        exact ⟨.inr hmem, hobj u hmem ▸ hfirst⟩
    · rintro ⟨rfl | hmem, hfirst⟩
      · rw [hnew] at hfirst
        rw [if_pos hfirst.symm]
      · rw [hobj u hmem] at hfirst
        rw [if_neg (hfirst ▸ hu u hmem)]
        exact (hr.inStep.mapped key u).mpr ⟨hmem, hfirst⟩
  have hloaded : ∀ i < g.ioSize, c.device (g.base + g.start b + i) = bs (g.start b + i) := by
    intro i hi
    rw [add_assoc]
    apply hr.written
    · have hin := hchunk.inside
      omega
    · intro u hmem _ hcovers
      exact hu u hmem ((hr.chunk u hmem).unique hr.valid hchunk hcovers ⟨le_self_add, Nat.add_lt_add_left hi _⟩)
  exact {
    valid := hr.valid
    setup_eq := hr.setup_eq
    inStep := {
      nodup := nodup_cons.mpr ⟨h.notMem, hr.inStep.nodup⟩
      length_le := h.room
      mapped := hmapped }
    allocated := by
      rintro u (_ | ⟨_, hmem⟩)
      · exact h.lt
      · exact hr.allocated u hmem
    region_eq := hr.region_eq
    buffer_eq := fun u hlt => by
      rw [← hr.buffer_eq u hlt]
      exact apply_update virtualAddress (by rfl) u
    chunk := by
      rintro u (_ | ⟨_, hmem⟩)
      · rwa [hnew]
      · rw [hobj u hmem]
        exact hr.chunk u hmem
    held := by
      rintro u (_ | ⟨_, hmem⟩) i hi
      · rw [hnew, ← hloaded i hi]
        exact store_load hi
      · rw [hobj u hmem, ← hr.held u hmem i hi]
        exact hr.store_apart 0 h.lt (hr.allocated u hmem) (hne u hmem).symm (by rw [length_load, zero_add]) hi
    written := by
      intro i hi hclean
      apply hr.written i hi
      intro u hmem hdirty
      rw [← hobj u hmem]
      exact hclean u (mem_cons_of_mem _ hmem) (hobj u hmem ▸ hdirty) }

lemma Spare.finish (h : Spare g c bs block) (hchunk : g.Chunk b) : (do
      let lbaRange ← c.blockToLbaRange b
      assert (c.mFsLbaRange.containsRange lbaRange) "m_fs_lba_range.contains(lba_range)"
      let c := c.readSectors (c.objects block).virtualAddress lbaRange
      let c := c.setFirstBlock block b
      let c ← c.insertFront block
      return ({ c with
          mBlockToCache := update c.mBlockToCache b (some block) }, block) :
      Run (DiskCache × Nat)) = .ok (loaded g c block b, block) := by
  obtain ⟨r, hr, hcon, hbegin, hlen⟩ :=
    have hvalid := h.refines.valid
    blockToLbaRange_eq h.refines.setup_eq hvalid.sized hvalid.range_le hvalid.range_lt hchunk
  rw [← show c.mLogicalBlockSize = g.logicalBlockSize from congrArg logicalBlockSize h.refines.setup_eq] at hbegin hlen
  rw [hr, ok_bind, hcon, assert_true, ok_bind]
  dsimp only
  rw [readSectors, hbegin, hlen, setFirstBlock, insertFront]
  rw [assert_bind h.notMem]
  rfl

lemma Refines.loadBlock (h : Refines g c bs) (hchunk : g.Chunk b) (hnone : c.mBlockToCache b = none) :
    ∃ cache' block, c.loadBlock b = .ok (cache', block) ∧ Refines g cache' bs ∧
    block ∈ cache'.mCachedBlocks ∧ (cache'.objects block).firstBlock = b := by
  have hfirst : ∀ (c : DiskCache) (block : Nat), ((loaded g c block b).objects block).firstBlock = b := by
    intro c block
    simp [loaded]
  have hlen := h.inStep.length_le
  rw [DiskCache.loadBlock]
  by_cases hfull : c.mCachedBlocks.length = c.mCapacity
  · have hne : c.mCachedBlocks ≠ [] := by
      intro hnil
      have hpos := h.valid.capacity_pos
      rw [← show c.mCapacity = g.capacity from congrArg capacity h.setup_eq, ← hfull, hnil] at hpos
      exact hpos.false
    obtain ⟨cache', block, hevict, hspare, -, hunmapped, -⟩ := h.evictOne hne
    refine ⟨loaded g cache' block b, block, ?_, hspare.load hchunk (hunmapped _ hnone),
      mem_cons_self, hfirst cache' block⟩
    rw [if_pos hfull, hevict, ok_bind]
    exact hspare.finish hchunk
  · have hspare := h.newCachedBlock (lt_of_le_of_ne hlen hfull)
    refine ⟨loaded g c.newCachedBlock.1 c.nextObject b, c.nextObject, ?_,
      hspare.load hchunk hnone, mem_cons_self, hfirst _ _⟩
    rw [if_neg hfull, ok_bind]
    exact hspare.finish hchunk

lemma Refines.cachedBlock (h : Refines g c bs) (hr : g.InRange b) : ∃ cache' block, c.cachedBlock b =
    .ok (cache', block, (b - g.first b) * g.fsBlockSize) ∧ Refines g cache' bs ∧
    block ∈ cache'.mCachedBlocks ∧ (cache'.objects block).firstBlock = g.first b := by
  rw [DiskCache.cachedBlock]
  rw [blockIndexToCachedIndex_eq h.setup_eq h.valid hr,
    show c.mFsBlockSize = g.fsBlockSize from congrArg fsBlockSize h.setup_eq]
  cases hmap : c.mBlockToCache (g.first b) with
  | none =>
    obtain ⟨cache', block, hload, href, hmem, hfirst⟩ := h.loadBlock (hr.chunk h.valid) hmap
    refine ⟨cache', block, ?_, href, hmem, hfirst⟩
    rw [hload]
    rfl
  | some block =>
    obtain ⟨hmem, hfirst⟩ := (h.inStep.mapped _ _).mp hmap
    refine ⟨{ c with mCachedBlocks := block :: c.mCachedBlocks.erase block }, block, ?_, ?_, mem_cons_self, hfirst⟩
    · have herase : block ∉ c.mCachedBlocks.erase block := h.inStep.nodup.not_mem_erase
      dsimp only
      rw [popOff, assert_bind hmem, pure_eq_ok, ok_bind, insertFront]
      rw [assert_bind herase]
      rfl
    · exact h.change rfl (perm_cons_erase hmem).symm rfl rfl rfl (fun _ => rfl) (fun _ => rfl) h.held h.written

include h hb in
lemma Refines.touch {o : Nat} (hcells : o + cells.length ≤ g.ioSize) :
    Refines g { c.markDirty block with
        memory := store c.memory ((c.objects block).virtualAddress + o) cells }
      (store bs (g.start (c.objects block).firstBlock + o) cells) := by
  refine h.change rfl (List.Perm.refl _) rfl rfl rfl (apply_update virtualAddress rfl)
    (apply_update firstBlock rfl) ?_ ?_
  · intro u hu i hi
    by_cases heq : u = block
    · subst heq
      exact store_shift (h.held u hu i hi)
    · have hbs : store bs (g.start (c.objects block).firstBlock + o) cells (g.start (c.objects u).firstBlock + i) =
          bs (g.start (c.objects u).firstBlock + i) := by
        apply store_outside
        have houtside := h.outside hu hb heq ⟨Nat.le_add_right _ i, Nat.add_lt_add_left hi _⟩
        unfold Setup.Covers at houtside
        omega
      rw [hbs, ← h.held u hu i hi]
      exact h.store_apart o (h.allocated block hb) (h.allocated u hu) (Ne.symm heq) hcells hi
  · intro i hi hclean
    have hcovers : ¬g.Covers (c.objects block).firstBlock i := hclean block hb (by simp [markDirty])
    have hbs : store bs (g.start (c.objects block).firstBlock + o) cells i = bs i := by
      apply store_outside
      unfold Setup.Covers at hcovers
      omega
    rw [hbs]
    apply h.written i hi
    intro u hu hdirty
    by_cases heq : u = block
    · exact heq ▸ hcovers
    · apply hclean u hu
      exact (congrArg isDirty (update_of_ne heq _ _)).trans hdirty

end UltraOS.DiskCache
