import UltraOS.FileSystem.FAT32.Lookup
import UltraOS.FileSystem.FAT32.Directory.Model
import UltraOS.Library.RunSearch

/-!
# Allocating directory slots

`allocate_entries` looks for consecutive free slots. It finds them exactly if they lie in the first
cluster of the directory: on the way to the next cluster the offset is not reset, and a directory
has no ranges from which its last cluster could be computed for an extension.
-/

namespace UltraOS.FAT32

open List RunSearch

def slotsPerCluster (fs : FAT32) : Nat := fs.mBytesPerCluster / directoryEntrySize

def SlotFree (fs : FAT32) (cluster k : Nat) : Prop :=
  isFreeMark (fs.mDataCache (cluster - reservedClusterCount) (k * directoryEntrySize)) = true

instance (fs : FAT32) (cluster k : Nat) : Decidable (SlotFree fs cluster k) :=
  inferInstanceAs (Decidable (_ = _))

/-- The file of a directory, as it is when the directory is opened, and its clusters. -/
structure DirectoryFile (fs : FAT32) (f : File) (clusters : List Nat) : Prop where
  chain : fs.Chain clusters
  first : clusters.head? = some f.mFirstCluster
  ranges : f.mContiguousRanges = []
  size : f.mSize = 0
  bytes : fs.mBytesPerCluster = fs.slotsPerCluster * directoryEntrySize
  bytes_pos : 0 < fs.mBytesPerCluster

variable {fs : FAT32} {f : File} {cs : List Nat} {c n : Nat}
  (hbs : fs.mBytesPerCluster = fs.slotsPerCluster * directoryEntrySize)

section

/-- The variables of the scan in front of slot `k` of the first cluster, behind `run` free slots. -/
def scanAt (cluster k run : Nat) : SlotScan :=
  if run = 0 then { currentCluster := cluster, currentOffset := k * directoryEntrySize }
  else
    { allocatedClusters := [cluster, 0, 0]
      lastAllocatedCluster := cluster
      lastAllocatedIndex := 1
      initialOffset := (k - run) * directoryEntrySize
      currentCluster := cluster
      currentOffset := k * directoryEntrySize
      contiguousEmpty := run }

lemma scanAt_currentCluster (c k run : Nat) : (scanAt c k run).currentCluster = c := by
  unfold scanAt
  split <;> rfl

lemma scanAt_currentOffset (c k run : Nat) : (scanAt c k run).currentOffset = k * directoryEntrySize := by
  unfold scanAt
  split <;> rfl

lemma scanAt_contiguousEmpty (c k run : Nat) : (scanAt c k run).contiguousEmpty = run := by
  unfold scanAt
  split
  · rename_i h
    exact h.symm
  · rfl

lemma scanAt_succ (c k run : Nat) : scanAt c (k + 1) (run + 1) =
      { allocatedClusters := [c, 0, 0]
        lastAllocatedCluster := c
        lastAllocatedIndex := 1
        initialOffset := (k - run) * directoryEntrySize
        currentCluster := c
        currentOffset := k * directoryEntrySize + directoryEntrySize
        contiguousEmpty := run + 1 } := by
  rw [scanAt, if_neg (Nat.succ_ne_zero run), Nat.add_sub_add_right, Nat.succ_mul]

lemma scanAt_zero (c k : Nat) : scanAt c (k + 1) 0 =
    { currentCluster := c, currentOffset := k * directoryEntrySize + directoryEntrySize } := by
  rw [scanAt, if_pos rfl, Nat.succ_mul]

lemma scanAt_extend (k run : Nat) (hc : c ≠ 0) : (scanAt c k run).extend =
    .ok { scanAt c (k + 1) (run + 1) with currentOffset := k * directoryEntrySize } := by
  rw [scanAt_succ]
  by_cases hrun : run = 0
  · subst hrun
    have hne : (0 : Nat) ≠ c := fun h => hc h.symm
    rw [scanAt, if_pos rfl, SlotScan.extend, if_pos hne]
    rfl
  · rw [scanAt, if_neg hrun, SlotScan.extend, if_neg (fun h => h rfl)]

lemma scanAt_reset (k run : Nat) : (scanAt c k run).reset =
    { scanAt c (k + 1) 0 with currentOffset := k * directoryEntrySize } := by
  rw [SlotScan.reset, scanAt_currentCluster, scanAt_currentOffset]
  rfl

/-- The slot of a run that begins at slot `start` of the first cluster. -/
def slotFrom (cluster start : Nat) : Slot :=
  { mCurrentOffsetWithinCluster := start * directoryEntrySize
    mAllocatedClusters := [cluster, 0, 0] }

/-- What the scan does behind a slot that is not the last one it needs. -/
def scanOn (fs : FAT32) (count fuel : Nat) (scan : SlotScan) : Run (Slot ⊕ SlotScan) :=
  if scan.currentOffset = fs.mBytesPerCluster then
    if entryTypeOfFatValue (fs.fatEntryAt scan.currentCluster) = .endOfChain then
      .ok (.inr { scan with currentCluster := fs.fatEntryAt scan.currentCluster })
    else
      fs.allocateEntriesLoop count fuel { scan with currentCluster := fs.fatEntryAt scan.currentCluster }
  else fs.allocateEntriesLoop count fuel scan

lemma lockedRead_first (fs : FAT32) (b : Nat) {o : Nat} (h : o + 1 ≤ fs.mBytesPerCluster) :
    fs.lockedRead b o 1 = .ok [fs.mDataCache b o] := by
  rw [lockedRead, assert_bind h]
  rfl

variable {k run : Nat}

lemma allocateEntriesLoop_step (m : Nat) (hge : reservedClusterCount ≤ c)
    (hk : k * directoryEntrySize < fs.mBytesPerCluster) : fs.allocateEntriesLoop n (m + 1) (scanAt c k run) =
    if SlotFree fs c k then if run + 1 = n then .ok (.inl (slotFrom c (k - run)))
    else scanOn fs n m (scanAt c (k + 1) (run + 1)) else scanOn fs n m (scanAt c (k + 1) 0) := by
  have hne : c ≠ 0 := by
    unfold reservedClusterCount at hge
    omega
  rw [allocateEntriesLoop, scanAt_currentCluster, scanAt_currentOffset, pureClusterValue,
    assert_bind hge, pure_eq_ok, ok_bind,
    lockedRead_first fs _ (Nat.succ_le_of_lt hk), ok_bind, getD_cons_zero]
  by_cases hfree : SlotFree fs c k
  · have hmark : isFreeMark (fs.mDataCache (c - reservedClusterCount) (k * directoryEntrySize)) = true := hfree
    rw [if_pos hfree, hmark, if_pos rfl, scanAt_extend k run hne, ok_bind]
    dsimp only
    rw [scanAt_contiguousEmpty]
    by_cases hdone : run + 1 = n
    · rw [if_pos ⟨hdone, rfl⟩, if_pos hdone, scanAt_succ]
      rfl
    · rw [if_neg (fun h => hdone h.1), if_neg hdone, scanAt_succ]
      rfl
  · have hmark : ¬ isFreeMark (fs.mDataCache (c - reservedClusterCount) (k * directoryEntrySize)) = true := hfree
    rw [if_neg hfree, if_neg hmark, scanAt_reset, scanAt_zero, ok_bind]
    dsimp only
    rw [if_neg (fun h => hmark h.2)]
    rfl

/-- As many free slots from `start` on, all in one cluster. -/
def FreeRun (fs : FAT32) (cluster count start : Nat) : Prop :=
  start + count ≤ fs.slotsPerCluster ∧ ∀ j < count, SlotFree fs cluster (start + j)

instance (fs : FAT32) (cluster count start : Nat) : Decidable (FreeRun fs cluster count start) :=
  inferInstanceAs (Decidable (_ ∧ ∀ _ < _, _))

def WholeRun (fs : FAT32) (cluster count start : Nat) : Prop :=
  FreeRun fs cluster count start ∧ (start = 0 ∨ ¬ SlotFree fs cluster (start - 1))

include hbs in
lemma scanOn_end (hnext : entryTypeOfFatValue (fs.mFatCache c) = .link ∨
      entryTypeOfFatValue (fs.mFatCache c) = .endOfChain) (m run : Nat) (slot : Slot) :
    scanOn fs n m (scanAt c fs.slotsPerCluster run) ≠ .ok (.inl slot) := by
  intro h
  rw [scanOn, scanAt_currentOffset, if_pos hbs.symm, scanAt_currentCluster] at h
  have he : fs.fatEntryAt c = fs.mFatCache c := rfl
  rw [he] at h
  rcases hnext with hlink | hend
  · rw [if_neg (by rw [hlink]; exact FATEntryType.noConfusion)] at h
    cases m with
    | zero => cases h
    | succ m =>
      rw [allocateEntriesLoop] at h
      obtain ⟨b, -, h⟩ := of_bind h
      obtain ⟨bs, hread, -⟩ := of_bind h
      rw [lockedRead] at hread
      obtain ⟨_, has, -⟩ := of_bind hread
      have hle := of_decide_eq_true (assert_eq_ok.mp has)
      rw [← hbs] at hle
      exact absurd hle (Nat.not_succ_le_self _)
  · rw [if_pos hend] at h
    cases h

lemma allocateEntriesLoop_spec (hge : reservedClusterCount ≤ c)
    (hbs : fs.mBytesPerCluster = fs.slotsPerCluster * directoryEntrySize)
    (hnext : entryTypeOfFatValue (fs.mFatCache c) = .link ∨
      entryTypeOfFatValue (fs.mFatCache c) = .endOfChain) (left : Nat) {m : Nat}
    (hleft : k + left = fs.slotsPerCluster) (hpos : 0 < left) (hm : left ≤ m) (h : Scanned (SlotFree fs c) n k run) :
    (∃ start, WholeRun fs c n start ∧ fs.allocateEntriesLoop n m (scanAt c k run) = .ok (.inl (slotFrom c start))) ∨
    (∀ start, ¬ FreeRun fs c n start) ∧ ∀ slot, fs.allocateEntriesLoop n m (scanAt c k run) ≠ .ok (.inl slot) := by
  have hon : ∀ {k run m : Nat}, k < fs.slotsPerCluster → scanOn fs n m (scanAt c k run) =
        fs.allocateEntriesLoop n m (scanAt c k run) := by
    intro k run m hk
    rw [scanOn, scanAt_currentOffset, if_neg]
    rw [hbs]
    unfold directoryEntrySize
    omega
  induction left generalizing k run m with
  | zero => omega
  | succ left ih =>
    obtain ⟨m, rfl⟩ := Nat.exists_eq_succ_of_ne_zero (show m ≠ 0 by omega)
    have hk : k * directoryEntrySize < fs.mBytesPerCluster := by
      rw [hbs]
      unfold directoryEntrySize
      omega
    -- behind the last slot of the cluster nothing is found any more
    have hrest : ∀ {run : Nat}, Scanned (SlotFree fs c) n (k + 1) run →
        (∃ start, WholeRun fs c n start ∧ scanOn fs n m (scanAt c (k + 1) run) = .ok (.inl (slotFrom c start))) ∨
        (∀ start, ¬ FreeRun fs c n start) ∧ ∀ slot, scanOn fs n m (scanAt c (k + 1) run) ≠ .ok (.inl slot) := by
      intro run hscanned
      by_cases hlast : left = 0
      · have hend : k + 1 = fs.slotsPerCluster := by omega
        rw [hend] at hscanned ⊢
        exact Or.inr ⟨fun start hrun => hscanned.none start hrun.1 hrun.2, scanOn_end hbs hnext m run⟩
      · rw [hon (by omega)]
        exact ih (by omega) (by omega) (by omega) hscanned
    rw [allocateEntriesLoop_step m hge hk]
    by_cases hfree : SlotFree fs c k
    · rw [if_pos hfree]
      by_cases hdone : run + 1 = n
      · have hle := h.le
        rw [if_pos hdone]
        refine Or.inl ⟨k - run, ⟨⟨by omega, h.full hfree hdone⟩, ?_⟩, rfl⟩
        exact (Nat.eq_or_lt_of_le hle).imp (fun hall => by omega) h.stops
      · rw [if_neg hdone]
        exact hrest (h.extend hfree hdone)
    · rw [if_neg hfree]
      exact hrest (h.reset hfree)

end

def Slot.entries (bytesPerCluster : Nat) : (count : Nat) → Slot → Run (List EntryCoordinates)
  | 0, _ => .ok []
  | count + 1, slot => do
    let (coordinates, slot) ← slot.nextEntry bytesPerCluster
    return coordinates :: (← Slot.entries bytesPerCluster count slot)

def coordinatesAt (fs : FAT32) (chain : List Nat) (index : Nat) : EntryCoordinates :=
  ⟨chain.getD (index / fs.slotsPerCluster) 0, index % fs.slotsPerCluster * directoryEntrySize⟩

/-- `allocate_entries` returns consecutive slots of the directory, which may be extended. Each was free, or
lies in a new cluster. -/
def Grants (fs : FAT32) (f : File) (clusters : List Nat) (count : Nat) : Prop :=
  ∃ fs' slot chain index, fs.allocateEntries f count = .ok (fs', slot) ∧
    fs'.Chain (clusters ++ chain) ∧ (∀ cluster ∈ chain, fs.mFatCache cluster = freeCluster) ∧
    index + count ≤ (clusters ++ chain).length * fs.slotsPerCluster ∧
    slot.entries fs.mBytesPerCluster count =
      .ok ((List.range count).map fun j => coordinatesAt fs (clusters ++ chain) (index + j)) ∧
    ∀ j < count, (index + j) / fs.slotsPerCluster < clusters.length →
      SlotFree fs (clusters.getD ((index + j) / fs.slotsPerCluster) 0) ((index + j) % fs.slotsPerCluster)

include hbs in
lemma nextEntry_slotFrom {start : Nat} (h : start < fs.slotsPerCluster) :
    (slotFrom c start).nextEntry fs.mBytesPerCluster =
    .ok (⟨c, start * directoryEntrySize⟩, slotFrom c (start + 1)) := by
  have hin : ¬ start * directoryEntrySize = fs.mBytesPerCluster := by
    rw [hbs]
    unfold directoryEntrySize
    omega
  have hadvance : (slotFrom c start).advance fs.mBytesPerCluster = .ok (slotFrom c start) := if_neg hin
  rw [Slot.nextEntry, hadvance, ok_bind, slotFrom, slotFrom, Nat.succ_mul]
  rfl

include hbs in
lemma entries_slotFrom (start n : Nat) (h : start + n ≤ fs.slotsPerCluster) :
    (slotFrom c start).entries fs.mBytesPerCluster n =
    .ok ((List.range n).map fun j => ⟨c, (start + j) * directoryEntrySize⟩) := by
  induction n generalizing start with
  | zero => rfl
  | succ n ih =>
    rw [Slot.entries, nextEntry_slotFrom hbs (by omega), ok_bind]
    dsimp only
    rw [ih (start + 1) (by omega), ok_bind, range_succ_eq_map, map_cons, map_map]
    congr 2
    apply map_congr_left
    intro j _
    show EntryCoordinates.mk _ _ = EntryCoordinates.mk _ _
    congr 2
    omega

lemma DirectoryFile.allocateEntries (h : DirectoryFile fs f cs) (hn : 1 ≤ n) :
    (∃ start, WholeRun fs f.mFirstCluster n start ∧ fs.allocateEntries f n = .ok (fs, slotFrom f.mFirstCluster start)) ∨
    (∀ start, ¬ FreeRun fs f.mFirstCluster n start) ∧ ∀ res, fs.allocateEntries f n ≠ .ok res := by
  obtain ⟨ts, rfl⟩ := List.head?_eq_some_iff.mp h.first
  have hge := ((entryType_eq_link_iff _).mp (h.chain.link _ mem_cons_self)).1
  have hnext : entryTypeOfFatValue (fs.mFatCache f.mFirstCluster) = .link ∨
      entryTypeOfFatValue (fs.mFatCache f.mFirstCluster) = .endOfChain := by
    cases ts with
    | nil => exact Or.inr h.chain.2
    | cons next ts =>
      rw [h.chain.2.1]
      exact Or.inl (h.chain.2.2.link next mem_cons_self)
  have hbs := h.bytes
  have hpos := h.bytes_pos
  have hm : fs.slotsPerCluster ≤ fs.directoryFuel := by
    unfold directoryFuel chainFuel
    unfold directoryEntrySize at hbs
    omega
  have hslots : 0 < fs.slotsPerCluster := by
    rw [hbs] at hpos
    exact Nat.pos_of_mul_pos_right hpos
  have hstart : ({ currentCluster := f.mFirstCluster } : SlotScan) = scanAt f.mFirstCluster 0 0 := by
    rw [scanAt, if_pos rfl, zero_mul]
  rw [FAT32.allocateEntries, hstart]
  rcases allocateEntriesLoop_spec hge hbs hnext fs.slotsPerCluster (zero_add _) hslots hm
    (.zero hn) with ⟨start, hrun, hok⟩ | ⟨hnone, hfail⟩
  · refine Or.inl ⟨start, hrun, ?_⟩
    rw [hok, ok_bind]
    rfl
  · refine Or.inr ⟨hnone, ?_⟩
    intro res hok
    obtain ⟨found, hloop, hrest⟩ := of_bind hok
    cases found with
    | inl slot => exact hfail slot hloop
    | inr scan =>
      -- the ranges of a directory are never computed
      have hlast : fs.lastCluster f = .error (.assertion "!m_contiguous_ranges.empty()") := by
        rw [lastCluster, h.ranges]
        rfl
      dsimp only at hrest
      rw [extendDirectory, hlast] at hrest
      cases hrest

/-- `allocate_entries` does what it is for exactly if the first cluster of the directory has enough
consecutive free slots. -/
theorem grants_iff (h : DirectoryFile fs f cs) (hcount : 1 ≤ n) :
    Grants fs f cs n ↔ ∃ start, FreeRun fs f.mFirstCluster n start := by
  obtain ⟨ts, hcs⟩ := List.head?_eq_some_iff.mp h.first
  constructor
  · rintro ⟨fs', slot, ch, i, hok, -⟩
    rcases h.allocateEntries hcount with ⟨start, hrun, -⟩ | ⟨-, hfail⟩
    · exact ⟨start, hrun.1⟩
    · exact absurd hok (hfail (fs', slot))
  · intro hexists
    rcases h.allocateEntries hcount with ⟨start, ⟨hrun, -⟩, hok⟩ | ⟨hnone, -⟩
    · have hi : ∀ j < n, (start + j) / fs.slotsPerCluster = 0 ∧ (start + j) % fs.slotsPerCluster = start + j := by
        intro j hj
        have hlt : start + j < fs.slotsPerCluster := by
          have hle := hrun.1
          omega
        exact ⟨Nat.div_eq_of_lt hlt, Nat.mod_eq_of_lt hlt⟩
      refine ⟨fs, _, [], start, hok, ?_, by simp, ?_, ?_, ?_⟩
      · rw [append_nil]
        exact h.chain
      · rw [append_nil, hcs, length_cons, Nat.succ_mul]
        exact hrun.1.trans le_add_self
      · rw [entries_slotFrom h.bytes start n hrun.1]
        congr 1
        apply map_congr_left
        intro j hj
        obtain ⟨hdiv, hmod⟩ := hi j (mem_range.mp hj)
        rw [coordinatesAt, hdiv, hmod, hcs]
        rfl
      · intro j hj _
        obtain ⟨hdiv, hmod⟩ := hi j hj
        rw [hdiv, hmod, hcs]
        exact hrun.2 j hj
    · obtain ⟨start, hrun⟩ := hexists
      exact absurd hrun (hnone start)

/-- A directory in the clusters 2 and 3 with 16 slots each. All but the given slots of the first
cluster are in use. -/
def directoryVolume (isFree : Nat → Bool) : FAT32 where
  mFatCache := fun i => if i = 2 then 3 else 0x0FFFFFFF
  mDataCache := fun block i => if block = 0 ∧ isFree (i / 32) then 0xE5 else 0x41
  mClusterCount := 8
  mBytesPerCluster := 512
  mEndOfChain := 0x0FFFFFFF

lemma directoryFile_directoryVolume (isFree : Nat → Bool) :
    DirectoryFile (directoryVolume isFree) { mFirstCluster := 2 } [2, 3] where
  chain := ⟨by decide, rfl, by decide, show entryTypeOfFatValue 0x0FFFFFFF = .endOfChain by decide⟩
  first := rfl
  ranges := rfl
  size := rfl
  bytes := show 512 = 512 / 32 * 32 by decide
  bytes_pos := show 0 < 512 by decide

theorem grants_iff_threeSlots : Grants (directoryVolume fun k => 4 ≤ k && k ≤ 6) { mFirstCluster := 2 } [2, 3] 3 :=
  (grants_iff (directoryFile_directoryVolume _) (by decide)).mpr ⟨4, by decide⟩

/-- The scan of a directory whose first cluster is full reads behind the end of a cluster, and a
directory of one full cluster is not extended. -/
theorem not_grants_fullCluster : (directoryVolume fun _ => false).allocateEntries { mFirstCluster := 2 } 1 =
        .error (.assertion "(offset + bytes) <= m_fs_block_size") ∧
      ¬ Grants (directoryVolume fun _ => false) { mFirstCluster := 2 } [2, 3] 1 ∧
      (directoryVolume fun _ => false).allocateEntries { mFirstCluster := 3 } 1 =
        .error (.assertion "!m_contiguous_ranges.empty()") := by
  have hfail : (directoryVolume fun _ => false).allocateEntries { mFirstCluster := 2 } 1 =
      .error (.assertion "(offset + bytes) <= m_fs_block_size") := by rfl
  refine ⟨hfail, ?_, by rfl⟩
  rintro ⟨fs', slot, ch, i, hok, -⟩
  rw [hfail] at hok
  cases hok

end UltraOS.FAT32
