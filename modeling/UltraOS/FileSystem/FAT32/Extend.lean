import UltraOS.FileSystem.FAT32.Write

/-!
# Extending a file

The part of `write` in front of its loop: missing clusters are allocated and linked behind the last
cluster of the file, the ones in front of the offset are zero filled, and the directory entry gets
the new size. The result is described for a file whose clusters are consecutive after the call.
-/

namespace UltraOS.FAT32

open List

/-- The table of a mounted volume: the two reserved entries are in use, the first by an end mark, and
cluster numbers are no special values. -/
structure Mounted (fs : FAT32) : Prop where
  bytes_pos : 0 < fs.mBytesPerCluster
  bytes_lt : fs.mBytesPerCluster < 0x100000000
  media : entryTypeOfFatValue (fs.mFatCache 0) = .endOfChain
  reserved : fs.mFatCache 1 ≠ freeCluster
  endOfChain : entryTypeOfFatValue fs.mEndOfChain = .endOfChain
  clusters : fs.mClusterCount ≤ badCluster
  hint : fs.mLastFreeCluster ≤ fs.mClusterCount

/-- The clusters of a file: exactly as many as its size needs, and none for an empty one. -/
def Owns (fs : FAT32) (f : File) (clusters : List Nat) : Prop :=
  (clusters = [] ∧ f.mFirstCluster = 0 ∧ f.mSize = 0) ∨ Occupies fs f clusters

variable {fs : FAT32} {f : File} {clusters : List Nat} {o size : Nat} {c : Nat} {fs' : FAT32}

lemma Mounted.zero_used (h : Mounted fs) : fs.mFatCache freeCluster ≠ freeCluster := by
  intro hfree
  have hmedia := h.media
  rw [show fs.mFatCache 0 = 0 from hfree] at hmedia
  cases hmedia

lemma Mounted.candidate_link (h : Mounted fs) (hmem : c ∈ fs.candidates) : entryTypeOfFatValue c = .link := by
  obtain ⟨hfree, hcases⟩ := mem_candidates.mp hmem
  have hcs := h.clusters
  have hhint := h.hint
  have hge : 2 ≤ c := by
    by_contra hlt
    have hres : c = freeCluster ∨ c = 1 := by
      unfold freeCluster
      omega
    rcases hres with rfl | rfl
    · exact h.zero_used hfree
    · exact h.reserved hfree
  rw [entryType_eq_link_iff]
  omega

lemma Owns.length (h : Owns fs f clusters) : clusters.length = ceilingDivide f.mSize fs.mBytesPerCluster := by
  rcases h with ⟨hnil, -, hsize⟩ | h
  · rw [hnil, hsize]
    simp [ceilingDivide]
  · exact h.length

lemma Owns.size_lt (h : Owns fs f clusters) : f.mSize < 0x100000000 := by
  rcases h with ⟨-, -, hsize⟩ | h
  · omega
  · exact h.size_lt

lemma Chain.append {ch : List Nat} (h : fs.Chain clusters) (hsame : ∀ c ∈ clusters, c ≠ clusters.getLastD 0 →
    fs'.mFatCache c = fs.mFatCache c) (hnodup : clusters.Nodup)
    (hlast : fs'.mFatCache (clusters.getLastD 0) = ch.headD 0) (hch : fs'.Chain ch) : fs'.Chain (clusters ++ ch) := by
  induction clusters with
  | nil => exact h.elim
  | cons c ts ih =>
    cases ts with
    | nil =>
      cases ch with
      | nil => exact hch.elim
      | cons next ch => exact ⟨h.1, hlast, hch⟩
    | cons next ts =>
      obtain ⟨hc, hnodup⟩ := nodup_cons.mp hnodup
      obtain ⟨hhead, htail⟩ := forall_mem_cons.mp hsame
      have hgetLast : (c :: next :: ts).getLastD 0 = (next :: ts).getLastD 0 := by simp only [getLastD_cons]
      rw [hgetLast] at hhead htail hlast
      refine ⟨h.1, ?_, ih h.2.2 htail hnodup hlast⟩
      rw [hhead fun heq => hc (heq ▸ getLastD_mem (cons_ne_nil next ts) 0)]
      exact h.2.1

lemma Follows.chain {fat : Nat → Nat} {endOfChain : Nat} {ch : List Nat} (h : Follows fat endOfChain ch)
    (hfat : fs.mFatCache = fat) (hne : ch ≠ []) (hend : entryTypeOfFatValue endOfChain = .endOfChain)
    (hlink : ∀ c ∈ ch, entryTypeOfFatValue c = .link) : fs.Chain ch := by
  subst hfat
  induction ch with
  | nil => exact absurd rfl hne
  | cons c ts ih =>
    obtain ⟨hc, hrest⟩ := forall_mem_cons.mp hlink
    cases ts with
    | nil =>
      refine ⟨hc, ?_⟩
      show entryTypeOfFatValue (fs.mFatCache c) = .endOfChain
      rwa [show fs.mFatCache c = endOfChain from h]
    | cons next ts => exact ⟨hc, h.1, ih (cons_ne_nil next ts) hrest h.2⟩

section

lemma Consecutive.of_append {xs ys : List Nat} (h : Consecutive (xs ++ ys)) : Consecutive xs := by
  induction xs with
  | nil => trivial
  | cons c xs ih =>
    cases xs with
    | nil => trivial
    | cons next xs => exact ⟨h.1, ih h.2⟩

variable {first : Nat} {ts : List Nat}

lemma Consecutive.getLastD (h : Consecutive (first :: ts)) (last : Nat)
    : (first :: ts).getLastD last = first + ts.length := by
  induction ts generalizing first last with
  | nil => rfl
  | cons next ts ih =>
    rw [getLastD_cons, ih h.2, h.1, length_cons]
    omega

lemma Consecutive.mem_iff (h : Consecutive (first :: ts)) : c ∈ first :: ts ↔ first ≤ c ∧ c ≤ first + ts.length := by
  induction ts generalizing first with
  | nil =>
    rw [mem_singleton, length_nil]
    omega
  | cons next ts ih =>
    have hnext := h.1
    rw [mem_cons, ih h.2, length_cons]
    omega

lemma Consecutive.nodup {ch : List Nat} (h : Consecutive ch) : ch.Nodup := by
  induction ch with
  | nil => exact nodup_nil
  | cons c ts ih =>
    cases ts with
    | nil => exact nodup_singleton c
    | cons next ts =>
      refine nodup_cons.mpr ⟨?_, ih h.2⟩
      have hnext := h.1
      rw [h.2.mem_iff]
      omega

end

section

def missing (fs : FAT32) (f : File) (offset size : Nat) : Nat :=
  ceilingDivide (offset + size) fs.mBytesPerCluster - ceilingDivide f.mSize fs.mBytesPerCluster

def added (fs : FAT32) (f : File) (offset size : Nat) : List Nat := fs.candidates.take (fs.missing f offset size)

/-- A write to a file of a mounted volume with enough free clusters. The directory entry lies in a cluster
that is in use, but not by the file. -/
structure Writable (fs : FAT32) (f : File) (clusters : List Nat) (offset size : Nat) : Prop where
  mounted : Mounted fs
  owns : Owns fs f clusters
  ranges : f.mContiguousRanges = [] ∨
    f.mContiguousRanges = rangesOf ⟨0, f.mFirstCluster⟩ 1 f.mFirstCluster clusters.tail
  size_ne : size ≠ 0
  end_lt : offset + size < 0x100000000
  enough : fs.missing f offset size ≤ fs.candidates.length
  counted : fs.missing f offset size ≤ fs.mFreeClusters
  entry_ge : reservedClusterCount ≤ f.mIdentifier.fileDirectoryEntryCluster
  entry_used : fs.mFatCache f.mIdentifier.fileDirectoryEntryCluster ≠ freeCluster
  entry_not_mem : f.mIdentifier.fileDirectoryEntryCluster ∉ clusters
  entry_le : f.mIdentifier.fileDirectoryEntryOffsetWithinCluster + directoryEntrySize ≤ fs.mBytesPerCluster

/-- The file is one range of clusters after the write, and they hold less than 4 GiB. -/
def Compact (fs : FAT32) (f : File) (clusters : List Nat) (offset size : Nat) : Prop :=
  Consecutive (clusters ++ fs.added f offset size) ∧
    (clusters ++ fs.added f offset size).length * fs.mBytesPerCluster < 0x100000000

instance (fs : FAT32) (f : File) (clusters : List Nat) (offset size : Nat) :
    Decidable (Compact fs f clusters offset size) := inferInstanceAs (Decidable (_ ∧ _))

lemma contiguousRangesLoop_end {cur : Nat} (h : entryTypeOfFatValue (fs.mFatCache cur) = .endOfChain) (bs m n : Nat)
    (r : ContiguousFileRange) (ranges : List ContiguousFileRange) (hbs : toU32 (n * fs.mBytesPerCluster) ≥ bs) :
    fs.contiguousRangesLoop bs (m + 1) r n cur ranges = .ok (ranges ++ [r]) := by
  have hend : entryTypeOfFatValue (fs.fatEntryAt cur) = .endOfChain := h
  simp only [contiguousRangesLoop, hend]
  rw [assert_bind hbs]
  rfl

lemma computeContiguousRanges_of_consecutive (h : Occupies fs f clusters) (hcons : Consecutive clusters)
    (hcnt : clusters.length * fs.mBytesPerCluster < 0x100000000) (hrs : f.mContiguousRanges = []) :
    fs.computeContiguousRanges f = .ok { f with mContiguousRanges := [⟨0, f.mFirstCluster⟩] } := by
  obtain ⟨ts, rfl⟩ := h.eq_cons
  have has := decide_eq_true (h.counted_iff.mpr hcnt)
  rw [length_cons] at has
  rw [h.computeContiguousRanges_eq hrs, has, assert_true, ok_bind, rangesOf_of_consecutive _ _ hcons]
  rfl

variable (h : Writable fs f clusters o size) (hcomp : Compact fs f clusters o size)

include h hcomp in
lemma Writable.withRanges_eq : fs.withRanges f = .ok { f with mContiguousRanges := [⟨0, f.mFirstCluster⟩] } := by
  rw [withRanges]
  rcases h.ranges with hrs | hrs
  · rw [hrs, isEmpty_nil, if_pos rfl]
    rcases h.owns with ⟨-, hfirst, hsize⟩ | howns
    · obtain ⟨m, hn⟩ : ∃ m, chainFuel = m + 1 := ⟨0x0FFFFFFF, rfl⟩
      rw [computeContiguousRanges, hn, hfirst, hsize,
        contiguousRangesLoop_end h.mounted.media 0 m 1 _ _ zero_le, ok_bind, hrs]
      rfl
    · refine computeContiguousRanges_of_consecutive howns hcomp.1.of_append ?_ hrs
      have hlen := hcomp.2
      rw [length_append, add_mul] at hlen
      omega
  · have hone : f.mContiguousRanges = [⟨0, f.mFirstCluster⟩] := by
      rcases h.owns with ⟨hnil, -, -⟩ | howns
      · rw [hrs, hnil]
        rfl
      · obtain ⟨ts, rfl⟩ := howns.eq_cons
        rw [hrs]
        exact rangesOf_of_consecutive _ _ hcomp.1.of_append
    have hempty : f.mContiguousRanges.isEmpty = false := by rw [hone]; rfl
    rw [hempty, if_neg (by simp), ← hone]

include h hcomp in
lemma Writable.lastCluster_eq :
    fs.lastCluster { f with mContiguousRanges := [⟨0, f.mFirstCluster⟩] } = .ok (clusters.getLastD 0) := by
  rcases h.owns with ⟨hnil, hfirst, hsize⟩ | howns
  · have hpos := h.mounted.bytes_pos
    rw [lastCluster, List.getLast?_singleton]
    dsimp only
    rw [if_pos (by omega), hfirst, hnil]
    rfl
  · obtain ⟨ts, rfl⟩ := howns.eq_cons
    have hcons := hcomp.1.of_append
    have hlen := howns.length
    rw [length_cons] at hlen
    have hlink := (entryType_eq_link_iff _).mp (howns.chain.link _ (hcons.mem_iff.mpr ⟨le_self_add, le_rfl⟩))
    rw [lastCluster_of_single fs (f := { f with mContiguousRanges := [⟨0, f.mFirstCluster⟩] }) rfl
      rfl howns.size_pos (by dsimp only; unfold badCluster at hlink; omega),
      hcons.getLastD 0]
    rw [← hlen, Nat.add_sub_cancel]

def zeroed (fs : FAT32) (chain : List Nat) : FAT32 :=
  { fs with
    mDataCache := fun block i =>
      if block + reservedClusterCount ∈ chain then 0 else fs.mDataCache block i }

lemma zeroClusters_eq (fs : FAT32) (ch : List Nat) (hge : ∀ c ∈ ch, reservedClusterCount ≤ c) :
    fs.zeroClusters ch = .ok (fs.zeroed ch) := by
  induction ch generalizing fs with
  | nil => rfl
  | cons c ch ih =>
    obtain ⟨hc, hrest⟩ := forall_mem_cons.mp hge
    rw [zeroClusters, pureClusterValue, assert_bind hc, pure_eq_ok, ok_bind, ih _ hrest, zeroed, zeroed]
    congr 2
    funext b i
    simp only [lockedZeroFill, mem_cons]
    by_cases hmem : b + reservedClusterCount ∈ ch
    · rw [if_pos hmem, if_pos (Or.inr hmem)]
    · rw [if_neg hmem]
      by_cases hb : b + reservedClusterCount = c
      · rw [if_pos (by omega), if_pos (Or.inl hb)]
      · rw [if_neg (by omega), if_neg (not_or.mpr ⟨hb, hmem⟩)]

/-- The condition of `write` for zero filling the last allocated cluster. -/
def Unaligned (fs : FAT32) (offset size : Nat) : Prop :=
  subSize size (offset % fs.mBytesPerCluster) % fs.mBytesPerCluster ≠ 0

instance (fs : FAT32) (offset size : Nat) : Decidable (Unaligned fs offset size) :=
  inferInstanceAs (Decidable (_ ≠ _))

lemma zeroFillLast_eq (fs : FAT32) {ch : List Nat} (hne : ch ≠ []) (o size : Nat) :
    fs.zeroFillLast ch size (o - o / fs.mBytesPerCluster * fs.mBytesPerCluster) = .ok { fs with
        mDataCache := fun b i =>
          if Unaligned fs o size ∧ b = ch.getLastD 0 then 0
          else fs.mDataCache b i } := by
  have hlast : chainLast ch = .ok (ch.getLastD 0) := by
    rw [chainLast, List.getLast?_eq_some_getLast hne, getLastD_eq_getLast?, List.getLast?_eq_some_getLast hne]
    rfl
  rw [zeroFillLast, ← Nat.mod_eq_sub_div_mul]
  by_cases hunaligned : Unaligned fs o size
  · have hcond : subSize size (o % fs.mBytesPerCluster) % fs.mBytesPerCluster ≠ 0 := hunaligned
    rw [if_pos hcond, hlast, ok_bind]
    simp only [lockedZeroFill, hunaligned, true_and, pure_eq_ok]
    congr 2
    funext b i
    split
    · rw [if_pos (by omega)]
    · rw [if_neg (by omega)]
  · have hcond : ¬ subSize size (o % fs.mBytesPerCluster) % fs.mBytesPerCluster ≠ 0 := hunaligned
    rw [if_neg hcond]
    simp [hunaligned]

def extended (fs : FAT32) (f : File) (clusters : List Nat) (offset size : Nat) : FAT32 :=
  { fs.allocated (clusters.getLastD 0) (fs.added f offset size) with
    mDataCache := fun block i =>
      if Unaligned fs offset size ∧ block = (fs.added f offset size).getLastD 0 then 0
      else if block + reservedClusterCount ∈ (fs.added f offset size).take
          (ceilingDivide offset fs.mBytesPerCluster - clusters.length) then 0
      else fs.mDataCache block i }

section

include h

lemma Writable.length_added : (fs.added f o size).length = fs.missing f o size := length_take_of_le h.enough

lemma Writable.added_link (hmem : c ∈ fs.added f o size) : entryTypeOfFatValue c = .link :=
  h.mounted.candidate_link (mem_of_mem_take hmem)

lemma Writable.last_used : clusters.getLastD 0 = freeCluster ∨ fs.mFatCache (clusters.getLastD 0) ≠ freeCluster := by
  rcases h.owns with ⟨hnil, -, -⟩ | howns
  · exact Or.inl (by rw [hnil]; rfl)
  · obtain ⟨ts, rfl⟩ := howns.eq_cons
    exact Or.inr (howns.chain.used _ (getLastD_mem (cons_ne_nil _ _) 0))

include hcomp in
/-- `write` allocates as many clusters as are missing, and zero fills those in front of the
offset. -/
lemma Writable.extendChain_eq (hmiss : fs.missing f o size ≠ 0) :
    fs.extendChain { f with mContiguousRanges := [⟨0, f.mFirstCluster⟩] } o size =
      .ok (fs.extended f clusters o size, { f with
        mContiguousRanges := [⟨0, f.mFirstCluster⟩]
        mFirstCluster := (clusters ++ fs.added f o size).headD 0
        mIsDirty := f.mFirstCluster = 0 || f.mIsDirty }) := by
  have hne : fs.added f o size ≠ [] := ne_nil_of_length_pos (by rw [h.length_added]; omega)
  have hlen := h.owns.length
  have hmono : ceilingDivide o fs.mBytesPerCluster ≤ ceilingDivide (o + size) fs.mBytesPerCluster :=
    ceilingDivide_mono h.mounted.bytes_pos le_self_add
  have hzero : (if ceilingDivide f.mSize fs.mBytesPerCluster < ceilingDivide o fs.mBytesPerCluster then
      ceilingDivide o fs.mBytesPerCluster - ceilingDivide f.mSize fs.mBytesPerCluster else 0) =
      ceilingDivide o fs.mBytesPerCluster - clusters.length := by
    rw [hlen]
    split <;> omega
  have hn : ceilingDivide o fs.mBytesPerCluster - clusters.length + (ceilingDivide (o + size) fs.mBytesPerCluster -
        (ceilingDivide f.mSize fs.mBytesPerCluster + (ceilingDivide o fs.mBytesPerCluster - clusters.length))) =
      fs.missing f o size := by
    unfold missing at hmiss ⊢
    omega
  have hallocate := allocateClusterChain_eq (fun _ => h.mounted.zero_used) h.last_used hmiss h.counted
  rw [if_pos h.enough] at hallocate
  have hzeroFill := zeroClusters_eq (fs.allocated (clusters.getLastD 0) (fs.added f o size)) ((fs.added f o size).take
      (ceilingDivide o fs.mBytesPerCluster - clusters.length)) (by
        intro c hmem
        exact ((entryType_eq_link_iff _).mp (h.added_link (mem_of_mem_take hmem))).1)
  rw [extendChain]
  rw [hzero, hn, h.lastCluster_eq hcomp, ok_bind, hallocate, ok_bind]
  dsimp only
  rw [← added, hzeroFill, ok_bind]
  have hfill : ((fs.allocated (clusters.getLastD 0) (fs.added f o size)).zeroed
      ((fs.added f o size).take (ceilingDivide o fs.mBytesPerCluster -
        clusters.length))).zeroFillLast (fs.added f o size) size
        (o - o / fs.mBytesPerCluster * fs.mBytesPerCluster) =
      .ok (fs.extended f clusters o size) := zeroFillLast_eq _ hne o size
  rw [hfill, ok_bind]
  rcases h.owns with ⟨hnil, hfirst, -⟩ | howns
  · obtain ⟨first, ts, hadded⟩ := exists_cons_of_ne_nil hne
    rw [linkFirst, if_pos hfirst, hnil, hadded, hfirst]
    rfl
  · obtain ⟨ts, rfl⟩ := howns.eq_cons
    have hfirst : f.mFirstCluster ≠ 0 := by
      have hlink := (entryType_eq_link_iff _).mp (howns.chain.link _ mem_cons_self)
      omega
    rw [linkFirst, if_neg hfirst, decide_eq_false hfirst, Bool.false_or]
    rfl

lemma Writable.occupies_of_missing (hmiss : fs.missing f o size = 0) : Occupies fs f clusters := by
  rcases h.owns with ⟨-, -, hsize⟩ | howns
  · have hsize' := h.size_ne
    have hneeded := (lt_ceilingDivide_iff h.mounted.bytes_pos (k := 0) (l := o + size)).mpr (by omega)
    have hnone : ceilingDivide 0 fs.mBytesPerCluster = 0 := by simp [ceilingDivide]
    rw [missing, hsize, hnone] at hmiss
    omega
  · exact howns

end

def prepared (fs : FAT32) (f : File) (clusters : List Nat) (offset size : Nat) : FAT32 :=
  if fs.missing f offset size = 0 then fs else fs.extended f clusters offset size

include h hcomp in
lemma Writable.extendIfNeeded_eq : fs.extendIfNeeded { f with mContiguousRanges := [⟨0, f.mFirstCluster⟩] } o size =
      .ok (fs.prepared f clusters o size, { f with
        mContiguousRanges := [⟨0, f.mFirstCluster⟩]
        mFirstCluster := (clusters ++ fs.added f o size).headD 0
        mIsDirty := f.mFirstCluster = 0 || f.mIsDirty }) := by
  rw [extendIfNeeded, prepared]
  dsimp only
  by_cases hmiss : fs.missing f o size = 0
  · have hle : ¬ ceilingDivide f.mSize fs.mBytesPerCluster < ceilingDivide (o + size) fs.mBytesPerCluster := by
      unfold missing at hmiss
      omega
    have howns := h.occupies_of_missing hmiss
    obtain ⟨ts, rfl⟩ := howns.eq_cons
    have hfirst : f.mFirstCluster ≠ 0 := by
      have hlink := (entryType_eq_link_iff _).mp (howns.chain.link _ mem_cons_self)
      omega
    rw [if_neg hle, if_pos hmiss, decide_eq_false hfirst, Bool.false_or]
    rfl
  · rw [if_pos (by unfold missing at hmiss; omega), if_neg hmiss]
    exact h.extendChain_eq hcomp hmiss

@[simp]
lemma prepared_mBytesPerCluster : (fs.prepared f clusters o size).mBytesPerCluster = fs.mBytesPerCluster := by
  rw [prepared]
  split <;> rfl

include h hcomp in
lemma Writable.chain_prepared : (fs.prepared f clusters o size).Chain (clusters ++ fs.added f o size) := by
  have hlen := h.length_added
  rw [prepared]
  by_cases hmiss : fs.missing f o size = 0
  · rw [if_pos hmiss, length_eq_zero_iff.mp (hlen.trans hmiss), append_nil]
    exact (h.occupies_of_missing hmiss).chain
  · rw [if_neg hmiss]
    have hne : fs.added f o size ≠ [] := ne_nil_of_length_pos (by omega)
    have hnodup := hcomp.1.nodup
    rw [nodup_append] at hnodup
    have hzero : freeCluster ∉ fs.added f o size := fun hmem => absurd (h.added_link hmem) (by decide)
    have hfol : Follows (fs.extended f clusters o size).mFatCache fs.mEndOfChain
        (fs.added f o size) := follows_linkAll hnodup.2.1 hzero
    have hch : (fs.extended f clusters o size).Chain (fs.added f o size) :=
      hfol.chain rfl hne h.mounted.endOfChain (fun c hmem => h.added_link hmem)
    rcases h.owns with ⟨hnil, -, -⟩ | howns
    · rw [hnil] at hch ⊢
      exact hch
    · obtain ⟨ts, rfl⟩ := howns.eq_cons
      have hlastMem := getLastD_mem (cons_ne_nil f.mFirstCluster ts) 0
      have hu : ∀ c ∈ f.mFirstCluster :: ts, c ∉ fs.added f o size := fun c hmem hadded =>
        hnodup.2.2 c hmem c hadded rfl
      apply howns.chain.append _ howns.nodup _ hch
      · exact fun c hmem hlast => allocated_of_not_mem hne (hu c hmem) (Or.inr hlast)
      · obtain ⟨next, ch, hadded⟩ := exists_cons_of_ne_nil hne
        have hused : (f.mFirstCluster :: ts).getLastD 0 ≠ freeCluster := by
          intro hfree
          exact absurd (howns.chain.link _ hlastMem) (by rw [hfree]; decide)
        have hlinked : (fs.allocated _ (next :: ch)).mFatCache _ = next :=
          allocated_linkTo hused (hadded ▸ hu _ hlastMem)
        rw [← hadded] at hlinked
        rwa [hadded]

include h hcomp in
lemma Writable.occupies {f' : File} (hfat : fs'.mFatCache = (fs.prepared f clusters o size).mFatCache)
    (hbs : fs'.mBytesPerCluster = fs.mBytesPerCluster)
    (hfirst : f'.mFirstCluster = (clusters ++ fs.added f o size).headD 0)
    (hsize : f'.mSize = max f.mSize (o + size)) : Occupies fs' f' (clusters ++ fs.added f o size) := by
  have hpos := h.mounted.bytes_pos
  have hch := h.chain_prepared hcomp
  have hne := h.size_ne
  have hsizeLt := h.owns.size_lt
  have hendLt := h.end_lt
  refine ⟨?_, ?_, hcomp.1.nodup, ?_, by omega, by omega, by omega, ?_⟩
  · exact hch.congr fun c _ => congrFun hfat c
  · cases hall : clusters ++ fs.added f o size with
    | nil =>
      rw [hall] at hch
      exact hch.elim
    | cons first ts =>
      rw [hfirst, hall]
      rfl
  · rw [length_append, h.length_added, h.owns.length, hsize, hbs, ceilingDivide_max hpos, missing]
    omega
  · rw [hbs]
    exact h.mounted.bytes_lt

/-- A lookup in the first run of clusters finds them, whatever the further ranges are. -/
lemma Occupies.straight {ts : List Nat} {n : Nat} (h : Occupies fs f (f.mFirstCluster :: ts))
    (hrs : f.mContiguousRanges = rangesOf ⟨0, f.mFirstCluster⟩ 1 f.mFirstCluster ts)
    (hcons : Consecutive ((f.mFirstCluster :: ts).take n)) (hn : n ≤ ts.length + 1) :
    Straight fs f f.mFirstCluster n := by
  have hget : ∀ k < n, (f.mFirstCluster :: ts)[k]? = some (f.mFirstCluster + k) := by
    intro k hk
    obtain ⟨m, rfl⟩ : ∃ m, n = m + 1 := ⟨n - 1, by omega⟩
    rw [take_succ_cons] at hcons
    have hfirst := hcons.getElem? k (by rw [length_take]; omega)
    rwa [← take_succ_cons, getElem?_take_of_lt hk] at hfirst
  obtain ⟨tail, hcached, htail⟩ : ∃ tail, f.mContiguousRanges = ⟨0, f.mFirstCluster⟩ :: tail ∧
      ∀ k < n, ∀ r ∈ tail, k < r.fileOffsetCluster := by
    by_cases hall : Consecutive (f.mFirstCluster :: ts)
    · exact ⟨[], by rw [hrs, rangesOf_of_consecutive _ _ hall], by simp⟩
    · obtain ⟨k, next, hbreak, hne, -, tail, heq, htail⟩ := exists_break ts ⟨0, f.mFirstCluster⟩ 1 _ hall
      have hle : n ≤ k + 1 := by
        by_contra hlt
        have hclash := hget (k + 1) (by omega)
        rw [getElem?_cons_succ, hbreak] at hclash
        exact hne (Option.some.inj hclash)
      exact ⟨tail, hrs.trans heq, fun i hi r hr => by have := htail r hr; omega⟩
  have hlink : ∀ k < n, entryTypeOfFatValue (f.mFirstCluster + k) = .link :=
    fun k hk => h.chain.link _ (mem_of_getElem? (hget k hk))
  refine ⟨by rw [hcached]; rfl, h.bytes_pos, fun k hk => ?_, hlink⟩
  have hlt := ((entryType_eq_link_iff _).mp (hlink k hk)).2
  rw [clusterFromOffset_eq hcached (hrs ▸ rangesOf_pairwise ts _ 1 _ (Nat.zero_le 1)) (htail k hk) ?_
    (by unfold badCluster at hlt; omega), hlink k hk]
  · rfl
  · rw [← h.length, length_cons]
    omega

end

lemma length_updatedEntry (e : List UInt8) (firstCluster size : Nat) :
    (updatedEntry e firstCluster size).length = e.length := by
  simp only [updatedEntry, length_set]

def InEntry (identifier : Identifier) (block i : Nat) : Prop :=
  block + reservedClusterCount = identifier.fileDirectoryEntryCluster ∧
    identifier.fileDirectoryEntryOffsetWithinCluster ≤ i ∧
    i < identifier.fileDirectoryEntryOffsetWithinCluster + directoryEntrySize

instance (identifier : Identifier) (block i : Nat) : Decidable (InEntry identifier block i) :=
  inferInstanceAs (Decidable (_ ∧ _))

def patched (fs : FAT32) (identifier : Identifier) (entry : List UInt8) : FAT32 :=
  { fs with
    mDataCache := fun block i =>
      if InEntry identifier block i then
        entry.getD (i - identifier.fileDirectoryEntryOffsetWithinCluster) 0
      else fs.mDataCache block i }

def newEntry (fs : FAT32) (f : File) : List UInt8 :=
  updatedEntry ((List.range directoryEntrySize).map fun i =>
    fs.mDataCache (f.mIdentifier.fileDirectoryEntryCluster - reservedClusterCount)
      (f.mIdentifier.fileDirectoryEntryOffsetWithinCluster + i)) f.mFirstCluster f.mSize

lemma flushMetaModifications_eq (fs : FAT32) (f : File) (hdirty : f.mIsDirty = true)
    (hge : reservedClusterCount ≤ f.mIdentifier.fileDirectoryEntryCluster)
    (hle : f.mIdentifier.fileDirectoryEntryOffsetWithinCluster + directoryEntrySize ≤ fs.mBytesPerCluster) :
    fs.flushMetaModifications f = .ok (fs.patched f.mIdentifier (fs.newEntry f), { f with mIsDirty := false }) := by
  rw [flushMetaModifications, hdirty, Bool.not_true, if_neg (by simp), pureClusterValue,
    assert_bind hge, pure_eq_ok, ok_bind]
  dsimp only
  rw [lockedRead_eq fs _ hle, ok_bind, ← newEntry, lockedWrite, newEntry, length_updatedEntry, length_map, length_range,
    assert_bind hle, pure_eq_ok, ok_bind, patched, pure_eq_ok]
  congr 3
  funext b i
  have hiff : InEntry f.mIdentifier b i ↔ b = f.mIdentifier.fileDirectoryEntryCluster - reservedClusterCount ∧
        f.mIdentifier.fileDirectoryEntryOffsetWithinCluster ≤ i ∧
        i < f.mIdentifier.fileDirectoryEntryOffsetWithinCluster + directoryEntrySize := by
    unfold InEntry
    omega
  simp only [hiff]

variable (h : Writable fs f clusters o size) (hcomp : Compact fs f clusters o size)

include h hcomp in
lemma Writable.growIfNeeded_eq (hgrow : o + size > f.mSize) :
    ∃ e, (fs.prepared f clusters o size).growIfNeeded { f with
        mContiguousRanges := [⟨0, f.mFirstCluster⟩]
        mFirstCluster := (clusters ++ fs.added f o size).headD 0
        mIsDirty := f.mFirstCluster = 0 || f.mIsDirty } (o + size) =
      .ok ((fs.prepared f clusters o size).patched f.mIdentifier e, { f with
        mContiguousRanges := [⟨0, (clusters ++ fs.added f o size).headD 0⟩]
        mFirstCluster := (clusters ++ fs.added f o size).headD 0
        mSize := o + size
        mIsDirty := false }) := by
  have hsize : toU32 (o + size) = o + size := toU32_of_lt h.end_lt
  have hflush := flushMetaModifications_eq (fs.prepared f clusters o size)
    { f with
      mContiguousRanges := [⟨0, f.mFirstCluster⟩]
      mFirstCluster := (clusters ++ fs.added f o size).headD 0
      mSize := o + size
      mIsDirty := true } rfl h.entry_ge (by rw [prepared_mBytesPerCluster]; exact h.entry_le)
  dsimp only at hflush
  generalize newEntry _ _ = e at hflush
  refine ⟨e, ?_⟩
  rw [growIfNeeded]
  rw [if_pos hgrow, setSize, hsize, if_neg (by omega)]
  rw [hflush, ok_bind]
  dsimp only
  have hoccupies : Occupies ((fs.prepared f clusters o size).patched f.mIdentifier e)
      { mIdentifier := f.mIdentifier
        mFirstCluster := (clusters ++ fs.added f o size).headD 0
        mSize := o + size } (clusters ++ fs.added f o size) :=
    h.occupies hcomp rfl prepared_mBytesPerCluster rfl (by dsimp only; omega)
  rw [computeContiguousRanges_of_consecutive hoccupies hcomp.1 _ rfl, ok_bind]
  · rfl
  · show _ * (fs.prepared f clusters o size).mBytesPerCluster < _
    rw [prepared_mBytesPerCluster]
    exact hcomp.2


end UltraOS.FAT32
