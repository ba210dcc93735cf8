import UltraOS.FileSystem.FAT32.Extend

/-!
# The contents of a file

What `write` does to a file as a list of bytes and to the rest of the volume, for a file that is one range of
clusters after the call. The bytes are overwritten by the data, but those behind the old end in the last cluster
are not cleared. The rest of the volume is unchanged, but the block whose index is the number of the last allocated
cluster may be filled with zeros.
-/

namespace UltraOS.FAT32

open List

variable {fs : FAT32} {f : File} {cs : List Nat} {off : Nat} {data : List UInt8}

section

variable {size k : Nat} (h : Writable fs f cs off size) (hcomp : Compact fs f cs off size)

include h hcomp

lemma Writable.getElem?_eq (hk : k < (cs ++ fs.added f off size).length) :
    (cs ++ fs.added f off size)[k]? = some ((cs ++ fs.added f off size).headD 0 + k) ∧
    reservedClusterCount ≤ (cs ++ fs.added f off size).headD 0 + k := by
  have hlink := (h.chain_prepared hcomp).link
  have hcons := hcomp.1
  cases hall : cs ++ fs.added f off size with
  | nil =>
    rw [hall] at hk
    exact absurd hk (Nat.not_lt_zero k)
  | cons first ts =>
    rw [hall] at hk hlink hcons
    have hget := hcons.getElem? k (Nat.le_of_lt_succ hk)
    exact ⟨hget, ((entryType_eq_link_iff _).mp (hlink _ (mem_of_getElem? hget))).1⟩

lemma Writable.getD_clusters (hk : k < cs.length) : cs.getD k 0 = (cs ++ fs.added f off size).headD 0 + k := by
  have hget := (h.getElem?_eq hcomp (k := k) (by rw [length_append]; omega)).1
  rw [List.getElem?_append_left hk] at hget
  rw [getD_eq_getElem?_getD, hget]
  rfl

lemma Writable.mem_zeroed_iff (n : Nat) (hk : k < (cs ++ fs.added f off size).length) :
    (cs ++ fs.added f off size).headD 0 + k ∈ (fs.added f off size).take n ↔ cs.length ≤ k ∧ k < cs.length + n := by
  constructor
  · intro hmem
    obtain ⟨j, hj⟩ := mem_iff_getElem?.mp hmem
    rw [List.getElem?_take] at hj
    split at hj
    · rename_i hlt
      have hlen := (List.getElem?_eq_some_iff.mp hj).1
      have hget := (h.getElem?_eq hcomp (k := cs.length + j) (by rw [length_append]; omega)).1
      rw [List.getElem?_append_right le_self_add, Nat.add_sub_cancel_left, hj] at hget
      have heq := Option.some.inj hget
      omega
    · cases hj
  · intro hr
    have hget := (h.getElem?_eq hcomp hk).1
    rw [List.getElem?_append_right hr.1] at hget
    apply mem_of_getElem? (i := k - cs.length)
    rw [List.getElem?_take, if_pos (by omega), hget]

lemma Writable.getLastD_added (hmiss : fs.missing f off size ≠ 0) : (fs.added f off size).getLastD 0 + 1 =
    (cs ++ fs.added f off size).headD 0 + (cs ++ fs.added f off size).length := by
  have hlen := h.length_added
  have hget := (h.getElem?_eq hcomp (k := (cs ++ fs.added f off size).length - 1) (by rw [length_append]; omega)).1
  rw [← List.getLast?_eq_getElem?, List.getLast?_append_of_ne_nil _ (ne_nil_of_length_pos (by omega))] at hget
  rw [getLastD_eq_getLast?, hget, length_append]
  show _ + _ + 1 = _
  omega

lemma Writable.prepared_data (hk : k < (cs ++ fs.added f off size).length) (i : Nat) :
    (fs.prepared f cs off size).mDataCache ((cs ++ fs.added f off size).headD 0 + k - reservedClusterCount) i =
      if cs.length ≤ k ∧ k < ceilingDivide off fs.mBytesPerCluster then 0 else fs.mDataCache
        ((cs ++ fs.added f off size).headD 0 + k - reservedClusterCount) i := by
  have hlen := h.length_added
  have hge := (h.getElem?_eq hcomp hk).2
  rw [prepared]
  by_cases hmiss : fs.missing f off size = 0
  · rw [length_append] at hk
    rw [if_pos hmiss, if_neg (by omega)]
  · have hlast := h.getLastD_added hcomp hmiss
    have hres : 0 < reservedClusterCount := by decide
    have hmem := h.mem_zeroed_iff hcomp (ceilingDivide off fs.mBytesPerCluster - cs.length) hk
    rw [if_neg hmiss, extended]
    dsimp only
    rw [if_neg (by omega), Nat.sub_add_cancel hge]
    simp only [hmem]
    congr 1
    rw [eq_iff_iff]
    omega

end

/-- The table and the file as a write leaves them behind. -/
structure Grown (fs : FAT32) (f : File) (clusters : List Nat) (offset size : Nat) (fs' : FAT32) (f' : File) : Prop where
  table : fs'.mFatCache = (fs.prepared f clusters offset size).mFatCache
  bytes : fs'.mBytesPerCluster = fs.mBytesPerCluster
  first : f'.mFirstCluster = (clusters ++ fs.added f offset size).headD 0
  size : f'.mSize = max f.mSize (offset + size)
  ranges : f'.mContiguousRanges = [⟨0, f'.mFirstCluster⟩]

structure Written (fs : FAT32) (f : File) (clusters : List Nat) (offset : Nat) (data : List UInt8)
    (fs' : FAT32) (f' : File) : Prop extends Grown fs f clusters offset data.length fs' f' where
  inside : ∀ block i, Within fs f'.mFirstCluster offset data.length block i →
    fs'.mDataCache block i = data.getD (positionOf fs f'.mFirstCluster block i - offset) 0
  outside : ∀ block i, ¬ Within fs f'.mFirstCluster offset data.length block i → ¬ InEntry f.mIdentifier block i →
    fs'.mDataCache block i = (fs.prepared f clusters offset data.length).mDataCache block i

variable {fs' : FAT32} {f' : File} (hw : Written fs f cs off data fs' f')
  (h : Writable fs f cs off data.length) (hcomp : Compact fs f cs off data.length)

lemma Writable.grow {size : Nat} (h : Writable fs f cs off size) (hcomp : Compact fs f cs off size) :
    ∃ fs' f', (fs.prepared f cs off size).growIfNeeded { f with
        mContiguousRanges := [⟨0, f.mFirstCluster⟩]
        mFirstCluster := (cs ++ fs.added f off size).headD 0
        mIsDirty := f.mFirstCluster = 0 || f.mIsDirty } (off + size) = .ok (fs', f') ∧
      Grown fs f cs off size fs' f' ∧
      ∀ b i, ¬ InEntry f.mIdentifier b i → fs'.mDataCache b i = (fs.prepared f cs off size).mDataCache b i := by
  by_cases hgrow : off + size > f.mSize
  · obtain ⟨e, hok⟩ := h.growIfNeeded_eq hcomp hgrow
    refine ⟨_, _, hok, ⟨rfl, prepared_mBytesPerCluster, rfl, ?_, rfl⟩, ?_⟩
    · exact (max_eq_right hgrow.le).symm
    · intro b i he
      exact if_neg he
  · have hmiss : fs.missing f off size = 0 :=
      Nat.sub_eq_zero_of_le (ceilingDivide_mono h.mounted.bytes_pos (not_lt.mp hgrow))
    have howns := h.occupies_of_missing hmiss
    have hadded : fs.added f off size = [] := length_eq_zero_iff.mp (h.length_added.trans hmiss)
    have hfirst : (cs ++ fs.added f off size).headD 0 = f.mFirstCluster := by
      obtain ⟨ts, rfl⟩ := howns.eq_cons
      rw [hadded]
      rfl
    rw [growIfNeeded, if_neg hgrow]
    refine ⟨_, _, rfl, ⟨rfl, prepared_mBytesPerCluster, rfl, ?_, ?_⟩, fun _ _ _ => rfl⟩
    · exact (max_eq_left (not_lt.mp hgrow)).symm
    · dsimp only
      rw [hfirst]

lemma Grown.straight {size : Nat} (hgrown : Grown fs f cs off size fs' f')
    (h : Writable fs f cs off size) (hcomp : Compact fs f cs off size) :
    Straight fs' f' f'.mFirstCluster (ceilingDivide f'.mSize fs'.mBytesPerCluster) := by
  have hoccupies := h.occupies hcomp hgrown.table hgrown.bytes hgrown.first hgrown.size
  have hcons := hcomp.1
  obtain ⟨ts, heq⟩ := hoccupies.eq_cons
  rw [heq] at hoccupies hcons
  rw [← hoccupies.length]
  exact hoccupies.straight (hgrown.ranges.trans (rangesOf_of_consecutive _ _ hcons).symm) (by rwa [take_length]) le_rfl

include h hcomp in
/-- `write` returns, with the bytes in the part of the file that they are for. -/
lemma Writable.write :
    ∃ fs' f', fs.write f data off = .ok (fs', f', data.length) ∧ Written fs f cs off data fs' f' := by
  have hdiv := Nat.div_add_mod' off fs.mBytesPerCluster
  have hmod := Nat.mod_lt off h.mounted.bytes_pos
  obtain ⟨fs', f', hok, hgrown, hdata⟩ := h.grow hcomp
  have hstraight := hgrown.straight h hcomp
  have hbs := hgrown.bytes
  have hposition : off / fs.mBytesPerCluster * fs'.mBytesPerCluster +
      (off - off / fs.mBytesPerCluster * fs.mBytesPerCluster) = off := by
    rw [hbs]
    omega
  have hloop := hstraight.writeLoop_eq (data.length + 1) (off / fs.mBytesPerCluster)
    (off - off / fs.mBytesPerCluster * fs.mBytesPerCluster) data (by omega) h.size_ne
    (by rw [hposition, hgrown.size]; exact ceilingDivide_mono hstraight.bytes_pos (le_max_right _ _)) (lt_add_one _)
  rw [FAT32.write, if_neg h.size_ne, h.withRanges_eq hcomp, ok_bind]
  rw [h.extendIfNeeded_eq hcomp, ok_bind]
  dsimp only
  rw [hok, ok_bind]
  rw [hloop, ok_bind, hposition]
  have hwithin : ∀ b i, Within fs' f'.mFirstCluster off data.length b i ↔
      Within fs f'.mFirstCluster off data.length b i := by
    intro b i
    unfold Within positionOf
    rw [hbs]
  refine ⟨_, _, rfl, ⟨hgrown.table, hgrown.bytes, hgrown.first, hgrown.size, hgrown.ranges⟩, ?_, ?_⟩
  · intro b i hin
    have hv : (overlay fs' f'.mFirstCluster off data).mDataCache b i =
        data.getD (positionOf fs' f'.mFirstCluster b i - off) 0 :=
      if_pos ((hwithin b i).mpr hin)
    rw [hv, positionOf, positionOf, hbs]
  · intro b i hout he
    rw [← hdata b i he]
    exact if_neg fun hin => hout ((hwithin b i).mp hin)

section

def contents (fs : FAT32) (f : File) (clusters : List Nat) : List UInt8 :=
  (List.range f.mSize).map fun position =>
    fs.mDataCache (clusters.getD (position / fs.mBytesPerCluster) 0 - reservedClusterCount)
      (position % fs.mBytesPerCluster)

/-- Bytes overwritten by others from an offset on, with zeros in a gap in front of it. -/
def overwritten (bytes data : List UInt8) (offset : Nat) : List UInt8 :=
  (List.range (max bytes.length (offset + data.length))).map fun position =>
    if offset ≤ position ∧ position < offset + data.length then data.getD (position - offset) 0
    else bytes.getD position 0

/-- `write` returns, and from then on `read` returns parts of the old contents overwritten by the
data. -/
def Obeys (fs : FAT32) (f : File) (clusters : List Nat) (data : List UInt8) (offset : Nat) : Prop :=
  ∃ fs' f', fs.write f data offset = .ok (fs', f', data.length) ∧ f'.mSize = max f.mSize (offset + data.length) ∧
    ∀ o n, fs'.read f' o n = .ok (f', ((overwritten (contents fs f clusters) data offset).drop o).take n)

/-- No byte behind the end of the file, in its last cluster and in front of the offset, is other
than zero. -/
def GapClear (fs : FAT32) (f : File) (clusters : List Nat) (offset : Nat) : Prop :=
  ∀ position < offset, f.mSize ≤ position → position / fs.mBytesPerCluster < clusters.length →
    fs.mDataCache (clusters.getD (position / fs.mBytesPerCluster) 0 - reservedClusterCount)
      (position % fs.mBytesPerCluster) = 0

instance (fs : FAT32) (f : File) (clusters : List Nat) (offset : Nat) :
    Decidable (GapClear fs f clusters offset) := inferInstanceAs (Decidable (∀ _ < _, _))

variable {pos : Nat}

lemma positionOf_byte (fs : FAT32) {first : Nat} (hge : reservedClusterCount ≤ first + pos / fs.mBytesPerCluster) :
    positionOf fs first (first + pos / fs.mBytesPerCluster - reservedClusterCount)
      (pos % fs.mBytesPerCluster) = pos := by
  rw [positionOf, Nat.sub_add_cancel hge, Nat.add_sub_cancel_left]
  exact Nat.div_add_mod' pos fs.mBytesPerCluster

lemma Writable.entry_not_mem_after {size : Nat} (h : Writable fs f cs off size) :
    f.mIdentifier.fileDirectoryEntryCluster ∉ cs ++ fs.added f off size := by
  rw [mem_append, not_or]
  refine ⟨h.entry_not_mem, ?_⟩
  intro hmem
  exact h.entry_used (mem_candidates.mp (mem_of_mem_take hmem)).1

include hw h hcomp in
lemma Written.byteAt_eq (hposition : pos < max f.mSize (off + data.length)) : byteAt fs' f'.mFirstCluster pos = if off ≤
    pos ∧ pos < off + data.length then data.getD (pos - off) 0 else if pos / fs.mBytesPerCluster <
    cs.length then fs.mDataCache (cs.getD (pos / fs.mBytesPerCluster) 0 - reservedClusterCount)
    (pos % fs.mBytesPerCluster) else 0 := by
  have hpos := h.mounted.bytes_pos
  have hoccupies := h.occupies hcomp hw.table hw.bytes hw.first hw.size
  have hk : pos / fs.mBytesPerCluster < (cs ++ fs.added f off data.length).length := by
    rw [hoccupies.length, hw.size, hw.bytes]
    exact div_lt_ceilingDivide hpos hposition
  obtain ⟨hget, hge⟩ := h.getElem?_eq hcomp hk
  have hdata := h.prepared_data hcomp hk (pos % fs.mBytesPerCluster)
  rw [← hw.first] at hget hge hdata
  have hof := positionOf_byte fs hge
  have hwithin : Within fs f'.mFirstCluster off data.length
      (f'.mFirstCluster + pos / fs.mBytesPerCluster - reservedClusterCount)
      (pos % fs.mBytesPerCluster) ↔ off ≤ pos ∧ pos < off + data.length := by
    rw [Within, hof, Nat.sub_add_cancel hge]
    have hmod := Nat.mod_lt pos hpos
    exact ⟨fun hin => hin.2.2, fun hin => ⟨le_self_add, hmod, hin⟩⟩
  rw [byteAt, hw.bytes]
  by_cases hin : off ≤ pos ∧ pos < off + data.length
  · rw [if_pos hin, hw.inside _ _ (hwithin.mpr hin), hof]
  · have he : ¬ InEntry f.mIdentifier (f'.mFirstCluster + pos / fs.mBytesPerCluster - reservedClusterCount)
        (pos % fs.mBytesPerCluster) := by
      intro he
      apply h.entry_not_mem_after
      rw [← he.1, Nat.sub_add_cancel hge]
      exact mem_of_getElem? hget
    rw [if_neg hin, hw.outside _ _ (fun h => hin (hwithin.mp h)) he, hdata]
    by_cases hold : pos / fs.mBytesPerCluster < cs.length
    · rw [if_neg (by omega), if_pos hold, h.getD_clusters hcomp hold, ← hw.first]
    · have hlen := h.owns.length
      have hsize : f.mSize ≤ pos := by
        by_contra hlt
        exact hold (hlen ▸ div_lt_ceilingDivide hpos (not_le.mp hlt))
      have ho := div_lt_ceilingDivide hpos (l := off) (q := pos) (by omega)
      rw [if_pos ⟨not_lt.mp hold, ho⟩, if_neg hold]

lemma getD_contents (hlen : f.mSize ≤ cs.length * fs.mBytesPerCluster) (hpos : 0 < fs.mBytesPerCluster)
    (hclear : f.mSize ≤ pos → pos / fs.mBytesPerCluster < cs.length →
      fs.mDataCache (cs.getD (pos / fs.mBytesPerCluster) 0 - reservedClusterCount) (pos % fs.mBytesPerCluster) = 0) :
    (contents fs f cs).getD pos 0 = if pos / fs.mBytesPerCluster < cs.length then
        fs.mDataCache (cs.getD (pos / fs.mBytesPerCluster) 0 - reservedClusterCount) (pos % fs.mBytesPerCluster)
      else 0 := by
  rw [contents, getD_eq_getElem?_getD, List.getElem?_map]
  by_cases hposition : pos < f.mSize
  · rw [List.getElem?_range hposition, if_pos]
    · rfl
    · exact (Nat.div_lt_iff_lt_mul hpos).mpr (by omega)
  · rw [List.getElem?_eq_none (by rw [length_range]; omega)]
    split
    · rename_i hold
      exact (hclear (by omega) hold).symm
    · rfl

lemma length_contents (fs : FAT32) (f : File) (cs : List Nat) : (contents fs f cs).length = f.mSize := by
  rw [contents, length_map, length_range]

lemma getElem?_overwritten (bs data : List UInt8) (off : Nat) (h : pos < max bs.length (off + data.length)) :
    (overwritten bs data off)[pos]? = some (if off ≤ pos ∧ pos < off + data.length then data.getD (pos - off) 0
      else bs.getD pos 0) := by
  rw [overwritten, List.getElem?_map, List.getElem?_range h]
  rfl

lemma Owns.size_le (h : Owns fs f cs) (hpos : 0 < fs.mBytesPerCluster) : f.mSize ≤ cs.length * fs.mBytesPerCluster := by
  rw [h.length]
  exact (ceilingDivide_le_iff hpos).mp le_rfl

include hw h hcomp in
lemma Written.bytesFrom_eq_iff : bytesFrom fs' f'.mFirstCluster 0 f'.mSize =
    overwritten (contents fs f cs) data off ↔ GapClear fs f cs off := by
  have hpos := h.mounted.bytes_pos
  have hbyte : ∀ pos < max f.mSize (off + data.length),
      (bytesFrom fs' f'.mFirstCluster 0 f'.mSize)[pos]? = some (byteAt fs' f'.mFirstCluster pos) := by
    intro pos hposition
    rw [bytesFrom, List.getElem?_map, hw.size, List.getElem?_range hposition, Option.map_some, zero_add]
  have hlen := length_contents fs f cs
  constructor
  · intro heq pos hposition hend hold
    have hlt : pos < max f.mSize (off + data.length) := by omega
    have hin : ¬ (off ≤ pos ∧ pos < off + data.length) := by omega
    have hget := hbyte pos hlt
    rw [heq, getElem?_overwritten _ _ _ (by rw [hlen]; exact hlt),
      hw.byteAt_eq h hcomp hlt, if_neg hin, if_neg hin, if_pos hold,
      getD_eq_default _ _ (by rw [hlen]; exact hend)] at hget
    exact (Option.some.inj hget).symm
  · intro hclear
    apply ext_getElem?
    intro pos
    by_cases hlt : pos < max f.mSize (off + data.length)
    · rw [hbyte pos hlt, getElem?_overwritten _ _ _ (by rw [hlen]; exact hlt), hw.byteAt_eq h hcomp hlt]
      by_cases hin : off ≤ pos ∧ pos < off + data.length
      · rw [if_pos hin, if_pos hin]
      · rw [if_neg hin, if_neg hin, getD_contents (h.owns.size_le hpos) hpos]
        intro hend hold
        exact hclear pos (by omega) hend hold
    · rw [List.getElem?_eq_none (by rw [length_bytesFrom, hw.size]; omega), List.getElem?_eq_none (by
          rw [overwritten, length_map, length_range, hlen]
          omega)]

/-- For a file that is one range of clusters after the call, `write` and `read` obey the law exactly if the
bytes between the end of the file and the offset in its last cluster are zero before. -/
theorem obeys_iff (h : Writable fs f cs off data.length) (hcompact : Compact fs f cs off data.length) :
    Obeys fs f cs data off ↔ GapClear fs f cs off := by
  obtain ⟨fs', f', hok, hw⟩ := h.write hcompact
  have hstraight := hw.straight h hcompact
  rw [← hw.bytesFrom_eq_iff h hcompact]
  constructor
  · rintro ⟨fs'', f'', hok', -, hread⟩
    rw [hok] at hok'
    cases hok'
    have hall := hread 0 f'.mSize
    rw [hstraight.read_eq] at hall
    have heq := congrArg (fun result : Run (File × List UInt8) => result.map Prod.snd) hall
    have hlen : (overwritten (contents fs f cs) data off).length = f'.mSize := by
      rw [overwritten, length_map, length_range, length_contents, hw.size]
    simp only [Except.map, drop_zero, Except.ok.injEq] at heq
    rwa [take_of_length_le (le_of_eq (length_bytesFrom _ _ _ _)), take_of_length_le hlen.le] at heq
  · intro heq
    refine ⟨fs', f', hok, hw.size, ?_⟩
    intro o n
    rw [hstraight.read_eq, heq]

/-- No theorem depends on the number of the clusters, which is too small for a volume that mounts. -/
def sampleVolume : FAT32 where
  mFatCache := fun i => if i = 3 then 0 else 0x0FFFFFFF
  mDataCache := fun _ _ => 0xAA
  mLastFreeCluster := 3
  mFreeClusters := 1
  mClusterCount := 8
  mBytesPerCluster := 64
  mEndOfChain := 0x0FFFFFFF

def sampleFile (size : Nat) : File where
  mIdentifier := ⟨4, 0⟩
  mFirstCluster := 2
  mSize := size

lemma writable_sample {size n : Nat} (hpos : size ≠ 0) (hone : ceilingDivide size 64 = 1)
    (hsize : size < 0x100000000) (hn : n ≠ 0) (hend : off + n < 0x100000000)
    (hfit : sampleVolume.missing (sampleFile size) off n ≤ 1) : Writable sampleVolume (sampleFile size) [2] off n where
  mounted := ⟨by decide, by decide, by decide, by decide, by decide, by decide, by decide⟩
  owns := Or.inr ⟨by decide, rfl, by decide, hone.symm, hpos, hsize, by decide, by decide⟩
  ranges := Or.inl rfl
  size_ne := hn
  end_lt := hend
  enough := hfit
  counted := hfit
  entry_ge := show 2 ≤ 4 by decide
  entry_used := show sampleVolume.mFatCache 4 ≠ freeCluster by decide
  entry_not_mem := show 4 ∉ [2] by decide
  entry_le := show 0 + 32 ≤ 64 by decide

theorem obeys_iff_append : Obeys sampleVolume (sampleFile 10) [2] [1, 2, 3] 10 :=
  (obeys_iff (writable_sample (by decide) (by decide) (by decide) (by decide) (by decide)
    (by decide)) (by decide)).mpr (by decide)

/-- A byte written behind the end leaves the old bytes of the cluster between the end and the
byte. -/
theorem not_obeys_gap :
    Writable sampleVolume (sampleFile 10) [2] 12 1 ∧ Compact sampleVolume (sampleFile 10) [2] 12 1 ∧ (do
        let (fs, f, n) ← sampleVolume.write (sampleFile 10) [1] 12
        let (_, bs) ← fs.read f 10 3
        return (n, bs)) = (.ok (1, [0xAA, 0xAA, 1]) : Run (Nat × List UInt8)) ∧
      ¬ Obeys sampleVolume (sampleFile 10) [2] [1] 12 := by
  have hrun : (do
      let (fs, f, n) ← sampleVolume.write (sampleFile 10) [1] 12
      let (_, bs) ← fs.read f 10 3
      return (n, bs)) = (.ok (1, [0xAA, 0xAA, 1]) : Run (Nat × List UInt8)) := by
    decide +kernel
  refine ⟨writable_sample (by decide) (by decide) (by decide) (by decide) (by decide) (by decide), by decide, hrun, ?_⟩
  rintro ⟨fs, f, hok, -, hread⟩
  rw [hok, ok_bind] at hrun
  dsimp only at hrun
  rw [hread 10 3, ok_bind] at hrun
  dsimp only at hrun
  exact absurd hrun (by decide)

end

/-- `write` changes only data of the clusters of the file after the call, its directory entry, and the
entries of the table for the added clusters and the former last one. -/
def Framed (fs : FAT32) (f : File) (clusters : List Nat) (data : List UInt8) (offset : Nat) : Prop :=
  ∃ fs' f' chain, fs.write f data offset = .ok (fs', f', data.length) ∧ Occupies fs' f' chain ∧
    (∀ block i, i < fs.mBytesPerCluster → fs'.mDataCache block i ≠ fs.mDataCache block i →
      block + reservedClusterCount ∈ chain ∨ InEntry f.mIdentifier block i) ∧
    ∀ cluster, fs'.mFatCache cluster ≠ fs.mFatCache cluster →
      cluster ∈ chain ∧ (cluster ∉ clusters ∨ clusters.getLast? = some cluster)

/-- The block whose index is the number of the last added cluster is not filled with zeros, or has
nothing but the directory entry of the file to lose. -/
def FillHarmless (fs : FAT32) (f : File) (offset size : Nat) : Prop :=
  fs.missing f offset size = 0 ∨ ¬ Unaligned fs offset size ∨
    ∀ i < fs.mBytesPerCluster, fs.mDataCache ((fs.added f offset size).getLastD 0) i = 0 ∨
      InEntry f.mIdentifier ((fs.added f offset size).getLastD 0) i

instance (fs : FAT32) (f : File) (offset size : Nat) : Decidable (FillHarmless fs f offset size) :=
  inferInstanceAs (Decidable (_ ∨ _))

variable {b i : Nat}

include hw h hcomp in
lemma Written.mem_of_within (hin : Within fs f'.mFirstCluster off data.length b i) :
    b + reservedClusterCount ∈ cs ++ fs.added f off data.length := by
  obtain ⟨hfirst, -, -, hend⟩ := hin
  unfold positionOf at hend
  have hlen := (h.occupies hcomp hw.table hw.bytes hw.first hw.size).length
  rw [hw.size, hw.bytes] at hlen
  have hk : b + reservedClusterCount - f'.mFirstCluster < (cs ++ fs.added f off data.length).length := by
    rw [hlen]
    exact (lt_ceilingDivide_iff h.mounted.bytes_pos).mpr (by omega)
  have hget := (h.getElem?_eq hcomp hk).1
  rw [← hw.first, Nat.add_sub_of_le hfirst] at hget
  exact mem_of_getElem? hget

lemma Writable.last_not_mem {size : Nat} (h : Writable fs f cs off size)
    (hcomp : Compact fs f cs off size) (hmiss : fs.missing f off size ≠ 0) :
    (fs.added f off size).getLastD 0 + reservedClusterCount ∉ cs ++ fs.added f off size := by
  intro hmem
  obtain ⟨k, hk⟩ := mem_iff_getElem?.mp hmem
  have hlt := (List.getElem?_eq_some_iff.mp hk).1
  have hlast := h.getLastD_added hcomp hmiss
  rw [(h.getElem?_eq hcomp hlt).1] at hk
  have heq := Option.some.inj hk
  unfold reservedClusterCount at heq
  omega

include hw h hcomp in
lemma Written.data_changed (hharmless : FillHarmless fs f off data.length) (hi : i < fs.mBytesPerCluster)
    (hne : fs'.mDataCache b i ≠ fs.mDataCache b i) :
    b + reservedClusterCount ∈ cs ++ fs.added f off data.length ∨ InEntry f.mIdentifier b i := by
  by_contra hout
  obtain ⟨hmem, he⟩ := not_or.mp hout
  apply hne
  rw [hw.outside b i (fun hin => hmem (hw.mem_of_within h hcomp hin)) he, prepared]
  by_cases hmiss : fs.missing f off data.length = 0
  · rw [if_pos hmiss]
  · have hzeroed : b + reservedClusterCount ∉ (fs.added f off data.length).take
        (ceilingDivide off fs.mBytesPerCluster - cs.length) :=
      fun hzeroed => hmem (mem_append_right _ (mem_of_mem_take hzeroed))
    rw [if_neg hmiss, extended]
    dsimp only
    rw [if_neg hzeroed]
    split
    · rename_i hfill
      have hclear := (hharmless.resolve_left hmiss).resolve_left (not_not.mpr hfill.1) i hi
      rw [← hfill.2] at hclear
      exact (hclear.resolve_right he).symm
    · rfl

include hw h hcomp in
lemma Written.table_changed {c : Nat} (hne : fs'.mFatCache c ≠ fs.mFatCache c) :
    c ∈ cs ++ fs.added f off data.length ∧ (c ∉ cs ∨ cs.getLast? = some c) := by
  have hnodup := nodup_append.mp hcomp.1.nodup
  rw [hw.table, prepared] at hne
  by_cases hmiss : fs.missing f off data.length = 0
  · rw [if_pos hmiss] at hne
    exact absurd rfl hne
  · rw [if_neg hmiss] at hne
    by_cases hmem : c ∈ fs.added f off data.length
    · exact ⟨mem_append_right _ hmem, Or.inl fun hold => hnodup.2.2 c hold c hmem rfl⟩
    · have hadded : fs.added f off data.length ≠ [] := ne_nil_of_length_pos (by rw [h.length_added]; omega)
      have hlast : ¬ (cs.getLastD 0 = freeCluster ∨ c ≠ cs.getLastD 0) :=
        fun hlast => hne (allocated_of_not_mem hadded hmem hlast)
      obtain ⟨hused, heq⟩ := not_or.mp hlast
      have heq : c = cs.getLastD 0 := not_not.mp heq
      have hcs : cs ≠ [] := by
        intro hnil
        rw [hnil] at hused
        exact hused rfl
      rw [heq]
      refine ⟨mem_append_left _ (getLastD_mem hcs 0), Or.inr ?_⟩
      rw [getLastD_eq_getLast?, List.getLast?_eq_some_getLast hcs]
      rfl

lemma Framed.fillHarmless (hframed : Framed fs f cs data off) (h : Writable fs f cs off data.length)
    (hcomp : Compact fs f cs off data.length) : FillHarmless fs f off data.length := by
  obtain ⟨fs', f', hok, hw⟩ := h.write hcomp
  have hoccupies := h.occupies hcomp hw.table hw.bytes hw.first hw.size
  obtain ⟨fs'', f'', ch, hok', hch, hdata, -⟩ := hframed
  rw [hok] at hok'
  cases hok'
  have heq := hch.chain.unique hoccupies.chain (hch.first.trans hoccupies.first.symm)
  rw [heq] at hdata
  by_contra hharmful
  obtain ⟨hmiss, hfill⟩ := not_or.mp hharmful
  obtain ⟨hunaligned, hlost⟩ := not_or.mp hfill
  obtain ⟨i, hi⟩ := not_forall.mp hlost
  obtain ⟨hlt, hbyte⟩ := Classical.not_imp.mp hi
  obtain ⟨hdirt, he⟩ := not_or.mp hbyte
  have hmem := h.last_not_mem hcomp hmiss
  have hzero : fs'.mDataCache ((fs.added f off data.length).getLastD 0) i = 0 := by
    rw [hw.outside _ i (fun hin => hmem (hw.mem_of_within h hcomp hin)) he, prepared, if_neg hmiss, extended]
    dsimp only
    rw [if_pos ⟨not_not.mp hunaligned, rfl⟩]
  exact (hdata _ i hlt (by rw [hzero]; exact fun heq => hdirt heq.symm)).elim hmem he

/-- The write stays within the file and within the clusters that follow the first one on the disk, and the ranges
of the file are known or can be counted. -/
def InFirstRun (fs : FAT32) (f : File) (clusters : List Nat) (offset size : Nat) : Prop :=
  offset + size ≤ f.mSize ∧ Consecutive (clusters.take (ceilingDivide (offset + size) fs.mBytesPerCluster)) ∧
    (f.mContiguousRanges = [] → clusters.length * fs.mBytesPerCluster < 0x100000000)

instance (fs : FAT32) (f : File) (clusters : List Nat) (offset size : Nat) :
    Decidable (InFirstRun fs f clusters offset size) := inferInstanceAs (Decidable (_ ∧ _))

/-- No range but the first one is used by such a write. -/
lemma Writable.framed (h : Writable fs f cs off data.length) (hrun : InFirstRun fs f cs off data.length) :
    Framed fs f cs data off := by
  obtain ⟨hend, hcons, hcount⟩ := hrun
  have hclusters := ceilingDivide_mono h.mounted.bytes_pos hend
  have howns := h.occupies_of_missing (Nat.sub_eq_zero_of_le hclusters)
  obtain ⟨ts, rfl⟩ := howns.eq_cons
  have hranges : fs.withRanges f =
      .ok { f with mContiguousRanges := rangesOf ⟨0, f.mFirstCluster⟩ 1 f.mFirstCluster ts } := by
    rw [withRanges]
    rcases h.ranges with hrs | hrs
    · have hfit := decide_eq_true (howns.counted_iff.mpr (hcount hrs))
      rw [length_cons] at hfit
      rw [hrs, isEmpty_nil, if_pos rfl, howns.computeContiguousRanges_eq hrs, hfit, assert_true, ok_bind]
      rfl
    · obtain ⟨tail, heq, -⟩ := rangesOf_eq_cons ts ⟨0, f.mFirstCluster⟩ 1 f.mFirstCluster
      have hempty : f.mContiguousRanges.isEmpty = false := by rw [hrs, tail_cons, heq]; rfl
      rw [hempty, if_neg (by simp), ← @tail_cons _ f.mFirstCluster ts, ← hrs]
  let f' : File := { f with mContiguousRanges := rangesOf ⟨0, f.mFirstCluster⟩ 1 f.mFirstCluster ts }
  have howns' : Occupies fs f' (f'.mFirstCluster :: ts) := { howns with }
  have hdiv := Nat.div_add_mod' off fs.mBytesPerCluster
  have hmod := Nat.mod_lt off h.mounted.bytes_pos
  have hposition : off / fs.mBytesPerCluster * fs.mBytesPerCluster +
      (off - off / fs.mBytesPerCluster * fs.mBytesPerCluster) = off := by omega
  have hn : ceilingDivide (off + data.length) fs.mBytesPerCluster ≤ ts.length + 1 := by
    rwa [← howns.length] at hclusters
  have hloop := (howns'.straight rfl hcons hn).writeLoop_eq (data.length + 1) (off / fs.mBytesPerCluster)
    (off - off / fs.mBytesPerCluster * fs.mBytesPerCluster) data (by omega) h.size_ne
    (le_of_eq (by rw [hposition])) (lt_add_one _)
  refine ⟨overlay fs f.mFirstCluster off data, f', f.mFirstCluster :: ts, ?_,
    { howns with chain := howns.chain.congr fun _ _ => rfl }, fun b i _ hne => .inl ?_, fun c hne => absurd rfl hne⟩
  · rw [FAT32.write, if_neg h.size_ne, hranges, ok_bind, extendIfNeeded]
    dsimp only
    rw [if_neg (Nat.not_lt.mpr hclusters), ok_bind, growIfNeeded]
    dsimp only
    rw [if_neg (Nat.not_lt.mpr hend), ok_bind, hloop, ok_bind, hposition]
    rfl
  · by_cases hin : Within fs f.mFirstCluster off data.length b i
    · obtain ⟨hfirst, -, -, hlast⟩ := hin
      unfold positionOf at hlast
      have hk := (lt_ceilingDivide_iff h.mounted.bytes_pos (k := b + reservedClusterCount - f.mFirstCluster)
        (l := off + data.length)).mpr (by omega)
      obtain ⟨m, hm⟩ : ∃ m, ceilingDivide (off + data.length) fs.mBytesPerCluster = m + 1 :=
        ⟨_, (Nat.succ_pred_eq_of_pos (Nat.zero_lt_of_lt hk)).symm⟩
      rw [hm] at hcons hk hn
      rw [take_succ_cons] at hcons
      refine mem_of_mem_take (i := m + 1) ?_
      rw [take_succ_cons, hcons.mem_iff, length_take]
      omega
    · exact absurd (if_neg hin) hne

/-- For a file that is one range of clusters after the call, and for a write that stays in the first range, `write`
leaves the rest of the volume alone exactly if the misdirected zero fill does no harm. -/
theorem framed_iff (h : Writable fs f cs off data.length) (hcond : Compact fs f cs off data.length ∨
    InFirstRun fs f cs off data.length) : Framed fs f cs data off ↔ FillHarmless fs f off data.length := by
  rcases hcond with hcompact | hrun
  · constructor
    · intro hframed
      exact hframed.fillHarmless h hcompact
    · intro hharmless
      obtain ⟨fs', f', hok, hw⟩ := h.write hcompact
      refine ⟨fs', f', _, hok, h.occupies hcompact hw.table hw.bytes hw.first hw.size, ?_, ?_⟩
      · intro b i hi hne
        exact hw.data_changed h hcompact hharmless hi hne
      · intro c hne
        exact hw.table_changed h hcompact hne
  · exact iff_of_true (h.framed hrun) (.inl (Nat.sub_eq_zero_of_le (ceilingDivide_mono h.mounted.bytes_pos hrun.1)))

/-- The byte goes to the first cluster of a file in the clusters 2, 3 and 7. -/
theorem framed_iff_fragments : Framed
    { sampleVolume with mFatCache := fun i => if i = 2 then 3 else if i = 3 then 7 else 0x0FFFFFFF }
    { sampleFile 150 with mContiguousRanges := [⟨0, 2⟩, ⟨3, 7⟩] } [2, 3, 7] [1] 0 :=
  (framed_iff {
    mounted := ⟨by decide, by decide, by decide, by decide, by decide, by decide, by decide⟩
    owns := Or.inr ⟨by decide, rfl, by decide, by decide, by decide, by decide, by decide, by decide⟩
    ranges := Or.inr rfl
    size_ne := by decide
    end_lt := by decide
    enough := by decide
    counted := by decide
    entry_ge := by decide
    entry_used := by decide
    entry_not_mem := by decide
    entry_le := by decide } (.inr (by decide))).mpr (by decide)

/-- A byte behind the end of cluster 2 goes to cluster 3, and the data of cluster 5 are lost. -/
theorem not_framed_neighbour : Writable sampleVolume (sampleFile 64) [2] 64 1 ∧ Compact sampleVolume (sampleFile 64) [2]
    64 1 ∧ sampleVolume.added (sampleFile 64) 64 1 = [3] ∧ sampleVolume.Chain [5] ∧ sampleVolume.lockedRead 3 0 4 =
    .ok [0xAA, 0xAA, 0xAA, 0xAA] ∧ (do
        let (fs, _, n) ← sampleVolume.write (sampleFile 64) [1] 64
        let bs ← fs.lockedRead 3 0 4
        return (n, bs)) = (.ok (1, [0, 0, 0, 0]) : Run (Nat × List UInt8)) ∧
      ¬ Framed sampleVolume (sampleFile 64) [2] [1] 64 := by
  have hwritable : Writable sampleVolume (sampleFile 64) [2] 64 1 :=
    writable_sample (by decide) (by decide) (by decide) (by decide) (by decide) (by decide)
  refine ⟨hwritable, by decide, by decide, by decide, by decide, by decide +kernel, ?_⟩
  intro hframed
  exact absurd (hframed.fillHarmless hwritable (by decide)) (by decide)

end UltraOS.FAT32
