import UltraOS.FileSystem.FAT32.Directory.Remove
import UltraOS.FileSystem.FAT32.Directory.RoundTrip
import UltraOS.FileSystem.FAT32.Files.Balance

/-!
# The emptiness of a directory

`remove_file` takes a directory for empty if the slot behind `.` and `..` is the end mark. The iteration skips
deleted slots.
-/

namespace UltraOS.FAT32

open List DirectoryEntry Record

lemma Record.exists_slots (r : Record) : ∃ slot ts, r.slots = slot :: ts ∧ isEndOfDirectory slot = false := by
  cases r with
  | skipped slot hslot =>
    refine ⟨slot, [], rfl, ?_⟩
    by_contra hend
    rw [Bool.not_eq_false] at hend
    have hbyte : slot.getD 0 0 = 0 := eq_of_beq hend
    have hdeleted : isDeleted slot = false := by
      rw [isDeleted, hbyte]
      decide
    rw [UltraOS.FAT32.isSkipped, hdeleted, hend] at hslot
    cases hslot
  | short slot hslot =>
    refine ⟨slot, [], rfl, ?_⟩
    simp only [isShort, isUsed, Bool.and_eq_true, Bool.not_eq_true'] at hslot
    exact hslot.1.1.1.2
  | long name =>
    obtain ⟨p, ps, hps⟩ := exists_cons_of_ne_nil name.ne_nil
    refine ⟨p, ps ++ [name.slot], by rw [Record.slots, hps]; rfl, ?_⟩
    have hpiece := name.isPiece p (by rw [hps]; exact mem_cons_self)
    simp only [isPiece, isUsed, Bool.and_eq_true, Bool.not_eq_true'] at hpiece
    exact hpiece.1.1.2

lemma isNonEmptyDirectory_of_isDirectory {fs : FAT32} {e : NativeEntry} (hdirectory : e.isDirectory = true)
    (hlink : reservedClusterCount ≤ e.firstDataCluster) (hsize : 16 ≤ fs.slotsPerCluster)
    (hbs : fs.mBytesPerCluster = fs.slotsPerCluster * directoryEntrySize) : fs.isNonEmptyDirectory e =
    .ok (!isEndOfDirectory (slotBytes fs e.firstDataCluster 2)) := by
  have hused : e.firstDataCluster ≠ freeCluster := by
    unfold reservedClusterCount at hlink
    unfold freeCluster
    omega
  have hle : directoryEntrySize * 2 + 1 ≤ fs.mBytesPerCluster := by
    rw [hbs]
    unfold directoryEntrySize
    omega
  rw [isNonEmptyDirectory, if_pos ⟨hdirectory, hused⟩, pureClusterValue, assert_bind hlink,
    pure_eq_ok, ok_bind, FAT32.lockedRead_eq fs _ hle, ok_bind]
  rfl

namespace Walk

lemma holds_of_bytes {fs : FAT32} {clusters : List Nat} {records : List Record} {tail : List (List UInt8)}
    (hbs : fs.mBytesPerCluster = 512) (hch : fs.Chain clusters)
    (hslots : allSlots fs clusters = records.flatMap Record.slots ++ tail) (hended : Ended tail) :
    Holds fs clusters records tail := by
  have hsize : fs.slotsPerCluster = 16 := by
    rw [slotsPerCluster, hbs]
    rfl
  exact ⟨⟨hch, by rw [hsize, hbs]; rfl, by omega⟩, by omega, hslots, hended⟩

/-- The iteration over a directory yields no entry but `.` and `..`. -/
def YieldsOnlyDots (fs : FAT32) (firstCluster : Nat) : Prop :=
  ∃ entries, fs.listing firstCluster = .ok entries ∧ ∀ entry ∈ entries, entry.name = dot ∨ entry.name = dotDot

/-- A directory with `.` and `..` in its first two slots. Behind them there are records of any kind, and
the entries among them have other names. -/
structure Begins (fs : FAT32) (clusters : List Nat) (first second : { slot // isShort slot = true })
    (records : List Record) (tail : List (List UInt8)) : Prop where
  holds : Holds fs clusters ([.short first.1 first.2, .short second.1 second.2] ++ records) tail
  dots : ∀ entry ∈ entriesFrom fs clusters 0 [.short first.1 first.2, .short second.1 second.2],
    entry.name = dot ∨ entry.name = dotDot
  named : ∀ entry ∈ entriesFrom fs clusters 2 records, entry.isEmpty = false ∧ entry.name ≠ dot ∧ entry.name ≠ dotDot

variable {fs : FAT32} {clusters : List Nat} {first second : { slot // isShort slot = true }}
  {records : List Record} {tail : List (List UInt8)} {entry : NativeEntry}

lemma entriesFrom_eq_nil_iff {i : Nat} :
    entriesFrom fs clusters i records = [] ↔ ∀ r ∈ records, r.isSkipped = true := by
  refine ⟨fun h => ?_, entriesFrom_skips⟩
  induction records generalizing i with
  | nil => simp
  | cons r records ih =>
    rw [entriesFrom] at h
    split at h
    · rename_i hskipped
      exact forall_mem_cons.mpr ⟨hskipped, ih h⟩
    · cases h

variable (h : Begins fs clusters first second records tail)

include h in
lemma Begins.yieldsOnlyDots_iff : YieldsOnlyDots fs (clusters.getD 0 0) ↔ ∀ r ∈ records, r.isSkipped = true := by
  have hnames : ∀ entry : NativeEntry, entry.name = dot ∨ entry.name = dotDot → entry.isEmpty = false := by
    rintro entry (hname | hname) <;> rw [NativeEntry.isEmpty, hname] <;> rfl
  have hlist : fs.listing (clusters.getD 0 0) =
      .ok (entriesFrom fs clusters 0 [.short first.1 first.2, .short second.1 second.2] ++
        entriesFrom fs clusters 2 records) := by
    rw [h.holds.listing_eq, entriesFrom_append, listed_eq_self]
    · rfl
    · intro entry he
      rcases mem_append.mp he with he | he
      · exact hnames entry (h.dots entry he)
      · exact (h.named entry he).1
  rw [← entriesFrom_eq_nil_iff, eq_nil_iff_forall_not_mem]
  constructor
  · rintro ⟨es, hes, honly⟩ entry he
    rw [hlist] at hes
    cases hes
    exact (honly entry (mem_append_right _ he)).elim (h.named entry he).2.1 (h.named entry he).2.2
  · intro hnone
    refine ⟨_, hlist, fun entry he => ?_⟩
    exact h.dots entry ((mem_append.mp he).resolve_right (hnone entry))

include h in
lemma Begins.isNonEmptyDirectory_eq (hdir : entry.isDirectory = true)
    (hfirst : entry.firstDataCluster = clusters.getD 0 0) : fs.isNonEmptyDirectory entry = .ok (!records.isEmpty) := by
  have hlaid := h.holds.laid
  have hsize := h.holds.size
  have hstd : Stands fs clusters 2 (records.flatMap Record.slots ++ tail) := h.holds.stands
  have hlen := hstd.add_length
  have hpos : 0 < clusters.length := by
    by_contra hzero
    rw [Nat.eq_zero_of_not_pos hzero] at hlen
    omega
  have hcl : clusterOf fs clusters 0 = clusters.getD 0 0 := by rw [clusterOf, Nat.zero_div]
  have hge := hlaid.two_le (hlaid.clusterOf_mem (mul_pos hpos hlaid.slots_pos))
  have hslot : slotAt fs clusters 2 = slotBytes fs (clusters.getD 0 0) 2 := by
    rw [slotAt, Nat.div_eq_of_lt (by omega), Nat.mod_eq_of_lt (by omega)]
  rw [isNonEmptyDirectory_of_isDirectory hdir (hfirst ▸ hcl ▸ hge) hsize hlaid.bytes, hfirst, ← hslot]
  cases records with
  | nil =>
    obtain ⟨slot, tail, rfl⟩ : ∃ slot ts, tail = slot :: ts := by
      refine exists_cons_of_ne_nil fun hnil => ?_
      have hle := Nat.mul_le_mul_right fs.slotsPerCluster hpos
      rw [hnil, flatMap_nil, append_nil, length_nil] at hlen
      omega
    rw [hstd.slotAt_eq, show isEndOfDirectory slot = true from h.holds.ended]
    rfl
  | cons r records =>
    obtain ⟨slot, ts, hslots, hend⟩ := r.exists_slots
    rw [flatMap_cons, hslots, cons_append, cons_append] at hstd
    rw [hstd.slotAt_eq, hend]
    rfl

/-- The emptiness test of `remove_file` agrees with the iteration unless all that follows `.` and `..` is
at least one skipped slot. -/
theorem Begins.emptiness_iff (h : Begins fs clusters first second records tail) (hdirectory : entry.isDirectory = true)
    (hfirst : entry.firstDataCluster = clusters.getD 0 0) : (fs.isNonEmptyDirectory entry = .ok false ↔
    YieldsOnlyDots fs (clusters.getD 0 0)) ↔ records = [] ∨ ∃ r ∈ records, r.isSkipped = false := by
  rw [h.isNonEmptyDirectory_eq hdirectory hfirst, h.yieldsOnlyDots_iff]
  cases records with
  | nil => simp
  | cons r records => simp [-mem_cons]

theorem emptiness_sample : sampleVolume.isNonEmptyDirectory ((sampleEntries 2).getD 0 {}) = .ok false ↔
    YieldsOnlyDots sampleVolume ([3].getD 0 0) :=
  (@Begins.emptiness_iff sampleVolume [3] ⟨slotBytes sampleVolume 3 0, by decide +kernel⟩
    ⟨slotBytes sampleVolume 3 1, by decide +kernel⟩ [] (replicate 14 (replicate 32 0)) _
    { holds := holds_of_bytes rfl (show sampleVolume.Chain [3] by decide) (by decide +kernel) (by rfl)
      dots := by decide +kernel
      named := fun _ h => nomatch h } (by decide +kernel) (by decide +kernel)).mpr (.inl rfl)

/-- The first entry of `/A` behind `.` and `..` is deleted and nothing follows, as other systems leave a directory.
Here the removal of the second of two files gets there, but in a directory of one cluster it then goes on to
free what stands behind the end of the chain. -/
def deletedVolume : FAT32 :=
  { sampleVolume with
    mDataCache := fun block i =>
      if block = 1 ∧ i = 2 * directoryEntrySize then 0xE5 else sampleVolume.mDataCache block i }

theorem not_emptiness_deletedVolume :
    deletedVolume.isNonEmptyDirectory ((sampleEntries 2).getD 0 {}) = .ok true ∧ YieldsOnlyDots deletedVolume 3 :=
  ⟨by rfl, sampleEntries 3, by rfl, by decide +kernel⟩

end Walk

end UltraOS.FAT32
