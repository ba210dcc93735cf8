import UltraOS.FileSystem.FAT32.Directory.Slots

/-!
# The records of a directory

The slots of a directory hold records: a slot that the iteration skips, a short entry, or the pieces
of a long name with their short entry behind them. `next_native` returns the entry of the next record
that is not skipped, whatever cluster its slots lie in.
-/

namespace UltraOS.FAT32

open List DirectoryEntry LongNameDirectoryEntry List

def isSkipped (slot : List UInt8) : Bool :=
  isDeleted slot || !isEndOfDirectory slot && (isDevice slot || !isLongName slot && isVolumeLabel slot)

def isUsed (slot : List UInt8) : Bool := !isDeleted slot && !isEndOfDirectory slot && !isDevice slot

def isShort (slot : List UInt8) : Bool := isUsed slot && !isLongName slot && !isVolumeLabel slot

def isPiece (slot : List UInt8) : Bool := isUsed slot && isLongName slot

/-- A long name on the disk: its pieces, numbered down to one, and the 8.3 entry behind them. -/
structure LongName where
  pieces : List (List UInt8)
  slot : List UInt8
  ne_nil : pieces ≠ []
  length_le : pieces.length ≤ maxSequenceNumber
  isPiece : ∀ piece ∈ pieces, isPiece piece = true
  isLastLogical : isLastLogical (pieces.headD []) = true
  numbered : ∀ k < pieces.length, extractSequenceNumber (pieces.getD k []) = pieces.length - k
  spelled_le : (pieces.flatMap pieceCharacters).length ≤ maxNameLength
  isShort : isShort slot = true

inductive Record where
  | skipped (slot : List UInt8) (h : isSkipped slot = true)
  | short (slot : List UInt8) (h : isShort slot = true)
  | long (name : LongName)

namespace Record

def slots : Record → List (List UInt8)
  | skipped slot _ => [slot]
  | short slot _ => [slot]
  | long name => name.pieces ++ [name.slot]

def isSkipped : Record → Bool
  | skipped .. => true
  | _ => false

def shortSlot : Record → List UInt8
  | skipped slot _ => slot
  | short slot _ => slot
  | long name => name.slot

end Record

def slotCount (records : List Record) : Nat := (records.flatMap Record.slots).length

lemma slotCount_cons (record : Record) (rs : List Record) :
    slotCount (record :: rs) = record.slots.length + slotCount rs := by
  rw [slotCount, flatMap_cons, length_append, slotCount]

lemma slotCount_append (xs ys : List Record) : slotCount (xs ++ ys) = slotCount xs + slotCount ys := by
  rw [slotCount, flatMap_append, length_append, slotCount, slotCount]

lemma Record.slots_length_pos (record : Record) : 0 < record.slots.length := by
  cases record with
  | skipped | short => exact Nat.one_pos
  | long name => simp [Record.slots]

lemma length_le_slotCount (rs : List Record) : rs.length ≤ slotCount rs := by
  induction rs with
  | nil => exact le_refl 0
  | cons record rs ih =>
    have hpos := record.slots_length_pos
    rw [slotCount_cons, length_cons]
    omega

section

variable {fs : FAT32} {cs : List Nat} {i : Nat} {slot : List UInt8} {ts : List (List UInt8)}

def allSlots (fs : FAT32) (clusters : List Nat) : List (List UInt8) :=
  (range (clusters.length * fs.slotsPerCluster)).map (slotAt fs clusters)

def Stands (fs : FAT32) (clusters : List Nat) (index : Nat) (rest : List (List UInt8)) : Prop :=
  ∃ front, allSlots fs clusters = front ++ rest ∧ front.length = index

lemma Stands.append (slots : List (List UInt8)) (h : Stands fs cs i (slots ++ ts)) :
    Stands fs cs (i + slots.length) ts := by
  obtain ⟨xs, hall, hlen⟩ := h
  refine ⟨xs ++ slots, ?_, ?_⟩
  · rw [hall, append_assoc]
  · rw [length_append, hlen]

variable (hlaid : Laid fs cs) (h : Stands fs cs i (slot :: ts))

include h in
lemma Stands.next : Stands fs cs (i + 1) ts := Stands.append [slot] h

lemma Stands.add_length (h : Stands fs cs i ts) : i + ts.length = cs.length * fs.slotsPerCluster := by
  obtain ⟨xs, hall, rfl⟩ := h
  rw [← length_append, ← hall, allSlots, length_map, length_range]

include h in
lemma Stands.lt : i < cs.length * fs.slotsPerCluster := by
  have hlen := h.add_length
  rw [length_cons] at hlen
  omega

include h in
lemma Stands.slotAt_eq : slotAt fs cs i = slot := by
  have hlt := h.lt
  obtain ⟨xs, hall, rfl⟩ := h
  have hget : (allSlots fs cs)[xs.length]? = some slot := by
    rw [hall, getElem?_append_right le_rfl, Nat.sub_self]
    rfl
  rw [allSlots, getElem?_map, getElem?_range hlt] at hget
  exact Option.some.inj hget

include hlaid h in
lemma Stands.fetchNext : fs.fetchNext (inFront fs cs i) = .ok (some slot, inFront fs cs (i + 1)) := by
  rw [hlaid.fetchNext_eq h.lt, h.slotAt_eq]

lemma Stands.fetchNext_nil (hlaid : Laid fs cs) (h : Stands fs cs i []) :
    fs.fetchNext (inFront fs cs i) = .ok (none, pastEnd fs (inFront fs cs i)) := by
  have hi : i = cs.length * fs.slotsPerCluster := h.add_length
  rw [hi]
  exact hlaid.fetchNext_end

include hlaid h in
lemma Stands.fetchInside : fs.fetchInside (inFront fs cs i) = .ok (slot, inFront fs cs (i + 1)) := by
  rw [FAT32.fetchInside, h.fetchNext hlaid, ok_bind]
  rfl

end

section

variable {fs : FAT32} {cs : List Nat} {first last cur : Nat}

/-- The `k`-th cluster behind the one of the first slot, when the slots reach it. -/
def clusterBeyond (fs : FAT32) (clusters : List Nat) (first last k : Nat) : Nat :=
  if first / fs.slotsPerCluster + k ≤ last / fs.slotsPerCluster then
    clusters.getD (first / fs.slotsPerCluster + k) 0
  else freeCluster

def storesOf : (pieces : List (List UInt8)) → (curNameBufferPtr : Nat) → List (UInt8 × Nat)
  | [], _ => []
  | piece :: pieces, curNameBufferPtr =>
    (pieceCharacters piece).zipIdx curNameBufferPtr ++ storesOf pieces (curNameBufferPtr - charactersPerEntry)

/-- The state of the loop when the clusters of the slots `first` to `last` are recorded. -/
def loopState (fs : FAT32) (clusters : List Nat) (first last : Nat) (dir : Directory)
    (entry : List UInt8) (curNameBufferPtr : Nat) (stores : List (UInt8 × Nat)) : LongNameState where
  dir := dir
  entry := entry
  previousCluster := clusterOf fs clusters last
  curNameBufferPtr := curNameBufferPtr
  stores := stores
  fileEntryCluster2 := clusterBeyond fs clusters first last 1
  fileEntryCluster3 := clusterBeyond fs clusters first last 2

variable (h : Laid fs cs) (hsize : 16 ≤ fs.slotsPerCluster)

lemma Laid.getD_inj (h : Laid fs cs) {i j : Nat} (hi : i < cs.length)
    (hj : j < cs.length) (heq : cs.getD i 0 = cs.getD j 0) : i = j := by
  rw [getD_eq_getElem _ _ hi, getD_eq_getElem _ _ hj] at heq
  exact (h.chain.nodup.getElem_inj_iff).mp heq

lemma Laid.getD_ne_free (h : Laid fs cs) {i : Nat} (hi : i < cs.length) : cs.getD i 0 ≠ freeCluster := by
  have hlink : entryTypeOfFatValue (cs.getD i 0) = .link := by
    apply h.chain.link
    rw [getD_eq_getElem _ _ hi]
    exact getElem_mem hi
  have hge := ((entryType_eq_link_iff _).mp hlink).1
  unfold freeCluster
  omega

include h hsize in
lemma Laid.div_le (hcur : cur < first + maxSequenceNumber) :
    cur / fs.slotsPerCluster ≤ first / fs.slotsPerCluster + 2 := by
  rw [← Nat.add_mul_div_right _ _ h.slots_pos]
  apply Nat.div_le_div_right
  unfold maxSequenceNumber at hcur
  omega

lemma Laid.recordCluster_eq (h : Laid fs cs) (hfirst : first ≤ last) (hcur : cur = last ∨ cur = last + 1)
    (hlt : cur < cs.length * fs.slotsPerCluster) (hreach : cur / fs.slotsPerCluster ≤ first / fs.slotsPerCluster + 2)
    (e : List UInt8) (ptr : Nat) (stores : List (UInt8 × Nat)) :
    recordCluster (loopState fs cs first last (behind fs cs cur) e ptr stores) =
    .ok (loopState fs cs first cur (behind fs cs cur) e ptr stores) := by
  have hcurLength : cur / fs.slotsPerCluster < cs.length := (Nat.div_lt_iff_lt_mul h.slots_pos).mpr hlt
  have hle : first / fs.slotsPerCluster ≤ last / fs.slotsPerCluster := Nat.div_le_div_right hfirst
  have hmono : last / fs.slotsPerCluster ≤ cur / fs.slotsPerCluster := Nat.div_le_div_right (by omega)
  have hstep : cur / fs.slotsPerCluster ≤ last / fs.slotsPerCluster + 1 := by
    rw [← Nat.add_div_right _ h.slots_pos]
    apply Nat.div_le_div_right
    have hpos := h.slots_pos
    omega
  show (if clusterOf fs cs cur = clusterOf fs cs last then _ else _) = _
  by_cases hsame : cur / fs.slotsPerCluster = last / fs.slotsPerCluster
  · have heq : clusterOf fs cs cur = clusterOf fs cs last := by rw [clusterOf, clusterOf, hsame]
    rw [if_pos heq]
    simp only [loopState, clusterBeyond, heq, hsame]
  · have hnext : cur / fs.slotsPerCluster = last / fs.slotsPerCluster + 1 := by omega
    have hne : clusterOf fs cs cur ≠ clusterOf fs cs last := by
      intro heq
      exact hsame (h.getD_inj hcurLength (by omega) heq)
    rw [if_neg hne]
    show (if clusterBeyond fs cs first last 1 = freeCluster then _ else
      if clusterBeyond fs cs first last 2 = freeCluster then _ else _) = _
    by_cases hsec : last / fs.slotsPerCluster = first / fs.slotsPerCluster
    · have hfree : clusterBeyond fs cs first last 1 = freeCluster := if_neg (by omega)
      have htwo : clusterBeyond fs cs first cur 1 = clusterOf fs cs cur := by
        rw [clusterBeyond, if_pos (by omega), clusterOf, hnext, hsec]
      have hthree : clusterBeyond fs cs first cur 2 = clusterBeyond fs cs first last 2 := by
        rw [clusterBeyond, clusterBeyond, if_neg (by omega), if_neg (by omega)]
      rw [if_pos hfree]
      simp only [loopState, htwo, hthree]
      rfl
    · have hused : clusterBeyond fs cs first last 1 ≠ freeCluster := by
        rw [clusterBeyond, if_pos (by omega)]
        exact h.getD_ne_free (by omega)
      have hfree : clusterBeyond fs cs first last 2 = freeCluster := if_neg (by omega)
      have htwo : clusterBeyond fs cs first cur 1 = clusterBeyond fs cs first last 1 := by
        rw [clusterBeyond, clusterBeyond, if_pos (by omega), if_pos (by omega)]
      have hthree : clusterBeyond fs cs first cur 2 = clusterOf fs cs cur := by
        rw [clusterBeyond, if_pos (by omega), clusterOf,
          show first / fs.slotsPerCluster + 2 = cur / fs.slotsPerCluster by omega]
      rw [if_neg hused, if_pos hfree]
      simp only [loopState, htwo, hthree]
      rfl

include h hsize in
lemma Laid.longNameLoop_eq {ps : List (List UInt8)} {p slot : List UInt8} {ts : List (List UInt8)}
    (hstd : Stands fs cs cur (p :: ps ++ slot :: ts)) (hfirst : first ≤ last)
    (hcur : cur = last ∨ cur = last + 1) (hlen : cur + ps.length < first + maxSequenceNumber)
    (ptr : Nat) (stores : List (UInt8 × Nat)) : fs.longNameLoop (ps.length + 1)
        (loopState fs cs first last (behind fs cs cur) p ptr stores) = .ok (loopState fs cs first (cur + ps.length)
        (behind fs cs (cur + ps.length + 1)) slot (ptr - ps.length * charactersPerEntry)
        (stores ++ storesOf (p :: ps) ptr)) := by
  induction ps generalizing cur last p ptr stores with
  | nil =>
    have hnext : Stands fs cs (cur + 1) (slot :: ts) := hstd.next
    have hreach := h.div_le hsize hlen
    have hfetch : fs.fetchInside (behind fs cs cur) = .ok (slot, behind fs cs (cur + 1)) := hnext.fetchInside h
    rw [longNameLoop, h.recordCluster_eq hfirst hcur hstd.lt hreach, ok_bind]
    dsimp only [loopState]
    rw [hfetch, ok_bind]
    rw [length_nil, if_pos rfl, storesOf, storesOf, append_nil, zero_mul]
    rfl
  | cons next ps ih =>
    have hnext : Stands fs cs (cur + 1) (next :: ps ++ slot :: ts) := hstd.next
    have hreach := h.div_le hsize (lt_of_le_of_lt (Nat.le_add_right cur _) hlen)
    have hfetch : fs.fetchInside (behind fs cs cur) = .ok (next, behind fs cs (cur + 1)) := hnext.fetchInside h
    have hrest := ih hnext (by omega : first ≤ cur) (Or.inr rfl)
      (by simp only [length_cons] at hlen; omega)
      (ptr - charactersPerEntry)
      (stores ++ (pieceCharacters p).zipIdx ptr)
    rw [longNameLoop, h.recordCluster_eq hfirst hcur hstd.lt hreach, ok_bind]
    dsimp only [loopState]
    rw [hfetch, ok_bind]
    rw [length_cons, if_neg (Nat.succ_ne_zero _)]
    refine hrest.trans ?_
    rw [append_assoc, ← storesOf, Nat.sub_sub, Nat.succ_mul, add_comm charactersPerEntry, add_assoc cur 1, add_comm 1]
    rfl

def LongName.entry (fs : FAT32) (clusters : List Nat) (index : Nat) (name : LongName) : NativeEntry :=
  let last := index + (name.pieces.length - 1)
  let stores := storesOf name.pieces (maxNameLength - 8)
  let ptr := maxNameLength - 8 - (name.pieces.length - 1) * charactersPerEntry
  processNormalEntry (behind fs clusters (last + 1)) name.slot
    { fileEntryCluster1 := (behind fs clusters index).mCurrentCluster
      entryOffsetWithinCluster := (behind fs clusters index).mOffsetWithinCluster - directoryEntrySize
      sequenceCount := name.pieces.length
      fileEntryCluster2 := clusterBeyond fs clusters index last 1
      fileEntryCluster3 := clusterBeyond fs clusters index last 2
      name := cString ((range stores.length).map fun i => imageOf stores (ptr + i))
      attributes := attributesOf (imageOf stores) } true

def LongName.offsets (name : LongName) : List Nat :=
  let stores := storesOf name.pieces (maxNameLength - 8)
  stores.map Prod.snd ++ range (stores.length + 1)

lemma loopState_self (fs : FAT32) (cs : List Nat) (i : Nat) (e : List UInt8) (ptr : Nat) :
    loopState fs cs i i (behind fs cs i) e ptr [] =
      { dir := behind fs cs i
        entry := e
        previousCluster := (behind fs cs i).mCurrentCluster
        curNameBufferPtr := ptr } := by
  have htwo : clusterBeyond fs cs i i 1 = freeCluster := if_neg (by omega)
  have hthree : clusterBeyond fs cs i i 2 = freeCluster := if_neg (by omega)
  rw [loopState, htwo, hthree]
  rfl

lemma length_storesOf (ps : List (List UInt8)) (ptr : Nat) :
    (storesOf ps ptr).length = (ps.flatMap pieceCharacters).length := by
  induction ps generalizing ptr with
  | nil => rfl
  | cons p ps ih => rw [storesOf, length_append, length_zipIdx, ih, flatMap_cons, length_append]

include h hsize in
lemma Laid.nextLongName_eq (name : LongName) {i : Nat} {ts : List (List UInt8)} {out : NativeEntry}
    (hstd : Stands fs cs i (name.pieces ++ name.slot :: ts))
    (hout : out =
      { fileEntryCluster1 := (behind fs cs i).mCurrentCluster
        entryOffsetWithinCluster :=
          (behind fs cs i).mOffsetWithinCluster - directoryEntrySize }) :
    fs.nextLongName (behind fs cs i) (name.pieces.headD []) out =
      .ok (name.entry fs cs i, inFront fs cs (i + (name.pieces.length + 1)), name.offsets) := by
  obtain ⟨p, ps, hps⟩ := exists_cons_of_ne_nil name.ne_nil
  have hnum := name.numbered 0 (length_pos_of_ne_nil name.ne_nil)
  have hlast := name.isLastLogical
  have hlen := name.length_le
  have hspelled : (storesOf name.pieces (maxNameLength - 8)).length ≤ maxNameLength := by
    rw [length_storesOf]
    exact name.spelled_le
  have hfront : Stands fs cs i (p :: ps ++ name.slot :: ts) := by rwa [← hps]
  rw [hps, getD_cons_zero, Nat.sub_zero, length_cons] at hnum
  rw [hps, headD_cons] at hlast ⊢
  rw [hps, length_cons] at hlen
  have hloop := h.longNameLoop_eq hsize hfront le_rfl (Or.inl rfl) (by omega)
    (maxNameLength - 8) []
  rw [nextLongName, hnum, assert_bind hlen, hlast, assert_true, ok_bind, ← loopState_self, hloop, ok_bind]
  dsimp only [loopState]
  rw [nil_append, ← hps, assert_bind hspelled, hout, LongName.entry, LongName.offsets, hps]
  rfl

end

section

/-- The position of a record, which `next_native` notes first. -/
def located (fs : FAT32) (clusters : List Nat) (index : Nat) : NativeEntry where
  fileEntryCluster1 := (behind fs clusters index).mCurrentCluster
  entryOffsetWithinCluster := (behind fs clusters index).mOffsetWithinCluster - directoryEntrySize

def Record.entry (fs : FAT32) (clusters : List Nat) (index : Nat) : Record → NativeEntry
  | .skipped .. => {}
  | .short slot _ => processNormalEntry (behind fs clusters index) slot (located fs clusters index) false
  | .long name => name.entry fs clusters index

def Record.offsets : Record → List Nat
  | .skipped .. => []
  | .short slot _ => range (normalName slot).length
  | .long name => name.offsets

/-- A skipped volume label leaves its position in the entry. -/
def Blank (out : NativeEntry) : Prop :=
  ∃ cluster offset, out = { fileEntryCluster1 := cluster, entryOffsetWithinCluster := offset }

def Ended : (tail : List (List UInt8)) → Prop
  | [] => True
  | slot :: _ => isEndOfDirectory slot = true

variable {fs : FAT32} {cs : List Nat} {i : Nat} {slot : List UInt8} {ts tail : List (List UInt8)} {out : NativeEntry}

lemma Blank.located_eq (h : Blank out) (dir : Directory) :
    { out with
      fileEntryCluster1 := dir.mCurrentCluster
      entryOffsetWithinCluster := dir.mOffsetWithinCluster - directoryEntrySize
      sequenceCount := 0 } =
    ({ fileEntryCluster1 := dir.mCurrentCluster
       entryOffsetWithinCluster := dir.mOffsetWithinCluster - directoryEntrySize } :
      NativeEntry) := by
  obtain ⟨c, o, rfl⟩ := h
  rfl

variable (h : Laid fs cs) (hsize : 16 ≤ fs.slotsPerCluster)

lemma Laid.nextNativeLoop_skipped (h : Laid fs cs) (n : Nat) (hstd : Stands fs cs i (slot :: ts))
    (hskipped : isSkipped slot = true) (hout : Blank out) : ∃ out', Blank out' ∧
    fs.nextNativeLoop (n + 1) (inFront fs cs i) out = fs.nextNativeLoop n (inFront fs cs (i + 1)) out' := by
  rw [nextNativeLoop, hstd.fetchNext h, ok_bind]
  dsimp only
  by_cases hdeleted : isDeleted slot = true
  · exact ⟨out, hout, by rw [if_pos hdeleted]⟩
  · by_cases hdevice : isDevice slot = true
    · have hend : ¬ isEndOfDirectory slot = true := by simp_all [isSkipped]
      exact ⟨out, hout, by rw [if_neg hdeleted, if_neg hend, if_pos hdevice]⟩
    · have hend : ¬ isEndOfDirectory slot = true := by simp_all [isSkipped]
      have hlong : ¬ isLongName slot = true := by simp_all [isSkipped]
      have hlabel : isVolumeLabel slot = true := by simp_all [isSkipped]
      refine ⟨located fs cs i, ⟨_, _, rfl⟩, ?_⟩
      rw [if_neg hdeleted, if_neg hend, if_neg hdevice, if_neg hlong, if_pos hlabel, hout.located_eq]
      rfl

lemma Laid.nextNativeLoop_short (h : Laid fs cs) (n : Nat)
    (hstd : Stands fs cs i (slot :: ts)) (hshort : isShort slot = true) (hout : Blank out) :
    fs.nextNativeLoop (n + 1) (inFront fs cs i) out =
      .ok (processNormalEntry (behind fs cs i) slot (located fs cs i) false,
        inFront fs cs (i + 1), range (normalName slot).length) := by
  simp only [isShort, isUsed, Bool.and_eq_true, Bool.not_eq_true'] at hshort
  obtain ⟨⟨⟨⟨hdeleted, hend⟩, hdevice⟩, hlong⟩, hlabel⟩ := hshort
  rw [nextNativeLoop, hstd.fetchNext h, ok_bind]
  dsimp only
  rw [hdeleted, hend, hdevice, hlong, hlabel, if_neg (by simp), if_neg (by simp),
    if_neg (by simp), if_neg (by simp), if_neg (by simp),
    hout.located_eq]
  rfl

include h hsize in
lemma Laid.nextNativeLoop_long (n : Nat) (name : LongName) (hstd : Stands fs cs i (name.pieces ++ name.slot :: ts))
    (hout : Blank out) : fs.nextNativeLoop (n + 1) (inFront fs cs i) out =
    .ok (name.entry fs cs i, inFront fs cs (i + (name.pieces.length + 1)), name.offsets) := by
  obtain ⟨p, ps, hps⟩ := exists_cons_of_ne_nil name.ne_nil
  have hpiece : isPiece p = true := by
    apply name.isPiece
    rw [hps]
    exact mem_cons_self
  have hfront : Stands fs cs i (p :: (ps ++ name.slot :: ts)) := by rwa [← cons_append, ← hps]
  have hname := h.nextLongName_eq hsize name hstd (hout.located_eq (behind fs cs i))
  rw [hps, headD_cons] at hname
  simp only [isPiece, isUsed, Bool.and_eq_true, Bool.not_eq_true'] at hpiece
  obtain ⟨⟨⟨hdeleted, hend⟩, hdevice⟩, hlong⟩ := hpiece
  rw [nextNativeLoop, hfront.fetchNext h, ok_bind]
  dsimp only
  rw [hdeleted, hend, hdevice, hlong, if_neg (by simp), if_neg (by simp), if_neg (by simp), if_pos rfl, hps]
  exact hname

lemma Laid.nextNativeLoop_ended (h : Laid fs cs) (n : Nat) (out : NativeEntry)
    (hstd : Stands fs cs i tail) (hended : Ended tail) : ∃ dir,
    fs.nextNativeLoop (n + 1) (inFront fs cs i) out = .ok (out, dir, []) ∧ dir.mExhausted = true := by
  cases tail with
  | nil =>
    refine ⟨pastEnd fs (inFront fs cs i), ?_, rfl⟩
    rw [nextNativeLoop, hstd.fetchNext_nil h, ok_bind]
    rfl
  | cons slot tail =>
    have hend : isEndOfDirectory slot = true := hended
    have hdeleted : ¬ isDeleted slot = true := by
      have hbyte : slot.getD 0 0 = 0 := eq_of_beq hend
      rw [isDeleted, hbyte]
      decide
    refine ⟨{ inFront fs cs (i + 1) with mExhausted := true }, ?_, rfl⟩
    rw [nextNativeLoop, hstd.fetchNext h, ok_bind]
    dsimp only
    rw [if_neg hdeleted, if_pos hend]
    rfl

variable {records rs skips ys : List Record} {record : Record}

include h hsize in
lemma Laid.nextNativeLoop_record (n : Nat) (hstd : Stands fs cs i (record.slots ++ ts))
    (hr : record.isSkipped = false) (hout : Blank out) : fs.nextNativeLoop (n + 1) (inFront fs cs i) out =
    .ok (record.entry fs cs i, inFront fs cs (i + record.slots.length), record.offsets) := by
  cases record with
  | skipped slot hslot => cases hr
  | short slot hslot => exact h.nextNativeLoop_short n hstd hslot hout
  | long name =>
    have hfront : Stands fs cs i (name.pieces ++ name.slot :: ts) := by rwa [← singleton_append, ← append_assoc]
    have hloop := h.nextNativeLoop_long hsize n name hfront hout
    rw [hloop, Record.slots, length_append]
    rfl

lemma Laid.nextNativeLoop_skips (h : Laid fs cs) (hstd : Stands fs cs i (skips.flatMap Record.slots ++ ts))
    (hskips : ∀ skip ∈ skips, skip.isSkipped = true) {n : Nat} (hm : skips.length ≤ n)
    (hout : Blank out) : ∃ out', Blank out' ∧ fs.nextNativeLoop n (inFront fs cs i) out =
    fs.nextNativeLoop (n - skips.length) (inFront fs cs (i + slotCount skips)) out' := by
  induction skips generalizing i n out with
  | nil => exact ⟨out, hout, rfl⟩
  | cons skip skips ih =>
    cases n with
    | zero => simp at hm
    | succ n =>
      cases skip with
      | short | long => exact absurd (hskips _ mem_cons_self) Bool.false_ne_true
      | skipped slot hslot =>
        obtain ⟨blank, hblank, hstep⟩ := h.nextNativeLoop_skipped n hstd hslot hout
        obtain ⟨blank', hblank', hrest⟩ := ih hstd.next (fun skip hmem => hskips skip (mem_cons_of_mem _ hmem))
          (Nat.le_of_succ_le_succ hm) hblank
        refine ⟨blank', hblank', ?_⟩
        rw [hstep, hrest, length_cons, Nat.add_sub_add_right, slotCount_cons, add_assoc]
        rfl

end

section

structure Holds (fs : FAT32) (clusters : List Nat) (records : List Record) (tail : List (List UInt8)) : Prop where
  laid : Laid fs clusters
  size : 16 ≤ fs.slotsPerCluster
  slots : allSlots fs clusters = records.flatMap Record.slots ++ tail
  ended : Ended tail

variable {fs : FAT32} {cs : List Nat} {records rs xs skips ys : List Record}
  {record : Record} {tail : List (List UInt8)}

lemma Holds.stands (h : Holds fs cs (xs ++ ys) tail) :
    Stands fs cs (slotCount xs) (ys.flatMap Record.slots ++ tail) := by
  refine ⟨xs.flatMap Record.slots, ?_, rfl⟩
  rw [h.slots, flatMap_append, append_assoc]

variable (h : Holds fs cs (xs ++ (skips ++ record :: ys)) tail)
  (hskips : ∀ skip ∈ skips, skip.isSkipped = true) (hr : record.isSkipped = false)

include h in
lemma Holds.past : Holds fs cs ((xs ++ (skips ++ [record])) ++ ys) tail := by
  have hregroup : xs ++ (skips ++ record :: ys) = (xs ++ (skips ++ [record])) ++ ys := by simp
  rwa [← hregroup]

lemma slotCount_past (xs skips : List Record) (record : Record) :
    slotCount (xs ++ (skips ++ [record])) = slotCount xs + slotCount skips + record.slots.length := by
  rw [slotCount_append, slotCount_append, slotCount_cons, add_assoc]
  rfl

lemma Holds.slotCount_le (h : Holds fs cs rs tail) : slotCount rs ≤ cs.length * fs.slotsPerCluster := by
  have hlen := congrArg length h.slots
  rw [allSlots, length_map, length_range, length_append] at hlen
  unfold slotCount
  omega

lemma Laid.lt_directoryFuel (h : Laid fs cs) : cs.length * fs.slotsPerCluster < fs.directoryFuel := by
  have hlen := h.chain.length_lt
  have hper : fs.slotsPerCluster ≤ fs.mBytesPerCluster := by
    rw [h.bytes]
    exact Nat.le_mul_of_pos_right _ (by decide)
  calc cs.length * fs.slotsPerCluster < chainFuel * fs.slotsPerCluster :=
        Nat.mul_lt_mul_of_pos_right hlen h.slots_pos
    _ ≤ chainFuel * fs.mBytesPerCluster := Nat.mul_le_mul_left _ hper

lemma inFront_mExhausted (fs : FAT32) (cs : List Nat) (i : Nat) : (inFront fs cs i).mExhausted = false := by
  cases i <;> rfl

include h hskips hr in
lemma Holds.nextNativeStores_record : fs.nextNativeStores (inFront fs cs (slotCount xs)) =
      .ok (record.entry fs cs (slotCount xs + slotCount skips),
        inFront fs cs (slotCount xs + slotCount skips + record.slots.length), record.offsets) := by
  have hm := h.laid.lt_directoryFuel
  have hn := h.slotCount_le
  have hlen := length_le_slotCount (xs ++ (skips ++ record :: ys))
  simp only [length_append, length_cons] at hlen
  have hstd : Stands fs cs (slotCount xs)
      (skips.flatMap Record.slots ++ (record.slots ++ (ys.flatMap Record.slots ++ tail))) := by
    have hstd := h.stands
    rwa [flatMap_append, flatMap_cons, append_assoc, append_assoc] at hstd
  obtain ⟨out, hout, hloop⟩ := h.laid.nextNativeLoop_skips hstd hskips
    (by omega : skips.length ≤ fs.directoryFuel) ⟨0, 0, rfl⟩
  obtain ⟨n, hm⟩ : ∃ n, fs.directoryFuel - skips.length = n + 1 := Nat.exists_eq_succ_of_ne_zero (by omega)
  rw [nextNativeStores, inFront_mExhausted, if_neg (by simp), hloop, hm]
  exact h.laid.nextNativeLoop_record h.size n (hstd.append _) hr hout

lemma Holds.nextNativeStores_ended (h : Holds fs cs (xs ++ skips) tail)
    (hskips : ∀ skip ∈ skips, skip.isSkipped = true) : ∃ out dir,
    fs.nextNativeStores (inFront fs cs (slotCount xs)) = .ok (out, dir, []) ∧ Blank out ∧ dir.mExhausted = true := by
  have hm := h.laid.lt_directoryFuel
  have hn := h.slotCount_le
  have hlen := length_le_slotCount (xs ++ skips)
  rw [length_append] at hlen
  obtain ⟨out, hout, hloop⟩ := h.laid.nextNativeLoop_skips h.stands hskips
    (by omega : skips.length ≤ fs.directoryFuel) ⟨0, 0, rfl⟩
  obtain ⟨n, hm⟩ : ∃ n, fs.directoryFuel - skips.length = n + 1 := Nat.exists_eq_succ_of_ne_zero (by omega)
  obtain ⟨dir, hended, hexhausted⟩ := h.laid.nextNativeLoop_ended n out (h.stands.append _) h.ended
  refine ⟨out, dir, ?_, hout, hexhausted⟩
  rwa [nextNativeStores, inFront_mExhausted, if_neg (by simp), hloop, hm]

include h hskips hr in
lemma Holds.nextNative_record : fs.nextNative (inFront fs cs (slotCount xs)) =
      .ok (record.entry fs cs (slotCount xs + slotCount skips),
        inFront fs cs (slotCount xs + slotCount skips + record.slots.length)) := by
  rw [nextNative, h.nextNativeStores_record hskips hr]
  rfl

lemma Holds.nextNative_ended (h : Holds fs cs (xs ++ skips) tail) (hskips : ∀ skip ∈ skips, skip.isSkipped = true) :
    ∃ out dir, fs.nextNative (inFront fs cs (slotCount xs)) = .ok (out, dir) ∧ Blank out ∧ dir.mExhausted = true := by
  obtain ⟨out, dir, hnext, hout, hexhausted⟩ := h.nextNativeStores_ended hskips
  refine ⟨out, dir, ?_, hout, hexhausted⟩
  rw [nextNative, hnext]
  rfl

end

/-- The loop of a caller over a directory, up to the first entry without a name. -/
def listLoop (fs : FAT32) : (fuel : Nat) → Directory → Run (List NativeEntry)
  | 0, _ => .error .outOfFuel
  | fuel + 1, dir => do
    let (entry, dir) ← fs.nextNative dir
    if entry.isEmpty then return []
    else
      let entries ← listLoop fs fuel dir
      return entry :: entries

def listing (fs : FAT32) (firstCluster : Nat) : Run (List NativeEntry) :=
  fs.listLoop fs.directoryFuel (Directory.ofCluster firstCluster)

def entriesFrom (fs : FAT32) (clusters : List Nat) : (index : Nat) → List Record → List NativeEntry
  | _, [] => []
  | index, record :: records =>
    if record.isSkipped then entriesFrom fs clusters (index + record.slots.length) records
    else record.entry fs clusters index ::
      entriesFrom fs clusters (index + record.slots.length) records

def listed (entries : List NativeEntry) : List NativeEntry := entries.takeWhile fun entry => !entry.isEmpty

variable {fs : FAT32} {cs : List Nat} {records rs xs skips ys : List Record}
  {record : Record} {tail : List (List UInt8)} {i : Nat}

lemma entriesFrom_append (fs : FAT32) (cs : List Nat) (i : Nat) (xs ys : List Record) :
    entriesFrom fs cs i (xs ++ ys) = entriesFrom fs cs i xs ++ entriesFrom fs cs (i + slotCount xs) ys := by
  induction xs generalizing i with
  | nil => rfl
  | cons record xs ih =>
    rw [cons_append, entriesFrom, entriesFrom, ih, slotCount_cons, add_assoc]
    split
    · rfl
    · rfl

lemma entriesFrom_skips (hskips : ∀ skip ∈ skips, skip.isSkipped = true) : entriesFrom fs cs i skips = [] := by
  induction skips generalizing i with
  | nil => rfl
  | cons skip skips ih =>
    rw [entriesFrom, if_pos (hskips skip mem_cons_self)]
    exact ih fun skip hmem => hskips skip (mem_cons_of_mem _ hmem)

lemma listed_cons_of_isEmpty {e : NativeEntry} (h : e.isEmpty = true)
    (es : List NativeEntry) : listed (e :: es) = [] := by
  rw [listed, takeWhile_cons_of_neg]
  rw [h]
  exact Bool.false_ne_true

lemma listed_cons {e : NativeEntry} (h : e.isEmpty = false) (es : List NativeEntry)
    : listed (e :: es) = e :: listed es := by
  rw [listed, takeWhile_cons_of_pos]
  · rfl
  · rw [h]
    rfl

lemma exists_skips (rs : List Record) : ∃ skips ys, rs = skips ++ ys ∧
    (∀ skip ∈ skips, skip.isSkipped = true) ∧ ∀ record ts, ys = record :: ts → record.isSkipped = false := by
  induction rs with
  | nil => exact ⟨[], [], rfl, fun _ h => absurd h not_mem_nil, fun _ _ h => nomatch h⟩
  | cons record rs ih =>
    cases hskipped : record.isSkipped with
    | false =>
      refine ⟨[], record :: rs, rfl, fun _ h => absurd h not_mem_nil, ?_⟩
      intro first ts heq
      obtain ⟨rfl, _⟩ := cons.inj heq
      exact hskipped
    | true =>
      obtain ⟨skips, ys, rfl, hskips, hback⟩ := ih
      refine ⟨record :: skips, ys, rfl, ?_, hback⟩
      intro skip hmem
      cases hmem with
      | head => exact hskipped
      | tail _ hmem => exact hskips skip hmem

lemma Holds.listLoop_eq (h : Holds fs cs (xs ++ rs) tail) {n : Nat} (hm : rs.length < n) :
    fs.listLoop n (inFront fs cs (slotCount xs)) = .ok (listed (entriesFrom fs cs (slotCount xs) rs)) := by
  induction n generalizing xs rs with
  | zero => exact absurd hm (not_lt_zero)
  | succ n ih =>
    obtain ⟨skips, ys, hsplit, hskips, hback⟩ := exists_skips rs
    subst hsplit
    rw [entriesFrom_append, entriesFrom_skips hskips, nil_append]
    cases ys with
    | nil =>
      rw [append_nil] at h
      obtain ⟨out, dir, hnext, hout, _⟩ := h.nextNative_ended hskips
      obtain ⟨c, o, rfl⟩ := hout
      rw [listLoop, hnext]
      rfl
    | cons record ys =>
      have hr := hback record ys rfl
      rw [listLoop, h.nextNative_record hskips hr, ok_bind, entriesFrom, hr, if_neg (by simp)]
      dsimp only
      cases hempty : (record.entry fs cs (slotCount xs + slotCount skips)).isEmpty with
      | true =>
        rw [if_pos rfl, listed_cons_of_isEmpty hempty]
        rfl
      | false =>
        have hrest := ih h.past (by
          simp only [length_append, length_cons] at hm
          omega)
        rw [slotCount_past] at hrest
        rw [if_neg (by simp), hrest, ok_bind, listed_cons hempty]
        rfl

lemma Laid.ofCluster_eq (h : Laid fs cs) : Directory.ofCluster (cs.getD 0 0) = inFront fs cs 0 := by
  have hpos : 0 < cs.length := by
    apply length_pos_of_ne_nil
    intro hnil
    have hch := h.chain
    rwa [hnil] at hch
  rw [Directory.ofCluster, beq_false_of_ne (h.getD_ne_free hpos)]
  rfl

lemma Holds.listing_eq (h : Holds fs cs rs tail) :
    fs.listing (cs.getD 0 0) = .ok (listed (entriesFrom fs cs 0 rs)) := by
  have hlen := length_le_slotCount rs
  have hn := h.slotCount_le
  have hm := h.laid.lt_directoryFuel
  have hall : Holds fs cs ([] ++ rs) tail := h
  rw [listing, h.laid.ofCluster_eq]
  exact hall.listLoop_eq (by omega)

end UltraOS.FAT32
