import UltraOS.FileSystem.FAT32.Directory.Create
import UltraOS.FileSystem.FAT32.Directory.Listing

/-!
# Decoding long names

`next_native` decodes the pieces of a long name backwards from a fixed offset of the name field. The
first piece is meant to hold eight characters, and one with more than nine reaches the attributes
behind the field.
-/

namespace UltraOS.FAT32

open List LongNameDirectoryEntry DirectoryEntry List

variable {pieces ps : List (List UInt8)} {o : Nat}

section

def nameFieldSize : Nat := maxNameLength + 1

lemma length_processUcs2_le : (ucs2 : List UInt8) → 2 * (processUcs2 ucs2).length ≤ ucs2.length
  | [] => le_refl 0
  | [_] => Nat.zero_le 1
  | low :: high :: ts => by
    have hrest := length_processUcs2_le ts
    rw [processUcs2]
    split
    · exact zero_le
    · simp only [length_cons]
      omega

lemma length_pieceCharacters_le (e : List UInt8) : (pieceCharacters e).length ≤ charactersPerEntry := by
  have h1 := length_processUcs2_le (name1 e)
  have h2 := length_processUcs2_le (name2 e)
  have h3 := length_processUcs2_le (name3 e)
  have hname1 : (name1 e).length ≤ 10 := length_take_le _ _
  have hname2 : (name2 e).length ≤ 12 := length_take_le _ _
  have hname3 : (name3 e).length ≤ 4 := length_take_le _ _
  have hper : charactersPerEntry = 13 := rfl
  rw [pieceCharacters, hper]
  dsimp only
  split
  · split
    · simp only [length_append]
      omega
    · simp only [length_append]
      omega
  · omega

lemma map_snd_zipIdx (chars : List UInt8) (ptr : Nat) : (chars.zipIdx ptr).map Prod.snd = range' ptr chars.length := by
  rw [zipIdx_eq_zip_range', map_snd_zip]
  exact length_range'.le

lemma storesOf_offset_lt {ptr : Nat} (h : o ∈ (storesOf ps ptr).map Prod.snd) : o < ptr + charactersPerEntry := by
  induction ps generalizing ptr with
  | nil => exact absurd h not_mem_nil
  | cons piece ps ih =>
    rw [storesOf, map_append, mem_append, map_snd_zipIdx] at h
    cases h with
    | inl h =>
      have hlen := length_pieceCharacters_le piece
      have hr := mem_range'_1.mp h
      omega
    | inr h =>
      have hrest := ih h
      omega

/-- Stores to memory that is not blank. -/
def imageFrom (image : Nat → UInt8) (stores : List (UInt8 × Nat)) : Nat → UInt8 :=
  stores.foldl (fun image store offset => if offset = store.2 then store.1 else image offset) image

variable (image : Nat → UInt8)

lemma imageFrom_append (stores more : List (UInt8 × Nat)) :
    imageFrom image (stores ++ more) = imageFrom (imageFrom image stores) more :=
  foldl_append

lemma imageFrom_cons (store : UInt8 × Nat) (stores : List (UInt8 × Nat)) : imageFrom image (store :: stores) =
      imageFrom (fun o => if o = store.2 then store.1 else image o) stores := rfl

lemma imageFrom_of_notMem {image : Nat → UInt8} {stores : List (UInt8 × Nat)}
    (h : o ∉ stores.map Prod.snd) : imageFrom image stores o = image o := by
  induction stores generalizing image with
  | nil => rfl
  | cons store stores ih =>
    rw [map_cons, mem_cons, not_or] at h
    rw [imageFrom_cons, ih h.2, if_neg h.1]

lemma imageFrom_zipIdx (chars : List UInt8) (ptr : Nat) :
    (range chars.length).map (fun i => imageFrom image (chars.zipIdx ptr) (ptr + i)) = chars := by
  induction chars generalizing image ptr with
  | nil => rfl
  | cons character chars ih =>
    have hfirst : ptr ∉ (chars.zipIdx (ptr + 1)).map Prod.snd := by
      rw [map_snd_zipIdx, mem_range'_1]
      omega
    have hrest := ih (fun o => if o = ptr then character else image o) (ptr + 1)
    rw [length_cons, range_succ_eq_map, map_cons, map_map, zipIdx_cons, imageFrom_cons]
    congr 1
    · exact (imageFrom_of_notMem hfirst).trans (if_pos rfl)
    · refine Eq.trans (map_congr_left ?_) hrest
      intro i _
      show imageFrom _ _ (ptr + (i + 1)) = _
      rw [add_right_comm, add_assoc]

end

def spelled (pieces : List (List UInt8)) : List UInt8 := pieces.reverse.flatMap pieceCharacters

lemma spelled_cons (piece : List UInt8) (ps : List (List UInt8)) :
    spelled (piece :: ps) = spelled ps ++ pieceCharacters piece := by
  rw [spelled, reverse_cons, flatMap_append, flatMap_singleton, spelled]

lemma length_flatMap_pieceCharacters (ps : List (List UInt8)) :
    (ps.flatMap pieceCharacters).length = (spelled ps).length := by
  induction ps with
  | nil => rfl
  | cons piece ps ih => rw [flatMap_cons, length_append, spelled_cons, length_append, ih, add_comm]

def Full (pieces : List (List UInt8)) : Prop :=
  ∀ piece ∈ pieces.tail, (pieceCharacters piece).length = charactersPerEntry

lemma length_spelled_of_full (h : ∀ piece ∈ ps, (pieceCharacters piece).length = charactersPerEntry) :
    (spelled ps).length = ps.length * charactersPerEntry := by
  induction ps with
  | nil => rfl
  | cons piece ps ih =>
    rw [spelled_cons, length_append, ih fun p hmem => h p (mem_cons_of_mem _ hmem),
      h piece mem_cons_self, length_cons, Nat.succ_mul]

lemma imageFrom_storesOf (image : Nat → UInt8) (piece : List UInt8) (h : Full (piece :: ps)) (ptr : Nat)
    (hptr : ps.length * charactersPerEntry ≤ ptr) : (range (spelled (piece :: ps)).length).map
        (fun i => imageFrom image (storesOf (piece :: ps) ptr) (ptr - ps.length * charactersPerEntry + i)) =
      spelled (piece :: ps) := by
  induction ps generalizing image piece ptr with
  | nil =>
    rw [storesOf, storesOf, append_nil, spelled_cons, length_nil, zero_mul, Nat.sub_zero]
    exact imageFrom_zipIdx image (pieceCharacters piece) ptr
  | cons next ps ih =>
    have hlen : (spelled (next :: ps)).length = (ps.length + 1) * charactersPerEntry := length_spelled_of_full h
    rw [length_cons] at hptr
    have hfront := ih (imageFrom image ((pieceCharacters piece).zipIdx ptr)) next
      (fun p hmem => h p (mem_cons_of_mem _ hmem))
      (ptr - charactersPerEntry) (by
        rw [Nat.succ_mul] at hptr
        omega)
    have hstart : ptr - charactersPerEntry - ps.length * charactersPerEntry =
        ptr - (ps.length + 1) * charactersPerEntry := by
      rw [Nat.sub_sub, Nat.succ_mul, add_comm]
    rw [hstart] at hfront
    rw [spelled_cons, length_append, range_add, map_append, storesOf, imageFrom_append, length_cons, hfront, map_map]
    congr 1
    refine Eq.trans (map_congr_left ?_) (imageFrom_zipIdx image (pieceCharacters piece) ptr)
    intro i _
    -- the offsets of the first piece are behind those of all the other pieces
    have ho : ptr - (ps.length + 1) * charactersPerEntry + ((spelled (next :: ps)).length + i) = ptr + i := by
      rw [hlen]
      omega
    show imageFrom _ _ (_ + ((spelled (next :: ps)).length + i)) = _
    rw [ho]
    apply imageFrom_of_notMem
    intro hmem
    have hlt := storesOf_offset_lt hmem
    rw [Nat.succ_mul] at hptr
    omega

lemma LongName.entry_name (fs : FAT32) (cs : List Nat) (i : Nat) (name : LongName)
    (hfull : Full name.pieces) : (name.entry fs cs i).name = cString (spelled name.pieces) := by
  obtain ⟨piece, ps, hps⟩ := exists_cons_of_ne_nil name.ne_nil
  have hlen := name.length_le
  rw [hps] at hfull hlen
  have hptr : ps.length * charactersPerEntry ≤ maxNameLength - 8 := by
    have hper : charactersPerEntry = 13 := rfl
    unfold maxSequenceNumber at hlen
    unfold maxNameLength
    rw [length_cons] at hlen
    rw [hper]
    omega
  have himage := imageFrom_storesOf (fun _ => 0) piece hfull (maxNameLength - 8) hptr
  have hn : (storesOf name.pieces (maxNameLength - 8)).length = (spelled name.pieces).length := by
    rw [length_storesOf, length_flatMap_pieceCharacters]
  show cString ((range (storesOf name.pieces (maxNameLength - 8)).length).map _) = _
  rw [hn, hps, length_cons, Nat.add_sub_cancel]
  exact congrArg cString himage

section

/-- The result of the `n`-th call of `next_native` from a position on. -/
def callFrom (fs : FAT32) : (n : Nat) → Directory → Run (NativeEntry × Directory × List Nat)
  | 0, dir => fs.nextNativeStores dir
  | n + 1, dir => do
    let (_, dir, _) ← fs.nextNativeStores dir
    callFrom fs n dir

def used (records : List Record) : List Record := records.filter fun record => !record.isSkipped

variable {fs : FAT32} {cs : List Nat} {rs xs skips ys : List Record} {r : Record} {tail : List (List UInt8)}

lemma used_append_skips (hskips : ∀ skip ∈ skips, skip.isSkipped = true) (ys : List Record) :
    used (skips ++ ys) = used ys := by
  have hnone : used skips = [] := by
    apply filter_eq_nil_iff.mpr
    intro skip hmem
    rw [hskips skip hmem]
    exact Bool.false_ne_true
  rw [used, filter_append]
  exact (congrArg (· ++ used ys) hnone).trans (nil_append _)

lemma used_cons (hr : r.isSkipped = false) (ys : List Record) : used (r :: ys) = r :: used ys := by
  rw [used, filter_cons, hr]
  rfl

lemma callFrom_exhausted {dir : Directory} (h : dir.mExhausted = true) (n : Nat) :
    fs.callFrom n dir = .ok ({}, dir, []) := by
  have hnext : fs.nextNativeStores dir = .ok ({}, dir, []) := if_pos h
  induction n with
  | zero => exact hnext
  | succ n ih =>
    rw [callFrom, hnext, ok_bind]
    exact ih

lemma Holds.callFrom_eq (h : Holds fs cs (xs ++ rs) tail) (n : Nat) : ∃ e dir offsets,
    fs.callFrom n (inFront fs cs (slotCount xs)) = .ok (e, dir, offsets) ∧ ((∃ r i, (used rs)[n]? = some r ∧
    e = r.entry fs cs i ∧ offsets = r.offsets) ∨ (used rs)[n]? = none ∧ Blank e ∧ offsets = []) := by
  induction n generalizing xs rs with
  | zero =>
    obtain ⟨skips, ys, rfl, hskips, hback⟩ := exists_skips rs
    rw [used_append_skips hskips]
    cases ys with
    | nil =>
      rw [append_nil] at h
      obtain ⟨out, dir, hnext, hout, _⟩ := h.nextNativeStores_ended hskips
      exact ⟨out, dir, [], hnext, Or.inr ⟨rfl, hout, rfl⟩⟩
    | cons r ys =>
      have hr := hback r ys rfl
      rw [used_cons hr]
      exact ⟨_, _, _, h.nextNativeStores_record hskips hr, Or.inl ⟨r, _, rfl, rfl, rfl⟩⟩
  | succ n ih =>
    obtain ⟨skips, ys, rfl, hskips, hback⟩ := exists_skips rs
    rw [used_append_skips hskips]
    cases ys with
    | nil =>
      rw [append_nil] at h
      obtain ⟨out, dir, hnext, _, hexhausted⟩ := h.nextNativeStores_ended hskips
      refine ⟨{}, dir, [], ?_, Or.inr ⟨rfl, ⟨0, 0, rfl⟩, rfl⟩⟩
      rw [callFrom, hnext, ok_bind]
      exact callFrom_exhausted hexhausted n
    | cons r ys =>
      have hr := hback r ys rfl
      have hrest := ih h.past
      rw [slotCount_past] at hrest
      rwa [callFrom, h.nextNativeStores_record hskips hr, ok_bind, used_cons hr, getElem?_cons_succ]

end

/-- Each call of `next_native` stores only into the name field of the entry, and the entry is a
directory exactly if its 8.3 entry is one. -/
def Decodes (fs : FAT32) (firstCluster : Nat) (records : List Record) : Prop :=
  ∀ n, ∃ entry dir offsets, fs.callFrom n (Directory.ofCluster firstCluster) = .ok (entry, dir, offsets) ∧
    (∀ offset ∈ offsets, offset < nameFieldSize) ∧
    entry.isDirectory = (used records)[n]?.any fun record => isDirectory record.shortSlot

def firstPieceRoom : Nat := nameFieldSize - (maxNameLength - 8)

/-- The first piece on the disk leaves the attributes alone. -/
def Record.Fits : Record → Prop
  | .long name => (pieceCharacters (name.pieces.headD [])).length ≤ firstPieceRoom
  | _ => True

instance (record : Record) : Decidable record.Fits := by cases record <;> dsimp only [Record.Fits] <;> infer_instance

lemma length_unpadded_le (field : List UInt8) : (unpadded field).length ≤ field.length :=
  (takeWhile_sublist _).length_le

lemma length_lowered (lowercase : Bool) (field : List UInt8) : (lowered lowercase field).length = field.length := by
  cases lowercase with
  | false => rfl
  | true => exact length_map _

lemma length_normalName_lt (slot : List UInt8) : (normalName slot).length < nameFieldSize := by
  have hname : (unpadded (loweredFilename slot)).length ≤ 8 := by
    apply le_trans (length_unpadded_le _)
    rw [loweredFilename, length_lowered]
    exact length_take_le _ _
  have hext : (unpadded (loweredExtension slot)).length ≤ 3 := by
    apply le_trans (length_unpadded_le _)
    rw [loweredExtension, length_lowered]
    exact length_take_le _ _
  rw [normalName, length_append]
  unfold nameFieldSize maxNameLength
  split
  · simp only [length_nil]
    omega
  · simp only [length_cons]
    omega

lemma LongName.offset_lt (name : LongName) (hfits : (pieceCharacters (name.pieces.headD [])).length ≤ firstPieceRoom)
    (h : o ∈ name.offsets) : o < nameFieldSize := by
  obtain ⟨piece, ps, hps⟩ := exists_cons_of_ne_nil name.ne_nil
  have hspelled := name.spelled_le
  rw [← length_storesOf name.pieces (maxNameLength - 8)] at hspelled
  rw [hps, headD_cons] at hfits
  rw [LongName.offsets, mem_append, mem_range] at h
  unfold firstPieceRoom nameFieldSize maxNameLength at *
  rcases h with h | h
  · rw [hps, storesOf, map_append, mem_append, map_snd_zipIdx] at h
    rcases h with h | h
    · have hr := mem_range'_1.mp h
      omega
    · have hlt := storesOf_offset_lt h
      have hper : charactersPerEntry = 13 := rfl
      omega
  · omega

lemma LongName.exists_offset_ge (name : LongName)
    (hlong : firstPieceRoom < (pieceCharacters (name.pieces.headD [])).length) : nameFieldSize ∈ name.offsets := by
  obtain ⟨piece, ps, hps⟩ := exists_cons_of_ne_nil name.ne_nil
  rw [hps, headD_cons] at hlong
  rw [LongName.offsets, hps, storesOf, map_append, map_snd_zipIdx, mem_append, mem_append]
  refine Or.inl (Or.inl (mem_range'_1.mpr ?_))
  unfold firstPieceRoom nameFieldSize maxNameLength at *
  omega

lemma LongName.attributesOf_eq (name : LongName)
    (hfits : (pieceCharacters (name.pieces.headD [])).length ≤ firstPieceRoom) :
    attributesOf (imageOf (storesOf name.pieces (maxNameLength - 8))) = 0 := by
  have hblank : ∀ o, nameFieldSize ≤ o → imageOf (storesOf name.pieces (maxNameLength - 8)) o = 0 := by
    intro o ho
    rw [show imageOf _ = imageFrom _ _ from rfl]
    apply imageFrom_of_notMem
    intro hmem
    have hlt := name.offset_lt hfits (mem_append_left _ hmem)
    omega
  rw [attributesOf, hblank 256 (by decide), hblank 257 (by decide), hblank 258 (by decide), hblank 259 (by decide)]
  rfl

lemma isDirectory_processNormalEntry (dir : Directory) (slot : List UInt8) (out : NativeEntry) (isSmall : Bool)
    (hout : out.attributes = 0) : (processNormalEntry dir slot out isSmall).isDirectory = isDirectory slot := by
  have hattributes : (processNormalEntry dir slot out isSmall).attributes =
      if isDirectory slot then isDirectoryAttribute else 0 := by
    rw [← hout]
    rfl
  rw [NativeEntry.isDirectory, hattributes]
  cases isDirectory slot <;> rfl

variable {fs : FAT32} {cs : List Nat} {rs : List Record} {tail : List (List UInt8)}

lemma Record.entry_isDirectory {r : Record} (hfits : r.Fits) (i : Nat) (hused : r.isSkipped = false) :
    (r.entry fs cs i).isDirectory = isDirectory r.shortSlot := by
  cases r with
  | skipped slot h => cases hused
  | short slot h => exact isDirectory_processNormalEntry _ slot _ false rfl
  | long name => exact isDirectory_processNormalEntry _ name.slot _ true (name.attributesOf_eq hfits)

lemma Record.offset_lt {r : Record} (hfits : r.Fits) (h : o ∈ r.offsets) : o < nameFieldSize := by
  cases r with
  | skipped slot hslot => exact absurd h not_mem_nil
  | short slot hslot => exact lt_trans (mem_range.mp h) (length_normalName_lt slot)
  | long name => exact name.offset_lt hfits h

/-- Decoding is safe and keeps the kind of every entry exactly if the first piece on the disk of each
long name has at most nine characters. -/
theorem decodes_iff (h : Holds fs cs rs tail) : Decodes fs (cs.getD 0 0) rs ↔ ∀ r ∈ rs, r.Fits := by
  have hstart := h.laid.ofCluster_eq
  have hall : Holds fs cs ([] ++ rs) tail := h
  constructor
  · intro hdecodes r hmem
    cases r with
    | skipped slot hslot | short slot hslot => trivial
    | long name =>
      by_contra hlong
      have hused : Record.long name ∈ used rs := mem_filter.mpr ⟨hmem, rfl⟩
      obtain ⟨n, hn, hget⟩ := getElem_of_mem hused
      obtain ⟨e, dir, offsets, hcall, hoffsets, -⟩ := hdecodes n
      obtain ⟨entry', dir', offsets', hcall', hr⟩ := hall.callFrom_eq n
      rw [hstart] at hcall
      obtain ⟨rfl, rfl, rfl⟩ : e = entry' ∧ dir = dir' ∧ offsets = offsets' := by
        have heq := hcall.symm.trans hcall'
        simpa using heq
      rw [getElem?_eq_getElem hn, hget] at hr
      rcases hr with ⟨r, i, heq, -, hsame⟩ | ⟨hnone, -⟩
      · cases heq
        have hmem := name.exists_offset_ge (not_le.mp hlong)
        have hlt := hoffsets nameFieldSize (hsame ▸ hmem)
        exact absurd hlt (lt_irrefl _)
      · cases hnone
  · intro hfits n
    obtain ⟨e, dir, offsets, hcall, hr⟩ := hall.callFrom_eq n
    refine ⟨e, dir, offsets, ?_, ?_⟩
    · rwa [hstart]
    · rcases hr with ⟨r, i, hget, rfl, rfl⟩ | ⟨hnone, ⟨c, o, rfl⟩, rfl⟩
      · have hmem := mem_of_getElem? hget
        obtain ⟨hr, hskipped⟩ := mem_filter.mp hmem
        have hrecordFits := hfits r hr
        refine ⟨fun o ho => Record.offset_lt hrecordFits ho, ?_⟩
        rw [hget, Record.entry_isDirectory hrecordFits i (by simpa using hskipped)]
        rfl
      · refine ⟨fun o ho => absurd ho not_mem_nil, ?_⟩
        rw [hnone]
        rfl

def slotVolume (slots : List (List UInt8)) : FAT32 where
  mFatCache := fun i => if i = 2 then 0x0FFFFFFF else 0
  mDataCache := fun block i =>
    if block = 0 then (slots.getD (i / directoryEntrySize) []).getD (i % directoryEntrySize) 0 else 0
  mLastFreeCluster := 3
  mFreeClusters := 5
  mClusterCount := 8
  mBytesPerCluster := 512
  mEndOfChain := 0x0FFFFFFF

lemma laid_slotVolume (slots : List (List UInt8)) : Laid (slotVolume slots) [2] where
  chain := ⟨show entryTypeOfFatValue 2 = .link by decide, show entryTypeOfFatValue 0x0FFFFFFF = .endOfChain by decide⟩
  bytes := show 512 = 512 / 32 * 32 by decide
  slots_pos := show 0 < 512 / 32 by decide

def sampleSlot : List UInt8 := normalEntry [0x4D, 0x49, 0x58, 0x45, 0x44] [] false false false 0 ⟨2021, 1, 1, 0, 0, 0⟩

def twoPieceName : LongName where
  pieces := longEntries [0x4D, 0x69, 0x78, 0x65, 0x64, 0x43, 0x61, 0x73, 0x65, 0x73, 0x2E, 0x74, 0x78, 0x74] 0
  slot := sampleSlot
  ne_nil := by decide
  length_le := by decide
  isPiece := by decide
  isLastLogical := by decide
  numbered := by decide
  spelled_le := by decide
  isShort := by decide

def onePieceName : LongName where
  pieces := longEntries [0x4D, 0x69, 0x78, 0x65, 0x64, 0x43, 0x61, 0x73, 0x65, 0x73] 0
  slot := sampleSlot
  ne_nil := by decide
  length_le := by decide
  isPiece := by decide
  isLastLogical := by decide
  numbered := by decide
  spelled_le := by decide
  isShort := by decide

lemma holds_twoPieceName : Holds (slotVolume (twoPieceName.pieces ++ [sampleSlot])) [2] [.long twoPieceName]
      (replicate 13 (replicate 32 0)) where
  laid := laid_slotVolume _
  size := show 16 ≤ 512 / 32 by decide
  slots := by decide +kernel
  ended := by rfl

lemma holds_onePieceName : Holds (slotVolume (onePieceName.pieces ++ [sampleSlot])) [2] [.long onePieceName]
      (replicate 14 (replicate 32 0)) where
  laid := laid_slotVolume _
  size := show 16 ≤ 512 / 32 by decide
  slots := by decide +kernel
  ended := by rfl

theorem decodes_iff_twoPieceName : Decodes (slotVolume (twoPieceName.pieces ++ [sampleSlot])) 2 [.long twoPieceName] :=
  (decodes_iff holds_twoPieceName).mpr (by decide)

/-- The tenth character of a name in one piece is stored to the attributes, and a file with such a
name can come out as a directory. -/
theorem not_decodes_onePieceName : Holds (slotVolume (onePieceName.pieces ++ [sampleSlot])) [2] [.long onePieceName]
        (replicate 14 (replicate 32 0)) ∧ (do
        let (e, _, offsets) ← (slotVolume (onePieceName.pieces ++ [sampleSlot])).callFrom 0 (Directory.ofCluster 2)
        return (e.isDirectory, offsets.contains nameFieldSize)) = (.ok (true, true) : Run (Bool × Bool)) ∧
      isDirectory sampleSlot = false ∧
      ¬ Decodes (slotVolume (onePieceName.pieces ++ [sampleSlot])) 2 [.long onePieceName] := by
  refine ⟨holds_onePieceName, by rfl, by decide, ?_⟩
  intro hdecodes
  obtain ⟨e, dir, offsets, hcall, hoffsets, -⟩ := hdecodes 0
  have hst : (do
      let (_, _, offsets) ← (slotVolume (onePieceName.pieces ++ [sampleSlot])).callFrom 0 (Directory.ofCluster 2)
      return offsets.contains nameFieldSize) = (.ok true : Run Bool) := by rfl
  rw [hcall, ok_bind] at hst
  have hmem : nameFieldSize ∈ offsets := contains_iff_mem.mp (Except.ok.inj hst)
  exact absurd (hoffsets _ hmem) (lt_irrefl _)

end UltraOS.FAT32
