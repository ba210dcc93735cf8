import UltraOS.FileSystem.FAT32.Directory.LongNames

/-!
# What is written for a name

The long entries of a name spell it again, and the 8.3 entry of a short name holds it padded and in
upper case. Names consist of plain characters: printable ASCII, and the delete character.
-/

namespace UltraOS.FAT32

open List LongNameDirectoryEntry DirectoryEntry

def Plain (c : UInt8) : Prop := 0x20 ≤ c ∧ c < 0x80

variable {c : UInt8}

section

variable {chars : List UInt8}

lemma Plain.toNat (h : Plain c) : 0x20 ≤ c.toNat ∧ c.toNat < 0x80 :=
  ⟨UInt8.le_iff_toNat_le.mp h.1, UInt8.lt_iff_toNat_lt.mp h.2⟩

lemma Plain.ucs2Of (h : Plain c) : ucs2Of c = [c, 0] := by
  have hlt := h.toNat.2
  have hge : ¬ 0x80 ≤ c := by
    rw [UInt8.le_iff_toNat_le]
    simpa using hlt
  rw [FAT32.ucs2Of, if_neg hge]

lemma Plain.processUcs2_cons (h : Plain c) (ts : List UInt8) : processUcs2 (c :: 0 :: ts) = c :: processUcs2 ts := by
  have hr := h.toNat
  have hzero : (0 : UInt8).toNat = 0 := rfl
  rw [processUcs2, hzero, mul_zero, add_zero, if_neg (by omega), if_neg (by omega)]

lemma processUcs2_flatMap (h : ∀ c ∈ chars, Plain c) (ts : List UInt8) :
    processUcs2 (chars.flatMap ucs2Of ++ ts) = chars ++ processUcs2 ts := by
  induction chars with
  | nil => rfl
  | cons c chars ih =>
    have hc := h c mem_cons_self
    rw [flatMap_cons, hc.ucs2Of, append_assoc]
    show processUcs2 (c :: 0 :: (chars.flatMap ucs2Of ++ ts)) = _
    rw [hc.processUcs2_cons, ih fun d hd => h d (mem_cons_of_mem _ hd)]
    rfl

/-- Two fields are read like one, since the second one is read only behind a full first one. -/
lemma processUcs2_append : (xs : List UInt8) → (hfront : xs.length % 2 = 0) → (ys : List UInt8) →
    processUcs2 (xs ++ ys) = processUcs2 xs ++ if 2 * (processUcs2 xs).length = xs.length then processUcs2 ys else []
  | [], _, _ => rfl
  | [_], h, _ => by simp at h
  | low :: high :: xs, h, ys => by
    have hrest := processUcs2_append xs (by simp only [length_cons] at h; omega) ys
    show processUcs2 (low :: high :: (xs ++ ys)) = _
    rw [processUcs2, processUcs2]
    by_cases hzero : low.toNat + 0x100 * high.toNat = 0
    · rw [if_pos hzero, if_pos hzero, if_neg]
      · rfl
      · simp
    · have hfull : 2 * ((processUcs2 xs).length + 1) = xs.length + 1 + 1 ↔
          2 * (processUcs2 xs).length = xs.length := by omega
      rw [if_neg hzero, if_neg hzero, hrest, cons_append]
      simp [hfull]

lemma length_ucs2Units (chars : List UInt8) : (ucs2Units chars).length = 2 * charactersPerEntry := by
  rw [ucs2Units, length_take, length_append, length_replicate]
  omega

lemma length_flatMap_ucs2Of (chars : List UInt8) : (chars.flatMap ucs2Of).length = 2 * chars.length := by
  induction chars with
  | nil => rfl
  | cons c chars ih =>
    rw [flatMap_cons, length_append, ih]
    show 2 + 2 * chars.length = 2 * (chars.length + 1)
    omega

lemma processUcs2_ucs2Units (h : ∀ c ∈ chars, Plain c) (hlen : chars.length ≤ charactersPerEntry) :
    processUcs2 (ucs2Units chars) = chars := by
  have hunits := length_flatMap_ucs2Of chars
  by_cases hfull : chars.length = charactersPerEntry
  · have htake : ucs2Units chars = chars.flatMap ucs2Of ++ [] := by
      rw [ucs2Units, append_assoc, take_append_of_le_length (by omega), take_of_length_le (by omega), append_nil]
    rw [htake, processUcs2_flatMap h]
    exact append_nil _
  · -- a terminator follows
    obtain ⟨ts, hrest⟩ : ∃ ts, ucs2Units chars = chars.flatMap ucs2Of ++ 0 :: 0 :: ts := by
      obtain ⟨left, hleft⟩ : ∃ left, 2 * charactersPerEntry - (chars.flatMap ucs2Of).length = left + 2 :=
        ⟨2 * charactersPerEntry - (chars.flatMap ucs2Of).length - 2, by omega⟩
      rw [ucs2Units, append_assoc, take_append, take_of_length_le (by omega), hleft]
      exact ⟨_, rfl⟩
    rw [hrest, processUcs2_flatMap h]
    exact append_nil _

lemma pieceCharacters_eq {e : List UInt8} (h : e.length = directoryEntrySize) :
    pieceCharacters e = processUcs2 (name1 e ++ (name2 e ++ name3 e)) := by
  unfold directoryEntrySize at h
  have hname1 : (name1 e).length = 10 := by
    rw [name1, length_take, length_drop]
    omega
  have hname2 : (name2 e).length = 12 := by
    rw [name2, length_take, length_drop]
    omega
  have hfull1 : 2 * (processUcs2 (name1 e)).length = 10 ↔ (processUcs2 (name1 e)).length = name1Characters := by
    unfold name1Characters
    omega
  have hfull2 : 2 * (processUcs2 (name2 e)).length = 12 ↔ (processUcs2 (name2 e)).length = name2Characters := by
    unfold name2Characters
    omega
  rw [processUcs2_append _ (by rw [hname1]), processUcs2_append _ (by rw [hname2]), hname1, hname2, pieceCharacters]
  simp only [hfull1, hfull2]
  split
  · split
    · rw [append_assoc]
    · rw [append_nil]
  · rw [append_nil]

end

section

variable {chars name : List UInt8} {sequenceNumber checksum : UInt8}

lemma length_longEntry (sequenceNumber checksum : UInt8) (chars : List UInt8) :
    (longEntry sequenceNumber checksum chars).length = directoryEntrySize := by
  have hunits : (ucs2Units chars).length = 26 := length_ucs2Units chars
  simp [longEntry, hunits, directoryEntrySize]

lemma names_longEntry (sequenceNumber checksum : UInt8) (chars : List UInt8) :
    name1 (longEntry sequenceNumber checksum chars) ++ (name2 (longEntry sequenceNumber checksum chars) ++
          name3 (longEntry sequenceNumber checksum chars)) = ucs2Units chars := by
  have hunits : (ucs2Units chars).length = 26 := length_ucs2Units chars
  have h1 : name1 (longEntry sequenceNumber checksum chars) = (ucs2Units chars).take 10 := by
    simp [name1, longEntry, hunits]
  have h2 : name2 (longEntry sequenceNumber checksum chars) = ((ucs2Units chars).drop 10).take 12 := by
    simp [name2, longEntry, hunits, drop_append, drop_eq_nil_of_le]
  have h3 : name3 (longEntry sequenceNumber checksum chars) = ((ucs2Units chars).drop 10).drop 12 := by
    have htake : ((ucs2Units chars).drop 22).take 4 = (ucs2Units chars).drop 22 :=
      take_of_length_le (le_of_eq (by rw [length_drop, hunits]))
    simp [name3, longEntry, hunits, drop_append, drop_eq_nil_of_le, htake]
  rw [h1, h2, h3, take_append_drop, take_append_drop]

lemma pieceCharacters_longEntry (h : ∀ c ∈ chars, Plain c) (hlen : chars.length ≤ charactersPerEntry)
    (sequenceNumber checksum : UInt8) : pieceCharacters (longEntry sequenceNumber checksum chars) = chars := by
  rw [pieceCharacters_eq (length_longEntry _ _ _), names_longEntry, processUcs2_ucs2Units h hlen]

lemma attributes_longEntry (sequenceNumber checksum : UInt8) (chars : List UInt8) :
    attributes (longEntry sequenceNumber checksum chars) = 0x0F := by
  have hunits : (ucs2Units chars).length = 26 := length_ucs2Units chars
  simp [attributes, longEntry, hunits]

lemma first_longEntry (sequenceNumber checksum : UInt8) (chars : List UInt8) :
    (longEntry sequenceNumber checksum chars).getD 0 0 = sequenceNumber := rfl

def sequenceByte (count number : Nat) : UInt8 :=
  if number = count then 0x40 ||| UInt8.ofNat number else UInt8.ofNat number

lemma sequenceByte_spec {n number : Nat} (hpos : 1 ≤ number) (hle : number ≤ maxSequenceNumber) :
    (sequenceByte n number &&& 0x1F).toNat = number ∧ isFreeMark (sequenceByte n number) = false := by
  have hall : ∀ number < 21, 1 ≤ number → ((0x40 ||| UInt8.ofNat number) &&& 0x1F).toNat = number ∧
        (UInt8.ofNat number &&& 0x1F).toNat = number ∧
        isFreeMark (0x40 ||| UInt8.ofNat number) = false ∧
        isFreeMark (UInt8.ofNat number) = false := by decide
  obtain ⟨hlast, hu, hlastMark, hotherMark⟩ := hall number (by unfold maxSequenceNumber at hle; omega) hpos
  unfold sequenceByte
  split
  · exact ⟨hlast, hlastMark⟩
  · exact ⟨hu, hotherMark⟩

lemma isPiece_longEntry (hmark : isFreeMark sequenceNumber = false) (checksum : UInt8)
    (chars : List UInt8) : isPiece (longEntry sequenceNumber checksum chars) = true := by
  have hattributes := attributes_longEntry sequenceNumber checksum chars
  simp only [isFreeMark, Bool.or_eq_false_iff] at hmark
  rw [isPiece, isUsed, isDeleted, isEndOfDirectory, first_longEntry, hmark.1, hmark.2, isDevice, isLongName,
    hasAttributes, hasAttributes, hattributes]
  decide

def namePiece (name : List UInt8) (i : Nat) : List UInt8 := (name.drop (i * charactersPerEntry)).take charactersPerEntry

def pieceCount (name : List UInt8) : Nat := ceilingDivide name.length charactersPerEntry

lemma namePieces_eq (name : List UInt8) : namePieces name = (List.range (pieceCount name)).map (namePiece name) := rfl

lemma length_longEntries (name : List UInt8) (checksum : UInt8) :
    (longEntries name checksum).length = pieceCount name := by
  simp [longEntries, namePieces_eq]

lemma longEntries_eq (name : List UInt8) (checksum : UInt8) :
    longEntries name checksum = ((List.range (pieceCount name)).map fun i =>
      longEntry (sequenceByte (pieceCount name) (i + 1)) checksum (namePiece name i)).reverse := by
  have hlen : (namePieces name).length = pieceCount name := by rw [namePieces_eq, length_map, length_range]
  rw [longEntries]
  congr 1
  apply ext_getElem
  · simp [hlen]
  · intro i h1 h2
    simp [namePieces_eq, sequenceByte]

lemma flatten_namePieces_take (name : List UInt8) (n : Nat) :
    ((List.range n).map (namePiece name)).flatten = name.take (n * charactersPerEntry) := by
  induction n with
  | zero => simp
  | succ n ih =>
    rw [range_succ, map_append, flatten_append, ih, map_singleton, flatten_singleton, namePiece, Nat.succ_mul, take_add]

lemma le_pieceCount_mul (name : List UInt8) : name.length ≤ pieceCount name * charactersPerEntry :=
  (ceilingDivide_le_iff (by decide)).mp le_rfl

lemma flatMap_namePiece (name : List UInt8) : (List.range (pieceCount name)).flatMap (namePiece name) = name := by
  rw [flatMap_def, flatten_namePieces_take, take_of_length_le (le_pieceCount_mul name)]

lemma length_namePiece_le (name : List UInt8) (i : Nat) : (namePiece name i).length ≤ charactersPerEntry :=
  length_take_le _ _

variable {i : Nat}

lemma length_namePiece (h : i + 1 < pieceCount name) : (namePiece name i).length = charactersPerEntry := by
  have hlt : (i + 1) * charactersPerEntry < name.length := (lt_ceilingDivide_iff (by decide)).mp h
  rw [Nat.succ_mul] at hlt
  rw [namePiece, length_take, length_drop]
  omega

lemma mem_of_mem_namePiece (h : c ∈ namePiece name i) : c ∈ name := mem_of_mem_drop (mem_of_mem_take h)

lemma pieceCount_pos (h : name ≠ []) : 0 < pieceCount name := by
  apply (lt_ceilingDivide_iff (by decide)).mpr
  rw [zero_mul]
  exact length_pos_of_ne_nil h

lemma pieceCount_le (h : name.length ≤ maxNameLength) : pieceCount name ≤ maxSequenceNumber :=
  (ceilingDivide_le_iff (by decide)).mpr (h.trans (by decide))

lemma getD_longEntries {j : Nat} (h : j < pieceCount name) (checksum : UInt8) :
    (longEntries name checksum).getD j [] = longEntry (sequenceByte (pieceCount name) (pieceCount name - j)) checksum
        (namePiece name (pieceCount name - 1 - j)) := by
  have hlen : j < (longEntries name checksum).length := by rwa [length_longEntries]
  have hnum : pieceCount name - 1 - j + 1 = pieceCount name - j := by omega
  rw [getD_eq_getElem _ _ hlen]
  simp [longEntries_eq, getElem_reverse, getElem_map, getElem_range, hnum]

lemma mem_longEntries {p : List UInt8} : p ∈ longEntries name checksum ↔ ∃ i < pieceCount name,
    longEntry (sequenceByte (pieceCount name) (i + 1)) checksum (namePiece name i) = p := by
  rw [longEntries_eq, mem_reverse, mem_map]
  simp only [mem_range]

lemma spelled_longEntries (h : ∀ c ∈ name, Plain c) (checksum : UInt8) :
    spelled (longEntries name checksum) = name := by
  have hps : ∀ i ∈ List.range (pieceCount name),
      pieceCharacters (longEntry (sequenceByte (pieceCount name) (i + 1)) checksum
        (namePiece name i)) = namePiece name i := by
    intro i _
    exact pieceCharacters_longEntry (fun c hc => h c (mem_of_mem_namePiece hc)) (length_namePiece_le name i) _ _
  rw [spelled, longEntries_eq, reverse_reverse, flatMap_map, flatMap_congr hps, flatMap_namePiece]

lemma full_longEntries (h : ∀ c ∈ name, Plain c) (checksum : UInt8) : Full (longEntries name checksum) := by
  intro p hmem
  obtain ⟨j, hj, rfl⟩ := getElem_of_mem hmem
  rw [length_tail, length_longEntries] at hj
  have hget := getD_longEntries (by omega : j + 1 < pieceCount name) checksum
  rw [getD_eq_getElem _ _ (by rw [length_longEntries]; omega)] at hget
  rw [getElem_tail, hget, pieceCharacters_longEntry
    (fun c hc => h c (mem_of_mem_namePiece hc)) (length_namePiece_le name _)]
  exact length_namePiece (by omega)

def writtenName (name : List UInt8) (checksum : UInt8) (slot : List UInt8) (hne : name ≠ [])
    (hlength : name.length ≤ maxNameLength) (hplain : ∀ c ∈ name, Plain c) (hslot : isShort slot = true)
    : LongName where
  pieces := longEntries name checksum
  slot := slot
  ne_nil := by
    apply ne_nil_of_length_pos
    rw [length_longEntries]
    exact pieceCount_pos hne
  length_le := by
    rw [length_longEntries]
    exact pieceCount_le hlength
  isPiece := by
    intro piece hmem
    obtain ⟨i, hi, rfl⟩ := mem_longEntries.mp hmem
    have hle := pieceCount_le hlength
    exact isPiece_longEntry (sequenceByte_spec (by omega) (by omega)).2 _ _
  isLastLogical := by
    have hpos := pieceCount_pos hne
    have hall : ∀ n < 21, ((0x40 ||| UInt8.ofNat n) &&& 0x40 != 0) = true := by decide
    have hle := pieceCount_le hlength
    have hhead : (longEntries name checksum).headD [] = (longEntries name checksum).getD 0 [] := by
      cases longEntries name checksum <;> rfl
    rw [hhead, getD_longEntries hpos, isLastLogical, first_longEntry, Nat.sub_zero, sequenceByte, if_pos rfl]
    exact hall (pieceCount name) (by unfold maxSequenceNumber at hle; omega)
  numbered := by
    intro j hj
    rw [length_longEntries] at hj ⊢
    have hle := pieceCount_le hlength
    rw [getD_longEntries hj, extractSequenceNumber, first_longEntry]
    exact (sequenceByte_spec (by omega) (by omega)).1
  spelled_le := by rwa [length_flatMap_pieceCharacters, spelled_longEntries hplain]
  isShort := hslot

end

variable {name ext : List UInt8} {lowercaseName lowercaseExtension isDirectory : Bool}
  {firstCluster : Nat} {time : HumanReadable}

lemma length_padded {length : Nat} {field : List UInt8} (h : field.length ≤ length) :
    (padded length field).length = length := by
  rw [padded, length_append, length_map, length_replicate]
  omega

lemma normalEntry_eq : normalEntry name ext lowercaseName lowercaseExtension isDirectory firstCluster time =
      padded shortNameLength name ++ (padded shortExtensionLength ext ++
        entryRest lowercaseName lowercaseExtension isDirectory firstCluster time) := by
  rw [normalEntry, append_assoc]

variable (hname : name.length ≤ shortNameLength) (hext : ext.length ≤ shortExtensionLength)

include hname

lemma filename_normalEntry :
    filename (normalEntry name ext lowercaseName lowercaseExtension isDirectory firstCluster time) =
    padded shortNameLength name := by
  rw [filename, normalEntry_eq, take_left' (length_padded hname)]

include hext

lemma length_normalEntry :
    (normalEntry name ext lowercaseName lowercaseExtension isDirectory firstCluster time).length =
    directoryEntrySize := by
  rw [normalEntry_eq, length_append, length_append, length_padded hname, length_padded hext]
  rfl

lemma extension_normalEntry :
    DirectoryEntry.extension (normalEntry name ext lowercaseName lowercaseExtension isDirectory
      firstCluster time) = padded shortExtensionLength ext := by
  rw [DirectoryEntry.extension, normalEntry_eq, drop_left' (length_padded hname), take_left' (length_padded hext)]

lemma getD_normalEntry (i : Nat) :
    (normalEntry name ext lowercaseName lowercaseExtension isDirectory firstCluster time).getD (11 + i) 0 =
    (entryRest lowercaseName lowercaseExtension isDirectory firstCluster time).getD i 0 := by
  have hlen : (padded shortNameLength name ++ padded shortExtensionLength ext).length = 11 := by
    rw [length_append, length_padded hname, length_padded hext]
    rfl
  rw [normalEntry_eq, ← append_assoc, getD_append_right _ _ _ _ (by omega), hlen, Nat.add_sub_cancel_left]

lemma attributes_normalEntry : attributes (normalEntry name ext lowercaseName lowercaseExtension isDirectory
      firstCluster time) = if isDirectory then 0x10 else 0 :=
  getD_normalEntry hname hext 0

lemma caseInfo_normalEntry : caseInfo (normalEntry name ext lowercaseName lowercaseExtension isDirectory
      firstCluster time) = (if lowercaseName then 0x08 else 0) ||| (if lowercaseExtension then 0x10 else 0) :=
  getD_normalEntry hname hext 1

end UltraOS.FAT32
