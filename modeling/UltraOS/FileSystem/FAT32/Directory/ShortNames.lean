import Mathlib.Data.List.TakeWhile
import UltraOS.FileSystem.FAT32.Directory.Encoding

/-!
# Short names

A name that is not VFAT is stored in an 8.3 entry, with a bit for the case of each part. The parts
are read up to the first space, so such a name comes back exactly if it has no space.
-/

namespace UltraOS.FAT32

open List DirectoryEntry

section

lemma forall_byte {P : UInt8 → Prop} (h : ∀ n < 256, P (UInt8.ofNat n)) (c : UInt8) : P c := by
  have hc := h c.toNat (UInt8.toNat_lt c)
  rwa [UInt8.ofNat_toNat] at hc

instance (c : UInt8) : Decidable (Plain c) := inferInstanceAs (Decidable (_ ∧ _))

/-- What the tests and the case mappings do to a byte, read off the 256 bytes. -/
lemma byte_cases : ∀ c : UInt8, (Plain c → Plain (toUpper c) ∧ isFreeMark c = false) ∧
    (isUpper c = false → toLower (toUpper c) = c) ∧ (isBanned c = false → Plain c) ∧ (toUpper c = 0x20 → c = 0x20) := by
  apply forall_byte
  decide +kernel

variable {c : UInt8}

lemma plain_toUpper (h : Plain c) : Plain (toUpper c) := ((byte_cases c).1 h).1

lemma Plain.ne_zero (h : Plain c) : c ≠ 0 := by
  rintro rfl
  exact absurd h (by decide)

lemma cString_eq_self {name : List UInt8} (h : ∀ c ∈ name, Plain c) : cString name = name := by
  apply takeWhile_eq_self_iff.mpr
  intro c hc
  exact decide_eq_true (h c hc).ne_zero

end

section

variable {field : List UInt8} {length : Nat}

lemma lowered_padded {lowercase : Bool} (h : ∀ c ∈ field, if lowercase then isUpper c = false else isLower c = false) :
    lowered lowercase (padded length field) = field ++ List.replicate (length - field.length) 0x20 := by
  cases lowercase with
  | true =>
    rw [lowered, if_pos rfl, padded, map_append, map_map, map_replicate]
    congr 1
    have hid : ∀ c ∈ field, (toLower ∘ toUpper) c = id c := fun c hc => (byte_cases c).2.1 (h c hc)
    rw [map_congr_left hid, map_id]
  | false =>
    rw [lowered, if_neg (by simp), padded]
    congr 1
    have hid : ∀ c ∈ field, toUpper c = id c := fun c hc => by rw [toUpper, h c hc]; rfl
    rw [map_congr_left hid, map_id]

lemma unpadded_append_spaces (field : List UInt8) (n : Nat) :
    unpadded (field ++ List.replicate n 0x20) = unpadded field := by
  induction field with
  | nil => cases n <;> rfl
  | cons c field ih =>
    unfold unpadded at ih ⊢
    rw [cons_append, takeWhile_cons, takeWhile_cons, ih]

lemma unpadded_eq_self (h : 0x20 ∉ field) : unpadded field = field := by
  apply takeWhile_eq_self_iff.mpr
  intro c hc
  apply decide_eq_true
  rintro rfl
  exact h hc

lemma space_notMem_unpadded (field : List UInt8) : 0x20 ∉ unpadded field := by
  intro hmem
  have hne := mem_takeWhile_imp hmem
  simp at hne

end

section

variable {c : UInt8} {string : List UInt8} {k : Nat}

lemma findLast_eq_none (h : c ∉ string) : findLast c string = none := by
  induction string with
  | nil => rfl
  | cons first ts ih =>
    rw [mem_cons, not_or] at h
    rw [findLast, ih h.2]
    exact if_neg fun heq => h.1 heq.symm

lemma findLast_append {ys : List UInt8} (xs : List UInt8) (h : c ∉ ys) :
    findLast c (xs ++ c :: ys) = some xs.length := by
  induction xs with
  | nil =>
    rw [nil_append, findLast, findLast_eq_none h]
    exact if_pos rfl
  | cons first xs ih =>
    rw [cons_append, findLast, ih]
    rfl

lemma exists_last (c : UInt8) (string : List UInt8) : c ∉ string ∨ ∃ xs ys, string = xs ++ c :: ys ∧ c ∉ ys := by
  induction string with
  | nil => exact Or.inl not_mem_nil
  | cons first ts ih =>
    rcases ih with hnone | ⟨xs, ys, rfl, hback⟩
    · by_cases hfirst : c = first
      · exact Or.inr ⟨[], ts, by rw [hfirst]; rfl, hnone⟩
      · exact Or.inl (by rw [mem_cons, not_or]; exact ⟨hfirst, hnone⟩)
    · exact Or.inr ⟨first :: xs, ys, rfl, hback⟩

/-- The two parts of a name: the part in front of its last dot, and the part behind it. -/
inductive Parts : (name base extension : List UInt8) → Prop
  | whole {base : List UInt8} (h : 0x2E ∉ base) (hne : base ≠ []) : Parts base base []
  | dotted {base extension : List UInt8} (h : 0x2E ∉ extension) (hne : extension ≠ []) :
      Parts (base ++ 0x2E :: extension) base extension

variable {name b ext : List UInt8}

lemma exists_parts (hne : name ≠ []) (hdot : name.getLast? ≠ some 0x2E) : ∃ b ext, Parts name b ext := by
  rcases exists_last 0x2E name with hnone | ⟨b, ext, rfl, hext⟩
  · exact ⟨name, [], .whole hnone hne⟩
  · refine ⟨b, ext, .dotted hext ?_⟩
    rintro rfl
    exact hdot (by simp)

variable (h : Parts name b ext)

include h

lemma Parts.nameLength : (lengthOfNameAndExtension name).1 = b.length := by
  cases h with
  | whole h hne => rw [lengthOfNameAndExtension, findLast_eq_none h]; rfl
  | dotted h hne => rw [lengthOfNameAndExtension, findLast_append _ h]; rfl

/-- The extension of a name that begins with its only dot is taken to be longer than it is. -/
lemma Parts.extensionLength : (lengthOfNameAndExtension name).2 = if b = [] then ext.length + 1 else ext.length := by
  cases h with
  | whole h hne =>
    have hlen := length_pos_of_ne_nil hne
    rw [lengthOfNameAndExtension, findLast_eq_none h]
    dsimp only [Option.getD_none]
    rw [if_neg (by omega), if_neg (lt_irrefl _), if_neg hne]
    rfl
  | dotted h hne =>
    rw [lengthOfNameAndExtension, findLast_append _ h]
    dsimp only [Option.getD_some]
    simp only [length_eq_zero_iff, length_append, length_cons]
    split
    · rename_i hb
      rw [hb]
      simp
    · rw [if_pos (by omega)]
      omega

lemma Parts.nameView_eq : nameView name = b := by
  rw [nameView, h.nameLength]
  cases h with
  | whole h hne => exact take_length
  | dotted h hne => exact take_left

lemma Parts.extensionView_eq : extensionView name = if b = [] then ext ++ [0] else ext := by
  rw [extensionView, h.nameLength, h.extensionLength]
  cases h with
  | whole h hne =>
    rw [if_neg hne, if_neg hne]
    rfl
  | dotted h hne =>
    have hdrop : ((b ++ 0x2E :: ext) ++ [0]).drop (b.length + 1) = ext ++ [0] := by
      rw [append_assoc, ← drop_drop, drop_left]
      rfl
    rw [hdrop]
    split
    · exact take_of_length_le (by simp)
    · exact take_left

end

section

def OneCase (part : List UInt8) : Prop := part.any isLower = false ∨ part.any isUpper = false

/-- The parts of a name that fits into an 8.3 entry with case bits. -/
structure ShortForm (base extension : List UInt8) : Prop where
  base_le : base.length ≤ shortNameLength
  extension_le : extension.length ≤ shortExtensionLength
  extension_lt : base = [] → extension.length < shortExtensionLength
  base_case : OneCase base
  extension_case : OneCase extension
  allowed : ∀ c ∈ base ++ extension, c ∉ bannedButAllowedInVfatCharacters

def HasShortForm (name : List UInt8) : Prop := ∃ base extension, Parts name base extension ∧ ShortForm base extension

variable {name b ext part : List UInt8}

lemma isEntirelyLower_or_isEntirelyUpper (part : List UInt8) :
    (isEntirelyLower part || isEntirelyUpper part) = true ↔ OneCase part := by
  rw [isEntirelyLower, isEntirelyUpper, OneCase]
  cases part.any isLower <;> cases part.any isUpper <;> decide

lemma oneCase_append_zero : OneCase (part ++ [0]) ↔ OneCase part := by
  have hlower : (part ++ [0]).any isLower = part.any isLower := by
    rw [any_append]
    exact Bool.or_false _
  have hupper : (part ++ [0]).any isUpper = part.any isUpper := by
    rw [any_append]
    exact Bool.or_false _
  rw [OneCase, OneCase, hlower, hupper]

variable (h : Parts name b ext)

include h in
lemma Parts.oneCase_extensionView : OneCase (extensionView name) ↔ OneCase ext := by
  rw [h.extensionView_eq]
  split
  · exact oneCase_append_zero
  · exact Iff.rfl

include h in
lemma Parts.any_extensionView : (extensionView name).any bannedButAllowedInVfatCharacters.contains =
    ext.any bannedButAllowedInVfatCharacters.contains := by
  rw [h.extensionView_eq]
  split
  · rw [any_append]
    exact Bool.or_false _
  · rfl

lemma any_eq_false_iff_allowed : part.any bannedButAllowedInVfatCharacters.contains = false ↔
    ∀ c ∈ part, c ∉ bannedButAllowedInVfatCharacters := by
  simp

include h in
lemma Parts.isVfat_eq_false_iff : isVfat name = false ↔ ShortForm b ext := by
  have hlower := isEntirelyLower_or_isEntirelyUpper (nameView name)
  have hupper := isEntirelyLower_or_isEntirelyUpper (extensionView name)
  rw [h.oneCase_extensionView] at hupper
  rw [h.nameView_eq] at hlower
  have hlengths : (b.length > shortNameLength ∨
      (if b = [] then ext.length + 1 else ext.length) > shortExtensionLength) ↔
      ¬ (b.length ≤ shortNameLength ∧ ext.length ≤ shortExtensionLength ∧
        (b = [] → ext.length < shortExtensionLength)) := by
    split
    · rename_i hb
      simp only [hb, forall_const]
      omega
    · rename_i hb
      simp only [hb, false_implies, and_true]
      omega
  rw [isVfat]
  dsimp only
  rw [h.nameLength, h.extensionLength, h.nameView_eq, any_append, h.any_extensionView]
  constructor
  · intro hvfat
    by_cases hlong : b.length > shortNameLength ∨ (if b = [] then ext.length + 1 else ext.length) > shortExtensionLength
    · rw [if_pos hlong] at hvfat
      cases hvfat
    · rw [if_neg hlong] at hvfat
      rw [hlengths, not_not] at hlong
      split at hvfat
      · cases hvfat
      · rename_i hcase
        simp only [Bool.not_eq_true', Bool.not_eq_false, Bool.and_eq_true] at hcase
        rw [Bool.or_eq_false_iff, any_eq_false_iff_allowed, any_eq_false_iff_allowed] at hvfat
        refine ⟨hlong.1, hlong.2.1, hlong.2.2, hlower.mp hcase.1, hupper.mp hcase.2, ?_⟩
        intro c hc
        exact (mem_append.mp hc).elim (hvfat.1 c) (hvfat.2 c)
  · intro hshort
    rw [if_neg (by rw [hlengths, not_not]; exact ⟨hshort.base_le, hshort.extension_le,
      hshort.extension_lt⟩), hlower.mpr hshort.base_case, hupper.mpr hshort.extension_case,
      if_neg (by decide), Bool.or_eq_false_iff, any_eq_false_iff_allowed,
      any_eq_false_iff_allowed]
    exact ⟨fun c hc => hshort.allowed c (mem_append_left _ hc), fun c hc => hshort.allowed c (mem_append_right _ hc)⟩

lemma isVfat_eq_false_iff (hne : name ≠ []) (hdot : name.getLast? ≠ some 0x2E) :
    isVfat name = false ↔ HasShortForm name := by
  obtain ⟨b, ext, hparts⟩ := exists_parts hne hdot
  constructor
  · intro hvfat
    exact ⟨b, ext, hparts, hparts.isVfat_eq_false_iff.mp hvfat⟩
  · rintro ⟨b, ext, hparts, hshort⟩
    exact hparts.isVfat_eq_false_iff.mpr hshort

end

section

variable {name b ext : List UInt8} {isDirectory : Bool} {firstCluster : Nat} {time : HumanReadable}

def shortEntry (name : List UInt8) (isDirectory : Bool) (firstCluster : Nat) (time : HumanReadable) : List UInt8 :=
  normalEntry (nameView name) (extensionView name) (isEntirelyLower (nameView name))
    (isEntirelyLower (extensionView name)) isDirectory firstCluster time

variable (h : Parts name b ext) (hname : name.length ≤ shortNameLength)
  (hshort : ShortForm b ext) (hext : ext.length ≤ shortExtensionLength)
  (hplain : ∀ c ∈ name, Plain c)

include hname hext hplain in
lemma isShort_normalEntry (lowercaseName lowercaseExtension isDirectory : Bool) (firstCluster : Nat)
    (time : HumanReadable) :
    isShort (normalEntry name ext lowercaseName lowercaseExtension isDirectory firstCluster time) = true := by
  have hfirst : isFreeMark ((normalEntry name ext lowercaseName lowercaseExtension isDirectory
      firstCluster time).getD 0 0) = false := by
    refine ((byte_cases _).1 ?_).2
    cases name with
    | nil => exact (by decide : Plain 0x20)
    | cons c name => exact plain_toUpper (hplain c mem_cons_self)
  simp only [isFreeMark, Bool.or_eq_false_iff] at hfirst
  rw [isShort, isUsed, isDeleted, isEndOfDirectory, hfirst.1, hfirst.2, isDevice, isLongName, isVolumeLabel,
    hasAttributes, hasAttributes, hasAttributes,
    attributes_normalEntry hname hext]
  cases isDirectory <;> decide

include hname hext in
lemma isLowercase_normalEntry
    (lowercaseName lowercaseExtension isDirectory : Bool) (firstCluster : Nat) (time : HumanReadable) :
    isLowercaseName (normalEntry name ext lowercaseName lowercaseExtension
        isDirectory firstCluster time) = lowercaseName ∧ isLowercaseExtension (normalEntry name ext lowercaseName
        lowercaseExtension isDirectory firstCluster time) = lowercaseExtension := by
  rw [isLowercaseName, isLowercaseExtension, caseInfo_normalEntry hname hext]
  cases lowercaseName <;> cases lowercaseExtension <;> decide

lemma OneCase.case_of_isEntirelyLower {part : List UInt8} (h : OneCase part) :
    ∀ c ∈ part, if isEntirelyLower part then isUpper c = false else isLower c = false := by
  intro c hc
  rcases h with hlower | hupper
  · have hnot : isEntirelyLower part = false := by
      rw [isEntirelyLower, hlower]
      rfl
    rw [hnot, if_neg (by simp)]
    simpa using any_eq_false.mp hlower c hc
  · cases hlower : part.any isLower with
    | false =>
      have hnot : isEntirelyLower part = false := by
        rw [isEntirelyLower, hlower]
        rfl
      rw [hnot, if_neg (by simp)]
      simpa using any_eq_false.mp hlower c hc
    | true =>
      have hentirely : isEntirelyLower part = true := by
        rw [isEntirelyLower, hlower, hupper]
        rfl
      rw [hentirely, if_pos rfl]
      simpa using any_eq_false.mp hupper c hc

def decodedName (base extension : List UInt8) : List UInt8 :=
  unpadded base ++ if (unpadded extension).isEmpty then [] else 0x2E :: unpadded extension

include h hshort in
lemma Parts.length_extensionView_le : (extensionView name).length ≤ shortExtensionLength := by
  rw [h.extensionView_eq]
  split
  · rename_i hb
    have hlt := hshort.extension_lt hb
    rwa [length_append, length_singleton]
  · exact hshort.extension_le

include h hshort in
lemma Parts.normalName_shortEntry :
    normalName (shortEntry name isDirectory firstCluster time) = decodedName b (extensionView name) := by
  have hname : (nameView name).length ≤ shortNameLength := by
    rw [h.nameView_eq]
    exact hshort.base_le
  have hext := h.length_extensionView_le hshort
  have hlowercase := isLowercase_normalEntry hname hext (isEntirelyLower (nameView name))
    (isEntirelyLower (extensionView name)) isDirectory firstCluster time
  have hbaseCase : OneCase (nameView name) := by
    rw [h.nameView_eq]
    exact hshort.base_case
  have hextensionCase := h.oneCase_extensionView.mpr hshort.extension_case
  rw [normalName, loweredFilename, loweredExtension, shortEntry, hlowercase.1, hlowercase.2,
    filename_normalEntry hname, extension_normalEntry hname hext,
    lowered_padded hbaseCase.case_of_isEntirelyLower,
    lowered_padded hextensionCase.case_of_isEntirelyLower, unpadded_append_spaces,
    unpadded_append_spaces, h.nameView_eq, decodedName]

include h hplain in
lemma Parts.cString_decodedName (hspace : 0x20 ∉ name) : cString (decodedName b (extensionView name)) = name := by
  rw [decodedName, h.extensionView_eq]
  cases h with
  | whole h hne =>
    rw [if_neg hne, unpadded_eq_self hspace]
    exact (congrArg cString (append_nil _)).trans (cString_eq_self hplain)
  | dotted h hne =>
    have hb : 0x20 ∉ b := fun hmem => hspace (mem_append_left _ hmem)
    have hext : 0x20 ∉ ext := fun hmem => hspace (mem_append_right _ (mem_cons_of_mem _ hmem))
    rw [unpadded_eq_self hb]
    split
    · -- the terminator behind a name that begins with its only dot is stored as well
      rename_i hnil
      subst hnil
      have hspaceZero : 0x20 ∉ ext ++ [0] := by
        rw [mem_append, not_or]
        exact ⟨hext, by decide⟩
      rw [nil_append] at hplain ⊢
      rw [unpadded_eq_self hspaceZero, if_neg (by simp), cString, ← cons_append,
        takeWhile_append_of_pos fun c hc => decide_eq_true (hplain c hc).ne_zero]
      exact append_nil _
    · rw [unpadded_eq_self hext, if_neg (by simpa using hne)]
      exact cString_eq_self hplain

lemma space_notMem_decodedName (b ext : List UInt8) : 0x20 ∉ cString (decodedName b ext) := by
  intro hmem
  have hdecoded := (takeWhile_sublist _).subset hmem
  rw [decodedName, mem_append] at hdecoded
  rcases hdecoded with hb | hext
  · exact space_notMem_unpadded b hb
  · split at hext
    · exact absurd hext not_mem_nil
    · rcases mem_cons.mp hext with hdot | hext
      · exact absurd hdot (by decide)
      · exact space_notMem_unpadded ext hext

end

structure ShortName (shortName : List UInt8) : Prop where
  length : shortName.length = shortNameLength + shortExtensionLength
  plain : ∀ c ∈ shortName, Plain c

variable {fs : FAT32} {f : File} {string shortName next : List UInt8} {start n : Nat}

lemma charsAt_spec {chars : List UInt8} (h : charsAt string start n = .ok chars) :
    chars.length = n ∧ ∀ c ∈ chars, c ∈ string := by
  induction n generalizing start chars with
  | zero =>
    cases h
    exact ⟨rfl, fun c hc => absurd hc not_mem_nil⟩
  | succ n ih =>
    rw [charsAt] at h
    obtain ⟨c, hchar, h⟩ := of_bind h
    obtain ⟨ts, hrest, h⟩ := of_bind h
    cases h
    obtain ⟨hlen, hmem⟩ := ih hrest
    refine ⟨congrArg Nat.succ hlen, ?_⟩
    intro d hd
    rcases mem_cons.mp hd with rfl | hd
    · rw [charAt] at hchar
      obtain ⟨_, has, hv⟩ := of_bind hchar
      have hlt := of_decide_eq_true (assert_eq_ok.mp has)
      cases hv
      rw [getD_eq_getElem _ _ hlt]
      exact getElem_mem hlt
    · exact hmem d hd

lemma plain_padded {field : List UInt8} (hplain : ∀ c ∈ field, Plain c) : ∀ c ∈ padded n field, Plain c := by
  intro c hc
  rcases mem_append.mp hc with hc | hc
  · obtain ⟨d, hd, rfl⟩ := mem_map.mp hc
    exact plain_toUpper (hplain d hd)
  · rw [(mem_replicate.mp hc).2]
    decide

def needsNumericTail (name : List UInt8) : Prop :=
  (lengthOfNameAndExtension name).1 > shortNameLength ∨ (lengthOfNameAndExtension name).2 > shortExtensionLength

instance (name : List UInt8) : Decidable (needsNumericTail name) := inferInstanceAs (Decidable (_ ∨ _))

def shortBase (name : List UInt8) : List UInt8 :=
  let copied := ((nameView name).filter fun c => c != 0x2E && c != 0x20).take
    (min (if needsNumericTail name then shortNameLength - 2 else shortNameLength) (lengthOfNameAndExtension name).1)
  if needsNumericTail name then copied ++ [0x7E, 0x31] else copied

lemma generateShortName_eq (name : List UInt8) : generateShortName name = do
    let ext ← charsAt name ((lengthOfNameAndExtension name).1 + 1)
      (min shortExtensionLength (lengthOfNameAndExtension name).2)
    return padded shortNameLength (shortBase name) ++ padded shortExtensionLength ext := by
  obtain ⟨n, e, hlengths⟩ : ∃ n e, lengthOfNameAndExtension name = (n, e) := ⟨_, _, rfl⟩
  simp only [generateShortName, shortBase, needsNumericTail, nameView, hlengths, decide_eq_true_eq]
  apply bind_congr_ok
  intro ext hext
  have hspace : toUpper 0x20 = 0x20 := rfl
  simp [padded, map_replicate, hspace, (charsAt_spec hext).1]

lemma length_shortBase_le (name : List UInt8) : (shortBase name).length ≤ shortNameLength := by
  rw [shortBase]
  split
  · rw [length_append]
    exact Nat.add_le_add_right (le_trans (length_take_le _ _) (min_le_left _ _)) 2
  · exact le_trans (length_take_le _ _) (min_le_left _ _)

lemma mem_shortBase {name : List UInt8} {c : UInt8} (h : c ∈ shortBase name) :
    c ∈ name ∧ c ≠ 0x20 ∨ c = 0x7E ∨ c = 0x31 := by
  have hcopied {length : Nat} (hc : c ∈ ((nameView name).filter fun c => c != 0x2E && c != 0x20).take length) :
      c ∈ name ∧ c ≠ 0x20 := by
    obtain ⟨hmem, hkept⟩ := mem_filter.mp (mem_of_mem_take hc)
    exact ⟨mem_of_mem_take hmem, by simpa using (Bool.and_eq_true_iff.mp hkept).2⟩
  rw [shortBase] at h
  split at h
  · exact (mem_append.mp h).imp hcopied (by simp)
  · exact .inl (hcopied h)

lemma shortName_generateShortName {name : List UInt8} (hplain : ∀ c ∈ name, Plain c)
    (h : generateShortName name = .ok shortName) : ShortName shortName := by
  rw [generateShortName_eq] at h
  obtain ⟨ext, hext, h⟩ := of_bind h
  cases h
  obtain ⟨hlen, hmem⟩ := charsAt_spec hext
  constructor
  · rw [length_append, length_padded (length_shortBase_le name), length_padded (hlen ▸ min_le_left _ _)]
  · intro c hc
    rcases mem_append.mp hc with hc | hc
    · apply plain_padded _ c hc
      intro d hd
      rcases mem_shortBase hd with ⟨hd, -⟩ | rfl | rfl
      · exact hplain d hd
      · decide
      · decide
    · exact plain_padded (fun d hd => hplain d (hmem d hd)) c hc

/-- Eleven upper case characters: a name that is not blank and an extension, each padded with spaces. -/
def IsShortName (shortName : List UInt8) : Prop :=
  ∃ name extension, shortName = padded shortNameLength name ++ padded shortExtensionLength extension ∧
    name.length ≤ shortNameLength ∧ extension.length ≤ shortExtensionLength ∧ name ≠ [] ∧ 0x20 ∉ name

lemma charsAt_ok (h : start + n ≤ string.length) : ∃ chars, charsAt string start n = .ok chars := by
  induction n generalizing start with
  | zero => exact ⟨[], rfl⟩
  | succ n ih =>
    obtain ⟨ts, hrest⟩ := @ih (start + 1) (by omega)
    rw [charsAt, charAt, assert_bind (by omega), pure_eq_ok, ok_bind, hrest]
    exact ⟨_, rfl⟩

lemma Parts.shortBase_ne_nil_iff {name b ext : List UInt8} (h : Parts name b ext) :
    shortBase name ≠ [] ↔ needsNumericTail name ∨ ∃ c ∈ b, c ≠ 0x2E ∧ c ≠ 0x20 := by
  rw [shortBase]
  split
  · rename_i hneeds
    simp [hneeds]
  · rename_i hneeds
    rw [or_iff_right hneeds, h.nameLength, h.nameView_eq, ne_eq, take_eq_nil_iff, filter_eq_nil_iff, not_or]
    simp only [Bool.and_eq_true, bne_iff_ne, not_forall, not_not, exists_prop, and_iff_right_iff_imp]
    rintro ⟨c, hc, -⟩
    have hlen := length_pos_of_mem hc
    simp only [shortNameLength]
    omega

/-- `generate_short_name` is right for every name with a numeric tail and for every name with a character to
copy in front of its last dot. -/
theorem Parts.isShortName_iff {name base extension : List UInt8} (h : Parts name base extension) :
    (∃ shortName, generateShortName name = .ok shortName ∧ IsShortName shortName) ↔ shortNameLength < base.length ∨
    shortExtensionLength < extension.length + (if base = [] then 1 else 0) ∨ ∃ c ∈ base, c ≠ 0x2E ∧ c ≠ 0x20 := by
  have hneeds : needsNumericTail name ↔ shortNameLength < base.length ∨
      shortExtensionLength < extension.length + (if base = [] then 1 else 0) := by
    rw [needsNumericTail, h.nameLength, h.extensionLength]
    split <;> rfl
  rw [← or_assoc, ← hneeds, ← h.shortBase_ne_nil_iff]
  constructor
  · rintro ⟨shortName, hok, base', extension', rfl, -, -, hne, hspace⟩ hnil
    rw [generateShortName_eq, hnil] at hok
    obtain ⟨chars, -, hok⟩ := of_bind hok
    obtain ⟨c, ts, rfl⟩ := exists_cons_of_ne_nil hne
    -- A blank name begins with a space.
    have hfirst : toUpper c = 0x20 := (List.cons.inj (Except.ok.inj hok)).1.symm
    have hc : c = 0x20 := (byte_cases c).2.2.2 hfirst
    exact hspace (hc ▸ mem_cons_self)
  · intro hb
    have hr : (lengthOfNameAndExtension name).1 + 1 + min shortExtensionLength (lengthOfNameAndExtension name).2 ≤
        name.length ∨ min shortExtensionLength (lengthOfNameAndExtension name).2 = 0 := by
      have hcases := h.shortBase_ne_nil_iff.mp hb
      rw [hneeds] at hcases
      rw [h.nameLength, h.extensionLength]
      cases h with
      | whole hdot hne => exact .inr (by simp [hne])
      | dotted hdot hne =>
        rw [length_append, length_cons]
        by_cases hnil : base = []
        · subst hnil
          simp [shortNameLength, shortExtensionLength] at hcases ⊢
          omega
        · rw [if_neg hnil]
          omega
    obtain ⟨chars, hok⟩ : ∃ chars, charsAt name ((lengthOfNameAndExtension name).1 + 1)
        (min shortExtensionLength (lengthOfNameAndExtension name).2) = .ok chars := by
      rcases hr with hr | hzero
      · exact charsAt_ok hr
      · rw [hzero]
        exact ⟨[], rfl⟩
    refine ⟨_, by rw [generateShortName_eq, hok, ok_bind]; rfl, shortBase name, chars, rfl,
      length_shortBase_le name, (charsAt_spec hok).1 ▸ min_le_left _ _, hb, fun hmem => ?_⟩
    rcases mem_shortBase hmem with ⟨-, hne⟩ | heq | heq
    · exact hne rfl
    · cases heq
    · cases heq

theorem isShortName_prc : ∃ shortName, generateShortName [0x2E, 0x70, 0x72, 0x63] = .ok shortName ∧ IsShortName shortName :=
  (@Parts.isShortName_iff _ [] [0x70, 0x72, 0x63] (.dotted (by decide) (by decide))).mpr (by decide)

/-- For the name `.Ab` the loop over the extension indexes behind the end of the string. -/
theorem not_isShortName_dotAb : isVfat [0x2E, 0x41, 0x62] = true ∧
    generateShortName [0x2E, 0x41, 0x62] = .error (.assertion "i < m_size") ∧
    ¬∃ shortName, generateShortName [0x2E, 0x41, 0x62] = .ok shortName ∧ IsShortName shortName := by
  have hfault : generateShortName [0x2E, 0x41, 0x62] = .error (.assertion "i < m_size") := by decide
  refine ⟨by decide, hfault, fun ⟨shortName, hok, _⟩ => ?_⟩
  rw [hfault] at hok
  cases hok

lemma ShortName.setChar {i : Nat} {c : UInt8} (h : ShortName shortName) (hc : Plain c)
    (hset : setChar shortName i c = .ok next) : ShortName next := by
  rw [FAT32.setChar] at hset
  obtain ⟨_, _, hset⟩ := of_bind hset
  cases hset
  refine ⟨?_, ?_⟩
  · rw [length_set]
    exact h.length
  · intro d hd
    rcases mem_or_eq_of_mem_set hd with hd | rfl
    · exact h.plain d hd
    · exact hc

lemma plain_digit (number : Nat) : Plain (UInt8.ofNat (number % 10) + 0x30) := by
  have hall : ∀ digit < 10, Plain (UInt8.ofNat digit + 0x30) := by decide
  exact hall _ (Nat.mod_lt _ (by decide))

lemma ShortName.writeNumber {number : Nat} (h : ShortName shortName)
    (hwrite : writeNumber start n number shortName = .ok next) : ShortName next := by
  induction n generalizing number shortName with
  | zero =>
    cases hwrite
    exact h
  | succ n ih =>
    rw [FAT32.writeNumber] at hwrite
    obtain ⟨name, hset, hwrite⟩ := of_bind hwrite
    exact ih (h.setChar (plain_digit number) hset) hwrite

lemma ShortName.nextShortName (h : ShortName shortName)
    (hnext : nextShortName shortName = .ok (some next)) : ShortName next := by
  rw [FAT32.nextShortName] at hnext
  split at hnext
  · cases hnext
  · dsimp only at hnext
    split at hnext
    · obtain ⟨name, hfirst, hnext⟩ := of_bind hnext
      obtain ⟨name', hsec, hnext⟩ := of_bind hnext
      cases hnext
      exact (h.setChar (by decide) hfirst).setChar (by decide) hsec
    · split at hnext
      · obtain ⟨name, hwrite, hnext⟩ := of_bind hnext
        obtain ⟨name', hset, hnext⟩ := of_bind hnext
        cases hnext
        exact (h.writeNumber hwrite).setChar (by decide) hset
      · obtain ⟨name, hwrite, hnext⟩ := of_bind hnext
        cases hnext
        exact h.writeNumber hwrite

lemma ShortName.uniqueShortName {m : Nat} {dir : Directory} (h : ShortName shortName)
    (huniq : fs.uniqueShortName f m dir shortName = .ok (some next)) : ShortName next := by
  induction m generalizing dir shortName with
  | zero => cases huniq
  | succ m ih =>
    rw [FAT32.uniqueShortName] at huniq
    obtain ⟨⟨e, dir⟩, _, huniq⟩ := of_bind huniq
    dsimp only at huniq
    split at huniq
    · cases huniq
      exact h
    · split at huniq
      · obtain ⟨found, hnext, huniq⟩ := of_bind huniq
        cases found with
        | none => cases huniq
        | some name => exact ih (h.nextShortName hnext) huniq
      · exact ih h huniq

end UltraOS.FAT32
