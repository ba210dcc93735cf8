import UltraOS.FileSystem.FAT32.Directory.Insert

/-!
# Names come back

After `create_file` the iteration over the directory returns one more entry. Its name is the one that
was asked for, except for names with a space that are stored without long entries.
-/

namespace UltraOS.FAT32

open List Record List

variable {fs fs' : FAT32} {c : Nat} {rs : List Record} {tail : List (List UInt8)} {es : List NativeEntry}

section

variable {isWanted : NativeEntry → Bool}

lemma findLoop_eq {n : Nat} {dir : Directory} (h : fs.listLoop n dir = .ok es) :
    fs.findLoop isWanted n dir = .ok (es.find? isWanted) := by
  induction n generalizing dir es with
  | zero => cases h
  | succ n ih =>
    rw [listLoop] at h
    obtain ⟨⟨entry, next⟩, hnext, h⟩ := of_bind h
    rw [findLoop, hnext, ok_bind]
    dsimp only at h ⊢
    cases hempty : entry.isEmpty with
    | true =>
      rw [hempty, if_pos rfl] at h
      cases h
      rfl
    | false =>
      rw [hempty, if_neg (by simp)] at h
      obtain ⟨ts, hrest, h⟩ := of_bind h
      cases h
      rw [if_neg (by simp), find?_cons]
      cases isWanted entry with
      | true => rfl
      | false => exact ih hrest

lemma findEntry_eq (h : fs.listing c = .ok es) : fs.findEntry c isWanted = .ok (es.find? isWanted) := findLoop_eq h

end

def stripped (node : List UInt8) : List UInt8 := rstrip 0x2E (rstrip 0x20 node)

lemma getLast?_rstrip (c : UInt8) (string : List UInt8) : (rstrip c string).getLast? ≠ some c := by
  rw [rstrip, getLast?_reverse]
  intro hhead
  have hnot := head?_dropWhile_not (· == c) string.reverse
  rw [hhead] at hnot
  simp at hnot

lemma plain_of_any_isBanned {name : List UInt8} (h : name.any isBanned = false) : ∀ c ∈ name, Plain c := by
  intro c hc
  apply (byte_cases c).2.2.1
  simpa using any_eq_false.mp h c hc

section

variable (h : fs'.mBytesPerCluster = fs.mBytesPerCluster) (cs : List Nat)

include h in
lemma behind_congr (i : Nat) : behind fs' cs i = behind fs cs i := by
  rw [behind, behind, coordinatesAt, coordinatesAt, slotsPerCluster_congr h]

include h in
lemma Record.entry_congr (i : Nat) (r : Record) : r.entry fs' cs i = r.entry fs cs i := by
  cases r with
  | skipped slot hslot => rfl
  | short slot hslot => rw [entry, entry, located, located, behind_congr h]
  | long name =>
    rw [entry, entry, LongName.entry, LongName.entry]
    simp only [behind_congr h, clusterBeyond, slotsPerCluster_congr h]

include h in
lemma entriesFrom_congr (i : Nat) (rs : List Record) : entriesFrom fs' cs i rs = entriesFrom fs cs i rs := by
  induction rs generalizing i with
  | nil => rfl
  | cons r rs ih => rw [entriesFrom, entriesFrom, ih, entry_congr h]

lemma listed_append {xs : List NativeEntry} (h : ∀ entry ∈ xs, entry.isEmpty = false)
    (ys : List NativeEntry) : listed (xs ++ ys) = xs ++ listed ys := by
  apply takeWhile_append_of_pos
  intro entry hmem
  rw [h entry hmem]
  rfl

lemma listed_eq_self (h : ∀ entry ∈ es, entry.isEmpty = false) : listed es = es := by
  have hall := listed_append h []
  rw [append_nil] at hall
  exact hall.trans (append_nil _)

end

/-- An iteration returns the same entries as before and one more, which has the name. -/
def RoundTrips (fs fs' : FAT32) (firstCluster : Nat) (name : List UInt8) : Prop :=
  ∃ front entry back, fs.listing firstCluster = .ok (front ++ back) ∧
    fs'.listing firstCluster = .ok (front ++ entry :: back) ∧ entry.name = name

/-- A directory in one cluster. Its entries have names, and nothing lies behind its end mark. -/
structure OneCluster (fs : FAT32) (f : File) (c : Nat) (records : List Record) (tail : List (List UInt8)) : Prop where
  file : DirectoryFile fs f [c]
  holds : Holds fs [c] records tail
  named : ∀ entry ∈ entriesFrom fs [c] 0 records, entry.isEmpty = false
  free : ∀ slot ∈ tail, IsFree slot

variable {f : File} {new : NewFile} {name node : List UInt8} {xs run ts : List (List UInt8)} {r : Record}

variable (h : OneCluster fs f c rs tail) (hins : Inserted fs fs' c r.slots xs run ts) (hr : r.isSkipped = false)

include h hins hr in
lemma OneCluster.listings : ∃ before behind i, fs.listing c = .ok (before ++ behind) ∧
    fs'.listing c = .ok (before ++ listed (r.entry fs [c] i :: behind)) := by
  obtain ⟨pre, post, tail', hholds, hes⟩ := hins.holds h.holds h.free
  refine ⟨entriesFrom fs [c] 0 pre, entriesFrom fs [c] (slotCount pre + r.slots.length) post, slotCount pre, ?_, ?_⟩
  · have hlist := h.holds.listing_eq
    rwa [listed_eq_self h.named, hes] at hlist
  · have hlist := hholds.listing_eq
    have hpre : ∀ entry ∈ entriesFrom fs [c] 0 pre, entry.isEmpty = false := by
      intro entry hmem
      apply h.named
      rw [hes]
      exact mem_append_left _ hmem
    rw [entriesFrom_congr hins.bytes, entriesFrom_append, zero_add, entriesFrom, hr,
      if_neg (by simp), listed_append hpre] at hlist
    exact hlist

/-- What has happened when `create_file` returns without an error. -/
structure Created (fs fs' : FAT32) (new : NewFile) (f : File) (name : List UInt8) : Prop where
  ne_nil : name ≠ []
  length_le : name.length ≤ maxNameLength
  plain : ∀ c ∈ name, Plain c
  last : name.getLast? ≠ some 0x2E
  search : fs.findEntry f.mFirstCluster (fun entry => caseInsensitiveEquals name entry.name) = .ok none
  written : (isVfat name = true ∧ ∃ shortName, ShortName shortName ∧ fs.createLong new f name shortName = .ok fs') ∨
    isVfat name = false ∧ fs.createShort new f name = .ok fs'

lemma created_of_createIn (h : fs.createIn new f node = .ok (fs', .noError)) :
    Created fs fs' new f (stripped node) := by
  rw [createIn, ← stripped] at h
  split at h
  · cases h
  · rename_i hne
    split at h
    · cases h
    · rename_i hlen
      obtain ⟨found, hsearch, h⟩ := of_bind h
      cases found with
      | some entry => cases h
      | none =>
        dsimp only at h
        rw [createEntry] at h
        split at h
        · cases h
        · rename_i hbanned
          have hplain := plain_of_any_isBanned (Bool.eq_false_iff.mpr hbanned)
          refine ⟨by simpa using hne, by omega, hplain, getLast?_rstrip _ _, hsearch, ?_⟩
          split at h
          · rename_i hvfat
            obtain ⟨generated, hgenerate, h⟩ := of_bind h
            obtain ⟨unique, huniq, h⟩ := of_bind h
            cases unique with
            | none => cases h
            | some shortName =>
              obtain ⟨fs1, hcr, h⟩ := of_bind h
              cases h
              exact Or.inl ⟨hvfat, shortName, (shortName_generateShortName hplain hgenerate).uniqueShortName huniq, hcr⟩
          · rename_i hvfat
            obtain ⟨fs1, hcr, h⟩ := of_bind h
            cases h
            exact Or.inr ⟨Bool.eq_false_iff.mpr hvfat, hcr⟩

include h in
lemma OneCluster.inserted_long {shortName : List UInt8} (hne : name ≠ []) (hlen : name.length ≤ maxNameLength)
    (hplain : ∀ c ∈ name, Plain c) (hshort : ShortName shortName) (hcr : fs.createLong new f name shortName = .ok fs') :
    ∃ r xs run ts, Inserted fs fs' c (slots r) xs run ts ∧ r.isSkipped = false ∧ ∀ i, (r.entry fs [c] i).name =
    name := by
  obtain ⟨firstCluster, xs, run, ts, hins⟩ := createLong_inserted h.holds.laid h.holds.size h.file hcr
  have hslot : isShort (longShortEntry shortName new.isDirectory firstCluster new.time) = true :=
    isShort_normalEntry (length_take_le _ _) (length_take_le _ _)
      (fun c hc => hshort.plain c (mem_of_mem_take hc)) _ _ _ _ _
  refine ⟨.long (writtenName name (generateShortNameChecksum shortName) _ hne hlen hplain hslot),
    xs, run, ts, hins, rfl, ?_⟩
  intro i
  have hname := LongName.entry_name fs [c] i
    (writtenName name (generateShortNameChecksum shortName) _ hne hlen hplain hslot)
    (full_longEntries hplain _)
  exact hname.trans ((congrArg cString (spelled_longEntries hplain _)).trans (cString_eq_self hplain))

include h in
lemma OneCluster.inserted_short {b ext : List UInt8} (hparts : Parts name b ext) (hshort : ShortForm b ext)
    (hplain : ∀ c ∈ name, Plain c) (hcr : fs.createShort new f name = .ok fs') : ∃ r xs run ts,
    Inserted fs fs' c (slots r) xs run ts ∧ r.isSkipped = false ∧ ∀ i, (r.entry fs [c] i).name =
    cString (decodedName b (extensionView name)) := by
  have hname : (nameView name).length ≤ shortNameLength := by
    rw [hparts.nameView_eq]
    exact hshort.base_le
  have hext := hparts.length_extensionView_le hshort
  obtain ⟨firstCluster, xs, run, ts, hins⟩ := createShort_inserted h.holds.laid h.holds.size h.file hname hext hcr
  have hslot : isShort (shortEntry name new.isDirectory firstCluster new.time) = true :=
    isShort_normalEntry hname hext (fun c hc => hplain c (mem_of_mem_take hc)) _ _ _ _ _
  refine ⟨.short _ hslot, xs, run, ts, hins, rfl, ?_⟩
  intro i
  exact congrArg cString (hparts.normalName_shortEntry hshort)

include h hins hr in
lemma OneCluster.roundTrips (hne : name ≠ [])
    (hname : ∀ i, (r.entry fs [c] i).name = name) : RoundTrips fs fs' c name := by
  obtain ⟨before, behind, i, hbef, hafter⟩ := h.listings hins hr
  have he : (r.entry fs [c] i).isEmpty = false := by
    rw [NativeEntry.isEmpty, hname i]
    simpa using hne
  have hbeh : ∀ entry ∈ behind, entry.isEmpty = false := by
    have hlist := h.holds.listing_eq
    rw [listed_eq_self h.named] at hlist
    intro entry hmem
    apply h.named
    rw [Except.ok.inj (hlist.symm.trans hbef)]
    exact mem_append_right _ hmem
  rw [listed_cons he, listed_eq_self hbeh] at hafter
  exact ⟨before, r.entry fs [c] i, behind, hbef, hafter, hname i⟩

include h hins hr in
lemma OneCluster.not_roundTrips (hname : ∀ i, (r.entry fs [c] i).name ≠ name)
    (hsearch : fs.findEntry c (fun entry => caseInsensitiveEquals name entry.name) = .ok none) :
    ¬ RoundTrips fs fs' c name := by
  rintro ⟨xs, entry, ys, hlist, hlisting', rfl⟩
  obtain ⟨before, behind, i, hbef, hafter⟩ := h.listings hins hr
  have hnew : ∀ u ∈ before ++ behind, u.name ≠ entry.name := by
    intro u hmem heq
    rw [findEntry_eq hbef] at hsearch
    have hnone := find?_eq_none.mp (Except.ok.inj hsearch) u hmem
    rw [heq, caseInsensitiveEquals, beq_self_eq_true] at hnone
    exact hnone rfl
  have hmem : entry ∈ before ++ listed (r.entry fs [c] i :: behind) := by
    rw [← Except.ok.inj (hlisting'.symm.trans hafter)]
    exact mem_append_right _ mem_cons_self
  rcases mem_append.mp hmem with hmem | hmem
  · exact hnew entry (mem_append_left _ hmem) rfl
  · rcases mem_cons.mp ((takeWhile_sublist _).subset hmem) with rfl | hmem
    · exact hname i rfl
    · exact hnew entry (mem_append_right _ hmem) rfl

/-- A name comes back exactly if it has no space or needs long entries. -/
theorem roundTrips_iff (h : OneCluster fs f c rs tail) (hok : fs.createIn new f node = .ok (fs', .noError)) :
    RoundTrips fs fs' c (stripped node) ↔ (0x20 ∈ stripped node → ¬ HasShortForm (stripped node)) := by
  have hcreated := created_of_createIn hok
  have hfirst : c = f.mFirstCluster := Option.some.inj h.file.first
  have hsearch := hcreated.search
  rw [← hfirst] at hsearch
  rcases hcreated.written with ⟨hvfat, shortName, hshort, hcr⟩ | ⟨hvfat, hcr⟩
  · have hform : ¬ HasShortForm (stripped node) := by
      rw [← isVfat_eq_false_iff hcreated.ne_nil hcreated.last, hvfat]
      exact Bool.noConfusion
    obtain ⟨r, xs, run, ts, hins, hr, hname⟩ :=
      h.inserted_long hcreated.ne_nil hcreated.length_le hcreated.plain hshort hcr
    exact ⟨fun _ _ => hform, fun _ => h.roundTrips hins hr hcreated.ne_nil hname⟩
  · obtain ⟨b, ext, hparts, hshort⟩ := (isVfat_eq_false_iff hcreated.ne_nil hcreated.last).mp hvfat
    obtain ⟨r, xs, run, ts, hins, hr, hname⟩ := h.inserted_short hparts hshort hcreated.plain hcr
    constructor
    · intro htrips hspace
      refine absurd htrips (h.not_roundTrips hins hr ?_ hsearch)
      intro i heq
      rw [hname i] at heq
      exact space_notMem_decodedName b _ (heq ▸ hspace)
    · intro hcondition
      have hspace : 0x20 ∉ stripped node := fun hspace => hcondition hspace ⟨b, ext, hparts, hshort⟩
      apply h.roundTrips hins hr hcreated.ne_nil
      intro i
      rw [hname i]
      exact hparts.cString_decodedName hcreated.plain hspace

lemma oneCluster_empty : OneCluster (slotVolume []) { mFirstCluster := 2 } 2 [] (replicate 16 (replicate 32 0)) where
  file := {
    chain := (laid_slotVolume []).chain
    first := rfl
    ranges := rfl
    size := rfl
    bytes := (laid_slotVolume []).bytes
    bytes_pos := show 0 < 512 by decide }
  holds := {
    laid := laid_slotVolume []
    size := show 16 ≤ 512 / 32 by decide
    slots := by decide +kernel
    ended := by rfl }
  named := fun _ h => absurd h not_mem_nil
  free := by
    intro slot hmem
    rw [(mem_replicate.mp hmem).2]
    rfl

def newFile : NewFile := ⟨false, 2, ⟨2021, 1, 1, 0, 0, 0⟩⟩

theorem roundTrips_iff_long : ∃ fs', (slotVolume []).createIn newFile { mFirstCluster := 2 }
      [0x52, 0x65, 0x61, 0x64, 0x20, 0x6D, 0x65, 0x2E, 0x74, 0x78, 0x74] = .ok (fs', .noError) ∧
    RoundTrips (slotVolume []) fs' 2 [0x52, 0x65, 0x61, 0x64, 0x20, 0x6D, 0x65, 0x2E, 0x74, 0x78, 0x74] := by
  have hcode : (do
      let (_, code) ← (slotVolume []).createIn newFile { mFirstCluster := 2 }
        [0x52, 0x65, 0x61, 0x64, 0x20, 0x6D, 0x65, 0x2E, 0x74, 0x78, 0x74]
      return code) = (.ok .noError : Run ErrorCode) := by rfl
  obtain ⟨⟨fs', code⟩, hok, hcode⟩ := of_bind hcode
  cases hcode
  refine ⟨fs', hok, (roundTrips_iff oneCluster_empty hok).mpr ?_⟩
  intro _ hform
  exact absurd ((isVfat_eq_false_iff (by decide) (by decide)).mpr hform) (by decide)

/-- `a b` comes back as `a`. -/
theorem not_roundTrips_space : OneCluster (slotVolume []) { mFirstCluster := 2 } 2 [] (replicate 16 (replicate 32 0)) ∧
      ∃ fs', (slotVolume []).createIn newFile { mFirstCluster := 2 } [0x61, 0x20, 0x62] = .ok (fs', .noError) ∧ (do
          let es ← fs'.listing 2
          return es.map NativeEntry.name) = (.ok [[0x61]] : Run (List (List UInt8))) ∧
        ¬ RoundTrips (slotVolume []) fs' 2 [0x61, 0x20, 0x62] := by
  have hrun : (do
      let (fs', code) ← (slotVolume []).createIn newFile { mFirstCluster := 2 } [0x61, 0x20, 0x62]
      let es ← fs'.listing 2
      return (code, es.map NativeEntry.name)) =
        (.ok (.noError, [[0x61]]) : Run (ErrorCode × List (List UInt8))) := by rfl
  obtain ⟨⟨fs', code⟩, hok, hrun⟩ := of_bind hrun
  obtain ⟨es, hlist, hrun⟩ := of_bind hrun
  obtain ⟨rfl, hnames⟩ := Prod.mk.inj (Except.ok.inj hrun)
  refine ⟨oneCluster_empty, fs', hok, ?_, ?_⟩
  · rw [hlist, ok_bind, hnames]
    rfl
  · rintro ⟨xs, entry, ys, -, hafter, hname⟩
    cases hlist.symm.trans hafter
    have hmem : entry.name ∈ [[(0x61 : UInt8)]] := by
      rw [← hnames]
      exact mem_map_of_mem (mem_append_right _ mem_cons_self)
    rw [hname] at hmem
    exact absurd hmem (by decide)

end UltraOS.FAT32
