import UltraOS.FileSystem.FAT32.Directory.ShortNames

/-!
# Writing a record

`create_file` writes the entries of a new file over free slots of its directory. In a directory of
one cluster the slots it takes are a run without a free slot in front of it, so no end mark comes
before them, and the record becomes visible between the records around it.
-/

namespace UltraOS.FAT32

open List DirectoryEntry List

variable {fs fs' : FAT32} {c : Nat} {d k : Nat} {en : List UInt8}
  (hbs : fs.mBytesPerCluster = fs.slotsPerCluster * directoryEntrySize)
  (hlaid : Laid fs [c]) (hsize : 16 ≤ fs.slotsPerCluster) (hk : k < fs.slotsPerCluster)

section

/-- What is left alone of a directory in one cluster. -/
structure Keeps (fs fs' : FAT32) (c : Nat) : Prop where
  bytes : fs'.mBytesPerCluster = fs.mBytesPerCluster
  fat : fs'.mFatCache c = fs.mFatCache c
  data : fs'.mDataCache (c - reservedClusterCount) = fs.mDataCache (c - reservedClusterCount)

variable {fs'' : FAT32} {cs : List Nat}

def Writes (fs fs' : FAT32) (clusters : List Nat) : Prop :=
  ∃ data, fs' = { fs with mDataCache := data } ∧
    ∀ block, (∀ c ∈ clusters, block ≠ c - reservedClusterCount) → data block = fs.mDataCache block

lemma Writes.refl (fs : FAT32) (cs : List Nat) : Writes fs fs cs := ⟨fs.mDataCache, rfl, fun _ _ => rfl⟩

variable (h : Laid fs cs) (hen : en.length = directoryEntrySize)

lemma Writes.trans (h : Writes fs fs' cs) (h' : Writes fs' fs'' cs) : Writes fs fs'' cs := by
  obtain ⟨data, rfl, hdata⟩ := h
  obtain ⟨data', rfl, hdata'⟩ := h'
  exact ⟨data', rfl, fun b hb => (hdata' b hb).trans (hdata b hb)⟩

lemma Writes.laid (h : Writes fs fs' cs) (hlaid : Laid fs cs) : Laid fs' cs := by
  obtain ⟨data, rfl, -⟩ := h
  exact ⟨hlaid.chain.congr fun _ _ => rfl, hlaid.bytes, hlaid.slots_pos⟩

lemma Writes.keeps (h : Writes fs fs' [d]) (hc : reservedClusterCount ≤ c)
    (hd : reservedClusterCount ≤ d) (hne : c ≠ d) : Keeps fs fs' c := by
  obtain ⟨data, rfl, hdata⟩ := h
  refine ⟨rfl, rfl, hdata _ fun e he => ?_⟩
  rw [mem_singleton.mp he]
  omega

lemma Keeps.trans (h : Keeps fs fs' c) (h' : Keeps fs' fs'' c) : Keeps fs fs'' c :=
  ⟨h'.bytes.trans h.bytes, h'.fat.trans h.fat, h'.data.trans h.data⟩

lemma slotsPerCluster_congr (h : fs'.mBytesPerCluster = fs.mBytesPerCluster) :
    fs'.slotsPerCluster = fs.slotsPerCluster := by
  rw [slotsPerCluster, slotsPerCluster, h]

lemma laid_congr (hbs : fs'.mBytesPerCluster = fs.mBytesPerCluster)
    (hfat : fs'.mFatCache c = fs.mFatCache c) (hlaid : Laid fs [c]) : Laid fs' [c] where
  chain := hlaid.chain.congr fun cl hmem => by rw [mem_singleton.mp hmem, hfat]
  bytes := by
    rw [slotsPerCluster_congr hbs, hbs]
    exact hlaid.bytes
  slots_pos := by
    rw [slotsPerCluster_congr hbs]
    exact hlaid.slots_pos

lemma allSlots_singleton (fs : FAT32) (c : Nat) :
    allSlots fs [c] = (range fs.slotsPerCluster).map (slotBytes fs c) := by
  rw [allSlots, length_singleton, one_mul]
  apply map_congr_left
  intro k hk
  have hlt := mem_range.mp hk
  rw [slotAt, Nat.div_eq_of_lt hlt, Nat.mod_eq_of_lt hlt, getD_cons_zero]

lemma Keeps.allSlots_eq (h : Keeps fs fs' c) : allSlots fs' [c] = allSlots fs [c] := by
  have hslot : slotBytes fs' c = slotBytes fs c := by
    funext k
    rw [slotBytes, slotBytes, h.data]
  rw [allSlots_singleton, allSlots_singleton, slotsPerCluster_congr h.bytes, hslot]

def putSlot (fs : FAT32) (c k : Nat) (entry : List UInt8) : FAT32 :=
  { fs with
    mDataCache := fun block i =>
      if block = c - reservedClusterCount ∧ k * directoryEntrySize ≤ i ∧
          i < k * directoryEntrySize + entry.length then
        entry.getD (i - k * directoryEntrySize) 0
      else fs.mDataCache block i }

lemma writes_putSlot (fs : FAT32) (hc : c ∈ cs) (k : Nat) (en : List UInt8) : Writes fs (putSlot fs c k en) cs := by
  refine ⟨_, rfl, ?_⟩
  intro b hb
  funext i
  exact if_neg fun h => hb c hc h.1

include hen in
lemma slotBytes_putSlot {j : Nat} : slotBytes (putSlot fs c k en) c j = if j = k then en else slotBytes fs c j := by
  rw [slotBytes]
  split
  · rename_i heq
    subst heq
    apply ext_getElem
    · rw [length_map, length_range, hen]
    · intro i hi hi'
      rw [length_map, length_range] at hi
      rw [getElem_map, getElem_range]
      show (if _ then _ else _) = _
      rw [if_pos ⟨rfl, by omega, by omega⟩, Nat.add_sub_cancel_left, getD_eq_getElem _ _ hi']
  · rename_i hne
    apply map_congr_left
    intro i hi
    have hlt := mem_range.mp hi
    apply if_neg
    rw [hen]
    unfold directoryEntrySize at *
    omega

variable {index : Nat} (hindex : index < cs.length * fs.slotsPerCluster)

include h hindex in
lemma Laid.clusterOf_mem : clusterOf fs cs index ∈ cs := by
  have hlt : index / fs.slotsPerCluster < cs.length := (Nat.div_lt_iff_lt_mul h.slots_pos).mpr hindex
  rw [clusterOf, getD_eq_getElem _ _ hlt]
  exact getElem_mem hlt

lemma Laid.two_le (h : Laid fs cs) {c : Nat} (hc : c ∈ cs) : reservedClusterCount ≤ c :=
  ((entryType_eq_link_iff c).mp (h.chain.link c hc)).1

def putAt (fs : FAT32) (clusters : List Nat) (index : Nat) (slot : List UInt8) : FAT32 :=
  putSlot fs (clusterOf fs clusters index) (index % fs.slotsPerCluster) slot

include h hindex in
lemma Laid.slotAt_putAt {j : Nat} (hj : j < cs.length * fs.slotsPerCluster) (hen : en.length = directoryEntrySize) :
    slotAt (putAt fs cs index en) cs j = if j = index then en else slotAt fs cs j := by
  have hper : (putAt fs cs index en).slotsPerCluster = fs.slotsPerCluster := rfl
  rw [slotAt, hper]
  by_cases hc : clusterOf fs cs j = clusterOf fs cs index
  · have hdiv : j / fs.slotsPerCluster = index / fs.slotsPerCluster :=
      h.getD_inj ((Nat.div_lt_iff_lt_mul h.slots_pos).mpr hj) ((Nat.div_lt_iff_lt_mul h.slots_pos).mpr hindex) hc
    have hsame : j % fs.slotsPerCluster = index % fs.slotsPerCluster ↔ j = index := by
      constructor
      · intro hmod
        rw [← Nat.div_add_mod j fs.slotsPerCluster, hdiv, hmod, Nat.div_add_mod]
      · rintro rfl
        rfl
    change slotBytes (putSlot fs (clusterOf fs cs index) _ en) (clusterOf fs cs j) _ = _
    rw [hc, slotBytes_putSlot hen]
    by_cases heq : j = index
    · rw [if_pos (hsame.mpr heq), if_pos heq]
    · rw [if_neg fun hmod => heq (hsame.mp hmod), if_neg heq, slotAt]
      change _ = slotBytes fs (clusterOf fs cs j) _
      rw [hc]
  · have hne : j ≠ index := fun heq => hc (by rw [heq])
    have hj2 := h.two_le (h.clusterOf_mem hj)
    have hi2 := h.two_le (h.clusterOf_mem hindex)
    rw [if_neg hne, slotAt]
    apply map_congr_left
    intro i hi
    apply if_neg
    rintro ⟨hb, -⟩
    apply hc
    change clusterOf fs cs j - reservedClusterCount = _ at hb
    omega

include h hindex in
lemma Laid.allSlots_putAt (hen : en.length = directoryEntrySize) :
    allSlots (putAt fs cs index en) cs = (allSlots fs cs).set index en := by
  have hper : (putAt fs cs index en).slotsPerCluster = fs.slotsPerCluster := rfl
  rw [allSlots, allSlots, hper]
  apply ext_getElem
  · rw [length_set, length_map, length_map]
  · intro j hj hj'
    rw [length_map, length_range] at hj
    rw [getElem_map, getElem_range, h.slotAt_putAt hindex hj hen, getElem_set, getElem_map, getElem_range]
    by_cases heq : j = index
    · rw [if_pos heq, if_pos heq.symm]
    · rw [if_neg heq, if_neg fun heq' => heq heq'.symm]

lemma Laid.putAt_between (h : Laid fs cs) {slot : List UInt8} {xs ts : List (List UInt8)}
    (hslots : allSlots fs cs = xs ++ slot :: ts) (hen : en.length = directoryEntrySize) :
    xs.length < cs.length * fs.slotsPerCluster ∧ Writes fs (putAt fs cs xs.length en) cs ∧
    allSlots (putAt fs cs xs.length en) cs = (xs ++ [en]) ++ ts := by
  have hindex : xs.length < cs.length * fs.slotsPerCluster := by
    have hlen := congrArg length hslots
    simp only [allSlots, length_map, length_range, length_append, length_cons] at hlen
    omega
  refine ⟨hindex, writes_putSlot fs (h.clusterOf_mem hindex) _ en, ?_⟩
  rw [h.allSlots_putAt hindex hen, hslots, set_append_right _ _ le_rfl, Nat.sub_self]
  simp

include hbs in
lemma write_putSlot
    (hc : reservedClusterCount ≤ c) (hk : k < fs.slotsPerCluster) (hen : en.length = directoryEntrySize) : (do
      let b ← pureClusterValue c
      fs.lockedWrite b (k * directoryEntrySize) en) = .ok (putSlot fs c k en) := by
  have hle : k * directoryEntrySize + en.length ≤ fs.mBytesPerCluster := by
    rw [hen, hbs, ← Nat.succ_mul]
    exact Nat.mul_le_mul_right _ hk
  rw [pureClusterValue, assert_bind hc, pure_eq_ok, ok_bind, lockedWrite, assert_bind hle]
  rfl

include hlaid hk hen in
lemma writeOne_slotFrom : fs.writeOne en (slotFrom c k) = .ok (putAt fs [c] k en, slotFrom c (k + 1)) := by
  obtain ⟨b, hb, hwrite⟩ := of_bind (write_putSlot hlaid.bytes (hlaid.two_le mem_cons_self) hk hen)
  rw [writeOne, nextEntry_slotFrom hlaid.bytes hk, ok_bind]
  dsimp only
  rw [hb, ok_bind, hwrite, ok_bind, putAt, clusterOf, Nat.div_eq_of_lt hk, Nat.mod_eq_of_lt hk]
  rfl

lemma writeAll_slotFrom (es : List (List UInt8)) (hlaid : Laid fs [c]) {xs run ts : List (List UInt8)}
    (hslots : allSlots fs [c] = xs ++ run ++ ts) (hrun : run.length = es.length)
    (hes : ∀ en ∈ es, en.length = directoryEntrySize) : ∃ fs', fs.writeAll (slotFrom c xs.length) es =
    .ok (fs', slotFrom c (xs.length + es.length)) ∧ Writes fs fs' [c] ∧ allSlots fs' [c] = xs ++ es ++ ts := by
  induction es generalizing fs xs run with
  | nil =>
    obtain rfl := eq_nil_of_length_eq_zero hrun
    exact ⟨fs, rfl, Writes.refl fs [c], hslots⟩
  | cons en es ih =>
    cases run with
    | nil => cases hrun
    | cons slot run =>
      have hen := hes en mem_cons_self
      rw [append_assoc, cons_append] at hslots
      obtain ⟨hk, hwr, hput⟩ := hlaid.putAt_between hslots hen
      rw [length_singleton, one_mul] at hk
      rw [← append_assoc] at hput
      obtain ⟨fs', hwrite, hwrites', hall⟩ := ih (hwr.laid hlaid) hput (Nat.succ.inj hrun)
        fun e he => hes e (mem_cons_of_mem _ he)
      refine ⟨fs', ?_, hwr.trans hwrites', ?_⟩
      · rw [writeAll, writeOne_slotFrom hlaid hk hen, ok_bind]
        rw [length_append, length_singleton] at hwrite
        dsimp only
        rw [hwrite, length_cons, add_assoc, add_comm 1]
      · rw [hall]
        simp

end

variable {n : Nat}

section

variable {ch : List Nat}

lemma allocatePass_frame (n steps cl : Nat) {prev : Nat} (hused : fs.mFatCache c ≠ freeCluster)
    (hprev : prev ≠ c) (hch : c ∉ ch) : Keeps fs (allocatePass n steps cl fs prev ch).1 c ∧
    (allocatePass n steps cl fs prev ch).2.1 ≠ c ∧ c ∉ (allocatePass n steps cl fs prev ch).2.2 := by
  induction steps generalizing cl fs prev ch with
  | zero => exact ⟨⟨rfl, rfl, rfl⟩, hprev, hch⟩
  | succ steps ih =>
    rw [allocatePass]
    split
    · exact ih (cl + 1) hused hprev hch
    · rename_i hfree
      have hne : cl ≠ c := by
        rintro rfl
        rw [not_not, entryType_eq_free_iff] at hfree
        exact hused hfree
      have hlinked : Keeps fs (if prev ≠ freeCluster then fs.setFatEntryAt prev cl else fs)
          c := by
        split
        · exact ⟨rfl, if_neg fun h => hprev h.symm, rfl⟩
        · exact ⟨rfl, rfl, rfl⟩
      have hmem : c ∉ ch ++ [cl] := by
        rw [mem_append, mem_singleton, not_or]
        exact ⟨hch, fun h => hne h.symm⟩
      dsimp only
      split
      · refine ⟨hlinked.trans ⟨rfl, if_neg fun h => hne h.symm, rfl⟩, hne, hmem⟩
      · have hused' : (if prev ≠ freeCluster then fs.setFatEntryAt prev cl else fs).mFatCache c ≠ freeCluster := by
          rwa [hlinked.fat]
        obtain ⟨hkeeps, hprev', hchain'⟩ := ih (cl + 1) hused' hne hmem
        exact ⟨hlinked.trans hkeeps, hprev', hchain'⟩

lemma allocateClusterChain_frame (hused : fs.mFatCache c ≠ freeCluster) (hc : c ≠ freeCluster)
    (h : fs.allocateClusterChain n freeCluster = .ok (fs', ch)) : Keeps fs fs' c ∧ c ∉ ch := by
  rw [allocateClusterChain] at h
  obtain ⟨_, _, h⟩ := of_bind h
  obtain ⟨_, _, h⟩ := of_bind h
  dsimp only at h
  obtain ⟨hkeeps, hprev, hch⟩ := allocatePass_frame n
    (fs.mClusterCount - fs.mLastFreeCluster) fs.mLastFreeCluster hused (fun h => hc h.symm)
    not_mem_nil
  split at h
  · cases h
    exact ⟨hkeeps, hch⟩
  · have hused' := hused
    rw [← hkeeps.fat] at hused'
    obtain ⟨hkeeps', _, hchain'⟩ := allocatePass_frame n
      (fs.mLastFreeCluster - reservedClusterCount) reservedClusterCount hused' hprev hch
    split at h
    · cases h
      exact ⟨hkeeps.trans hkeeps', hchain'⟩
    · cases h

include hbs hk in
lemma writeOne_slotFrom_eq_ok {slot : Slot} (h : fs.writeOne en (slotFrom d k) = .ok (fs', slot)) :
    fs' = putSlot fs d k en ∧ slot = slotFrom d (k + 1) ∧ reservedClusterCount ≤ d := by
  rw [writeOne, nextEntry_slotFrom hbs hk, ok_bind] at h
  obtain ⟨b, hb, h⟩ := of_bind h
  obtain ⟨fs1, hwrite, h⟩ := of_bind h
  cases h
  rw [pureClusterValue] at hb
  obtain ⟨_, has, hb⟩ := of_bind hb
  cases hb
  rw [lockedWrite] at hwrite
  obtain ⟨_, _, hwrite⟩ := of_bind hwrite
  exact ⟨(Except.ok.inj hwrite).symm, rfl, of_decide_eq_true (assert_eq_ok.mp has)⟩

include hbs in
lemma writeAll_writes {es : List (List UInt8)} {slot : Slot} (hk : k + es.length ≤ fs.slotsPerCluster) (hne : es ≠ [])
    (h : fs.writeAll (slotFrom d k) es = .ok (fs', slot)) : Writes fs fs' [d] ∧ reservedClusterCount ≤ d := by
  induction es generalizing fs k with
  | nil => exact absurd rfl hne
  | cons en es ih =>
    rw [length_cons] at hk
    rw [writeAll] at h
    obtain ⟨⟨fs1, slot1⟩, hone, h⟩ := of_bind h
    obtain ⟨rfl, rfl, hd⟩ := writeOne_slotFrom_eq_ok hbs (by omega) hone
    refine ⟨?_, hd⟩
    cases es with
    | nil =>
      cases h
      exact writes_putSlot fs mem_cons_self k en
    | cons next es =>
      have hroom : k + 1 + (next :: es).length ≤ (putSlot fs d k en).slotsPerCluster := by
        show _ ≤ fs.slotsPerCluster
        omega
      have hrest : (putSlot fs d k en).writeAll (slotFrom d (k + 1)) (next :: es) = .ok (fs', slot) := h
      have hbytes' : (putSlot fs d k en).mBytesPerCluster =
          (putSlot fs d k en).slotsPerCluster * directoryEntrySize := hbs
      exact (writes_putSlot fs mem_cons_self k en).trans (ih hbytes' hroom (cons_ne_nil _ _) hrest).1

include hlaid hsize in
lemma newFirstCluster_keeps {new : NewFile} {f : File} {lowercaseName lowercaseExtension : Bool} {firstCluster : Nat}
    (h : fs.newFirstCluster new f lowercaseName lowercaseExtension = .ok (fs', firstCluster)) : Keeps fs fs' c := by
  have hc : reservedClusterCount ≤ c := ((entryType_eq_link_iff _).mp hlaid.chain.1).1
  have hused : fs.mFatCache c ≠ freeCluster := by
    intro hfree
    have hend : entryTypeOfFatValue (fs.mFatCache c) = .endOfChain := hlaid.chain.2
    rw [hfree] at hend
    exact absurd hend (by decide)
  rw [newFirstCluster] at h
  split at h
  · obtain ⟨⟨fs1, ch⟩, hallocate, h⟩ := of_bind h
    obtain ⟨first, hlast, h⟩ := of_bind h
    obtain ⟨fs2, hdots, h⟩ := of_bind h
    obtain ⟨rfl, rfl⟩ := Prod.mk.inj (Except.ok.inj h)
    obtain ⟨hkeeps, hnotMem⟩ := allocateClusterChain_frame hused
      (by unfold reservedClusterCount at hc; unfold freeCluster; omega) hallocate
    have hne : c ≠ first := by
      rintro rfl
      rw [chainLast] at hlast
      split at hlast
      · rename_i last hget
        obtain rfl := Except.ok.inj hlast
        exact hnotMem (mem_of_getLast? hget)
      · cases hlast
    rw [generateDotAndDotDot] at hdots
    obtain ⟨⟨fs3, slot⟩, hwrite, hdots⟩ := of_bind hdots
    obtain rfl := Except.ok.inj hdots
    have hlaid1 := laid_congr hkeeps.bytes hkeeps.fat hlaid
    obtain ⟨hwr, hfirst⟩ := writeAll_writes (k := 0) hlaid1.bytes (by
        rw [slotsPerCluster_congr hkeeps.bytes]
        simp only [length_cons, length_nil]
        omega) (cons_ne_nil _ _) hwrite
    exact hkeeps.trans (hwr.keeps hc hfirst hne)
  · obtain ⟨rfl, rfl⟩ := Prod.mk.inj (Except.ok.inj h)
    exact ⟨rfl, rfl, rfl⟩

end

section

/-- Slots are written over a run of free ones that has no free slot in front of it. -/
structure Inserted (fs fs' : FAT32) (c : Nat) (slots : List (List UInt8))
    (front run rest : List (List UInt8)) : Prop where
  before : allSlots fs [c] = front ++ run ++ rest
  length : run.length = slots.length
  whole : WholeRun fs c slots.length front.length
  after : allSlots fs' [c] = front ++ slots ++ rest
  bytes : fs'.mBytesPerCluster = fs.mBytesPerCluster
  fat : fs'.mFatCache c = fs.mFatCache c

variable {f : File} {new : NewFile} {name : List UInt8}

lemma exists_cut {start : Nat} (h : start + n ≤ fs.slotsPerCluster) :
    ∃ xs run ts, allSlots fs [c] = xs ++ run ++ ts ∧ xs.length = start ∧ run.length = n := by
  have hlen : (allSlots fs [c]).length = fs.slotsPerCluster := by rw [allSlots_singleton, length_map, length_range]
  refine ⟨(allSlots fs [c]).take start, ((allSlots fs [c]).drop start).take n,
    ((allSlots fs [c]).drop start).drop n, ?_, ?_, ?_⟩
  · rw [append_assoc, take_append_drop, take_append_drop]
  · rw [length_take]
    omega
  · rw [length_take, length_drop]
    omega

variable (hfile : DirectoryFile fs f [c])

include hfile in
lemma DirectoryFile.allocateEntries_eq_ok {slot : Slot} (hn : 1 ≤ n) (h : fs.allocateEntries f n = .ok (fs', slot)) :
    ∃ start, WholeRun fs c n start ∧ fs = fs' ∧ slot = slotFrom c start := by
  have hfirst : c = f.mFirstCluster := Option.some.inj hfile.first
  rw [hfirst]
  rcases hfile.allocateEntries hn with ⟨start, hrun, hok⟩ | ⟨-, hfail⟩
  · cases h.symm.trans hok
    exact ⟨start, hrun, rfl, rfl⟩
  · exact absurd h (hfail _)

include hlaid hsize hfile in
lemma createShort_inserted (hname : (nameView name).length ≤ shortNameLength)
    (hext : (extensionView name).length ≤ shortExtensionLength) (h : fs.createShort new f name = .ok fs') :
    ∃ firstCluster xs run ts, Inserted fs fs' c [shortEntry name new.isDirectory firstCluster new.time] xs run ts := by
  rw [createShort] at h
  obtain ⟨⟨fs1, slot⟩, hallocate, h⟩ := of_bind h
  obtain ⟨⟨fs2, firstCluster⟩, hnew, h⟩ := of_bind h
  obtain ⟨⟨fs3, slot'⟩, hwrite, h⟩ := of_bind h
  cases h
  obtain ⟨start, hrun, rfl, rfl⟩ := hfile.allocateEntries_eq_ok le_rfl hallocate
  have hkeeps := newFirstCluster_keeps hlaid hsize hnew
  obtain ⟨xs, run, ts, hslots, rfl, hlen⟩ := exists_cut (c := c) hrun.1.1
  have hslots2 : allSlots fs2 [c] = xs ++ run ++ ts := hkeeps.allSlots_eq.trans hslots
  obtain ⟨fs4, hwrite4, ⟨data, rfl, -⟩, hall⟩ := writeAll_slotFrom
    [shortEntry name new.isDirectory firstCluster new.time]
    (laid_congr hkeeps.bytes hkeeps.fat hlaid) hslots2 hlen (by
      intro en hmem
      rw [mem_singleton.mp hmem]
      exact length_normalEntry hname hext)
  cases hwrite.symm.trans hwrite4
  exact ⟨firstCluster, xs, run, ts, hslots, hlen, hrun, hall, hkeeps.bytes, hkeeps.fat⟩

def longShortEntry (shortName : List UInt8) (isDirectory : Bool) (firstCluster : Nat)
    (time : HumanReadable) : List UInt8 :=
  normalEntry (shortName.take shortNameLength)
    ((shortName.drop shortNameLength).take shortExtensionLength) false false isDirectory
    firstCluster time

include hlaid hsize hfile in
lemma createLong_inserted {shortName : List UInt8} (h : fs.createLong new f name shortName = .ok fs') :
    ∃ firstCluster xs run ts, Inserted fs fs' c (longEntries name (generateShortNameChecksum shortName) ++
        [longShortEntry shortName new.isDirectory firstCluster new.time]) xs run ts := by
  rw [createLong] at h
  generalize hes : longEntries name (generateShortNameChecksum shortName) = es at h
  obtain ⟨⟨fs1, slot⟩, hallocate, h⟩ := of_bind h
  obtain ⟨⟨fs2, slot2⟩, hwrite, h⟩ := of_bind h
  obtain ⟨⟨fs3, firstCluster⟩, hnew, h⟩ := of_bind h
  obtain ⟨⟨fs4, slot4⟩, hwrite', h⟩ := of_bind h
  cases h
  obtain ⟨start, hrun, rfl, rfl⟩ := hfile.allocateEntries_eq_ok (Nat.le_add_left 1 _) hallocate
  obtain ⟨xs, run, ts, hslots, rfl, hlen⟩ := exists_cut (c := c) hrun.1.1
  -- the last slot of the run is written after the others
  obtain ⟨others, last, rfl⟩ : ∃ others last, run = others ++ [last] := by
    refine ⟨run.dropLast, run.getLast ?_, (dropLast_append_getLast _).symm⟩
    apply ne_nil_of_length_pos
    omega
  rw [length_append, length_singleton] at hlen
  have hsplit : allSlots fs [c] = xs ++ others ++ (last :: ts) := by
    rw [hslots]
    simp
  obtain ⟨fs5, hwrite5, hwr, hall⟩ := writeAll_slotFrom es hlaid hsplit (Nat.succ.inj hlen) (by
      intro en hmem
      rw [← hes] at hmem
      obtain ⟨i, -, rfl⟩ := mem_longEntries.mp hmem
      exact length_longEntry _ _ _)
  cases hwrite.symm.trans hwrite5
  have hlaid2 := hwr.laid hlaid
  obtain ⟨data, rfl, -⟩ := hwr
  have hkeeps := newFirstCluster_keeps hlaid2 hsize hnew
  have hall3 : allSlots fs3 [c] = (xs ++ es) ++ [last] ++ ts := by
    rw [hkeeps.allSlots_eq, hall]
    simp
  rw [← length_append] at hwrite'
  obtain ⟨fs6, hwrite6, ⟨data', rfl, -⟩, hall6⟩ := writeAll_slotFrom
    [longShortEntry shortName new.isDirectory firstCluster new.time]
    (laid_congr hkeeps.bytes hkeeps.fat hlaid2) hall3 rfl (by
      intro en hmem
      rw [mem_singleton.mp hmem]
      exact length_normalEntry (length_take_le _ _) (length_take_le _ _))
  cases hwrite'.symm.trans hwrite6
  refine ⟨firstCluster, xs, others ++ [last], ts, hslots, ?_, ?_, ?_, hkeeps.bytes, hkeeps.fat⟩
  · rwa [length_append, length_append, length_singleton, length_singleton]
  · rwa [length_append, length_singleton]
  · rw [hall6]
    simp

end

def IsFree (slot : List UInt8) : Prop := isFreeMark (slot.getD 0 0) = true

variable {rs : List Record} {r : Record} {slot : List UInt8} {xs run ts tail : List (List UInt8)}

lemma not_isFree_of_isUsed (h : isUsed slot = true) : ¬ IsFree slot := by
  simp only [isUsed, Bool.and_eq_true, Bool.not_eq_true'] at h
  rw [IsFree, isFreeMark]
  have hdeleted : (slot.getD 0 0 == deletedMark) = false := h.1.1
  have hend : (slot.getD 0 0 == endOfDirectoryMark) = false := h.1.2
  rw [hdeleted, hend]
  exact Bool.false_ne_true

variable (h : WholeRun fs c n xs.length)

lemma Record.isSkipped_of_isFree (hmem : slot ∈ r.slots) (hfree : IsFree slot) : r.isSkipped = true := by
  cases r with
  | skipped slot h => rfl
  | short u h =>
    obtain rfl := mem_singleton.mp hmem
    simp only [isShort, Bool.and_eq_true] at h
    exact absurd hfree (not_isFree_of_isUsed h.1.1)
  | long name =>
    rcases mem_append.mp hmem with hpiece | hslot
    · have hused := name.isPiece slot hpiece
      simp only [isPiece, Bool.and_eq_true] at hused
      exact absurd hfree (not_isFree_of_isUsed hused.1)
    · obtain rfl := mem_singleton.mp hslot
      have hused := name.isShort
      simp only [isShort, Bool.and_eq_true] at hused
      exact absurd hfree (not_isFree_of_isUsed hused.1.1)

lemma Record.length_slots_of_isSkipped (h : r.isSkipped = true) : r.slots.length = 1 := by
  cases r with
  | skipped slot hslot => rfl
  | short slot hslot | long name => cases h

lemma exists_boundary (hslots : rs.flatMap Record.slots ++ tail = xs ++ slot :: ts) (hfree : IsFree slot)
    (hlt : xs.length < slotCount rs) : ∃ pre post, rs = pre ++ post ∧ pre.flatMap Record.slots = xs := by
  induction rs generalizing xs with
  | nil => exact absurd hlt (not_lt_zero)
  | cons r rs ih =>
    rw [flatMap_cons, append_assoc] at hslots
    by_cases hbeh : r.slots.length ≤ xs.length
    · have htake : r.slots = xs.take r.slots.length := by
        have htake := congrArg (take r.slots.length) hslots
        rwa [take_left, take_append_of_le_length hbeh] at htake
      obtain ⟨ys, rfl⟩ : ∃ ys, xs = r.slots ++ ys := by
        refine ⟨xs.drop r.slots.length, ?_⟩
        exact (take_append_drop r.slots.length xs).symm.trans (congrArg (· ++ xs.drop r.slots.length) htake.symm)
      rw [append_assoc] at hslots
      rw [slotCount_cons, length_append] at hlt
      obtain ⟨pre, post, rfl, rfl⟩ := ih (append_cancel_left hslots) (by omega)
      exact ⟨r :: pre, post, rfl, flatMap_cons⟩
    · have hget := congrArg (·[xs.length]?) hslots
      simp only [getElem?_append_left (not_le.mp hbeh), getElem?_append_right (le_refl xs.length), Nat.sub_self,
        getElem?_cons_zero] at hget
      have hone := Record.length_slots_of_isSkipped (Record.isSkipped_of_isFree (mem_of_getElem? hget) hfree)
      obtain rfl : xs = [] := eq_nil_of_length_eq_zero (by omega)
      exact ⟨[], r :: rs, rfl, rfl⟩

lemma exists_run (hslots : rs.flatMap Record.slots ++ tail = run ++ ts) (hfree : ∀ slot ∈ run, IsFree slot) :
    ∃ mid post taken left, rs = mid ++ post ∧ (∀ skip ∈ mid, skip.isSkipped = true) ∧ tail = taken ++ left ∧ ts =
    post.flatMap Record.slots ++ left ∧ run = mid.flatMap Record.slots ++ taken ∧ (post = [] ∨ taken = []) := by
  induction rs generalizing run with
  | nil => exact ⟨[], [], run, ts, rfl, fun _ h => absurd h not_mem_nil, hslots, rfl, rfl, Or.inl rfl⟩
  | cons r rs ih =>
    cases run with
    | nil => exact ⟨[], r :: rs, [], tail, rfl, fun _ h => absurd h not_mem_nil, rfl, hslots.symm, rfl, Or.inr rfl⟩
    | cons slot run =>
      have hmem : slot ∈ r.slots := by
        have hpos := r.slots_length_pos
        have hget := congrArg (·[0]?) hslots
        rw [flatMap_cons, append_assoc] at hget
        simp only [getElem?_append_left hpos, cons_append, getElem?_cons_zero] at hget
        exact mem_of_getElem? hget
      have hskipped := Record.isSkipped_of_isFree hmem (hfree slot mem_cons_self)
      obtain ⟨only, honly⟩ := length_eq_one_iff.mp (Record.length_slots_of_isSkipped hskipped)
      rw [honly] at hmem
      obtain rfl := mem_singleton.mp hmem
      rw [flatMap_cons, honly, append_assoc] at hslots
      obtain ⟨mid, post, taken, left, rfl, hmid, rfl, rfl, rfl, hone⟩ :=
        ih (cons.inj hslots).2 fun s hs => hfree s (mem_cons_of_mem _ hs)
      refine ⟨r :: mid, post, taken, left, rfl, ?_, rfl, rfl, ?_, hone⟩
      · intro skip hskip
        rcases mem_cons.mp hskip with rfl | hskip
        · exact hskipped
        · exact hmid skip hskip
      · rw [flatMap_cons, honly]
        rfl

lemma exists_skips_of_isFree {slots : List (List UInt8)} (hfree : ∀ slot ∈ slots, IsFree slot) :
    ∃ (skips : List Record) (tail : List (List UInt8)), slots = skips.flatMap Record.slots ++ tail ∧
    (∀ skip ∈ skips, skip.isSkipped = true) ∧ Ended tail := by
  induction slots with
  | nil => exact ⟨[], [], rfl, fun _ h => absurd h not_mem_nil, trivial⟩
  | cons slot slots ih =>
    by_cases hend : isEndOfDirectory slot = true
    · exact ⟨[], slot :: slots, rfl, fun _ h => absurd h not_mem_nil, hend⟩
    · have hdeleted : isDeleted slot = true := by
        have hslot := hfree slot mem_cons_self
        rw [IsFree, isFreeMark, Bool.or_eq_true] at hslot
        exact hslot.resolve_left hend
      have hskipped : isSkipped slot = true := by
        rw [isSkipped, hdeleted]
        rfl
      obtain ⟨skips, tail, rfl, hskips, hended⟩ := ih fun s hs => hfree s (mem_cons_of_mem _ hs)
      refine ⟨.skipped slot hskipped :: skips, tail, rfl, ?_, hended⟩
      intro skip hskip
      rcases mem_cons.mp hskip with rfl | hskip
      · rfl
      · exact hskips skip hskip

lemma slotFree_iff : SlotFree fs c k ↔ IsFree (slotBytes fs c k) := by
  have hfirst : (slotBytes fs c k).getD 0 0 = fs.mDataCache (c - reservedClusterCount) (k * directoryEntrySize) := rfl
  rw [SlotFree, IsFree, hfirst]

lemma isFree_iff (hslots : allSlots fs [c] = xs ++ slot :: ts) : IsFree slot ↔ SlotFree fs c xs.length := by
  have hget := congrArg (·[xs.length]?) hslots
  have hlt : xs.length < fs.slotsPerCluster := by
    have hlen := congrArg length hslots
    rw [allSlots_singleton] at hlen
    simp only [length_map, length_range, length_append, length_cons] at hlen
    omega
  simp only [allSlots_singleton, getElem?_map, getElem?_range hlt,
    getElem?_append_right (le_refl xs.length), Nat.sub_self,
    getElem?_cons_zero, Option.map_some, Option.some.injEq] at hget
  rw [slotFree_iff, hget]

include h in
lemma WholeRun.isFree (hslots : allSlots fs [c] = xs ++ run ++ ts)
    (hlen : run.length = n) : ∀ slot ∈ run, IsFree slot := by
  intro slot hmem
  obtain ⟨before, behind, rfl⟩ := append_of_mem hmem
  have hcut : allSlots fs [c] = (xs ++ before) ++ slot :: (behind ++ ts) := by
    rw [hslots]
    simp
  rw [isFree_iff hcut, length_append]
  apply h.1.2
  rw [length_append, length_cons] at hlen
  omega

include h in
lemma WholeRun.length_le (hall : allSlots fs [c] = xs ++ ts)
    (hslots : allSlots fs [c] = rs.flatMap Record.slots ++ tail)
    (htail : ∀ slot ∈ tail, IsFree slot) : xs.length ≤ slotCount rs := by
  by_contra hlt
  rcases h.2 with hzero | hused
  · omega
  · -- the slot in front of the run would be one of the tail
    obtain ⟨before, last, hfront⟩ : ∃ before last, xs = before ++ [last] := by
      refine ⟨xs.dropLast, xs.getLast ?_, (dropLast_append_getLast _).symm⟩
      apply ne_nil_of_length_pos
      omega
    have hlen : xs.length = before.length + 1 := by rw [hfront, length_append, length_singleton]
    have hcut : allSlots fs [c] = before ++ last :: ts := by
      rw [hall, hfront, append_assoc]
      rfl
    apply hused
    rw [hlen, Nat.add_sub_cancel, ← isFree_iff hcut]
    apply htail
    have hget := congrArg (·[before.length]?) (hcut.symm.trans hslots)
    have hbeh : (rs.flatMap Record.slots).length ≤ before.length := by
      unfold slotCount at hlt
      omega
    simp only [getElem?_append_right (le_refl before.length), Nat.sub_self,
      getElem?_cons_zero, getElem?_append_right hbeh] at hget
    exact mem_of_getElem? hget.symm

lemma Inserted.holds (hins : Inserted fs fs' c r.slots xs run ts) (h : Holds fs [c] rs tail)
    (htail : ∀ slot ∈ tail, IsFree slot) : ∃ pre post tail', Holds fs' [c] (pre ++ r :: post) tail' ∧ entriesFrom fs [c]
    0 rs = entriesFrom fs [c] 0 pre ++ entriesFrom fs [c] (slotCount pre + r.slots.length) post := by
  have hpos := r.slots_length_pos
  have hfreeRun := hins.whole.isFree hins.before hins.length
  have hslots : rs.flatMap Record.slots ++ tail = xs ++ (run ++ ts) := by rw [← h.slots, hins.before, append_assoc]
  have hle := hins.whole.length_le (hslots ▸ h.slots) h.slots htail
  obtain ⟨pre, ys, hrs, hpre⟩ : ∃ pre ys, rs = pre ++ ys ∧ pre.flatMap Record.slots = xs := by
    by_cases hlt : xs.length < slotCount rs
    · obtain ⟨slot, run', rfl⟩ := exists_cons_of_length_pos (by rw [hins.length]; exact hpos)
      exact exists_boundary hslots (hfreeRun slot mem_cons_self) hlt
    · refine ⟨rs, [], (append_nil _).symm, ?_⟩
      have htake := congrArg (take xs.length) hslots
      have hsame : (rs.flatMap Record.slots).length = xs.length := by
        unfold slotCount at hlt hle
        omega
      rwa [take_left, take_left' hsame] at htake
  subst hrs
  rw [flatMap_append, hpre, append_assoc] at hslots
  obtain ⟨mid, post, taken, left, rfl, hmid, rfl, rfl, hrun, hone⟩ := exists_run (append_cancel_left hslots) hfreeRun
  have hmidLength : slotCount mid + taken.length = r.slots.length := by
    rw [← hins.length, hrun, length_append, slotCount]
  have hleft : ∀ slot ∈ left, IsFree slot := fun slot hmem => htail slot (mem_append_right _ hmem)
  -- what is left of the tail begins with skipped slots
  obtain ⟨skips, tail', hleftSlots, hskips, hended⟩ : ∃ (skips : List Record)
      (tail' : List (List UInt8)), left = skips.flatMap Record.slots ++ tail' ∧
        (∀ skip ∈ skips, skip.isSkipped = true) ∧ Ended tail' :=
    exists_skips_of_isFree hleft
  refine ⟨pre, post ++ skips, tail', ?_, ?_⟩
  · refine ⟨laid_congr hins.bytes hins.fat h.laid, ?_, ?_, hended⟩
    · rw [slotsPerCluster_congr hins.bytes]
      exact h.size
    · rw [hins.after, hleftSlots, ← hpre]
      simp
  · rw [entriesFrom_append, entriesFrom_append, entriesFrom_skips hmid, entriesFrom_append,
      entriesFrom_skips hskips, append_nil, nil_append, zero_add]
    congr 1
    rcases hone with rfl | rfl
    · rfl
    · rw [← hmidLength, length_nil, add_zero]

end UltraOS.FAT32
