import UltraOS.FileSystem.FAT32.Directory.RoundTrip
import UltraOS.FileSystem.FAT32.Files.References

/-!
# Places in a directory tree

Where a path leads, without open files: from the root directory by one entry after the other. The
steps that the walks have in common are compared with it here.
-/

namespace UltraOS

open List

namespace FAT32

variable {fs : FAT32} {dir dir' : Directory} {entry : NativeEntry} {entries es : List NativeEntry} {c : Nat}

section

lemma pureClusterValue_eq_ok {v b : Nat} (h : pureClusterValue v = .ok b) : reservedClusterCount ≤ v := by
  obtain ⟨_, h, _⟩ := of_bind h
  simpa using assert_eq_ok.mp h

variable {bs : List UInt8}

lemma fetchNext_cluster (h : fs.fetchNext dir = .ok (some bs, dir')) : reservedClusterCount ≤ dir'.mCurrentCluster := by
  rw [fetchNext] at h
  by_cases hexhausted : dir.mExhausted = true
  · rw [if_pos hexhausted] at h
    cases h
  · rw [if_neg hexhausted] at h
    obtain ⟨next, -, h⟩ := of_bind h
    cases next with
    | none => cases h
    | some next =>
      obtain ⟨b, hb, h⟩ := of_bind h
      obtain ⟨read, -, h⟩ := of_bind h
      cases h
      exact pureClusterValue_eq_ok hb

lemma fetchInside_cluster (h : fs.fetchInside dir = .ok (bs, dir')) : reservedClusterCount ≤ dir'.mCurrentCluster := by
  rw [fetchInside] at h
  obtain ⟨⟨slot, next⟩, hfetch, h⟩ := of_bind h
  cases slot with
  | none => cases h
  | some slot =>
    cases h
    exact fetchNext_cluster hfetch

lemma longNameLoop_cluster {sequenceNumber : Nat} {s state' : LongNameState}
    (h : fs.longNameLoop sequenceNumber s = .ok state') : reservedClusterCount ≤ state'.dir.mCurrentCluster := by
  induction sequenceNumber generalizing s with
  | zero => cases h
  | succ sequenceNumber ih =>
    rw [longNameLoop] at h
    obtain ⟨recorded, -, h⟩ := of_bind h
    obtain ⟨⟨slot, next⟩, hfetch, h⟩ := of_bind h
    dsimp only at h
    by_cases hlast : sequenceNumber = 0
    · rw [if_pos hlast] at h
      cases h
      exact fetchInside_cluster hfetch
    · rw [if_neg hlast] at h
      exact ih h

variable {out : NativeEntry} {offsets : List Nat}

lemma nextLongName_cluster {slot : List UInt8} (h : fs.nextLongName dir slot out = .ok (entry, dir', offsets)) :
    reservedClusterCount ≤ entry.metadataEntryCluster := by
  rw [nextLongName] at h
  obtain ⟨_, -, h⟩ := of_bind h
  obtain ⟨_, -, h⟩ := of_bind h
  obtain ⟨s, hloop, h⟩ := of_bind h
  obtain ⟨_, -, h⟩ := of_bind h
  cases h
  exact longNameLoop_cluster hloop

variable {n : Nat}

lemma nextNativeLoop_cluster (h : fs.nextNativeLoop n dir out = .ok (entry, dir', offsets))
    (hempty : out.isEmpty = true) (he : entry.isEmpty = false) : reservedClusterCount ≤ entry.metadataEntryCluster := by
  induction n generalizing dir out with
  | zero => cases h
  | succ n ih =>
    rw [nextNativeLoop] at h
    obtain ⟨⟨slot, next⟩, hfetch, h⟩ := of_bind h
    cases slot with
    | none =>
      cases h
      exact absurd hempty (by rw [he]; decide)
    | some slot =>
      dsimp only at h
      split at h
      · exact ih h hempty
      · split at h
        · cases h
          exact absurd hempty (by rw [he]; decide)
        · split at h
          · exact ih h hempty
          · split at h
            · exact nextLongName_cluster h
            · split at h
              · exact ih h hempty
              · cases h
                exact fetchNext_cluster hfetch

lemma nextNative_cluster (h : fs.nextNative dir = .ok (entry, dir')) (he : entry.isEmpty = false)
    : reservedClusterCount ≤ entry.metadataEntryCluster := by
  rw [nextNative] at h
  obtain ⟨⟨res, next, offsets⟩, hstores, h⟩ := of_bind h
  cases h
  rw [nextNativeStores] at hstores
  split at hstores
  · cases hstores
    cases he
  · exact nextNativeLoop_cluster hstores rfl he

lemma listLoop_cluster (h : fs.listLoop n dir = .ok es) (he : entry ∈ es) :
    reservedClusterCount ≤ entry.metadataEntryCluster := by
  induction n generalizing dir es with
  | zero => cases h
  | succ n ih =>
    rw [listLoop] at h
    obtain ⟨⟨first, next⟩, hnext, h⟩ := of_bind h
    dsimp only at h
    cases hempty : first.isEmpty with
    | true =>
      rw [hempty, if_pos rfl] at h
      cases h
      cases he
    | false =>
      rw [hempty, if_neg (by decide)] at h
      obtain ⟨ts, hrest, h⟩ := of_bind h
      cases h
      rcases mem_cons.mp he with rfl | he
      · exact nextNative_cluster hnext hempty
      · exact ih hrest he

lemma listing_identifier (h : fs.listing c = .ok es) (he : entry ∈ es) : entry.identifier ≠ Walk.rootIdentifier := by
  have hc : reservedClusterCount ≤ entry.metadataEntryCluster := listLoop_cluster h he
  intro heq
  have hzero : entry.metadataEntryCluster = 0 := congrArg Identifier.fileDirectoryEntryCluster heq
  rw [hzero] at hc
  exact absurd hc (by decide)

end

namespace Walk

/-- Where a walk is: in the root directory, or at the file or directory of an entry. -/
inductive Place where
  | root
  | entry (entry : NativeEntry)
deriving DecidableEq

namespace Place

def isDirectory : Place → Bool
  | .root => true
  | .entry entry => entry.isDirectory

def firstCluster (rootDirCluster : Nat) : Place → Nat
  | .root => rootDirCluster
  | .entry entry => firstClusterOf rootDirCluster entry

def identifier : Place → Identifier
  | .root => rootIdentifier
  | .entry entry => entry.identifier

end Place

abbrev Comparison : Type := List UInt8 → List UInt8 → Bool

abbrev exactly : Comparison := fun name node => name == node

/-- The place that a node names. The node `.` names the place itself. -/
def child (fs : FAT32) (rootDirCluster : Nat) (compare : Comparison) (place : Place) (node : List UInt8)
    : Option Place :=
  if node = dot then some place
  else if place.isDirectory then
    match fs.listing (place.firstCluster rootDirCluster) with
    | .ok entries => (entries.find? fun entry => compare entry.name node).map .entry
    | .error _ => none
  else none

def placeFrom (fs : FAT32) (rootDirCluster : Nat) (compare : Comparison) (place : Place)
    (nodes : List (List UInt8)) : Option Place :=
  nodes.foldlM (child fs rootDirCluster compare) place

/-- The first clusters of the directories of a tree. -/
inductive Reaches (fs : FAT32) (rootDirCluster : Nat) : Nat → Prop
  | root : Reaches fs rootDirCluster rootDirCluster
  | child {c : Nat} {entries : List NativeEntry} {entry : NativeEntry} :
      Reaches fs rootDirCluster c → fs.listing c = .ok entries → entry ∈ entries →
      entry.isDirectory = true → Reaches fs rootDirCluster (firstClusterOf rootDirCluster entry)

def Listed (fs : FAT32) (rootDirCluster : Nat) (entry : NativeEntry) : Prop :=
  ∃ c entries, Reaches fs rootDirCluster c ∧ fs.listing c = .ok entries ∧ entry ∈ entries

/-- Every directory can be read, and no two entries are at one location. -/
structure Tree (fs : FAT32) (rootDirCluster : Nat) : Prop where
  listing_ok : ∀ c, Reaches fs rootDirCluster c → ∃ entries, fs.listing c = .ok entries
  unique : ∀ entry entry', Listed fs rootDirCluster entry → Listed fs rootDirCluster entry' →
    entry.identifier = entry'.identifier → entry = entry'

/-- An open object is what its entry says. The size and the first cluster of a file may have changed
since it was opened. -/
def Agrees (fs : FAT32) (rootDirCluster : Nat) (object : FileObject) : Prop :=
  (∀ entry, Listed fs rootDirCluster entry → entry.identifier = object.file.mIdentifier →
    object.isDirectory = entry.isDirectory ∧ (entry.isDirectory = true →
        object.file.mFirstCluster = firstClusterOf rootDirCluster entry)) ∧
  (object.file.mIdentifier = rootIdentifier → object.isDirectory = true ∧ object.file.mFirstCluster = rootDirCluster)

def IsIn (fs : FAT32) (rootDirCluster : Nat) : Place → Prop
  | .root => True
  | .entry entry => Listed fs rootDirCluster entry

/-- A mounted volume between two calls: its directories are a tree, its open files agree with it, and
no mutex is held. -/
structure Mounted (m : Mount) : Prop where
  tree : Tree m.fs m.rootDirCluster
  consistent : Consistent (Agrees m.fs m.rootDirCluster) m
  held_eq : m.held = []
  unlockedUnheld : m.unlockedUnheld = false
  closedHeld : m.closedHeld = false

variable {m m0 : Mount} {held : List Nat} {owned : List Reference} {r : Reference} {p : Place} {rootDirCluster : Nat}

def IsAt (m0 : Mount) (r : Reference) (place : Place) : Prop :=
  IsIn m0.fs m0.rootDirCluster place ∧ r.identifier = place.identifier

abbrev Walks (m0 : Mount) (held : List Nat) (owned : List Reference) (m : Mount) : Prop :=
  Walking (Agrees m0.fs m0.rootDirCluster) m0 held owned m

lemma Mounted.walks (h : Mounted m) : Walks m [] [] m where
  held_eq := h.held_eq
  fs_eq := rfl
  rootDirCluster_eq := rfl
  mRootDirectory_eq := rfl
  unlockedUnheld := h.unlockedUnheld
  closedHeld := h.closedHeld
  consistent := h.consistent
  isOpen r hr := absurd hr not_mem_nil
  refs_eq i := by simp [credit]

lemma Listed.identifier_ne (h : Listed fs rootDirCluster entry) : entry.identifier ≠ rootIdentifier := by
  obtain ⟨c, es, -, hlist, he⟩ := h
  exact listing_identifier hlist he

lemma IsAt.agrees (hat : IsAt m0 r p) (h : Walks m0 held (r :: owned) m) : r.2.isDirectory =
    p.isDirectory ∧ (p.isDirectory = true → r.2.file.mFirstCluster = p.firstCluster m0.rootDirCluster) := by
  have h := h.consistent.good h.head_isOpen
  obtain ⟨hin, hid⟩ := hat
  cases p with
  | root =>
    obtain ⟨hdir, hc⟩ := h.2 hid
    exact ⟨hdir, fun _ => hc⟩
  | entry entry => exact h.1 entry hin hid.symm

lemma Tree.agrees (h : Tree fs rootDirCluster) (he : Listed fs rootDirCluster entry) :
    Agrees fs rootDirCluster (objectOf rootDirCluster entry) := by
  refine ⟨?_, fun hroot => absurd hroot he.identifier_ne⟩
  intro u hu hid
  rw [h.unique u entry hu he hid]
  exact ⟨rfl, fun _ => rfl⟩

lemma IsIn.reaches (h : IsIn fs rootDirCluster p) (hdir : p.isDirectory = true) :
    Reaches fs rootDirCluster (p.firstCluster rootDirCluster) := by
  cases p with
  | root => exact .root
  | entry entry =>
    obtain ⟨c, es, hreaches, hlist, he⟩ := h
    exact .child hreaches hlist he hdir

lemma Tree.mounted (h : Tree fs rootDirCluster) : Mounted (mount fs rootDirCluster) where
  tree := h
  consistent := by
    apply consistent_mount
    exact ⟨fun entry he hid => absurd hid he.identifier_ne, fun _ => ⟨rfl, rfl⟩⟩
  held_eq := rfl
  unlockedUnheld := rfl
  closedHeld := rfl

section

variable {compare : Comparison} {node : List UInt8}

lemma child_of_ne_dot (hnode : node ≠ dot) (hdir : p.isDirectory = true)
    (hlist : fs.listing (p.firstCluster rootDirCluster) = .ok es) :
    child fs rootDirCluster compare p node = (es.find? fun entry => compare entry.name node).map .entry := by
  rw [child, if_neg hnode, if_pos hdir, hlist]

lemma Walking.openWanted (compare : Comparison) (hm : Mounted m0) (h : Walks m0 held owned m) {object : FileObject}
    (hin : IsIn m0.fs m0.rootDirCluster p) (hdir : p.isDirectory = true)
    (hc : object.file.mFirstCluster = p.firstCluster m0.rootDirCluster) (hnode : node ≠ dot) :
    (child m0.fs m0.rootDirCluster compare p node = none ∧
    Walk.openWanted object (fun entry => compare entry.name node) m = .ok none m) ∨ ∃ (entry : NativeEntry)
    (r : Reference) (m' : Mount), child m0.fs m0.rootDirCluster compare p node = some (.entry entry) ∧
    Walk.openWanted object (fun entry => compare entry.name node) m = .ok (some r.1) m' ∧ IsAt m0 r (.entry entry) ∧
    Walks m0 held (r :: owned) m' := by
  obtain ⟨es, hlist⟩ := hm.tree.listing_ok _ (hin.reaches hdir)
  have hfind : Walk.ofRun (fun fs => fs.findEntry object.file.mFirstCluster fun entry => compare entry.name node) m =
      .ok (es.find? fun entry => compare entry.name node) m := by
    rw [ofRun, h.fs_eq, hc, findEntry_eq hlist]
  rw [child_of_ne_dot hnode hdir hlist, Walk.openWanted, bind_of_ok hfind]
  cases he : es.find? fun entry => compare entry.name node with
  | none => exact .inl ⟨rfl, rfl⟩
  | some entry =>
    have hlisted : Listed m0.fs m0.rootDirCluster entry := ⟨_, es, hin.reaches hdir, hlist, mem_of_find?_eq_some he⟩
    obtain ⟨r, m', hopen, hid, h'⟩ := h.openOrIncref (hm.tree.agrees hlisted) hlisted.identifier_ne
    have hopen' : openEntry entry m = .ok r.1 m' := by rw [openEntry, h.rootDirCluster_eq, hopen]
    refine .inr ⟨entry, r, m', rfl, ?_, ⟨hlisted, hid⟩, h'⟩
    dsimp only
    rw [bind_of_ok hopen']
    rfl

/-- How the walk leaves the current file for the next one. A walk that keeps the mutex of the current
file gives it back first. -/
def leaveWith (locked : Bool) : Nat → Walk Unit := if locked then unlockAndClose else close

/-- The state of a walk between two nodes, at a place. Other references are open all the time. -/
inductive Pending (m0 : Mount) (others : List Reference) (locked : Bool) (m : Mount) :
    Nat → Option Nat → Place → Prop
  | start : Walks m0 [] others m → Pending m0 others locked m m.mRootDirectory none .root
  | next {cur r : Reference} {entry : NativeEntry} : Walks m0 (if locked then [cur.1] else []) (cur :: r :: others) m →
      IsAt m0 r (.entry entry) → Pending m0 others locked m cur.1 (some r.1) (.entry entry)

variable {others : List Reference} {locked : Bool} {curFile : Nat} {nextFile : Option Nat}

lemma Pending.enter (h : Pending m0 others locked m curFile nextFile p) : ∃ r m',
    Walk.enter (leaveWith locked) curFile nextFile m = .ok r.1 m' ∧ IsAt m0 r p ∧ Walks m0 [] (r :: others) m' := by
  cases h with
  | start h =>
    obtain ⟨object, hid, h'⟩ := h.root
    exact ⟨(m.mRootDirectory, object), m, rfl, ⟨trivial, hid⟩, h'⟩
  | @next cur r entry h hat =>
    have hleave : ∃ m', leaveWith locked cur.1 m = .ok () m' ∧ Walks m0 [] (r :: others) m' := by
      cases locked with
      | true => exact h.unlockAndClose
      | false => exact h.close not_mem_nil
    obtain ⟨m', hleave, h'⟩ := hleave
    refine ⟨r, m', ?_, hat, h'⟩
    rw [Walk.enter, bind_of_ok hleave]
    rfl

lemma Pending.arrive {β : Type} (h : Pending m0 others locked m curFile nextFile p) :
    ∃ (r : Reference) (m' : Mount), IsAt m0 r p ∧ Walks m0 [r.1] (r :: others) m' ∧ ∀ f : Nat → FileObject → Walk β, (do
          let curFile ← Walk.enter (leaveWith locked) curFile nextFile
          lock curFile
          let object ← objectAt curFile
          f curFile object) m = f r.1 r.2 m' := by
  obtain ⟨r, m1, henter, hat, h1⟩ := h.enter
  obtain ⟨m2, hlock, h2⟩ := h1.lock
  refine ⟨r, m2, hat, h2, fun f => ?_⟩
  rw [bind_of_ok henter, bind_of_ok hlock, bind_of_ok (objectAt_eq h2.head_isOpen)]

end

/-- Root directory with the directories `A` and `B` and the file `C`, on fewer clusters than a volume that mounts
has, which no theorem depends on. -/
def sampleVolume : FAT32 where
  mFatCache := fun i => if 2 ≤ i ∧ i ≤ 4 then 0x0FFFFFFF else 0
  mDataCache := fun block i =>
    let entry (name : List UInt8) (isDirectory : Bool) (firstCluster : Nat) : List UInt8 :=
      normalEntry name [] false false isDirectory firstCluster ⟨2021, 1, 1, 0, 0, 0⟩
    let slots := [[entry [0x41] true 3, entry [0x42] true 4, entry [0x43] false 0],
      [entry dot true 3, entry dotDot true 0], [entry dot true 4, entry dotDot true 0]]
    ((slots.getD block []).getD (i / directoryEntrySize) []).getD (i % directoryEntrySize) 0
  mLastFreeCluster := 5
  mFreeClusters := 3
  mClusterCount := 8
  mBytesPerCluster := 512
  mEndOfChain := 0x0FFFFFFF

def sampleEntries (c : Nat) : List NativeEntry := (sampleVolume.listing c).toOption.getD []

lemma sampleVolume_reaches (h : Reaches sampleVolume 2 c) :
    c ∈ [2, 3, 4] ∧ sampleVolume.listing c = .ok (sampleEntries c) := by
  have hlist : ∀ c ∈ [2, 3, 4], sampleVolume.listing c = .ok (sampleEntries c) := by
    simp only [mem_cons, not_mem_nil, or_false]
    rintro c (rfl | rfl | rfl) <;> rfl
  have hchildren : ∀ c ∈ [2, 3, 4], ∀ entry ∈ sampleEntries c, entry.isDirectory = true →
      firstClusterOf 2 entry ∈ [2, 3, 4] := by decide +kernel
  have hc : c ∈ [2, 3, 4] := by
    induction h with
    | root => decide
    | @child c es entry _ hes he hdir hc =>
      rw [hlist c hc] at hes
      cases hes
      exact hchildren c hc entry he hdir
  exact ⟨hc, hlist c hc⟩

lemma sampleVolume_listed (h : Listed sampleVolume 2 entry) :
    entry ∈ sampleEntries 2 ++ sampleEntries 3 ++ sampleEntries 4 := by
  obtain ⟨c, es, hreaches, hes, he⟩ := h
  obtain ⟨hc, hlist⟩ := sampleVolume_reaches hreaches
  rw [hlist] at hes
  cases hes
  simp only [mem_cons, not_mem_nil, or_false] at hc
  rcases hc with rfl | rfl | rfl <;> simp [he]

lemma tree_sampleVolume : Tree sampleVolume 2 where
  listing_ok c hc := ⟨_, (sampleVolume_reaches hc).2⟩
  unique := by
    have huniq : ∀ entry ∈ sampleEntries 2 ++ sampleEntries 3 ++ sampleEntries 4,
        ∀ entry' ∈ sampleEntries 2 ++ sampleEntries 3 ++ sampleEntries 4,
        entry.identifier = entry'.identifier → entry = entry' := by decide +kernel
    intro entry entry' h h'
    exact huniq entry (sampleVolume_listed h) entry' (sampleVolume_listed h')

end Walk

end FAT32

end UltraOS
