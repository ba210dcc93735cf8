import UltraOS.FileSystem.FAT32.Files.Balance
import UltraOS.Library.Machine

/-!
# Identity of open files

Calls of `open_file_from_path` and `close` on a volume that does not change. A file is known by the
location of its entry, and a directory by its first cluster. An object is known by the location of the
entry through which it was opened, and a directory has more than one.
-/

namespace UltraOS.FAT32

namespace Walk

open List

structure Handle where
  ptr : Nat
  path : List UInt8
deriving DecidableEq

structure Session where
  mount : Mount
  handles : List Handle := []

inductive Call where
  | openFile (path : List UInt8) (constraint : OnlyIf)
  | close (handle : Handle)

def Session.step (s : Session) : Call → Run Session
  | .openFile path constraint =>
    match openFileFromPath path constraint s.mount with
    | .ok (.ok ptr) m => .ok { mount := m, handles := ⟨ptr, path⟩ :: s.handles }
    | .ok (.error _) m => .ok { s with mount := m }
    | .error fault _ => .error fault
  | .close handle =>
    match Walk.close handle.ptr s.mount with
    | .ok () m => .ok { mount := m, handles := s.handles.erase handle }
    | .error fault _ => .error fault

def Session.admits (s : Session) : Call → Prop
  | .openFile _ _ => True
  | .close handle => handle ∈ s.handles

def sessions : Machine Session Call Fault where
  step := Session.step
  admits := Session.admits

instance (s : Session) (call : Call) : Decidable (sessions.admits s call) := by
  cases call <;> dsimp only [sessions, Session.admits] <;> infer_instance

/-- What makes two files or directories on the disk the same. -/
inductive OnDisk where
  | file (identifier : Identifier)
  | directory (firstCluster : Nat)
deriving DecidableEq

def Place.onDisk (rootDirCluster : Nat) (place : Place) : OnDisk :=
  if place.isDirectory then .directory (place.firstCluster rootDirCluster)
  else .file place.identifier

def resolve (fs : FAT32) (rootDirCluster : Nat) (path : List UInt8) : Option Place :=
  placeFrom fs rootDirCluster exactly .root (nodesOf path)

/-- Whatever is open has one object, in how many ways it may be opened. -/
def OneObject (fs : FAT32) (rootDirCluster : Nat) (s : Session) : Prop :=
  ∀ handle ∈ s.handles, ∀ handle' ∈ s.handles, ∀ place place', resolve fs rootDirCluster handle.path = some place →
    resolve fs rootDirCluster handle'.path = some place' →
    place.onDisk rootDirCluster = place'.onDisk rootDirCluster → handle.ptr = handle'.ptr

def ThroughSameEntry (fs : FAT32) (rootDirCluster : Nat) (s : Session) : Call → Prop
  | .openFile path constraint => ∀ entry, resolve fs rootDirCluster path = some (.entry entry) →
      OnlyIf.admits entry.isDirectory constraint = true →
      ∀ handle ∈ s.handles, ∀ place, resolve fs rootDirCluster handle.path = some place →
        place.onDisk rootDirCluster = (Place.entry entry).onDisk rootDirCluster →
        place = .entry entry
  | .close _ => True

instance (fs : FAT32) (rootDirCluster : Nat) (s : Session) (call : Call) :
    Decidable (ThroughSameEntry fs rootDirCluster s call) :=
  match call with
  | .close _ => isTrue trivial
  | .openFile path constraint =>
    decidable_of_iff (∀ place ∈ resolve fs rootDirCluster path, place ≠ .root →
      OnlyIf.admits place.isDirectory constraint = true → ∀ handle ∈ s.handles,
      ∀ place' ∈ resolve fs rootDirCluster handle.path,
        place'.onDisk rootDirCluster = place.onDisk rootDirCluster → place' = place) <| by
      constructor
      · intro h entry hentry
        exact h (.entry entry) hentry (by simp)
      · intro h place hplace hne
        cases place with
        | root => exact absurd rfl hne
        | entry entry => exact h entry hplace

/-- The call leaves one object for whatever is open, if it returns. -/
def KeepsOneObject (fs : FAT32) (rootDirCluster : Nat) (s : Session) (call : Call) : Prop :=
  ∀ s', sessions.step s call = .ok s' → OneObject fs rootDirCluster s'

variable {m m0 : Mount} {s s' : Session} {owned : List Reference} {handle : Handle} {fs : FAT32} {rootDirCluster : Nat}

variable (hm : Mounted m0)

section

def Refers (m0 : Mount) (r : Reference) (handle : Handle) : Prop :=
  r.1 = handle.ptr ∧ ∃ entry, resolve m0.fs m0.rootDirCluster handle.path = some (.entry entry) ∧
    IsAt m0 r (.entry entry)

def Tracks (m0 : Mount) (s : Session) : Prop :=
  ∃ owned, Walks m0 [] owned s.mount ∧ List.Forall₂ (Refers m0) owned s.handles

lemma IsOpen.ptr_eq_iff {r r' : Reference} (h : IsOpen m r) (h' : IsOpen m r') :
    r.1 = r'.1 ↔ r.identifier = r'.identifier := by
  obtain ⟨hobj, n, hmap⟩ := h
  obtain ⟨hobject', n', hmap'⟩ := h'
  constructor
  · intro heq
    rw [heq, hobject'] at hobj
    rw [Reference.identifier, Reference.identifier, Option.some.inj hobj]
  · intro heq
    rw [heq, hmap'] at hmap
    exact (congrArg OpenFile.ptr (Option.some.inj hmap)).symm

lemma exists_refers {handles : List Handle} (h : List.Forall₂ (Refers m0) owned handles) (hmem : handle ∈ handles) :
    ∃ r ts, owned.Perm (r :: ts) ∧ Refers m0 r handle ∧ List.Forall₂ (Refers m0) ts (handles.erase handle) := by
  have hcomp : Relation.Comp (List.Forall₂ (Refers m0)) List.Perm owned
      (handle :: handles.erase handle) := ⟨handles, h, perm_cons_erase hmem⟩
  rw [forall₂_comp_perm_eq_perm_comp_forall₂] at hcomp
  obtain ⟨owned', hperm, hall⟩ := hcomp
  cases hall with
  | @cons r _ ts _ hrefers hrest => exact ⟨r, ts, hperm, hrefers, hrest⟩

variable (h : Tracks m0 s) (hmem : handle ∈ s.handles)

include h hmem in
lemma Tracks.exists_isOpen : ∃ r e, IsOpen s.mount r ∧ r.1 = handle.ptr ∧
    resolve m0.fs m0.rootDirCluster handle.path = some (.entry e) ∧ IsAt m0 r (.entry e) := by
  obtain ⟨owned, hwalks, hall⟩ := h
  obtain ⟨r, ts, hperm, ⟨hptr, e, hresolve, hat⟩, -⟩ := exists_refers hall hmem
  exact ⟨r, e, hwalks.isOpen r (hperm.mem_iff.mpr mem_cons_self), hptr, hresolve, hat⟩

include hm h hmem in
lemma Tracks.ptr_eq_iff {handle' : Handle} (hmem' : handle' ∈ s.handles) : handle.ptr = handle'.ptr ↔
    resolve m0.fs m0.rootDirCluster handle.path = resolve m0.fs m0.rootDirCluster handle'.path := by
  obtain ⟨r, e, hopen, hptr, hresolve, hlisted, hid⟩ := h.exists_isOpen hmem
  obtain ⟨r', entry', hopen', hptr', hresolve', hlisted', hid'⟩ := h.exists_isOpen hmem'
  rw [← hptr, ← hptr', hopen.ptr_eq_iff hopen', hid, hid', hresolve, hresolve']
  constructor
  · intro heq
    rw [hm.tree.unique e entry' hlisted hlisted' heq]
  · intro heq
    rw [Option.some.inj heq]

include h hmem in
lemma Tracks.close : ∃ m, Walk.close handle.ptr s.mount = .ok () m ∧
    Tracks m0 { mount := m, handles := s.handles.erase handle } := by
  obtain ⟨owned, hwalks, hall⟩ := h
  obtain ⟨r, ts, hperm, hrefers, hrest⟩ := exists_refers hall hmem
  obtain ⟨m, hclose, hwalks'⟩ := (hwalks.perm hperm).close not_mem_nil
  rw [hrefers.1] at hclose
  exact ⟨m, hclose, ts, hwalks', hrest⟩

lemma placeFrom_dots {compare : Comparison} {p : Place} {nodes : List (List UInt8)}
    (h : ∀ node ∈ nodes, node = dot) : placeFrom fs rootDirCluster compare p nodes = some p := by
  induction nodes with
  | nil => rfl
  | cons node nodes ih =>
    rw [h node mem_cons_self, placeFrom_cons child_dot]
    exact ih fun u hu => h u (mem_cons_of_mem _ hu)

include hm h in
lemma Tracks.openFile (path : List UInt8) (c : OnlyIf) : (∃ e ptr m, openFileFromPath path c s.mount = .ok (.ok ptr) m ∧
    resolve m0.fs m0.rootDirCluster path = some (.entry e) ∧ OnlyIf.admits e.isDirectory c = true ∧
    Tracks m0 { mount := m, handles := ⟨ptr, path⟩ :: s.handles }) ∨
    ((∀ e, resolve m0.fs m0.rootDirCluster path = some (.entry e) → OnlyIf.admits e.isDirectory c = false) ∧
      ((∃ code m, openFileFromPath path c s.mount = .ok (.error code) m ∧ Tracks m0 { s with mount := m }) ∨
      ∃ fault m, openFileFromPath path c s.mount = .error fault m)) := by
  obtain ⟨owned, hwalks, hall⟩ := h
  by_cases hnodes : ∃ node ∈ nodesOf path, node ≠ dot
  · have hopens : Opens m0 owned c .root (nodesOf path) (openFileFromPath path c s.mount) :=
      openLoop_opens hm (.start hwalks) fun _ => hnodes
    match hres : openFileFromPath path c s.mount, hopens with
    | .ok (.ok ptr) m, hopens =>
      obtain ⟨r, e, hptr, hat, hwalks', hp, hadm⟩ := hopens
      exact .inl ⟨e, ptr, m, rfl, hp, hadm, r :: owned, hwalks', .cons ⟨hptr, e, hp, hat⟩ hall⟩
    | .ok (.error code) m, hopens => exact .inr ⟨hopens.2, .inl ⟨code, m, rfl, owned, hopens.1, hall⟩⟩
  · have hdots : ∀ node ∈ nodesOf path, node = dot := by
      intro node hnode
      by_contra hne
      exact hnodes ⟨node, hnode, hne⟩
    obtain ⟨fault, hres⟩ := openLoop_dots c hwalks hdots
    refine .inr ⟨?_, .inr ⟨fault, _, hres⟩⟩
    intro e he
    rw [resolve, placeFrom_dots hdots] at he
    cases he

end

lemma oneObject_cons_iff (hm : Mounted m0) {e : NativeEntry}
    (htracks : Tracks m0 { mount := m, handles := handle :: s.handles })
    (hone : OneObject m0.fs m0.rootDirCluster s)
    (hresolve : resolve m0.fs m0.rootDirCluster handle.path = some (.entry e)) :
    OneObject m0.fs m0.rootDirCluster { mount := m, handles := handle :: s.handles } ↔ ∀ u ∈ s.handles,
    ∀ p, resolve m0.fs m0.rootDirCluster u.path = some p → p.onDisk m0.rootDirCluster =
    (Place.entry e).onDisk m0.rootDirCluster → p = .entry e := by
  have hptr : ∀ u ∈ s.handles, ∀ p, resolve m0.fs m0.rootDirCluster u.path = some p →
      (u.ptr = handle.ptr ↔ p = .entry e) := by
    intro u hu p hp
    rw [htracks.ptr_eq_iff hm (mem_cons_of_mem _ hu) mem_cons_self, hp, hresolve, Option.some_inj]
  constructor
  · intro h u hu p hp hsame
    exact (hptr u hu p hp).mp (h u (mem_cons_of_mem _ hu) handle mem_cons_self p _ hp hresolve hsame)
  · intro h first hfirst second hsec p p' hp hp' hsame
    rcases mem_cons.mp hfirst with rfl | hold
    · rcases mem_cons.mp hsec with rfl | hold'
      · rfl
      · cases hresolve.symm.trans hp
        exact ((hptr second hold' p' hp').mpr (h second hold' p' hp' hsame.symm)).symm
    · rcases mem_cons.mp hsec with rfl | hold'
      · cases hresolve.symm.trans hp'
        exact (hptr first hold p hp).mpr (h first hold p hp hsame)
      · exact hone first hold second hold' p p' hp hp' hsame

lemma Tracks.step (hm : Mounted m0) (htracks : Tracks m0 s) (hone : OneObject m0.fs m0.rootDirCluster s)
    {call : Call} (hadm : sessions.admits s call) : (∀ s', sessions.step s call = .ok s' → Tracks m0 s') ∧
    (KeepsOneObject m0.fs m0.rootDirCluster s call ↔ ThroughSameEntry m0.fs m0.rootDirCluster s call) := by
  cases call with
  | close handle =>
    obtain ⟨m, hclose, htracks'⟩ := htracks.close hadm
    simp only [KeepsOneObject, sessions, Session.step, hclose]
    refine ⟨fun s' hs' => ?_, iff_of_true (fun s' hs' => ?_) trivial⟩
    · cases hs'
      exact htracks'
    · cases hs'
      exact fun a ha b hb => hone a (erase_subset ha) b (erase_subset hb)
  | openFile path c =>
    rcases htracks.openFile hm path c with
      ⟨e, ptr, m, hopen, hresolve, hconstraint, htracks'⟩ | ⟨hnone, hres⟩
    · simp only [KeepsOneObject, sessions, Session.step, hopen]
      refine ⟨fun s' hs' => ?_, ?_⟩
      · cases hs'
        exact htracks'
      · have hiff := oneObject_cons_iff hm htracks' hone hresolve
        constructor
        · intro h u hu _
          obtain rfl := Place.entry.inj (Option.some.inj (hresolve.symm.trans hu))
          exact hiff.mp (h _ rfl)
        · intro h s' hs'
          cases hs'
          exact hiff.mpr (h e hresolve hconstraint)
    · have he : ThroughSameEntry m0.fs m0.rootDirCluster s (.openFile path c) := by
        intro e hresolve hconstraint
        rw [hnone e hresolve] at hconstraint
        cases hconstraint
      rcases hres with ⟨code, m, hopen, htracks'⟩ | ⟨fault, m, hopen⟩
      · simp only [KeepsOneObject, sessions, Session.step, hopen]
        refine ⟨fun s' hs' => ?_, iff_of_true (fun s' hs' => ?_) he⟩
        · cases hs'
          exact htracks'
        · cases hs'
          exact hone
      · simp only [KeepsOneObject, sessions, Session.step, hopen]
        refine ⟨fun s' hs' => ?_, iff_of_true (fun s' hs' => ?_) he⟩
        · cases hs'
        · cases hs'

/-- Every call of a run keeps one object for whatever is open exactly when every open of what is open
already leads to it through the same entry. -/
theorem everyStep_keepsOneObject_iff {fs : FAT32} {rootDirCluster : Nat} (htree : Tree fs rootDirCluster)
    (calls : List Call) (hcalls : sessions.Admissible { mount := mount fs rootDirCluster } calls) :
    sessions.EveryStep (KeepsOneObject fs rootDirCluster) { mount := mount fs rootDirCluster } calls ↔
    sessions.EveryStep (ThroughSameEntry fs rootDirCluster) { mount := mount fs rootDirCluster } calls := by
  have hm := htree.mounted
  refine Machine.everyStep_iff_everyStep
    (I := fun s => Tracks (mount fs rootDirCluster) s ∧ OneObject fs rootDirCluster s) ?_ ?_ ?_ hcalls
  · intro s call hs hadm
    exact (hs.1.step hm hs.2 hadm).2
  · intro s call s' hs hadm hsame hstep
    have hnext := hs.1.step hm hs.2 hadm
    exact ⟨hnext.1 s' hstep, hnext.2.mpr hsame s' hstep⟩
  · exact ⟨⟨[], hm.walks, .nil⟩, fun handle hmem => absurd hmem not_mem_nil⟩

theorem everyStep_keepsOneObject_sample :
    sessions.EveryStep (KeepsOneObject sampleVolume 2) { mount := mount sampleVolume 2 }
      [.openFile [0x2F, 0x41] .directory, .openFile [0x2F, 0x42, 0x2F, 0x2E, 0x2E, 0x2F, 0x41] .directory] :=
  (everyStep_keepsOneObject_iff tree_sampleVolume _ (by decide +kernel)).mpr (by decide +kernel)

/-- `/A/..` and then `/B/..`, both the root directory. -/
theorem not_oneObject_sample : Tree sampleVolume 2 ∧ sessions.Admissible { mount := mount sampleVolume 2 }
      [.openFile [0x2F, 0x41, 0x2F, 0x2E, 0x2E] .directory, .openFile [0x2F, 0x42, 0x2F, 0x2E, 0x2E] .directory] ∧
    ∃ s, sessions.run { mount := mount sampleVolume 2 } [.openFile [0x2F, 0x41, 0x2F, 0x2E, 0x2E] .directory,
        .openFile [0x2F, 0x42, 0x2F, 0x2E, 0x2E] .directory] = .ok s ∧
      ¬OneObject sampleVolume 2 s := by
  refine ⟨tree_sampleVolume, by decide +kernel, ?_⟩
  have hrun : (sessions.run { mount := mount sampleVolume 2 } [.openFile [0x2F, 0x41, 0x2F, 0x2E, 0x2E] .directory,
        .openFile [0x2F, 0x42, 0x2F, 0x2E, 0x2E] .directory]).toOption.map Session.handles =
      some [⟨4, [0x2F, 0x42, 0x2F, 0x2E, 0x2E]⟩, ⟨2, [0x2F, 0x41, 0x2F, 0x2E, 0x2E]⟩] := by
    decide +kernel
  obtain ⟨s, hs, hhandles⟩ := Option.map_eq_some_iff.mp hrun
  refine ⟨s, ?_, fun hone => ?_⟩
  · revert hs
    cases sessions.run _ _ with
    | error fault => exact fun hs => nomatch hs
    | ok s' => exact fun hs => congrArg Except.ok (Option.some.inj hs)
  · have hptr := hone ⟨4, [0x2F, 0x42, 0x2F, 0x2E, 0x2E]⟩ (by rw [hhandles]; simp)
      ⟨2, [0x2F, 0x41, 0x2F, 0x2E, 0x2E]⟩ (by rw [hhandles]; simp)
      (.entry ((sampleEntries 4).getD 1 {})) (.entry ((sampleEntries 3).getD 1 {}))
      (by decide +kernel) (by decide +kernel) (by decide +kernel)
    cases hptr

end Walk

end UltraOS.FAT32
