import UltraOS.FileSystem.FAT32.Files.Model

/-!
# References to open files

The state of a walk against the state at its begin: the mutexes that it holds and the references that
it owns. Each operation on open files has one specification in these terms.
-/

namespace UltraOS.FAT32

namespace Walk

open List Function

variable {α β : Type} {m m' m0 : Mount}

abbrev Reference : Type := Nat × FileObject

def Reference.identifier (r : Reference) : Identifier := r.2.file.mIdentifier

def rootIdentifier : Identifier := {}

def refs (m : Mount) (i : Identifier) : Nat := ((m.mIdentifierToFile i).map OpenFile.refcount).getD 0

/-- The map and the objects agree, and the root directory is open. Every open object is as `Good`
says. -/
structure Consistent (Good : FileObject → Prop) (m : Mount) : Prop where
  opened : ∀ i openFile, m.mIdentifierToFile i = some openFile → 0 < openFile.refcount ∧
    ∃ object, m.objects openFile.ptr = some object ∧ object.file.mIdentifier = i ∧ Good object
  fresh : ∀ ptr, m.nextAddress ≤ ptr → m.objects ptr = none
  root : ∃ n, m.mIdentifierToFile rootIdentifier = some ⟨m.mRootDirectory, n⟩

def IsOpen (m : Mount) (r : Reference) : Prop :=
  m.objects r.1 = some r.2 ∧ ∃ n, m.mIdentifierToFile r.identifier = some ⟨r.1, n⟩

/-- How many of the references count for an identifier. The root directory is never closed, so its
references do not count. -/
def credit (owned : List Reference) (i : Identifier) : Nat :=
  if i = rootIdentifier then 0 else owned.countP fun r => r.identifier = i

/-- What a walk that began in `m0` leaves alone, and the mutexes that it holds. -/
structure Frame (m0 : Mount) (held : List Nat) (m : Mount) : Prop where
  held_eq : m.held = held
  fs_eq : m.fs = m0.fs
  rootDirCluster_eq : m.rootDirCluster = m0.rootDirCluster
  mRootDirectory_eq : m.mRootDirectory = m0.mRootDirectory
  unlockedUnheld : m.unlockedUnheld = false
  closedHeld : m.closedHeld = false

/-- A walk that began in `m0`, holds the mutexes `held` and owns the references `owned`. -/
structure Walking (Good : FileObject → Prop) (m0 : Mount) (held : List Nat)
    (owned : List Reference) (m : Mount) : Prop extends Frame m0 held m where
  consistent : Consistent Good m
  isOpen : ∀ r ∈ owned, IsOpen m r
  refs_eq : ∀ i, refs m i = refs m0 i + credit owned i

variable {Good : FileObject → Prop} {held : List Nat} {owned : List Reference} {r : Reference}
  (h : Consistent Good m) (hr : IsOpen m r)

lemma refs_of_eq {i : Identifier} {openFile : OpenFile} (h : m.mIdentifierToFile i = some openFile)
    : refs m i = openFile.refcount := by
  rw [refs, h]
  rfl

lemma credit_cons_self (hr : r.identifier ≠ rootIdentifier) :
    credit (r :: owned) r.identifier = credit owned r.identifier + 1 := by
  rw [credit, if_neg hr, credit, if_neg hr, countP_cons_of_pos (by simp)]

lemma credit_cons_of_ne {i : Identifier} (h : i ≠ r.identifier) : credit (r :: owned) i = credit owned i := by
  rw [credit, credit, countP_cons_of_neg (by simpa using Ne.symm h)]

lemma credit_cons_root (hr : r.identifier = rootIdentifier) (i : Identifier) :
    credit (r :: owned) i = credit owned i := by
  by_cases hi : i = rootIdentifier
  · rw [credit, if_pos hi, credit, if_pos hi]
  · exact credit_cons_of_ne (by rw [hr]; exact hi)

include h hr in
lemma Consistent.eq_root_iff : r.1 = m.mRootDirectory ↔ r.identifier = rootIdentifier := by
  obtain ⟨n, hroot⟩ := h.root
  obtain ⟨hobj, k, hmap⟩ := hr
  obtain ⟨_, object, hobject', hid, _⟩ := h.opened _ _ hroot
  constructor
  · intro heq
    rw [← heq, hobj] at hobject'
    rw [Reference.identifier, Option.some.inj hobject', hid]
  · intro heq
    rw [heq, hroot] at hmap
    exact (congrArg OpenFile.ptr (Option.some.inj hmap)).symm

lemma Consistent.exists_root (h : Consistent Good m) :
    ∃ object, IsOpen m (m.mRootDirectory, object) ∧ object.file.mIdentifier = rootIdentifier := by
  obtain ⟨n, hroot⟩ := h.root
  obtain ⟨_, object, hobj, hid, _⟩ := h.opened _ _ hroot
  exact ⟨object, ⟨hobj, n, by rw [Reference.identifier, hid, hroot]⟩, hid⟩

include h hr in
lemma Consistent.good : Good r.2 := by
  obtain ⟨hobj, n, hmap⟩ := hr
  obtain ⟨_, object, hobject', _, hgood⟩ := h.opened _ _ hmap
  rw [hobj] at hobject'
  rwa [Option.some.inj hobject']

variable {owned' : List Reference}

lemma objectAt_eq (hr : IsOpen m r) : objectAt r.1 m = .ok r.2 m := by rw [objectAt, hr.1]

lemma Walking.head_isOpen (h : Walking Good m0 held (r :: owned) m) : IsOpen m r := h.isOpen r mem_cons_self

lemma Walking.withHeld (h : Walking Good m0 held owned m) (held' : List Nat) :
    Walking Good m0 held' owned { m with held := held' } where
  toFrame := { h.toFrame with held_eq := rfl }
  consistent := ⟨h.consistent.opened, h.consistent.fresh, h.consistent.root⟩
  isOpen := h.isOpen
  refs_eq := h.refs_eq

lemma Walking.perm (h : Walking Good m0 held owned m) (hperm : owned.Perm owned') : Walking Good m0 held owned' m where
  toFrame := h.toFrame
  consistent := h.consistent
  isOpen r hr := h.isOpen r (hperm.mem_iff.mpr hr)
  refs_eq i := by rw [h.refs_eq, credit, credit, hperm.countP_eq]

lemma Walking.lock (h : Walking Good m0 [] (r :: owned) m) :
    ∃ m', Walk.lock r.1 m = .ok () m' ∧ Walking Good m0 [r.1] (r :: owned) m' := by
  refine ⟨{ m with held := [r.1] }, ?_, h.withHeld [r.1]⟩
  rw [Walk.lock, bind_of_ok (objectAt_eq h.head_isOpen), take, h.held_eq, if_neg not_mem_nil]

lemma Walking.unlock (h : Walking Good m0 [r.1] owned m) (hr : IsOpen m r) :
    ∃ m', Walk.unlock r.1 m = .ok () m' ∧ Walking Good m0 [] owned m' := by
  refine ⟨{ m with held := [] }, ?_, h.withHeld []⟩
  rw [Walk.unlock, bind_of_ok (objectAt_eq hr), giveBack, h.held_eq, if_pos (mem_singleton.mpr rfl), erase_cons_head]

lemma Walking.root (h : Walking Good m0 held owned m) : ∃ object, object.file.mIdentifier =
    rootIdentifier ∧ Walking Good m0 held ((m.mRootDirectory, object) :: owned) m := by
  obtain ⟨object, hopen, hid⟩ := h.consistent.exists_root
  refine ⟨object, hid, { h with isOpen := ?_, refs_eq := ?_ }⟩
  · intro r hr
    rcases mem_cons.mp hr with rfl | hr
    · exact hopen
    · exact h.isOpen r hr
  · intro i
    have hid : Reference.identifier (m.mRootDirectory, object) = rootIdentifier := hid
    rw [credit_cons_root hid, h.refs_eq]

variable {j : Identifier}

section

lemma refs_update {i : Identifier} {e : Option OpenFile} (hmap : m'.mIdentifierToFile = update m.mIdentifierToFile i e)
    (j : Identifier) : refs m' j = if j = i then (e.map OpenFile.refcount).getD 0 else refs m j := by
  rw [refs, hmap]
  by_cases hj : j = i
  · rw [if_pos hj, hj, update_self]
  · rw [if_neg hj, update_of_ne hj, refs]

variable {i : Identifier} {openFile : OpenFile} {n : Nat}

lemma setCount_self : (setCount m i openFile n).mIdentifierToFile i = some { openFile with refcount := n } :=
  update_self ..

lemma setCount_of_ne (h : j ≠ i) : (setCount m i openFile n).mIdentifierToFile j = m.mIdentifierToFile j :=
  update_of_ne h ..

lemma refs_setCount (j : Identifier) : refs (setCount m i openFile n) j = if j = i then n else refs m j := by
  rw [refs_update rfl]
  rfl

variable (hfile : m.mIdentifierToFile i = some openFile)

include h hfile in
lemma Consistent.setCount (hn : 0 < n) : Consistent Good (Walk.setCount m i openFile n) := by
  refine ⟨?_, h.fresh, ?_⟩
  · intro j file hj
    by_cases hji : j = i
    · subst hji
      rw [setCount_self] at hj
      cases hj
      exact ⟨hn, (h.opened j openFile hfile).2⟩
    · rw [setCount_of_ne hji] at hj
      exact h.opened j file hj
  · obtain ⟨k, hroot⟩ := h.root
    by_cases hi : rootIdentifier = i
    · subst hi
      rw [hroot] at hfile
      cases hfile
      exact ⟨n, setCount_self⟩
    · exact ⟨k, (setCount_of_ne hi).trans hroot⟩

include hr hfile in
lemma IsOpen.setCount (n : Nat) : IsOpen (Walk.setCount m i openFile n) r := by
  obtain ⟨hobj, k, hmap⟩ := hr
  refine ⟨hobj, ?_⟩
  by_cases hi : r.identifier = i
  · subst hi
    rw [hmap] at hfile
    cases hfile
    exact ⟨n, setCount_self⟩
  · exact ⟨k, (setCount_of_ne hi).trans hmap⟩

lemma Walking.setCount (h : Walking Good m0 held owned m) (hfile : m.mIdentifierToFile i = some openFile) (hn : 0 < n)
    (hopen : ∀ r ∈ owned', IsOpen m r) (hrefs : ∀ j, (if j = i then n else refs m j) = refs m0 j + credit owned' j) :
    Walking Good m0 held owned' (Walk.setCount m i openFile n) where
  toFrame := { h.toFrame with }
  consistent := h.consistent.setCount hfile hn
  isOpen r hr := (hopen r hr).setCount hfile n
  refs_eq j := by rw [refs_setCount, hrefs]

end

variable {ptr : Nat} {u : FileObject}

section

variable {object : FileObject}

lemma insert_self : (insert m object).mIdentifierToFile object.file.mIdentifier = some ⟨m.nextAddress, 1⟩ :=
  update_self ..

lemma insert_object : (insert m object).objects m.nextAddress = some object := update_self ..

lemma insert_of_ne (h : j ≠ object.file.mIdentifier) : (insert m object).mIdentifierToFile j = m.mIdentifierToFile j :=
  update_of_ne h ..

lemma Consistent.insert_objects (h : Consistent Good m) (hu : m.objects ptr = some u)
    : (insert m object).objects ptr = some u := by
  have hne : ptr ≠ m.nextAddress := by
    intro heq
    rw [h.fresh ptr heq.symm.le] at hu
    exact absurd hu (by simp)
  exact (update_of_ne hne ..).trans hu

variable (hnone : m.mIdentifierToFile object.file.mIdentifier = none)

lemma Consistent.insert (h : Consistent Good m) (hgood : Good object)
    (hroot : object.file.mIdentifier ≠ rootIdentifier) : Consistent Good (Walk.insert m object) := by
  refine ⟨?_, ?_, ?_⟩
  · intro j file hj
    by_cases hid : j = object.file.mIdentifier
    · subst hid
      rw [insert_self] at hj
      cases hj
      exact ⟨Nat.one_pos, object, insert_object, rfl, hgood⟩
    · rw [insert_of_ne hid] at hj
      obtain ⟨hpos, u, hu, hrest⟩ := h.opened j file hj
      exact ⟨hpos, u, h.insert_objects hu, hrest⟩
  · intro ptr hptr
    have hlt : m.nextAddress < ptr := hptr
    have hne : ptr ≠ m.nextAddress := by omega
    exact (update_of_ne hne ..).trans (h.fresh ptr hlt.le)
  · obtain ⟨n, hn⟩ := h.root
    exact ⟨n, (insert_of_ne hroot.symm).trans hn⟩

lemma consistent_mount {fs : FAT32} {rootDirCluster : Nat} (hgood : Good (rootObject rootDirCluster)) :
    Consistent Good (mount fs rootDirCluster) := by
  refine ⟨?_, ?_, 1, insert_self⟩
  · intro i openFile hi
    by_cases hid : i = (rootObject rootDirCluster).file.mIdentifier
    · subst hid
      rw [mount, insert_self] at hi
      cases hi
      exact ⟨Nat.one_pos, rootObject rootDirCluster, insert_object, rfl, hgood⟩
    · rw [mount, insert_of_ne hid] at hi
      cases hi
  · intro ptr hptr
    have hlt : 0 < ptr := hptr
    exact update_of_ne hlt.ne' ..

include h hr hnone in
lemma IsOpen.insert : IsOpen (Walk.insert m object) r := by
  obtain ⟨hobj, n, hmap⟩ := hr
  have hne : r.identifier ≠ object.file.mIdentifier := by
    intro heq
    rw [heq, hnone] at hmap
    exact absurd hmap (by simp)
  exact ⟨h.insert_objects hobj, n, (insert_of_ne hne).trans hmap⟩

include hnone in
lemma refs_insert (j : Identifier) :
    refs (insert m object) j = if j = object.file.mIdentifier then refs m j + 1 else refs m j := by
  rw [refs_update rfl]
  by_cases hj : j = object.file.mIdentifier
  · rw [if_pos hj, if_pos hj, refs, hj, hnone]
    rfl
  · rw [if_neg hj, if_neg hj]

lemma credit_cons (hr : r.identifier ≠ rootIdentifier) (j : Identifier) :
    credit (r :: owned) j = if j = r.identifier then credit owned j + 1 else credit owned j := by
  by_cases hj : j = r.identifier
  · rw [if_pos hj, hj, credit_cons_self hr]
  · rw [if_neg hj, credit_cons_of_ne hj]

lemma Walking.openOrIncref (h : Walking Good m0 held owned m) (hgood : Good object)
    (hroot : object.file.mIdentifier ≠ rootIdentifier) : ∃ (r : Reference) (m' : Mount), Walk.openOrIncref object m =
    .ok r.1 m' ∧ r.identifier = object.file.mIdentifier ∧ Walking Good m0 held (r :: owned) m' := by
  cases hfile : m.mIdentifierToFile object.file.mIdentifier with
  | none =>
    refine ⟨(m.nextAddress, object), Walk.insert m object, ?_, rfl,
      { h.toFrame with }, h.consistent.insert hgood hroot, ?_, ?_⟩
    · rw [Walk.openOrIncref, hfile]
    · intro r hr
      rcases mem_cons.mp hr with rfl | hr
      · exact ⟨insert_object, 1, insert_self⟩
      · exact (h.isOpen r hr).insert h.consistent hfile
    · intro j
      have hid : Reference.identifier (m.nextAddress, object) ≠ rootIdentifier := hroot
      rw [refs_insert hfile, credit_cons hid, h.refs_eq]
      by_cases hj : j = object.file.mIdentifier
      · rw [if_pos hj, if_pos (by exact hj), add_assoc]
      · rw [if_neg hj, if_neg (by exact hj)]
  | some openFile =>
    obtain ⟨hpos, u, hu, hid, -⟩ := h.consistent.opened _ _ hfile
    have hid : Reference.identifier (openFile.ptr, u) = object.file.mIdentifier := hid
    have hopen : IsOpen m (openFile.ptr, u) := ⟨hu, openFile.refcount, by rw [hid, hfile]⟩
    refine ⟨(openFile.ptr, u), Walk.setCount m object.file.mIdentifier openFile
      (openFile.refcount + 1), ?_, hid, h.setCount hfile (Nat.add_one_pos _) ?_ ?_⟩
    · rw [Walk.openOrIncref, hfile]
    · intro r hr
      rcases mem_cons.mp hr with rfl | hr
      · exact hopen
      · exact h.isOpen r hr
    · intro j
      rw [credit_cons (hid ▸ hroot), hid]
      by_cases hj : j = object.file.mIdentifier
      · rw [if_pos hj, if_pos hj, ← refs_of_eq hfile, hj, h.refs_eq, add_assoc]
      · rw [if_neg hj, if_neg hj, h.refs_eq]

end

variable {openFile : OpenFile} {i : Identifier}

lemma delete_self : (delete m i openFile).mIdentifierToFile i = none := update_self ..

lemma delete_of_ne (h : j ≠ i) : (delete m i openFile).mIdentifierToFile j = m.mIdentifierToFile j := update_of_ne h ..

variable (hfile : m.mIdentifierToFile i = some openFile)

section

include h hfile

lemma Consistent.delete_objects (hu : m.objects ptr = some u)
    (hne : u.file.mIdentifier ≠ i) : (delete m i openFile).objects ptr = some u := by
  obtain ⟨_, object, hobj, hid, _⟩ := h.opened i openFile hfile
  have hptr : ptr ≠ openFile.ptr := by
    intro heq
    rw [heq, hobj] at hu
    exact hne (by rw [← Option.some.inj hu, hid])
  exact (update_of_ne hptr ..).trans hu

lemma Consistent.delete (hi : i ≠ rootIdentifier) : Consistent Good (Walk.delete m i openFile) := by
  refine ⟨?_, ?_, ?_⟩
  · intro j file hj
    have hne : j ≠ i := by
      intro heq
      rw [heq, delete_self] at hj
      exact absurd hj (by simp)
    rw [delete_of_ne hne] at hj
    obtain ⟨hpos, u, hu, hid, hgood⟩ := h.opened j file hj
    exact ⟨hpos, u, h.delete_objects hfile hu (hid ▸ hne), hid, hgood⟩
  · intro ptr hptr
    by_cases heq : ptr = openFile.ptr
    · rw [heq]
      exact update_self ..
    · exact (update_of_ne heq ..).trans (h.fresh ptr hptr)
  · obtain ⟨n, hn⟩ := h.root
    exact ⟨n, (delete_of_ne hi.symm).trans hn⟩

lemma IsOpen.delete (hr : IsOpen m r) (hne : r.identifier ≠ i) : IsOpen (Walk.delete m i openFile) r := by
  obtain ⟨hobj, n, hmap⟩ := hr
  exact ⟨h.delete_objects hfile hobj hne, n, (delete_of_ne hne).trans hmap⟩

end

lemma refs_delete (j : Identifier) : refs (delete m i openFile) j = if j = i then 0 else refs m j := by
  rw [refs_update rfl]
  rfl

lemma credit_eq_zero (hi : i ≠ rootIdentifier) (h : credit owned i = 0) : ∀ r ∈ owned, r.identifier ≠ i := by
  rw [credit, if_neg hi, countP_eq_zero] at h
  simpa using h

lemma Walking.decref (h : Walking Good m0 held (r :: owned) m) (hroot : r.identifier ≠ rootIdentifier) :
    ∃ m', Walk.decref r.2 m = .ok () m' ∧ Walking Good m0 held owned m' := by
  obtain ⟨hobj, n, hmap⟩ := h.head_isOpen
  have hrefs := h.refs_eq r.identifier
  rw [refs_of_eq hmap, credit_cons_self hroot] at hrefs
  have hmap' : m.mIdentifierToFile r.2.file.mIdentifier = some ⟨r.1, n⟩ := hmap
  rw [Walk.decref, hmap']
  dsimp only at hrefs ⊢
  by_cases hlast : n - 1 = 0
  · refine ⟨Walk.delete m r.identifier ⟨r.1, n⟩, ?_, { h.toFrame with }, h.consistent.delete hmap hroot, ?_, ?_⟩
    · rw [if_pos hlast]
      rfl
    · intro u hu
      refine (h.isOpen u (mem_cons_of_mem _ hu)).delete h.consistent hmap ?_
      exact credit_eq_zero hroot (by omega) u hu
    · intro j
      rw [refs_delete]
      by_cases hj : j = r.identifier
      · rw [if_pos hj, hj]
        omega
      · rw [if_neg hj, h.refs_eq, credit_cons_of_ne hj]
  · refine ⟨Walk.setCount m r.identifier ⟨r.1, n⟩ (n - 1), ?_, h.setCount hmap (by omega) ?_ ?_⟩
    · rw [if_neg hlast]
      rfl
    · intro u hu
      exact h.isOpen u (mem_cons_of_mem _ hu)
    · intro j
      by_cases hj : j = r.identifier
      · rw [if_pos hj, hj]
        omega
      · rw [if_neg hj, h.refs_eq, credit_cons_of_ne hj]

lemma Walking.close (h : Walking Good m0 held (r :: owned) m) (hheld : r.1 ∉ held) :
    ∃ m', Walk.close r.1 m = .ok () m' ∧ Walking Good m0 held owned m' := by
  have hnot : decide (r.1 ∈ m.held) = false := decide_eq_false (by rwa [h.held_eq])
  rw [Walk.close, hnot, Bool.or_false]
  by_cases hroot : r.1 = m.mRootDirectory
  · have hid := (h.consistent.eq_root_iff h.head_isOpen).mp hroot
    refine ⟨m, if_pos hroot, h.toFrame, h.consistent, ?_, ?_⟩
    · exact fun u hu => h.isOpen u (mem_cons_of_mem _ hu)
    · intro i
      rw [h.refs_eq, credit_cons_root hid]
  · have hid : r.identifier ≠ rootIdentifier := fun heq => hroot ((h.consistent.eq_root_iff h.head_isOpen).mpr heq)
    rw [if_neg hroot, closeObject, bind_of_ok (objectAt_eq h.head_isOpen)]
    exact h.decref hid

lemma Walking.unlockAndClose (h : Walking Good m0 [r.1] (r :: owned) m) :
    ∃ m', Walk.unlockAndClose r.1 m = .ok () m' ∧ Walking Good m0 [] owned m' := by
  obtain ⟨m', hunlock, h'⟩ := h.unlock h.head_isOpen
  rw [Walk.unlockAndClose, bind_of_ok hunlock]
  exact h'.close not_mem_nil

end Walk

end UltraOS.FAT32
