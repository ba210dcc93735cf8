import Mathlib.Data.Finset.Card
import Mathlib.Data.Nat.SuccPred
import Mathlib.Order.SuccPred.Relation
import UltraOS.FileSystem.Utilities
import UltraOS.Memory.Range

/-!
# The virtual file system

`load_mbr_partitions` and `open` of `Kernel/FileSystem/VFS.cpp`. A device is given by what its
reads bring into memory, and a file system by what its calls answer one after another.
-/

namespace UltraOS.VFS

open Relation Finset

section

structure MBRPartitionEntry where
  type : UInt8
  firstBlock : Nat
  blockCount : Nat

/-- A storage device: the partition entries that a read of a sector brings into memory, and whether
`FAT32::create` finds a file system in a range of blocks. Both can fault. -/
structure Device where
  read : Nat → Run (List MBRPartitionEntry)
  create : (firstBlock blockCount : Nat) → Run Bool

def MBRPartitionEntry.first (partition : MBRPartitionEntry) (sectorOffset : Nat) : Nat :=
  (partition.firstBlock + sectorOffset) % addressSpace

def MBRPartitionEntry.IsFAT32 (partition : MBRPartitionEntry) : Prop := partition.type = 0x0B ∨ partition.type = 0x0C

instance : DecidablePred MBRPartitionEntry.IsFAT32 := fun _ => inferInstanceAs (Decidable (_ ∨ _))

/-- `load_mbr_partitions` for a table that was read from a sector: the first blocks and the lengths of the
partitions with a file system. -/
def loadMbrPartitions (device : Device) :
    (fuel : Nat) → (virtualMbr : List MBRPartitionEntry) → (sectorOffset : Nat) → Run (List (Nat × Nat))
  | 0, _, _ => .error .outOfFuel
  | fuel + 1, virtualMbr, sectorOffset => do
    let found ← virtualMbr.mapM fun partition =>
      let firstBlock := partition.first sectorOffset
      if partition.IsFAT32 then do
        let fs ← device.create firstBlock partition.blockCount
        return if fs then [(firstBlock, partition.blockCount)] else []
      else if partition.type = 0x05 then do
        let ebr ← device.read firstBlock
        loadMbrPartitions device fuel ebr firstBlock
      else .ok []
    return found.flatten

/-- A sector is read and its table gone through, as `load_all_partitions` does it with the first sector. -/
def loadSector (device : Device) (fuel sector : Nat) : Run (List (Nat × Nat)) := do
  loadMbrPartitions device fuel (← device.read sector) sector

/-- An entry of the first sector leads to an extended boot record in the second one. -/
def Links (device : Device) (a b : Nat) : Prop :=
  ∃ table, device.read a = .ok table ∧ ∃ p ∈ table, p.type = 0x05 ∧ p.first a = b

/-- The sector can be read, and `FAT32::create` returns for its partitions. -/
def Sound (device : Device) (a : Nat) : Prop :=
  ∃ table, device.read a = .ok table ∧ ∀ p ∈ table, p.IsFAT32 → ∃ fs, device.create (p.first a) p.blockCount = .ok fs

def Returns (device : Device) (fuel a : Nat) : Prop := ∃ ranges, loadSector device fuel a = .ok ranges

variable {device : Device} {fuel a b : Nat}

lemma exists_mapM_eq_ok {α β : Type} {f : α → Run β} {xs : List α} :
    (∃ ys, xs.mapM f = .ok ys) ↔ ∀ x ∈ xs, ∃ y, f x = .ok y := by
  induction xs with
  | nil => simp
  | cons x xs ih => simp [bind_eq_ok, ← ih]

lemma returns_succ : Returns device (fuel + 1) a ↔ Sound device a ∧ ∀ b, Links device a b → Returns device fuel b := by
  cases hread : device.read a with
  | error e => simp [Returns, loadSector, Sound, hread]
  | ok table =>
    simp only [Returns, loadSector, hread, ok_bind, loadMbrPartitions, pure_eq_ok, bind_eq_ok, Except.ok.injEq]
    rw [exists_comm]
    simp only [exists_and_left, exists_eq', and_true, exists_mapM_eq_ok]
    simp only [Sound, Links, hread, Except.ok.injEq, exists_eq_left']
    constructor
    · refine fun h => ⟨fun p hp hfat => ?_, ?_⟩
      · obtain ⟨_, h⟩ := h p hp
        rw [if_pos hfat, bind_eq_ok] at h
        exact ⟨_, h.choose_spec.1⟩
      · rintro b ⟨p, hp, htype, rfl⟩
        simpa [MBRPartitionEntry.IsFAT32, htype, bind_eq_ok] using h p hp
    · rintro ⟨hsound, hlinks⟩ p hp
      split
      · rename_i hfat
        obtain ⟨fs, hfs⟩ := hsound p hp hfat
        exact ⟨_, by rw [hfs]; rfl⟩
      split
      · rename_i htype
        simpa [bind_eq_ok] using hlinks _ ⟨p, hp, htype, rfl⟩
      · exact ⟨_, rfl⟩

lemma not_returns_zero : ¬Returns device 0 a := by
  rintro ⟨_, h⟩
  obtain ⟨_, -, h⟩ := of_bind h
  cases h

lemma Returns.step (h : Returns device fuel a) :
    Sound device a ∧ ∀ b, Links device a b → ∃ less < fuel, Returns device less b := by
  cases fuel with
  | zero => exact absurd h not_returns_zero
  | succ n => exact (returns_succ.mp h).imp_right fun h b hlink => ⟨n, lt_add_one n, h b hlink⟩

lemma Returns.descends (h : Returns device fuel a) (hlinks : TransGen (Links device) a b) :
    ∃ less < fuel, Returns device less b := by
  induction hlinks with
  | single hlink => exact h.step.2 _ hlink
  | tail _ hlink ih =>
    obtain ⟨n, hn, h⟩ := ih
    obtain ⟨m, hm, h⟩ := h.step.2 _ hlink
    exact ⟨m, hm.trans hn, h⟩

lemma not_returns_of_cycle (hcycle : TransGen (Links device) a a) : ¬Returns device fuel a := by
  induction fuel using Nat.strong_induction_on with
  | _ fuel ih =>
    intro h
    obtain ⟨less, hless, h⟩ := h.descends hcycle
    exact ih less hless h

lemma exists_path (hsound : ∀ b, ReflTransGen (Links device) a b → Sound device b) (h : ¬Returns device fuel a) :
    ∃ f : Nat → Nat, f 0 = a ∧ ∀ i < fuel, Links device (f i) (f (i + 1)) := by
  induction fuel generalizing a with
  | zero => exact ⟨fun _ => a, rfl, by simp⟩
  | succ fuel ih =>
    rw [returns_succ, not_and] at h
    have h := h (hsound a .refl)
    push Not at h
    obtain ⟨b, hlink, hb⟩ := h
    obtain ⟨f, hzero, hf⟩ := ih (fun c hreach => hsound c (.head hlink hreach)) hb
    refine ⟨fun i => i.casesOn a f, rfl, fun i hi => ?_⟩
    cases i with
    | zero => exact Eq.subst hzero.symm hlink
    | succ i => exact hf i (by omega)

/-- The search for partitions ends if and only if every sector that is reached from the first one over a chain of
extended boot records is sound, and no such chain returns to a sector of it. -/
theorem loadMbrPartitions_returns_iff (device : Device) : (∃ fuel ranges, loadSector device fuel 0 = .ok ranges) ↔ ∀ a,
    ReflTransGen (Links device) 0 a → Sound device a ∧ ¬TransGen (Links device) a a := by
  constructor
  · rintro ⟨fuel, h⟩ a hreach
    obtain ⟨less, h⟩ : ∃ less, Returns device less a := by
      rcases reflTransGen_iff_eq_or_transGen.mp hreach with rfl | hlinks
      · exact ⟨fuel, h⟩
      · exact (Returns.descends h hlinks).imp fun _ h => h.2
    exact ⟨h.step.1, fun hcycle => not_returns_of_cycle hcycle h⟩
  · intro hsound
    by_contra h
    -- A search this deep meets more sectors than there are.
    obtain ⟨f, hzero, hf⟩ := exists_path (fun a hreach => (hsound a hreach).1)
      fun hreturns : Returns device addressSpace 0 => h ⟨_, hreturns⟩
    have hbound : ∀ i ∈ range (addressSpace + 1), f i ∈ range addressSpace := by
      intro i hi
      rw [mem_range] at hi ⊢
      cases i with
      | zero => simp [hzero, addressSpace]
      | succ i =>
        obtain ⟨_, -, p, -, -, hp⟩ := hf i (by omega)
        exact hp ▸ Nat.mod_lt _ (by decide)
    obtain ⟨i, hi, j, hj, hne, heq⟩ :=
      exists_ne_map_eq_of_card_lt_of_maps_to (by rw [card_range, card_range]; omega) hbound
    have hpath {i j} (hlt : i < j) (hj : j ≤ addressSpace) : TransGen (Links device) (f i) (f j) :=
      (transGen_of_succ_of_lt (fun i j => Links device (f i) (f j)) (fun k hk => hf k (by grind)) hlt).lift f fun _ _ h => h
    wlog hlt : i < j generalizing i j
    · exact this j hj i hi hne.symm heq.symm (by omega)
    · rw [mem_range] at hi hj
      refine (hsound (f i) ?_).2 (Eq.subst heq.symm (hpath hlt (by omega)))
      rcases Nat.eq_zero_or_pos i with rfl | hpos
      · rw [hzero]
      · exact hzero ▸ (hpath hpos (by omega)).to_reflTransGen

/-- Every sector can be read, and its first entry leads to the same sector. -/
def selfLinked : Device where
  read _ := .ok [⟨0x05, 0, 1⟩]
  create _ _ := .ok true

theorem not_returns_selfLinked : ¬∃ fuel ranges, loadSector selfLinked fuel 0 = .ok ranges := by
  rintro ⟨fuel, h⟩
  exact not_returns_of_cycle (.single ⟨_, rfl, _, List.mem_cons_self, rfl, rfl⟩) h

end

/-- What `open` and `create` answer in a round of the loop, with a number for a `File` that is open. -/
abbrev Round : Type := ErrorOr Nat × ErrorCode

/-- `FileIterator::create(*file, mode)`, with none for a null pointer. -/
def createIterator : Option Nat → Run (ErrorOr Nat)
  | none => .error .badPointer
  | some file => .ok (.ok file)

/-- The loop of `open` for as many rounds as are given. `create` tells whether the mode has `CREATE`. -/
def openLoop (create : Bool) : List Round → Run (ErrorOr Nat)
  | [] => .error .outOfFuel
  | (.ok file, _) :: _ => createIterator (some file)
  | (.error code, created) :: rounds =>
    if code ≠ .noSuchFile ∨ create = false then .ok (.error code)
    else
      -- The `ErrorOr` that is made from the code has the default value.
      let errorOrFile : ErrorCode × Option Nat := (created, none)
      if errorOrFile.1 = .noError then createIterator errorOrFile.2
      else if errorOrFile.1 ≠ .fileAlreadyExists then .ok (.error errorOrFile.1)
      else openLoop create rounds

/-- `open` for the file systems of `m_prefix_to_fs`, each given by its rounds for a path. -/
def open' (prefixToFs : List UInt8 → Option (List UInt8 → List Round)) (path : List UInt8) (create : Bool) :
    Run (ErrorOr Nat) := do
  match ← splitPrefixAndPath path with
  | none => .ok (.error .badPath)
  | some (name, path) =>
    match prefixToFs name with
    | none => .ok (.error .diskNotFound)
    | some fs => openLoop create (fs path)

/-- A round ends the loop, and no `create` up to it succeeds. -/
def Settles (create : Bool) : List Round → Prop
  | [] => False
  | round :: rounds => round.1 = .error .noSuchFile → create = true →
      round.2 ≠ .noError ∧ (round.2 = .fileAlreadyExists → Settles create rounds)

/-- The stream refers to a file that `open` gave, or the error is one of the file system. -/
def Gives (rounds : List Round) (result : ErrorOr Nat) : Prop :=
  ∃ round ∈ rounds, result = round.1 ∨ round.2 ≠ .noError ∧ result = .error round.2

variable {create : Bool} {rounds : List Round}

lemma gives_of_openLoop {res : ErrorOr Nat} (h : openLoop create rounds = .ok res) : Gives rounds res := by
  fun_induction openLoop create rounds with
  | case1 | case4 => cases h
  | case2 | case3 => exact ⟨_, List.mem_cons_self, .inl (Except.ok.inj h).symm⟩
  | case5 code created rounds _ _ hne _ => exact ⟨_, List.mem_cons_self, .inr ⟨hne, (Except.ok.inj h).symm⟩⟩
  | case6 code created rounds _ _ _ _ ih =>
    obtain ⟨round, hround, hgives⟩ := ih h
    exact ⟨round, List.mem_cons_of_mem _ hround, hgives⟩

lemma exists_openLoop_iff : (∃ res, openLoop create rounds = .ok res) ↔ Settles create rounds := by
  fun_induction openLoop create rounds with
  | case2 => simp [Settles, createIterator]
  | _ => grind [Settles, createIterator]

/-- `open` returns for every path that is not valid or has no disk, and for the others if its loop does. -/
lemma exists_open_iff {prefixToFs : List UInt8 → Option (List UInt8 → List Round)} {path : List UInt8} :
    (∃ res, open' prefixToFs path create = .ok res) ↔ ∀ split,
    splitPrefixAndPath path = .ok (some split) → ∀ fs ∈ prefixToFs split.1, Settles create (fs split.2) := by
  obtain ⟨split, hsplit⟩ := exists_splitPrefixAndPath path
  rw [open', hsplit, ok_bind]
  cases split with
  | none => simp
  | some split => cases hfs : prefixToFs split.1 <;> simp [hfs, exists_openLoop_iff]

/-- `open` answers if and only if its loop ends without a `create` that succeeds. -/
theorem openLoop_answers_iff (create : Bool) (rounds : List Round) :
    (∃ res, openLoop create rounds = .ok res ∧ Gives rounds res) ↔ Settles create rounds := by
  rw [← exists_openLoop_iff]
  exact exists_congr fun res => and_iff_left_of_imp gives_of_openLoop

theorem not_openLoop_answers_created : ¬∃ res, openLoop true [(.error .noSuchFile, .noError)] =
    .ok res ∧ Gives [(.error .noSuchFile, .noError)] res := by
  rintro ⟨res, h, -⟩
  cases h

end UltraOS.VFS
