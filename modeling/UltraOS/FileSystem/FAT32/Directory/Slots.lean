import UltraOS.FileSystem.FAT32.Contents
import UltraOS.FileSystem.FAT32.Directory.Allocate

/-!
# The slots of a directory

A directory is a sequence of slots, the slots of its clusters one after the other. An iteration
stands in front of one of them, and `fetch_next` returns it and moves on.
-/

namespace UltraOS.FAT32

open List

variable {fs : FAT32} {cs : List Nat} {i : Nat} {k : Nat}

lemma Chain.getElem_succ (h : fs.Chain cs) (hk : k + 1 < cs.length) :
    fs.mFatCache (cs.getD k 0) = cs.getD (k + 1) 0 := by
  induction cs generalizing k with
  | nil => exact h.elim
  | cons c ts ih =>
    cases ts with
    | nil =>
      rw [length_singleton] at hk
      omega
    | cons next ts =>
      cases k with
      | zero => exact h.2.1
      | succ k =>
        rw [getD_cons_succ, getD_cons_succ]
        exact ih h.2.2 (by simpa using hk)

lemma Chain.getElem_last (h : fs.Chain cs) (hk : k + 1 = cs.length) :
    entryTypeOfFatValue (fs.mFatCache (cs.getD k 0)) = .endOfChain := by
  induction cs generalizing k with
  | nil => exact h.elim
  | cons c ts ih =>
    cases ts with
    | nil =>
      obtain rfl : k = 0 := by simpa using hk
      exact h.2
    | cons next ts =>
      cases k with
      | zero => simp at hk
      | succ k =>
        rw [getD_cons_succ]
        exact ih h.2.2 (by simpa using hk)

structure Laid (fs : FAT32) (clusters : List Nat) : Prop where
  chain : fs.Chain clusters
  bytes : fs.mBytesPerCluster = fs.slotsPerCluster * directoryEntrySize
  slots_pos : 0 < fs.slotsPerCluster

def clusterOf (fs : FAT32) (clusters : List Nat) (index : Nat) : Nat := clusters.getD (index / fs.slotsPerCluster) 0

def slotBytes (fs : FAT32) (cluster k : Nat) : List UInt8 :=
  (List.range directoryEntrySize).map fun i =>
    fs.mDataCache (cluster - reservedClusterCount) (k * directoryEntrySize + i)

def slotAt (fs : FAT32) (clusters : List Nat) (index : Nat) : List UInt8 :=
  slotBytes fs (clusters.getD (index / fs.slotsPerCluster) 0) (index % fs.slotsPerCluster)

def behind (fs : FAT32) (clusters : List Nat) (index : Nat) : Directory where
  mCurrentCluster := (coordinatesAt fs clusters index).cluster
  mOffsetWithinCluster := (coordinatesAt fs clusters index).offsetWithinCluster + directoryEntrySize

def inFront (fs : FAT32) (clusters : List Nat) : (index : Nat) → Directory
  | 0 => { mCurrentCluster := clusters.getD 0 0 }
  | index + 1 => behind fs clusters index

variable (h : Laid fs cs) (hi : i < cs.length * fs.slotsPerCluster)

include h hi in
lemma Laid.link : entryTypeOfFatValue (cs.getD (i / fs.slotsPerCluster) 0) = .link := by
  have hlt : i / fs.slotsPerCluster < cs.length := (Nat.div_lt_iff_lt_mul h.slots_pos).mpr hi
  apply h.chain.link
  rw [getD_eq_getElem _ _ hlt]
  exact getElem_mem hlt

lemma Laid.lockedRead_eq (h : Laid fs cs) (c : Nat) (hk : k < fs.slotsPerCluster) :
    fs.lockedRead (c - reservedClusterCount) (k * directoryEntrySize) directoryEntrySize = .ok (slotBytes fs c k) := by
  apply FAT32.lockedRead_eq
  rw [h.bytes, ← Nat.succ_mul]
  exact Nat.mul_le_mul_right _ hk

section

variable (dir : Directory)

lemma nextCluster_inside (h : dir.mOffsetWithinCluster ≠ fs.mBytesPerCluster) :
    fs.nextCluster dir = .ok (some dir) := if_neg h

lemma nextCluster_link (h : dir.mOffsetWithinCluster = fs.mBytesPerCluster)
    (hlink : entryTypeOfFatValue (fs.mFatCache dir.mCurrentCluster) = .link) :
    fs.nextCluster dir = .ok (some { dir with
      mCurrentCluster := fs.mFatCache dir.mCurrentCluster
      mOffsetWithinCluster := 0 }) := by
  have he : entryTypeOfFatValue (fs.fatEntryAt dir.mCurrentCluster) = .link := hlink
  rw [nextCluster, if_pos h]
  dsimp only
  rw [he]
  rfl

lemma nextCluster_end (h : dir.mOffsetWithinCluster = fs.mBytesPerCluster)
    (hend : entryTypeOfFatValue (fs.mFatCache dir.mCurrentCluster) = .endOfChain) : fs.nextCluster dir = .ok none := by
  have he : entryTypeOfFatValue (fs.fatEntryAt dir.mCurrentCluster) = .endOfChain := hend
  rw [nextCluster, if_pos h]
  dsimp only
  rw [he]

end

lemma succ_div_mod {n : Nat} (hpos : 0 < n) (i : Nat) : i % n + 1 = n ∧ (i + 1) / n = i / n + 1 ∧
    (i + 1) % n = 0 ∨ i % n + 1 < n ∧ (i + 1) / n = i / n ∧ (i + 1) % n = i % n + 1 := by
  have hmod := Nat.mod_lt i hpos
  have hdiv := Nat.div_add_mod i n
  by_cases hlast : i % n + 1 = n
  · have hsucc : i + 1 = n * (i / n + 1) := by
      rw [mul_add, mul_one]
      omega
    rw [hsucc, Nat.mul_div_cancel_left _ hpos, Nat.mul_mod_right]
    exact .inl ⟨hlast, rfl, rfl⟩
  · have hsucc : i + 1 = n * (i / n) + (i % n + 1) := by omega
    have hlt : i % n + 1 < n := by omega
    rw [hsucc, Nat.mul_add_div hpos, Nat.div_eq_of_lt hlt, Nat.mul_add_mod, Nat.mod_eq_of_lt hlt]
    exact .inr ⟨hlt, rfl, rfl⟩

lemma Laid.mFatCache_eq (h : Laid fs cs) (hi : i + 1 < cs.length * fs.slotsPerCluster)
    (hdiv : (i + 1) / fs.slotsPerCluster = i / fs.slotsPerCluster + 1) :
    fs.mFatCache (clusterOf fs cs i) = clusterOf fs cs (i + 1) := by
  rw [clusterOf, clusterOf, hdiv]
  apply h.chain.getElem_succ
  rw [← hdiv]
  exact (Nat.div_lt_iff_lt_mul h.slots_pos).mpr hi

lemma Laid.offset_eq_iff (h : Laid fs cs) (i : Nat) : (behind fs cs i).mOffsetWithinCluster =
    fs.mBytesPerCluster ↔ i % fs.slotsPerCluster + 1 = fs.slotsPerCluster := by
  show i % fs.slotsPerCluster * directoryEntrySize + directoryEntrySize = _ ↔ _
  rw [← Nat.succ_mul, h.bytes]
  unfold directoryEntrySize
  omega

include h hi in
lemma Laid.nextCluster_eq : fs.nextCluster (inFront fs cs i) = .ok (some
      { mCurrentCluster := (coordinatesAt fs cs i).cluster
        mOffsetWithinCluster := (coordinatesAt fs cs i).offsetWithinCluster }) := by
  have hpos := h.slots_pos
  cases i with
  | zero =>
    have hne : 0 ≠ fs.mBytesPerCluster := by
      rw [h.bytes]
      unfold directoryEntrySize
      omega
    rw [nextCluster_inside _ hne, coordinatesAt, Nat.zero_div, Nat.zero_mod, zero_mul]
    rfl
  | succ i =>
    rcases succ_div_mod hpos i with ⟨hlast, hdiv, hmod⟩ | ⟨hlast, hdiv, hmod⟩
    · have hlink := h.link hi
      have he := h.mFatCache_eq hi hdiv
      rw [← clusterOf, ← he] at hlink
      rw [nextCluster_link (inFront fs cs (i + 1)) ((h.offset_eq_iff i).mpr hlast) hlink,
        coordinatesAt, hmod, zero_mul, ← clusterOf, ← he]
      rfl
    · rw [nextCluster_inside (inFront fs cs (i + 1))
        (fun hfull => ne_of_lt hlast ((h.offset_eq_iff i).mp hfull)), coordinatesAt, hdiv, hmod, Nat.succ_mul]
      rfl

include h hi in
lemma Laid.fetchNext_eq : fs.fetchNext (inFront fs cs i) = .ok (some (slotAt fs cs i), inFront fs cs (i + 1)) := by
  have hexhausted : (inFront fs cs i).mExhausted = false := by cases i <;> rfl
  have hge : reservedClusterCount ≤ (coordinatesAt fs cs i).cluster := ((entryType_eq_link_iff _).mp (h.link hi)).1
  have hread := h.lockedRead_eq (coordinatesAt fs cs i).cluster (Nat.mod_lt i h.slots_pos)
  rw [fetchNext, hexhausted, if_neg (by simp), h.nextCluster_eq hi, ok_bind]
  dsimp only
  rw [pureClusterValue, assert_bind hge, pure_eq_ok, ok_bind]
  show (do
    let e ← fs.lockedRead ((coordinatesAt fs cs i).cluster - reservedClusterCount)
      (i % fs.slotsPerCluster * directoryEntrySize) directoryEntrySize
    return (some e, behind fs cs i)) = _
  rw [hread, ok_bind]
  rfl

def pastEnd (fs : FAT32) (dir : Directory) : Directory :=
  { dir with mCurrentCluster := fs.fatEntryAt dir.mCurrentCluster, mExhausted := true }

lemma Laid.fetchNext_end (h : Laid fs cs) : fs.fetchNext (inFront fs cs (cs.length * fs.slotsPerCluster)) =
    .ok (none, pastEnd fs (inFront fs cs (cs.length * fs.slotsPerCluster))) := by
  have hpos := h.slots_pos
  have hne : cs ≠ [] := by
    intro hnil
    have hch := h.chain
    rwa [hnil] at hch
  have hlen : 0 < cs.length := length_pos_of_ne_nil hne
  obtain ⟨i, hi⟩ : ∃ i, cs.length * fs.slotsPerCluster = i + 1 :=
    Nat.exists_eq_succ_of_ne_zero (ne_of_gt (mul_pos hlen hpos))
  have hlast : i = fs.slotsPerCluster * (cs.length - 1) + (fs.slotsPerCluster - 1) := by
    rw [Nat.mul_sub, mul_one, mul_comm]
    have hle := Nat.mul_le_mul_right fs.slotsPerCluster hlen
    omega
  have hlt : fs.slotsPerCluster - 1 < fs.slotsPerCluster := by omega
  have hdiv : i / fs.slotsPerCluster = cs.length - 1 := by
    rw [hlast, Nat.mul_add_div hpos, Nat.div_eq_of_lt hlt, add_zero]
  have hmod : i % fs.slotsPerCluster + 1 = fs.slotsPerCluster := by
    rw [hlast, Nat.mul_add_mod, Nat.mod_eq_of_lt hlt]
    omega
  have hend : entryTypeOfFatValue (fs.mFatCache (behind fs cs i).mCurrentCluster) = .endOfChain := by
    show entryTypeOfFatValue (fs.mFatCache (cs.getD (i / fs.slotsPerCluster) 0)) = _
    rw [hdiv]
    exact h.chain.getElem_last (by omega)
  have hstep := nextCluster_end (behind fs cs i) ((h.offset_eq_iff i).mpr hmod) hend
  rw [hi]
  show (if false = true then _ else (fs.nextCluster (behind fs cs i) >>= _)) = _
  rw [if_neg (by simp), hstep, ok_bind]
  rfl

end UltraOS.FAT32
