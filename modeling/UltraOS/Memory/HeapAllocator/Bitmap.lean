import Mathlib.Data.Fintype.Basic
import UltraOS.Library.TaggedRuns
import UltraOS.Memory.HeapAllocator.Model

/-!
# The map of a heap block as a function from chunks to ids

Four chunks share a byte of the map. What the loops do to bytes is what they do to the ids of single
chunks, and all other chunks of the byte keep theirs.
-/

namespace UltraOS.HeapBlock

open TaggedRuns

def byteId (byte : BitVec 8) (k : Nat) : BitVec 8 := (byte >>> (2 * k)) &&& 3#8

def chunkId (bitmap : List (BitVec 8)) (chunk : Nat) : Nat := (byteId (bitmap.getD (chunk / 4) 0) (chunk % 4)).toNat

lemma mask_eq_byteId_shift : ∀ (byte : BitVec 8) (k : Fin 4),
    byte &&& (3#8 <<< (2 * k.val)) = byteId byte k <<< (2 * k.val) := by
  decide +kernel

lemma id_shift_inj : ∀ id id' k : Fin 4,
    BitVec.ofNat 8 id <<< (2 * k.val) = BitVec.ofNat 8 id' <<< (2 * k.val) ↔ id = id' := by
  decide

lemma id_shift_shift : ∀ id k : Fin 4, BitVec.ofNat 8 id <<< (2 * k.val) >>> (2 * k.val) = BitVec.ofNat 8 id := by
  decide

lemma byteId_id_shift : ∀ id k j : Fin 4,
    byteId (BitVec.ofNat 8 id <<< (2 * k.val)) j = if j = k then BitVec.ofNat 8 id else 0 := by
  decide

lemma byteId_lt (byte : BitVec 8) (k : Nat) : (byteId byte k).toNat < 4 := by
  rw [byteId, BitVec.toNat_and]
  exact Nat.lt_succ_of_le Nat.and_le_right

lemma byteId_or (byte u : BitVec 8) (k : Nat) : byteId (byte ||| u) k = byteId byte k ||| byteId u k := by
  ext i hi
  simp [byteId, Bool.and_or_distrib_right]

lemma byteId_xor (byte u : BitVec 8) (k : Nat) : byteId (byte ^^^ u) k = byteId byte k ^^^ byteId u k := by
  ext i hi
  simp [byteId, Bool.and_xor_distrib_right]

lemma uniqueId_spec : ∀ left right : Fin 4, ∃ id : Fin 4, uniqueId (BitVec.ofNat 8 left) (BitVec.ofNat 8 right) 256 0 =
    .ok (BitVec.ofNat 8 id) ∧ id ≠ 0 ∧ id ≠ left ∧ id ≠ right := by
  decide +kernel

variable {bm : List (BitVec 8)} {c : Nat}

lemma bitIndex_two_mul (c : Nat) : bitIndex (2 * c) = 2 * (c % 4) := by
  unfold bitIndex
  omega

lemma chunkId_lt (bm : List (BitVec 8)) (c : Nat) : chunkId bm c < 4 := byteId_lt _ _

lemma byteId_eq_ofNat (bm : List (BitVec 8)) (c : Nat) :
    byteId (bm.getD (c / 4) 0) (c % 4) = BitVec.ofNat 8 (chunkId bm c) := by
  rw [chunkId, BitVec.ofNat_toNat, BitVec.setWidth_eq]

lemma chunkId_replicate (bs : Nat) : chunkId (List.replicate bs 0) = fun _ => 0 := by
  funext c
  have hbyte : (List.replicate bs (0 : BitVec 8)).getD (c / 4) 0 = 0 := by
    simp only [List.getD_eq_getElem?_getD, List.getElem?_replicate]
    split <;> rfl
  rw [chunkId, hbyte]
  simp [byteId]

lemma controlByte_eq_ok (h : c < 4 * bm.length) : controlByte bm (2 * c) = .ok (bm.getD (c / 4) 0) := by
  have hi : 2 * c / 8 = c / 4 := by omega
  have hlt : c / 4 < bm.length := by omega
  simp [controlByte, hi, hlt]

lemma allocationMask_bitIndex (c : Nat) : allocationMask (bitIndex (2 * c)) = 3#8 <<< bitIndex (2 * c) := by
  rw [bitIndex_two_mul]
  exact (by decide : ∀ k : Fin 4, allocationMask (2 * k) = 3#8 <<< (2 * k.val)) ⟨c % 4, Nat.mod_lt _ (by decide)⟩

lemma mask_eq_chunkId_shift (bm : List (BitVec 8)) (c : Nat) : bm.getD (c / 4) 0 &&& (3#8 <<< bitIndex (2 * c)) =
    BitVec.ofNat 8 (chunkId bm c) <<< bitIndex (2 * c) := by
  rw [bitIndex_two_mul, ← byteId_eq_ofNat]
  exact mask_eq_byteId_shift _ ⟨c % 4, Nat.mod_lt _ (by decide)⟩

variable {id : Nat}

lemma shift_bitIndex_inj {id' : Nat} (hid : id < 4) (hid' : id' < 4) (c : Nat) :
    BitVec.ofNat 8 id <<< bitIndex (2 * c) = BitVec.ofNat 8 id' <<< bitIndex (2 * c) ↔ id = id' := by
  have hinj := id_shift_inj ⟨id, hid⟩ ⟨id', hid'⟩ ⟨c % 4, Nat.mod_lt _ (by decide)⟩
  rwa [bitIndex_two_mul, ← Fin.mk.injEq id hid id' hid']

lemma shift_bitIndex_shift (hid : id < 4) (c : Nat) :
    BitVec.ofNat 8 id <<< bitIndex (2 * c) >>> bitIndex (2 * c) = BitVec.ofNat 8 id := by
  rw [bitIndex_two_mul]
  exact id_shift_shift ⟨id, hid⟩ ⟨c % 4, Nat.mod_lt _ (by decide)⟩

lemma mask_eq_zero_iff (bm : List (BitVec 8)) (c : Nat) :
    bm.getD (c / 4) 0 &&& allocationMask (bitIndex (2 * c)) = 0 ↔ chunkId bm c = 0 := by
  have hinj := shift_bitIndex_inj (chunkId_lt bm c) (show 0 < 4 by decide) c
  rw [BitVec.zero_shiftLeft] at hinj
  rwa [allocationMask_bitIndex, mask_eq_chunkId_shift]

lemma neighborId_eq_ok (h : c < 4 * bm.length) : neighborId bm (2 * c) = .ok (BitVec.ofNat 8 (chunkId bm c)) := by
  rw [neighborId, controlByte_eq_ok h, ok_bind, allocationMask_bitIndex, mask_eq_chunkId_shift,
    shift_bitIndex_shift (chunkId_lt bm c), pure_eq_ok]

lemma chunkId_set {byte : BitVec 8} (h : c < 4 * bm.length)
    (hbyte : ∀ j : Fin 4, (byteId byte j).toNat = if j.val = c % 4 then id else (byteId (bm.getD (c / 4) 0) j).toNat) :
    chunkId (bm.set (2 * c / 8) byte) = fill (chunkId bm) ⟨c, 1⟩ id := by
  have hi : 2 * c / 8 = c / 4 := by omega
  have hlt : c / 4 < bm.length := by omega
  funext u
  have hu := hbyte ⟨u % 4, by omega⟩
  by_cases hsame : u / 4 = c / 4
  · have hget : (bm.set (c / 4) byte).getD (u / 4) 0 = byte := by simp [hsame, hlt]
    rw [hi, chunkId, hget, hu]
    by_cases heq : u = c
    · rw [if_pos (by rw [heq]), fill_of_holds (Span.holds_singleton.mpr heq)]
    · rw [if_neg (by dsimp only; omega), fill_of_not_holds (Span.holds_singleton.not.mpr heq), chunkId, hsame]
  · have hget : (bm.set (c / 4) byte).getD (u / 4) 0 = bm.getD (u / 4) 0 := by
      simp [List.getElem?_set_ne (Ne.symm hsame)]
    have hne : u ≠ c := fun heq => hsame (by rw [heq])
    rw [hi, chunkId, hget, fill_of_not_holds (Span.holds_singleton.not.mpr hne), chunkId]

lemma chunkId_or (hid : id < 4) (h : c < 4 * bm.length) (hblank : chunkId bm c = 0) :
    chunkId (bm.set (2 * c / 8) (bm.getD (c / 4) 0 ||| (BitVec.ofNat 8 id <<< bitIndex (2 * c)))) =
    fill (chunkId bm) ⟨c, 1⟩ id := by
  apply chunkId_set h
  intro j
  have hscaled := byteId_id_shift ⟨id, hid⟩ ⟨c % 4, Nat.mod_lt _ (by decide)⟩ j
  rw [bitIndex_two_mul, byteId_or, hscaled]
  by_cases hj : j = ⟨c % 4, Nat.mod_lt _ (by decide)⟩
  · have hold : byteId (bm.getD (c / 4) 0) j = 0 := by
      rw [hj, byteId_eq_ofNat, hblank]
      rfl
    rw [if_pos hj, if_pos (congrArg Fin.val hj), hold, BitVec.toNat_or, BitVec.toNat_ofNat]
    simp
    omega
  · rw [if_neg hj, if_neg fun hval => hj (Fin.ext hval)]
    simp

lemma chunkId_xor (h : c < 4 * bm.length) : chunkId (bm.set (2 * c / 8) (bm.getD (c / 4) 0 ^^^
        (BitVec.ofNat 8 (chunkId bm c) <<< bitIndex (2 * c)))) = fill (chunkId bm) ⟨c, 1⟩ 0 := by
  apply chunkId_set h
  intro j
  have hscaled := byteId_id_shift ⟨chunkId bm c, chunkId_lt bm c⟩ ⟨c % 4, Nat.mod_lt _ (by decide)⟩ j
  rw [bitIndex_two_mul, byteId_xor, hscaled]
  by_cases hj : j = ⟨c % 4, Nat.mod_lt _ (by decide)⟩
  · have hold : byteId (bm.getD (c / 4) 0) j = BitVec.ofNat 8 (chunkId bm c) := by rw [hj, byteId_eq_ofNat]
    rw [if_pos hj, if_pos (congrArg Fin.val hj), hold, BitVec.xor_self]
    rfl
  · rw [if_neg hj, if_neg fun hval => hj (Fin.ext hval)]
    simp

end UltraOS.HeapBlock
