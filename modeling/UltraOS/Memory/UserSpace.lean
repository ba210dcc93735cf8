import Mathlib.Order.Nat
import UltraOS.Memory.Range

/-!
# The addresses of user space

The bounds of `Kernel/Memory/MemoryManager.h` for the 64-bit build, and the memory that the kernel reaches
through an address it has been given.
-/

namespace UltraOS

def userspaceUsableBase : Nat := 0x100000

def userspaceUsableCeiling : Nat := 0x800000000000

def isPotentiallyValidUserspacePointer (virtualAddress : Nat) : Bool :=
  virtualAddress ≥ userspaceUsableBase && virtualAddress < userspaceUsableCeiling

def InUserSpace (address : Nat) : Prop := userspaceUsableBase ≤ address ∧ address < userspaceUsableCeiling

instance (address : Nat) : Decidable (InUserSpace address) :=
  inferInstanceAs (Decidable (_ ∧ _))

lemma isPotentiallyValidUserspacePointer_iff (a : Nat) :
    isPotentiallyValidUserspacePointer a = true ↔ InUserSpace a := by
  simp [isPotentiallyValidUserspacePointer, InUserSpace]

structure UserBuffer where
  data : Nat → UInt8 := fun _ => 0
  isAccessible : Nat → Bool := fun _ => true

/-- The number of the bytes that `safe_copy_memory` copies from or to an offset of the buffer, before it
faults. -/
def UserBuffer.copyCount (buffer : UserBuffer) (offset bytes : Nat) : Nat :=
  ((List.range bytes).takeWhile fun i => buffer.isAccessible (offset + i)).length

namespace UserBuffer

variable {user : UserBuffer} {o bs i : Nat}

lemma le_length_takeWhile_iff {α : Type} (p : α → Bool) (l : List α) (i : Nat) :
    i ≤ (l.takeWhile p).length ↔ i ≤ l.length ∧ ∀ a ∈ l.take i, p a = true := by
  induction l generalizing i with
  | nil => simp
  | cons a l ih =>
    cases i with
    | zero => simp
    | succ i =>
      rw [List.takeWhile_cons, List.take_succ_cons]
      cases ha : p a with
      | false => simp [ha]
      | true => simp [ha, ih]

lemma le_copyCount_iff : i ≤ user.copyCount o bs ↔ i ≤ bs ∧ ∀ j < i, user.isAccessible (o + j) = true := by
  rw [copyCount, le_length_takeWhile_iff, List.length_range]
  refine and_congr_right fun hle => ?_
  rw [List.take_range, min_eq_left hle]
  simp only [List.mem_range]

lemma copyCount_le (user : UserBuffer) (o bs : Nat) : user.copyCount o bs ≤ bs := (le_copyCount_iff.mp le_rfl).1

lemma copyCount_add (user : UserBuffer) (o a b : Nat) : user.copyCount o (a + b) =
    if user.copyCount o a < a then user.copyCount o a else a + user.copyCount (o + a) b := by
  apply eq_of_forall_le_iff
  intro c
  split
  · rename_i hlt
    rw [le_copyCount_iff, le_copyCount_iff]
    refine and_congr_left fun hc => ⟨fun _ => ?_, fun hle => Nat.le_add_right_of_le hle⟩
    refine not_lt.mp fun hac => Nat.not_le_of_lt hlt (le_copyCount_iff.mpr ⟨le_refl a, ?_⟩)
    exact fun j hj => hc j (hj.trans hac)
  · rename_i hge
    obtain ⟨_, ha⟩ := le_copyCount_iff.mp (not_lt.mp hge)
    rw [le_copyCount_iff, ← Nat.sub_le_iff_le_add', ← Nat.sub_le_iff_le_add', le_copyCount_iff]
    refine and_congr_right fun _ => ⟨fun hc j hj => ?_, fun hc j hj => ?_⟩
    · rw [add_assoc]
      exact hc (a + j) (by omega)
    · by_cases hja : j < a
      · exact ha j hja
      · have hj' := hc (j - a) (by omega)
        rwa [add_assoc, Nat.add_sub_cancel' (not_lt.mp hja)] at hj'

end UserBuffer

end UltraOS
