import UltraOS.Library.CellMemory
import UltraOS.Memory.UserSpace

/-!
# Memory behind addresses of the user

The copy routines of `Kernel/Architecture/x86/AMD64/SafeOperations.asm`, which catch faults, and
`length_of` of `Kernel/Common/String.h`, which does not. Every byte that the kernel touches at an address it
has been given is recorded, also when the access faults.
-/

namespace UltraOS

structure Access where
  address : Nat
  isSafe : Bool

/-- Memory by addresses, with what the kernel has touched. -/
structure UserMemory where
  data : Nat → UInt8 := fun _ => 0
  isAccessible : Nat → Bool := fun _ => true
  accesses : List Access := []

abbrev Reach (α : Type) : Type := EStateM Fault UserMemory α

def finalMemory {α : Type} : EStateM.Result Fault UserMemory α → UserMemory
  | .ok _ m => m
  | .error _ m => m

def fieldAt (block : List UInt8) (offset size : Nat) : Nat :=
  ((block.drop offset).take size).foldr (fun byte value => byte.toNat + 256 * value) 0

def bytesOf (size value : Nat) : List UInt8 := (List.range size).map fun i => UInt8.ofNat (value / Nat.pow 256 i)

namespace UserMemory

variable (m : UserMemory)

def behind (pointer : Nat) : UserBuffer where
  data i := m.data ((pointer + i) % addressSpace)
  isAccessible i := m.isAccessible ((pointer + i) % addressSpace)

def touch (isSafe : Bool) (pointer count : Nat) : UserMemory :=
  { m with
    accesses := m.accesses ++ (List.range count).map fun i => ⟨(pointer + i) % addressSpace, isSafe⟩ }

def store (pointer : Nat) (bytes : List UInt8) : UserMemory :=
  { m with
    data := fun address =>
      (bytes[(address + addressSpace - pointer) % addressSpace]?).getD (m.data address) }

def block (pointer count : Nat) : List UInt8 := CellMemory.load (m.behind pointer).data 0 count

/-- The number of the bytes that a copy touches: the one that faults is the last. -/
def attempts (pointer bytes : Nat) : Nat := min bytes ((m.behind pointer).copyCount 0 bytes + 1)

variable {m} {p : Nat}

lemma touch_zero (m : UserMemory) {isSafe : Bool} : m.touch isSafe p 0 = m := by
  unfold touch
  rw [List.range_zero, List.map_nil, List.append_nil]

lemma store_nil : m.store p [] = m := by
  unfold store
  simp only [List.getElem?_nil, Option.getD_none]

end UserMemory

def safeCopyFrom (source bytes : Nat) : Reach (Option (List UInt8)) := fun m =>
  .ok (if (m.behind source).copyCount 0 bytes < bytes then none else some (m.block source bytes))
    (m.touch true source (m.attempts source bytes))

def safeCopyTo (destination : Nat) (bytes : List UInt8) : Reach Bool := fun m =>
  let copied := (m.behind destination).copyCount 0 bytes.length
  .ok (copied = bytes.length) ((m.touch true destination (m.attempts destination bytes.length)).store destination
      (bytes.take copied))

/-- `copy_until_null_or_n_from_user`, with the bytes that have been copied, or none if it has faulted. -/
def copyUntilNullOrNFromUser (source : Nat) : (maxLength : Nat) → (copied : List UInt8) → Reach (Option (List UInt8))
  | 0, copied => pure (some copied)
  | maxLength + 1, copied => fun m =>
    let address := (source + copied.length) % addressSpace
    let touched := m.touch true (source + copied.length) 1
    if m.isAccessible address then
      if m.data address = 0 then .ok (some (copied ++ [0])) touched
      else copyUntilNullOrNFromUser source maxLength (copied ++ [m.data address]) touched
    else .ok none touched

def lengthLoop (pointer : Nat) : (fuel : Nat) → (length : Nat) → Reach Nat
  | 0, _ => throw .outOfFuel
  | fuel + 1, length => fun m =>
    let address := (pointer + length) % addressSpace
    let touched := m.touch false (pointer + length) 1
    if m.isAccessible address then
      if m.data address = 0 then .ok length touched
      else lengthLoop pointer fuel (length + 1) touched
    else .error .badPointer touched

def lengthOf (pointer : Nat) : Reach Nat :=
  if pointer = 0 then throw (.assertion "ptr != nullptr") else lengthLoop pointer addressSpace 0

/-- `copy_memory` from memory that has been looked at before. -/
def copyMemoryFrom (source bytes : Nat) : Reach (List UInt8) := fun m =>
  .ok (m.block source bytes) (m.touch false source bytes)

end UltraOS
