import UltraOS.Memory.SafeOperations

/-!
# The table of interrupt controllers

`ACPI::generate_smp_data` of `Kernel/ACPI/ACPI.cpp`, in the build for 64 bits. Offsets are those into the table, and a read that leaves
it is a fault. Polarities, trigger modes and buses are numbers, as a table can have ones without a name.
-/

namespace UltraOS.ACPI

structure IRQ where
  (irqIndex gsi polarity triggerMode : Nat)

structure NMI where
  (polarity triggerMode lint : Nat)

structure LAPICInfo where
  (id acpiUid : Nat)
  nmiConnection : Option NMI := none

structure IOAPICNMI where
  (polarity triggerMode gsi : Nat)

structure IOAPICInfo where
  id : Nat
  gsiRange : Range
  address : Nat

structure SMPData where
  lapics : List LAPICInfo := []
  lapicAddress : Nat
  bspLapicId : Nat
  ioapicNmis : List IOAPICNMI := []
  ioapics : List IOAPICInfo := []
  legacyIrqsToInfo : Nat → Option IRQ

inductive EntryType where
  | lapic | ioapic | interruptSourceOverride | nmiSource | lapicNmi | lapicAddressOverride | ignored

def EntryType.ofByte : Nat → EntryType
  | 0 => .lapic
  | 1 => .ioapic
  | 2 => .interruptSourceOverride
  | 3 => .nmiSource
  | 4 => .lapicNmi
  | 5 => .lapicAddressOverride
  | _ => .ignored

def sdtHeaderSize : Nat := 36
def madtSize : Nat := 44
def legacyIrqCount : Nat := 16
def maxMemoryAddress : Nat := 0xFFFFFFFFFFFFFFFF
def allProcessorsUid : Nat := 0xFF

/-- `CONFORMING` is 0, and the defaults `ACTIVE_HIGH` and `EDGE` are 1. -/
def orDefault (value : Nat) : Nat := if value = 0 then 1 else value

def shouldBeIgnored (flags : Nat) : Bool := flags.testBit 0 == flags.testBit 1

def verifyChecksum (bytes : List UInt8) : Bool := bytes.foldl (· + ·) 0 == 0

structure Found extends SMPData where
  lapicUidToNmi : List (Nat × NMI) := []

section

variable (table : List UInt8) (madt : Nat)

def read (offset size : Nat) : Run Nat :=
  if offset + size ≤ table.length then .ok (fieldAt table offset size) else .error .badPointer

/-- The `switch` over the types. The flags of interrupts are fields of two bits. -/
def parseEntry (found : Found) : EntryType → Run Found
  | .lapic => do
    let id ← read table (madt + 3) 1
    let flags ← read table (madt + 4) 4
    if shouldBeIgnored flags then return found
    let acpiUid ← read table (madt + 2) 1
    return { found with lapics := found.lapics ++ [{ id, acpiUid }] }
  | .ioapic => do
    let id ← read table (madt + 2) 1
    let address ← read table (madt + 4) 4
    let gsiBase ← read table (madt + 8) 4
    return { found with ioapics := found.ioapics ++ [⟨id, ⟨gsiBase, gsiBase⟩, address⟩] }
  | .interruptSourceOverride => do
    let bus ← read table (madt + 2) 1
    assert (bus = 0) "iso->bus == Bus::ISA"
    let source ← read table (madt + 3) 1
    let gsi ← read table (madt + 4) 4
    let flags ← read table (madt + 8) 1
    let info : IRQ := ⟨source, gsi, orDefault (flags % 4), orDefault (flags / 4 % 4)⟩
    return { found with
      legacyIrqsToInfo := fun irq => if irq = source then some info else found.legacyIrqsToInfo irq }
  | .lapicAddressOverride => do
    let address ← read table (madt + 4) 8
    assert (address ≤ maxMemoryAddress) "LAPIC override address is outside of accessible range"
    return { found with lapicAddress := address }
  | .nmiSource => do
    let flags ← read table (madt + 2) 1
    let gsi ← read table (madt + 4) 4
    return { found with ioapicNmis := found.ioapicNmis ++ [⟨flags % 4, flags / 4 % 4, gsi⟩] }
  | .lapicNmi => do
    let uid ← read table (madt + 2) 1
    let flags ← read table (madt + 3) 1
    let lint ← read table (madt + 5) 1
    let nmi : NMI := ⟨orDefault (flags % 4), orDefault (flags / 4 % 4), lint⟩
    return { found with lapicUidToNmi := found.lapicUidToNmi ++ [(uid, nmi)] }
  | .ignored => .ok found

def parseNext (found : Found) : Run (Nat × Found) := do
  let type ← read table madt 1
  let found ← parseEntry table madt found (.ofByte type)
  let length ← read table (madt + 1) 1
  return (madt + length, found)

def entryLoop : (fuel : Nat) → (madt : Nat) → Found → Run Found
  | 0, _, _ => .error .outOfFuel
  | fuel + 1, madt, found =>
    if madt < table.length then do
      let (madt, found) ← parseNext table madt found
      entryLoop fuel madt found
    else .ok found

def connectNmi (lapics : List LAPICInfo) (nmiEntry : Nat × NMI) : List LAPICInfo :=
  lapics.modify (lapics.findIdx (·.acpiUid = nmiEntry.1)) ({ · with nmiConnection := some nmiEntry.2 })

def connectNmis (found : Found) : Run SMPData :=
  match found.lapicUidToNmi with
  | [] => .ok found.toSMPData
  | (uid, nmi) :: rest =>
    if uid = allProcessorsUid then do
      assert rest.isEmpty "lapic_uid_to_nmi.size() == 1"
      return { found.toSMPData with lapics := found.lapics.map ({ · with nmiConnection := some nmi }) }
    else .ok { found.toSMPData with lapics := found.lapicUidToNmi.foldl connectNmi found.lapics }

def generateSmpData (fuel bspLapicId : Nat) : Run SMPData := do
  let lapicAddress ← read table sdtHeaderSize 4
  let legacyIrqsToInfo irq := if irq < legacyIrqCount then some ⟨irq, irq, 1, 1⟩ else none
  let found ← entryLoop table fuel madtSize { lapicAddress, bspLapicId, legacyIrqsToInfo }
  connectNmis found

def typeAt : EntryType := .ofByte (fieldAt table madt 1)

def lengthAt : Nat := fieldAt table (madt + 1) 1

/-- The bytes of an entry up to the last one that is looked at. -/
def EntryType.extent : EntryType → Nat
  | .lapic | .nmiSource => 8
  | .ioapic | .lapicAddressOverride => 12
  | .interruptSourceOverride => 9
  | .lapicNmi => 6
  | .ignored => 2

/-- An assertion about the entry fails. -/
def Refused : EntryType → Prop
  | .interruptSourceOverride => madt + 3 ≤ table.length ∧ fieldAt table (madt + 2) 1 ≠ 0
  | .lapicAddressOverride => madt + 12 ≤ table.length ∧ maxMemoryAddress < fieldAt table (madt + 4) 8
  | _ => False

/-- The entries from an offset on lie inside of the table and have a length, up to one that is refused. -/
inductive Fits : (madt : Nat) → Prop
  | ended (madt : Nat) (h : table.length ≤ madt) : Fits madt
  | refused (madt : Nat) (hlt : madt < table.length) (h : Refused table madt (typeAt table madt)) : Fits madt
  | entry (madt : Nat) (hlt : madt < table.length) (h : madt + (typeAt table madt).extent ≤ table.length)
      (hadvance : lengthAt table madt ≠ 0) (hrest : Fits (madt + lengthAt table madt)) : Fits madt

/-- The body of the loop gets behind an entry exactly if so many bytes can be read. -/
def Reads (extent : Nat) (x : Run (Nat × Found)) : Prop :=
  if madt + extent ≤ table.length then ∃ found, x = .ok (madt + lengthAt table madt, found)
  else x = .error .badPointer

end

/-- The run returns, or an assertion fails. -/
def Ends {α : Type} (x : Run α) : Prop := x ≠ .error .badPointer ∧ x ≠ .error .outOfFuel

/-- A table with a valid checksum that holds the header of all tables. -/
structure MADT where
  bytes : List UInt8
  checksum : verifyChecksum bytes = true
  header : sdtHeaderSize ≤ bytes.length

/-- With enough steps the parser ends, and it reads nothing outside of the table. -/
def Bounded (madt : MADT) (bspLapicId : Nat) : Prop := ∃ fuel, Ends (generateSmpData madt.bytes fuel bspLapicId)

variable {table : List UInt8} {madt extent : Nat} (found : Found)

namespace Reads

lemma read_bind {o n : Nat} {f : Nat → Run (Nat × Found)} (hle : o + n ≤ madt + extent) (hin : o + n ≤ table.length →
    Reads table madt extent (f (fieldAt table o n))) : Reads table madt extent (read table o n >>= f) := by
  unfold read
  split
  · exact hin ‹_›
  · rw [Reads, if_neg (by omega)]
    rfl

lemma advanced (hin : madt + extent ≤ table.length) :
    Reads table madt extent (.ok (madt + lengthAt table madt, found)) := by
  rw [Reads, if_pos hin]
  exact ⟨found, rfl⟩

end Reads

lemma parseNext_eq (hlt : madt < table.length) : parseNext table madt found = (do
      let found ← parseEntry table madt found (typeAt table madt)
      let length ← read table (madt + 1) 1
      return (madt + length, found)) := by
  have hin : madt + 1 ≤ table.length := hlt
  rw [parseNext, read, if_pos hin]
  rfl

lemma parseNext_reads (hlt : madt < table.length) (hr : ¬Refused table madt (typeAt table madt)) :
    Reads table madt (typeAt table madt).extent (parseNext table madt found) := by
  rw [parseNext_eq found hlt]
  cases htype : typeAt table madt <;>
    simp only [htype, parseEntry, bind_assoc, pure_bind, EntryType.extent, Refused] at hr ⊢
  case lapic =>
    refine .read_bind (by omega) fun _ => .read_bind (by omega) fun _ => ?_
    split
    · exact .read_bind (by omega) fun _ => .advanced _ (by omega)
    · rw [bind_assoc]
      exact .read_bind (by omega) fun _ => .read_bind (by omega) fun _ => .advanced _ (by omega)
  case interruptSourceOverride =>
    refine .read_bind (by omega) fun _ => ?_
    rw [decide_eq_true (by omega)]
    repeat refine .read_bind (by omega) fun _ => ?_
    exact .advanced _ (by omega)
  case lapicAddressOverride =>
    refine .read_bind (by omega) fun _ => ?_
    rw [decide_eq_true (by omega)]
    exact .read_bind (by omega) fun _ => .advanced _ (by omega)
  all_goals
    repeat refine .read_bind (by omega) fun _ => ?_
    exact .advanced _ (by omega)

lemma parseNext_refused (hlt : madt < table.length) (hr : Refused table madt (typeAt table madt)) :
    ∃ text, parseNext table madt found = .error (.assertion text) := by
  rw [parseNext_eq found hlt]
  cases htype : typeAt table madt <;> simp only [htype, Refused] at hr
  all_goals
    rw [parseEntry, read, if_pos (by omega), ok_bind, decide_eq_false (by omega)]
    exact ⟨_, rfl⟩

lemma ends_entryLoop_succ (hlt : madt < table.length) : ∃ found', ∀ n, Ends (entryLoop table (n + 1) madt found) ↔
    Refused table madt (typeAt table madt) ∨ madt + (typeAt table madt).extent ≤ table.length ∧
    Ends (entryLoop table n (madt + lengthAt table madt) found') := by
  simp only [entryLoop, if_pos hlt]
  by_cases hr : Refused table madt (typeAt table madt)
  · obtain ⟨text, htext⟩ := parseNext_refused found hlt hr
    exact ⟨found, fun n => by simp [htext, hr, Ends]⟩
  · have hreads := parseNext_reads found hlt hr
    unfold Reads at hreads
    split at hreads
    · obtain ⟨found', hok⟩ := hreads
      exact ⟨found', fun n => by simp [*]⟩
    · exact ⟨found, fun n => by simp [*, Ends]⟩

lemma exists_ends_entryLoop_iff : (∃ n, Ends (entryLoop table n madt found)) ↔ Fits table madt := by
  constructor
  · rintro ⟨n, h⟩
    induction n generalizing madt found with
    | zero => exact absurd rfl h.2
    | succ n ih =>
      by_cases hlt : madt < table.length
      · obtain ⟨found', hstep⟩ := ends_entryLoop_succ found hlt
        rcases (hstep n).mp h with hr | ⟨hin, hends⟩
        · exact .refused madt hlt hr
        · have hrest := ih found' hends
          by_cases hzero : lengthAt table madt = 0
          · -- an entry without a length leads to itself
            rwa [hzero] at hrest
          · exact .entry madt hlt hin hzero hrest
      · exact .ended madt (not_lt.mp hlt)
  · intro h
    induction h generalizing found with
    | ended madt h =>
      refine ⟨1, ?_⟩
      rw [entryLoop, if_neg h.not_gt]
      exact ⟨nofun, nofun⟩
    | refused madt hlt h =>
      obtain ⟨found', hstep⟩ := ends_entryLoop_succ found hlt
      exact ⟨1, (hstep 0).mpr (.inl h)⟩
    | entry madt hlt h hadvance hrest ih =>
      obtain ⟨found', hstep⟩ := ends_entryLoop_succ found hlt
      obtain ⟨n, hn⟩ := ih found'
      exact ⟨n + 1, (hstep n).mpr (.inr ⟨h, hn⟩)⟩

lemma ends_bind_connectNmis (x : Run Found) : Ends (x >>= connectNmis) ↔ Ends x := by
  cases x with
  | error e => simp [Ends]
  | ok found =>
    refine iff_of_true ?_ ⟨nofun, nofun⟩
    rw [ok_bind, connectNmis]
    split
    · exact ⟨nofun, nofun⟩
    · split
      · cases ‹List _› <;> exact ⟨nofun, nofun⟩
      · exact ⟨nofun, nofun⟩

lemma Bounded.fits {m : MADT} {bsp : Nat} (h : Bounded m bsp) :
    sdtHeaderSize + 4 ≤ m.bytes.length ∧ Fits m.bytes madtSize := by
  obtain ⟨n, h⟩ := h
  unfold generateSmpData read at h
  split at h
  · exact ⟨‹_›, (exists_ends_entryLoop_iff _).mp ⟨n, (ends_bind_connectNmis _).mp h⟩⟩
  · exact absurd rfl h.1

/-- It is so exactly if the header is whole and the entries fit behind it. -/
theorem bounded_iff (madt : MADT) (bspLapicId : Nat) :
    Bounded madt bspLapicId ↔ sdtHeaderSize + 4 ≤ madt.bytes.length ∧ Fits madt.bytes madtSize := by
  refine ⟨Bounded.fits, fun ⟨hle, h⟩ => ?_⟩
  obtain ⟨n, hn⟩ := (exists_ends_entryLoop_iff _).mpr h
  refine ⟨n, ?_⟩
  rw [generateSmpData, read, if_pos hle]
  exact (ends_bind_connectNmis _).mpr hn

def sample (length checksum : UInt8) (entry : List UInt8) : List UInt8 :=
  [0x41, 0x50, 0x49, 0x43, length, 0, 0, 0, 0, checksum] ++ List.replicate 34 0 ++ entry

/-- An entry of the length 0, and one of which all but the header is missing. -/
theorem not_bounded : ¬Bounded ⟨sample 0x34 0xAF (List.replicate 8 0), by decide, by decide⟩ 0 ∧
    ¬Bounded ⟨sample 0x2E 0xA8 [1, 12], by decide, by decide⟩ 0 := by
  constructor <;> intro h <;> cases h.fits.2 with
  | ended _ hle => exact absurd hle (by decide)
  | refused _ _ hr => exact hr
  | entry _ _ hin hadvance => first | exact hadvance rfl | exact absurd hin (by decide)

end UltraOS.ACPI
