import UltraOS.Base.ErrorCode
import UltraOS.Memory.Confinement

/-!
# Window commands

`dispatch_window_command` of `Kernel/WindowManager/WindowManager.cpp` with the command blocks of
`Shared/Window.h` in the layout of the 64-bit build. The pointer of the user is not checked, and the title
of a new window is read without a guard.
-/

namespace UltraOS

open UserMemory

inductive WMCommand where
  | createWindow
  | destroyWindow
  | popEvent
  | setTitle
  | invalidateRect
deriving DecidableEq

namespace WMCommand

def ofNat? : Nat → Option WMCommand
  | 0 => some .createWindow
  | 1 => some .destroyWindow
  | 2 => some .popEvent
  | 3 => some .setTitle
  | 4 => some .invalidateRect
  | _ => none

def blockSize : WMCommand → Nat
  | .createWindow => 48
  | .destroyWindow => 8
  | .popEvent => 32
  | .setTitle => 16
  | .invalidateRect => 24

end WMCommand

structure WindowCreateCommand where
  topLeftX : Nat
  topLeftY : Nat
  width : Nat
  height : Nat
  title : Nat
  framebuffer : Nat
  pitch : Nat
  windowId : Nat

namespace WindowCreateCommand

def ofBlock (block : List UInt8) : WindowCreateCommand where
  topLeftX := fieldAt block 4 4
  topLeftY := fieldAt block 8 4
  width := fieldAt block 12 4
  height := fieldAt block 16 4
  title := fieldAt block 24 8
  framebuffer := fieldAt block 32 8
  pitch := fieldAt block 40 4
  windowId := fieldAt block 44 4

/-- The block with the fields that are set by the kernel. -/
def toBlock (command : WindowCreateCommand) (block : List UInt8) : List UInt8 :=
  block.take 32 ++ bytesOf 8 command.framebuffer ++ bytesOf 4 command.pitch ++ bytesOf 4 command.windowId

end WindowCreateCommand

/-- What the kernel keeps for the thread and does for its windows. -/
structure WindowServer where
  windows : List Nat
  /-- A new window: its id, the address of its framebuffer and the pitch. -/
  create : WindowCreateCommand → (title : List UInt8) → Run (Nat × Nat × Nat)
  popEvent : (id : Nat) → (index : Nat) → UInt8

section

variable (server : WindowServer) (userPtr : Nat)

def withBlock (size : Nat) (next : List UInt8 → Reach ErrorCode) : Reach ErrorCode := do
  match ← safeCopyFrom userPtr size with
  | none => return .memoryAccessViolation
  | some block => next block

def withWindow (block : List UInt8) (next : Nat → Reach ErrorCode) : Reach ErrorCode :=
  let windowId := fieldAt block 4 4
  if windowId ∈ server.windows then next windowId else pure .invalidArgument

def reportWindow (block : List UInt8) (wcCommand : WindowCreateCommand) (size : Nat) :
    Reach ErrorCode := do
  let title ← copyMemoryFrom wcCommand.title size
  match server.create wcCommand title with
  | .error fault => throw fault
  | .ok (id, framebuffer, pitch) =>
    let wcCommand := { wcCommand with windowId := id, framebuffer := framebuffer, pitch := pitch }
    let copied ← safeCopyTo userPtr (wcCommand.toBlock block)
    return if copied then .noError else .memoryAccessViolation

def createWindow (block : List UInt8) : Reach ErrorCode := do
  let wcCommand := WindowCreateCommand.ofBlock block
  let size ← lengthOf wcCommand.title
  reportWindow server userPtr block wcCommand size

def popEvent (block : List UInt8) : Reach ErrorCode :=
  withWindow server block fun windowId => do
    let event := (List.range 24).map (server.popEvent windowId)
    let copied ← safeCopyTo userPtr (block.take 8 ++ event)
    return if copied then .noError else .memoryAccessViolation

def setTitle (block : List UInt8) : Reach ErrorCode :=
  withWindow server block fun _ => do
    let title ← copyUntilNullOrNFromUser (fieldAt block 8 8) 256 []
    return if title.isNone then .memoryAccessViolation else .noError

def destroyWindow (block : List UInt8) : Reach ErrorCode := withWindow server block fun _ => pure .noError

def invalidateRect (block : List UInt8) : Reach ErrorCode := withWindow server block fun _ => pure .noError

def handleCommand (block : List UInt8) : WMCommand → Reach ErrorCode
  | .createWindow => createWindow server userPtr block
  | .destroyWindow => destroyWindow server block
  | .popEvent => popEvent server userPtr block
  | .setTitle => setTitle server block
  | .invalidateRect => invalidateRect server block

def dispatchCommand (command : WMCommand) : Reach ErrorCode :=
  withBlock userPtr command.blockSize fun block => handleCommand server userPtr block command

def dispatchWindowCommand : Reach ErrorCode :=
  withBlock userPtr 4 fun command =>
    match WMCommand.ofNat? (fieldAt command 0 4) with
    | none => pure .invalidArgument
    | some command => dispatchCommand server userPtr command

end

variable {α β : Type} {server : WindowServer} {userPtr : Nat} {m : UserMemory}

def Discreet (server : WindowServer) (userPtr : Nat) (m : UserMemory) (command : WMCommand) : Prop :=
  (command = .createWindow → fieldAt (m.block userPtr 48) 24 8 = 0) ∧
  (command = .setTitle → fieldAt (m.block userPtr 16) 4 4 ∈ server.windows →
    m.StringStaysInside (fieldAt (m.block userPtr 16) 8 8) 256)

def CommandStaysInside (server : WindowServer) (userPtr : Nat) (m : UserMemory) : Prop :=
  m.StaysInside userPtr 4 ∧ (m.AllAccessible userPtr 4 → ∀ command,
    WMCommand.ofNat? (fieldAt (m.block userPtr 4) 0 4) = some command → m.StaysInside userPtr command.blockSize ∧
        (m.AllAccessible userPtr command.blockSize → Discreet server userPtr m command))

variable {size : Nat}

lemma withBlock_of_accessible (h : m.AllAccessible userPtr size) (next : List UInt8 → Reach ErrorCode) :
    withBlock userPtr size next m = next (m.block userPtr size) (m.touch true userPtr size) :=
  bind_of_ok (safeCopyFrom_of_accessible h)

lemma withBlock_of_fault (h : ¬m.AllAccessible userPtr size) (next : List UInt8 → Reach ErrorCode) :
    withBlock userPtr size next m = .ok .memoryAccessViolation (m.touch true userPtr (m.attempts userPtr size)) :=
  bind_of_ok (safeCopyFrom_of_fault h)

lemma confined_touch_iff (h : m.AllAccessible userPtr size) :
    (m.touch true userPtr size).Confined ↔ m.Confined ∧ m.StaysInside userPtr size := by
  rw [← confined_touch_attempts, h.attempts]

variable (b : List UInt8)

lemma finalMemory_withWindow (code : ErrorCode) : finalMemory (withWindow server b (fun _ => pure code) m) = m := by
  unfold withWindow
  split <;> rfl

lemma grows_reportWindow (wcCommand : WindowCreateCommand) (size : Nat) :
    Grows (reportWindow server userPtr b wcCommand size) := by
  refine Grows.bind (fun _ _ => mem_touch) fun title => ?_
  split
  · exact grows_throw _
  · exact Grows.bind (fun _ _ => mem_touch) fun copied => fun _ _ h => h

lemma confined_createWindow :
    (finalMemory (createWindow server userPtr b m)).Confined ↔ m.Confined ∧ fieldAt b 24 8 = 0 := by
  by_cases htitle : fieldAt b 24 8 = 0
  · have hlen : lengthOf (WindowCreateCommand.ofBlock b).title m = .error (.assertion "ptr != nullptr") m := by
      change lengthOf (fieldAt b 24 8) m = _
      rw [htitle]
      rfl
    have hfault : createWindow server userPtr b m = .error (.assertion "ptr != nullptr") m := bind_of_error hlen
    rw [hfault]
    exact ⟨fun h => ⟨h, htitle⟩, And.left⟩
  · refine iff_of_false ?_ fun h => htitle h.2
    intro hconf
    cases (hconf _ (mem_bind (mem_lengthOf htitle m) (grows_reportWindow b _))).2

/-- An event is written to the bytes that the command has been read from. -/
lemma confined_popEvent {b : List UInt8} (hlen : b.length = 32) (h : m.Confined → m.StaysInside userPtr 32) :
    (finalMemory (popEvent server userPtr b m)).Confined ↔ m.Confined := by
  unfold popEvent withWindow
  dsimp only
  split
  · generalize hbs : b.take 8 ++ (List.range 24).map (server.popEvent (fieldAt b 4 4)) = bs
    have hsize : bs.length = 32 := by
      rw [← hbs, List.length_append, List.length_take, List.length_map, List.length_range, hlen]
      rfl
    change (finalMemory (safeCopyTo userPtr bs m)).Confined ↔ _
    rw [confined_safeCopyTo, hsize]
    exact ⟨And.left, fun hm => ⟨hm, h hm⟩⟩
  · exact Iff.rfl

lemma finalMemory_bind_pure (x : Reach α) (f : α → β) :
    finalMemory ((x >>= fun a => pure (f a)) m) = finalMemory (x m) := by
  cases heq : x m with
  | ok a m' => exact congrArg finalMemory (bind_of_ok heq)
  | error fault m' => exact congrArg finalMemory (bind_of_error heq)

lemma confined_setTitle : (finalMemory (setTitle server b m)).Confined ↔ m.Confined ∧
    (fieldAt b 4 4 ∈ server.windows → m.StringStaysInside (fieldAt b 8 8) 256) := by
  unfold setTitle withWindow
  split
  · rename_i hwindow
    have hcopy : (finalMemory (copyUntilNullOrNFromUser (fieldAt b 8 8) 256 [] m)).Confined ↔
        m.Confined ∧ m.StringStaysInside (fieldAt b 8 8) 256 :=
      confined_copyUntilNullOrNFromUser (fieldAt b 8 8) 256 [] m
    rw [forall_prop_of_true hwindow, ← hcopy]
    exact iff_of_eq (congrArg Confined (finalMemory_bind_pure _ _))
  · rename_i hnone
    exact ⟨fun h => ⟨h, fun hwindow => absurd hwindow hnone⟩, And.left⟩

lemma discreet_of_ne {command : WMCommand} (hcr : command ≠ .createWindow)
    (htitle : command ≠ .setTitle) : Discreet server userPtr m command :=
  ⟨fun h => absurd h hcr, fun h => absurd h htitle⟩

lemma confined_handleCommand (command : WMCommand) :
    (finalMemory (handleCommand server userPtr (m.block userPtr command.blockSize) command
      (m.touch true userPtr command.blockSize))).Confined ↔
        (m.touch true userPtr command.blockSize).Confined ∧ Discreet server userPtr m command := by
  cases command with
  | createWindow =>
    refine (confined_createWindow _).trans (and_congr_right fun _ => ?_)
    exact ⟨fun htitle => ⟨fun _ => htitle, (nomatch ·)⟩, fun h => h.1 rfl⟩
  | destroyWindow | invalidateRect =>
    refine (iff_of_eq (congrArg Confined (finalMemory_withWindow _ _))).trans ?_
    exact (and_iff_left (discreet_of_ne (by decide) (by decide))).symm
  | popEvent =>
    refine (confined_popEvent CellMemory.length_load ?_).trans ?_
    · exact fun hconf i hi _ => (confined_touch.mp hconf).2 i hi
    · exact (and_iff_left (discreet_of_ne (by decide) (by decide))).symm
  | setTitle =>
    refine (confined_setTitle _).trans (and_congr_right fun _ => ?_)
    exact ⟨fun htitle => ⟨(nomatch ·), fun _ => htitle⟩, fun h => h.2 rfl⟩

lemma confined_dispatchCommand (command : WMCommand) :
    (finalMemory (dispatchCommand server userPtr command m)).Confined ↔ m.Confined ∧
    m.StaysInside userPtr command.blockSize ∧
    (m.AllAccessible userPtr command.blockSize → Discreet server userPtr m command) := by
  by_cases hacc : m.AllAccessible userPtr command.blockSize
  · rw [forall_prop_of_true hacc, ← and_assoc, ← confined_touch_iff hacc, dispatchCommand, withBlock_of_accessible hacc]
    exact confined_handleCommand command
  · rw [dispatchCommand, withBlock_of_fault hacc]
    refine confined_touch_attempts.trans ?_
    exact and_congr_right fun _ => ⟨fun h => ⟨h, fun hall => absurd hall hacc⟩, And.left⟩

lemma confined_dispatchWindowCommand (server : WindowServer) (userPtr : Nat) (m : UserMemory) :
    (finalMemory (dispatchWindowCommand server userPtr m)).Confined ↔ m.Confined ∧
    CommandStaysInside server userPtr m := by
  by_cases hacc : m.AllAccessible userPtr 4
  · rw [CommandStaysInside, forall_prop_of_true hacc, ← and_assoc,
      ← confined_touch_iff hacc, dispatchWindowCommand, withBlock_of_accessible hacc]
    cases hcommand : WMCommand.ofNat? (fieldAt (m.block userPtr 4) 0 4) with
    | none => exact ⟨fun h => ⟨h, fun _ h => nomatch h⟩, And.left⟩
    | some command =>
      refine confined_dispatchCommand command |>.trans (and_congr_right fun _ => ?_)
      refine ⟨fun h command' heq => ?_, fun h => h command rfl⟩
      cases heq
      exact h
  · rw [dispatchWindowCommand, withBlock_of_fault hacc]
    refine confined_touch_attempts.trans ?_
    exact and_congr_right fun _ => ⟨fun h => ⟨h, fun hall => absurd hall hacc⟩, And.left⟩

end UltraOS
