import UltraOS.Core.Syscall.Transfer
import UltraOS.WindowManager.Commands

/-!
# Pointers of the user

Which bytes `READ` and `WM_COMMAND` touch at addresses that the process chooses, and when all of them are
bytes of user space that are copied under a guard.
-/

namespace UltraOS.Syscall

open UserMemory

variable {st : IOStream} {user : UserBuffer} {length : Nat}

def wmCommand (server : WindowServer) (arg0 : Nat) : Reach ErrorCode := dispatchWindowCommand server arg0

section

variable {stream' : IOStream} {ret : ErrorOr Nat} {received : List UInt8}

lemma touchedBy_eq (hsound : ReadSound length user st) (h : st.read length user = .ok (stream', ret, received)) :
    touchedBy ret received = min (st.readSize length) (user.copyCount 0 (st.readSize length) + 1) := by
  cases st with
  | fileIterator it =>
    obtain ⟨⟨it', ret', received'⟩, hread, h⟩ := of_bind h
    cases h
    rw [FileIterator.read] at hread
    rw [IOStream.readSize]
    split at hread
    · rename_i hcl
      rw [if_pos hcl, Nat.zero_min]
      cases hread
      rfl
    · rename_i hopen
      rw [if_neg hopen]
      dsimp only at hread
      have hle := user.copyCount_le 0 (min length (it.mFile.mSize - it.mOffset))
      split at hread
      · rename_i hfault
        obtain ⟨⟨file, bs⟩, hbs, hread⟩ := of_bind hread
        obtain ⟨hlen, _⟩ := FAT32.read_length hbs
        cases hread
        rw [touchedBy, List.length_take, hlen]
        omega
      · obtain ⟨⟨file, bs⟩, hbs, hread⟩ := of_bind hread
        obtain ⟨hlen, _⟩ := FAT32.read_length hbs
        cases hread
        rw [touchedBy, hlen]
        · omega
        · intro h
          cases h
  | pipe s thisEnd =>
    rw [IOStream.read] at h
    rw [IOStream.readSize]
    split at h
    · rename_i hside
      rw [if_pos (.inl hside), Nat.zero_min]
      cases h
      rfl
    · rename_i hside
      split at h
      · rename_i hcl
        rw [if_pos (.inr hcl), Nat.zero_min]
        cases h
        rfl
      · rename_i hopen
        rw [if_neg (not_or.mpr ⟨hside, hopen⟩)]
        obtain ⟨⟨state', ret', received'⟩, hread, h⟩ := of_bind h
        obtain ⟨hlen, hret⟩ := Pipe.State.read_received hsound.readOffset hread
        cases h
        rcases hret with ⟨rfl, hall⟩ | ⟨rfl, hfault⟩
        · rw [touchedBy, hlen]
          · omega
          · intro h
            cases h
        · rw [touchedBy, hlen]
          omega

variable {p : Nat} {m : UserMemory}

lemma readOnce_of_ok (h : st.read length (m.behind p) = .ok (stream', ret, received)) : readOnce p length st m =
    .ok (stream', ret) ((m.touch true p (touchedBy ret received)).store p received) := by
  rw [readOnce, h]

lemma confined_readOnce (hsound : ReadSound length (m.behind p) st)
    (h : st.read length (m.behind p) = .ok (stream', ret, received)) :
    ((m.touch true p (touchedBy ret received)).store p received).Confined ↔ m.Confined ∧
    m.StaysInside p (st.readSize length) := by
  rw [touchedBy_eq hsound h]
  exact confined_touch_attempts

lemma read_of_closed (hcl : st.isClosed = true) :
    ∃ stream' ret received, st.read length user = .ok (stream', ret, received) ∧ ret ≠ .ok 0 := by
  have hne {e : ErrorCode} : (.error e : ErrorOr Nat) ≠ .ok 0 := by
    intro h
    cases h
  cases st with
  | fileIterator it =>
    replace hcl : it.mIsClosed = true := hcl
    refine ⟨.fileIterator it, .error .streamClosed, [], ?_, hne⟩
    rw [IOStream.read, FileIterator.read, if_pos hcl]
    rfl
  | pipe s thisEnd =>
    replace hcl : thisEnd.mIsClosed = true := hcl
    rw [IOStream.read]
    split
    · exact ⟨_, _, _, rfl, hne⟩
    · exact ⟨_, _, _, rfl, hne⟩

lemma ReadStuck.readSize (h : ReadStuck length st) : st.readSize length = 0 := by
  cases st with
  | fileIterator it =>
    obtain ⟨hcl, _, hstuck⟩ := h
    rw [IOStream.readSize, hcl, if_neg (by simp)]
    omega
  | pipe s thisEnd =>
    obtain ⟨_, _, hstuck⟩ := h
    rw [IOStream.readSize]
    split
    · rfl
    · omega

def ReadStaysInside (stream : Option IOStream) (pointer length : Nat) (m : UserMemory) : Prop :=
  ∀ s, stream = some s → InUserSpace pointer → m.StaysInside pointer (s.readSize length)

lemma confined_read_some (b p : Nat) (m : UserMemory) (hsound : ReadSound length (m.behind p) st)
    (hptr : InUserSpace p) : (∀ n, (finalMemory (read b n (some st) p length m)).Confined) ↔
    m.Confined ∧ m.StaysInside p (st.readSize length) := by
  by_cases hlast : st.isClosed = true ∨ Readable length st
  · obtain ⟨stream', ret, received, hread, hne⟩ : ∃ stream' ret received,
        st.read length (m.behind p) = .ok (stream', ret, received) ∧ ret ≠ .ok 0 := by
      cases hcl : st.isClosed with
      | true => exact read_of_closed hcl
      | false =>
        refine read_of_readable hcl hsound (hlast.resolve_left ?_)
        rw [hcl]
        exact Bool.false_ne_true
    have hcall : ∀ n, read b (n + 1) (some st) p length m = .ok (some stream', .returned ret)
          ((m.touch true p (touchedBy ret received)).store p received) := fun n =>
      transferCall_of_ne_zero hptr rfl (readOnce_of_ok hread) hne
    constructor
    · intro h
      have hone := h 1
      rw [hcall 0] at hone
      exact (confined_readOnce hsound hread).mp hone
    · intro h n
      cases n with
      | zero =>
        have hnone : read b 0 (some st) p length m = .error .outOfFuel m := transferCall_zero hptr
        rw [hnone]
        exact h.1
      | succ n =>
        rw [hcall n]
        exact (confined_readOnce hsound hread).mpr h
  · obtain ⟨hopen, hnot⟩ := not_or.mp hlast
    have hstuck : ReadStuck length st := readStuck_of_not_readable (Bool.eq_false_iff.mpr hopen) hsound hnot
    have hsame : ∀ n, finalMemory (read b n (some st) p length m) = m := by
      intro n
      obtain ⟨fault, herror⟩ : ∃ fault, read b n (some st) p length m = .error fault m :=
        transferCall_of_zero (fun _ => rfl) (fun _ h => h.readOnce m) hptr hstuck n
      rw [herror]
      rfl
    simp only [hsame, hstuck.readSize]
    exact ⟨fun h => ⟨h 0, fun i hi => absurd hi (Nat.not_lt_zero i)⟩, fun h _ => h.1⟩

lemma confined_read (b : Nat) (st : Option IOStream) (p length : Nat) (m : UserMemory)
    (hsound : ∀ s, st = some s → ReadSound length (m.behind p) s) :
    (∀ n, (finalMemory (read b n st p length m)).Confined) ↔ m.Confined ∧ ReadStaysInside st p length m := by
  cases st with
  | none => exact ⟨fun h => ⟨h 0, fun _ h => nomatch h⟩, fun h _ => h.1⟩
  | some s =>
    by_cases hptr : InUserSpace p
    · refine (confined_read_some b p m (hsound s rfl) hptr).trans ?_
      refine and_congr_right fun _ => ⟨fun h s' hs _ => ?_, fun h => h s rfl hptr⟩
      cases hs
      exact h
    · have hrefused : ∀ n, read b n (some s) p length m = .ok (some s, .returned (.error .memoryAccessViolation)) m :=
        transferCall_of_refused hptr
      simp only [hrefused]
      exact ⟨fun h => ⟨h 0, fun _ _ h => absurd h hptr⟩, fun h _ => h.1⟩

end

/-- What `READ` and `WM_COMMAND` touch at the addresses of the process is in user space and copied under a
guard exactly under these conditions. -/
theorem confined_iff (blocker : Nat) (stream : Option IOStream) (pointer length : Nat)
    (server : WindowServer) (userPtr : Nat) (m : UserMemory) (hnone : m.accesses = [])
    (hsound : ∀ s, stream = some s → ReadSound length (m.behind pointer) s) :
    ((∀ n, (finalMemory (read blocker n stream pointer length m)).Confined) ↔ ReadStaysInside stream pointer length m) ∧
    ((finalMemory (wmCommand server userPtr m)).Confined ↔ CommandStaysInside server userPtr m) := by
  have hconf : m.Confined := by
    intro access haccess
    rw [hnone] at haccess
    cases haccess
  constructor
  · refine (confined_read blocker stream pointer length m hsound).trans ?_
    exact and_iff_right hconf
  · refine (confined_dispatchWindowCommand server userPtr m).trans ?_
    exact and_iff_right hconf

def memoryWith (pointer : Nat) (bytes : List UInt8) : UserMemory where
  data := CellMemory.store (fun _ => 0) pointer bytes

def oneWindow : WindowServer where
  windows := [1]
  create _ _ := .ok (2, 0x400000, 256)
  popEvent _ _ := 0

theorem confined_readAndDestroy : (∀ n, (finalMemory (read 0 n (some (.pipe halfFullPipe ⟨.read, false⟩)) 0x200000 2
      (memoryWith 0x300000 [1, 0, 0, 0, 1]))).Confined) ∧
    (finalMemory (wmCommand oneWindow 0x300000 (memoryWith 0x300000 [1, 0, 0, 0, 1]))).Confined := by
  have hsound : ∀ s, some (.pipe halfFullPipe ⟨.read, false⟩) = some s →
      ReadSound 2 ((memoryWith 0x300000 [1, 0, 0, 0, 1]).behind 0x200000) s := by
    intro s hs
    cases hs
    exact ⟨by decide, by decide, by decide⟩
  have hiff := confined_iff 0 (some (.pipe halfFullPipe ⟨.read, false⟩)) 0x200000 2 oneWindow 0x300000
    (memoryWith 0x300000 [1, 0, 0, 0, 1]) rfl hsound
  refine ⟨hiff.1.mpr ?_, hiff.2.mpr ⟨?_, fun _ command hcommand => ?_⟩⟩
  · intro s hs _ i hi _
    cases hs
    replace hi : i < 2 := hi
    unfold InUserSpace userspaceUsableBase userspaceUsableCeiling addressSpace
    omega
  · intro i hi _
    unfold InUserSpace userspaceUsableBase userspaceUsableCeiling addressSpace
    omega
  · obtain rfl : command = .destroyWindow := Option.some.inj (hcommand.symm.trans rfl)
    refine ⟨fun i hi _ => ?_, fun _ => discreet_of_ne (by decide) (by decide)⟩
    replace hi : i < 8 := hi
    unfold InUserSpace userspaceUsableBase userspaceUsableCeiling addressSpace
    omega

/-- A read whose second byte is behind user space, two titles in the kernel, and an event that is written
over memory of the kernel. -/
theorem not_confined :
    ¬(finalMemory (read 0 1 (some (.pipe halfFullPipe ⟨.read, false⟩)) 0x7FFFFFFFFFFF 2 {})).Confined ∧
    ¬(finalMemory (wmCommand oneWindow 0x300000 (memoryWith 0x300018
      [0, 0, 0x10, 0x80, 0xFF, 0xFF, 0xFF, 0xFF]))).Confined ∧
    ¬(finalMemory (wmCommand oneWindow 0x300000 (memoryWith 0x300000
      [3, 0, 0, 0, 1, 0, 0, 0, 0, 0, 0x10, 0x80, 0xFF, 0xFF, 0xFF, 0xFF]))).Confined ∧
    ¬(finalMemory (wmCommand oneWindow 0xFFFFFFFF80100000 (memoryWith 0xFFFFFFFF80100000
      [2, 0, 0, 0, 1]))).Confined := by
  decide +kernel

end UltraOS.Syscall
