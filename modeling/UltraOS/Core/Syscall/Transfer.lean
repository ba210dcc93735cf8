import UltraOS.FileSystem.IOStream
import UltraOS.Memory.SafeOperations

/-!
# READ and WRITE

The system calls of `Kernel/Core/Syscall.cpp` that move bytes between a stream and the memory of a
process. Both repeat the call of the stream as long as it gives zero, so they come to an end exactly when
the first call moves a byte or fails.
-/

namespace UltraOS

open IOStream List FAT32

variable {fuel : Nat}

namespace FAT32

variable {fs : FAT32} {f f' : File}

lemma computeContiguousRanges_size (h : fs.computeContiguousRanges f = .ok f') : f'.mSize = f.mSize := by
  obtain ⟨ranges, _, heq⟩ := of_bind h
  cases heq
  rfl

lemma withRanges_size (h : fs.withRanges f = .ok f') : f'.mSize = f.mSize := by
  unfold withRanges at h
  split at h
  · exact computeContiguousRanges_size h
  · cases h
    rfl

variable {o n : Nat} {bs : List UInt8}

lemma lockedRead_length {b : Nat} (h : fs.lockedRead b o n = .ok bs) : bs.length = n := by
  obtain ⟨_, _, heq⟩ := of_bind h
  cases heq
  rw [length_map, length_range]

variable {buf : List UInt8}

lemma readLoop_length {i : Nat} (h : fs.readLoop f fuel i o n buf = .ok bs) : bs.length = buf.length + n := by
  induction fuel generalizing i o n buf with
  | zero => cases h
  | succ fuel ih =>
    rw [readLoop] at h
    obtain ⟨c, _, h⟩ := of_bind h
    obtain ⟨b, _, h⟩ := of_bind h
    obtain ⟨piece, hpiece, h⟩ := of_bind h
    have hlen := lockedRead_length hpiece
    split at h
    · cases h
      rw [length_append]
      omega
    · have hrest := ih h
      rw [length_append] at hrest
      omega

lemma read_length {size : Nat} (h : fs.read f o size = .ok (f', bs)) :
    bs.length = min size (f.mSize - o) ∧ f'.mSize = f.mSize := by
  unfold read at h
  split at h
  · cases h
    refine ⟨?_, rfl⟩
    rw [length_nil]
    omega
  · obtain ⟨g, hg, h⟩ := of_bind h
    obtain ⟨bytes', hbs, h⟩ := of_bind h
    cases h
    have hlen := readLoop_length hbs
    rw [length_nil, withRanges_size hg] at hlen
    exact ⟨by omega, withRanges_size hg⟩

lemma write_count {fs' : FAT32} (h : fs.write f buf o = .ok (fs', f', n)) : n = buf.length := by
  unfold write at h
  split at h
  · cases h
    omega
  · obtain ⟨g, _, h⟩ := of_bind h
    obtain ⟨⟨fs1, f1⟩, _, h⟩ := of_bind h
    obtain ⟨⟨fs2, f2⟩, _, h⟩ := of_bind h
    obtain ⟨fs3, _, h⟩ := of_bind h
    cases h
    rfl

end FAT32

namespace Syscall

inductive Outcome where
  | returned (result : ErrorOr Nat)
  /-- The thread waits, and the loop goes on when it is woken. -/
  | blocked

section

variable (canProceed : IOStream → Bool) (blockUntil : IOStream → IOStream × Blocking)
  (transfer : IOStream → Reach (IOStream × ErrorOr Nat))

def transferLoop : (fuel : Nat) → IOStream → Reach (IOStream × Outcome)
  | 0, _ => throw .outOfFuel
  | fuel + 1, stream =>
    let (stream, blocking) := if canProceed stream then (stream, .passed) else blockUntil stream
    match blocking with
    | .failed code => pure (stream, .returned (.error code))
    | .waits => pure (stream, .blocked)
    | .passed => do
      let (stream, ret) ← transfer stream
      match ret with
      | .error code => return (stream, .returned (.error code))
      | .ok 0 => transferLoop fuel stream
      | .ok value => return (stream, .returned (.ok value))

/-- The checks of both calls in front of the loop. -/
def transferCall (fuel : Nat) (stream : Option IOStream) (pointer : Nat) : Reach (Option IOStream × Outcome) :=
  match stream with
  | none => pure (none, .returned (.error .invalidArgument))
  | some stream =>
    if !isPotentiallyValidUserspacePointer pointer then
      pure (some stream, .returned (.error .memoryAccessViolation))
    else do
      let (stream, outcome) ← transferLoop canProceed blockUntil transfer fuel stream
      return (some stream, outcome)

end

/-- The number of the bytes that a call of `read` has touched: the one that faults comes behind those that
have been stored. -/
def touchedBy (ret : ErrorOr Nat) (received : List UInt8) : Nat :=
  match ret with
  | .error .memoryAccessViolation => received.length + 1
  | _ => received.length

def readOnce (pointer length : Nat) (stream : IOStream) : Reach (IOStream × ErrorOr Nat) := fun m =>
  match stream.read length (m.behind pointer) with
  | .error fault => .error fault m
  | .ok (stream, ret, received) =>
    .ok (stream, ret) ((m.touch true pointer (touchedBy ret received)).store pointer received)

def writeOnce (pointer length : Nat) (stream : IOStream) : Reach (IOStream × ErrorOr Nat) := fun m =>
  match stream.write length (m.behind pointer) with
  | .error fault => .error fault m
  | .ok (stream', ret) => .ok (stream', ret) (m.touch true pointer (m.attempts pointer (stream.writeSize length)))

/-- `READ`. A wait would use the given blocker. -/
def read (blocker fuel : Nat) (stream : Option IOStream) (pointer length : Nat) : Reach (Option IOStream × Outcome) :=
  transferCall canReadWithoutBlocking (blockUntilReadable blocker) (readOnce pointer length) fuel stream pointer

def write (blocker fuel : Nat) (stream : Option IOStream) (pointer length : Nat) : Reach (Option IOStream × Outcome) :=
  transferCall canWriteWithoutBlocking (blockUntilWritable blocker) (writeOnce pointer length) fuel stream pointer

/-- What a stream can do for a transfer of some bytes. -/
inductive Readiness where
  /-- Bytes can be moved, or the call fails at once. -/
  | ready
  | atEnd
  /-- Nothing can be moved, and nobody is left to change that. -/
  | dead
  | waiting

def readiness (isRead : Bool) : IOStream → Readiness
  | .fileIterator it => if isRead = true ∧ it.mFile.mSize ≤ it.mOffset then .atEnd else .ready
  | .pipe state thisEnd =>
    if isRead then
      if thisEnd.mSide = .write ∨ state.size ≠ 0 then .ready
      else if state.writerCount = 0 then .dead else .waiting
    else
      if thisEnd.mSide = .read ∨ state.size ≠ state.capacity then .ready
      else if state.readerCount = 0 then .dead else .waiting

def Expected (pointer length : Nat) (readiness : Readiness) (outcome : Outcome) : Prop :=
  if ¬InUserSpace pointer then outcome = .returned (.error .memoryAccessViolation)
  else if length = 0 then ∃ result, outcome = .returned result
  else match readiness with
    | .ready => ∃ result, outcome = .returned result
    | .atEnd => outcome = .returned (.ok 0)
    | .dead => ∃ code, outcome = .returned (.error code)
    | .waiting => outcome = .blocked

/-- Finitely many calls of the stream bring `READ` to what it should come to. -/
def ReadSettles (blocker : Nat) (stream : IOStream) (pointer length : Nat) (m : UserMemory) : Prop :=
  ∃ fuel stream' outcome m', read blocker fuel (some stream) pointer length m = .ok (stream', outcome) m' ∧
    Expected pointer length (readiness true stream) outcome

def WriteSettles (blocker : Nat) (stream : IOStream) (pointer length : Nat) (m : UserMemory) : Prop :=
  ∃ fuel stream' outcome m', write blocker fuel (some stream) pointer length m = .ok (stream', outcome) m' ∧
    Expected pointer length (readiness false stream) outcome

/-- The first call of `read` moves a byte or fails. -/
def Readable (length : Nat) : IOStream → Prop
  | .fileIterator it => it.mOffset < it.mFile.mSize ∧ length ≠ 0
  | .pipe state thisEnd => thisEnd.mSide = .write ∨ state.size ≠ 0 ∧ length ≠ 0

def Writable (length : Nat) : IOStream → Prop
  | .fileIterator _ => length ≠ 0
  | .pipe state thisEnd => thisEnd.mSide = .read ∨ state.size ≠ state.capacity ∧ length ≠ 0

/-- The ring of a pipe is in order, and `read` of a file itself returns. -/
def ReadSound (length : Nat) (user : UserBuffer) : IOStream → Prop
  | .fileIterator it => it.mOffset < addressSpace ∧ ∃ r, it.read length user = .ok r
  | .pipe state _ => state.Valid

def WriteSound (length : Nat) (user : UserBuffer) : IOStream → Prop
  | .fileIterator it => ∃ r, it.write length user = .ok r
  | .pipe state _ => state.Valid

variable {stream' : IOStream} {ret : ErrorOr Nat}

section

variable {canProceed : IOStream → Bool} {blockUntil : IOStream → IOStream × Blocking}
  {transfer : IOStream → Reach (IOStream × ErrorOr Nat)} {s : IOStream} {m : UserMemory}
  {m' : UserMemory}

variable (hcan : ∀ s, canProceed s = true)

lemma transferLoop_of_ne_zero (fuel : Nat) (hcan : canProceed s = true)
    (heq : transfer s m = .ok (stream', ret) m') (hne : ret ≠ .ok 0) :
    transferLoop canProceed blockUntil transfer (fuel + 1) s m = .ok (stream', .returned ret) m' := by
  rw [transferLoop, if_pos hcan]
  dsimp only
  rw [bind_of_ok heq]
  cases ret with
  | error code => rfl
  | ok v =>
    cases v with
    | zero => exact absurd rfl hne
    | succ v => rfl

variable {I : IOStream → Prop}

variable (hstep : ∀ s, I s → (∃ fault, transfer s m = .error fault m) ∨
    ∃ stream', transfer s m = .ok (stream', .ok 0) m ∧ I stream')

include hcan hstep in
lemma transferLoop_of_zero (hs : I s) (fuel : Nat) : ∃ fault,
    transferLoop canProceed blockUntil transfer fuel s m = .error fault m := by
  induction fuel generalizing s with
  | zero => exact ⟨.outOfFuel, rfl⟩
  | succ fuel ih =>
    rw [transferLoop, if_pos (hcan s)]
    dsimp only
    rcases hstep s hs with hfault | hzero
    · obtain ⟨fault, heq⟩ := hfault
      exact ⟨fault, bind_of_error heq⟩
    · obtain ⟨stream', heq, hstream'⟩ := hzero
      rw [bind_of_ok heq]
      exact ih hstream'

variable {p : Nat}

include hcan hstep in
lemma transferCall_of_zero (hptr : InUserSpace p) (hs : I s) (fuel : Nat) : ∃ fault,
    transferCall canProceed blockUntil transfer fuel (some s) p m = .error fault m := by
  obtain ⟨fault, heq⟩ : ∃ fault, transferLoop canProceed blockUntil transfer fuel s m = .error fault m :=
    transferLoop_of_zero hcan hstep hs fuel
  rw [transferCall, (isPotentiallyValidUserspacePointer_iff p).mpr hptr]
  exact ⟨fault, bind_of_error heq⟩

include hcan hstep in
lemma transferCall_ne_ok (hptr : InUserSpace p) (hs : I s) {res : Option IOStream × Outcome} :
    transferCall canProceed blockUntil transfer fuel (some s) p m ≠ .ok res m' := by
  obtain ⟨fault, herror⟩ : ∃ fault, transferCall _ blockUntil _ _ _ _ m = _ :=
    transferCall_of_zero hcan hstep hptr hs fuel
  rw [herror]
  exact fun hok => by cases hok

lemma transferCall_of_ne_zero (hptr : InUserSpace p) (hcan : canProceed s = true)
    (heq : transfer s m = .ok (stream', ret) m') (hne : ret ≠ .ok 0) :
    transferCall canProceed blockUntil transfer (fuel + 1) (some s) p m = .ok (some stream', .returned ret) m' := by
  rw [transferCall, (isPotentiallyValidUserspacePointer_iff p).mpr hptr]
  exact bind_of_ok (transferLoop_of_ne_zero fuel hcan heq hne)

lemma transferCall_zero (hptr : InUserSpace p) :
    transferCall canProceed blockUntil transfer 0 (some s) p m = .error .outOfFuel m := by
  rw [transferCall, (isPotentiallyValidUserspacePointer_iff p).mpr hptr]
  exact bind_of_error rfl

lemma transferCall_of_refused (hptr : ¬InUserSpace p) (fuel : Nat) :
    transferCall canProceed blockUntil transfer fuel (some s) p m =
    .ok (some s, .returned (.error .memoryAccessViolation)) m := by
  have hinvalid : isPotentiallyValidUserspacePointer p = false :=
    Bool.eq_false_iff.mpr fun htrue => hptr ((isPotentiallyValidUserspacePointer_iff p).mp htrue)
  rw [transferCall, hinvalid]
  rfl

include hcan hstep in
lemma transferCall_settles_iff {proceeds : Prop} {length : Nat} {r : Readiness}
    (hstuck : ¬proceeds → I s) (hready : proceeds → r = .ready)
    (hproceeds : proceeds → ∃ stream' ret m', transfer s m = .ok (stream', ret) m' ∧ ret ≠ .ok 0) :
    (∃ fuel stream' outcome m', transferCall canProceed blockUntil transfer fuel (some s) p m =
        .ok (stream', outcome) m' ∧ Expected p length r outcome) ↔ ¬InUserSpace p ∨ proceeds := by
  by_cases hptr : InUserSpace p
  · constructor
    · intro hsettles
      obtain ⟨fuel, stream', outcome, m', heq, _⟩ := hsettles
      exact .inr (Classical.byContradiction fun hnot => transferCall_ne_ok hcan hstep hptr (hstuck hnot) heq)
    · intro hor
      have hp := hor.resolve_left (fun hnot => hnot hptr)
      obtain ⟨stream', ret, m', heq, hne⟩ := hproceeds hp
      refine ⟨1, some stream', .returned ret, m', transferCall_of_ne_zero hptr (hcan s) heq hne, ?_⟩
      unfold Expected
      rw [if_neg (fun hnot => hnot hptr), hready hp]
      split <;> exact ⟨ret, rfl⟩
  · refine ⟨fun _ => .inl hptr, fun _ => ⟨0, some s,
      .returned (.error .memoryAccessViolation), m, transferCall_of_refused hptr 0, ?_⟩⟩
    unfold Expected
    rw [if_pos hptr]

end

variable {state st : Pipe.State}

section

variable {p length : Nat} {user : UserBuffer} {s : IOStream} {m : UserMemory}

/-- The streams on which `read` gives zero again and again. -/
def ReadStuck (length : Nat) : IOStream → Prop
  | .fileIterator it => it.mIsClosed = false ∧ it.mOffset < addressSpace ∧ (it.mFile.mSize ≤ it.mOffset ∨ length = 0)
  | .pipe state thisEnd => thisEnd.mSide = .read ∧ thisEnd.mIsClosed = false ∧ (state.size = 0 ∨ length = 0)

variable {received : List UInt8}

lemma fileRead_stuck {it it' : FileIterator} (hcl : it.mIsClosed = false) (ho : it.mOffset < addressSpace)
    (hstuck : it.mFile.mSize ≤ it.mOffset ∨ length = 0) (h : it.read length user = .ok (it', ret, received)) :
    ret = .ok 0 ∧ received = [] ∧ ReadStuck length (.fileIterator it') := by
  have hzero : min length (it.mFile.mSize - it.mOffset) = 0 := by omega
  rw [FileIterator.read, hcl, if_neg (by simp)] at h
  rw [hzero, if_neg (not_lt_zero)] at h
  obtain ⟨⟨file, bs⟩, hread, h⟩ := of_bind h
  obtain ⟨hlen, hsize⟩ := read_length hread
  rw [hzero] at hlen
  obtain rfl := length_eq_zero_iff.mp hlen
  cases h
  refine ⟨rfl, rfl, rfl, Nat.mod_lt _ (Nat.zero_lt_of_lt ho), ?_⟩
  rwa [hsize, length_nil, add_zero, Nat.mod_eq_of_lt ho]

lemma pipeRead_stuck (user : UserBuffer) (hstuck : st.size = 0 ∨ length = 0) :
    ∃ state' : Pipe.State, st.read length user = .ok (state', .ok 0, []) ∧ (state'.size = 0 ∨ length = 0) := by
  by_cases hsize : st.size = 0
  · exact ⟨st, by rw [Pipe.State.read, if_pos hsize], hstuck⟩
  · obtain rfl := hstuck.resolve_left hsize
    refine ⟨st.wakeWriters, ?_, .inr rfl⟩
    rw [Pipe.State.read, if_neg hsize]
    dsimp only
    rw [Nat.zero_min, Pipe.State.readLoop, if_pos rfl, ok_bind]
    rfl

variable (h : ReadStuck length s) (hopen : s.isClosed = false) (hsound : ReadSound length user s)

include h in
lemma ReadStuck.step (heq : s.read length user = .ok (stream', ret, received)) :
    ret = .ok 0 ∧ received = [] ∧ ReadStuck length stream' := by
  cases s with
  | fileIterator it =>
    obtain ⟨hcl, ho, hstuck⟩ := h
    obtain ⟨⟨it', ret', received'⟩, hread, heq⟩ := of_bind heq
    cases heq
    exact fileRead_stuck hcl ho hstuck hread
  | pipe st thisEnd =>
    obtain ⟨hside, hcl, hstuck⟩ := h
    obtain ⟨state', hread, hstuck'⟩ := pipeRead_stuck user hstuck
    rw [IOStream.read, hside, if_neg Pipe.Side.noConfusion, hcl, if_neg (by simp), hread, ok_bind] at heq
    cases heq
    exact ⟨rfl, rfl, hside, hcl, hstuck'⟩

include h in
lemma ReadStuck.readOnce (m : UserMemory) : (∃ fault, readOnce p length s m = .error fault m) ∨
    ∃ stream', readOnce p length s m = .ok (stream', .ok 0) m ∧ ReadStuck length stream' := by
  cases hread : s.read length (m.behind p) with
  | error fault =>
    refine .inl ⟨fault, ?_⟩
    rw [Syscall.readOnce, hread]
  | ok r =>
    obtain ⟨stream', ret, received⟩ := r
    obtain ⟨rfl, rfl, hstuck⟩ := h.step hread
    refine .inr ⟨stream', ?_, hstuck⟩
    rw [Syscall.readOnce, hread]
    dsimp only
    rw [UserMemory.store_nil]
    exact congrArg _ m.touch_zero

include h in
lemma ReadStuck.not_settles (hptr : InUserSpace p) (b : Nat) : ¬ReadSettles b s p length m := by
  rintro ⟨fuel, stream', outcome, m', heq, -⟩
  exact transferCall_ne_ok (fun _ => rfl) (fun _ hstuck => hstuck.readOnce m) hptr h heq

include hopen hsound in
lemma read_of_readable (h : Readable length s) : ∃ stream' ret received,
    s.read length user = .ok (stream', ret, received) ∧ ret ≠ .ok 0 := by
  cases s with
  | fileIterator it =>
    obtain ⟨hlt, hlen⟩ := h
    obtain ⟨_, ⟨it', ret, received⟩, hread⟩ := hsound
    refine ⟨.fileIterator it', ret, received, ?_, ?_⟩
    · rw [IOStream.read, hread]
      rfl
    · intro hret
      rw [FileIterator.read, show it.mIsClosed = false from hopen, if_neg (by simp)] at hread
      dsimp only at hread
      split at hread
      · obtain ⟨_, _, hread⟩ := of_bind hread
        cases hread
        cases hret
      · obtain ⟨⟨file, bs⟩, hbs, hread⟩ := of_bind hread
        obtain ⟨hm, _⟩ := read_length hbs
        cases hread
        have hzero : bs.length = 0 := Except.ok.inj hret
        omega
  | pipe st thisEnd =>
    by_cases hside : thisEnd.mSide = .write
    · refine ⟨.pipe st thisEnd, .error .accessDenied, [], ?_, fun hret => nomatch hret⟩
      rw [IOStream.read, if_pos hside]
    · obtain ⟨hsize, hlen⟩ := h.resolve_left hside
      have hcall : ∀ {state' ret received}, st.read length user = .ok (state', ret, received) →
          IOStream.read length user (.pipe st thisEnd) = .ok (.pipe state' thisEnd, ret, received) := by
        intro state' ret received hread
        rw [IOStream.read, if_neg hside, show thisEnd.mIsClosed = false from hopen, if_neg (by simp), hread]
        rfl
      rcases Pipe.State.Valid.read_cases hsound length user with hempty | hfault | hread
      · exact absurd hempty.1 hsize
      · obtain ⟨_, received, hread⟩ := hfault
        exact ⟨_, _, _, hcall hread, fun hret => nomatch hret⟩
      · refine ⟨_, _, _, hcall hread.2, fun hret => ?_⟩
        have hzero : min length st.size = 0 := Except.ok.inj hret
        omega

include hopen hsound in
lemma readStuck_of_not_readable (hnot : ¬Readable length s) : ReadStuck length s := by
  cases s with
  | fileIterator it =>
    refine ⟨hopen, hsound.1, ?_⟩
    rw [Readable] at hnot
    omega
  | pipe st thisEnd =>
    rw [Readable] at hnot
    refine ⟨?_, hopen, ?_⟩
    · cases hside : thisEnd.mSide with
      | read => rfl
      | write => exact absurd (.inl hside) hnot
    · exact Decidable.byContradiction fun h => hnot (.inr (not_or.mp h))

lemma readSettles_iff (b : Nat) (hopen : s.isClosed = false) (hsound : ReadSound length (m.behind p) s) :
    ReadSettles b s p length m ↔ ¬InUserSpace p ∨ Readable length s := by
  refine transferCall_settles_iff (I := ReadStuck length) (fun _ => rfl)
    (fun _ hstuck => hstuck.readOnce m) (readStuck_of_not_readable hopen hsound) ?_ ?_
  · intro h
    cases s with
    | fileIterator it => exact if_neg fun hend => not_le.mpr h.1 hend.2
    | pipe st thisEnd => exact if_pos (h.imp_right And.left)
  · intro h
    obtain ⟨stream', ret, received, hread, hne⟩ := read_of_readable hopen hsound h
    refine ⟨stream', ret, (m.touch true p (touchedBy ret received)).store p received, ?_, hne⟩
    rw [readOnce, hread]

end

section

variable {p length : Nat} {user : UserBuffer} {s : IOStream} {m : UserMemory}

def WriteStuck (length : Nat) : IOStream → Prop
  | .fileIterator it => it.mIsClosed = false ∧ length = 0
  | .pipe state thisEnd => thisEnd.mSide = .write ∧ thisEnd.mIsClosed = false ∧
      (state.capacity - state.size = 0 ∨ length = 0)

lemma pipeWrite_stuck (user : UserBuffer) (hstuck : st.capacity - st.size = 0 ∨ length = 0) : ∃ state' : Pipe.State,
    st.write length user = .ok (state', .ok 0) ∧ (state'.capacity - state'.size = 0 ∨ length = 0) := by
  by_cases hfull : st.capacity - st.size = 0
  · exact ⟨st, by rw [Pipe.State.write, if_pos hfull], hstuck⟩
  · obtain rfl := hstuck.resolve_left hfull
    refine ⟨st.wakeReaders, ?_, .inr rfl⟩
    rw [Pipe.State.write, if_neg hfull]
    dsimp only
    rw [Nat.zero_min, Pipe.State.writeLoop, if_pos rfl, ok_bind]
    rfl

variable (h : WriteStuck length s) (hopen : s.isClosed = false) (hsound : WriteSound length user s)

section

include h

lemma WriteStuck.step (heq : s.write length user = .ok (stream', ret)) : ret = .ok 0 ∧ WriteStuck length stream' := by
  cases s with
  | fileIterator it =>
    obtain ⟨hcl, rfl⟩ := h
    obtain ⟨⟨it', ret'⟩, hwrite, heq⟩ := of_bind heq
    rw [FileIterator.write, hcl, if_neg (by simp)] at hwrite
    cases heq
    cases hwrite
    exact ⟨rfl, rfl, rfl⟩
  | pipe st thisEnd =>
    obtain ⟨hside, hcl, hstuck⟩ := h
    obtain ⟨state', hwrite, hstuck'⟩ := pipeWrite_stuck user hstuck
    rw [IOStream.write, hside, if_neg Pipe.Side.noConfusion, hcl, if_neg (by simp), hwrite, ok_bind] at heq
    cases heq
    exact ⟨rfl, hside, hcl, hstuck'⟩

lemma WriteStuck.writeSize : s.writeSize length = 0 := by
  cases s with
  | fileIterator it =>
    obtain ⟨_, rfl⟩ := h
    exact ite_self 0
  | pipe st thisEnd =>
    obtain ⟨_, _, hstuck⟩ := h
    unfold writeSize
    dsimp only
    split
    · rfl
    · omega

lemma WriteStuck.writeOnce (m : UserMemory) : (∃ fault, writeOnce p length s m = .error fault m) ∨
    ∃ stream', writeOnce p length s m = .ok (stream', .ok 0) m ∧ WriteStuck length stream' := by
  cases hwrite : s.write length (m.behind p) with
  | error fault =>
    refine .inl ⟨fault, ?_⟩
    rw [Syscall.writeOnce, hwrite]
  | ok r =>
    obtain ⟨stream', ret⟩ := r
    obtain ⟨rfl, hstuck⟩ := h.step hwrite
    refine .inr ⟨stream', ?_, hstuck⟩
    rw [Syscall.writeOnce, hwrite]
    rw [h.writeSize, UserMemory.attempts, Nat.zero_min, UserMemory.touch_zero]

lemma WriteStuck.not_settles (hptr : InUserSpace p) (b : Nat) : ¬WriteSettles b s p length m := by
  rintro ⟨fuel, stream', outcome, m', heq, -⟩
  exact transferCall_ne_ok (fun _ => rfl) (fun _ hstuck => hstuck.writeOnce m) hptr h heq

end

include hopen hsound in
lemma write_of_writable (h : Writable length s) : ∃ stream' ret, s.write length user =
    .ok (stream', ret) ∧ ret ≠ .ok 0 := by
  cases s with
  | fileIterator it =>
    obtain ⟨⟨it', ret⟩, hwrite⟩ := hsound
    refine ⟨.fileIterator it', ret, ?_, ?_⟩
    · rw [IOStream.write, hwrite]
      rfl
    · intro hret
      rw [FileIterator.write, show it.mIsClosed = false from hopen, if_neg (by simp)] at hwrite
      dsimp only at hwrite
      split at hwrite
      · obtain ⟨_, _, hwrite⟩ := of_bind hwrite
        cases hwrite
        cases hret
      · obtain ⟨⟨fs, file, written⟩, hm, hwrite⟩ := of_bind hwrite
        have hwritten := write_count hm
        rw [CellMemory.length_load] at hwritten
        cases hwrite
        exact h (hwritten.symm.trans (Except.ok.inj hret))
  | pipe st thisEnd =>
    by_cases hside : thisEnd.mSide = .read
    · refine ⟨.pipe st thisEnd, .error .accessDenied, ?_, fun hret => nomatch hret⟩
      rw [IOStream.write, if_pos hside]
    · obtain ⟨hsize, hlen⟩ := h.resolve_left hside
      have hle := hsound.size
      have hcall : ∀ {state' ret}, st.write length user = .ok (state', ret) →
          IOStream.write length user (.pipe st thisEnd) = .ok (.pipe state' thisEnd, ret) := by
        intro state' ret hwrite
        rw [IOStream.write, if_neg hside, show thisEnd.mIsClosed = false from hopen, if_neg (by simp), hwrite]
        rfl
      rcases Pipe.State.Valid.write_cases hsound length user with hfull | hfault | hwrite
      · omega
      · obtain ⟨_, buf, hwrite, _⟩ := hfault
        exact ⟨_, _, hcall hwrite, fun hret => nomatch hret⟩
      · obtain ⟨hroom, n, buf, hn, hwrite, _⟩ := hwrite
        refine ⟨_, _, hcall hwrite, fun hret => ?_⟩
        have hzero : n = 0 := Except.ok.inj hret
        omega

include hopen hsound in
lemma writeStuck_of_not_writable (hnot : ¬Writable length s) : WriteStuck length s := by
  cases s with
  | fileIterator it => exact ⟨hopen, Decidable.not_not.mp hnot⟩
  | pipe st thisEnd =>
    have hle : st.size ≤ st.capacity := hsound.size
    rw [Writable] at hnot
    refine ⟨?_, hopen, ?_⟩
    · cases hside : thisEnd.mSide with
      | read => exact absurd (.inl hside) hnot
      | write => rfl
    · have hor := not_and_or.mp (not_or.mp hnot).2
      omega

lemma writeSettles_iff (b : Nat) (hopen : s.isClosed = false) (hsound : WriteSound length (m.behind p) s) :
    WriteSettles b s p length m ↔ ¬InUserSpace p ∨ Writable length s := by
  refine transferCall_settles_iff (I := WriteStuck length) (fun _ => rfl)
    (fun _ hstuck => hstuck.writeOnce m) (writeStuck_of_not_writable hopen hsound) ?_ ?_
  · intro h
    cases s with
    | fileIterator it => rfl
    | pipe st thisEnd => exact if_pos (h.imp_right And.left)
  · intro h
    obtain ⟨stream', ret, hwrite, hne⟩ := write_of_writable hopen hsound h
    refine ⟨stream', ret, m.touch true p (m.attempts p (s.writeSize length)), ?_, hne⟩
    rw [writeOnce, hwrite]

end

/-- `READ` and `WRITE` end as they should exactly when the pointer is refused or the first call of the
stream moves a byte or fails. Otherwise they repeat it for ever. -/
theorem transfers_settle_iff (blocker : Nat) (stream : IOStream) (pointer length : Nat) (m : UserMemory)
    (hopen : stream.isClosed = false) (hread : ReadSound length (m.behind pointer) stream)
    (hwrite : WriteSound length (m.behind pointer) stream) :
    (ReadSettles blocker stream pointer length m ↔ ¬InUserSpace pointer ∨ Readable length stream) ∧
    (WriteSettles blocker stream pointer length m ↔ ¬InUserSpace pointer ∨ Writable length stream) :=
  ⟨readSettles_iff blocker hopen hread, writeSettles_iff blocker hopen hwrite⟩

def halfFullPipe : Pipe.State where
  capacity := 4
  size := 2
  writeOffset := 2
  readerCount := 1
  writerCount := 1

theorem transfers_settle_halfFull : ReadSettles 0 (.pipe halfFullPipe ⟨.read, false⟩) 0x200000 1 {} ∧
    WriteSettles 0 (.pipe halfFullPipe ⟨.write, false⟩) 0x200000 1 {} :=
  have hvalid : halfFullPipe.Valid := ⟨by decide, by decide, by decide⟩
  ⟨(transfers_settle_iff 0 (.pipe halfFullPipe ⟨.read, false⟩) 0x200000 1 {} rfl hvalid hvalid).1.mpr
    (.inr (.inr ⟨by decide, by decide⟩)),
   (transfers_settle_iff 0 (.pipe halfFullPipe ⟨.write, false⟩) 0x200000 1 {} rfl hvalid hvalid).2.mpr
    (.inr (.inr ⟨by decide, by decide⟩))⟩

def emptyPipe : Pipe.State where
  capacity := 4
  readerCount := 1

def fullPipe : Pipe.State where
  capacity := 4
  size := 4
  writerCount := 1

def emptyFile : FileIterator where
  fs := { mFatCache := fun _ => 0, mDataCache := fun _ _ => 0, mClusterCount := 8
          mBytesPerCluster := 512, mEndOfChain := endOfChainMinCluster }
  mFile := {}

/-- Reads at the end of a file and from an empty pipe, without writers and with one, a write to a full pipe,
and transfers of no bytes. -/
theorem not_transfers_settle : ¬ReadSettles 0 (.fileIterator emptyFile) 0x200000 1 {} ∧
    ¬ReadSettles 0 (.pipe emptyPipe ⟨.read, false⟩) 0x200000 1 {} ∧
    ¬ReadSettles 0 (.pipe { emptyPipe with writerCount := 1 } ⟨.read, false⟩) 0x200000 1 {} ∧
    ¬WriteSettles 0 (.pipe fullPipe ⟨.write, false⟩) 0x200000 1 {} ∧
    ¬ReadSettles 0 (.pipe halfFullPipe ⟨.read, false⟩) 0x200000 0 {} ∧
    ¬WriteSettles 0 (.fileIterator emptyFile) 0x200000 0 {} := by
  have hptr : InUserSpace 0x200000 := by decide
  refine ⟨ReadStuck.not_settles ?_ hptr 0, ReadStuck.not_settles ?_ hptr 0,
    ReadStuck.not_settles ?_ hptr 0, WriteStuck.not_settles ?_ hptr 0,
    ReadStuck.not_settles ?_ hptr 0, WriteStuck.not_settles ?_ hptr 0⟩
  · exact ⟨rfl, by decide, .inl (by decide)⟩
  · exact ⟨rfl, rfl, .inl rfl⟩
  · exact ⟨rfl, rfl, .inl rfl⟩
  · exact ⟨rfl, rfl, .inl rfl⟩
  · exact ⟨rfl, rfl, .inr rfl⟩
  · exact ⟨rfl, rfl⟩

end Syscall

end UltraOS
