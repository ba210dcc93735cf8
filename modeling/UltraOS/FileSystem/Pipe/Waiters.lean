import Mathlib.Data.List.Nodup
import UltraOS.FileSystem.Pipe.Stream

/-!
# The waiters of a pipe

Readers wait on an empty pipe that can still be written to, and writers on a full one that can still be
read from. Whatever ends such a state empties the list.
-/

namespace UltraOS.Pipe

open List

variable {side : Side}

namespace State

variable {s s' : State}

def waiters (s : State) : Side → List Nat
  | .read => s.readWaiters
  | .write => s.writeWaiters

def endCount (s : State) : Side → Nat
  | .read => s.readerCount
  | .write => s.writerCount

/-- The lists of waiters are empty unless there is something to wait for. -/
structure Attended (s : State) : Prop where
  readers : s.readWaiters ≠ [] → s.size = 0 ∧ s.writerCount ≠ 0
  writers : s.writeWaiters ≠ [] → s.size = s.capacity ∧ s.readerCount ≠ 0

/-- A waiter that leaves its list has been unblocked. -/
structure Carries (s s' : State) : Prop where
  unblocked : ∀ blocker ∈ s.unblocked, blocker ∈ s'.unblocked
  readers : ∀ blocker ∈ s.readWaiters, blocker ∈ s'.readWaiters ∨ blocker ∈ s'.unblocked
  writers : ∀ blocker ∈ s.writeWaiters, blocker ∈ s'.writeWaiters ∨ blocker ∈ s'.unblocked

lemma Carries.of_eq (hrds : s'.readWaiters = s.readWaiters) (hwrs : s'.writeWaiters = s.writeWaiters)
    (hunblocked : s'.unblocked = s.unblocked) : Carries s s' where
  unblocked _ hb := hunblocked ▸ hb
  readers _ hb := .inl (hrds ▸ hb)
  writers _ hb := .inl (hwrs ▸ hb)

variable {b : Nat}

lemma mem_unblockAll {waiters unblocked : List Nat} :
    b ∈ waiters.foldl (fun unblocked w => w :: unblocked) unblocked ↔ b ∈ waiters ∨ b ∈ unblocked := by
  induction waiters generalizing unblocked with
  | nil => simp
  | cons w waiters ih =>
    rw [foldl_cons, ih, mem_cons, mem_cons]
    exact or_left_comm.trans or_assoc.symm

lemma carries_wakeReaders (s : State) : Carries s s.wakeReaders where
  unblocked _ hb := mem_unblockAll.mpr (.inr hb)
  readers _ hb := .inr (mem_unblockAll.mpr (.inl hb))
  writers _ hb := .inl hb

lemma carries_wakeWriters (s : State) : Carries s s.wakeWriters where
  unblocked _ hb := mem_unblockAll.mpr (.inr hb)
  readers _ hb := .inl hb
  writers _ hb := .inr (mem_unblockAll.mpr (.inl hb))

/-- Only the number of the open ends is kept, and the waiters are attended to. -/
structure Serves (s s' : State) : Prop extends Carries s s' where
  attended : Attended s'
  readerCount : s'.readerCount = s.readerCount
  writerCount : s'.writerCount = s.writerCount

lemma Attended.read (h : Attended s) (hvalid : Valid s) (bs : Nat) (user : UserBuffer) :
    ∃ s' res received, s.read bs user = .ok (s', res, received) ∧ Valid s' ∧ Serves s s' := by
  have hself : Serves s s := ⟨Carries.of_eq rfl rfl rfl, h, rfl, rfl⟩
  rcases hvalid.read_cases bs user with ⟨-, heq⟩ | ⟨-, received, heq⟩ | ⟨hzero, heq⟩
  · exact ⟨s, _, _, heq, hvalid, hself⟩
  · exact ⟨s, _, received, heq, hvalid, hself⟩
  · have hwake := carries_wakeWriters { s with
        readOffset := (s.readOffset + min bs s.size) % s.capacity
        size := s.size - min bs s.size }
    refine ⟨_, _, _, heq, (hvalid.take (min_le_right _ _)).1.same {}, ⟨hwake.unblocked, ?_, ?_⟩,
      ⟨?_, fun hwrs => absurd rfl hwrs⟩, rfl, rfl⟩
    · exact hwake.readers
    · exact hwake.writers
    · -- A pipe that is not empty has no readers waiting.
      exact fun hrds => absurd (h.readers hrds).1 hzero

lemma Attended.write (h : Attended s) (hvalid : Valid s) (bs : Nat) (user : UserBuffer) :
    ∃ s' res, s.write bs user = .ok (s', res) ∧ Valid s' ∧ Serves s s' := by
  rcases hvalid.write_cases bs user with ⟨-, heq⟩ | ⟨-, buf, heq, hkept⟩ | ⟨hfull, n, buf, hn, heq, -⟩
  · exact ⟨s, _, heq, hvalid, Carries.of_eq rfl rfl rfl, h, rfl, rfl⟩
  · have hsame : SameStream s { s with buffer := buf } := { stored := hkept }
    exact ⟨_, _, heq, hvalid.same hsame, Carries.of_eq rfl rfl rfl, ⟨h.readers, h.writers⟩, rfl, rfl⟩
  · have hsize := hvalid.size
    have hwake := carries_wakeReaders { s with
        writeOffset := (s.writeOffset + n) % s.capacity
        size := s.size + n
        buffer := buf }
    refine ⟨_, _, heq, (hvalid.put (n := n) (by omega) buf).same {},
      ⟨hwake.unblocked, hwake.readers, hwake.writers⟩, ⟨fun hrds => absurd rfl hrds, ?_⟩, rfl, rfl⟩
    -- A pipe that is not full has no writers waiting.
    intro hwrs
    have hcap := (h.writers hwrs).1
    omega

lemma Attended.close (h : Attended s) (side : Side) : Attended (s.close side) ∧ Carries s (s.close side) := by
  cases side with
  | read =>
    rw [State.close]
    split
    · have hwake := carries_wakeWriters { s with readerCount := s.readerCount - 1 }
      exact ⟨⟨h.readers, fun hwrs => absurd rfl hwrs⟩, hwake.unblocked, hwake.readers, hwake.writers⟩
    · rename_i hn
      exact ⟨⟨h.readers, fun hwrs => ⟨(h.writers hwrs).1, hn⟩⟩, Carries.of_eq rfl rfl rfl⟩
  | write =>
    rw [State.close]
    split
    · have hwake := carries_wakeReaders { s with writerCount := s.writerCount - 1 }
      exact ⟨⟨fun hrds => absurd rfl hrds, h.writers⟩, hwake.unblocked, hwake.readers, hwake.writers⟩
    · rename_i hn
      exact ⟨⟨fun hrds => ⟨(h.readers hrds).1, hn⟩, h.writers⟩, Carries.of_eq rfl rfl rfl⟩

lemma endCount_close (s : State) (side u : Side) :
    (s.close side).endCount u = s.endCount u - if side = u then 1 else 0 := by
  cases side with
  | read | write =>
    rw [State.close]
    split <;> cases u <;> rfl

lemma Attended.countEnd (h : Attended s) (side : Side) : Attended (s.countEnd side) ∧ Carries s (s.countEnd side) := by
  cases side with
  | read => exact ⟨⟨h.readers, fun hwrs => ⟨(h.writers hwrs).1, Nat.succ_ne_zero _⟩⟩, Carries.of_eq rfl rfl rfl⟩
  | write => exact ⟨⟨fun hrds => ⟨(h.readers hrds).1, Nat.succ_ne_zero _⟩, h.writers⟩, Carries.of_eq rfl rfl rfl⟩

lemma Carries.waiters (h : Carries s s') (hb : b ∈ s.unblocked ∨ b ∈ s.waiters side) :
    b ∈ s'.unblocked ∨ b ∈ s'.waiters side := by
  rcases hb with hb | hb
  · exact .inl (h.unblocked b hb)
  · cases side with
    | read => exact (h.readers b hb).symm
    | write => exact (h.writers b hb).symm

end State

section

open State

variable {p p' : Pipe}

def End.isOpen (side : Side) (e : End) : Bool := e.mSide = side && !e.mIsClosed

/-- There is nothing to read and somebody can still write, or there is no space and somebody can still
read. -/
def MayWait (p : Pipe) : Side → Prop
  | .read => p.state.size = 0 ∧ ∃ e ∈ p.ends, e.isOpen .write
  | .write => p.state.size = p.state.capacity ∧ ∃ e ∈ p.ends, e.isOpen .read

/-- The open ends are counted, and every call that waits is on its list or has been unblocked. -/
structure Watched (p : Pipe) : Prop where
  valid : Valid p.state
  attended : Attended p.state
  readerCount : p.state.readerCount = p.ends.countP (End.isOpen .read)
  writerCount : p.state.writerCount = p.ends.countP (End.isOpen .write)
  blocked : ∀ call ∈ p.blocked, call.1 ∈ p.state.unblocked ∨ call.1 ∈ p.state.waiters call.2

variable (h : Watched p)

lemma Watched.endCount (h : Watched p) (side : Side) : p.state.endCount side = p.ends.countP (End.isOpen side) := by
  cases side with
  | read => exact h.readerCount
  | write => exact h.writerCount

lemma Watched.mayWait (h : Watched p) (hwait : p.state.waiters side ≠ []) : p.MayWait side := by
  cases side with
  | read =>
    obtain ⟨hsize, hn⟩ := h.attended.readers hwait
    rw [h.writerCount, ← Nat.pos_iff_ne_zero, countP_pos_iff] at hn
    exact ⟨hsize, hn⟩
  | write =>
    obtain ⟨hsize, hn⟩ := h.attended.writers hwait
    rw [h.readerCount, ← Nat.pos_iff_ne_zero, countP_pos_iff] at hn
    exact ⟨hsize, hn⟩

lemma Watched.serve (h : Watched p) (hvalid : Valid p'.state) (hserves : Serves p.state p'.state)
    (hends : p'.ends = p.ends) (hblk : p'.blocked = p.blocked) : Watched p' where
  valid := hvalid
  attended := hserves.attended
  readerCount := by rw [hserves.readerCount, hends, h.readerCount]
  writerCount := by rw [hserves.writerCount, hends, h.writerCount]
  blocked call hcall := hserves.waiters (h.blocked call (hblk ▸ hcall))

lemma Watched.failWith (h : Watched p) (code : ErrorCode) : Watched (p.failWith code) :=
  h.serve h.valid ⟨Carries.of_eq rfl rfl rfl, h.attended, rfl, rfl⟩ rfl rfl

lemma Watched.addEnd (h : Watched p) (side : Side) :
    Watched { p with state := p.state.countEnd side, ends := p.ends ++ [{ mSide := side }], result := .ok 0 } := by
  obtain ⟨hattended, hcarries⟩ := h.attended.countEnd side
  refine ⟨h.valid.same (sameStream_countEnd p.state side), hattended, ?_, ?_,
    fun call hcall => hcarries.waiters (h.blocked call hcall)⟩
  · rw [countP_append, ← h.readerCount]
    cases side <;> rfl
  · rw [countP_append, ← h.writerCount]
    cases side <;> rfl

variable {index : Nat} (hi : index < p.ends.length)

section

include h hi

lemma Watched.clone (side : Side) : ∃ p', p.clone index side = .ok p' ∧ Watched p' := by
  obtain ⟨e, he⟩ := endAt_eq hi
  rw [Pipe.clone, he, ok_bind]
  split
  · exact ⟨_, rfl, h.failWith .streamClosed⟩
  · exact ⟨_, rfl, h.addEnd side⟩

lemma Watched.close : ∃ p', p.close index = .ok p' ∧ Watched p' ∧
    ∀ side ≠ p.ends[index].mSide, p'.state.endCount side = p.state.endCount side := by
  have he : p.endAt index = .ok p.ends[index] := by rw [endAt, List.getElem?_eq_getElem hi]
  obtain ⟨hattended, hcarries⟩ := h.attended.close p.ends[index].mSide
  have hcounts := endCount_close p.state p.ends[index].mSide
  rw [Pipe.close, he, ok_bind]
  split
  · exact ⟨_, rfl, h.failWith .streamClosed, fun _ _ => rfl⟩
  · rename_i hopen
    refine ⟨_, rfl, ⟨h.valid.same (sameStream_close p.state _), hattended, ?_, ?_,
      fun call hcall => hcarries.waiters (h.blocked call hcall)⟩, fun side hside => ?_⟩
    · rw [countP_set hi, ← h.readerCount]
      refine (hcounts .read).trans ?_
      simp [End.isOpen, hopen, State.endCount]
    · rw [countP_set hi, ← h.writerCount]
      refine (hcounts .write).trans ?_
      simp [End.isOpen, hopen, State.endCount]
    · rw [hcounts, if_neg hside.symm, Nat.sub_zero]

lemma Watched.read (bs : Nat) (user : UserBuffer) : ∃ p', p.read index bs user = .ok p' ∧ Watched p' := by
  obtain ⟨e, he⟩ := endAt_eq hi
  obtain ⟨st, res, received, heq, hvalid, hserves⟩ := h.attended.read h.valid bs user
  rw [Pipe.read, he, ok_bind]
  split
  · exact ⟨_, rfl, h.failWith .accessDenied⟩
  · split
    · exact ⟨_, rfl, h.failWith .streamClosed⟩
    · rw [heq, ok_bind]
      exact ⟨_, rfl, h.serve hvalid hserves rfl rfl⟩

lemma Watched.write (bs : Nat) (user : UserBuffer) : ∃ p', p.write index bs user = .ok p' ∧ Watched p' := by
  obtain ⟨e, he⟩ := endAt_eq hi
  obtain ⟨st, res, heq, hvalid, hserves⟩ := h.attended.write h.valid bs user
  rw [Pipe.write, he, ok_bind]
  split
  · exact ⟨_, rfl, h.failWith .accessDenied⟩
  · split
    · exact ⟨_, rfl, h.failWith .streamClosed⟩
    · rw [heq, ok_bind]
      exact ⟨_, rfl, h.serve hvalid hserves rfl rfl⟩

end

lemma Watched.queue (h : Watched p) {st : State} (hsame : SameStream p.state st)
    (hattended : Attended st) (hrds : st.readerCount = p.state.readerCount)
    (hwrs : st.writerCount = p.state.writerCount) (hcarries : Carries p.state st)
    (hqueued : p.blockerCount ∈ st.waiters side) :
    Watched { p with
      state := st
      blocked := (p.blockerCount, side) :: p.blocked
      blockerCount := p.blockerCount + 1
      result := .ok 0 } where
  valid := h.valid.same hsame
  attended := hattended
  readerCount := hrds.trans h.readerCount
  writerCount := hwrs.trans h.writerCount
  blocked call hcall := by
    rcases mem_cons.mp hcall with rfl | hcall
    · exact .inr hqueued
    · exact hcarries.waiters (h.blocked call hcall)

lemma Watched.blockUntil (h : Watched p) (side : Side) (hi : index < p.ends.length) :
    ∃ p', p.blockUntil side index = .ok p' ∧ Watched p' ∧ ∀ side, p'.state.endCount side = p.state.endCount side := by
  obtain ⟨e, he⟩ := endAt_eq hi
  have hself : Watched { p with result := .ok 0 } :=
    h.serve h.valid ⟨Carries.of_eq rfl rfl rfl, h.attended, rfl, rfl⟩ rfl rfl
  unfold Pipe.blockUntil
  rw [he, ok_bind]
  split
  · exact ⟨_, rfl, h.failWith .accessDenied, fun _ => rfl⟩
  · split
    · exact ⟨_, rfl, h.failWith .streamClosed, fun _ => rfl⟩
    · cases side with
      | read =>
        rw [queueReader]
        by_cases hsize : p.state.size ≠ 0
        · rw [if_pos hsize]
          exact ⟨_, rfl, hself, fun _ => rfl⟩
        · rw [if_neg hsize]
          by_cases hn : p.state.writerCount = 0
          · rw [if_pos hn]
            exact ⟨_, rfl, h.failWith .wouldBlockForever, fun _ => rfl⟩
          · rw [if_neg hn]
            refine ⟨_, rfl, h.queue {} ⟨fun _ => ⟨not_not.mp hsize, hn⟩, h.attended.writers⟩ rfl rfl
              ⟨fun _ => id, fun _ hb => .inl (mem_append_left _ hb), fun _ => .inl⟩ ?_, fun _ => rfl⟩
            exact mem_append_right _ (mem_singleton_self _)
      | write =>
        rw [queueWriter]
        by_cases hsize : p.state.capacity ≠ p.state.size
        · rw [if_pos hsize]
          exact ⟨_, rfl, hself, fun _ => rfl⟩
        · rw [if_neg hsize]
          by_cases hn : p.state.readerCount = 0
          · rw [if_pos hn]
            exact ⟨_, rfl, h.failWith .wouldBlockForever, fun _ => rfl⟩
          · rw [if_neg hn]
            refine ⟨_, rfl, h.queue {} ⟨h.attended.readers, fun _ => ⟨(not_not.mp hsize).symm, hn⟩⟩ rfl rfl
              ⟨fun _ => id, fun _ => .inl, fun _ hb => .inl (mem_append_left _ hb)⟩ ?_, fun _ => rfl⟩
            exact mem_append_right _ (mem_singleton_self _)

lemma Watched.unlink (h : Watched p) (b : Nat) : Watched (p.unlink b) where
  valid := h.valid.same {}
  attended :=
    ⟨fun hrds => h.attended.readers fun hnil => hrds (by simp [Pipe.unlink, popOff, hnil]),
      fun hwrs => h.attended.writers fun hnil => hwrs (by simp [Pipe.unlink, popOff, hnil])⟩
  readerCount := h.readerCount
  writerCount := h.writerCount
  blocked call hcall := by
    obtain ⟨hmem, hne⟩ := mem_filter.mp hcall
    have hu : call.1 ≠ b := bne_iff_ne.mp hne
    refine (h.blocked call hmem).imp_right fun hwaits => ?_
    obtain ⟨number, side⟩ := call
    cases side with
    | read | write => exact (mem_erase_of_ne hu).mpr hwaits

lemma step_watched (h : Watched p) (action : Action) (hperm : p.Permits action) :
    ∃ p', p.step action = .ok p' ∧ Watched p' := by
  cases action with
  | clone index side => exact h.clone hperm side
  | read index bs user => exact h.read hperm bs user
  | write index bs user => exact h.write hperm bs user
  | close index => exact (h.close hperm).imp fun _ hclose => hclose.imp_right And.left
  | blockUntil side index => exact (h.blockUntil side hperm).imp fun _ hb => hb.imp_right And.left
  | unlink b => exact ⟨_, rfl, h.unlink b⟩

lemma watched_create (side : Side) {capacity : Nat} (hcap : 0 < capacity) : Watched (create side capacity) := by
  have hvalid := (fifo_create side hcap).valid
  cases side with
  | read | write =>
    exact ⟨hvalid, ⟨fun hrds => absurd rfl hrds, fun hwrs => absurd rfl hwrs⟩, rfl, rfl,
      fun _ hcall => absurd hcall not_mem_nil⟩

/-- The lists are empty unless there is something to wait for, and so is a call that still waits without
having been unblocked. -/
def Attentive (p : Pipe) : Prop :=
  (∀ side : Side, p.state.waiters side ≠ [] → p.MayWait side) ∧
    ∀ call ∈ p.blocked, call.1 ∉ p.state.unblocked → p.MayWait call.2

lemma Watched.attentive (h : Watched p) : Attentive p := by
  refine ⟨fun side => h.mayWait, fun call hcall hnot => ?_⟩
  have hwaits := (h.blocked call hcall).resolve_left hnot
  exact h.mayWait (ne_nil_of_mem hwaits)

/-- No waiter of a pipe is forgotten along any run of the calls on its ends. -/
theorem attentive_run (side : Side) (capacity : Nat) (hcapacity : 0 < capacity) (actions : List Action)
    (hadmissible : machine.Admissible (create side capacity) actions) :
    machine.EveryState Attentive (create side capacity) actions := by
  exact Machine.everyState_of_step (fun _ => Watched.attentive) (fun _ action h => step_watched h action)
    (watched_create side hcapacity) hadmissible

/-- A reader waits until a byte comes, and another one until the last writer has gone. -/
def waitSample : List Action :=
  [.clone 0 .write, .blockUntil .read 0, .write 1 1 {}, .unlink 0, .read 0 1 {}, .blockUntil .read 0,
    .close 1, .unlink 1]

theorem attentive_run_waitSample : (0 < 4096 ∧ machine.Admissible (create .read 4096) waitSample) ∧
    machine.EveryState Attentive (create .read 4096) waitSample :=
  ⟨by decide +kernel, attentive_run .read 4096 (by decide) waitSample (by decide +kernel)⟩

end

open State

def State.setEndCount (s : State) (count : Nat) : Side → State
  | .read => { s with readerCount := count }
  | .write => { s with writerCount := count }

lemma State.endCount_setEndCount {s : State} {n : Nat} {u : Side} (hne : u ≠ side) :
    (s.setEndCount n side).endCount u = s.endCount u := by
  cases side <;> cases u <;> first | rfl | contradiction

/-- A pipe with the clones that have loaded the count of their side, which the constructor does without the
lock, and not yet stored it. -/
structure Cloning where
  pipe : Pipe
  clones : List (Side × Nat) := []

inductive CloningAction where
  | load (index : Nat) (side : Side)
  | store (clone : Side × Nat)
  | close (index : Nat)
  | blockUntil (side : Side) (index : Nat)

namespace Cloning

variable (c : Cloning)

def step : CloningAction → Run Cloning
  | .load index side => do
    let e ← c.pipe.endAt index
    if e.mIsClosed then return { c with pipe := c.pipe.failWith .streamClosed }
    else return { c with clones := (side, c.pipe.state.endCount side) :: c.clones }
  | .store (side, count) =>
    return {
      pipe := { c.pipe with
        state := c.pipe.state.setEndCount (count + 1) side
        ends := c.pipe.ends ++ [{ mSide := side }]
        result := .ok 0 }
      clones := c.clones.erase (side, count) }
  | .close index => return { c with pipe := ← c.pipe.close index }
  | .blockUntil side index => return { c with pipe := ← c.pipe.blockUntil side index }

def Permits : CloningAction → Prop
  | .store clone => clone ∈ c.clones
  | .load index _ | .close index | .blockUntil _ index => index < c.pipe.ends.length

def machine : Machine Cloning CloningAction Fault where
  step := step
  admits := Permits

instance (action : CloningAction) : Decidable (machine.admits c action) := by
  cases action <;> dsimp only [machine, Permits] <;> infer_instance

/-- Between the clones the counts are right, and a call is refused when the last opposite end has been closed. -/
def Exact : Prop :=
  Attentive c.pipe ∧ (c.clones = [] →
    (∀ side, c.pipe.state.endCount side = c.pipe.ends.countP (End.isOpen side)) ∧ ∀ blocker,
      ((c.pipe.state.queueReader blocker).2 = .error .wouldBlockForever ↔
        c.pipe.state.size = 0 ∧ ∀ e ∈ c.pipe.ends, ¬e.isOpen .write) ∧
      ((c.pipe.state.queueWriter blocker).2 = .error .wouldBlockForever ↔
        c.pipe.state.capacity = c.pipe.state.size ∧ ∀ e ∈ c.pipe.ends, ¬e.isOpen .read))

/-- No other clone of the side is unfinished. -/
def Apart : CloningAction → Prop
  | .load _ side => ∀ clone ∈ c.clones, clone.1 ≠ side
  | .close index => ∀ e ∈ c.pipe.ends[index]?, ∀ clone ∈ c.clones, clone.1 ≠ e.mSide
  | _ => True

instance (action : CloningAction) : Decidable (c.Apart action) := by
  cases action <;> dsimp only [Apart] <;> infer_instance

structure Steady : Prop where
  watched : Watched c.pipe
  loaded : ∀ clone ∈ c.clones, clone.2 = c.pipe.state.endCount clone.1
  nodup : (c.clones.map Prod.fst).Nodup

variable {c}

lemma Steady.exact (h : Steady c) : Exact c := by
  refine ⟨h.watched.attentive, fun _ => ⟨h.watched.endCount, fun b => ⟨?_, ?_⟩⟩⟩
  · rw [← countP_eq_zero, ← h.watched.writerCount, queueReader]
    split <;> [skip; split] <;> simp_all
  · rw [← countP_eq_zero, ← h.watched.readerCount, queueWriter]
    split <;> [skip; split] <;> simp_all

lemma step_steady (h : Steady c) (action : CloningAction) (hperm : c.Permits action)
    (hapart : c.Apart action) : ∃ c', c.step action = .ok c' ∧ Steady c' := by
  cases action with
  | load index side =>
    obtain ⟨e, he⟩ := endAt_eq hperm
    rw [step, he, ok_bind]
    split
    · exact ⟨_, rfl, h.watched.failWith .streamClosed, h.loaded, h.nodup⟩
    · refine ⟨_, rfl, h.watched, forall_mem_cons.mpr ⟨rfl, h.loaded⟩, ?_⟩
      rw [map_cons, nodup_cons, mem_map]
      exact ⟨fun ⟨clone, hclone, hside⟩ => hapart clone hclone hside, h.nodup⟩
  | store clone =>
    obtain ⟨side, n⟩ := clone
    obtain rfl : n = c.pipe.state.endCount side := h.loaded _ hperm
    refine ⟨_, rfl, ?_, fun clone hclone => ?_, h.nodup.sublist (erase_sublist.map _)⟩
    · cases side with
      | read => exact h.watched.addEnd .read
      | write => exact h.watched.addEnd .write
    · obtain ⟨hne, hclone⟩ := (Nodup.of_map _ h.nodup).mem_erase_iff.mp hclone
      have hside : clone.1 ≠ side := fun heq => hne (inj_on_of_nodup_map h.nodup hclone hperm heq)
      exact (h.loaded clone hclone).trans (endCount_setEndCount hside).symm
  | close index =>
    obtain ⟨p', hclose, hwatched, hkept⟩ := h.watched.close hperm
    refine ⟨{ c with pipe := p' }, by rw [step, hclose]; rfl, hwatched, fun clone hclone => ?_, h.nodup⟩
    rw [hkept _ (hapart _ (getElem?_eq_getElem hperm) clone hclone)]
    exact h.loaded clone hclone
  | blockUntil side index =>
    obtain ⟨p', hb, hwatched, hkept⟩ := h.watched.blockUntil side hperm
    refine ⟨{ c with pipe := p' }, by rw [step, hb]; rfl, hwatched, fun clone hclone => ?_, h.nodup⟩
    rw [hkept]
    exact h.loaded clone hclone

/-- The counts are exact along every run in which no clone overlaps with another one, or with a `close`, of
its side. -/
theorem exact_run (side : Side) (capacity : Nat) (hcapacity : 0 < capacity) (actions : List CloningAction)
    (hadmissible : machine.Admissible { pipe := create side capacity } actions)
    (hapart : machine.EveryStep Apart { pipe := create side capacity } actions) :
    machine.EveryState Exact { pipe := create side capacity } actions :=
  Machine.everyState_of_everyStep (fun _ => Steady.exact) (fun _ action h => step_steady h action)
    ⟨watched_create side hcapacity, fun _ hclone => absurd hclone not_mem_nil, nodup_nil⟩ hadmissible hapart

def cloneSample : List CloningAction :=
  [.load 0 .write, .blockUntil .read 0, .store (.write, 0), .load 1 .read, .close 1, .store (.read, 1)]

theorem exact_run_sample : (machine.Admissible { pipe := create .read 4096 } cloneSample ∧
      machine.EveryStep Apart { pipe := create .read 4096 } cloneSample) ∧
    machine.EveryState Exact { pipe := create .read 4096 } cloneSample :=
  ⟨by decide +kernel, exact_run .read 4096 (by decide) cloneSample (by decide +kernel) (by decide +kernel)⟩

def overlap : List CloningAction := [.load 0 .read, .load 0 .read, .store (.read, 1), .store (.read, 1)]

/-- One of the two increments is lost. -/
theorem not_exact_run_overlap : machine.Admissible { pipe := create .read 4096 } overlap ∧
    ¬machine.EveryState Exact { pipe := create .read 4096 } overlap := by
  refine ⟨by decide +kernel, fun h => ?_⟩
  obtain ⟨c, hrun, -, hexact⟩ := h.last
  have hlost : (machine.run { pipe := create .read 4096 } overlap).map (fun c =>
      (c.clones, c.pipe.state.endCount .read, c.pipe.ends.countP (End.isOpen .read))) = .ok ([], 2, 3) := rfl
  rw [hrun] at hlost
  simp only [Except.map, Except.ok.injEq, Prod.mk.injEq] at hlost
  obtain ⟨hnil, htwo, hthree⟩ := hlost
  have hn := (hexact hnil).1 .read
  omega

end Cloning

end UltraOS.Pipe
