import UltraOS.FileSystem.Pipe.Model
import UltraOS.Library.Ring

/-!
# The stream of a pipe

What the loops of `read` and `write` do to the ring, and that the bytes come out as they went in.
-/

namespace UltraOS.Pipe

open List CellMemory Ring Nat State

variable {capacity : Nat}

namespace State

variable {s : State} {user : UserBuffer}

def stored (s : State) : List UInt8 := window s.buffer s.capacity s.readOffset s.size

/-- The write offset is behind the bytes in the ring. -/
structure Valid (s : State) : Prop where
  readOffset : s.readOffset < s.capacity
  size : s.size ≤ s.capacity
  writeOffset : s.writeOffset = (s.readOffset + s.size) % s.capacity

lemma Valid.writeOffset_lt (h : Valid s) : s.writeOffset < s.capacity := by
  rw [h.writeOffset]
  exact mod_lt _ (zero_lt_of_lt h.readOffset)

variable {n : Nat}

lemma Valid.take (h : Valid s) (hn : n ≤ s.size) :
    Valid { s with readOffset := (s.readOffset + n) % s.capacity, size := s.size - n } ∧
      s.stored = window s.buffer s.capacity s.readOffset n ++
        stored { s with readOffset := (s.readOffset + n) % s.capacity, size := s.size - n } := by
  have hsum : n + (s.size - n) = s.size := by omega
  refine ⟨⟨mod_lt _ (zero_lt_of_lt h.readOffset), le_trans (sub_le _ _) h.size, ?_⟩, ?_⟩
  · rw [h.writeOffset, Nat.mod_add_mod, add_assoc, hsum]
  · rw [stored, stored, ← window_add, hsum]

lemma Valid.put (h : Valid s) (hn : s.size + n ≤ s.capacity) (buf : Nat → UInt8) :
    Valid { s with writeOffset := (s.writeOffset + n) % s.capacity, size := s.size + n, buffer := buf } := by
  refine ⟨h.readOffset, hn, ?_⟩
  rw [h.writeOffset, Nat.mod_add_mod, add_assoc]

lemma wrap_eq {o m : Nat} (h : o + m ≤ capacity) : (if o + m = capacity then 0 else o + m) = (o + m) % capacity := by
  split
  · rename_i heq
    rw [heq, mod_self]
  · rw [Nat.mod_eq_of_lt (by omega)]

lemma readLoop_eq (user : UserBuffer) (m : Nat) (s : State) (n : Nat) (received : List UInt8)
    (ho : s.readOffset < s.capacity) (hn : n ≤ s.size) (hm : n < m) : ∃ success k received',
    readLoop user m s n received =
    .ok ({ s with readOffset := (s.readOffset + k) % s.capacity, size := s.size - k }, success, received') ∧
    (success = true → k = n ∧ received' = received ++ window s.buffer s.capacity s.readOffset n) := by
  induction m generalizing s n received with
  | zero => omega
  | succ m ih =>
    rw [readLoop]
    by_cases hzero : n = 0
    · rw [if_pos hzero]
      refine ⟨true, 0, received, ?_, fun _ => ⟨hzero.symm, ?_⟩⟩
      · rw [add_zero, Nat.mod_eq_of_lt ho, Nat.sub_zero]
      · rw [hzero]
        exact (append_nil received).symm
    · rw [if_neg hzero]
      dsimp only
      generalize hthis : min n (s.capacity - s.readOffset) = this
      split
      · refine ⟨false, 0, received ++ (load s.buffer s.readOffset this).take
          (user.copyCount received.length this), ?_, fun hfalse => nomatch hfalse⟩
        rw [add_zero, Nat.mod_eq_of_lt ho, Nat.sub_zero]
      · have hfits : s.readOffset + this ≤ s.capacity := by omega
        rw [wrap_eq hfits]
        obtain ⟨success, k, received', heq, hsuccess⟩ := ih { s with
            readOffset := (s.readOffset + this) % s.capacity, size := s.size - this } (n - this)
          (received ++ load s.buffer s.readOffset this)
          (mod_lt _ (by omega)) (by dsimp only; omega) (by omega)
        refine ⟨success, this + k, received', ?_, fun htrue => ?_⟩
        · rw [heq, Nat.mod_add_mod, add_assoc, Nat.sub_sub]
        · obtain ⟨hk, hreceived⟩ := hsuccess htrue
          have hsum : this + (n - this) = n := by omega
          refine ⟨by omega, ?_⟩
          rw [hreceived, load_eq_window hfits, append_assoc, ← window_add, hsum]

variable {s' : State}

lemma readLoop_received (user : UserBuffer) (m : Nat) (s : State) (n : Nat) (received : List UInt8)
    (ho : s.readOffset < s.capacity) {success : Bool} {received' : List UInt8}
    (h : readLoop user m s n received = .ok (s', success, received')) : received'.length = received.length +
    user.copyCount received.length n ∧ (success = true ↔ user.copyCount received.length n = n) := by
  induction m generalizing s n received with
  | zero => cases h
  | succ m ih =>
    rw [readLoop] at h
    by_cases hzero : n = 0
    · have hle := user.copyCount_le received.length n
      have hn : user.copyCount received.length n = n := by omega
      rw [if_pos hzero] at h
      cases h
      exact ⟨by omega, iff_of_true rfl hn⟩
    · rw [if_neg hzero] at h
      dsimp only at h
      generalize hthis : min n (s.capacity - s.readOffset) = this at h
      have hsplit := user.copyCount_add received.length this (n - this)
      rw [show this + (n - this) = n by omega] at hsplit
      split at h
      · rename_i hfault
        rw [if_pos hfault] at hsplit
        cases h
        rw [length_append, length_take, length_load, hsplit]
        exact ⟨by omega, iff_of_false Bool.false_ne_true (by omega)⟩
      · rename_i hcopied
        rw [if_neg hcopied] at hsplit
        obtain ⟨hlen, hsuccess⟩ := ih _ _ _ (by dsimp only; split <;> omega) h
        rw [length_append, length_load] at hlen hsuccess
        rw [hsplit, hsuccess, hlen]
        exact ⟨by omega, by omega⟩

lemma read_received (ho : s.readOffset < s.capacity) {bs : Nat} {ret : ErrorOr Nat} {received : List UInt8}
    (h : s.read bs user = .ok (s', ret, received)) : received.length = user.copyCount 0 (min bs s.size) ∧
    (ret = .ok (min bs s.size) ∧ user.copyCount 0 (min bs s.size) = min bs s.size ∨
    ret = .error .memoryAccessViolation ∧ user.copyCount 0 (min bs s.size) < min bs s.size) := by
  have hle := user.copyCount_le 0 (min bs s.size)
  rw [read] at h
  split at h
  · rename_i hzero
    have hn : user.copyCount 0 (min bs s.size) = 0 := by omega
    cases h
    rw [hn, show min bs s.size = 0 by omega]
    exact ⟨rfl, .inl ⟨rfl, rfl⟩⟩
  · obtain ⟨⟨s1, success, received1⟩, hloop, h⟩ := of_bind h
    obtain ⟨hlen, hsuccess⟩ := readLoop_received user _ s _ [] ho hloop
    rw [length_nil, zero_add] at hlen
    rw [length_nil] at hsuccess
    dsimp only at h
    split at h
    · rename_i htrue
      cases h
      exact ⟨hlen, .inl ⟨rfl, hsuccess.mp htrue⟩⟩
    · rename_i hfalse
      cases h
      exact ⟨hlen, .inr ⟨rfl, lt_of_le_of_ne hle fun heq => hfalse (hsuccess.mpr heq)⟩⟩

lemma Valid.read_cases (h : Valid s) (bs : Nat) (user : UserBuffer) : s.size = 0 ∧ s.read bs user = .ok (s, .ok 0, []) ∨
    s.size ≠ 0 ∧ (∃ received, s.read bs user = .ok (s, .error .memoryAccessViolation, received)) ∨
    s.size ≠ 0 ∧ s.read bs user = .ok ({ s with
        readOffset := (s.readOffset + min bs s.size) % s.capacity
        size := s.size - min bs s.size }.wakeWriters, .ok (min bs s.size),
      window s.buffer s.capacity s.readOffset (min bs s.size)) := by
  by_cases hzero : s.size = 0
  · exact .inl ⟨hzero, by rw [read, if_pos hzero]⟩
  · obtain ⟨success, k, received, heq, hsuccess⟩ := readLoop_eq user (min bs s.size + 1) s
      (min bs s.size) [] h.readOffset (min_le_right _ _) (lt_succ_self _)
    have hread : s.read bs user = .ok (if success then ({ s with
        readOffset := (s.readOffset + k) % s.capacity, size := s.size - k }.wakeWriters,
          .ok (min bs s.size), received) else (s, .error .memoryAccessViolation, received)) := by
      rw [read, if_neg hzero]
      dsimp only
      rw [heq, ok_bind]
      cases success <;> rfl
    cases success with
    | false => exact .inr (.inl ⟨hzero, received, hread⟩)
    | true =>
      obtain ⟨hk, hreceived⟩ := hsuccess rfl
      refine .inr (.inr ⟨hzero, ?_⟩)
      rw [hread, if_pos rfl, hk, hreceived, nil_append]

lemma writeLoop_eq (user : UserBuffer) (m : Nat) (s : State) (n written : Nat) (h : Valid s)
    (hn : s.size + n ≤ s.capacity) (hm : n < m) :
    ∃ success k buf, writeLoop user m s n written = .ok ({ s with
        writeOffset := (s.writeOffset + k) % s.capacity, size := s.size + k, buffer := buf }, success) ∧
      window buf s.capacity s.readOffset s.size = s.stored ∧
      (success = true → k = n ∧ window buf s.capacity s.readOffset (s.size + n) =
        s.stored ++ load user.data written n) := by
  induction m generalizing s n written with
  | zero => omega
  | succ m ih =>
    have hlt := h.writeOffset_lt
    rw [writeLoop]
    by_cases hzero : n = 0
    · rw [if_pos hzero]
      refine ⟨true, 0, s.buffer, ?_, rfl, fun _ => ⟨hzero.symm, ?_⟩⟩
      · rw [add_zero, Nat.mod_eq_of_lt hlt, add_zero]
      · rw [hzero]
        exact (append_nil _).symm
    · rw [if_neg hzero]
      dsimp only
      generalize hthis : min n (s.capacity - s.writeOffset) = this
      generalize hcopied : user.copyCount written this = copied
      have hle : copied ≤ this := hcopied ▸ user.copyCount_le written this
      -- The chunk goes behind the bytes in the ring.
      have hkept : window (store s.buffer s.writeOffset
          (load user.data written copied)) s.capacity s.readOffset s.size = s.stored := by
        rw [h.writeOffset]
        apply window_store le_rfl
        rw [length_load]
        omega
      split
      · refine ⟨false, 0, store s.buffer s.writeOffset
          (load user.data written copied), ?_, hkept, fun hfalse => nomatch hfalse⟩
        rw [add_zero, Nat.mod_eq_of_lt hlt, add_zero]
      · obtain rfl : copied = this := by omega
        have hfits : s.writeOffset + copied ≤ s.capacity := by omega
        rw [wrap_eq hfits]
        have hlonger : window (store s.buffer s.writeOffset
            (load user.data written copied)) s.capacity s.readOffset (s.size + copied) =
            s.stored ++ load user.data written copied := by
          have hself : window (store s.buffer s.writeOffset (load user.data written copied)) s.capacity s.writeOffset
              (load user.data written copied).length =
              load user.data written copied :=
            window_store_self (by rw [length_load]; exact hfits)
          rw [length_load] at hself
          rw [window_add, hkept, ← h.writeOffset, hself]
        have hvalid := h.put (n := copied) (by omega)
          (store s.buffer s.writeOffset (load user.data written copied))
        obtain ⟨success, k, buf, heq, hwindow, hsuccess⟩ :=
          ih _ (n - copied) (written + copied) hvalid (by dsimp only; omega) (by omega)
        have hst : window buf s.capacity s.readOffset (s.size + copied) =
            s.stored ++ load user.data written copied := hwindow.trans hlonger
        refine ⟨success, copied + k, buf, ?_, ?_, fun htrue => ?_⟩
        · rw [heq, Nat.mod_add_mod, add_assoc, add_assoc]
        · rw [window_add] at hst
          refine (append_inj hst ?_).1
          rw [length_window, stored, length_window]
        · obtain ⟨hk, hall⟩ := hsuccess htrue
          have hsum : copied + (n - copied) = n := by omega
          refine ⟨by omega, ?_⟩
          have hend : window buf s.capacity s.readOffset (s.size + copied + (n - copied)) =
              s.stored ++ load user.data written copied ++ load user.data (written + copied) (n - copied) :=
            hall.trans (congrArg (· ++ _) hlonger)
          rwa [add_assoc, hsum, append_assoc, ← load_add, hsum] at hend

/-- What `write` does: nothing to a full pipe, nothing that can be read if a copy fails, and else it puts
bytes behind those in the ring. -/
lemma Valid.write_cases (h : Valid s) (bs : Nat) (user : UserBuffer) :
    s.capacity - s.size = 0 ∧ s.write bs user = .ok (s, .ok 0) ∨ s.capacity - s.size ≠ 0 ∧ (∃ buf,
      s.write bs user = .ok ({ s with buffer := buf }, .error .memoryAccessViolation) ∧
        window buf s.capacity s.readOffset s.size = s.stored) ∨
    s.capacity - s.size ≠ 0 ∧ ∃ n buf, n = min bs (s.capacity - s.size) ∧
      s.write bs user = .ok ({ s with
        writeOffset := (s.writeOffset + n) % s.capacity, size := s.size + n, buffer := buf }.wakeReaders, .ok n) ∧
      window buf s.capacity s.readOffset (s.size + n) = s.stored ++ load user.data 0 n := by
  by_cases hzero : s.capacity - s.size = 0
  · exact .inl ⟨hzero, by rw [write, if_pos hzero]⟩
  · obtain ⟨success, k, buf, heq, hkept, hsuccess⟩ :=
      writeLoop_eq user (min bs (s.capacity - s.size) + 1) s (min bs (s.capacity - s.size)) 0 h
        (by omega) (lt_succ_self _)
    have hwrite : s.write bs user = .ok (if success then ({ s with
        writeOffset := (s.writeOffset + k) % s.capacity
        size := s.size + k
        buffer := buf }.wakeReaders, .ok (min bs (s.capacity - s.size)))
        else ({ s with buffer := buf }, .error .memoryAccessViolation)) := by
      rw [write, if_neg hzero]
      dsimp only
      rw [heq, ok_bind]
      cases success <;> rfl
    cases success with
    | false => exact .inr (.inl ⟨hzero, buf, hwrite, hkept⟩)
    | true =>
      obtain ⟨hk, hall⟩ := hsuccess rfl
      refine .inr (.inr ⟨hzero, _, buf, rfl, ?_, hall⟩)
      rw [hwrite, if_pos rfl, hk]

/-- What a reader and a writer can see of the ring is the same. -/
structure SameStream (s s' : State) : Prop where
  capacity : s'.capacity = s.capacity := by rfl
  readOffset : s'.readOffset = s.readOffset := by rfl
  writeOffset : s'.writeOffset = s.writeOffset := by rfl
  size : s'.size = s.size := by rfl
  stored : s'.stored = s.stored := by rfl

lemma Valid.same (h : Valid s) (hsame : SameStream s s') : Valid s' := by
  refine ⟨?_, ?_, ?_⟩
  · rw [hsame.readOffset, hsame.capacity]
    exact h.readOffset
  · rw [hsame.size, hsame.capacity]
    exact h.size
  · rw [hsame.writeOffset, hsame.readOffset, hsame.size, hsame.capacity]
    exact h.writeOffset

lemma sameStream_close (s : State) (side : Side) : SameStream s (s.close side) := by
  cases side with
  | read | write =>
    rw [close]
    split <;> exact {}

lemma sameStream_countEnd (s : State) (side : Side) : SameStream s (s.countEnd side) := by cases side <;> exact {}

lemma sameStream_queue (s : State) (side : Side) (b : Nat) : SameStream s (match side with
      | .read => s.queueReader b
      | .write => s.queueWriter b).1 := by
  cases side with
  | read =>
    dsimp only
    rw [queueReader]
    split
    · exact {}
    · split <;> exact {}
  | write =>
    dsimp only
    rw [queueWriter]
    split
    · exact {}
    · split <;> exact {}

end State

open State

variable {p : Pipe}

/-- The bytes that have been accepted are those that have been returned and those in the ring. -/
structure Fifo (p : Pipe) : Prop where
  valid : Valid p.state
  accepted : p.accepted = p.returned ++ p.state.stored

lemma Fifo.same {p' : Pipe} (h : Fifo p) (hsame : SameStream p.state p'.state)
    (haccepted : p'.accepted = p.accepted) (hreturned : p'.returned = p.returned) : Fifo p' where
  valid := h.valid.same hsame
  accepted := by rw [haccepted, hreturned, hsame.stored, h.accepted]

variable {i : Nat}

lemma endAt_eq (h : i < p.ends.length) : ∃ e, p.endAt i = .ok e := by
  rw [endAt, List.getElem?_eq_getElem h]
  exact ⟨_, rfl⟩

lemma Fifo.read (h : Fifo p) (hi : i < p.ends.length) (bs : Nat) (user : UserBuffer) : ∃ p', p.read i bs user = .ok p' ∧
    Fifo p' ∧ (p'.result = .error .memoryAccessViolation → SameStream p.state p'.state) := by
  obtain ⟨e, he⟩ := endAt_eq hi
  rw [Pipe.read, he, ok_bind]
  split
  · exact ⟨_, rfl, h.same {} rfl rfl, fun _ => {}⟩
  · split
    · exact ⟨_, rfl, h.same {} rfl rfl, fun _ => {}⟩
    · rcases h.valid.read_cases bs user with ⟨hzero, heq⟩ | ⟨-, received, heq⟩ | ⟨-, heq⟩
      · rw [heq, ok_bind]
        exact ⟨_, rfl, h.same {} rfl (append_nil _), fun _ => {}⟩
      · rw [heq, ok_bind]
        exact ⟨_, rfl, h.same {} rfl rfl, fun _ => {}⟩
      · obtain ⟨hvalid, hst⟩ := h.valid.take (min_le_right bs p.state.size)
        rw [heq, ok_bind]
        refine ⟨_, rfl, ⟨hvalid.same {}, ?_⟩, fun hres => nomatch hres⟩
        rw [h.accepted, hst, ← append_assoc]
        rfl

lemma Fifo.write (h : Fifo p) (hi : i < p.ends.length) (bs : Nat) (user : UserBuffer) : ∃ p', p.write i bs user =
    .ok p' ∧ Fifo p' ∧ (p'.result = .error .memoryAccessViolation → SameStream p.state p'.state) := by
  obtain ⟨e, he⟩ := endAt_eq hi
  rw [Pipe.write, he, ok_bind]
  split
  · exact ⟨_, rfl, h.same {} rfl rfl, fun _ => {}⟩
  · split
    · exact ⟨_, rfl, h.same {} rfl rfl, fun _ => {}⟩
    · rcases h.valid.write_cases bs user with ⟨hzero, heq⟩ | ⟨-, buf, heq, hkept⟩ | ⟨-, n, buf, hn, heq, hall⟩
      · rw [heq, ok_bind]
        exact ⟨_, rfl, h.same {} (append_nil _) rfl, fun _ => {}⟩
      · have hsame : SameStream p.state { p.state with buffer := buf } := { stored := hkept }
        rw [heq, ok_bind]
        exact ⟨_, rfl, h.same hsame rfl rfl, fun _ => hsame⟩
      · have hsize := h.valid.size
        have hvalid := h.valid.put (n := n) (by omega) buf
        rw [heq, ok_bind]
        refine ⟨_, rfl, ⟨hvalid.same {}, ?_⟩, fun hres => nomatch hres⟩
        have hst : stored { p.state with
            writeOffset := (p.state.writeOffset + n) % p.state.capacity
            size := p.state.size + n
            buffer := buf } = p.state.stored ++ load user.data 0 n := hall
        dsimp only
        rw [h.accepted, append_assoc, ← hst]
        rfl

lemma Fifo.blockUntil (h : Fifo p) (side : Side) (hi : i < p.ends.length) :
    ∃ p', p.blockUntil side i = .ok p' ∧ Fifo p' ∧ SameStream p.state p'.state := by
  obtain ⟨e, he⟩ := endAt_eq hi
  have hqueue := sameStream_queue p.state side p.blockerCount
  unfold Pipe.blockUntil
  rw [he, ok_bind]
  split
  · exact ⟨_, rfl, h.same {} rfl rfl, {}⟩
  · split
    · exact ⟨_, rfl, h.same {} rfl rfl, {}⟩
    · dsimp only
      split
      · exact ⟨_, rfl, h.same {} rfl rfl, {}⟩
      · exact ⟨_, rfl, h.same {} rfl rfl, {}⟩
      · exact ⟨_, rfl, h.same hqueue rfl rfl, hqueue⟩

lemma step_fifo (h : Fifo p) (action : Action) (hperm : p.Permits action) : ∃ p', p.step action =
    .ok p' ∧ Fifo p' ∧ (p'.result = .error .memoryAccessViolation → SameStream p.state p'.state) := by
  cases action with
  | clone i side =>
    obtain ⟨e, he⟩ := endAt_eq hperm
    have hn := sameStream_countEnd p.state side
    rw [step, clone, he, ok_bind]
    split
    · exact ⟨_, rfl, h.same {} rfl rfl, fun _ => {}⟩
    · exact ⟨_, rfl, h.same hn rfl rfl, fun _ => hn⟩
  | read i bs user => exact h.read hperm bs user
  | write i bs user => exact h.write hperm bs user
  | close i =>
    obtain ⟨e, he⟩ := endAt_eq hperm
    have hclose := sameStream_close p.state e.mSide
    rw [step, close, he, ok_bind]
    split
    · exact ⟨_, rfl, h.same {} rfl rfl, fun _ => {}⟩
    · exact ⟨_, rfl, h.same hclose rfl rfl, fun _ => hclose⟩
  | blockUntil side i =>
    obtain ⟨p', hok, hfifo, hsame⟩ := h.blockUntil side hperm
    exact ⟨p', hok, hfifo, fun _ => hsame⟩
  | unlink b => exact ⟨_, rfl, h.same {} rfl rfl, fun _ => {}⟩

lemma fifo_create (side : Side) (h : 0 < capacity) : Fifo (create side capacity) := by
  cases side with
  | read | write => exact ⟨⟨h, zero_le _, (zero_mod _).symm⟩, rfl⟩

/-- The returned bytes are a prefix of the accepted ones, the rest is in the ring, and a call that cannot
access the memory of the user does not change the stream. -/
structure Lossless (p : Pipe) : Prop where
  returned : p.returned <+: p.accepted
  rest : p.accepted.drop p.returned.length = p.state.stored
  unchanged : ∀ action p', p.Permits action → p.step action = .ok p' →
    p'.result = .error .memoryAccessViolation → SameStream p.state p'.state

/-- A pipe is lossless along every run of the calls on its ends. -/
theorem lossless_run (side : Side) (capacity : Nat) (hcapacity : 0 < capacity) (actions : List Action)
    (hadmissible : machine.Admissible (create side capacity) actions) :
    machine.EveryState Lossless (create side capacity) actions := by
  apply Machine.everyState_of_step (I := Fifo) _ _ (fifo_create side hcapacity) hadmissible
  · intro p h
    refine ⟨?_, ?_, fun action p' hperm hok => ?_⟩
    · rw [h.accepted]
      exact prefix_append _ _
    · rw [h.accepted, drop_left]
    · obtain ⟨p'', hok', -, hsame⟩ := step_fifo h action hperm
      cases hok.symm.trans hok'
      exact hsame
  · intro p action h hperm
    obtain ⟨p', hok, hfifo, -⟩ := step_fifo h action hperm
    exact ⟨p', hok, hfifo⟩

/-- A transfer of three bytes, and a read into memory of which only one byte can be accessed. -/
def transferSample : List Action :=
  [.clone 0 .write, .write 1 3 { data := fun i => UInt8.ofNat i },
    .read 0 2 { isAccessible := fun i => i < 1 }, .read 0 2 {}, .close 1, .read 0 2 {}]

theorem lossless_run_transferSample : (0 < 4096 ∧ machine.Admissible (create .read 4096) transferSample) ∧
    machine.EveryState Lossless (create .read 4096) transferSample :=
  ⟨by decide +kernel, lossless_run .read 4096 (by decide) transferSample (by decide +kernel)⟩

end UltraOS.Pipe
