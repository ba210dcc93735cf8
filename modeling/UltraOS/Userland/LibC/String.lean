import UltraOS.Common.Substring

/-!
# Copies within bounds

`strncpy`, `strxfrm`, `memccpy` and `memmove` of `Userland/LibC/string.c`. A destination is a list of as many
bytes as it has, and a load or a store behind the end of a list is a fault. `memmove` works on one memory,
since its areas may overlap.
-/

namespace UltraOS.LibC.Strings

open List UltraOS.Substring

def load (area : List UInt8) (i : Nat) : Run UInt8 :=
  match area[i]? with
  | some byte => .ok byte
  | none => .error .badPointer

def store (area : List UInt8) (i : Nat) (byte : UInt8) : Run (List UInt8) :=
  if i < area.length then .ok (area.set i byte) else .error .badPointer

/-- The first loop of `strncpy`, with the index at which it stops. -/
def copyLoop (src : List UInt8) : (remaining i : Nat) → List UInt8 → Run (List UInt8 × Nat)
  | 0, i, dest => .ok (dest, i)
  | remaining + 1, i, dest => do
    let byte ← load src i
    if byte = 0 then return (dest, i)
    else
      let dest ← store dest i byte
      copyLoop src remaining (i + 1) dest

def padLoop : (remaining i : Nat) → List UInt8 → Run (List UInt8)
  | 0, _, dest => .ok dest
  | remaining + 1, i, dest => do
    let dest ← store dest i 0
    padLoop remaining (i + 1) dest

def strncpy (dest src : List UInt8) (count : Nat) : Run (List UInt8) := do
  let (dest, i) ← copyLoop src count 0 dest
  padLoop (count - i) i dest

def transferLoop (src : List UInt8) : (remaining i : Nat) → List UInt8 → Run (List UInt8)
  | 0, _, dest => .ok dest
  | remaining + 1, i, dest => do
    let byte ← load src i
    let dest ← store dest i byte
    transferLoop src remaining (i + 1) dest

/-- No destination is the null pointer. -/
def strxfrm (dest : Option (List UInt8)) (src : List UInt8) (count : Nat) : Run (Option (List UInt8) × Nat) := do
  let bytesNeeded ← strlen src
  match dest with
  | none => return (none, bytesNeeded)
  | some dest =>
    let dest ← transferLoop src (min count bytesNeeded) 0 dest
    let dest ← store dest (min count bytesNeeded) 0
    return (some dest, bytesNeeded)

def memccpyLoop (src : List UInt8) (c : UInt8) : (remaining i : Nat) → List UInt8 → Run (List UInt8 × Option Nat)
  | 0, _, dest => .ok (dest, none)
  | remaining + 1, i, dest => do
    let val ← load src i
    let dest ← store dest i val
    -- the pointer to the start of the destination plus one, wherever the byte is
    if val = c then return (dest, some 1) else memccpyLoop src c remaining (i + 1) dest

/-- The pointer that is returned is an offset into the destination. -/
def memccpy (dest src : List UInt8) (c : UInt8) (count : Nat) : Run (List UInt8 × Option Nat) :=
  memccpyLoop src c count 0 dest

section

variable (dest src : Nat)

def moveByte (memory : List UInt8) (i : Nat) : Run (List UInt8) := do
  let byte ← load memory (src + i)
  store memory (dest + i) byte

def memcpyLoop : (remaining i : Nat) → List UInt8 → Run (List UInt8)
  | 0, _, memory => .ok memory
  | remaining + 1, i, memory => do
    let memory ← moveByte dest src memory i
    memcpyLoop remaining (i + 1) memory

def moveBackLoop : (count : Nat) → List UInt8 → Run (List UInt8)
  | 0, memory => .ok memory
  | count + 1, memory => do
    let memory ← moveByte dest src memory count
    moveBackLoop count memory

def memmove (count : Nat) (memory : List UInt8) : Run (List UInt8) :=
  if src < dest then moveBackLoop dest src count memory else memcpyLoop dest src count 0 memory

/-- The bytes from `first` to `last` of the destination are those that the source had, and all others are as
they were. -/
def Moved (memory result : List UInt8) (first last : Nat) : Prop :=
  result.length = memory.length ∧ ∀ k, result[k]? =
    if dest + first ≤ k ∧ k < dest + last then memory[src + (k - dest)]? else memory[k]?

variable {dest src} {mem r : List UInt8} {first last : Nat}

lemma moveByte_moved (i first' last' : Nat) (h : Moved dest src mem r first last) (hdest : dest + i < mem.length)
    (hsrc : src + i < mem.length) (hkept : ¬(dest + first ≤ src + i ∧ src + i < dest + last))
    (hgrow : ∀ k, first' ≤ k ∧ k < last' ↔ k = i ∨ first ≤ k ∧ k < last) :
    ∃ r', moveByte dest src r i = .ok r' ∧ Moved dest src mem r' first' last' := by
  obtain ⟨hlen, hget⟩ := h
  refine ⟨r.set (dest + i) mem[src + i], ?_, by rwa [length_set], fun k => ?_⟩
  · rw [moveByte, load, hget, if_neg hkept, getElem?_eq_getElem hsrc, ok_bind, store, if_pos (by omega)]
  · rw [getElem?_set, hget]
    have hk := hgrow (k - dest)
    by_cases heq : dest + i = k
    · subst heq
      rw [if_pos rfl, if_pos (by omega), if_pos (by omega), Nat.add_sub_cancel_left, getElem?_eq_getElem hsrc]
    · rw [if_neg heq]
      by_cases hin : dest + first' ≤ k ∧ k < dest + last'
      · rw [if_pos hin, if_pos (by omega)]
      · rw [if_neg hin, if_neg (by omega)]

lemma memcpyLoop_moved (hle : dest ≤ src) (n i : Nat) (r : List UInt8) (h : Moved dest src mem r 0 i)
    (hdest : dest + (i + n) ≤ mem.length) (hsrc : src + (i + n) ≤ mem.length) : ∃ r', memcpyLoop dest src n i r =
    .ok r' ∧ Moved dest src mem r' 0 (i + n) := by
  induction n generalizing i r with
  | zero => exact ⟨r, rfl, h⟩
  | succ n ih =>
    obtain ⟨r', hrun, h'⟩ := moveByte_moved i 0 (i + 1) h (by omega) (by omega) (by omega) fun k => by omega
    rw [memcpyLoop, hrun, ok_bind, add_comm n, ← add_assoc]
    exact ih (i + 1) r' h' (by omega) (by omega)

lemma moveBackLoop_moved (hlt : src < dest) (count i : Nat) (r : List UInt8)
    (h : Moved dest src mem r i count) (hi : i ≤ count) (hdest : dest + count ≤ mem.length) :
    ∃ r', moveBackLoop dest src i r = .ok r' ∧ Moved dest src mem r' 0 count := by
  induction i generalizing r with
  | zero => exact ⟨r, rfl, h⟩
  | succ i ih =>
    obtain ⟨r', hrun, h'⟩ := moveByte_moved i i count h (by omega) (by omega) (by omega) fun k => by omega
    rw [moveBackLoop, hrun, ok_bind]
    exact ih r' h' (by omega)

lemma memmove_moved {count : Nat} (hdest : dest + count ≤ mem.length) (hsrc : src + count ≤ mem.length) :
    ∃ r, memmove dest src count mem = .ok r ∧ Moved dest src mem r 0 count := by
  have hstart (i : Nat) : Moved dest src mem mem i i := ⟨rfl, fun k => (if_neg (by omega)).symm⟩
  unfold memmove
  split
  · exact moveBackLoop_moved ‹_› count count mem (hstart count) le_rfl hdest
  · rename_i hge
    rw [← zero_add count] at hdest hsrc
    have hmoved := memcpyLoop_moved (by omega) count 0 mem (hstart 0) hdest hsrc
    rwa [zero_add] at hmoved

end

variable {f g s d x : List UInt8} {c : UInt8}

lemma load_append (f s : List UInt8) (c : UInt8) : load (f ++ c :: s) f.length = .ok c := by simp [load]

lemma store_append (g d : List UInt8) (old c : UInt8) : store (g ++ old :: d) g.length c = .ok (g ++ c :: d) := by
  simp [store]

lemma padLoop_eq (d g : List UInt8) : padLoop d.length g.length (g ++ d) = .ok (g ++ replicate d.length 0) := by
  induction d generalizing g with
  | nil => rfl
  | cons old d ih =>
    have hstep := ih (g ++ [0])
    rw [append_assoc, singleton_append, length_append, length_singleton, append_assoc] at hstep
    rwa [length_cons, padLoop, store_append, ok_bind]

/-- A loop that copies byte by byte can stop where the bytes read so far are the bytes written so far. -/
lemma transferLoop_eq (s d f g x : List UInt8) (hlen : f.length = g.length) (hd : s.length ≤ d.length) :
    transferLoop (f ++ (s ++ x)) s.length f.length (g ++ d) = .ok (g ++ (s ++ d.drop s.length)) := by
  induction s generalizing d f g with
  | nil => rfl
  | cons c s ih =>
    obtain ⟨old, d, rfl⟩ := exists_cons_of_length_pos (lt_of_lt_of_le (Nat.succ_pos _) hd)
    have hstep := ih d (f ++ [c]) (g ++ [c]) (by simpa using hlen) (Nat.le_of_succ_le_succ hd)
    simp only [append_assoc, singleton_append, length_append, length_singleton] at hstep
    rw [length_cons, transferLoop, cons_append, load_append, ok_bind, hlen, store_append, ok_bind, ← hlen, hstep]
    rfl

/-- Of the source `s ++ x` the part `s` is read in front of the byte `c`, which comes next unless the count
is used up. -/
structure Reads (c : UInt8) (s x : List UInt8) (count : Nat) : Prop where
  free : c ∉ s
  stop : s.length < count ∧ x.head? = some c ∨ s.length = count

lemma exists_reads (c : UInt8) (src : List UInt8) (count : Nat) (h : count ≤ src.length ∨ c ∈ src) :
    ∃ s x, src = s ++ x ∧ Reads c s x count := by
  induction src generalizing count with
  | nil => exact ⟨[], [], rfl, not_mem_nil, .inr (Nat.le_zero.mp (h.resolve_right not_mem_nil)).symm⟩
  | cons b src ih =>
    obtain _ | count := count
    · exact ⟨[], b :: src, rfl, not_mem_nil, .inr rfl⟩
    by_cases hb : c = b
    · exact ⟨[], b :: src, rfl, not_mem_nil, .inl ⟨Nat.succ_pos _, congrArg some hb.symm⟩⟩
    · obtain ⟨s, x, rfl, hfree, hstop⟩ :=
        ih count (h.imp Nat.le_of_succ_le_succ fun hmem => (mem_cons.mp hmem).resolve_left hb)
      refine ⟨b :: s, x, rfl, fun hmem => (mem_cons.mp hmem).elim hb hfree, ?_⟩
      rw [length_cons]
      exact hstop.imp (.imp_left Nat.succ_lt_succ) (congrArg (· + 1))

lemma Reads.tail {b : UInt8} (h : Reads c (b :: s) x d.length) :
    ∃ old d', d = old :: d' ∧ b ≠ c ∧ Reads c s x d'.length := by
  obtain ⟨hfree, hstop⟩ := h
  obtain ⟨old, d, rfl⟩ : ∃ old d', d = old :: d' :=
    exists_cons_of_length_pos (hstop.elim (fun hlt => by omega) fun heq => heq ▸ Nat.succ_pos _)
  rw [mem_cons, not_or] at hfree
  exact ⟨old, d, rfl, Ne.symm hfree.1, hfree.2, hstop.imp (.imp_left Nat.lt_of_succ_lt_succ) Nat.succ.inj⟩

lemma copyLoop_eq (h : Reads 0 s x d.length) (hlen : f.length = g.length) :
    copyLoop (f ++ (s ++ x)) d.length f.length (g ++ d) = .ok (g ++ (s ++ d.drop s.length), f.length + s.length) := by
  induction s generalizing d f g with
  | nil =>
    rcases h.stop with ⟨hpos, hhead⟩ | hzero
    · obtain ⟨old, d, rfl⟩ := exists_cons_of_length_pos hpos
      obtain ⟨x, rfl⟩ := head?_eq_some_iff.mp hhead
      rw [length_cons, copyLoop, nil_append, load_append, ok_bind, if_pos rfl]
      rfl
    · rw [length_eq_zero_iff.mp hzero.symm]
      rfl
  | cons b s ih =>
    obtain ⟨old, d, rfl, hne, h⟩ := h.tail
    have hstep := ih (f := f ++ [b]) (g := g ++ [b]) h (by simpa using hlen)
    simp only [append_assoc, singleton_append, length_append, length_singleton] at hstep
    rw [length_cons, copyLoop, cons_append, load_append, ok_bind, if_neg hne, hlen, store_append, ok_bind, ← hlen,
      hstep, length_cons, add_assoc, add_comm 1]
    rfl

lemma memccpyLoop_eq (h : Reads c s x d.length) (hlen : f.length = g.length) :
    memccpyLoop (f ++ (s ++ x)) c d.length f.length (g ++ d) = .ok (if s.length < d.length then
      (g ++ (s ++ c :: d.drop (s.length + 1)), some 1) else (g ++ s, none)) := by
  induction s generalizing d f g with
  | nil =>
    rcases h.stop with ⟨hpos, hhead⟩ | hzero
    · obtain ⟨old, d, rfl⟩ := exists_cons_of_length_pos hpos
      obtain ⟨x, rfl⟩ := head?_eq_some_iff.mp hhead
      rw [if_pos hpos, length_cons, memccpyLoop, nil_append, load_append, ok_bind, hlen, store_append, ok_bind,
        if_pos rfl]
      rfl
    · rw [length_eq_zero_iff.mp hzero.symm]
      rfl
  | cons b s ih =>
    obtain ⟨old, d, rfl, hne, h⟩ := h.tail
    have hstep := ih (f := f ++ [b]) (g := g ++ [b]) h (by simpa using hlen)
    simp only [append_assoc, singleton_append, length_append, length_singleton] at hstep
    rw [length_cons, memccpyLoop, cons_append, load_append, ok_bind, hlen, store_append, ok_bind, if_neg hne, ← hlen,
      hstep]
    simp only [length_cons, Nat.add_lt_add_iff_right]
    rfl

lemma strncpy_eq (h : Reads 0 s x d.length) :
    strncpy d (s ++ x) d.length = .ok (s ++ replicate (d.length - s.length) 0) := by
  have hcopy : copyLoop (s ++ x) d.length 0 d = .ok (s ++ d.drop s.length, 0 + s.length) :=
    copyLoop_eq (f := []) (g := []) h rfl
  have hpad := padLoop_eq (d.drop s.length) s
  rw [length_drop] at hpad
  rwa [strncpy, hcopy, ok_bind, zero_add]

lemma strxfrm_eq (hfree : 0 ∉ s) : strxfrm (some d) (s ++ 0 :: x) d.length =
    if s.length < d.length then .ok (some (s ++ 0 :: d.drop (s.length + 1)), s.length) else .error .badPointer := by
  have hlength : strlen (s ++ 0 :: x) = .ok s.length := strlen_eq s x fun c hc heq => hfree (heq ▸ hc)
  rw [strxfrm, hlength, ok_bind]
  dsimp only
  by_cases hlt : s.length < d.length
  · obtain ⟨old, ts, hdrop⟩ := exists_cons_of_length_pos (l := d.drop s.length) (by rw [length_drop]; omega)
    have hcopy : transferLoop (s ++ 0 :: x) s.length 0 d = .ok (s ++ d.drop s.length) :=
      transferLoop_eq s d [] [] (0 :: x) rfl hlt.le
    rw [min_eq_right hlt.le, hcopy, ok_bind, hdrop, store_append, ok_bind, ← drop_drop, hdrop, if_pos hlt]
    rfl
  · have hcopy := transferLoop_eq (s.take d.length) d [] [] (s.drop d.length ++ 0 :: x) rfl
      (by rw [length_take]; exact min_le_left ..)
    have hlen : (s.take d.length).length = d.length := by
      rw [length_take]
      omega
    rw [nil_append, ← append_assoc, take_append_drop, hlen, drop_length, append_nil] at hcopy
    simp only [nil_append, length_nil] at hcopy
    rw [min_eq_left (by omega), hcopy, ok_bind, store, if_neg (by omega), if_neg hlt]
    rfl

/-- The copies that stay in their bounds and do what they should, and when the other two do. -/
theorem boundedCopies (c : UInt8) (d : List UInt8) :
    (∀ src count, count ≤ src.length ∨ c ∈ src → ∃ s x, src = s ++ x ∧ Reads c s x count) ∧
    (∀ s x, Reads 0 s x d.length → strncpy d (s ++ x) d.length = .ok (s ++ replicate (d.length - s.length) 0)) ∧
    (∀ dest src count mem, dest + count ≤ mem.length → src + count ≤ mem.length →
      ∃ r, memmove dest src count mem = .ok r ∧ Moved dest src mem r 0 count) ∧
    (∀ s x, Reads c s x d.length → (memccpy d (s ++ x) c d.length = .ok (if s.length < d.length then
      (s ++ c :: d.drop (s.length + 1), some (s.length + 1)) else (s, none)) ↔ (s.length < d.length → s = []))) ∧
    ∀ s x, 0 ∉ s → ((∃ d', strxfrm (some d) (s ++ 0 :: x) d.length = .ok (some d', s.length) ∧
      (s.length < d.length → s ++ [0] <+: d')) ↔ s.length < d.length) := by
  refine ⟨exists_reads c, fun s x => strncpy_eq, fun dest src count mem => memmove_moved,
    fun s x h => ?_, fun s x hfree => ?_⟩
  · have hrun : memccpy d (s ++ x) c d.length = _ := memccpyLoop_eq (f := []) (g := []) h rfl
    rw [hrun]
    by_cases hlt : s.length < d.length
    · rw [if_pos hlt, if_pos hlt]
      constructor
      · intro heq _
        exact length_eq_zero_iff.mp (Nat.succ.inj (Option.some.inj (Prod.mk.inj (Except.ok.inj heq)).2)).symm
      · intro hnil
        rw [hnil hlt]
        rfl
    · rw [if_neg hlt, if_neg hlt]
      exact iff_of_true rfl fun h => absurd h hlt
  · rw [strxfrm_eq hfree]
    by_cases hlt : s.length < d.length
    · rw [if_pos hlt]
      exact iff_of_true ⟨_, rfl, fun _ => ⟨d.drop (s.length + 1), by simp⟩⟩ hlt
    · rw [if_neg hlt]
      refine iff_of_false ?_ hlt
      rintro ⟨d', heq, -⟩
      cases heq

theorem boundedCopies_sample : strncpy [9, 9, 9] ([1] ++ [0]) 3 = .ok ([1] ++ replicate 2 0) ∧
    ∃ r, memmove 1 0 2 [1, 2, 3] = .ok r ∧ Moved 1 0 [1, 2, 3] r 0 2 :=
  have h := boundedCopies 0 [9, 9, 9]
  ⟨h.2.1 [1] [0] ⟨by decide, by decide⟩, h.2.2.1 1 0 2 [1, 2, 3] (by decide) (by decide)⟩

/-- The byte is the second one, and the string is as long as the destination. -/
theorem not_boundedCopies : memccpy [0, 0, 0] [1, 2, 3] 2 3 = .ok ([1, 2, 0], some 1) ∧
    strxfrm (some [9, 9]) [1, 2, 0] 2 = .error .badPointer :=
  ⟨rfl, rfl⟩

end UltraOS.LibC.Strings
