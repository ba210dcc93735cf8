import UltraOS.Base.Fault
import UltraOS.Library.CellMemory

/-!
# The initial stack of a program

The part of `TaskLoader::do_load` that builds the stack of a new program, in
`Kernel/Multitasking/TaskLoader.cpp`. What is pushed lies in one image from `current_sp` on, up to the
bytes that are left out for the alignment.
-/

namespace UltraOS.TaskLoader

open CellMemory List

def wordBytes : (size word : Nat) → List UInt8
  | 0, _ => []
  | size + 1, word => UInt8.ofNat word :: wordBytes size (word / 0x100)

structure UserStack where
  currentSp : Nat
  memory : Nat → UInt8

def push (stack : UserStack) (bytes : List UInt8) : UserStack where
  currentSp := stack.currentSp - bytes.length
  memory := store stack.memory (stack.currentSp - bytes.length) bytes

def pushStr (stack : UserStack) (str : List UInt8) : UserStack := push stack (str ++ [0])

/-- `push_ptr_on_the_stack`, for pointers of the given size. -/
def pushPtr (size : Nat) (stack : UserStack) (addr : Nat) : UserStack := push stack (wordBytes size addr)

/-- The loop over the strings of a vector, from the last one on, with the addresses that it notes. -/
def pushStrs (stack : UserStack) (strs : List (List UInt8)) : UserStack × List Nat :=
  strs.foldr (fun str (stack, addresses) => (pushStr stack str, addresses ++ [(pushStr stack str).currentSp]))
    (stack, [])

/-- The alignment of `current_sp` in front of `count` pointers and four words more. -/
def alignSp (size count currentSp : Nat) : Nat :=
  let currentSp := currentSp - currentSp % 16
  let remainder := count % (16 / size)
  if remainder ≠ 0 then currentSp - (16 / size - remainder) * size else currentSp

def pushVectors (size : Nat) (stack : UserStack) (userArgv userEnvp : List Nat) : UserStack :=
  let stack := pushPtr size (pushPtr size stack 0) 0
  let stack := userEnvp.foldl (pushPtr size) stack
  let stack := pushPtr size stack 0
  let stack := userArgv.foldl (pushPtr size) stack
  pushPtr size stack userArgv.length

/-- The stack of `do_load`, from its end on. -/
def buildStack (size stackBegin : Nat) (memory : Nat → UInt8) (argv envp : List (List UInt8)) :
    Run UserStack := do
  let (stack, userEnvp) := pushStrs ⟨stackBegin, memory⟩ envp
  let (stack, userArgv) := pushStrs stack argv
  let currentSp := alignSp size (userEnvp.length + userArgv.length) stack.currentSp
  let stack := pushVectors size { stack with currentSp } userArgv userEnvp
  assert (stack.currentSp % 16 = 0) "(current_sp % 16) == 0"
  return stack

section

def image (strs : List (List UInt8)) : List UInt8 := strs.flatMap (· ++ [0])

def addressesFrom : (address : Nat) → (strs : List (List UInt8)) → List Nat
  | _, [] => []
  | address, str :: strs => address :: addressesFrom (address + (str.length + 1)) strs

/-- Pointers to copies of strings with a terminator, which ascend and do not overlap between the
bounds. -/
def Copies (memory : Nat → UInt8) : (low : Nat) → List Nat → List (List UInt8) → (high : Nat) → Prop
  | low, [], [], high => low ≤ high
  | low, ptr :: ptrs, str :: strs, high =>
    low ≤ ptr ∧ load memory ptr (str.length + 1) = str ++ [0] ∧ Copies memory (ptr + (str.length + 1)) ptrs strs high
  | _, _, _, _ => False

variable {size a low : Nat} {memory : Nat → UInt8} {strs : List (List UInt8)} {stack : UserStack}

lemma length_image_cons (str : List UInt8) (strs : List (List UInt8)) :
    (image (str :: strs)).length = str.length + 1 + (image strs).length := by
  rw [image, flatMap_cons, length_append, length_append]
  rfl

@[simp]
lemma length_addressesFrom (a : Nat) (strs : List (List UInt8)) : (addressesFrom a strs).length = strs.length := by
  induction strs generalizing a with
  | nil => rfl
  | cons str strs ih => rw [addressesFrom, length_cons, ih, length_cons]

@[simp]
lemma length_wordBytes (size word : Nat) : (wordBytes size word).length = size := by
  induction size generalizing word with
  | zero => rfl
  | succ size ih => rw [wordBytes, length_cons, ih]

lemma copies_of_load (hlow : low ≤ a) (h : load memory a (image strs).length = image strs) :
    Copies memory low (addressesFrom a strs) strs (a + (image strs).length) := by
  induction strs generalizing low a with
  | nil => exact hlow
  | cons str strs ih =>
    rw [length_image_cons, load_add] at h
    obtain ⟨hfirst, hrest⟩ := append_inj h (by simp)
    rw [length_image_cons, ← add_assoc]
    exact ⟨hlow, hfirst, ih le_rfl hrest⟩

lemma push_nil (stack : UserStack) : push stack [] = stack := by
  have hstore : store stack.memory stack.currentSp [] = stack.memory := by
    funext a
    simp [store]
  rw [push, length_nil, Nat.sub_zero, hstore]

lemma push_push {xs ys : List UInt8} (h : xs.length + ys.length ≤ stack.currentSp) :
    push (push stack ys) xs = push stack (xs ++ ys) := by
  have hback : stack.currentSp - ys.length = stack.currentSp - (xs.length + ys.length) + xs.length := by omega
  rw [push, push, push, hback, Nat.add_sub_cancel, store_append, length_append]

lemma pushStrs_eq (h : a + (image strs).length = stack.currentSp) :
    pushStrs stack strs = (push stack (image strs), (addressesFrom a strs).reverse) := by
  induction strs generalizing a with
  | nil => rw [image, flatMap_nil, push_nil]; rfl
  | cons str strs ih =>
    rw [length_image_cons] at h
    have hpush : pushStr (push stack (image strs)) str = push stack (image (str :: strs)) :=
      push_push (by rw [length_append, length_singleton]; omega)
    rw [pushStrs, foldr_cons, ← pushStrs, ih (by omega : a + (str.length + 1) + (image strs).length = _)]
    dsimp only
    rw [hpush, addressesFrom, reverse_cons, push, length_image_cons, ← h, Nat.add_sub_cancel]

lemma foldr_pushPtr (words : List Nat) (h : words.length * size ≤ stack.currentSp) :
    words.foldr (fun word stack => pushPtr size stack word) stack = push stack (words.flatMap (wordBytes size)) := by
  induction words with
  | nil => exact (push_nil stack).symm
  | cons word words ih =>
    rw [length_cons, Nat.succ_mul] at h
    rw [foldr_cons, ih (by omega)]
    apply push_push
    simpa [add_comm] using h

lemma pushVectors_eq {argPtrs envPtrs : List Nat} (h : (envPtrs.length + argPtrs.length + 4) * size ≤ stack.currentSp) :
    pushVectors size stack argPtrs.reverse envPtrs.reverse =
    push stack ((argPtrs.length :: argPtrs ++ 0 :: envPtrs ++ [0, 0]).flatMap (wordBytes size)) := by
  rw [← foldr_pushPtr, pushVectors, foldl_reverse, foldl_reverse, length_reverse]
  · simp
  · refine le_trans (Nat.mul_le_mul_right size (le_of_eq ?_)) h
    simp
    omega

end

variable {size n currentSp stackBegin bottom : Nat}

lemma alignSp_le (size n currentSp : Nat) : alignSp size n currentSp ≤ currentSp := by
  unfold alignSp
  dsimp only
  split <;> omega

lemma alignSp_mod (hsize : size = 4 ∨ size = 8) (hfits : (n + 4) * size ≤ alignSp size n currentSp) :
    (alignSp size n currentSp - (n + 4) * size) % 16 = 0 := by
  unfold alignSp at *
  dsimp only at *
  rcases hsize with rfl | rfl <;> split_ifs at * <;> omega

/-- The bytes of the words of the stack when the strings start at the base. -/
def wordsAt (size base : Nat) (argv envp : List (List UInt8)) : List UInt8 :=
  (argv.length :: addressesFrom base argv ++ 0 :: addressesFrom (base + (image argv).length) envp ++ [0, 0]).flatMap
    (wordBytes size)

def stackAt (size base : Nat) (memory : Nat → UInt8) (argv envp : List (List UInt8)) : UserStack :=
  push ⟨alignSp size (envp.length + argv.length) base, store memory base (image argv ++ image envp)⟩
    (wordsAt size base argv envp)

lemma length_wordsAt (size b : Nat) (argv envp : List (List UInt8)) :
    (wordsAt size b argv envp).length = (envp.length + argv.length + 4) * size := by
  simp [wordsAt, add_mul]
  omega

variable {b : Nat} {memory : Nat → UInt8} {argv envp : List (List UInt8)}

lemma stackAt_currentSp : (stackAt size b memory argv envp).currentSp =
    alignSp size (envp.length + argv.length) b - (envp.length + argv.length + 4) * size := by
  rw [stackAt, push, length_wordsAt]

lemma buildStack_eq (hsize : size = 4 ∨ size = 8) (hb : b + (image argv ++ image envp).length = stackBegin)
    (hfits : (envp.length + argv.length + 4) * size ≤ alignSp size (envp.length + argv.length) b) :
    buildStack size stackBegin memory argv envp = .ok (stackAt size b memory argv envp) := by
  have hlen : (image argv ++ image envp).length = (image argv).length + (image envp).length := length_append
  have hsp : stackBegin - (image argv ++ image envp).length = b := by omega
  have hvectors : pushVectors size
      ⟨alignSp size (envp.length + argv.length) b, store memory b (image argv ++ image envp)⟩
      (addressesFrom b argv).reverse (addressesFrom (b + (image argv).length) envp).reverse = _ :=
    pushVectors_eq (by simpa using hfits)
  rw [length_addressesFrom] at hvectors
  rw [buildStack, pushStrs_eq (by dsimp only; omega : b + (image argv).length + (image envp).length = _)]
  dsimp only
  rw [pushStrs_eq (by dsimp only [push]; omega : b + _ = _), push_push (by dsimp only; omega), push, hsp]
  dsimp only
  rw [length_reverse, length_reverse, length_addressesFrom, length_addressesFrom, hvectors, ← wordsAt, ← stackAt,
    stackAt_currentSp, decide_eq_true (alignSp_mod hsize hfits), assert_true]
  rfl

lemma load_stackAt (hfits : (envp.length + argv.length + 4) * size ≤ alignSp size (envp.length + argv.length) b) :
    load (stackAt size b memory argv envp).memory b (image argv ++ image envp).length = image argv ++ image envp := by
  have hle := alignSp_le size (envp.length + argv.length) b
  refine (load_congr fun i _ => ?_).trans (load_store memory b (image argv ++ image envp))
  apply store_outside
  rw [length_wordsAt]
  dsimp only
  omega

/-- An aligned stack with the count, the pointers and, behind them, the strings. -/
theorem buildStack_spec (memory : Nat → UInt8) (argv envp : List (List UInt8)) (hsize : size = 4 ∨ size = 8)
    (hfits : bottom + (envp.length + argv.length + 4) * size ≤
      alignSp size (envp.length + argv.length) (stackBegin - (image argv ++ image envp).length)) :
    ∃ stack argPtrs envPtrs middle, buildStack size stackBegin memory argv envp = .ok stack ∧
      stack.currentSp % 16 = 0 ∧ bottom ≤ stack.currentSp ∧
      load stack.memory stack.currentSp ((envp.length + argv.length + 4) * size) =
        (argv.length :: argPtrs ++ 0 :: envPtrs ++ [0, 0]).flatMap (wordBytes size) ∧
      Copies stack.memory (stack.currentSp + (envp.length + argv.length + 4) * size) argPtrs argv middle ∧
      Copies stack.memory middle envPtrs envp stackBegin := by
  obtain ⟨b, hb⟩ : ∃ b, b = stackBegin - (image argv ++ image envp).length := ⟨_, rfl⟩
  rw [← hb] at hfits
  have hle := alignSp_le size (envp.length + argv.length) b
  have hpos : 0 < (envp.length + argv.length + 4) * size := mul_pos (by omega) (by omega)
  have hbegin : b + (image argv ++ image envp).length = stackBegin := by omega
  have hwords := le_add_self.trans hfits
  have hstrings : load (stackAt size b memory argv envp).memory b _ = _ := load_stackAt hwords
  rw [length_append, load_add] at hstrings
  obtain ⟨hargv, henvp⟩ := append_inj hstrings (by simp)
  refine ⟨_, addressesFrom b argv, addressesFrom (b + (image argv).length) envp, b + (image argv).length,
    buildStack_eq hsize hbegin hwords, ?_, ?_, ?_, copies_of_load ?_ hargv, ?_⟩
  · rw [stackAt_currentSp]
    exact alignSp_mod hsize hwords
  · rw [stackAt_currentSp]
    omega
  · rw [← length_wordsAt size b]
    exact load_store _ _ _
  · rw [stackAt_currentSp]
    omega
  · rw [← hbegin, length_append, ← add_assoc]
    exact copies_of_load le_rfl henvp

theorem buildStack_spec_single : ∃ stack argPtrs envPtrs middle, buildStack 8 0x1000 (fun _ => 0) [[0x61], [0x62, 0x63]]
    [[0x64]] = .ok stack ∧ stack.currentSp % 16 = 0 ∧ 0xF00 ≤ stack.currentSp ∧ load stack.memory stack.currentSp 56 =
    (2 :: argPtrs ++ 0 :: envPtrs ++ [0, 0]).flatMap (wordBytes 8) ∧ Copies stack.memory (stack.currentSp + 56)
    argPtrs [[0x61], [0x62, 0x63]] middle ∧ Copies stack.memory middle envPtrs [[0x64]] 0x1000 :=
  buildStack_spec _ _ _ (Or.inr rfl) (by decide)

end UltraOS.TaskLoader
