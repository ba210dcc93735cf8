import UltraOS.Memory.SafeOperations

/-!
# Accesses that stay in user space

When the accesses of the copy routines stay inside user space, in terms of the pointer and of what can be
accessed behind it.
-/

namespace UltraOS

variable {n : Nat}

namespace UserMemory

/-- Every byte that has been touched is one of user space, and a fault would have been caught. -/
def Confined (m : UserMemory) : Prop := ∀ access ∈ m.accesses, InUserSpace access.address ∧ access.isSafe = true

/-- A copy behind the pointer meets a byte that cannot be accessed before it leaves user space. -/
def StaysInside (m : UserMemory) (pointer bytes : Nat) : Prop :=
  ∀ i < bytes, (∀ j < i, m.isAccessible ((pointer + j) % addressSpace) = true) →
    InUserSpace ((pointer + i) % addressSpace)

def AllAccessible (m : UserMemory) (pointer bytes : Nat) : Prop :=
  ∀ i < bytes, m.isAccessible ((pointer + i) % addressSpace) = true

/-- The same for a string, which ends at its first zero. -/
def StringStaysInside (m : UserMemory) (pointer maxLength : Nat) : Prop :=
  ∀ i < maxLength, (∀ j < i, m.isAccessible ((pointer + j) % addressSpace) = true ∧
      m.data ((pointer + j) % addressSpace) ≠ 0) →
    InUserSpace ((pointer + i) % addressSpace)

instance (m : UserMemory) : Decidable m.Confined :=
  inferInstanceAs (Decidable (∀ access ∈ m.accesses, _))

variable {m : UserMemory} {p bs i : Nat}

lemma confined_touch : (m.touch true p n).Confined ↔ m.Confined ∧ ∀ i < n, InUserSpace ((p + i) % addressSpace) := by
  simp only [Confined, touch, List.mem_append, List.mem_map, List.mem_range]
  constructor
  · intro h
    refine ⟨fun access haccess => h access (.inl haccess), fun i hi => ?_⟩
    exact (h _ (.inr ⟨i, hi, rfl⟩)).1
  · intro h access haccess
    rcases haccess with haccess | ⟨i, hi, rfl⟩
    · exact h.1 access haccess
    · exact ⟨h.2 i hi, rfl⟩

lemma le_copyCount_behind_iff : i ≤ (m.behind p).copyCount 0 bs ↔
    i ≤ bs ∧ ∀ j < i, m.isAccessible ((p + j) % addressSpace) = true := by
  rw [UserBuffer.le_copyCount_iff]
  simp only [zero_add]
  exact Iff.rfl

lemma lt_attempts_iff : i < m.attempts p bs ↔ i < bs ∧ ∀ j < i, m.isAccessible ((p + j) % addressSpace) = true := by
  rw [attempts, Nat.lt_min, Nat.lt_succ_iff, le_copyCount_behind_iff]
  exact ⟨fun h => ⟨h.1, h.2.2⟩, fun h => ⟨h.1, h.1.le, h.2⟩⟩

lemma confined_touch_attempts : (m.touch true p (m.attempts p bs)).Confined ↔ m.Confined ∧ m.StaysInside p bs := by
  simp [confined_touch, lt_attempts_iff, StaysInside]

lemma AllAccessible.copyCount (h : m.AllAccessible p bs) : (m.behind p).copyCount 0 bs = bs :=
  le_antisymm (UserBuffer.copyCount_le _ _ _) (le_copyCount_behind_iff.mpr ⟨le_refl bs, h⟩)

lemma AllAccessible.attempts (h : m.AllAccessible p bs) : m.attempts p bs = bs := by
  rw [UserMemory.attempts, h.copyCount]
  omega

lemma copyCount_lt (h : ¬m.AllAccessible p bs) : (m.behind p).copyCount 0 bs < bs :=
  not_le.mp fun hle => h (le_copyCount_behind_iff.mp hle).2

lemma stringStaysInside_succ {maxLength : Nat} : m.StringStaysInside p (maxLength + 1) ↔
    InUserSpace (p % addressSpace) ∧ (m.isAccessible (p % addressSpace) = true → m.data (p % addressSpace) ≠ 0 →
        m.StringStaysInside (p + 1) maxLength) := by
  constructor
  · intro h
    refine ⟨h 0 (Nat.zero_lt_succ maxLength) fun j hj => absurd hj (Nat.not_lt_zero j), ?_⟩
    intro hacc hne i hi hbef
    rw [add_assoc, add_comm 1 i]
    refine h (i + 1) (Nat.succ_lt_succ hi) fun j hj => ?_
    cases j with
    | zero => exact ⟨hacc, hne⟩
    | succ j =>
      rw [add_comm j 1, ← add_assoc]
      exact hbef j (Nat.lt_of_succ_lt_succ hj)
  · intro h i hi hbef
    cases i with
    | zero => exact h.1
    | succ i =>
      obtain ⟨hacc, hne⟩ := hbef 0 (Nat.zero_lt_succ i)
      rw [add_comm i 1, ← add_assoc]
      refine h.2 hacc hne i (Nat.lt_of_succ_lt_succ hi) fun j hj => ?_
      rw [add_assoc, add_comm 1 j]
      exact hbef (j + 1) (Nat.succ_lt_succ hj)

end UserMemory

open UserMemory

variable {α β : Type} {m : UserMemory} {p : Nat}

lemma safeCopyFrom_of_accessible {bs : Nat} (h : m.AllAccessible p bs) :
    safeCopyFrom p bs m = .ok (some (m.block p bs)) (m.touch true p bs) := by
  rw [safeCopyFrom, h.copyCount, if_neg (lt_irrefl _), h.attempts]

lemma safeCopyFrom_of_fault {bs : Nat} (h : ¬m.AllAccessible p bs) :
    safeCopyFrom p bs m = .ok none (m.touch true p (m.attempts p bs)) := by
  rw [safeCopyFrom, if_pos (copyCount_lt h)]

lemma confined_safeCopyTo (destination : Nat) (bs : List UInt8) :
    (finalMemory (safeCopyTo destination bs m)).Confined ↔ m.Confined ∧ m.StaysInside destination bs.length :=
  confined_touch_attempts

lemma confined_copyUntilNullOrNFromUser (source maxLength : Nat) (copied : List UInt8)
    (m : UserMemory) : (finalMemory (copyUntilNullOrNFromUser source maxLength copied m)).Confined ↔
    m.Confined ∧ m.StringStaysInside (source + copied.length) maxLength := by
  induction maxLength generalizing copied m with
  | zero => exact ⟨fun h => ⟨h, fun i hi => absurd hi (Nat.not_lt_zero i)⟩, And.left⟩
  | succ maxLength ih =>
    have hone : (m.touch true (source + copied.length) 1).Confined ↔
        m.Confined ∧ InUserSpace ((source + copied.length) % addressSpace) := by
      rw [confined_touch]
      refine and_congr_right fun _ => ⟨fun h => h 0 Nat.one_pos, fun h i hi => ?_⟩
      obtain rfl := Nat.lt_one_iff.mp hi
      exact h
    rw [copyUntilNullOrNFromUser, stringStaysInside_succ, ← and_assoc, ← hone]
    dsimp only
    split
    · rename_i hacc
      split
      · rename_i hzero
        exact ⟨fun h => ⟨h, fun _ hne => absurd hzero hne⟩, And.left⟩
      · rename_i hne
        rw [ih, List.length_append, List.length_singleton, ← add_assoc]
        exact and_congr_right fun _ => ⟨fun h _ _ => h, fun h => h hacc hne⟩
    · rename_i hfault
      exact ⟨fun h => ⟨h, fun hacc => absurd hacc hfault⟩, And.left⟩

def Grows (x : Reach α) : Prop := ∀ m access, access ∈ m.accesses → access ∈ (finalMemory (x m)).accesses

lemma grows_throw (fault : Fault) : Grows (throw fault : Reach α) := fun _ _ h => h

variable {x : Reach α} {f : α → Reach β} {access : Access}

lemma mem_bind (h : access ∈ (finalMemory (x m)).accesses) (hf : ∀ a, Grows (f a)) :
    access ∈ (finalMemory ((x >>= f) m)).accesses := by
  cases heq : x m with
  | ok a m' =>
    rw [heq] at h
    rw [bind_of_ok heq]
    exact hf a m' access h
  | error fault m' =>
    rw [heq] at h
    rwa [bind_of_error heq]

lemma Grows.bind (hx : Grows x) (hf : ∀ a, Grows (f a)) : Grows (x >>= f) :=
  fun m access h => mem_bind (hx m access h) hf

lemma mem_touch {isSafe : Bool} (h : access ∈ m.accesses) : access ∈ (m.touch isSafe p n).accesses :=
  List.mem_append_left _ h

lemma grows_lengthLoop (p fuel length : Nat) : Grows (lengthLoop p fuel length) := by
  induction fuel generalizing length with
  | zero => exact grows_throw .outOfFuel
  | succ fuel ih =>
    intro m access h
    rw [lengthLoop]
    dsimp only
    split
    · split
      · exact mem_touch h
      · exact ih (length + 1) _ access (mem_touch h)
    · exact mem_touch h

/-- `length_of` looks at the first byte, and nothing catches a fault. -/
lemma mem_lengthOf (hne : p ≠ 0) (m : UserMemory) :
    ⟨p % addressSpace, false⟩ ∈ (finalMemory (lengthOf p m)).accesses := by
  have hfirst : ⟨p % addressSpace, false⟩ ∈ (m.touch false p 1).accesses :=
    List.mem_append_right _ (List.mem_singleton.mpr rfl)
  have hn : addressSpace = 0xFFFFFFFFFFFFFFFF + 1 := rfl
  rw [lengthOf, if_neg hne, hn, lengthLoop]
  dsimp only
  split
  · split
    · exact hfirst
    · exact grows_lengthLoop p _ _ _ _ hfirst
  · exact hfirst

end UltraOS
