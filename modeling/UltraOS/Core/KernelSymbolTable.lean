import UltraOS.Common.LowerBound
import UltraOS.Memory.Range

/-!
# Kernel symbols

`KernelSymbolTable` of `Kernel/Core/Runtime.cpp`. A symbol is its address, and a pointer to it is its index.
-/

namespace UltraOS.KernelSymbolTable

variable (symbols : List Nat) (address a : Nat)

def isAddressWithinSymbolTable : Bool :=
  symbols.headD 0 < address && address < (symbols.getLastD 0 + 500) % addressSpace

def findSymbol : Run (Option Nat) := do
  if symbols.length = 0 then return none
  if !isAddressWithinSymbolTable symbols address then return none
  let symbol ← lowerBound (fun key symbol => decide (key < symbol)) (fun symbol key => decide (symbol < key))
    symbols address
  if symbol = symbols.length ∨ symbols[symbol]? ≠ some address then
    if symbol = 0 then .error .badPointer else return some (symbol - 1)
  else return some symbol

/-- The symbol is there, and none that is not above the address is greater. -/
def Finds : Prop :=
  ∃ index symbol, findSymbol symbols address = .ok (some index) ∧ symbols[index]? = some symbol ∧ symbol ≤ address ∧
    ∀ other ∈ symbols, other ≤ address → other ≤ symbol

variable {symbols address a}

lemma finds {first last : Nat} (hsort : symbols.Pairwise (· ≤ ·)) (hhead : symbols.head? = some first)
    (hlast : symbols.getLast? = some last) (hfirst : first < a) (hbelow : a < (last + 500) % addressSpace) :
    Finds symbols a := by
  obtain ⟨i, hi, hle, hbounds⟩ : ∃ i, lowerBound (fun key s => decide (key < s))
      (fun s key => decide (s < key)) symbols a = .ok i ∧ _ :=
    lowerBound_spec (splits_of_pairwise (hsort.imp fun hle => by simp only [decide_eq_true_eq]; omega))
  have hwithin : isAddressWithinSymbolTable symbols a = true := by
    simp [isAddressWithinSymbolTable, List.headD_eq_head?_getD, List.getLastD_eq_getLast?, hhead, hlast, hfirst, hbelow]
  have hzero : symbols[0]? = some first := by rw [← hhead, List.head?_eq_getElem?]
  have hlen := (List.getElem?_eq_some_iff.mp hzero).1
  rw [Finds, findSymbol, if_neg (by omega), hwithin, hi]
  simp only [Bool.not_true, Bool.false_eq_true, if_false, ok_bind]
  rcases hbounds with ⟨x, hget, hge, hle⟩ | ⟨hless, hgreater⟩
  · obtain rfl : x = a := by simp only [decide_eq_false_iff_not] at hge hle; omega
    have hlt := (List.getElem?_eq_some_iff.mp hget).1
    rw [if_neg fun h => h.elim (by omega) (· hget)]
    exact ⟨i, x, rfl, hget, le_rfl, fun _ _ hu => hu⟩
  · simp only [decide_eq_true_eq] at hless hgreater
    have hpos : i ≠ 0 := fun h => by
      have habove := hgreater 0 first (by omega) hzero
      omega
    have hlt : i - 1 < symbols.length := by omega
    have hget := List.getElem?_eq_getElem hlt
    have hbef := hless (i - 1) _ (by omega) hget
    rw [if_pos, if_neg hpos]
    · refine ⟨i - 1, _, rfl, hget, hbef.le, fun u hu hle => ?_⟩
      obtain ⟨k, hk, rfl⟩ := List.mem_iff_getElem.mp hu
      have hfront : k < i := not_le.mp fun hge => by
        have habove := hgreater k _ hge (List.getElem?_eq_getElem hk)
        omega
      rcases lt_or_eq_of_le (Nat.le_sub_one_of_lt hfront) with hfront | rfl
      · exact List.pairwise_iff_getElem.mp hsort k (i - 1) hk hlt hfront
      · exact le_rfl
    · rcases lt_or_eq_of_le hle with hlt | heq
      · exact .inr fun hget => lt_irrefl _ (hgreater i a le_rfl hget)
      · exact .inl heq

/-- The lookup of a symbol, as long as the sum of the last symbol does not wrap around, and the search it rests on. -/
theorem finds_of_sum_lt : (∀ (symbols : List Nat) (address first last : Nat), symbols.Pairwise (· ≤ ·) →
    symbols.head? = some first → symbols.getLast? = some last → first < address → address < last + 500 →
    last + 500 < addressSpace → Finds symbols address) ∧ ∀ (α : Type) (less : α → α → Bool) (array : List α) (key : α),
    StrictWeakOrder less → (array.Pairwise fun x y => less y x = false) → ∃ i, lowerBound less less array key = .ok i ∧
    i ≤ array.length ∧ Bounds less less array key i := by
  refine ⟨fun symbols address first last hsort hhead hlast hfirst hbelow hsum => ?_,
    fun α less array key hless hsort => lowerBound_spec (hless.splits key hsort)⟩
  exact finds hsort hhead hlast hfirst (by rwa [Nat.mod_eq_of_lt hsum])

theorem finds_of_sum_lt_sample : Finds [0x1000, 0x2000] 0x1800 :=
  finds_of_sum_lt.1 _ _ _ _ (by simp) rfl rfl (by decide) (by decide) (by decide)

theorem not_finds_of_wrap : [0x1000, 0xffffffffffffffff].Pairwise (· ≤ ·) ∧
    0x1000 < 0x2000 ∧ 0x2000 < 0xffffffffffffffff + 500 ∧ ¬Finds [0x1000, 0xffffffffffffffff] 0x2000 := by
  refine ⟨by simp, by decide, by decide, ?_⟩
  rintro ⟨i, s, hfind, -⟩
  cases hfind

end UltraOS.KernelSymbolTable
