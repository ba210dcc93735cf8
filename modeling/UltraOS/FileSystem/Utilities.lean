import Mathlib.Data.List.DropRight
import UltraOS.Common.Substring
import UltraOS.FileSystem.FAT32.Files.Model

/-!
# Paths

`next_path_node`, `IterablePath` and `split_prefix_and_path` of `FileSystem/Utilities.h`. A pointer into the string is given by what lies
between it and the end.
-/

namespace UltraOS

open List FAT32.Walk

def charAt : List UInt8 → Run UInt8
  | [] => .error .badPointer
  | c :: _ => .ok c

/-- The loops of `next_path_node`, which differ in the test of a character. -/
def advanceWhile (test : UInt8 → Bool) : (fuel : Nat) → List UInt8 → Run (List UInt8)
  | 0, _ => .error .outOfFuel
  | fuel + 1, current => do
    if current = [] then return current
    if test (← charAt current) then advanceWhile test fuel current.tail else return current

def nextPathNode (current : List UInt8) : Run (List UInt8 × List UInt8) := do
  let current ← advanceWhile (· == 0x2F) (current.length + 1) current
  return (current, ← advanceWhile (· != 0x2F) (current.length + 1) current)

structure IterablePath where
  mCurrent : List UInt8
  mCurrentEnd : List UInt8

namespace IterablePath

def next (p : IterablePath) : Run IterablePath := do
  let p := if p.mCurrentEnd = [] then { p with mCurrent := [] } else p
  if p.mCurrent = [] then return p
  let (first, last) ← nextPathNode p.mCurrentEnd
  return ⟨first, last⟩

def ofPath (path : List UInt8) : Run IterablePath := next ⟨path, path⟩

def deref (p : IterablePath) : List UInt8 := p.mCurrent.take (p.mCurrent.length - p.mCurrentEnd.length)

/-- What `*` gives until the iterator is equal to `end()`. -/
def iterate : (fuel : Nat) → IterablePath → Run (List (List UInt8))
  | 0, _ => .error .outOfFuel
  | fuel + 1, p => do
    if p.mCurrent = (← ofPath []).mCurrent then return []
    return p.deref :: (← iterate fuel (← p.next))

def visit (path : List UInt8) : Run (List (List UInt8)) := do
  iterate (path.length + 1) (← ofPath (← ofPath path).mCurrent)

variable {current cur : List UInt8} {n : Nat}

lemma advanceWhile_eq (test : UInt8 → Bool) (hn : cur.length < n) :
    advanceWhile test n cur = .ok (cur.dropWhile test) := by
  induction n generalizing cur with
  | zero => exact absurd hn (not_lt_zero)
  | succ n ih =>
    cases cur with
    | nil => rfl
    | cons c cur =>
      rw [advanceWhile, if_neg (cons_ne_nil _ _), charAt, ok_bind, tail_cons, ih (Nat.lt_of_succ_lt_succ hn),
        dropWhile_cons]
      split <;> rfl

lemma nodesOf_append_slash (xs ts : List UInt8) : nodesOf (xs ++ 0x2F :: ts) = nodesOf xs ++ nodesOf ts := by
  rw [nodesOf, splitOn_eq_splitOnP, splitOnP_append_cons (p := (· == 0x2F)) xs ts rfl, filter_append]
  rfl

lemma nodesOf_dropWhile (path : List UInt8) : nodesOf (path.dropWhile (· == 0x2F)) = nodesOf path := by
  induction path with
  | nil => rfl
  | cons c path ih =>
    rw [dropWhile_cons]
    split
    · rename_i hc
      rw [ih, beq_iff_eq.mp hc]
      exact (nodesOf_append_slash [] path).symm
    · rfl

lemma nodesOf_eq_cons {c : UInt8} {ts : List UInt8} (hc : c ≠ 0x2F) (hcur : cur = c :: ts) :
    nodesOf cur = cur.takeWhile (· != 0x2F) :: nodesOf (cur.dropWhile (· != 0x2F)) := by
  have hfree := all_eq_true.mp (all_takeWhile (p := (· != 0x2F)) (l := cur))
  have hsingle : nodesOf (cur.takeWhile (· != 0x2F)) = [cur.takeWhile (· != 0x2F)] := by
    rw [nodesOf, splitOn_eq_splitOnP, splitOnP_eq_singleton fun a ha => by simpa using hfree a ha]
    simp [hcur, hc]
  have hsplit := takeWhile_append_dropWhile (p := (· != 0x2F)) (l := cur)
  have hstop := head?_dropWhile_not (· != 0x2F) cur
  cases hrest : cur.dropWhile (· != 0x2F) with
  | nil =>
    rw [hrest, append_nil] at hsplit
    rw [hsplit] at hsingle ⊢
    exact hsingle
  | cons slash ts =>
    obtain rfl : slash = 0x2F := by simpa [hrest] using hstop
    rw [hrest] at hsplit
    rw [← hsplit, nodesOf_append_slash, hsplit, hsingle]
    exact congrArg _ (nodesOf_append_slash [] ts).symm

/-- An iterator that stands at the begin of a node, or at the end. -/
def standing (current : List UInt8) : IterablePath := ⟨current, current.dropWhile (· != 0x2F)⟩

lemma nextPathNode_eq (cur : List UInt8) : nextPathNode cur =
    .ok (cur.dropWhile (· == 0x2F), (cur.dropWhile (· == 0x2F)).dropWhile (· != 0x2F)) := by
  rw [nextPathNode, advanceWhile_eq _ (lt_add_one _), ok_bind, advanceWhile_eq _ (lt_add_one _)]
  rfl

lemma ofPath_eq (path : List UInt8) : ofPath path = .ok (standing (path.dropWhile (· == 0x2F))) := by
  cases path with
  | nil => rfl
  | cons c path => simp [ofPath, next, nextPathNode_eq, standing]

lemma next_standing (cur : List UInt8) : (standing cur).next =
    .ok (standing ((cur.dropWhile (· != 0x2F)).dropWhile (· == 0x2F))) := by
  rw [next]
  by_cases hrest : cur.dropWhile (· != 0x2F) = []
  · simp [standing, hrest]
  · have hne : cur ≠ [] := fun hnil => hrest (by rw [hnil]; rfl)
    simp [standing, hrest, hne, nextPathNode_eq]

lemma deref_standing (cur : List UInt8) : (standing cur).deref = cur.takeWhile (· != 0x2F) := by
  have hlen := congrArg length (takeWhile_append_dropWhile (p := (· != 0x2F)) (l := cur))
  rw [length_append] at hlen
  rw [deref, standing, ← hlen, Nat.add_sub_cancel]
  exact (prefix_iff_eq_take.mp <| takeWhile_prefix _).symm

lemma iterate_eq (hn : cur.length < n) : iterate n (standing (cur.dropWhile (· == 0x2F))) = .ok (nodesOf cur) := by
  induction n generalizing cur with
  | zero => exact absurd hn (not_lt_zero)
  | succ n ih =>
    rw [iterate, ofPath_eq, ok_bind, ← nodesOf_dropWhile]
    have hstop := head?_dropWhile_not (· == 0x2F) cur
    have hshort := (dropWhile_sublist (l := cur) (· == 0x2F)).length_le
    change (if cur.dropWhile (· == 0x2F) = [] then _ else _) = _
    cases hskip : cur.dropWhile (· == 0x2F) with
    | nil => rfl
    | cons c ts =>
      have hc : c ≠ 0x2F := by simpa [hskip] using hstop
      have hrest := (dropWhile_sublist (l := ts) (· != 0x2F)).length_le
      rw [hskip, length_cons] at hshort
      rw [if_neg (cons_ne_nil _ _), next_standing, ok_bind, deref_standing, ih, ok_bind, nodesOf_eq_cons hc rfl]
      · rfl
      · rw [dropWhile_cons_of_pos (p := (· != 0x2F)) (bne_iff_ne.mpr hc)]
        omega

/-- The loop starts at the first node, with more rounds than the string has characters. -/
lemma visit_begin (path : List UInt8) :
    visit path = iterate (path.length + 1) (standing (path.dropWhile (· == 0x2F))) := by
  rw [visit, ofPath_eq, ok_bind, ofPath_eq, ok_bind]
  exact congrArg (fun rest => iterate _ (standing rest)) (List.dropWhile_idempotent _ _)

/-- Whatever a string is, the iteration over it gives its nodes and ends, without a read behind its end. -/
theorem visit_eq (path : List UInt8) : visit path = .ok (nodesOf path) := by
  rw [visit_begin]
  exact iterate_eq (lt_add_one _)

/-- The iteration over a path that joins two others gives the nodes of the one and then those of the other. -/
theorem visit_append_slash (xs ts : List UInt8) : ∃ first second,
    visit xs = .ok first ∧ visit ts = .ok second ∧ visit (xs ++ 0x2F :: ts) = .ok (first ++ second) := by
  refine ⟨nodesOf xs, nodesOf ts, ?_⟩
  rw [← nodesOf_append_slash, visit_begin, visit_begin, visit_begin]
  exact ⟨iterate_eq (lt_add_one _), iterate_eq (lt_add_one _), iterate_eq (lt_add_one _)⟩

end IterablePath

/-! ### Prefixes of paths -/

/-- `is_valid_path`: a path begins with a slash and has no three dots in a row. -/
def isValidPath (path : List UInt8) : Bool :=
  path.head? == some 0x2F && (range path.length).all fun i =>
    let validDecoy := 0x61
    let lhs := if i = 0 then validDecoy else path.getD (i - 1) validDecoy
    let rhs := path.getD (i + 1) validDecoy
    !(path.getD i validDecoy == 0x2E && (lhs == 0x2E && rhs == 0x2E))

def isValidPrefix (name : List UInt8) : Bool :=
  name.all fun c => 0x61 ≤ c && c ≤ 0x7A || 0x41 ≤ c && c ≤ 0x5A || 0x30 ≤ c && c ≤ 0x39

/-- `split_prefix_and_path`: what stands in front of the first `::` names a file system. -/
def splitPrefixAndPath (path : List UInt8) : Run (Option (List UInt8 × List UInt8)) := do
  let name ← Substring.find path [0x3A, 0x3A]
  let prefixToPath := name.elim ([], path) fun i => (path.take i, path.drop (i + 2))
  if isValidPrefix prefixToPath.1 && isValidPath prefixToPath.2 then return some prefixToPath else return none

lemma exists_splitPrefixAndPath (path : List UInt8) : ∃ split, splitPrefixAndPath path = .ok split := by
  obtain ⟨name, hfind, -⟩ := Substring.search_spec path [0x3A, 0x3A] [] []
  rw [append_nil, append_nil] at hfind
  simp only [splitPrefixAndPath, Substring.find, hfind, ok_bind]
  split <;> exact ⟨_, rfl⟩

end UltraOS
