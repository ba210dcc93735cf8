import Mathlib.Logic.Function.Basic
import UltraOS.Base.ErrorCode
import UltraOS.Common.RedBlackTree.Run

/-!
# The stream handles of a process

`Kernel/Multitasking/Process.cpp`: the map from ids to streams and the counter that new ids come from. A
stream that is placed at an id moves the counter to that id, not behind it, and the map ignores a second
stream with the same id.
-/

namespace UltraOS

open Function

structure StreamTable (α : Type) where
  mIoStreams : Nat → Option α := fun _ => none
  mNextIoId : Nat := 10

namespace StreamTable

variable {α : Type}

def idCount : Nat := 4294967296

def emplace (t : StreamTable α) (id : Nat) (stream : α) : StreamTable α :=
  if (t.mIoStreams id).isSome then t
  else { t with mIoStreams := update t.mIoStreams id (some stream) }

def storeIoStreamAt (t : StreamTable α) (id : Nat) (stream : α) : StreamTable α × ErrorCode :=
  if (t.mIoStreams id).isSome then (t, .invalidArgument)
  else ({ t.emplace id stream with mNextIoId := max t.mNextIoId id }, .noError)

def storeIoStream (t : StreamTable α) (stream : α) : StreamTable α × Nat :=
  ({ t.emplace t.mNextIoId stream with mNextIoId := (t.mNextIoId + 1) % idCount }, t.mNextIoId)

def ioStream (t : StreamTable α) (id : Nat) : Option α := t.mIoStreams id

def popIoStream (t : StreamTable α) (id : Nat) : StreamTable α × Option α :=
  match t.mIoStreams id with
  | none => (t, none)
  | some stream => ({ t with mIoStreams := update t.mIoStreams id none }, some stream)

/-- `m_io_streams` is a map: a tree of pairs that are compared by their ids. -/
def mapTraits (α : Type) : RedBlackTree.Traits Nat (Nat × α) := RedBlackTree.byNumber Prod.fst false

open RedBlackTree in
/-- The pairs of a tree, read as a function from ids. -/
def Lists (items : Set (Item (Nat × α))) (streams : Nat → Option α) : Prop :=
  ∀ id stream, streams id = some stream ↔ ∃ x ∈ items, x.value = (id, stream)

section

open RedBlackTree

variable {items : Set (Item (Nat × α))} {t : StreamTable α} {id : Nat} {stream : α}

lemma equivalent_iff {l r : Nat} : (mapTraits α).Equivalent l r ↔ l = r := by
  simp [Traits.Equivalent, mapTraits, byNumber]
  omega

lemma Lists.eq_none_iff (h : Lists items t.mIoStreams) : t.mIoStreams id = none ↔
    ∀ y ∈ items, ¬ (mapTraits α).Equivalent y.value.1 id := by
  rw [Option.eq_none_iff_forall_not_mem]
  refine ⟨fun hnone y hy heq => hnone y.value.2 ((h _ _).mpr ⟨y, hy, ?_⟩), fun hnone stream hsome => ?_⟩
  · rw [← equivalent_iff.mp heq]
  · obtain ⟨y, hy, heq⟩ := (h id stream).mp hsome
    exact hnone y hy (equivalent_iff.mpr (congrArg Prod.fst heq))

/-- `emplace` puts a stream under an id as the tree does. -/
lemma Lists.emplace (h : Lists items t.mIoStreams) (a : Nat) :
    Lists (abstractStep (mapTraits α) items (.emplace a (id, stream))) (t.emplace id stream).mIoStreams := by
  intro u v
  rw [StreamTable.emplace]
  split
  · rename_i hsome
    have hnot := (not_congr h.eq_none_iff).mp (Option.isSome_iff_ne_none.mp hsome)
    rw [h]
    refine exists_congr fun x => and_congr_left fun _ => ⟨.inl, fun hx => hx.resolve_right fun hx => hnot hx.2⟩
  · rename_i hnone
    have hnone := h.eq_none_iff.mp (Option.not_isSome_iff_eq_none.mp hnone)
    have hold : update t.mIoStreams id (some stream) u = some v ↔ t.mIoStreams u = some v ∨ (id, stream) = (u, v) := by
      by_cases hu : u = id
      · subst hu
        simp [h.eq_none_iff.mpr hnone]
      · simp [update_of_ne hu, Ne.symm hu]
    rw [hold, h]
    constructor
    · rintro (⟨x, hx, heq⟩ | heq)
      · exact ⟨x, .inl hx, heq⟩
      · exact ⟨⟨a, id, stream⟩, .inr ⟨rfl, hnone⟩, heq⟩
    · rintro ⟨x, hx | ⟨rfl, -⟩, heq⟩
      · exact .inl ⟨x, hx, heq⟩
      · exact .inr heq

end

inductive Call (α : Type) where
  | store (stream : α)
  | storeAt (id : Nat) (stream : α)
  | pop (id : Nat)

/-- The table, and the streams that the callers have stored and not popped, by the ids they were told. -/
structure Ledger (α : Type) where
  table : StreamTable α := {}
  held : Nat → Option α := fun _ => none

def Ledger.step (l : Ledger α) : Call α → Ledger α
  | .store stream =>
    let (table, id) := l.table.storeIoStream stream
    { table := table, held := update l.held id (some stream) }
  | .storeAt id stream =>
    match l.table.storeIoStreamAt id stream with
    | (table, .noError) => { table := table, held := update l.held id (some stream) }
    | (table, _) => { l with table := table }
  | .pop id => { table := (l.table.popIoStream id).1, held := update l.held id none }

/-- The counter does not wrap around, and the ids of the callers are of 32 bits. -/
def Ledger.Admits (l : Ledger α) : Call α → Prop
  | .store _ => l.table.mNextIoId + 1 < idCount
  | .storeAt id _ => id < idCount
  | .pop id => id < idCount

def ledgers (α : Type) : Machine (Ledger α) (Call α) Empty where
  step l call := .ok (l.step call)
  admits := Ledger.Admits

instance (l : Ledger α) : DecidablePred ((ledgers α).admits l)
  | .store _ | .storeAt _ _ | .pop _ => inferInstanceAs (Decidable (_ < idCount))

/-- Every id leads to the stream that is held under it, and the id that a `store` in this state returns is unused. -/
structure Ledger.Faithful (l : Ledger α) : Prop where
  lookup : ∀ id, l.table.ioStream id = l.held id
  unused : ∀ stream, l.table.ioStream (l.table.storeIoStream stream).2 = none

/-- A stream is placed below the counter, or where one is already. -/
def Ledger.Below (l : Ledger α) : Call α → Prop
  | .storeAt id _ => l.table.ioStream id = none → id < l.table.mNextIoId
  | _ => True

instance (l : Ledger α) (call : Call α) : Decidable (l.Below call) := by
  cases call <;> dsimp only [Ledger.Below] <;> infer_instance

structure Ledger.Bounded (l : Ledger α) : Prop where
  lookup : ∀ id, l.table.ioStream id = l.held id
  bounded : ∀ id, l.table.mNextIoId ≤ id → l.held id = none

variable {l : Ledger α}

lemma Ledger.Bounded.faithful (h : l.Bounded) : l.Faithful where
  lookup := h.lookup
  unused _ := (h.lookup _).trans (h.bounded _ le_rfl)

lemma emplace_of_none {t : StreamTable α} {id : Nat} (h : t.mIoStreams id = none) (s : α) :
    t.emplace id s = { t with mIoStreams := update t.mIoStreams id (some s) } := by
  rw [emplace, h]
  rfl

lemma update_eq_update {f g : Nat → Option α} (h : ∀ id, f id = g id) (id : Nat) (v : Option α)
    (u : Nat) : update f id v u = update g id v u := by
  rw [funext h]

lemma Ledger.Bounded.store (h : l.Bounded) (s : α) (hwrap : l.table.mNextIoId + 1 < idCount) :
    (l.step (.store s)).Bounded := by
  have hnone : l.table.mIoStreams l.table.mNextIoId = none := h.faithful.unused s
  rw [Ledger.step, storeIoStream, emplace_of_none hnone]
  refine ⟨update_eq_update h.lookup _ _, fun id hid => ?_⟩
  replace hid : (l.table.mNextIoId + 1) % idCount ≤ id := hid
  rw [Nat.mod_eq_of_lt hwrap] at hid
  refine (update_of_ne (by omega) _ _).trans (h.bounded id (by omega))

lemma step_storeAt_of_none {id : Nat} (hnone : l.table.mIoStreams id = none) (s : α) : l.step (.storeAt id s) =
    ⟨⟨update l.table.mIoStreams id (some s), max l.table.mNextIoId id⟩, update l.held id (some s)⟩ := by
  rw [Ledger.step, storeIoStreamAt, hnone, emplace_of_none hnone]
  rfl

lemma Ledger.Bounded.storeAt (h : l.Bounded) (id : Nat) (s : α)
    (hbelow : l.Below (.storeAt id s)) : (l.step (.storeAt id s)).Bounded := by
  cases hold : l.table.mIoStreams id with
  | some old => rwa [Ledger.step, storeIoStreamAt, hold]
  | none =>
    have hlt : id < l.table.mNextIoId := hbelow hold
    rw [step_storeAt_of_none hold]
    refine ⟨update_eq_update h.lookup _ _, fun u hu => ?_⟩
    replace hu : max l.table.mNextIoId id ≤ u := hu
    exact (update_of_ne (by omega) _ _).trans (h.bounded u (by omega))

lemma Ledger.Bounded.pop (h : l.Bounded) (id : Nat) : (l.step (.pop id)).Bounded := by
  have hbounded (u : Nat) (hu : l.table.mNextIoId ≤ u) :
      update l.held id none u = none := by
    by_cases heq : u = id
    · rw [heq, update_self]
    · rw [update_of_ne heq, h.bounded u hu]
  rw [Ledger.step, popIoStream]
  cases hold : l.table.mIoStreams id with
  | some old => exact ⟨update_eq_update h.lookup _ _, hbounded⟩
  | none =>
    refine ⟨fun u => ?_, hbounded⟩
    dsimp only
    by_cases heq : u = id
    · rwa [heq, update_self]
    · rw [update_of_ne heq]
      exact h.lookup u

/-- A stream that is placed at the counter or above it takes the next id. -/
lemma not_faithful_of_not_below {call : Call α} (h : ¬l.Below call) : ¬(l.step call).Faithful := by
  cases call with
  | store s | pop id => exact absurd trivial h
  | storeAt id s =>
    obtain ⟨hnone, hle⟩ := Classical.not_imp.mp h
    intro hfaithful
    have hunused := hfaithful.unused s
    rw [step_storeAt_of_none hnone] at hunused
    replace hunused : update l.table.mIoStreams id (some s) (max l.table.mNextIoId id) = none := hunused
    rw [max_eq_right (Nat.not_lt.mp hle), update_self] at hunused
    cases hunused

/-- Ids are given out and looked up as they should in every state of a run exactly if no stream is placed at
the counter or above it. -/
theorem faithful_run_iff_below (calls : List (Call α)) (hcalls : (ledgers α).Admissible {} calls) :
    (ledgers α).EveryState Ledger.Faithful {} calls ↔ (ledgers α).EveryStep Ledger.Below {} calls := by
  have hinitial : (Ledger.Bounded ({} : Ledger α)) := ⟨fun _ => rfl, fun _ _ => rfl⟩
  refine Machine.everyState_iff_everyStep (fun _ => Ledger.Bounded.faithful) (fun l call h hadm hbelow => ?_)
    (fun l call l' _ _ hnot hstep => ?_) hinitial hcalls
  · refine ⟨_, rfl, ?_⟩
    cases call with
    | store s => exact h.store s hadm
    | storeAt id s => exact h.storeAt id s hbelow
    | pop id => exact h.pop id
  · cases hstep
    exact not_faithful_of_not_below hnot

theorem faithful_run_iff_below_stdio : (ledgers Nat).EveryState Ledger.Faithful {}
    [.storeAt 0 7, .storeAt 1 7, .storeAt 2 7, .store 8, .pop 10] :=
  (faithful_run_iff_below _ (by decide)).mpr (by decide)

/-- A stream that is stored right after one was placed at 10 gets the id 10 and is lost. -/
theorem stream_lost : let t := (({} : StreamTable Nat).storeIoStreamAt 10 7).1
    (t.storeIoStream 8).2 = 10 ∧ t.ioStream 10 = some 7 ∧ ∀ id, (t.storeIoStream 8).1.ioStream id ≠ some 8 := by
  refine ⟨rfl, rfl, fun id => ?_⟩
  change update (fun _ => none) 10 (some 7) id ≠ some 8
  by_cases heq : id = 10
  · rw [heq, update_self]
    decide
  · rw [update_of_ne heq]
    decide

end StreamTable

end UltraOS
