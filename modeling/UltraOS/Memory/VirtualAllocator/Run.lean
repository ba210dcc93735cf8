import UltraOS.Library.Machine
import UltraOS.Memory.VirtualAllocator.Calls

/-!
# Whole runs of the virtual allocator

Along a run of calls the allocator is the set of addresses that were allocated and not given back,
exactly as long as no accepted request encloses an allocated range and no empty range strictly
inside an allocated one is given back.
-/

namespace UltraOS.VirtualAllocator

inductive Call where
  | allocate (length alignment : Nat)
  | allocateRange (range : Range)
  | deallocate (range : Range)

def Call.WellFormed : Call → Prop
  | .allocate _ _ => True
  | .allocateRange range => range.mBegin ≤ range.mEnd ∧ range.mEnd < addressSpace
  | .deallocate range => range.mBegin ≤ range.mEnd ∧ range.mEnd < addressSpace

def step (s : VirtualAllocator) : Call → Run VirtualAllocator
  | .allocate length alignment => do return (← s.allocate length alignment).1
  | .allocateRange range => do return (← s.allocateRange range).1
  | .deallocate range => s.deallocate range

def machine : Machine VirtualAllocator Call Fault where
  step := step
  admits := fun _ c => c.WellFormed

instance (s : VirtualAllocator) (c : Call) : Decidable (machine.admits s c) := by
  cases c <;> dsimp only [machine, Call.WellFormed] <;> infer_instance

/-- The call returned addresses that were not allocated, and they are allocated now. -/
structure Adds (s s' : VirtualAllocator) (r : Range) : Prop where
  fresh : ∀ a, r.contains a = true → s.isAllocated a = .ok false
  added : ∀ a, s'.isAllocated a = .ok true ↔ s.isAllocated a = .ok true ∨ r.contains a = true

def Meets (s : VirtualAllocator) : Call → Prop
  | .allocate length alignment => ∀ s' r, s.allocate length alignment = .ok (s', r) → Kept s' ∧ Adds s s' r
  | .allocateRange range =>
    (∀ s' r, s.allocateRange range = .ok (s', r) → Kept s' ∧ r = pagesOf range ∧ Adds s s' r) ∧
    ((∃ a, (pagesOf range).contains a = true ∧ s.isAllocated a = .ok true) →
      ∀ result, s.allocateRange range ≠ .ok result)
  | .deallocate range =>
    ∀ s', s.deallocate range = .ok s' → Kept s' ∧
      ∀ a, s'.isAllocated a = .ok true ↔ s.isAllocated a = .ok true ∧ range.contains a = false

def Regular (s : VirtualAllocator) : Call → Prop
  | .allocate _ _ => True
  | .allocateRange range => ¬ Encloses s range
  | .deallocate range => ¬ Cuts s range

instance (s : VirtualAllocator) (c : Call) : Decidable (Regular s c) := by
  cases c <;> dsimp only [Regular] <;> infer_instance

variable {s s' : VirtualAllocator}

lemma isAllocated_true (h : Kept s) (a : Nat) : s.isAllocated a = .ok true ↔ Covered s.mAllocatedRanges a := by
  rw [isAllocated_eq s h.tidy]
  simp

lemma isAllocated_false (h : Kept s) (a : Nat) : s.isAllocated a = .ok false ↔ ¬ Covered s.mAllocatedRanges a := by
  rw [isAllocated_eq s h.tidy]
  simp

lemma Taken.adds {r : Range} (h : Kept s) (htaken : Taken s s' r) : Adds s s' r := by
  refine ⟨fun a ha => (isAllocated_false h a).mpr (htaken.fresh a ha), fun a => ?_⟩
  rw [isAllocated_true htaken.kept, isAllocated_true h, htaken.covers]

lemma not_meets_of_encloses {rg : Range} (h : Kept s) (hrange : (Call.allocateRange rg).WellFormed)
    (hencloses : Encloses s rg) : ¬ Meets s (.allocateRange rg) := by
  intro hmeets
  obtain ⟨s', hrun⟩ := allocateRange_of_encloses h hrange.1 hrange.2 hencloses
  obtain ⟨-, -, -, r, hr, hbegin, hend⟩ := hencloses
  have hprop := h.tidy.proper r hr
  refine hmeets.2 ⟨r.mBegin, ?_, (isAllocated_true h _).mpr ⟨r, hr, ?_⟩⟩ _ hrun
  · simp only [Range.contains_iff]
    omega
  · simp only [Range.contains_iff]
    omega

variable {c : Call}

lemma meets_iff_regular (h : Kept s) (hc : c.WellFormed) : Meets s c ↔ Regular s c := by
  cases c with
  | allocate length al =>
    refine ⟨fun _ => trivial, fun _ s' r hrun => ?_⟩
    have htaken := allocate_spec h hrun
    exact ⟨htaken.kept, htaken.adds h⟩
  | allocateRange rg =>
    refine ⟨fun hmeets hencloses => not_meets_of_encloses h hc hencloses hmeets, fun hregu => ?_⟩
    refine ⟨fun s' r hrun => ?_, fun ⟨a, hin, halloc⟩ ⟨s', r⟩ hrun => ?_⟩
    · obtain ⟨hpages, htaken⟩ := allocateRange_spec h hc.1 hc.2 hregu hrun
      exact ⟨htaken.kept, hpages, htaken.adds h⟩
    · obtain ⟨rfl, htaken⟩ := allocateRange_spec h hc.1 hc.2 hregu hrun
      exact htaken.fresh a hin ((isAllocated_true h a).mp halloc)
  | deallocate rg =>
    refine ⟨fun hmeets hcuts => ?_, fun hregu s' hrun => ?_⟩
    · obtain ⟨s', hrun, hnot⟩ := not_kept_of_cuts h hc.2 hcuts
      exact hnot (hmeets s' hrun).1
    · have hrel := deallocate_spec h hc.1 hregu hrun
      refine ⟨hrel.kept, fun a => ?_⟩
      rw [isAllocated_true hrel.kept, isAllocated_true h, hrel.covers]

lemma kept_of_step (h : Kept s) (hc : c.WellFormed) (hregu : Regular s c) (hstep : step s c = .ok s') : Kept s' := by
  cases c with
  | allocate length al =>
    obtain ⟨⟨_, r⟩, hrun, heq⟩ := of_bind hstep
    cases heq
    exact (allocate_spec h hrun).kept
  | allocateRange rg =>
    obtain ⟨⟨_, r⟩, hrun, heq⟩ := of_bind hstep
    cases heq
    exact (allocateRange_spec h hc.1 hc.2 hregu hrun).2.kept
  | deallocate rg => exact (deallocate_spec h hc.1 hregu hstep).kept

/-- An allocator on whole pages, before the first call. -/
theorem meets_run_iff_regular_run {base : Range} (hbegin : base.mBegin % pageSize = 0) (hend : base.mEnd % pageSize = 0)
    (hbound : base.mEnd < addressSpace) (calls : List Call) (hcalls : machine.Admissible ⟨base, []⟩ calls) :
    machine.EveryStep Meets ⟨base, []⟩ calls ↔ machine.EveryStep Regular ⟨base, []⟩ calls :=
  Machine.everyStep_iff_everyStep (fun _ _ h hc => meets_iff_regular h hc)
    (fun _ _ _ h hc hregu hstep => kept_of_step h hc hregu hstep)
    ⟨⟨hbegin, hend⟩, hbound, ⟨by simp, .nil, by simp⟩⟩ hcalls

theorem meets_run_iff_regular_run_merging : machine.EveryStep Meets ⟨⟨0x1000, 0x100000⟩, []⟩
      [.allocate 0x2800 0x1000, .allocateRange ⟨0x4010, 0x5000⟩, .deallocate ⟨0x2000, 0x3000⟩] :=
  (meets_run_iff_regular_run (by decide) (by decide) (by decide) _ (by decide)).mpr (by decide)

/-- The second request encloses the first one and is granted. An empty range in the middle of an allocated
one cuts it in two that touch. -/
theorem meets_fails_on_enclosing_request : ¬ machine.EveryStep Meets ⟨⟨0, 0x100000⟩, []⟩
      [.allocateRange ⟨0x2000, 0x3000⟩, .allocateRange ⟨0x1000, 0x5000⟩] ∧ ¬ machine.EveryStep Meets ⟨⟨0, 0x100000⟩, []⟩
      [.allocateRange ⟨0x1000, 0x5000⟩, .deallocate ⟨0x2000, 0x2000⟩] := by
  constructor
  · have hfirst : machine.step ⟨⟨0, 0x100000⟩, []⟩ (.allocateRange ⟨0x2000, 0x3000⟩) =
        .ok ⟨⟨0, 0x100000⟩, [⟨0x2000, 0x3000⟩]⟩ := by decide
    have hsec : allocateRange ⟨⟨0, 0x100000⟩, [⟨0x2000, 0x3000⟩]⟩ ⟨0x1000, 0x5000⟩ =
        .ok (⟨⟨0, 0x100000⟩, [⟨0x1000, 0x5000⟩, ⟨0x2000, 0x3000⟩]⟩, ⟨0x1000, 0x5000⟩) := by decide
    rw [Machine.everyStep_cons hfirst]
    intro hmeets
    exact hmeets.2.1.2 ⟨0x2000, by decide, by decide⟩ _ hsec
  · have hfirst : machine.step ⟨⟨0, 0x100000⟩, []⟩ (.allocateRange ⟨0x1000, 0x5000⟩) =
        .ok ⟨⟨0, 0x100000⟩, [⟨0x1000, 0x5000⟩]⟩ := by decide
    have hsec : deallocate ⟨⟨0, 0x100000⟩, [⟨0x1000, 0x5000⟩]⟩ ⟨0x2000, 0x2000⟩ =
        .ok ⟨⟨0, 0x100000⟩, [⟨0x1000, 0x2000⟩, ⟨0x2000, 0x5000⟩]⟩ := by decide
    rw [Machine.everyStep_cons hfirst]
    intro hmeets
    have htidy := (hmeets.2.1 _ hsec).1.tidy.apart
    revert htidy
    decide

end UltraOS.VirtualAllocator
