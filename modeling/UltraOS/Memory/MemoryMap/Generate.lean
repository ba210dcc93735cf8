import UltraOS.Memory.MemoryMap.Correct

/-!
# Generating the memory map

`generateFrom` makes the normal form of an E820 list exactly when every entry of the sorted list begins at an
address from which on the entries before it have left one type only (`Orderly`). Otherwise an entry ends up behind
a range that begins after it.
-/

namespace UltraOS.MemoryMap

open PhysicalRange List Range

/-- Where an entry begins, and from there on, the entries before it have left one type without a
gap. -/
def Orderly (entries : List PhysicalRange) : Prop :=
  ∀ done next rest, entries = done ++ next :: rest → Segments.UniformFrom (typeAt done) next.mBegin

variable {x : PhysicalRange} {xs input : List PhysicalRange} {e820 : List E820Entry} {e : E820Entry} {a : Nat}

lemma describes_singleton (hx : x.Whole) : Describes [x] [x] :=
  ⟨Segments.normal_singleton.mpr hx.proper, by simpa using hx, by simpa using hx, fun a => (typeAt_singleton hx a).symm⟩

lemma Describes.uniformFrom_iff (h : Describes (xs ++ [x]) input) (start : Nat) :
    Segments.UniformFrom (typeAt input) start ↔ x.mBegin ≤ start := by
  rw [← Segments.uniformFrom_iff h.normal start]
  exact iff_of_eq (congrArg (Segments.UniformFrom · start) (funext fun a => (h.types a).symm))

/-- The walk over orderly entries returns the normal form of all of them. -/
lemma describes_of_orderly (todo : List PhysicalRange) (h : Describes (xs ++ [x]) input) (htodo : ∀ r ∈ todo, r.Whole)
    (horderly : ∀ done next ts, todo = done ++ next :: ts → Segments.UniformFrom (typeAt (input ++ done)) next.mBegin) :
    ∃ n out, correctFrom n xs.length (xs ++ x :: todo) = .ok out ∧ Describes out (input ++ todo) := by
  induction todo generalizing xs x input with
  | nil => exact ⟨1, xs ++ [x], by simp [correctFrom], by simpa using h⟩
  | cons y todo ih =>
    have hle : x.mBegin ≤ y.mBegin := (h.uniformFrom_iff _).mp (by simpa using horderly [] y todo rfl)
    obtain ⟨front', x', ⟨steps, hsteps⟩, h'⟩ := absorb h (htodo y (by simp)) hle todo
    obtain ⟨n, out, hout, hdescribes⟩ := ih h' (fun r hr => htodo r (by simp [hr]))
      fun done next ts heq => by simpa using horderly (y :: done) next ts (by rw [heq]; rfl)
    exact ⟨n + steps, out, by rw [hsteps, hout], by simpa using hdescribes⟩

lemma orderly_of_ascending (todo : List PhysicalRange) {out : List PhysicalRange} {n : Nat}
    (h : Describes (xs ++ [x]) input) (htodo : ∀ r ∈ todo, r.Whole)
    (hrun : correctFrom n xs.length (xs ++ x :: todo) = .ok out) (hout : out.Pairwise fun l r => l.mBegin < r.mBegin)
    (done : List PhysicalRange) (next : PhysicalRange) (ts : List PhysicalRange) (heq : todo = done ++ next :: ts) :
    Segments.UniformFrom (typeAt (input ++ done)) next.mBegin := by
  induction todo generalizing xs x input n done with
  | nil => simp at heq
  | cons y todo ih =>
    by_cases hle : x.mBegin ≤ y.mBegin
    · cases done with
      | nil =>
        obtain ⟨rfl, rfl⟩ : y = next ∧ todo = ts := by simpa using heq
        rw [append_nil]
        exact (h.uniformFrom_iff _).mpr hle
      | cons y' done =>
        obtain ⟨rfl, rfl⟩ : y = y' ∧ todo = done ++ next :: ts := by simpa using heq
        obtain ⟨front', x', ⟨steps, hsteps⟩, h'⟩ := absorb h (htodo y (by simp)) hle (done ++ next :: ts)
        have hrun' : correctFrom n front'.length (front' ++ x' :: (done ++ next :: ts)) = .ok out := by
          rw [← hsteps, correctFrom_add (by rw [hrun]; simp), hrun]
        have hih := ih h' (fun r hr => htodo r (by simp [hr])) hrun' done rfl
        simpa using hih
    · have hwhole : ∀ r ∈ xs ++ x :: y :: todo, r.Whole := by
        have hbef := h.whole
        simp only [forall_mem_append, forall_mem_cons] at hbef htodo ⊢
        exact ⟨hbef.1, hbef.2.1, htodo.1, htodo.2⟩
      obtain ⟨y', back', rfl, hlt⟩ := inverted_of_lt hwhole (by omega) hrun
      have hpair := (pairwise_cons.mp (pairwise_append.mp hout).2.1).1 y' (by simp)
      omega

lemma exists_sortByAddress (es : List PhysicalRange) : ∃ res, sortByAddress es = .ok res ∧ res.Perm es := by
  have horder : StrictWeakOrder fun l r : PhysicalRange => decide (l.mBegin < r.mBegin) :=
    ⟨by simp, by simp; omega, by simp; omega⟩
  obtain ⟨res, hrun, hsorts⟩ := insertionSort_spec horder es
  exact ⟨res, hrun, hsorts.perm⟩

def sortedEntries (e820 : List E820Entry) : List PhysicalRange := (sortByAddress (e820.flatMap copied)).toOption.getD []

lemma generateFrom_eq (h : ∀ e ∈ e820, e.WellFormed) (n : Nat) :
    generateFrom n e820 = correctOverlappingRanges n 0 (sortedEntries e820) := by
  obtain ⟨res, hrun, -⟩ := exists_sortByAddress (e820.flatMap copied)
  rw [generateFrom, copyAlignedFrom_eq_ok h, ok_bind, sortedEntries, hrun, ok_bind]
  rfl

lemma mem_sortedEntries {r : PhysicalRange} : r ∈ sortedEntries e820 ↔ ∃ e ∈ e820, r ∈ copied e := by
  obtain ⟨res, hrun, hperm⟩ := exists_sortByAddress (e820.flatMap copied)
  rw [sortedEntries, hrun, ← mem_flatMap, ← hperm.mem_iff]
  rfl

lemma whole_of_mem_sortedEntries (h : ∀ e ∈ e820, e.WellFormed) : ∀ r ∈ sortedEntries e820, r.Whole := by
  intro r hr
  obtain ⟨e, he, hr⟩ := mem_sortedEntries.mp hr
  exact (mem_kept (h e he).bounded (h e he).typed hr).1

lemma generateFrom_unique (n fuel' : Nat) (h : generateFrom n e820 ≠ .error .outOfFuel)
    (h' : generateFrom fuel' e820 ≠ .error .outOfFuel) : generateFrom n e820 = generateFrom fuel' e820 := by
  have hadd : ∀ n more, generateFrom n e820 ≠ .error .outOfFuel →
      generateFrom (n + more) e820 = generateFrom n e820 := by
    intro n more h
    simp only [generateFrom, correctOverlappingRanges] at h ⊢
    cases hcopy : copyAlignedFrom e820 with
    | error e => rfl
    | ok es =>
      obtain ⟨res, hsort, -⟩ := exists_sortByAddress es
      simp only [hcopy, hsort, ok_bind] at h ⊢
      cases has : assert (decide (res.length ≠ 0)) "m_entry_count != 0" with
      | error e => rfl
      | ok u =>
        rw [has] at h
        exact correctFrom_add h more
  rw [← hadd n fuel' h, add_comm, hadd fuel' n h']

/-- The walk over the sorted entries returns their normal form if they are orderly, and nothing
that ascends if they are not. -/
lemma generateFrom_describes (h : ∀ e ∈ e820, e.WellFormed)
    (hne : sortedEntries e820 ≠ []) (horderly : Orderly (sortedEntries e820)) :
    ∃ n out, generateFrom n e820 = .ok out ∧ Describes out (sortedEntries e820) := by
  have hwhole := whole_of_mem_sortedEntries h
  simp only [generateFrom_eq h, correctOverlappingRanges]
  obtain ⟨x, todo, heq⟩ := exists_cons_of_ne_nil hne
  rw [heq] at horderly hwhole ⊢
  obtain ⟨n, out, hrun, hdescribes⟩ := @describes_of_orderly _ [] _ todo
    (describes_singleton (hwhole x (by simp))) (fun r hr => hwhole r (by simp [hr]))
    fun done next ts hrest => horderly (x :: done) next ts (by rw [hrest]; rfl)
  exact ⟨n, out, hrun, hdescribes⟩

/-- What the kernel expects of the form of its memory map. -/
structure NormalForm (entries : List PhysicalRange) : Prop where
  ascending : entries.Pairwise fun l r => l.mBegin < r.mBegin
  disjoint : entries.Pairwise fun l r => ∀ a, ¬ (l.contains a ∧ r.contains a)
  maximal : entries.IsChain fun l r => l.mEnd = r.mBegin → l.type ≠ r.type
  paged : ∀ r ∈ entries, r.type = free → r.mBegin % pageSize = 0 ∧ 0 < r.length ∧ r.length % pageSize = 0

lemma Describes.normalForm {es : List PhysicalRange} (h : Describes es input) : NormalForm es := by
  refine ⟨?_, ?_, h.normal.maximal, ?_⟩
  · refine List.Pairwise.imp_of_mem (fun {l r} hl hr hle => ?_) h.normal.ordered
    have hprop := h.normal.proper l hl
    omega
  · refine h.normal.ordered.imp fun {l r} hle a => ?_
    simp only [contains_iff]
    omega
  · intro r hr hfree
    have hprop := (h.whole r hr).proper
    have hpaged := (h.whole r hr).paged hfree
    simp only [Range.length, pageSize]
    omega

/-- A normal map comes out exactly if the sorted entries are orderly. -/
theorem generateFrom_normalForm_iff {e820 : List E820Entry} (h : ∀ e ∈ e820, e.WellFormed) :
    (∃ n out, generateFrom n e820 = .ok out ∧ NormalForm out) ↔ sortedEntries e820 ≠ [] ∧
    Orderly (sortedEntries e820) := by
  constructor
  · intro hexists
    obtain ⟨n, out, hrun, hnormal⟩ := hexists
    have hwhole := whole_of_mem_sortedEntries h
    rw [generateFrom_eq h, correctOverlappingRanges] at hrun
    cases heq : sortedEntries e820 with
    | nil => simp [heq, assert] at hrun
    | cons x todo =>
      rw [heq] at hrun hwhole
      refine ⟨by simp, fun done next ts hrest => ?_⟩
      cases done with
      | nil =>
        intro a b t _ _ hnone
        simp [typeAt, reservedAt] at hnone
      | cons x' done =>
        obtain ⟨rfl, htodo⟩ : x = x' ∧ todo = done ++ next :: ts := by simpa using hrest
        exact @orderly_of_ascending _ [] _ todo _ _ (describes_singleton (hwhole x (by simp)))
          (fun r hr => hwhole r (by simp [hr])) hrun hnormal.ascending done next ts htodo
  · intro hcondition
    obtain ⟨hne, horderly⟩ := hcondition
    obtain ⟨n, out, hrun, hdescribes⟩ := generateFrom_describes h hne horderly
    exact ⟨n, out, hrun, hdescribes.normalForm⟩

def twoOverlap : List E820Entry := [⟨0x1000, 0x3000, 1⟩, ⟨0x2800, 0x2000, 2⟩]

lemma twoOverlap_wellFormed : ∀ e ∈ twoOverlap, e.WellFormed := by decide

lemma twoOverlap_orderly : sortedEntries twoOverlap ≠ [] ∧ Orderly (sortedEntries twoOverlap) := by
  have heq : sortedEntries twoOverlap = [⟨⟨0x1000, 0x4000⟩, 1⟩, ⟨⟨0x2800, 0x4800⟩, 2⟩] := by decide +kernel
  have hwhole := whole_of_mem_sortedEntries twoOverlap_wellFormed
  rw [heq] at hwhole ⊢
  refine ⟨by simp, fun done next ts hsplit => ?_⟩
  match done, hsplit with
  | [], _ =>
    intro a b t _ _ hnone
    simp [typeAt, reservedAt] at hnone
  | [x], hsplit =>
    obtain ⟨rfl, rfl, -⟩ : _ = x ∧ _ = next ∧ [] = ts := by simpa using hsplit
    have hdescribes := describes_singleton (hwhole _ (mem_cons_self ..))
    exact (@Describes.uniformFrom_iff _ [] _ hdescribes _).mpr (by decide)
  | _ :: _ :: _, hsplit => simp at hsplit

theorem generateFrom_normalForm_iff_twoOverlap : (∀ e ∈ twoOverlap, e.WellFormed) ∧
    ∃ n out, generateFrom n twoOverlap = .ok out ∧ NormalForm out :=
  ⟨twoOverlap_wellFormed, (generateFrom_normalForm_iff twoOverlap_wellFormed).mpr twoOverlap_orderly⟩

/-- A free entry over the end of a bad one, and a reserved entry that begins inside both. -/
def tripleOverlap : List E820Entry := [⟨0, 0x2000, 5⟩, ⟨0x1000, 0x4000, 1⟩, ⟨0x1800, 0x2800, 2⟩]

/-- What is left of the free entry begins at `0x2000`, behind the begin of the reserved one. -/
theorem generateFrom_tripleOverlap : (∀ e ∈ tripleOverlap, e.WellFormed) ∧
    generateFrom 10 tripleOverlap = .error (.assertion "contains(other.begin())") ∧
    ¬ ∃ n out, generateFrom n tripleOverlap = .ok out ∧ NormalForm out := by
  have hrun : generateFrom 10 tripleOverlap = .error (.assertion "contains(other.begin())") := by decide +kernel
  refine ⟨by decide, hrun, fun ⟨n, out, hout, _⟩ => ?_⟩
  have hsame := generateFrom_unique n 10 (by rw [hout]; simp) (by rw [hrun]; simp)
  rw [hout, hrun] at hsame
  cases hsame

/-- No address that the firmware reserved is offered as free, and each one has the greatest type that
the firmware gave it. -/
structure Shields (e820 : List E820Entry) (entries : List PhysicalRange) : Prop where
  hidden : ∀ e ∈ e820, e.type ≠ free → ∀ a, e.Covers a → ∀ r ∈ entries, r.contains a → r.type ≠ free
  greatest : ∀ e ∈ e820, e.type ≠ free → ∀ a, e.Covers a →
    ∃ r ∈ entries, r.contains a ∧ (∃ e' ∈ e820, e'.Covers a ∧ e'.type = r.type) ∧
      ∀ e' ∈ e820, e'.Covers a → e'.type ≤ r.type

lemma copied_of_reserved (h : e.WellFormed) (htype : e.type ≠ free) :
    copied e = [⟨⟨e.baseAddress, e.baseAddress + e.length⟩, e.type⟩] := by
  have hnonempty := h.nonempty
  rw [copied, kept, if_neg htype, if_pos (by omega)]

lemma le_reservedAt_sortedEntries (h : ∀ e ∈ e820, e.WellFormed) (he : e ∈ e820)
    (htype : e.type ≠ free) (ha : e.Covers a) : e.type ≤ reservedAt (sortedEntries e820) a := by
  have hcopied := copied_of_reserved (h e he) htype
  have hmem := mem_sortedEntries.mpr ⟨e, he, hcopied ▸ mem_singleton_self _⟩
  exact le_reservedAt hmem htype ((contains_iff _ _).mpr ha)

lemma exists_of_reservedAt_sortedEntries (h : ∀ e ∈ e820, e.WellFormed) (ha : reservedAt (sortedEntries e820) a ≠ 0) :
    ∃ e ∈ e820, e.Covers a ∧ e.type = reservedAt (sortedEntries e820) a := by
  obtain ⟨r, hr, htype, hin, heq⟩ := exists_mem_of_reservedAt ha
  obtain ⟨e, he, hmem⟩ := mem_sortedEntries.mp hr
  obtain ⟨-, hetype, hbegin, hend⟩ := mem_kept (h e he).bounded (h e he).typed hmem
  have hcover := (contains_iff _ _).mp hin
  exact ⟨e, he, ⟨by omega, by omega⟩, by rw [← heq, hetype]⟩

theorem generateFrom_shields {e820 : List E820Entry} (h : ∀ e ∈ e820, e.WellFormed) (hne : sortedEntries e820 ≠ [])
    (horderly : Orderly (sortedEntries e820)) : ∃ n out, generateFrom n e820 = .ok out ∧ Shields e820 out := by
  obtain ⟨n, out, hrun, hdescribes⟩ := generateFrom_describes h hne horderly
  -- a reserved address has its greatest type in the output
  have hlabel : ∀ e ∈ e820, e.type ≠ free → ∀ a, e.Covers a → free < reservedAt (sortedEntries e820) a ∧
        labelAt out a = some (reservedAt (sortedEntries e820) a) := by
    intro e he htype a ha
    have htyped := (h e he).typed
    have hle := le_reservedAt_sortedEntries h he htype ha
    have hlt : free < reservedAt (sortedEntries e820) a := by omega
    refine ⟨hlt, ?_⟩
    rw [hdescribes.types, typeAt, if_pos (by omega)]
  refine ⟨n, out, hrun, fun e he htype a ha r hr hin hfree => ?_, fun e he htype a ha => ?_⟩
  · obtain ⟨hlt, hsome⟩ := hlabel e he htype a ha
    obtain ⟨hbegin, hend⟩ := (contains_iff _ _).mp hin
    have hmine : labelAt out a = some r.type := Segments.labelAt_of_mem hdescribes.normal.ordered hr hbegin hend
    have heq := Option.some.inj (hmine.symm.trans hsome)
    omega
  · obtain ⟨hlt, hsome⟩ := hlabel e he htype a ha
    obtain ⟨r, hr, hbegin, hend, hrtype⟩ := Segments.exists_mem_of_labelAt hsome
    refine ⟨r, hr, (contains_iff _ _).mpr ⟨hbegin, hend⟩, ?_, fun e' he' ha' => ?_⟩
    · rw [hrtype]
      exact exists_of_reservedAt_sortedEntries h (by omega)
    · rw [hrtype]
      by_cases hfree : e'.type = free
      · omega
      · exact le_reservedAt_sortedEntries h he' hfree ha'

theorem generateFrom_shields_twoOverlap : (∀ e ∈ twoOverlap, e.WellFormed) ∧ (sortedEntries twoOverlap ≠ [] ∧
    Orderly (sortedEntries twoOverlap)) ∧ ∃ n out, generateFrom n twoOverlap = .ok out ∧ Shields twoOverlap out :=
  ⟨twoOverlap_wellFormed, twoOverlap_orderly,
    generateFrom_shields twoOverlap_wellFormed twoOverlap_orderly.1 twoOverlap_orderly.2⟩

/-- A free entry over the end of a bad one, and two reserved entries that begin before what is left
of the free one. -/
def maskedOverlap : List E820Entry := [⟨0, 0x2000, 5⟩, ⟨0x1000, 0x4000, 1⟩, ⟨0x1100, 0x100, 2⟩, ⟨0x1300, 0x2d00, 2⟩]

/-- The first reserved entry keeps the second one apart from the rest of the free entry: the address
`0x2000` is reserved and offered as free. -/
theorem generateFrom_maskedOverlap : (∀ e ∈ maskedOverlap, e.WellFormed) ∧ generateFrom 10 maskedOverlap =
    .ok [⟨⟨0, 0x2000⟩, 5⟩, ⟨⟨0x2000, 0x5000⟩, 1⟩, ⟨⟨0x1100, 0x1200⟩, 2⟩, ⟨⟨0x1300, 0x4000⟩, 2⟩] ∧ ¬ ∃ n out,
    generateFrom n maskedOverlap = .ok out ∧ Shields maskedOverlap out := by
  have hrun : generateFrom 10 maskedOverlap = .ok [⟨⟨0, 0x2000⟩, 5⟩, ⟨⟨0x2000, 0x5000⟩, 1⟩,
      ⟨⟨0x1100, 0x1200⟩, 2⟩, ⟨⟨0x1300, 0x4000⟩, 2⟩] := by
    decide +kernel
  refine ⟨by decide, hrun, fun ⟨n, out, hout, hshields⟩ => ?_⟩
  have hsame := generateFrom_unique n 10 (by rw [hout]; simp) (by rw [hrun]; simp)
  rw [hout, hrun] at hsame
  cases hsame
  exact hshields.hidden ⟨0x1300, 0x2d00, 2⟩ (by decide) (by decide) 0x2000 ⟨by decide, by decide⟩
    ⟨⟨0x2000, 0x5000⟩, 1⟩ (by decide) (by decide) rfl

end UltraOS.MemoryMap
