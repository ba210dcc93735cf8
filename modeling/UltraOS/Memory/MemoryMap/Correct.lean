import UltraOS.Memory.MemoryMap.Coverage

/-!
# Correcting the overlaps

The walk of `correctOverlappingRanges` keeps the entries in front of its index in normal form. If the next entry does
not begin in front of the last range there, the walk puts it in and is in normal form again (`absorb`). Otherwise
every later state has the two in the wrong order (`Inverted`).
-/

namespace UltraOS.MemoryMap

open PhysicalRange List Segments

def Apart (l r : PhysicalRange) : Prop := triviallyMergeable l r = false ∧ l.overlaps r.toRange = false

variable {l r x y : PhysicalRange} {es xs out ys : List PhysicalRange} {i last type n : Nat}

lemma apart_of_le (hl : l.mBegin < l.mEnd) (hle : l.mEnd ≤ r.mBegin)
    (hmaximal : l.mEnd = r.mBegin → l.type ≠ r.type) : Apart l r := by
  constructor
  · by_cases htouch : l.mEnd = r.mBegin
    · simp [triviallyMergeable, htouch, hmaximal htouch]
    · simp [triviallyMergeable, htouch]
  · have hbegin : l.contains r.mBegin = false := by
      simp [Range.contains]
      omega
    have hu : r.contains l.mBegin = false := by
      simp [Range.contains]
      omega
    simp [Range.overlaps, hbegin, hu]

lemma Normal.apart (h : Normal es) : es.IsChain Apart := by
  induction es with
  | nil => exact List.IsChain.nil
  | cons x es ih =>
    obtain ⟨-, hrest, hcross, hjoint⟩ := (normal_append (l := [x])).mp h
    apply List.IsChain.cons (ih hrest)
    intro y hy
    have hle := hcross x (by simp) y (mem_of_mem_head? hy)
    exact apart_of_le (h.proper x (by simp)) hle (hjoint x (by simp) y hy)

lemma correctFrom_pair (n : Nat) (xs ys : List PhysicalRange) (x y : PhysicalRange) :
    correctFrom (n + 1) xs.length (xs ++ x :: y :: ys) = if triviallyMergeable x y then
        correctFrom n xs.length (xs ++ x.setEnd y.mEnd :: ys)
      else if x.overlaps y.toRange then do
        correctFrom n (xs.length - 1) (← shatterAt xs.length x y (xs ++ x :: y :: ys))
      else correctFrom n (xs.length + 1) (xs ++ x :: y :: ys) := by
  have hx : (xs ++ x :: y :: ys)[xs.length]? = some x := by simp
  have hy : (xs ++ x :: y :: ys)[xs.length + 1]? = some y := by
    rw [List.getElem?_append_right (by omega)]
    simp
  have herase : eraseRangeAt ((xs ++ x :: y :: ys).set xs.length (x.setEnd y.mEnd))
      (xs.length + 1) = .ok (xs ++ x.setEnd y.mEnd :: ys) := by
    simp [eraseRangeAt, eraseIdx_append_of_length_le]
  rw [correctFrom, hx, hy]
  simp only [herase, ok_bind]

/-- The walk gets from one state to another, whatever fuel is left. -/
def Leads (i : Nat) (entries : List PhysicalRange) (j : Nat) (entries' : List PhysicalRange) : Prop :=
  ∃ steps, ∀ fuel, correctFrom (fuel + steps) i entries = correctFrom fuel j entries'

lemma Leads.refl (i : Nat) (es : List PhysicalRange) : Leads i es i es := ⟨0, fun _ => rfl⟩

lemma Leads.trans {j k : Nat} {entries' entries'' : List PhysicalRange} (h : Leads i es j entries')
    (h' : Leads j entries' k entries'') : Leads i es k entries'' := by
  obtain ⟨steps, hsteps⟩ := h
  obtain ⟨steps', hsteps'⟩ := h'
  exact ⟨steps' + steps, fun n => by rw [← add_assoc, hsteps, hsteps']⟩

lemma leads_of_isChain (middle : List PhysicalRange) (x : PhysicalRange)
    (xs ys : List PhysicalRange) (h : (middle ++ [x]).IsChain Apart) :
    Leads xs.length (xs ++ middle ++ x :: ys) (xs ++ middle).length (xs ++ middle ++ x :: ys) := by
  induction middle generalizing xs with
  | nil => simpa using Leads.refl _ _
  | cons y middle ih =>
    -- the neighbour of `y` is the next element of the chain
    have hnext : ∃ z ts, middle ++ x :: ys = z :: ts ∧ Apart y z := by
      cases middle with
      | nil => exact ⟨x, ys, rfl, (isChain_cons_cons.mp h).1⟩
      | cons z middle => exact ⟨z, middle ++ x :: ys, rfl, (isChain_cons_cons.mp h).1⟩
    obtain ⟨z, ts, hrest, happart⟩ := hnext
    have hstep : Leads xs.length (xs ++ y :: middle ++ x :: ys) (xs ++ [y]).length
        (xs ++ [y] ++ middle ++ x :: ys) := by
      refine ⟨1, fun n => ?_⟩
      have hpair := correctFrom_pair n xs ts y z
      rw [happart.1, happart.2, ← hrest] at hpair
      simpa using hpair
    have hih := ih (xs ++ [y]) h.tail
    rw [show xs ++ [y] ++ middle = xs ++ y :: middle by simp] at hstep hih
    exact hstep.trans hih

lemma normal_kept {first : Nat} (hlast : last < addressSpace) (htype : free ≤ type) :
    Normal (kept first last type) := by
  have hmem (r : PhysicalRange) : r ∈ kept first last type → _ := mem_kept hlast htype
  have hshape : kept first last type = [] ∨ ∃ r, kept first last type = [r] := by
    unfold kept
    split <;> split <;> simp
  rcases hshape with hnil | ⟨r, hr⟩
  · rw [hnil]
    exact ⟨by simp, by simp, by simp⟩
  · rw [hr] at hmem ⊢
    exact normal_singleton.mpr (hmem r (by simp)).1.proper

lemma whole_of_mem_overlay (hx : x.Whole) (hy : y.Whole) (hle : x.mBegin ≤ y.mBegin)
    (hr : r ∈ overlay x y) : r.Whole ∧ x.mBegin ≤ r.mBegin := by
  have hxproper := hx.proper
  have hyproper := hy.proper
  have hcut : y.mBegin < addressSpace := hyproper.trans hy.bounded
  unfold overlay at hr
  split at hr
  · rename_i htype
    obtain rfl := mem_singleton.mp hr
    exact ⟨whole_setEnd_max hx hy htype, le_rfl⟩
  · split at hr
    · rcases mem_cons.mp hr with rfl | hr
      · exact ⟨hx, le_rfl⟩
      · obtain ⟨hwhole, -, hbegin, -⟩ := mem_kept hy.bounded hy.typed hr
        exact ⟨hwhole, by omega⟩
    · rcases mem_append.mp hr with hr | hr
      · obtain ⟨hwhole, -, hbegin, -⟩ := mem_kept hcut hx.typed hr
        exact ⟨hwhole, hbegin⟩
      · rcases mem_cons.mp hr with rfl | hr
        · exact ⟨hy, hle⟩
        · obtain ⟨hwhole, -, hbegin, -⟩ := mem_kept hx.bounded hx.typed hr
          exact ⟨hwhole, by omega⟩

lemma normal_cons_kept (hr : r.mBegin < r.mEnd) (hlast : last < addressSpace)
    (htype : free ≤ type) (hne : r.type ≠ type) : Normal (r :: kept r.mEnd last type) := by
  refine (normal_append (l := [r])).mpr ⟨normal_singleton.mpr hr, normal_kept hlast htype, ?_, ?_⟩
  · intro r' hr' s hs
    obtain rfl := mem_singleton.mp hr'
    exact (mem_kept hlast htype hs).2.2.1
  · intro r' hr' s hs
    obtain rfl : r = r' := by simpa using hr'
    rw [(mem_kept hlast htype (mem_of_mem_head? hs)).2.1]
    exact fun _ => hne

lemma normal_overlay (hx : x.Whole) (hy : y.Whole) : Normal (overlay x y) := by
  have hyproper := hy.proper
  have hcut : y.mBegin < addressSpace := hyproper.trans hy.bounded
  unfold overlay
  split
  · rename_i htype
    exact normal_singleton.mpr (whole_setEnd_max hx hy htype).proper
  · rename_i htype
    split
    · exact normal_cons_kept hx.proper hy.bounded hy.typed htype
    · refine normal_append.mpr ⟨normal_kept hcut hx.typed,
        normal_cons_kept hyproper hx.bounded hx.typed (Ne.symm htype), ?_, ?_⟩
      · intro r hr s hs
        obtain ⟨-, -, -, hend⟩ := mem_kept hcut hx.typed hr
        rcases mem_cons.mp hs with rfl | hs
        · exact hend
        · obtain ⟨-, -, hbegin, -⟩ := mem_kept hx.bounded hx.typed hs
          omega
      · intro r hr s hs
        obtain rfl : y = s := by simpa using hs
        rw [(mem_kept hcut hx.typed (mem_of_getLast? hr)).2.1]
        exact fun _ => htype

lemma whole_setEnd (hl : l.Whole) (hr : r.Whole)
    (hmerge : triviallyMergeable l r = true) : (l.setEnd r.mEnd).Whole := by
  obtain ⟨htouch, htype⟩ : l.mEnd = r.mBegin ∧ l.type = r.type := by simpa [triviallyMergeable] using hmerge
  have hprop := hr.proper
  have hmax := whole_setEnd_max hl hr htype
  rwa [max_eq_right (by omega)] at hmax

lemma leads_to_last {middle : List PhysicalRange} (h : Normal (xs ++ middle)) (hne : middle ≠ [])
    (ys : List PhysicalRange) : ∃ front' x', front' ++ [x'] = xs ++ middle ∧
    Leads xs.length (xs ++ middle ++ ys) front'.length (front' ++ x' :: ys) := by
  obtain ⟨middle', x', rfl⟩ : ∃ middle' x', middle = middle' ++ [x'] := ⟨_, _, (dropLast_append_getLast hne).symm⟩
  refine ⟨xs ++ middle', x', by simp, ?_⟩
  have hch := (isChain_append.mp (Normal.apart h)).2.1
  simpa using leads_of_isChain middle' x' xs ys hch

lemma settle {ps : List PhysicalRange} (hfront : Normal xs) (hwhole : ∀ r ∈ xs ++ ps, r.Whole) (hps : Normal ps)
    (hne : ps ≠ []) (hcross : ∀ r ∈ xs, ∀ s ∈ ps, r.mEnd ≤ s.mBegin) (ys : List PhysicalRange) : ∃ f g, g ≠ [] ∧
    Leads (xs.length - 1) (xs ++ ps ++ ys) f.length (f ++ g ++ ys) ∧ Normal (f ++ g) ∧ (∀ r ∈ f ++ g, r.Whole) ∧ ∀ a,
    labelAt (f ++ g) a = labelAt (xs ++ ps) a := by
  obtain ⟨o, os, rfl⟩ := exists_cons_of_ne_nil hne
  rcases eq_nil_or_concat xs with rfl | ⟨f, p, rfl⟩
  · exact ⟨[], o :: os, hne, Leads.refl _ _, hps, hwhole, fun _ => rfl⟩
  · rw [concat_eq_append] at *
    have hp := hwhole p (by simp)
    have ho := hwhole o (by simp)
    have hpo := hcross p (by simp) o (by simp)
    have hpproper := hp.proper
    have hoproper := ho.proper
    have hi : (f ++ [p]).length - 1 = f.length := by simp
    rw [hi]
    by_cases hmerge : p.mEnd = o.mBegin ∧ p.type = o.type
    · obtain ⟨htouch, htype⟩ := hmerge
      have hmergeable : triviallyMergeable p o = true := by simp [triviallyMergeable, htouch, htype]
      have hjoined : (p.setEnd o.mEnd).mBegin < (p.setEnd o.mEnd).mEnd := by
        simp only [setEnd]
        omega
      refine ⟨f, p.setEnd o.mEnd :: os, by simp, ⟨1, fun n => ?_⟩, ?_, ?_, ?_⟩
      · have hpair := correctFrom_pair n f (os ++ ys) p o
        rw [hmergeable] at hpair
        simpa using hpair
      · exact (hfront.replace_last (t := p.setEnd o.mEnd) rfl rfl hjoined).glue
          (hps.replace_head (t := p.setEnd o.mEnd) rfl htype hjoined)
      · have hjoin := whole_setEnd hp ho hmergeable
        simp only [forall_mem_append, forall_mem_cons] at hwhole ⊢
        exact ⟨hwhole.1.1, hjoin, hwhole.2.2⟩
      · intro a
        rw [append_assoc, labelAt_append, labelAt_append, singleton_append, labelAt_cons, labelAt_cons, labelAt_cons]
        simp only [Range.contains_iff, setEnd]
        grind
    · refine ⟨f, p :: o :: os, by simp, by simpa using Leads.refl _ _, ?_, by simpa using hwhole, by simp⟩
      refine hfront.glue ((normal_append (l := [p])).mpr ⟨normal_singleton.mpr hpproper, hps, ?_, ?_⟩)
      · simpa using fun s hs => hcross p (by simp) s hs
      · simpa using fun htouch htype => hmerge ⟨htouch, htype⟩

lemma absorb {input : List PhysicalRange} (h : Describes (xs ++ [x]) input) (hy : y.Whole) (hle : x.mBegin ≤ y.mBegin)
    (ys : List PhysicalRange) : ∃ front' x', Leads xs.length (xs ++ x :: y :: ys) front'.length (front' ++ x' :: ys) ∧
    Describes (front' ++ [x']) (input ++ [y]) := by
  have hx := h.whole x (by simp)
  have hxproper := hx.proper
  have hyproper := hy.proper
  have hinput : ∀ r ∈ input ++ [y], r.Whole := by simpa [or_imp, forall_and] using ⟨h.wholeInput, hy⟩
  have hfront : ∀ r ∈ xs, r.Whole := fun r hr => h.whole r (by simp [hr])
  cases hmerge : triviallyMergeable x y with
  | true =>
    obtain ⟨htouch, htype⟩ : x.mEnd = y.mBegin ∧ x.type = y.type := by simpa [triviallyMergeable] using hmerge
    have hjoin := whole_setEnd hx hy hmerge
    refine ⟨xs, x.setEnd y.mEnd, ⟨1, fun n => ?_⟩, ?_, ?_, hinput, ?_⟩
    · rw [correctFrom_pair, hmerge, if_pos rfl]
    · exact h.normal.replace_last (t := x.setEnd y.mEnd) rfl rfl hjoin.proper
    · simpa [or_imp, forall_and] using ⟨hfront, hjoin⟩
    · exact h.types_concat hy hle fun a => labelAt_merge hx hy htouch htype a
  | false =>
    cases hov : x.overlaps y.toRange with
    | true =>
      have hin : y.mBegin < x.mEnd := by
        simp only [Range.overlaps] at hov
        split at hov
        · cases hov
        · simp at hov
          omega
      have hcon : x.contains y.mBegin = true := by simp [hle, hin]
      have hps : ∀ r ∈ xs ++ overlay x y, r.Whole :=
        forall_mem_append.mpr ⟨hfront, fun r hr => (whole_of_mem_overlay hx hy hle hr).1⟩
      have hcross : ∀ r ∈ xs, ∀ s ∈ overlay x y, r.mEnd ≤ s.mBegin := fun r hr s hs =>
        le_trans (h.mEnd_le r hr) (whole_of_mem_overlay hx hy hle hs).2
      obtain ⟨f, g, hg, hleads, hnormal, hwhole, hlabel⟩ :=
        settle (normal_append.mp h.normal).1 hps (normal_overlay hx hy) (overlay_ne_nil x y) hcross ys
      obtain ⟨front', x', heq, hlast⟩ := leads_to_last hnormal hg ys
      have hshatter : Leads xs.length (xs ++ x :: y :: ys) (xs.length - 1) (xs ++ overlay x y ++ ys) := by
        refine ⟨1, fun n => ?_⟩
        rw [correctFrom_pair, hmerge, hov, if_neg (by simp), if_pos rfl, shatterAt_eq_ok xs ys hx hy hcon, ok_bind]
      refine ⟨front', x', hshatter.trans (hleads.trans hlast), ?_⟩
      rw [heq]
      refine ⟨hnormal, hwhole, hinput, fun a => ?_⟩
      rw [hlabel]
      exact h.types_concat hy hle (fun a => labelAt_overlay hx hy hle hin a) a
    | false =>
      have hend : x.mEnd ≤ y.mBegin := by
        simp [Range.overlaps, Range.contains, hxproper.ne, hyproper.ne] at hov
        omega
      refine ⟨xs ++ [x], y, ⟨1, fun n => ?_⟩, ?_, ?_, hinput, ?_⟩
      · rw [correctFrom_pair, hmerge, hov]
        simp
      · rw [append_assoc]
        refine normal_concat.mpr ⟨h.normal, hyproper, hend, fun htouch htype => ?_⟩
        simp [triviallyMergeable, htouch, htype] at hmerge
      · simpa [or_imp, forall_and] using ⟨hfront, hx, hy⟩
      · rw [append_assoc]
        exact h.types_concat hy hle fun a => labelAt_apart hx hy hend a

lemma correctFrom_cases (hwhole : ∀ r ∈ es, r.Whole) (h : correctFrom (n + 1) i es = .ok out) : out = es ∨ ∃ xs x y ys,
    es = xs ++ x :: y :: ys ∧ i = xs.length ∧ ((triviallyMergeable x y = true ∧
    correctFrom n i (xs ++ x.setEnd y.mEnd :: ys) = .ok out) ∨ (x.contains y.mBegin = true ∧
    correctFrom n (i - 1) (xs ++ overlay x y ++ ys) = .ok out) ∨ (Apart x y ∧ correctFrom n (i + 1) es = .ok out)) := by
  by_cases hi : i + 1 < es.length
  · obtain ⟨xs, x, y, ys, rfl, rfl⟩ : ∃ xs x y ys, es = xs ++ x :: y :: ys ∧ i = xs.length :=
      ⟨es.take i, es[i], es[i + 1], es.drop (i + 2), by simp, by simp; omega⟩
    refine .inr ⟨xs, x, y, ys, rfl, rfl, ?_⟩
    rw [correctFrom_pair] at h
    cases hmerge : triviallyMergeable x y with
    | true => exact .inl ⟨rfl, by rwa [hmerge, if_pos rfl] at h⟩
    | false =>
      rw [hmerge, if_neg (by simp)] at h
      cases hov : x.overlaps y.toRange with
      | true =>
        rw [hov, if_pos rfl] at h
        cases hcon : x.contains y.mBegin with
        | true =>
          rw [shatterAt_eq_ok xs ys (hwhole x (by simp)) (hwhole y (by simp)) hcon, ok_bind] at h
          exact .inr (.inl ⟨rfl, h⟩)
        | false => simp [shatterAt, shatterAgainst, hcon, assert] at h
      | false => exact .inr (.inr ⟨⟨hmerge, hov⟩, by rwa [hov, if_neg (by simp)] at h⟩)
  · have hnone : es[i + 1]? = none := List.getElem?_eq_none (by omega)
    rw [correctFrom, hnone] at h
    left
    cases hsome : es[i]? <;> simp_all

/-- The second range begins in front of the first one, by a whole page if it is free. -/
structure Inverted (x y : PhysicalRange) : Prop where
  before : y.mBegin < x.mBegin
  page : y.type = free → y.mBegin + 4096 ≤ x.mBegin

lemma Inverted.overlay {z : PhysicalRange} (h : Inverted x y) (hy : y.Whole)
    (hin : y.mBegin ≤ z.mBegin) : ∃ o os, overlay y z = o :: os ∧ Inverted x o := by
  have hbef := h.before
  have hytyped := hy.typed
  unfold MemoryMap.overlay
  split
  · exact ⟨_, _, rfl, hbef, h.page⟩
  · split
    · exact ⟨_, _, rfl, h⟩
    · -- the front part is dropped only if the third range begins on the same page
      have hceil := Page.ceil_spec y.mBegin
      have hfloor := Page.floor_spec z.mBegin
      unfold kept
      by_cases hfree : y.type = free
      · have hpage := h.page hfree
        have hpaged := hy.paged hfree
        rw [if_pos hfree]
        split
        · exact ⟨_, _, rfl, by dsimp only; omega, fun _ => by dsimp only; omega⟩
        · exact ⟨_, _, rfl, by omega, fun hzfree => by omega⟩
      · rw [if_neg hfree]
        split
        · exact ⟨_, _, rfl, hbef, h.page⟩
        · exact ⟨_, _, rfl, by omega, fun hzfree => by omega⟩

lemma inverted_of_correctFrom (n i : Nat) (hwhole : ∀ r ∈ xs ++ x :: y :: ys, r.Whole)
    (hinv : Inverted x y) (hi : xs.length ≤ i) (h : correctFrom n i (xs ++ x :: y :: ys) = .ok out) :
    ∃ y' back', out = xs ++ x :: y' :: back' ∧ y'.mBegin < x.mBegin := by
  induction n generalizing i y ys with
  | zero => cases h
  | succ n ih =>
    have hx := (hwhole x (by simp)).proper
    have hbef := hinv.before
    rcases correctFrom_cases hwhole h with rfl | ⟨front', u, v, back', heq, rfl, hstep⟩
    · exact ⟨y, ys, rfl, hbef⟩
    · -- the compared pair is the inverted one, or overlaps it by one, or lies behind it
      obtain ⟨passed, rfl, hrest⟩ : ∃ passed, front' = xs ++ passed ∧
          x :: y :: ys = passed ++ u :: v :: back' := by
        rcases append_eq_append_iff.mp heq with ⟨passed, hfront, hrest⟩ | ⟨passed, hfront, hrest⟩
        · exact ⟨passed, hfront, hrest⟩
        · obtain rfl : passed = [] := by
            rw [hfront, length_append] at hi
            exact eq_nil_of_length_eq_zero (by omega)
          exact ⟨[], by simpa using hfront.symm, by simpa using hrest.symm⟩
      have hu := hwhole u (by rw [heq]; simp)
      have hv := hwhole v (by rw [heq]; simp)
      match passed, hrest with
      | [], hrest =>
        obtain ⟨rfl, rfl, rfl⟩ : x = u ∧ y = v ∧ ys = back' := by simpa using hrest
        rcases hstep with ⟨hmerge, -⟩ | ⟨hcon, -⟩ | ⟨-, hgo⟩
        · have htouch : x.mEnd = y.mBegin := by
            simp [triviallyMergeable] at hmerge
            exact hmerge.1
          omega
        · have hin := (Range.contains_iff _ _).mp hcon
          omega
        · exact ih _ hwhole hinv (by simp) hgo
      | [_], hrest =>
        obtain ⟨rfl, rfl, rfl⟩ : x = _ ∧ y = u ∧ ys = v :: back' := by simpa using hrest
        rcases hstep with ⟨hmerge, hgo⟩ | ⟨hcon, hgo⟩ | ⟨-, hgo⟩
        · refine @ih (y.setEnd v.mEnd) back' (xs ++ [x]).length ?_ ⟨hbef, hinv.page⟩ hi (by simpa using hgo)
          have hmerged := whole_setEnd hu hv hmerge
          simp only [forall_mem_append, forall_mem_cons] at hwhole ⊢
          exact ⟨hwhole.1, hwhole.2.1, hmerged, hwhole.2.2.2.2⟩
        · have hin := (Range.contains_iff _ _).mp hcon
          obtain ⟨o, os, hover, hinv'⟩ := hinv.overlay hu hin.1
          refine @ih o (os ++ back') xs.length ?_ hinv' le_rfl (by simpa [hover] using hgo)
          have hps := fun r hr => (@whole_of_mem_overlay r _ _ hu hv hin.1 hr).1
          rw [hover] at hps
          simp only [forall_mem_append, forall_mem_cons] at hwhole hps ⊢
          exact ⟨hwhole.1, hwhole.2.1, hps.1, hps.2, hwhole.2.2.2.2⟩
        · exact ih _ hwhole hinv (by omega) hgo
      | _ :: _ :: mid, hrest =>
        obtain ⟨rfl, rfl, rfl⟩ : x = _ ∧ y = _ ∧ ys = mid ++ u :: v :: back' := by simpa using hrest
        rcases hstep with ⟨hmerge, hgo⟩ | ⟨hcon, hgo⟩ | ⟨-, hgo⟩
        · refine @ih y (mid ++ u.setEnd v.mEnd :: back') _ ?_ hinv hi (by simpa using hgo)
          have hmerged := whole_setEnd hu hv hmerge
          simp only [forall_mem_append, forall_mem_cons] at hwhole ⊢
          exact ⟨hwhole.1, hwhole.2.1, hwhole.2.2.1, hwhole.2.2.2.1, hmerged, hwhole.2.2.2.2.2.2⟩
        · have hin := (Range.contains_iff _ _).mp hcon
          have hps := fun r hr => (@whole_of_mem_overlay r _ _ hu hv hin.1 hr).1
          have hback : xs.length ≤ (xs ++ x :: y :: mid).length - 1 := by simp
          refine @ih y (mid ++ overlay u v ++ back') _ ?_ hinv hback (by simpa using hgo)
          simp only [forall_mem_append, forall_mem_cons] at hwhole ⊢
          exact ⟨hwhole.1, hwhole.2.1, hwhole.2.2.1, ⟨hwhole.2.2.2.1, hps⟩, hwhole.2.2.2.2.2.2⟩
        · exact ih _ hwhole hinv (by omega) hgo

lemma inverted_of_lt (hwhole : ∀ r ∈ xs ++ x :: y :: ys, r.Whole) (hlt : y.mBegin < x.mBegin)
    (h : correctFrom n xs.length (xs ++ x :: y :: ys) = .ok out) : ∃ y' back', out =
    xs ++ x :: y' :: back' ∧ y'.mBegin < x.mBegin := by
  have hx := (hwhole x (by simp)).proper
  have hy := hwhole y (by simp)
  have hyproper := hy.proper
  cases n with
  | zero => cases h
  | succ n =>
    rw [correctFrom_pair] at h
    have hmerge : triviallyMergeable x y = false := by
      simp [triviallyMergeable]
      omega
    have hcon : x.contains y.mBegin = false := by
      simp [Range.contains]
      omega
    rw [hmerge, if_neg (by simp)] at h
    cases hov : x.overlaps y.toRange with
    | true => simp [hov, shatterAt, shatterAgainst, hcon, assert] at h
    | false =>
      rw [hov, if_neg (by simp)] at h
      have hend : y.mEnd ≤ x.mBegin := by
        simp [Range.overlaps, Range.contains, hx.ne, hyproper.ne] at hov
        omega
      refine inverted_of_correctFrom n _ hwhole ⟨hlt, fun hfree => ?_⟩ (by omega) h
      have hpaged := hy.paged hfree
      omega

lemma correctFrom_add (h : correctFrom n i es ≠ .error .outOfFuel) (more : Nat) :
    correctFrom (n + more) i es = correctFrom n i es := by
  induction n generalizing i es with
  | zero => exact absurd rfl h
  | succ n ih =>
    rw [show n + 1 + more = n + more + 1 by omega, correctFrom, correctFrom]
    rw [correctFrom] at h
    have hbind : ∀ (x : Run (List PhysicalRange)) (j : Nat),
        (x >>= fun entries' => correctFrom n j entries') ≠ .error .outOfFuel →
        (x >>= fun entries' => correctFrom (n + more) j entries') =
          x >>= fun entries' => correctFrom n j entries' := by
      intro x j hx
      cases x with
      | error e => rfl
      | ok entries' => exact ih hx
    cases hl : es[i]? with
    | none => rfl
    | some l =>
      cases hr : es[i + 1]? with
      | none => rfl
      | some r =>
        simp only [hl, hr] at h ⊢
        split at h
        · rename_i hmerge
          simp only [if_pos hmerge]
          exact hbind _ _ h
        · rename_i hmerge
          simp only [if_neg hmerge]
          split at h
          · rename_i hov
            simp only [if_pos hov]
            exact hbind _ _ h
          · rename_i hov
            simp only [if_neg hov]
            exact ih h

end UltraOS.MemoryMap
