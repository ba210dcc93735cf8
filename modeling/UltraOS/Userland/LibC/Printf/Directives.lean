import Mathlib.Data.List.TakeWhile
import UltraOS.Userland.LibC.Printf.Parsing

/-!
# The directives of a format

A conversion without flags other than the zero is read as it is meant, unless its precision is a star or
follows a star. Any other flag falls through to the case of the star and to the case of the dot: it takes an
argument for the width, and nothing behind it can take that back.
-/

namespace UltraOS.LibC

open List Directive

variable {c : Char}

section

variable {tail : List Char} {f : Formatter} {flags : List Flag} {width : Width} {prec : Precision}
  {conv : Conversion} {v : Arg} {ts : List Arg} {layout : Layout} {text : List Char}

lemma formatAll_flags (tail : List Char) (hflags : ∀ flag ∈ flags, flag = .zero)
    (h : f.state = .percent) : ∃ zeroes, formatAll (flags.map Flag.char ++ tail) f =
    formatAll tail { f with spec := { f.spec with leadingZeroes := zeroes } } := by
  induction flags generalizing f with
  | nil => exact ⟨f.spec.leadingZeroes, rfl⟩
  | cons flag flags ih =>
    obtain rfl := hflags flag mem_cons_self
    obtain ⟨zeroes, hrun⟩ := ih (fun flag hflag => hflags flag (mem_cons_of_mem _ hflag))
      (f := { f with spec := { f.spec with leadingZeroes := true } }) h
    exact ⟨zeroes, (formatAll_zero h).trans hrun⟩

lemma formatAll_widthOf (tail : List Char) (hc : c.isDigit = false) (h : f.state = .percent)
    (hzero : f.spec.minFieldWidth = 0) (hstar : width ≠ .star) (hv : width.value ≤ intMax) : ∃ s,
    (s = .percent ∨ s = .fieldWidth) ∧ formatAll (width.render ++ c :: tail) f =
    formatAll (c :: tail) { f with state := s, spec := { f.spec with minFieldWidth := width.value } } := by
  cases width with
  | absent =>
    refine ⟨.percent, .inl rfl, ?_⟩
    change formatAll (c :: tail) f = formatAll (c :: tail) { f with
      state := .percent, spec := { f.spec with minFieldWidth := 0 } }
    rw [← hzero, ← h]
  | digits first others => exact ⟨.fieldWidth, .inr rfl, formatAll_width hc h first others hv⟩
  | star => exact absurd rfl hstar

lemma isDigit_conv (conv : Conversion) : conv.char.isDigit = false := by cases conv <;> decide

lemma formatAll_precisionOf (conv : Conversion) (tail : List Char) (h : f.state = .percent ∨ f.state = .fieldWidth)
    (hnone : f.spec.hasPrecision = false) (hzero : f.spec.precision = 0) (hstar : prec ≠ .star)
    (hv : ∀ v, prec.value = some v → v ≤ intMax) :
    ∃ s, s ≠ .normal ∧ formatAll (prec.render ++ conv.char :: tail) f =
      formatAll (conv.char :: tail) { f with
        state := s
        spec := { f.spec with
          hasPrecision := prec.value.isSome, precision := prec.value.getD 0 } } := by
  cases prec with
  | absent =>
    refine ⟨f.state, ?_, ?_⟩
    · rcases h with h | h
      · rw [h]
        decide
      · rw [h]
        decide
    · change formatAll (conv.char :: tail) f = formatAll (conv.char :: tail) { f with
        spec := { f.spec with hasPrecision := false, precision := 0 } }
      rw [← hnone, ← hzero]
  | digits all =>
    have hdot : formatAll ((Precision.digits all).render ++ conv.char :: tail) f =
        formatAll (digitChars all ++ conv.char :: tail) { f with
          state := .precisionDot, spec := { f.spec with hasPrecision := true } } := formatAll_dot h
    rw [hdot]
    cases all with
    | nil =>
      refine ⟨.precisionDot, by decide, ?_⟩
      change formatAll (conv.char :: tail) _ = formatAll (conv.char :: tail) { f with
        state := .precisionDot, spec := { f.spec with hasPrecision := true, precision := 0 } }
      rw [← hzero]
    | cons digit others =>
      exact ⟨.precisionNumber, by decide, formatAll_precision (isDigit_conv conv) rfl digit others (hv _ rfl)⟩
  | star => exact absurd rfl hstar

lemma exists_cons_precision (prec : Precision) (conv : Conversion) (tail : List Char) :
    ∃ c others, prec.render ++ conv.char :: tail = c :: others ∧ c.isDigit = false := by
  cases prec with
  | absent => exact ⟨_, _, rfl, isDigit_conv conv⟩
  | digits all | star => exact ⟨_, _, rfl, by decide⟩

lemma formatAll_spelled (bst : BufferState) (ts : List Arg) (hflags : ∀ flag ∈ flags, flag = .zero)
    (hwidth : width ≠ .star) (hprec : prec ≠ .star) (hwidthValue : width.value ≤ intMax)
    (hprecisionValue : ∀ v, prec.value = some v → v ≤ intMax) (hlayoutWidth : layout.width = width.value)
    (hlayoutPrecision : layout.precision = prec.value) (hleft : layout.leftJustified = false)
    (hplus : layout.plus = false) (hspace : layout.space = false) (htext : conv.text layout v = some text)
    (tail : List Char) : ∃ spec, Spelled spec layout ∧
    formatAll ((conversion flags width prec conv).render ++ tail) { bufState := bst, vlist := v :: ts } =
    formatAll tail { bufState := writeAll bst (conv.written spec v), vlist := ts } := by
  have hrender : (conversion flags width prec conv).render ++ tail =
      '%' :: (flags.map Flag.char ++ (width.render ++ (prec.render ++ conv.char :: tail))) := by
    simp [Directive.render]
  obtain ⟨zeroes, hflagsRun⟩ := formatAll_flags (width.render ++ (prec.render ++ conv.char :: tail)) hflags
    (f := { bufState := bst, vlist := v :: ts, state := .percent }) rfl
  obtain ⟨c, others, hcons, hc⟩ := exists_cons_precision prec conv tail
  obtain ⟨s, hstate, hwidthRun⟩ := formatAll_widthOf others hc
    (f := ⟨bst, v :: ts, .percent, { leadingZeroes := zeroes }⟩) rfl rfl hwidth hwidthValue
  rw [← hcons] at hwidthRun
  obtain ⟨state', hstate', hprecisionRun⟩ := formatAll_precisionOf conv tail
    (f := ⟨bst, v :: ts, s, { leadingZeroes := zeroes, minFieldWidth := width.value }⟩)
    hstate rfl rfl hprec hprecisionValue
  have hspelled : Spelled {
      leadingZeroes := zeroes
      minFieldWidth := width.value
      hasPrecision := prec.value.isSome
      precision := prec.value.getD 0 } layout :=
    ⟨⟨rfl, rfl⟩, hlayoutWidth.symm, rfl, by rw [hlayoutPrecision], by rw [hlayoutPrecision], hleft, hplus, hspace⟩
  refine ⟨_, hspelled, ?_⟩
  rw [hrender, formatAll_percent rfl]
  refine hflagsRun.trans (hwidthRun.trans (hprecisionRun.trans ?_))
  rw [formatAll_conversion, conversionCase_eq hstate' hspelled.plain rfl rfl htext, ok_bind]

variable {arg : BitVec 32}

lemma formatAll_star (h : f.state = .percent) (hvlist : f.vlist = .int arg :: ts) :
    formatAll ('*' :: tail) f = formatAll tail { f with
      state := .precisionDot
      vlist := ts
      spec := { f.spec with
        justify := if arg.toInt < 0 then .left else f.spec.justify
        minFieldWidth := arg.toInt.natAbs
        hasPrecision := true } } := by
  obtain ⟨bst, vlist, s, spec⟩ := f
  obtain rfl : s = .percent := h
  obtain rfl : vlist = .int arg :: ts := hvlist
  rw [formatAll_cons (by decide)]
  change (do return (← starCase '*' _).map (·, tail)) >>= formatRest = _
  rw [starCase]
  dsimp only [vaInt]
  rw [ok_bind]
  by_cases hneg : arg.toInt < 0
  · rw [if_pos hneg, if_pos hneg]
    rfl
  · rw [if_neg hneg, if_neg hneg]
    rfl

lemma formatAll_starred (bst : BufferState) (ts : List Arg) (hflags : ∀ flag ∈ flags, flag = .zero)
    (hlayoutWidth : layout.width = arg.toInt.natAbs) (hlayoutPrecision : layout.precision = none)
    (hleft : layout.leftJustified = decide (arg.toInt < 0)) (hplus : layout.plus = false)
    (hspace : layout.space = false) (htext : conv.text layout v = some text) (tail : List Char) :
    ∃ spec, Starred spec layout arg.toInt ∧ formatAll ((conversion flags .star .absent conv).render ++ tail)
          { bufState := bst, vlist := .int arg :: v :: ts } =
        formatAll tail { bufState := writeAll bst (conv.written spec v), vlist := ts } := by
  have hrender : (conversion flags .star .absent conv).render ++ tail =
      '%' :: (flags.map Flag.char ++ '*' :: conv.char :: tail) := by
    simp [Directive.render, Width.render, Precision.render]
  obtain ⟨zeroes, hflagsRun⟩ := formatAll_flags ('*' :: conv.char :: tail) hflags
    (f := { bufState := bst, vlist := .int arg :: v :: ts, state := .percent }) rfl
  have hstarred : Starred {
      leadingZeroes := zeroes
      justify := if arg.toInt < 0 then .left else .right
      minFieldWidth := arg.toInt.natAbs
      hasPrecision := true } layout arg.toInt :=
    ⟨⟨rfl, rfl⟩, rfl, rfl, rfl, rfl, hlayoutWidth, hleft, hlayoutPrecision, hplus, hspace⟩
  refine ⟨_, hstarred, ?_⟩
  rw [hrender, formatAll_percent rfl]
  refine hflagsRun.trans ((formatAll_star rfl rfl).trans ?_)
  have hstate : ParseState.precisionDot ≠ .normal := by decide
  rw [formatAll_conversion, conversionCase_eq hstate hstarred.plain rfl rfl htext, ok_bind]

end

variable {tail : List Char} {f f' : Formatter} {conv : Conversion}

lemma formatAll_ne (hc : c = '-' ∨ c = '+' ∨ c = '.' ∨ c = '*')
    (h : f.state = .precisionDot ∨ f.state = .precisionNumber) : formatAll (c :: tail) f ≠ .ok (some f') := by
  obtain ⟨bst, vlist, s, spec⟩ := f
  have hone : ∀ res, formatOne c tail ⟨bst, vlist, s, spec⟩ = .ok res → res = none := by
    intro res hone
    rcases h with h | h
    · obtain rfl : s = .precisionDot := h
      -- the star and the signs take an argument first
      cases vlist with
      | nil => rcases hc with rfl | rfl | rfl | rfl <;> cases hone; rfl
      | cons arg vlist => cases arg <;> rcases hc with rfl | rfl | rfl | rfl <;> cases hone <;> rfl
    · obtain rfl : s = .precisionNumber := h
      rcases hc with rfl | rfl | rfl | rfl <;> cases hone <;> rfl
  intro hrun
  rw [formatAll_cons (by rcases hc with rfl | rfl | rfl | rfl <;> decide)] at hrun
  obtain ⟨res, hres, hrun⟩ := of_bind hrun
  rw [hone res hres] at hrun
  cases hrun

/-- The states in which a flag goes on to the case of the star with the state of the percent sign. -/
def Restarts (flag : Flag) (state : ParseState) : Prop :=
  flag ≠ .zero ∧ (state = .percent ∨ flag = .space ∧ (state = .precisionDot ∨ state = .precisionNumber))

variable {flag : Flag}

lemma flagCase_eq (h : Restarts flag f.state) : ∃ next, flagCase flag.char f = starCase flag.char next ∧
    next.state = .percent ∧ next.vlist = f.vlist ∧ next.spec.lengthModifier = f.spec.lengthModifier := by
  obtain ⟨bst, vlist, s, spec⟩ := f
  obtain ⟨hflag, hstate⟩ := h
  let applied := applyFlag flag.char ⟨bst, vlist, s, spec⟩
  refine ⟨{ applied with spec := { applied.spec with prependSign := true } }, ?_⟩
  rcases hstate with hstate | ⟨rfl, hstate | hstate⟩
  · obtain rfl : s = .percent := hstate
    cases flag with
    | zero => exact absurd rfl hflag
    | minus | plus | space => exact ⟨rfl, rfl, rfl, rfl⟩
  · obtain rfl : s = .precisionDot := hstate
    exact ⟨rfl, rfl, rfl, rfl⟩
  · obtain rfl : s = .precisionNumber := hstate
    exact ⟨rfl, rfl, rfl, rfl⟩

lemma formatAll_flag (h : Restarts flag f.state) (hrun : formatAll (flag.char :: tail) f = .ok (some f')) :
    ∃ next, formatAll tail next = .ok (some f') ∧ next.state = .precisionDot ∧ next.spec.lengthModifier =
    f.spec.lengthModifier ∧ next.vlist.length + 1 = f.vlist.length := by
  have hchar : flag.char ≠ '\x00' := by cases flag <;> decide
  have hone : formatOne flag.char tail f = (do return (← flagCase flag.char f).map (·, tail)) := by
    cases flag with
    | zero => exact absurd rfl h.1
    | minus | plus | space => rfl
  obtain ⟨next, hflag, hstate, hvlist, hmod⟩ := flagCase_eq h
  rw [formatAll_cons hchar, hone, hflag] at hrun
  obtain ⟨res, hone, hrun⟩ := of_bind hrun
  obtain ⟨result', hcase, hone⟩ := of_bind hone
  cases hone
  unfold starCase at hcase
  rw [hstate] at hcase
  obtain ⟨⟨arg, left⟩, hva, hcase⟩ := of_bind hcase
  rw [hvlist] at hva
  have hpop : left.length + 1 = f.vlist.length := by
    unfold vaInt at hva
    split at hva
    · rename_i hcons
      cases hva
      exact (congrArg List.length hcons).symm
    · cases hva
  cases hcase
  refine ⟨_, hrun, rfl, ?_, hpop⟩
  split
  · exact hmod
  · exact hmod

lemma length_conversionCase (hstate : f.state ≠ .normal) (hmod : f.spec.lengthModifier = (none, none))
    (hrun : conversionCase conv.char f = .ok f') : f'.vlist.length + 1 = f.vlist.length := by
  rw [conversionCase_of_ne_normal hstate] at hrun
  obtain ⟨bst, vlist, s, spec⟩ := f
  obtain ⟨prec, justify, minFieldWidth, leadingZeroes, prependSpace, prependSign, alternativeForm, hasPrecision,
    conversionSpecifier, lengthModifier⟩ := spec
  obtain rfl : lengthModifier = (none, none) := hmod
  cases vlist with
  | nil => cases conv <;> cases hrun
  | cons arg vlist =>
    -- an argument of another type ends the call
    cases conv <;> cases arg <;> try cases hrun
    case cons.string.string.refl => rfl
    all_goals
      obtain ⟨_, harg, hrun⟩ := of_bind hrun
      cases harg
      obtain ⟨_, _, hrun⟩ := of_bind hrun
      cases hrun
      rfl

/-- The characters between the percent sign and the conversion. -/
def Inner (c : Char) : Prop := c ∈ ['-', '+', ' ', '.', '*'] ∨ c.isDigit = true

lemma formatAll_digits (hc : c.isDigit = true) {chars : List Char} (h : f.state = .precisionDot ∨
    f.state = .precisionNumber) (hrun : formatAll (c :: (chars ++ [conv.char])) f = .ok (some f')) : ∃ prec,
    formatAll (chars.dropWhile Char.isDigit ++ [conv.char])
    { f with state := .precisionNumber, spec := { f.spec with precision := prec } } = .ok (some f') := by
  obtain ⟨bst, vlist, s, spec⟩ := f
  rw [formatAll_isDigit hc] at hrun
  rcases h with h | h
  · obtain rfl : s = .precisionDot := h
    rw [digitCase] at hrun
    dsimp only at hrun
    split at hrun
    · rename_i v left hparse
      have hleft : left = chars.dropWhile Char.isDigit ++ [conv.char] := by
        rw [parseInt_rest hc hparse, dropWhile_append, dropWhile_cons_of_neg (by simp [isDigit_conv])]
        split
        · rename_i hempty
          rw [isEmpty_iff.mp hempty, nil_append]
        · rfl
      exact ⟨v.toNat, hleft ▸ hrun⟩
    · cases hrun
  · obtain rfl : s = .precisionNumber := h
    cases hrun

lemma length_of_conversion (hstate : f.state = .precisionDot ∨ f.state = .precisionNumber)
    (hmod : f.spec.lengthModifier = (none, none))
    (hrun : formatAll [conv.char] f = .ok (some f')) : f'.vlist.length < f.vlist.length := by
  have hnormal : f.state ≠ .normal := by
    rcases hstate with h | h
    · rw [h]
      decide
    · rw [h]
      decide
  rw [formatAll_conversion] at hrun
  obtain ⟨next, hcase, hrun⟩ := of_bind hrun
  cases hrun
  have hlen := length_conversionCase hnormal hmod hcase
  omega

lemma length_of_dot (n : Nat) (chars : List Char) (hn : chars.length ≤ n) (hchars : ∀ c ∈ chars, Inner c)
    (hstate : f.state = .precisionDot ∨ f.state = .precisionNumber) (hmod : f.spec.lengthModifier = (none, none))
    (hrun : formatAll (chars ++ [conv.char]) f = .ok (some f')) : '*' ∉ chars ∧ f'.vlist.length < f.vlist.length := by
  induction n generalizing chars f with
  | zero =>
    obtain rfl := length_eq_zero_iff.mp (Nat.le_zero.mp hn)
    exact ⟨not_mem_nil, length_of_conversion hstate hmod hrun⟩
  | succ n ih =>
    cases chars with
    | nil => exact ⟨not_mem_nil, length_of_conversion hstate hmod hrun⟩
    | cons c chars =>
      obtain ⟨hc, hinner⟩ := forall_mem_cons.mp hchars
      have hshort : chars.length ≤ n := Nat.le_of_succ_le_succ hn
      rw [cons_append] at hrun
      rcases hc with hc | hdigit
      · simp only [mem_cons, not_mem_nil, or_false] at hc
        by_cases hspace : c = ' '
        · subst hspace
          have hrestart : Restarts .space f.state := ⟨Flag.noConfusion, .inr ⟨rfl, hstate⟩⟩
          obtain ⟨next, hrun, hdot, hsame, hpop⟩ := formatAll_flag hrestart hrun
          have hnext := ih chars hshort hinner (.inl hdot) (hsame.trans hmod) hrun
          refine ⟨?_, hnext.2.trans_le (hpop ▸ Nat.le_succ _)⟩
          rw [mem_cons, not_or]
          exact ⟨by decide, hnext.1⟩
        · exact absurd hrun (formatAll_ne (by tauto) hstate)
      · obtain ⟨prec, hrun⟩ := formatAll_digits hdigit hstate hrun
        have hnext := ih (chars.dropWhile Char.isDigit) (le_trans (dropWhile_sublist _).length_le hshort)
          (fun d hd => hinner d ((dropWhile_sublist _).mem hd))
          (f := { f with state := .precisionNumber, spec := { f.spec with precision := prec } })
          (.inr rfl) hmod hrun
        refine ⟨fun hmem => ?_, hnext.2⟩
        rw [← takeWhile_append_dropWhile (p := Char.isDigit) (l := chars), mem_cons, mem_append] at hmem
        rcases hmem with rfl | hmem | hmem
        · cases hdigit
        · exact absurd (mem_takeWhile_imp hmem : '*'.isDigit = true) (by decide)
        · exact hnext.1 hmem

end UltraOS.LibC
