import UltraOS.Userland.LibC.Printf.Directives

/-!
# Which formats are printed as the standard prescribes

After every directive the text and the arguments are compared with those of the standard. They agree exactly
as long as each directive is one that the switch and the padding get right.
-/

namespace UltraOS.LibC

open List Directive

/-- The width and the precision are read as they are meant, and the padding is right. -/
def WidthFits : Width → Precision → List Arg → Prop
  | .star, .absent, .int arg :: value :: _ => StarFits arg.toInt value
  | .star, _, _ => False
  | _, .star, _ => False
  | width, precision, value :: _ => PlainFits width.value precision.value value
  | _, _, [] => False

def Directive.Fits : Directive → List Arg → Prop
  | .literal c _, _ => c ≠ '*'
  | .percent, _ => True
  | .conversion flags width precision _, args => (∀ flag ∈ flags, flag = .zero) ∧ WidthFits width precision args

instance decidableWidthFits (width : Width) (precision : Precision) (args : List Arg) :
    Decidable (WidthFits width precision args) := by
  unfold WidthFits
  split <;> infer_instance

instance decidableFits (directive : Directive) (args : List Arg) : Decidable (directive.Fits args) := by
  cases directive <;> dsimp only [Directive.Fits] <;> infer_instance

/-- All directives are, each with its own arguments. -/
def FitsAll : List Directive → List Arg → Prop
  | [], _ => True
  | directive :: directives, args => directive.Fits args ∧
      ∀ result ∈ directive.standard args, FitsAll directives result.2

instance decidableFitsAll : (directives : List Directive) → (args : List Arg) → Decidable (FitsAll directives args)
  | [], _ => .isTrue trivial
  | _ :: directives, _ =>
    have : ∀ args, Decidable (FitsAll directives args) := decidableFitsAll directives
    inferInstanceAs (Decidable (_ ∧ _))

/-- After each directive, the text, the number that is returned and the arguments that are left are those of
the standard. -/
def PrintsAll (bufsz : Nat) (directives : List Directive) (args : List Arg) : Prop :=
  ∀ front back, directives = front ++ back → ∃ text rest, standard front args = some (text, rest) ∧
    vsnprintf bufsz (render front) args = .ok (some ⟨text, text.length, rest⟩)

section

variable {tail : List Char} {bst : BufferState} {vlist : List Arg}

lemma formatAll_literal {c : Char} (hordinary : c ≠ '%' ∧ c ≠ '\x00') (hstar : c ≠ '*') :
    formatAll (c :: tail) { bufState := bst, vlist := vlist } =
    formatAll tail { bufState := writeAll bst [c], vlist := vlist } := by
  have hone : formatOne c tail { bufState := bst, vlist := vlist } =
      .ok (some ({ bufState := writeAll bst [c], vlist := vlist }, tail)) := by
    rw [formatOne, if_neg hordinary.1, if_neg hstar]
    split_ifs <;> rfl
  rw [formatAll_cons hordinary.2, hone]
  rfl

/-- A star is written twice, since its case goes on with the one of the dot. -/
lemma formatAll_literal_star : formatAll ('*' :: tail) { bufState := bst, vlist := vlist } =
    formatAll tail { bufState := writeAll bst ['*', '*'], vlist := vlist } :=
  formatAll_cons (by decide)

end

section

variable {flags : List Flag} {width : Width} {precision : Precision} {conv : Conversion} {args ts : List Arg}
  {text : List Char} {bst : BufferState} {f' : Formatter}

/-- The widths and precisions that the switch reads as they are meant. -/
def Regular (width : Width) (precision : Precision) : Prop :=
  width ≠ .star ∧ precision ≠ .star ∨ width = .star ∧ precision = .absent

lemma standard_conversion (h : (conversion flags width precision conv).standard args = some (text, ts)) :
    ∃ left w args1 p v, width.take args = some (left, w, args1) ∧ precision.take args1 = some (p, v :: ts) ∧
      conv.text ⟨decide (.minus ∈ flags) || left, decide (.zero ∈ flags), decide (.plus ∈ flags),
        decide (.space ∈ flags), w, p⟩ v = some text := by
  obtain ⟨⟨left, w, args1⟩, hwidth, h⟩ := Option.bind_eq_some_iff.mp h
  obtain ⟨⟨p, args2⟩, hprec, h⟩ := Option.bind_eq_some_iff.mp h
  cases args2 with
  | nil => cases h
  | cons v args2 =>
    obtain ⟨out, htext, h⟩ := Option.bind_eq_some_iff.mp h
    cases h
    exact ⟨left, w, args1, p, v, hwidth, hprec, htext⟩

variable {args1 : List Arg}

lemma Width.take_of_ne_star {left : Bool} {w : Nat} (hstar : width ≠ .star)
    (h : width.take args = some (left, w, args1)) :
    left = false ∧ w = width.value ∧ args1 = args ∧ width.value ≤ intMax := by
  have htake : width.take args = if width.value ≤ intMax then some (false, width.value, args) else none := by
    cases width with
    | absent | digits first others => rfl
    | star => exact absurd rfl hstar
  rw [htake] at h
  obtain ⟨hle, h⟩ := Option.ite_none_right_eq_some.mp h
  cases h
  exact ⟨rfl, rfl, rfl, hle⟩

lemma Precision.take_of_ne_star {p : Option Nat} (hstar : precision ≠ .star)
    (h : precision.take args = some (p, args1)) :
    p = precision.value ∧ args1 = args ∧ ∀ v, precision.value = some v → v ≤ intMax := by
  cases precision with
  | absent =>
    cases h
    exact ⟨rfl, rfl, nofun⟩
  | digits all =>
    obtain ⟨hle, h⟩ := Option.ite_none_right_eq_some.mp h
    cases h
    exact ⟨rfl, rfl, fun v hv => Option.some.inj hv ▸ hle⟩
  | star => exact absurd rfl hstar

lemma not_mem_of_zero (hflags : ∀ flag ∈ flags, flag = .zero) (flag : Flag) (hne : flag ≠ .zero) :
    decide (flag ∈ flags) = false :=
  decide_eq_false fun hmem => hne (hflags flag hmem)

lemma formatAll_regular (hflags : ∀ flag ∈ flags, flag = .zero) (hregu : Regular width precision)
    (h : (conversion flags width precision conv).standard args = some (text, ts)) (bst : BufferState)
    (tail : List Char) : ∃ out, (out = text ↔ WidthFits width precision args) ∧
    formatAll ((conversion flags width precision conv).render ++ tail) { bufState := bst, vlist := args } =
    formatAll tail { bufState := writeAll bst out, vlist := ts } := by
  obtain ⟨left, w, args1, p, v, hwidth, hprec, htext⟩ := standard_conversion h
  rw [not_mem_of_zero hflags .minus (by decide), not_mem_of_zero hflags .plus (by decide),
    not_mem_of_zero hflags .space (by decide), Bool.false_or] at htext
  rcases hregu with ⟨hw, hp⟩ | ⟨rfl, rfl⟩
  · obtain ⟨rfl, rfl, rfl, hwidthValue⟩ := Width.take_of_ne_star hw hwidth
    obtain ⟨rfl, rfl, hprecisionValue⟩ := Precision.take_of_ne_star hp hprec
    obtain ⟨spec, hspelled, hrun⟩ := formatAll_spelled bst ts hflags hw hp
      hwidthValue hprecisionValue rfl rfl rfl rfl rfl htext tail
    refine ⟨conv.written spec v, ?_, hrun⟩
    rw [written_eq_iff_plainFits hspelled htext]
    cases width <;> cases precision <;> first | exact absurd rfl hw | exact absurd rfl hp | exact Iff.rfl
  · cases hprec
    cases args with
    | nil => cases hwidth
    | cons first others =>
      cases first with
      | int arg =>
        obtain ⟨-, hwidth⟩ := Option.ite_none_right_eq_some.mp hwidth
        cases hwidth
        obtain ⟨spec, hstarred, hrun⟩ := formatAll_starred bst ts hflags rfl rfl rfl rfl rfl htext tail
        exact ⟨conv.written spec v, written_eq_iff_starFits hstarred htext, hrun⟩
      | _ => cases hwidth

lemma formatAll_irregular_ne (hflags : ∀ flag ∈ flags, flag = .zero) (hregu : ¬Regular width precision)
    (h : (conversion flags width precision conv).standard args = some (text, ts)) :
    formatAll (conversion flags width precision conv).render { bufState := bst, vlist := args } ≠ .ok (some f') := by
  obtain ⟨left, w, args1, p, v, hwidth, hprec, -⟩ := standard_conversion h
  obtain ⟨zeroes, hrun⟩ := formatAll_flags (width.render ++ (precision.render ++ [conv.char])) hflags
    (f := { bufState := bst, vlist := args, state := .percent }) rfl
  rw [Directive.render, formatAll_percent rfl, hrun]
  by_cases hw : width = .star
  · subst hw
    obtain ⟨others, hcons⟩ : ∃ others, precision.render = '.' :: others := by
      cases precision with
      | absent => exact absurd (.inr ⟨rfl, rfl⟩) hregu
      | digits all | star => exact ⟨_, rfl⟩
    cases args with
    | nil => cases hwidth
    | cons first args =>
      cases first with
      | int arg =>
        rw [hcons]
        exact (formatAll_star rfl rfl).trans_ne (formatAll_ne (by decide) (.inl rfl))
      | _ => cases hwidth
  · have hp : precision = .star := by
      by_contra hp
      exact hregu (.inl ⟨hw, hp⟩)
    subst hp
    obtain ⟨-, -, -, hwidthValue⟩ := Width.take_of_ne_star hw hwidth
    obtain ⟨s, hstate, hwidthRun⟩ := formatAll_widthOf ['*', conv.char] (c := '.') (by decide)
      (f := ⟨bst, args, .percent, { leadingZeroes := zeroes }⟩) rfl rfl hw hwidthValue
    refine hwidthRun.trans_ne ((formatAll_dot hstate).trans_ne ?_)
    exact formatAll_ne (by decide) (.inl rfl)

lemma inner_flags (flags : List Flag) : ∀ c ∈ flags.map Flag.char, Inner c := by
  intro c hc
  obtain ⟨flag, -, rfl⟩ := mem_map.mp hc
  cases flag with
  | minus | plus | space => exact .inl (by decide)
  | zero => exact .inr (by decide)

lemma inner_digitChars (digits : List (Fin 10)) : ∀ c ∈ digitChars digits, Inner c := by
  intro c hc
  obtain ⟨digit, -, rfl⟩ := mem_map.mp hc
  exact .inr (isDigit_digitChar digit)

lemma inner_width (width : Width) : ∀ c ∈ width.render, Inner c := by
  cases width with
  | absent => exact nofun
  | digits first others => exact inner_digitChars _
  | star => exact forall_mem_singleton.mpr (.inl (by decide))

lemma inner_precision (precision : Precision) : ∀ c ∈ precision.render, Inner c := by
  cases precision with
  | absent => exact nofun
  | digits all => exact forall_mem_cons.mpr ⟨.inl (by decide), inner_digitChars _⟩
  | star => exact forall_mem_cons.mpr ⟨.inl (by decide), forall_mem_singleton.mpr (.inl (by decide))⟩

lemma vlist_ne_of_flag (hflags : ¬∀ flag ∈ flags, flag = .zero)
    (h : (conversion flags width precision conv).standard args = some (text, ts))
    (hrun : formatAll (conversion flags width precision conv).render
      { bufState := bst, vlist := args } = .ok (some f')) : f'.vlist ≠ ts := by
  obtain ⟨left, w, args1, p, v, hwidth, hprec, -⟩ := standard_conversion h
  obtain ⟨xs, flag, ys, rfl, hfront, hflag⟩ : ∃ xs flag ys, flags = xs ++ flag :: ys ∧
      (∀ flag ∈ xs, flag = .zero) ∧ flag ≠ .zero := by
    clear h hrun
    induction flags with
    | nil => exact absurd nofun hflags
    | cons flag flags ih =>
      by_cases hzero : flag = .zero
      · have hoth : ¬∀ flag ∈ flags, flag = .zero := fun hoth => hflags (forall_mem_cons.mpr ⟨hzero, hoth⟩)
        obtain ⟨xs, u, ys, rfl, hfront, hu⟩ := ih hoth
        exact ⟨flag :: xs, u, ys, rfl, forall_mem_cons.mpr ⟨hzero, hfront⟩, hu⟩
      · exact ⟨[], flag, flags, rfl, nofun, hzero⟩
  have hrender : (conversion (xs ++ flag :: ys) width precision conv).render = '%' :: (xs.map Flag.char ++ flag.char ::
        ((ys.map Flag.char ++ (width.render ++ precision.render)) ++ [conv.char])) := by
    simp [Directive.render]
  obtain ⟨zeroes, hfrontRun⟩ := formatAll_flags (flag.char ::
    ((ys.map Flag.char ++ (width.render ++ precision.render)) ++ [conv.char])) hfront
    (f := { bufState := bst, vlist := args, state := .percent }) rfl
  rw [hrender, formatAll_percent rfl, hfrontRun] at hrun
  obtain ⟨next, hrun, hstate, hmod, hpop⟩ := formatAll_flag ⟨hflag, .inl rfl⟩ hrun
  have hinner : ∀ c ∈ ys.map Flag.char ++ (width.render ++ precision.render), Inner c := by
    intro c hc
    rcases mem_append.mp hc with hc | hc
    · exact inner_flags _ c hc
    · rcases mem_append.mp hc with hc | hc
      · exact inner_width width c hc
      · exact inner_precision precision c hc
  obtain ⟨hstar, hlen⟩ := length_of_dot _ _ le_rfl hinner (.inl hstate) hmod hrun
  rw [mem_append, mem_append, not_or, not_or] at hstar
  have hw : width ≠ .star := fun heq => hstar.2.1 (heq ▸ mem_singleton_self '*')
  have hp : precision ≠ .star := fun heq => hstar.2.2 (heq ▸ mem_cons_of_mem '.' mem_cons_self)
  obtain ⟨-, -, rfl, -⟩ := Width.take_of_ne_star hw hwidth
  obtain ⟨-, rfl, -⟩ := Precision.take_of_ne_star hp hprec
  intro heq
  rw [heq] at hlen
  change next.vlist.length + 1 = ts.length + 1 at hpop
  omega

lemma regular_of_widthFits (h : WidthFits width precision args) : Regular width precision := by
  unfold WidthFits at h
  split at h
  · exact .inr ⟨rfl, rfl⟩
  · exact h.elim
  · exact h.elim
  · refine .inl ⟨?_, ?_⟩
    · assumption
    · assumption
  · exact h.elim

end

variable {middle : List Arg}

section

variable {directive : Directive} {xs directives : List Directive} {args ts : List Arg}
  {text : List Char} {bst : BufferState} {f' : Formatter}

lemma formatAll_directive (h : directive.standard args = some (text, ts)) (hfits : directive.Fits args)
    (bst : BufferState) (tail : List Char) : formatAll (directive.render ++ tail) { bufState := bst, vlist := args } =
    formatAll tail { bufState := writeAll bst text, vlist := ts } := by
  cases directive with
  | literal c ordinary =>
    cases h
    exact formatAll_literal ordinary hfits
  | percent =>
    cases h
    exact (formatAll_percent rfl).trans (formatAll_cons (by decide))
  | conversion flags width precision conv =>
    obtain ⟨hflags, hwidth⟩ := hfits
    obtain ⟨out, htext, hrun⟩ := formatAll_regular hflags (regular_of_widthFits hwidth) h bst tail
    rwa [← htext.mpr hwidth]

lemma differs_of_not_fits (h : directive.standard args = some (text, ts)) (hfits : ¬directive.Fits args)
    (hrun : formatAll directive.render { bufState := bst, vlist := args } = .ok (some f')) :
    f'.vlist ≠ ts ∨ ∃ out, out ≠ text ∧ f'.bufState = writeAll bst out := by
  cases directive with
  | literal c ordinary =>
    cases h
    obtain rfl : c = '*' := not_not.mp hfits
    rw [Directive.render, formatAll_literal_star] at hrun
    cases hrun
    exact .inr ⟨_, by decide, rfl⟩
  | percent => exact absurd trivial hfits
  | conversion flags width precision conv =>
    by_cases hflags : ∀ flag ∈ flags, flag = .zero
    · by_cases hregu : Regular width precision
      · obtain ⟨out, htext, hout⟩ := formatAll_regular hflags hregu h bst []
        rw [append_nil, hrun] at hout
        cases hout
        exact .inr ⟨out, fun heq => hfits ⟨hflags, htext.mp heq⟩, rfl⟩
      · exact absurd hrun (formatAll_irregular_ne hflags hregu h)
    · exact .inl (vlist_ne_of_flag hflags h hrun)

lemma formatAll_render (h : standard directives args = some (text, ts)) (hfits : FitsAll directives args)
    (bst : BufferState) (tail : List Char) : formatAll (render directives ++ tail) { bufState := bst, vlist := args } =
    formatAll tail { bufState := writeAll bst text, vlist := ts } := by
  induction directives generalizing args text bst with
  | nil =>
    cases h
    rfl
  | cons directive directives ih =>
    obtain ⟨⟨first, middle⟩, hfirst, h⟩ := Option.bind_eq_some_iff.mp h
    obtain ⟨⟨others, left⟩, hoth, h⟩ := Option.bind_eq_some_iff.mp h
    cases h
    rw [render_cons, append_assoc, formatAll_directive hfirst hfits.1, ih hoth (hfits.2 _ hfirst), writeAll_append]

lemma FitsAll.of_append {ys : List Directive} (h : FitsAll (xs ++ ys) args) : FitsAll xs args := by
  induction xs generalizing args with
  | nil => trivial
  | cons directive xs ih => exact ⟨h.1, fun res hres => ih (h.2 res hres)⟩

lemma FitsAll.append (hfront : FitsAll xs args) (h : standard xs args = some (text, middle))
    (hfits : directive.Fits middle) : FitsAll (xs ++ [directive]) args := by
  induction xs generalizing args text with
  | nil =>
    cases h
    exact ⟨hfits, fun _ _ => trivial⟩
  | cons u xs ih =>
    obtain ⟨⟨first, between⟩, hfirst, h⟩ := Option.bind_eq_some_iff.mp h
    obtain ⟨⟨others, left⟩, hoth, h⟩ := Option.bind_eq_some_iff.mp h
    cases h
    refine ⟨hfront.1, fun res hres => ?_⟩
    cases hfirst.symm.trans hres
    exact ih (hfront.2 _ hfirst) hoth

end

variable {bufsz : Nat} {format text : List Char} {args ts : List Arg} {directives : List Directive}

lemma vsnprintf_eq (hrun : formatAll format { bufState := { bufsz := bufsz }, vlist := args } =
      .ok (some { bufState := writeAll { bufsz := bufsz } text, vlist := ts }))
    (hroom : text.length < bufsz) (hmax : text.length ≤ intMax) :
    vsnprintf bufsz format args = .ok (some ⟨text, text.length, ts⟩) := by
  have ho : (writeAll { bufsz := bufsz } text).offset = text.length := by
    rw [offset_writeAll]
    exact zero_add _
  have hempty : Complete { bufsz := bufsz } := rfl
  have hbuf : (writeAll { bufsz := bufsz } text).buffer = text := buffer_writeAll hempty (by rw [zero_add]; exact hroom)
  have hreturned : (BitVec.ofNat 32 text.length).toInt = text.length := by
    have hlt : text.length < 2147483648 := Nat.lt_succ_of_le hmax
    have hsame : (BitVec.ofNat 32 text.length).toNat = text.length := Nat.mod_eq_of_lt (by omega)
    rw [BitVec.toInt_eq_toNat_of_lt (by rw [hsame]; omega), hsame]
  unfold formatAll at hrun
  rw [vsnprintf, hrun, ok_bind]
  dsimp only
  rw [ho, if_neg (fun hnot => hnot.2 hroom), hbuf, hreturned]
  rfl

lemma vsnprintf_eq_ok {printed : Printed} (hpos : 0 < bufsz) (h : vsnprintf bufsz format args = .ok (some printed)) :
    ∃ f', formatAll format { bufState := { bufsz := bufsz }, vlist := args } = .ok (some f') ∧
    f'.bufState.offset < bufsz ∧ f'.bufState.buffer = printed.text ∧ f'.vlist = printed.left := by
  obtain ⟨res, hrun, h⟩ := of_bind h
  cases res with
  | none => cases h
  | some f' =>
    dsimp only at h
    split at h
    · cases h
    · rename_i hroom
      cases h
      have ho : f'.bufState.offset < bufsz := by
        by_contra hnot
        exact hroom ⟨hpos.ne', hnot⟩
      exact ⟨f', hrun, ho, rfl, rfl⟩

lemma fits_of_prints {xs : List Directive} {directive : Directive} {first second : List Char}
    (hfront : standard xs args = some (first, middle)) (hfits : FitsAll xs args)
    (hdirective : directive.standard middle = some (second, ts)) (hpos : first.length < bufsz)
    (hprints : vsnprintf bufsz (render (xs ++ [directive])) args =
      .ok (some ⟨first ++ second, (first ++ second).length, ts⟩)) : directive.Fits middle := by
  obtain ⟨f', hrun, ho, hbuf, hleft⟩ := vsnprintf_eq_ok (Nat.zero_lt_of_lt hpos) hprints
  rw [render, flatMap_append, ← render, ← render, formatAll_render hfront hfits, render_cons] at hrun
  change formatAll (directive.render ++ []) _ = _ at hrun
  rw [append_nil] at hrun
  by_contra hnot
  rcases differs_of_not_fits hdirective hnot hrun with hne | ⟨out, hne, hstate⟩
  · exact hne hleft
  · have hempty : Complete { bufsz := bufsz } := rfl
    rw [hstate, writeAll_append] at ho hbuf
    rw [offset_writeAll] at ho
    rw [buffer_writeAll hempty ho] at hbuf
    exact hne (append_cancel_left hbuf)

/-- Exactly the formats whose directives fit are printed as the standard prescribes. -/
theorem printsAll_iff_fitsAll (bufsz : Nat) (directives : List Directive) (args rest : List Arg) (text : List Char)
    (hstandard : standard directives args = some (text, rest)) (hroom : text.length < bufsz)
    (hmax : text.length ≤ intMax) : PrintsAll bufsz directives args ↔ FitsAll directives args := by
  constructor
  · intro hprints
    -- The directives in front of the next one fit, so the run reaches it with the standard's arguments.
    have hsuffix : ∀ ys xs first middle, directives = xs ++ ys → FitsAll xs args →
        standard xs args = some (first, middle) → FitsAll ys middle := by
      intro ys
      induction ys with
      | nil => exact fun _ _ _ _ _ _ => trivial
      | cons directive ys ih =>
        intro xs first middle hsplit hfront hfirst
        have hsplit' : directives = (xs ++ [directive]) ++ ys := by
          rw [hsplit, append_assoc]
          rfl
        obtain ⟨printed, left, hboth, hvsnprintf⟩ := hprints _ _ hsplit'
        obtain ⟨first', middle', second, hfirst', hsec, rfl⟩ := standard_append hboth
        rw [hfirst] at hfirst'
        cases hfirst'
        rw [standard_singleton] at hsec
        have hlen : first.length < bufsz := by
          rw [hsplit] at hstandard
          obtain ⟨first', middle', second', hfirst', -, rfl⟩ := standard_append hstandard
          rw [hfirst] at hfirst'
          cases hfirst'
          rw [length_append] at hroom
          omega
        have hfits := fits_of_prints hfirst hfront hsec hlen hvsnprintf
        refine ⟨hfits, fun res hres => ?_⟩
        cases hsec.symm.trans hres
        exact ih _ _ _ hsplit' (hfront.append hfirst hfits) hboth
    exact hsuffix directives [] [] args rfl trivial rfl
  · intro hfits xs ys hsplit
    rw [hsplit] at hstandard hfits
    obtain ⟨first, middle, second, hfirst, -, rfl⟩ := standard_append hstandard
    rw [length_append] at hroom hmax
    refine ⟨first, middle, hfirst, vsnprintf_eq ?_ (by omega) (by omega)⟩
    have hrun := formatAll_render hfirst hfits.of_append { bufsz := bufsz } []
    rwa [append_nil] at hrun

def plainDirectives : List Directive :=
  [.literal '(' (by decide), .conversion [] .absent .absent .decimal, .literal '|' (by decide),
    .conversion [] .absent .absent .hex, .literal '|' (by decide), .conversion [] .absent .absent .string,
    .literal ')' (by decide)]

theorem printsAll_plainDirectives :
    PrintsAll 64 plainDirectives [.int (-42), .unsignedInt 255, .string ['o', 'k']] := by
  refine (printsAll_iff_fitsAll 64 plainDirectives _ [] "(-42|ff|ok)".toList (by decide) (by decide) (by decide)).mpr ?_
  decide

/-- A number is padded as if it had no digits, a star is written twice, and the flag `-` takes the argument of
the conversion for its width. -/
theorem not_printsAll :
    standard [.conversion [] (.digits 4 []) .absent .decimal] [.int 42] = some ("   42".toList, []) ∧
      vsnprintf 64 "%5d".toList [.int 42] = .ok (some ⟨"     42".toList, 7, []⟩) ∧
      standard [.literal '*' (by decide)] [] = some (['*'], []) ∧
      vsnprintf 64 ['*'] [] = .ok (some ⟨['*', '*'], 2, []⟩) ∧
      standard [.conversion [.minus] .absent .absent .decimal] [.int 3, .int 43] = some (['3'], [.int 43]) ∧
      vsnprintf 64 "%-d".toList [.int 3, .int 43] = .ok (some ⟨"  +43".toList, 5, []⟩) := by
  exact ⟨by decide, rfl, rfl, rfl, by decide, rfl⟩

end UltraOS.LibC
