import Mathlib.Data.List.Basic
import UltraOS.Userland.LibC.Printf.Standard

/-!
# The text of one conversion

What the functions that write numbers and strings put into the buffer, for a specification without signs and
spaces in front, and when it is the text that the standard prescribes: a width is only right where it
changes nothing, or where a negative argument asks for the left side.
-/

namespace UltraOS.LibC

open List Conversion List Nat

section

def Complete (state : BufferState) : Prop := state.buffer.length = state.offset

lemma writeAll_append (s : BufferState) (xs ys : List Char) : writeAll (writeAll s xs) ys = writeAll s (xs ++ ys) :=
  foldl_append.symm

lemma offset_writeAll (s : BufferState) (chars : List Char) : (writeAll s chars).offset = s.offset + chars.length := by
  induction chars generalizing s with
  | nil => rfl
  | cons c chars ih =>
    change (writeAll (writeOne s c) chars).offset = _
    rw [ih, writeOne, length_cons]
    dsimp only
    omega

variable {s : BufferState} {chars : List Char}

lemma buffer_writeAll (h : Complete s) (hroom : s.offset + chars.length < s.bufsz) :
    (writeAll s chars).buffer = s.buffer ++ chars := by
  induction chars generalizing s with
  | nil => exact (append_nil _).symm
  | cons c chars ih =>
    rw [length_cons] at hroom
    have hst : (writeOne s c).buffer = s.buffer ++ [c] := by
      rw [writeOne]
      exact if_pos (by omega)
    have hcomplete : Complete (writeOne s c) := by
      rw [Complete, hst, length_append, h]
      rfl
    change (writeAll (writeOne s c) chars).buffer = _
    rw [ih hcomplete, hst, append_assoc]
    · rfl
    · dsimp only [writeOne]
      omega

end

variable {b : Nat} {lowercase : Bool} {shape : Char → Char}

/-- The numbers that can be written with so many digits. -/
def capacity (base : Nat) : Nat → Nat
  | 0 => 1
  | places + 1 => base * capacity base places

lemma unsignedLoop_spec (hb : 1 < b) (hshape : ∀ digit < b, digitAt lowercase digit = shape (digitChar digit))
    (places x : Nat) (num : List Char) (hpos : 0 < x) (hx : x < capacity b places) :
    unsignedLoop b lowercase places x num = .ok ((toDigits b x).map shape ++ num) := by
  induction places generalizing x num with
  | zero => exact absurd hx (by rw [capacity]; omega)
  | succ places ih =>
    have hdiv : x / b < capacity b places := Nat.div_lt_of_lt_mul (by rwa [capacity] at hx)
    have hdigit := hshape (x % b) (mod_lt x (by omega))
    rw [unsignedLoop, if_neg hpos.ne', Nat.toDigits_eq_if hb]
    split
    · rename_i hsmall
      rw [div_eq_of_lt hsmall, hdigit, mod_eq_of_lt hsmall]
      cases places with
      | zero | succ places => rfl
    · rename_i hlarge
      have hdivPos : 0 < x / b := Nat.div_pos (not_lt.mp hlarge) (by omega)
      rw [ih _ _ hdivPos hdiv, hdigit, map_append, append_assoc]
      rfl

lemma signedLoop_eq (b places : Nat) (x : Int) (num : List Char) :
    signedLoop b places x num = unsignedLoop b false places x.natAbs num := by
  induction places generalizing x num with
  | zero =>
    rw [signedLoop, unsignedLoop]
    simp only [Int.natAbs_eq_zero]
  | succ places ih =>
    rw [signedLoop, unsignedLoop, ih, Int.natAbs_tdiv, Int.natAbs_tmod]
    simp only [Int.natAbs_eq_zero, Int.natAbs_natCast]
    rfl

lemma digitAt_decimal : ∀ digit < 10, digitAt false digit = digitChar digit := by decide

lemma unsignedLoop_eq (hb : 8 ≤ b) (hshape : ∀ digit < b, digitAt lowercase digit = shape (digitChar digit)) {x : Nat}
    (hx : x ≤ 4294967296) :
    unsignedLoop b lowercase reprBufferCapacity x (if x = 0 then [digitAt lowercase 0] else []) =
      .ok ((toDigits b x).map shape) := by
  have hcap : ∀ places, capacity 8 places ≤ capacity b places := by
    intro places
    induction places with
    | zero => exact le_rfl
    | succ places ih => exact Nat.mul_le_mul hb ih
  rcases Nat.eq_zero_or_pos x with rfl | hpos
  · rw [if_pos rfl, reprBufferCapacity, unsignedLoop, if_pos rfl, toDigits_of_lt_base (by omega), hshape 0 (by omega)]
    rfl
  · rw [if_neg hpos.ne', unsignedLoop_spec (by omega) hshape _ x [] hpos, append_nil]
    exact hx.trans_lt (lt_of_lt_of_le (by decide) (hcap reprBufferCapacity))

section

/-- A specification that asks for no sign and no space. -/
structure Plain (spec : FormatSpec) : Prop where
  sign : spec.prependSign = false
  space : spec.prependSpace = false

def writtenNumber (spec : FormatSpec) (numberRepr : List Char) (isNegative : Bool) : List Char :=
  let sign := if isNegative then ['-'] else []
  let zeroPad := if spec.hasPrecision then spec.precision - numberRepr.length else 0
  match spec.justify with
  | .left => replicate zeroPad '0' ++ sign ++ numberRepr ++
      replicate (spec.minFieldWidth - (zeroPad + sign.length + numberRepr.length)) ' '
  | .right => replicate (spec.minFieldWidth - sign.length)
      (if spec.leadingZeroes && !spec.hasPrecision then '0' else ' ') ++
        sign ++ replicate zeroPad '0' ++ numberRepr

variable {spec : FormatSpec}

lemma writeNumber_eq (h : Plain spec) (s : BufferState) (numberRepr : List Char) (isNegative : Bool) :
    writeNumber s spec numberRepr isNegative = writeAll s (writtenNumber spec numberRepr isNegative) := by
  obtain ⟨prec, justify, width, zeroes, space, sign, alternative, hasPrecision, specifier, modifier⟩ := spec
  obtain ⟨rfl, rfl⟩ := h
  cases justify <;> cases isNegative <;> cases hasPrecision <;> cases zeroes <;> rfl

def Conversion.written (spec : FormatSpec) : Conversion → Arg → List Char
  | .decimal, .int x => if spec.hasPrecision ∧ spec.precision = 0 ∧ x.toInt = 0 then []
      else writtenNumber spec (toDigits 10 x.toInt.natAbs) (x.toInt < 0)
  | .integer, .int x => if spec.hasPrecision ∧ spec.precision = 0 ∧ x.toInt = 0 then []
      else writtenNumber spec (toDigits 10 x.toInt.natAbs) (x.toInt < 0)
  | .unsigned, .unsignedInt x => writtenNumber spec (toDigits 10 x.toNat) false
  | .hex, .unsignedInt x => writtenNumber spec (toDigits 16 x.toNat) false
  | .upperHex, .unsignedInt x => writtenNumber spec (upperDigits x.toNat) false
  | .octal, .unsignedInt x => writtenNumber spec (toDigits 8 x.toNat) false
  | .string, .string str => if spec.precision ≠ 0 then str.take spec.precision else str
  | _, _ => []

lemma writeInt_eq (h : Plain spec) (s : BufferState) (x : BitVec 32) :
    writeInt s spec x.toInt = .ok (writeAll s (if spec.hasPrecision ∧ spec.precision = 0 ∧
      x.toInt = 0 then [] else writtenNumber spec (toDigits 10 x.toInt.natAbs) (x.toInt < 0))) := by
  rw [writeInt]
  split
  · rfl
  · have hx : x.toInt.natAbs ≤ 4294967296 := by
      have hlt := BitVec.toInt_lt (x := x)
      have hle := BitVec.le_toInt (x := x)
      omega
    have hdigits : unsignedLoop 10 false reprBufferCapacity x.toInt.natAbs
        (if x.toInt.natAbs = 0 then [digitAt false 0] else []) =
          .ok ((toDigits 10 x.toInt.natAbs).map id) := unsignedLoop_eq (by decide) digitAt_decimal hx
    rw [map_id] at hdigits
    simp only [Int.natAbs_eq_zero] at hdigits
    rw [writeSignedIntegral, signedLoop_eq, hdigits, ok_bind, writeNumber_eq h]
    rfl

lemma writeUnsignedIntegral_eq (h : Plain spec) (s : BufferState) (hb : 8 ≤ b)
    (hshape : ∀ digit < b, digitAt lowercase digit = shape (digitChar digit)) (x : BitVec 32) :
    writeUnsignedIntegral s spec b lowercase x.toNat =
    .ok (writeAll s (writtenNumber spec ((toDigits b x.toNat).map shape) false)) := by
  have hx : x.toNat ≤ 4294967296 := x.isLt.le
  rw [writeUnsignedIntegral, unsignedLoop_eq hb hshape hx, ok_bind, writeNumber_eq h]
  rfl

end

variable {layout : Layout} {sign digits : List Char} {number : Nat}

lemma length_numberText : (numberText layout sign number digits).length =
    max layout.width (sign ++ withPrecision layout.precision number digits).length := by
  rw [numberText]
  split_ifs <;> simp only [length_append, length_replicate] <;> omega

lemma numberText_of_le (h : layout.width ≤ (sign ++ withPrecision layout.precision number digits).length) :
    numberText layout sign number digits = sign ++ withPrecision layout.precision number digits := by
  rw [numberText]
  simp only [Nat.sub_eq_zero_of_le h, replicate_zero, append_nil, nil_append, ite_self]

/-- On the right side the padding is right only if the sign alone fills the width. -/
lemma replicate_append_eq_numberText_iff {c : Char} (hpos : 0 < (withPrecision layout.precision number digits).length) :
    replicate (layout.width - sign.length) c ++ sign ++ withPrecision layout.precision number digits =
    numberText layout sign number digits ↔ layout.width ≤ sign.length := by
  constructor
  · intro heq
    have hlen := congrArg length heq
    rw [length_numberText] at hlen
    simp only [length_append, length_replicate] at hlen
    omega
  · intro hle
    rw [numberText_of_le (by rw [length_append]; omega), Nat.sub_eq_zero_of_le hle, replicate_zero, nil_append]

/-- What a width without `*` and a precision without `*` set up. -/
structure Spelled (spec : FormatSpec) (layout : Layout) : Prop where
  plain : Plain spec
  width : spec.minFieldWidth = layout.width
  right : spec.justify = .right
  hasPrecision : spec.hasPrecision = layout.precision.isSome
  precision : spec.precision = layout.precision.getD 0
  leftJustified : layout.leftJustified = false
  plus : layout.plus = false
  space : layout.space = false

/-- What a width with `*` sets up: the precision counts as zero. -/
structure Starred (spec : FormatSpec) (layout : Layout) (arg : Int) : Prop where
  plain : Plain spec
  width : spec.minFieldWidth = arg.natAbs
  justify : spec.justify = if arg < 0 then .left else .right
  hasPrecision : spec.hasPrecision = true
  precision : spec.precision = 0
  layoutWidth : layout.width = arg.natAbs
  leftJustified : layout.leftJustified = decide (arg < 0)
  layoutPrecision : layout.precision = none
  plus : layout.plus = false
  space : layout.space = false

lemma withPrecision_eq {spec : FormatSpec} (h : Spelled spec layout) (digits : List Char)
    (hnot : ¬(layout.precision = some 0 ∧ number = 0)) : withPrecision layout.precision number digits =
      replicate (if spec.hasPrecision then spec.precision - digits.length else 0) '0' ++ digits := by
  rw [h.hasPrecision, h.precision]
  cases hprec : layout.precision with
  | none => rfl
  | some prec =>
    rw [withPrecision, if_neg]
    · rfl
    · intro hboth
      rw [hprec, hboth.1] at hnot
      exact hnot ⟨rfl, hboth.2⟩

lemma writtenNumber_spelled {spec : FormatSpec} (h : Spelled spec layout) (isNegative : Bool)
    (hdigits : 0 < digits.length) (hnot : ¬(layout.precision = some 0 ∧ number = 0)) :
    writtenNumber spec digits isNegative = numberText layout (if isNegative then ['-'] else []) number digits ↔
      layout.width ≤ (if isNegative then ['-'] else []).length := by
  have hprec := withPrecision_eq h digits hnot
  rw [writtenNumber, h.right, h.width]
  dsimp only
  rw [append_assoc, ← hprec]
  refine replicate_append_eq_numberText_iff ?_
  rw [hprec, length_append]
  omega

variable {arg : Int}

lemma writtenNumber_starred {spec : FormatSpec} (h : Starred spec layout arg) (isNegative : Bool)
    (hdigits : 0 < digits.length) :
    writtenNumber spec digits isNegative = numberText layout (if isNegative then ['-'] else []) number digits ↔
      arg < 0 ∨ arg.natAbs ≤ (if isNegative then ['-'] else []).length := by
  have hpad : (if spec.hasPrecision then spec.precision - digits.length else 0) = 0 := by
    rw [h.hasPrecision, h.precision, if_pos rfl, Nat.zero_sub]
  have hall : withPrecision layout.precision number digits = digits := by
    rw [h.layoutPrecision]
    rfl
  rw [writtenNumber, hpad, h.justify, h.width, ← h.layoutWidth]
  by_cases hneg : arg < 0
  · rw [if_pos hneg]
    refine iff_of_true ?_ (.inl hneg)
    rw [numberText, h.leftJustified, decide_eq_true hneg, if_pos rfl, hall, replicate_zero,
      nil_append, zero_add, length_append]
  · rw [if_neg hneg]
    dsimp only
    rw [replicate_zero, append_nil]
    nth_rewrite 1 [← hall]
    rw [replicate_append_eq_numberText_iff (by rwa [hall])]
    exact ⟨.inr, fun hor => hor.resolve_left hneg⟩

/-- Where the text of an argument is right with a width and a precision that are spelled out. -/
def PlainFits (width : Nat) (precision : Option Nat) : Arg → Prop
  | .int x => if precision = some 0 ∧ x.toInt = 0 then width = 0 else width = 0 ∨ width = 1 ∧ x.toInt < 0
  | .unsignedInt x => ¬(precision = some 0 ∧ x.toNat = 0) ∧ width = 0
  | .string str =>
    match precision with
    | none => width ≤ str.length
    | some 0 => str = replicate width ' '
    | some (precision + 1) => width ≤ (str.take (precision + 1)).length
  | _ => False

/-- Where the text of an argument is right with a width that is an argument. -/
def StarFits (width : Int) : Arg → Prop
  | .int x => x.toInt ≠ 0 ∧ (width ≤ 0 ∨ width = 1 ∧ x.toInt < 0)
  | .unsignedInt _ => width ≤ 0
  | .string str => width.natAbs ≤ str.length
  | _ => False

instance decidablePlainFits (width : Nat) (precision : Option Nat) (value : Arg) :
    Decidable (PlainFits width precision value) := by
  unfold PlainFits
  split <;> first | infer_instance | split <;> infer_instance

instance decidableStarFits (width : Int) (value : Arg) : Decidable (StarFits width value) := by
  unfold StarFits
  split <;> infer_instance

lemma numberText_nothing (hprec : layout.precision = some 0) (hright : layout.leftJustified = false) :
    numberText layout [] 0 digits = replicate layout.width ' ' := by
  rw [numberText, hprec, hright, if_neg (by simp), if_neg (fun h => nomatch h.2), withPrecision, if_pos ⟨rfl, rfl⟩]
  exact append_nil _

lemma signText_eq (hplus : layout.plus = false) (hspace : layout.space = false) (x : Int) :
    signText layout x = if decide (x < 0) then ['-'] else [] := by
  rw [signText, hplus, hspace]
  simp only [Bool.false_eq_true, if_false, decide_eq_true_iff]

lemma le_length_sign_iff {width : Nat} (x : Int) :
    width ≤ (if decide (x < 0) then ['-'] else []).length ↔ width = 0 ∨ width = 1 ∧ x < 0 := by
  by_cases hneg : x < 0
  · rw [decide_eq_true hneg, if_pos rfl, length_singleton]
    omega
  · rw [decide_eq_false hneg, if_neg (by simp), length_nil]
    omega

variable {spec : FormatSpec} {text : List Char} (h : Starred spec layout arg)

lemma written_signed_iff (h : Spelled spec layout) (x : BitVec 32) : decimal.written spec (.int x) =
    numberText layout (signText layout x.toInt) x.toInt.natAbs (toDigits 10 x.toInt.natAbs) ↔
    PlainFits layout.width layout.precision (.int x) := by
  rw [written, PlainFits]
  generalize x.toInt = x
  have hzero : spec.hasPrecision ∧ spec.precision = 0 ∧ x = 0 ↔ layout.precision = some 0 ∧ x = 0 := by
    rw [h.hasPrecision, h.precision]
    cases layout.precision with
    | none | some prec => simp
  rw [signText_eq h.plus h.space]
  by_cases hboth : layout.precision = some 0 ∧ x = 0
  · rw [if_pos (hzero.mpr hboth), if_pos hboth, hboth.2]
    change [] = numberText layout [] 0 (toDigits 10 0) ↔ _
    rw [numberText_nothing hboth.1 h.leftJustified, eq_comm, replicate_eq_nil_iff]
  · rw [if_neg fun hnot => hboth (hzero.mp hnot), if_neg hboth,
      writtenNumber_spelled h _ length_toDigits_pos (by rwa [Int.natAbs_eq_zero]), le_length_sign_iff]

lemma written_unsigned_iff (h : Spelled spec layout) (x : BitVec 32) {digits : List Char}
    (hdigits : 0 < digits.length) : writtenNumber spec digits false =
    numberText layout [] x.toNat digits ↔ PlainFits layout.width layout.precision (.unsignedInt x) := by
  by_cases hboth : layout.precision = some 0 ∧ x.toNat = 0
  · refine iff_of_false (fun heq => ?_) fun hand => hand.1 hboth
    rw [hboth.2, numberText_nothing hboth.1 h.leftJustified, writtenNumber, h.right, h.width] at heq
    have hlen := congrArg length heq
    simp only [length_append, length_replicate, Bool.false_eq_true, if_false, length_nil] at hlen
    omega
  · have hiff : writtenNumber spec digits false = numberText layout [] x.toNat digits ↔ layout.width ≤ 0 :=
      writtenNumber_spelled h false hdigits hboth
    rw [hiff, le_zero]
    exact (and_iff_right hboth).symm

lemma replicate_append_eq_iff {padding : Nat} {str : List Char} : str = replicate padding ' ' ++ str ↔ padding = 0 := by
  constructor
  · intro heq
    have hlen := congrArg length heq
    rw [length_append, length_replicate] at hlen
    omega
  · intro hzero
    rw [hzero]
    rfl

lemma written_string_iff (h : Spelled spec layout) (str : List Char) :
    (if spec.precision ≠ 0 then str.take spec.precision else str) = stringText layout str ↔
      PlainFits layout.width layout.precision (.string str) := by
  rw [stringText, h.leftJustified, if_neg Bool.false_ne_true, h.precision]
  cases hprec : layout.precision with
  | none =>
    rw [if_neg (fun hne => hne rfl), replicate_append_eq_iff]
    exact Nat.sub_eq_zero_iff_le
  | some prec =>
    cases prec with
    | zero =>
      rw [if_neg (fun hne => hne rfl)]
      dsimp only
      rw [take_zero, append_nil, length_nil, Nat.sub_zero]
      exact Iff.rfl
    | succ prec =>
      rw [Option.getD_some, if_pos (succ_ne_zero prec), replicate_append_eq_iff]
      exact Nat.sub_eq_zero_iff_le

include h in
lemma starred_signed_iff (x : BitVec 32) : decimal.written spec (.int x) = numberText layout (signText layout x.toInt)
    x.toInt.natAbs (toDigits 10 x.toInt.natAbs) ↔ StarFits arg (.int x) := by
  rw [written, StarFits]
  generalize x.toInt = x
  by_cases hzero : x = 0
  · rw [if_pos ⟨h.hasPrecision, h.precision, hzero⟩]
    refine iff_of_false (fun heq => ?_) fun hand => hand.1 hzero
    have hlen := congrArg length heq
    have hdigits : 0 < (toDigits 10 x.natAbs).length := length_toDigits_pos
    rw [length_numberText, h.layoutPrecision, withPrecision, length_append, length_nil] at hlen
    omega
  · rw [if_neg fun hall => hzero hall.2.2, signText_eq h.plus h.space,
      writtenNumber_starred h _ length_toDigits_pos, le_length_sign_iff]
    omega

include h in
lemma starred_unsigned_iff (x : BitVec 32) {digits : List Char} (hdigits : 0 < digits.length) :
    writtenNumber spec digits false = numberText layout [] x.toNat digits ↔ StarFits arg (.unsignedInt x) := by
  have hiff : writtenNumber spec digits false = numberText layout [] x.toNat digits ↔
      arg < 0 ∨ arg.natAbs ≤ 0 := writtenNumber_starred h false hdigits
  rw [hiff, StarFits]
  omega

include h in
lemma starred_string_iff (str : List Char) : (if spec.precision ≠ 0 then str.take spec.precision else str) =
    stringText layout str ↔ arg.natAbs ≤ str.length := by
  have hlen : (stringText layout str).length = max arg.natAbs str.length := by
    rw [stringText, h.layoutPrecision, h.layoutWidth]
    dsimp only
    split_ifs <;> rw [length_append, length_replicate] <;> omega
  rw [h.precision, if_neg fun hne => hne rfl]
  constructor
  · intro heq
    rw [← heq] at hlen
    omega
  · intro hle
    rw [stringText, h.layoutPrecision, h.layoutWidth]
    rw [Nat.sub_eq_zero_of_le hle, replicate_zero, append_nil, nil_append, ite_self]

lemma length_upperDigits_pos (x : Nat) : 0 < (upperDigits x).length := by
  rw [upperDigits, length_map]
  exact length_toDigits_pos

variable {conv : Conversion} {v : Arg} (htext : conv.text layout v = some text)

include htext in
/-- A conversion is compared with the standard by the kind of its argument. -/
lemma written_eq_iff {fits : Arg → Prop} (hsigned : ∀ x, decimal.written spec (.int x) =
      numberText layout (signText layout x.toInt) x.toInt.natAbs (toDigits 10 x.toInt.natAbs) ↔ fits (.int x))
    (hunsigned : ∀ x {digits}, 0 < digits.length →
      (writtenNumber spec digits false = numberText layout [] x.toNat digits ↔ fits (.unsignedInt x)))
    (hstring : ∀ str, string.written spec (.string str) = stringText layout str ↔ fits (.string str)) :
    conv.written spec v = text ↔ fits v := by
  cases conv <;> cases v <;> try cases htext
  case decimal.int x => exact hsigned x
  case integer.int x => exact hsigned x
  case unsigned.unsignedInt x => exact hunsigned x length_toDigits_pos
  case hex.unsignedInt x => exact hunsigned x length_toDigits_pos
  case upperHex.unsignedInt x => exact hunsigned x (length_upperDigits_pos _)
  case octal.unsignedInt x => exact hunsigned x length_toDigits_pos
  case string.string str =>
    rw [Conversion.text] at htext
    split at htext
    · cases htext
    · cases htext
      exact hstring str

/-- A conversion writes the text of the standard exactly for the arguments that fit. -/
lemma written_eq_iff_plainFits (h : Spelled spec layout) (htext : conv.text layout v = some text) :
    conv.written spec v = text ↔ PlainFits layout.width layout.precision v :=
  written_eq_iff htext (written_signed_iff h) (written_unsigned_iff h) (written_string_iff h)

include h htext in
lemma written_eq_iff_starFits : conv.written spec v = text ↔ StarFits arg v :=
  written_eq_iff htext (starred_signed_iff h) (starred_unsigned_iff h) (starred_string_iff h)

end UltraOS.LibC
