import UltraOS.Userland.LibC.Printf.Model

/-!
# What the C standard prescribes

Formats as lists of directives, the characters that spell them, and the text that the standard prescribes
for them. There is no text where the standard leaves the behaviour undefined: an argument is missing or has
another type, a width or a precision is too large for an `int`, or the flag `0` stands in front of `s`.
-/

namespace UltraOS.LibC

open List

inductive Flag where
  | minus
  | plus
  | space
  | zero
deriving DecidableEq

def Flag.char : Flag → Char
  | .minus => '-'
  | .plus => '+'
  | .space => ' '
  | .zero => '0'

/-- A width does not begin with the digit zero, which is a flag. -/
inductive Width where
  | absent
  | digits (first : Fin 9) (others : List (Fin 10))
  | star
deriving DecidableEq

inductive Precision where
  | absent
  | digits (all : List (Fin 10))
  | star
deriving DecidableEq

inductive Conversion where
  | decimal
  | integer
  | unsigned
  | hex
  | upperHex
  | octal
  | string

def Conversion.char : Conversion → Char
  | .decimal => 'd'
  | .integer => 'i'
  | .unsigned => 'u'
  | .hex => 'x'
  | .upperHex => 'X'
  | .octal => 'o'
  | .string => 's'

inductive Directive where
  | literal (c : Char) (ordinary : c ≠ '%' ∧ c ≠ '\x00')
  | percent
  | conversion (flags : List Flag) (width : Width) (precision : Precision) (conv : Conversion)

def digitChars (digits : List (Fin 10)) : List Char := digits.map fun digit => Nat.digitChar digit.val

def widthDigits (first : Fin 9) (others : List (Fin 10)) : List (Fin 10) := first.succ :: others

def Width.render : Width → List Char
  | .absent => []
  | .digits first others => digitChars (widthDigits first others)
  | .star => ['*']

def Precision.render : Precision → List Char
  | .absent => []
  | .digits all => '.' :: digitChars all
  | .star => ['.', '*']

def Directive.render : Directive → List Char
  | .literal c _ => [c]
  | .percent => ['%', '%']
  | .conversion flags width precision conv =>
    '%' :: (flags.map Flag.char ++ (width.render ++ (precision.render ++ [conv.char])))

def render (directives : List Directive) : List Char := directives.flatMap Directive.render

def intMax : Nat := 2147483647

/-- The number that digits stand for, behind a number that was read already. -/
def valueFrom (value : Nat) (digits : List (Fin 10)) : Nat :=
  digits.foldl (fun value digit => value * 10 + digit.val) value

def Width.value : Width → Nat
  | .digits first others => valueFrom 0 (widthDigits first others)
  | _ => 0

def Precision.value : Precision → Option Nat
  | .digits all => some (valueFrom 0 all)
  | _ => none

structure Layout where
  leftJustified : Bool
  zeroPadded : Bool
  plus : Bool
  space : Bool
  width : Nat
  precision : Option Nat

/-- At least as many digits as the precision says, and none for a zero with the precision zero. -/
def withPrecision (precision : Option Nat) (number : Nat) (digits : List Char) : List Char :=
  match precision with
  | none => digits
  | some precision =>
    if precision = 0 ∧ number = 0 then [] else replicate (precision - digits.length) '0' ++ digits

def numberText (layout : Layout) (sign : List Char) (number : Nat) (digits : List Char) : List Char :=
  let digits := withPrecision layout.precision number digits
  let padding := layout.width - (sign ++ digits).length
  if layout.leftJustified then sign ++ digits ++ replicate padding ' '
  else if layout.zeroPadded ∧ layout.precision = none then sign ++ replicate padding '0' ++ digits
  else replicate padding ' ' ++ (sign ++ digits)

def stringText (layout : Layout) (str : List Char) : List Char :=
  let str := match layout.precision with
    | none => str
    | some precision => str.take precision
  if layout.leftJustified then str ++ replicate (layout.width - str.length) ' '
  else replicate (layout.width - str.length) ' ' ++ str

def signText (layout : Layout) (x : Int) : List Char :=
  if x < 0 then ['-'] else if layout.plus then ['+'] else if layout.space then [' '] else []

def upperDigits (number : Nat) : List Char := (Nat.toDigits 16 number).map Char.toUpper

def Conversion.text (layout : Layout) : Conversion → Arg → Option (List Char)
  | .decimal, .int x => some (numberText layout (signText layout x.toInt) x.toInt.natAbs
      (Nat.toDigits 10 x.toInt.natAbs))
  | .integer, .int x => some (numberText layout (signText layout x.toInt) x.toInt.natAbs
      (Nat.toDigits 10 x.toInt.natAbs))
  | .unsigned, .unsignedInt x => some (numberText layout [] x.toNat (Nat.toDigits 10 x.toNat))
  | .hex, .unsignedInt x => some (numberText layout [] x.toNat (Nat.toDigits 16 x.toNat))
  | .upperHex, .unsignedInt x => some (numberText layout [] x.toNat (upperDigits x.toNat))
  | .octal, .unsignedInt x => some (numberText layout [] x.toNat (Nat.toDigits 8 x.toNat))
  | .string, .string str => if layout.zeroPadded then none else some (stringText layout str)
  | _, _ => none

/-- The width, and whether it asks for the left side, with the arguments that remain. -/
def Width.take : Width → List Arg → Option (Bool × Nat × List Arg)
  | .star, .int x :: args =>
    if x.toInt.natAbs ≤ intMax then some (decide (x.toInt < 0), x.toInt.natAbs, args) else none
  | .star, _ => none
  | width, args => if width.value ≤ intMax then some (false, width.value, args) else none

def Precision.take : Precision → List Arg → Option (Option Nat × List Arg)
  | .star, .int x :: args => some (if x.toInt < 0 then none else some x.toInt.toNat, args)
  | .star, _ => none
  | .digits all, args => if valueFrom 0 all ≤ intMax then some (some (valueFrom 0 all), args) else none
  | .absent, args => some (none, args)

/-- The text of a directive and the arguments behind its own. -/
def Directive.standard : Directive → List Arg → Option (List Char × List Arg)
  | .literal c _, args => some ([c], args)
  | .percent, args => some (['%'], args)
  | .conversion flags width precision conv, args => do
    let (left, width, args) ← width.take args
    let (precision, args) ← precision.take args
    match args with
    | [] => none
    | value :: args =>
      let layout : Layout := {
        leftJustified := decide (.minus ∈ flags) || left
        zeroPadded := decide (.zero ∈ flags)
        plus := decide (.plus ∈ flags)
        space := decide (.space ∈ flags)
        width := width
        precision := precision }
      let text ← conv.text layout value
      return (text, args)

/-- The text of a format and the arguments that it does not take. -/
def standard : List Directive → List Arg → Option (List Char × List Arg)
  | [], args => some ([], args)
  | directive :: directives, args => do
    let (first, args) ← directive.standard args
    let (others, args) ← standard directives args
    return (first ++ others, args)

variable {xs ys : List Directive} {args ts : List Arg} {text : List Char}

lemma render_cons (directive : Directive) (directives : List Directive) :
    render (directive :: directives) = directive.render ++ render directives := flatMap_cons

lemma standard_append (h : standard (xs ++ ys) args = some (text, ts)) : ∃ first middle second, standard xs args =
    some (first, middle) ∧ standard ys middle = some (second, ts) ∧ text = first ++ second := by
  induction xs generalizing args text with
  | nil => exact ⟨[], args, text, rfl, h, rfl⟩
  | cons directive xs ih =>
    obtain ⟨⟨t, args1⟩, hfirst, h⟩ := Option.bind_eq_some_iff.mp h
    obtain ⟨⟨t', args2⟩, hoth, h⟩ := Option.bind_eq_some_iff.mp h
    cases h
    obtain ⟨first, middle, second, hfront, hback, rfl⟩ := ih hoth
    refine ⟨t ++ first, middle, second, ?_, hback, (append_assoc t first second).symm⟩
    rw [standard, hfirst]
    refine Option.bind_eq_some_iff.mpr ⟨(t, args1), rfl, ?_⟩
    exact Option.bind_eq_some_iff.mpr ⟨(first, middle), hfront, rfl⟩

lemma standard_singleton (directive : Directive) (args : List Arg) :
    standard [directive] args = directive.standard args := by
  rw [standard]
  cases directive.standard args with
  | none => rfl
  | some res =>
    obtain ⟨t, args⟩ := res
    change some (t ++ [], args) = _
    rw [append_nil]

end UltraOS.LibC
