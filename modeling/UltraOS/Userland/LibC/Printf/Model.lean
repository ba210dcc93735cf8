import UltraOS.Base.Fault

/-!
# vsnprintf

`Userland/LibC/stdio.c`: one switch over the characters of the format, whose cases for flags, `*` and `.` fall
through into each other. An argument has the type that the caller gave it; `va_arg` with another type, or with no
argument left, stops the model, and so do floating point numbers, wide characters and `%n`.
-/

namespace UltraOS.LibC

/-- `buffer_state`: the characters that are in the buffer and how many there should be. -/
structure BufferState where
  bufsz : Nat
  buffer : List Char := []
  offset : Nat := 0

def writeOne (state : BufferState) (c : Char) : BufferState :=
  { state with
    buffer := if state.offset < state.bufsz - 1 then state.buffer ++ [c] else state.buffer
    offset := state.offset + 1 }

def writeAll (state : BufferState) (chars : List Char) : BufferState := chars.foldl writeOne state

inductive Justify where
  | right
  | left
deriving DecidableEq

/-- `format_spec`, all zero at first. -/
structure FormatSpec where
  precision : Nat := 0
  justify : Justify := .right
  minFieldWidth : Nat := 0
  leadingZeroes : Bool := false
  prependSpace : Bool := false
  prependSign : Bool := false
  alternativeForm : Bool := false
  hasPrecision : Bool := false
  conversionSpecifier : Char := '\x00'
  lengthModifier : Option Char × Option Char := (none, none)

inductive Arg where
  | int (x : BitVec 32)
  | unsignedInt (x : BitVec 32)
  | long (x : BitVec 64)
  | unsignedLong (x : BitVec 64)
  | string (chars : List Char)
deriving DecidableEq

/-- A precision of zero is no limit. -/
def writeString (state : BufferState) (spec : FormatSpec) (str : List Char) : BufferState :=
  writeAll state (if spec.precision ≠ 0 then str.take spec.precision else str)

def signOf (spec : FormatSpec) (isNegative : Bool) : List Char :=
  if isNegative then ['-']
  else if spec.prependSign then ['+']
  else if spec.prependSpace then [' ']
  else []

def writeNumber (state : BufferState) (spec : FormatSpec) (numberRepr : List Char) (isNegative : Bool) : BufferState :=
  let spec := if spec.prependSign || isNegative then { spec with prependSpace := false } else spec
  let spec :=
    if spec.justify == .left || spec.hasPrecision then { spec with leadingZeroes := false } else spec
  let sign := signOf spec isNegative
  let zeroPad := if spec.hasPrecision then spec.precision - numberRepr.length else 0
  match spec.justify with
  | .left =>
    let totalWritten := zeroPad + sign.length + numberRepr.length
    writeAll state (List.replicate zeroPad '0' ++ sign ++ numberRepr ++
      List.replicate (spec.minFieldWidth - totalWritten) ' ')
  | .right =>
    -- the digits are not counted
    let totalToWrite := if isNegative || spec.prependSpace || spec.prependSign then 1 else 0
    writeAll state (List.replicate (spec.minFieldWidth - totalToWrite) (if spec.leadingZeroes then '0' else ' ') ++
      sign ++ List.replicate zeroPad '0' ++ numberRepr)

def reprBufferCapacity : Nat := 64

def characters : List Char := "0123456789ABCDEF".toList

def digitAt (lowercase : Bool) (rem : Nat) : Char :=
  let c := characters.getD rem '\x00'
  if lowercase then c.toLower else c

def signedLoop (base : Nat) : (places : Nat) → (x : Int) → (num : List Char) → Run (List Char)
  | 0, x, num => if x = 0 then .ok num else .error .badPointer
  | places + 1, x, num =>
    if x = 0 then .ok num
    else signedLoop base places (x.tdiv base) (digitAt false (x.tmod base).natAbs :: num)

def unsignedLoop (base : Nat) (lowercase : Bool) : (places x : Nat) → (num : List Char) → Run (List Char)
  | 0, x, num => if x = 0 then .ok num else .error .badPointer
  | places + 1, x, num =>
    if x = 0 then .ok num
    else unsignedLoop base lowercase places (x / base) (digitAt lowercase (x % base) :: num)

def writeSignedIntegral (state : BufferState) (spec : FormatSpec) (base : Nat) (x : Int) :
    Run BufferState := do
  let num ← signedLoop base reprBufferCapacity x (if x = 0 then [digitAt false 0] else [])
  return writeNumber state spec num (x < 0)

def writeUnsignedIntegral (state : BufferState) (spec : FormatSpec) (base : Nat) (lowercase : Bool)
    (x : Nat) : Run BufferState := do
  let num ← unsignedLoop base lowercase reprBufferCapacity x (if x = 0 then [digitAt lowercase 0] else [])
  return writeNumber state spec num false

def writeInt (state : BufferState) (spec : FormatSpec) (x : Int) : Run BufferState :=
  if spec.hasPrecision ∧ spec.precision = 0 ∧ x = 0 then .ok state
  else writeSignedIntegral state spec 10 x

def writeHex (state : BufferState) (spec : FormatSpec) (x : Nat) : Run BufferState :=
  writeUnsignedIntegral state spec 16 (spec.conversionSpecifier == 'x') x

def writeUnsigned (state : BufferState) (spec : FormatSpec) (x : Nat) : Run BufferState :=
  writeUnsignedIntegral state spec 10 false x

def writeOctal (state : BufferState) (spec : FormatSpec) (x : Nat) : Run BufferState :=
  writeUnsignedIntegral state spec 8 false x

def vaInt : List Arg → Run (BitVec 32 × List Arg)
  | .int x :: vlist => .ok (x, vlist)
  | _ => .error .badPointer

def vaUnsignedInt : List Arg → Run (BitVec 32 × List Arg)
  | .unsignedInt x :: vlist => .ok (x, vlist)
  | _ => .error .badPointer

def vaLong : List Arg → Run (BitVec 64 × List Arg)
  | .long x :: vlist => .ok (x, vlist)
  | _ => .error .badPointer

def vaUnsignedLong : List Arg → Run (BitVec 64 × List Arg)
  | .unsignedLong x :: vlist => .ok (x, vlist)
  | _ => .error .badPointer

def vaString : List Arg → Run (List Char × List Arg)
  | .string chars :: vlist => .ok (chars, vlist)
  | _ => .error .badPointer

/-- The argument of `d` and `i`, or nothing for a length modifier that they do not take. -/
def signedArg (modifier : Option Char × Option Char) (vlist : List Arg) : Run (Option (Int × List Arg)) := do
  match modifier with
  | (none, none) => let (x, vlist) ← vaInt vlist; return some (x.toInt, vlist)
  | (some 'h', none) => let (x, vlist) ← vaInt vlist; return some ((x.setWidth 16).toInt, vlist)
  | (some 'h', some 'h') => let (x, vlist) ← vaInt vlist; return some ((x.setWidth 8).toInt, vlist)
  | (some 'l', none) => let (x, vlist) ← vaLong vlist; return some (x.toInt, vlist)
  | (some 'l', some 'l') => let (x, vlist) ← vaLong vlist; return some (x.toInt, vlist)
  | (some 'j', none) => let (x, vlist) ← vaLong vlist; return some (x.toInt, vlist)
  | (some 'z', none) => let (x, vlist) ← vaUnsignedLong vlist; return some (x.toInt, vlist)
  | (some 't', none) => let (x, vlist) ← vaLong vlist; return some (x.toInt, vlist)
  | _ => return none

def unsignedArg (modifier : Option Char × Option Char) (vlist : List Arg) :
    Run (Option (Nat × List Arg)) := do
  match modifier with
  | (none, none) => let (x, vlist) ← vaUnsignedInt vlist; return some (x.toNat, vlist)
  | (some 'h', none) => let (x, vlist) ← vaUnsignedInt vlist; return some ((x.setWidth 16).toNat, vlist)
  | (some 'h', some 'h') => let (x, vlist) ← vaUnsignedInt vlist; return some ((x.setWidth 8).toNat, vlist)
  | (some 'l', none) => let (x, vlist) ← vaUnsignedLong vlist; return some (x.toNat, vlist)
  | (some 'l', some 'l') => let (x, vlist) ← vaUnsignedLong vlist; return some (x.toNat, vlist)
  | (some 'j', none) => let (x, vlist) ← vaUnsignedLong vlist; return some (x.toNat, vlist)
  | (some 'z', none) => let (x, vlist) ← vaUnsignedLong vlist; return some (x.toNat, vlist)
  | (some 't', none) => let (x, vlist) ← vaUnsignedLong vlist; return some (x.toNat, vlist)
  | _ => return none

inductive ParseState where
  | normal
  | percent
  | fieldWidth
  | precisionDot
  | precisionNumber
  | lengthModifier
deriving DecidableEq

structure Formatter where
  bufState : BufferState
  vlist : List Arg
  state : ParseState := .normal
  spec : FormatSpec := {}

def Formatter.write (f : Formatter) (c : Char) : Formatter := { f with bufState := writeOne f.bufState c }

def Formatter.converted (f : Formatter) (bufState : BufferState) (vlist : List Arg) : Formatter :=
  { f with bufState := bufState, vlist := vlist, spec := {} }

def dispatchSigned (f : Formatter) : Run Formatter := do
  match ← signedArg f.spec.lengthModifier f.vlist with
  | none => return f
  | some (x, vlist) => return f.converted (← writeInt f.bufState f.spec x) vlist

def dispatchUnsigned (f : Formatter) (converter : BufferState → FormatSpec → Nat → Run BufferState) :
    Run Formatter := do
  match ← unsignedArg f.spec.lengthModifier f.vlist with
  | none => return f
  | some (x, vlist) => return f.converted (← converter f.bufState f.spec x) vlist

def dispatchString (f : Formatter) : Run Formatter := do
  match f.spec.lengthModifier with
  | (none, none) =>
    let (str, vlist) ← vaString f.vlist
    return f.converted (writeString f.bufState f.spec str) vlist
  | (some 'l', none) => .error .badPointer
  | _ => return f

def dispatchChar (f : Formatter) : Run Formatter := do
  match f.spec.lengthModifier with
  | (none, none) =>
    let (x, vlist) ← vaInt f.vlist
    return f.converted (writeOne f.bufState (Char.ofNat (x.toNat % 256))) vlist
  | (some 'l', none) => .error .badPointer
  | _ => return f

def dispatchPointer (f : Formatter) : Run Formatter := do
  match f.spec.lengthModifier with
  | (none, none) =>
    let (x, vlist) ← vaUnsignedLong f.vlist
    return f.converted (← writeHex f.bufState f.spec x.toNat) vlist
  | _ => return f

def dispatchConversion (f : Formatter) : Run Formatter :=
  match f.spec.conversionSpecifier with
  | 'c' => dispatchChar f
  | 's' => dispatchString f
  | 'd' => dispatchSigned f
  | 'i' => dispatchSigned f
  | 'o' => dispatchUnsigned f writeOctal
  | 'x' => dispatchUnsigned f writeHex
  | 'X' => dispatchUnsigned f writeHex
  | 'u' => dispatchUnsigned f writeUnsigned
  | 'p' => dispatchPointer f
  | _ => .error .badPointer

def parseIntLoop (isNegative : Bool) :
    (str : List Char) → (result : Int) → (consumedAtLeastOne : Bool) → Option Int × List Char
  | [], result, consumedAtLeastOne => (if consumedAtLeastOne then some result else none, [])
  | c :: str, result, consumedAtLeastOne =>
    if !c.isDigit then (if consumedAtLeastOne then some result else none, c :: str)
    else if result = 0 ∧ c = '0' then parseIntLoop isNegative str result true
    else
      let digit : Int := if isNegative then -((c.toNat : Int) - 48) else (c.toNat : Int) - 48
      if result > 214748364 ∨ result = 214748364 ∧ digit > 7 then (none, str)
      else if result < -214748364 ∨ result = -214748364 ∧ digit < -8 then (none, str)
      else parseIntLoop isNegative str (result * 10 + digit) true

def parseInt : List Char → Option Int × List Char
  | '-' :: str => parseIntLoop true str 0 false
  | '+' :: str => parseIntLoop false str 0 false
  | str => parseIntLoop false str 0 false

def percentCase (f : Formatter) : Option Formatter :=
  match f.state with
  | .normal => some { f with state := .percent }
  | .percent => some { f.write '%' with state := .normal, spec := {} }
  | _ => none

def dotCase (c : Char) (f : Formatter) : Option Formatter :=
  match f.state with
  | .percent => some { f with state := .precisionDot, spec := { f.spec with hasPrecision := true } }
  | .fieldWidth => some { f with state := .precisionDot, spec := { f.spec with hasPrecision := true } }
  | .normal => some (f.write c)
  | _ => none

/-- `case '*'`, which goes on with the case of the dot. -/
def starCase (c : Char) (f : Formatter) : Run (Option Formatter) :=
  match f.state with
  | .percent => do
    let (arg, vlist) ← vaInt f.vlist
    let spec := if arg.toInt < 0 then { f.spec with justify := .left } else f.spec
    let spec := { spec with minFieldWidth := arg.toInt.natAbs }
    return dotCase c { f with state := .fieldWidth, vlist := vlist, spec := spec }
  | .precisionDot => do
    let (arg, vlist) ← vaInt f.vlist
    let spec := if arg.toInt ≥ 0 then { f.spec with precision := arg.toInt.toNat } else f.spec
    return dotCase c { f with state := .precisionNumber, vlist := vlist, spec := spec }
  | .normal => .ok (dotCase c (f.write c))
  | _ => .ok none

def applyFlag (c : Char) (f : Formatter) : Formatter :=
  if c = '-' then { f with spec := { f.spec with prependSign := true } }
  else if c = '+' then { f with spec := { f.spec with justify := .left } }
  else
    { f with
      state := .percent
      spec := { f.spec with
        prependSpace := f.spec.prependSpace || c == ' '
        alternativeForm := f.spec.alternativeForm || c == '#' } }

/-- The cases of `-`, `+`, ` ` and `#`, which go on with the case of the star. -/
def flagCase (c : Char) (f : Formatter) : Run (Option Formatter) :=
  match f.state with
  | .normal => .ok (some (f.write c))
  | .fieldWidth => .ok none
  | .lengthModifier => .ok none
  | _ =>
    let f := applyFlag c f
    starCase c { f with spec := { f.spec with prependSign := true } }

def digitCase (c : Char) (format : List Char) (f : Formatter) : Option (Formatter × List Char) :=
  match f.state with
  | .percent =>
    if c = '0' then some ({ f with spec := { f.spec with leadingZeroes := true } }, format)
    else
      match parseInt (c :: format) with
      | (some width, format) =>
        some ({ f with
          state := .fieldWidth, spec := { f.spec with minFieldWidth := width.toNat } }, format)
      | (none, _) => none
  | .precisionDot =>
    match parseInt (c :: format) with
    | (some precision, format) =>
      some ({ f with
        state := .precisionNumber, spec := { f.spec with precision := precision.toNat } }, format)
    | (none, _) => none
  | .normal => some (f.write c, format)
  | _ => none

def conversionCase (c : Char) (f : Formatter) : Run Formatter :=
  match f.state with
  | .normal => .ok (f.write c)
  | _ => dispatchConversion { f with state := .normal, spec := { f.spec with conversionSpecifier := c } }

def modifierCase (second : Char) (f : Formatter) : List Char → Formatter × List Char
  | [] => (f, [])
  | c :: format =>
    if c = second then
      ({ f with spec := { f.spec with lengthModifier := (f.spec.lengthModifier.1, some second) } }, format)
    else (f, c :: format)

def lengthCase (c : Char) (format : List Char) (f : Formatter) : Option (Formatter × List Char) :=
  match f.state with
  | .normal => some (f.write c, format)
  | .lengthModifier => none
  | _ =>
    let f := { f with
      state := .lengthModifier
      spec := { f.spec with lengthModifier := (some c, f.spec.lengthModifier.2) } }
    if c = 'h' then
      let (f, format) := modifierCase 'h' f format
      some (modifierCase 'l' f format)
    else if c = 'l' then some (modifierCase 'l' f format)
    else some (f, format)

def isFlag (c : Char) : Bool := c ∈ ['-', '+', ' ', '#']

def isConversion (c : Char) : Bool := c ∈ "csdioxXufFeEaAgGnp".toList

def isLengthModifier (c : Char) : Bool := c ∈ "hljztL".toList

/-- The switch over a character, with the characters behind it. The result is nothing where the function
returns -1. -/
def formatOne (c : Char) (format : List Char) (f : Formatter) : Run (Option (Formatter × List Char)) :=
  if c = '%' then .ok ((percentCase f).map (·, format))
  else if isFlag c then do return (← flagCase c f).map (·, format)
  else if c = '*' then do return (← starCase c f).map (·, format)
  else if c = '.' then .ok ((dotCase c f).map (·, format))
  else if c.isDigit then .ok (digitCase c format f)
  else if isConversion c then do return some (← conversionCase c f, format)
  else if isLengthModifier c then .ok (lengthCase c format f)
  else .ok (some (f.write c, format))

def formatLoop : (fuel : Nat) → (format : List Char) → Formatter → Run (Option Formatter)
  | 0, _, _ => .error .outOfFuel
  | _ + 1, [], f => .ok (some f)
  | fuel + 1, c :: format, f =>
    if c = '\x00' then .ok (some f)
    else do
      match ← formatOne c format f with
      | none => return none
      | some (f, format) => formatLoop fuel format f

/-- The text in the buffer, the number that is returned, and the arguments that were not taken. -/
structure Printed where
  text : List Char
  returned : Int
  left : List Arg

/-- The terminator is written behind the text, and behind the buffer if the text does not fit. -/
def vsnprintf (bufsz : Nat) (format : List Char) (vlist : List Arg) : Run (Option Printed) := do
  match ← formatLoop (format.length + 1) format { bufState := { bufsz := bufsz }, vlist := vlist } with
  | none => return none
  | some f =>
    if bufsz ≠ 0 ∧ ¬f.bufState.offset < bufsz then .error .badPointer
    else
      return some ⟨f.bufState.buffer, (BitVec.ofNat 32 f.bufState.offset).toInt, f.vlist⟩

end UltraOS.LibC
