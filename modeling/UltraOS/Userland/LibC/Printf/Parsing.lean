import UltraOS.Userland.LibC.Printf.Writing

/-!
# The way of a directive through the switch

Directives that the switch reads as they are meant leave it in its first state, with the text of the
conversion written and its arguments taken. The flags `-`, `+` and ` ` fall through to the case of the star
and take an argument for a width, a star as the precision ends the call, and so does a precision behind a
star as the width.
-/

namespace UltraOS.LibC

open List

section

variable {c : Char} {format ts : List Char} {f : Formatter}

lemma parseInt_of_isDigit (hc : c.isDigit = true) (str : List Char) :
    parseInt (c :: str) = parseIntLoop false (c :: str) 0 false := by
  unfold parseInt
  split
  · rename_i heq
    cases heq
    cases hc
  · rename_i heq
    cases heq
    cases hc
  · rfl

lemma parseIntLoop_rest {isNegative consumed : Bool} {str : List Char} {res v : Int}
    (h : parseIntLoop isNegative str res consumed = (some v, ts)) : ts = str.dropWhile Char.isDigit := by
  induction str generalizing res consumed with
  | nil => exact (congrArg Prod.snd h).symm
  | cons c str ih =>
    rw [parseIntLoop] at h
    cases hc : c.isDigit with
    | false =>
      rw [hc] at h
      rw [dropWhile_cons_of_neg (by simp [hc])]
      exact (congrArg Prod.snd h).symm
    | true =>
      rw [dropWhile_cons_of_pos hc]
      generalize (if isNegative then -((c.toNat : Int) - 48) else (c.toNat : Int) - 48) = digit at h
      simp only [hc, Bool.not_true, Bool.false_eq_true, if_false] at h
      split_ifs at h
      · exact ih h
      · cases h
      · cases h
      · exact ih h

lemma parseInt_rest (hc : c.isDigit = true) {str : List Char} {v : Int}
    (h : parseInt (c :: str) = (some v, ts)) : ts = str.dropWhile Char.isDigit := by
  rw [parseInt_of_isDigit hc] at h
  rw [parseIntLoop_rest h, dropWhile_cons_of_pos hc]

lemma length_modifierCase (second : Char) (f : Formatter) (format : List Char) :
    (modifierCase second f format).2.length ≤ format.length := by
  cases format with
  | nil => exact le_rfl
  | cons c format =>
    rw [modifierCase]
    split
    · exact Nat.le_succ _
    · exact le_rfl

variable {res : Formatter × List Char}

lemma length_digitCase (hc : c.isDigit = true) (h : digitCase c format f = some res) :
    res.2.length ≤ format.length := by
  have hrest {v ts} (hparse : parseInt (c :: format) = (some v, ts)) : ts.length ≤ format.length := by
    rw [parseInt_rest hc hparse]
    exact (dropWhile_sublist _).length_le
  unfold digitCase at h
  split at h
  · split_ifs at h
    · cases h
      exact le_rfl
    · split at h
      · cases h
        exact hrest ‹_›
      · cases h
  · split at h
    · cases h
      exact hrest ‹_›
    · cases h
  · cases h
    exact le_rfl
  · cases h

lemma length_lengthCase (h : lengthCase c format f = some res) : res.2.length ≤ format.length := by
  unfold lengthCase at h
  split at h
  · cases h
    exact le_rfl
  · cases h
  · dsimp only at h
    split_ifs at h
    · cases h
      exact le_trans (length_modifierCase ..) (length_modifierCase ..)
    · cases h
      exact length_modifierCase ..
    · cases h
      exact le_rfl

lemma length_of_map {o : Option Formatter} (h : o.map (·, format) = some res) : res.2.length ≤ format.length := by
  obtain ⟨_, _, rfl⟩ := Option.map_eq_some_iff.mp h
  exact le_rfl

lemma length_formatOne (h : formatOne c format f = .ok (some res)) : res.2.length ≤ format.length := by
  unfold formatOne at h
  split_ifs at h with _ _ _ _ hdigit
  · exact length_of_map (Except.ok.inj h)
  · obtain ⟨_, _, h⟩ := of_bind h
    exact length_of_map (Except.ok.inj h)
  · obtain ⟨_, _, h⟩ := of_bind h
    exact length_of_map (Except.ok.inj h)
  · exact length_of_map (Except.ok.inj h)
  · exact length_digitCase hdigit (Except.ok.inj h)
  · obtain ⟨_, _, h⟩ := of_bind h
    cases h
    exact le_rfl
  · exact length_lengthCase (Except.ok.inj h)
  · cases h
    exact le_rfl

lemma formatLoop_eq {n m : Nat} (hn : format.length < n) (hm : format.length < m) :
    formatLoop n format f = formatLoop m format f := by
  induction n generalizing m format f with
  | zero => exact absurd hn (not_lt_zero)
  | succ n ih =>
    cases m with
    | zero => exact absurd hm (not_lt_zero)
    | succ m =>
      cases format with
      | nil => rfl
      | cons c format =>
        rw [length_cons] at hn hm
        rw [formatLoop, formatLoop]
        split
        · rfl
        · refine bind_congr_ok fun res hone => ?_
          cases res with
          | none => rfl
          | some res =>
            have hlen := length_formatOne hone
            exact ih (by omega) (by omega)

def formatAll (format : List Char) (f : Formatter) : Run (Option Formatter) := formatLoop (format.length + 1) format f

def formatRest : Option (Formatter × List Char) → Run (Option Formatter)
  | none => .ok none
  | some (f, format) => formatAll format f

lemma formatAll_cons (hc : c ≠ '\x00') : formatAll (c :: format) f = formatOne c format f >>= formatRest := by
  rw [formatAll, length_cons, formatLoop, if_neg hc]
  refine bind_congr_ok fun res hone => ?_
  cases res with
  | none => rfl
  | some res =>
    have hlen := length_formatOne hone
    exact formatLoop_eq (by omega) (by omega)

end

lemma isDigit_digitChar (digit : Fin 10) : (Nat.digitChar digit.val).isDigit = true := by
  revert digit
  decide

lemma toNat_digitChar (digit : Fin 10) : (Nat.digitChar digit.val).toNat = 48 + digit.val := by
  revert digit
  decide

lemma digitChar_eq_zero_iff (digit : Fin 10) : Nat.digitChar digit.val = '0' ↔ digit.val = 0 := by
  revert digit
  decide

lemma le_valueFrom (v : Nat) (digits : List (Fin 10)) : v ≤ valueFrom v digits := by
  induction digits generalizing v with
  | nil => exact le_rfl
  | cons digit digits ih =>
    have hle := ih (v * 10 + digit.val)
    change v ≤ valueFrom (v * 10 + digit.val) digits
    omega

lemma parseIntLoop_digits {c : Char} (hc : c.isDigit = false) (tail : List Char) (digits : List (Fin 10))
    (v : Nat) (hv : valueFrom v digits ≤ intMax) (consumed : Bool) (hsome : consumed = true ∨ digits ≠ []) :
    parseIntLoop false (digitChars digits ++ c :: tail) v consumed =
    (some ((valueFrom v digits : Nat) : Int), c :: tail) := by
  induction digits generalizing v consumed with
  | nil =>
    have hconsumed := hsome.resolve_right fun hne => hne rfl
    change parseIntLoop false (c :: tail) v consumed = (some (v : Int), c :: tail)
    rw [parseIntLoop, hc, hconsumed]
    rfl
  | cons digit digits ih =>
    have hrest := ih (v * 10 + digit.val) hv true (.inl rfl)
    have hle := le_valueFrom (v * 10 + digit.val) digits
    have hbound : v * 10 + digit.val ≤ intMax := hle.trans hv
    change parseIntLoop false (Nat.digitChar digit.val :: (digitChars digits ++ c :: tail)) v consumed =
      (some ((valueFrom (v * 10 + digit.val) digits : Nat) : Int), c :: tail)
    rw [parseIntLoop, isDigit_digitChar digit, toNat_digitChar digit]
    simp only [Bool.not_true, Bool.false_eq_true, if_false, digitChar_eq_zero_iff]
    rw [intMax] at hbound
    split
    · rename_i hzero
      obtain ⟨hvalue0, hdigit0⟩ := hzero
      rw [Int.natCast_eq_zero.mp hvalue0, hdigit0] at hrest
      rwa [hvalue0, Int.natCast_eq_zero.mp hvalue0, hdigit0]
    · rw [if_neg (by omega), if_neg (by omega)]
      rwa [show ((v : Int) * 10 + (((48 + digit.val : Nat) : Int) - 48)) = ((v * 10 + digit.val : Nat) : Int) by omega]

lemma parseInt_digits {c : Char} (hc : c.isDigit = false) (tail : List Char) (digit : Fin 10)
    (digits : List (Fin 10)) (hv : valueFrom 0 (digit :: digits) ≤ intMax) :
    parseInt (Nat.digitChar digit.val :: (digitChars digits ++ c :: tail)) =
    (some ((valueFrom 0 (digit :: digits) : Nat) : Int), c :: tail) := by
  rw [parseInt_of_isDigit (isDigit_digitChar digit)]
  exact parseIntLoop_digits hc tail (digit :: digits) 0 hv false (.inr (cons_ne_nil _ _))

variable {tail : List Char} {f : Formatter}

lemma formatAll_percent (h : f.state = .normal) :
    formatAll ('%' :: tail) f = formatAll tail { f with state := .percent } := by
  obtain ⟨bst, vlist, s, spec⟩ := f
  obtain rfl : s = .normal := h
  exact formatAll_cons (by decide)

lemma formatAll_zero (h : f.state = .percent) :
    formatAll ('0' :: tail) f = formatAll tail { f with spec := { f.spec with leadingZeroes := true } } := by
  obtain ⟨bst, vlist, s, spec⟩ := f
  obtain rfl : s = .percent := h
  exact formatAll_cons (by decide)

lemma formatAll_dot (h : f.state = .percent ∨ f.state = .fieldWidth) : formatAll ('.' :: tail) f =
    formatAll tail { f with state := .precisionDot, spec := { f.spec with hasPrecision := true } } := by
  obtain ⟨bst, vlist, s, spec⟩ := f
  rcases h with h | h
  · obtain rfl : s = .percent := h
    exact formatAll_cons (by decide)
  · obtain rfl : s = .fieldWidth := h
    exact formatAll_cons (by decide)

variable {c : Char}

lemma formatOne_of_isDigit (hc : c.isDigit = true) (format : List Char) (f : Formatter) :
    formatOne c format f = .ok (digitCase c format f) := by
  have hne : ∀ u : Char, u.isDigit = false → c ≠ u := by
    intro u hu heq
    rw [heq, hu] at hc
    cases hc
  have hflag : isFlag c = false := by
    refine decide_eq_false fun hmem => ?_
    simp only [mem_cons, not_mem_nil, or_false] at hmem
    rcases hmem with heq | heq | heq | heq
    · exact hne '-' (by decide) heq
    · exact hne '+' (by decide) heq
    · exact hne ' ' (by decide) heq
    · exact hne '#' (by decide) heq
  rw [formatOne, if_neg (hne '%' (by decide)), hflag, if_neg (by simp),
    if_neg (hne '*' (by decide)), if_neg (hne '.' (by decide)), if_pos hc]

lemma formatAll_isDigit (hc : c.isDigit = true) : formatAll (c :: tail) f = formatRest (digitCase c tail f) := by
  rw [formatAll_cons, formatOne_of_isDigit hc, ok_bind]
  rintro rfl
  cases hc

lemma formatAll_width (hc : c.isDigit = false) (h : f.state = .percent) (first : Fin 9)
    (others : List (Fin 10)) (hv : valueFrom 0 (widthDigits first others) ≤ intMax) :
    formatAll (digitChars (widthDigits first others) ++ c :: tail) f = formatAll (c :: tail) { f with
        state := .fieldWidth
        spec := { f.spec with minFieldWidth := valueFrom 0 (widthDigits first others) } } := by
  have hnonzero : Nat.digitChar first.succ.val ≠ '0' := by
    rw [Ne, digitChar_eq_zero_iff]
    exact Nat.succ_ne_zero first.val
  change formatAll (Nat.digitChar first.succ.val :: (digitChars others ++ c :: tail)) f = _
  rw [formatAll_isDigit (isDigit_digitChar first.succ), digitCase, h]
  rw [if_neg hnonzero, parseInt_digits hc tail first.succ others hv]
  rfl

lemma formatAll_precision (hc : c.isDigit = false) (h : f.state = .precisionDot)
    (digit : Fin 10) (others : List (Fin 10)) (hv : valueFrom 0 (digit :: others) ≤ intMax) :
    formatAll (digitChars (digit :: others) ++ c :: tail) f = formatAll (c :: tail) { f with
        state := .precisionNumber
        spec := { f.spec with precision := valueFrom 0 (digit :: others) } } := by
  change formatAll (Nat.digitChar digit.val :: (digitChars others ++ c :: tail)) f = _
  rw [formatAll_isDigit (isDigit_digitChar digit), digitCase, h]
  rw [parseInt_digits hc tail digit others hv]
  rfl

lemma formatAll_conversion (conv : Conversion) (tail : List Char) (f : Formatter) :
    formatAll (conv.char :: tail) f = conversionCase conv.char f >>= formatAll tail := by
  have hchar : conv.char ≠ '\x00' := by cases conv <;> decide
  have hone : formatOne conv.char tail f = conversionCase conv.char f >>= fun f => .ok (some (f, tail)) := by
    cases conv <;> rfl
  rw [formatAll_cons hchar, hone]
  cases conversionCase conv.char f with
  | error e | ok f => rfl

lemma conversionCase_of_ne_normal (h : f.state ≠ .normal) : conversionCase c f =
    dispatchConversion { f with state := .normal, spec := { f.spec with conversionSpecifier := c } } := by
  unfold conversionCase
  split
  · rename_i hnormal
    exact absurd hnormal h
  · rfl

lemma conversionCase_eq {conv : Conversion} {v : Arg} {ts : List Arg} {layout : Layout} {text : List Char}
    (hstate : f.state ≠ .normal) (hplain : Plain f.spec) (hmod : f.spec.lengthModifier = (none, none))
    (hvlist : f.vlist = v :: ts) (htext : conv.text layout v = some text) : conversionCase conv.char f =
    .ok { bufState := writeAll f.bufState (conv.written f.spec v), vlist := ts } := by
  rw [conversionCase_of_ne_normal hstate]
  have hplain' : ∀ c, Plain { f.spec with conversionSpecifier := c } := fun c => ⟨hplain.sign, hplain.space⟩
  have hsigned : ∀ (c : Char) (x : BitVec 32), v = .int x →
      dispatchSigned { f with state := .normal, spec := { f.spec with conversionSpecifier := c } } = .ok {
        bufState := writeAll f.bufState (if f.spec.hasPrecision ∧ f.spec.precision = 0 ∧ x.toInt = 0 then []
          else writtenNumber f.spec (Nat.toDigits 10 x.toInt.natAbs) (x.toInt < 0)), vlist := ts } := by
    intro c x hx
    rw [dispatchSigned, hmod, hvlist, hx]
    exact bind_eq_ok.mpr ⟨_, rfl, bind_eq_ok.mpr ⟨_, writeInt_eq (hplain' c) f.bufState x, rfl⟩⟩
  have hunsigned : ∀ (c : Char) (x : BitVec 32) (b : Nat) (lowercase : Bool) (shape : Char → Char)
      (converter : BufferState → FormatSpec → Nat → Run BufferState), v = .unsignedInt x → 8 ≤ b →
      (∀ digit < b, digitAt lowercase digit = shape (Nat.digitChar digit)) →
      (∀ x, converter f.bufState { f.spec with conversionSpecifier := c } x =
        writeUnsignedIntegral f.bufState { f.spec with conversionSpecifier := c } b lowercase x) →
      dispatchUnsigned { f with state := .normal, spec := { f.spec with conversionSpecifier := c } }
        converter = .ok {
          bufState := writeAll f.bufState
            (writtenNumber f.spec ((Nat.toDigits b x.toNat).map shape) false), vlist := ts } := by
    intro c x b lowercase shape converter hx hb hshape hconverter
    rw [dispatchUnsigned, hmod, hvlist, hx]
    refine bind_eq_ok.mpr ⟨_, rfl, bind_eq_ok.mpr ⟨_, ?_, rfl⟩⟩
    rw [hconverter]
    exact writeUnsignedIntegral_eq (hplain' c) f.bufState hb hshape x
  cases conv <;> cases v <;> try cases htext
  case decimal.int x => exact hsigned 'd' x rfl
  case integer.int x => exact hsigned 'i' x rfl
  case unsigned.unsignedInt x =>
      have hrun := hunsigned 'u' x 10 false id writeUnsigned rfl (by decide) digitAt_decimal fun _ => rfl
      rwa [map_id] at hrun
  case hex.unsignedInt x =>
      have hrun := hunsigned 'x' x 16 true id writeHex rfl (by decide) (by decide) fun _ => rfl
      rwa [map_id] at hrun
  case upperHex.unsignedInt x =>
      exact hunsigned 'X' x 16 false Char.toUpper writeHex rfl (by decide) (by decide) fun _ => rfl
  case octal.unsignedInt x =>
      have hrun := hunsigned 'o' x 8 false id writeOctal rfl (by decide) (by decide) fun _ => rfl
      rwa [map_id] at hrun
  case string.string str =>
      change dispatchString _ = _
      rw [dispatchString, hmod, hvlist]
      rfl

end UltraOS.LibC
