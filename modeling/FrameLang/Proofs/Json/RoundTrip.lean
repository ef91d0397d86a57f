import FrameLang.Json.Reader
import Mathlib.Data.Nat.Basic

/-!
# What is written can be read

Reading the text of a value gives the value back (`Json.read?_toText`), for every value
that a text can show at all: a string has to be text, and what stands after the point of
a number has to be digits (`Json.Spelled`).

## Strategy

Every reader is run on what was written followed by anything that may follow it.  Numbers
are the one kind of value that does not show its own end, so what follows a value must
not go on with a number (`Stops`); commas and closing brackets do not.

A string is read a character at a time, whichever of the three ways of writing it was
taken (`readPieces?_escapeChar`), and a number by its parts.  The budget is used up in
two units by at least one character, so twice the length of what was written is enough
(`readValue?_render`), and a reader starts with a little more than that.
-/

namespace FrameLang.Json

/-! ## Digits -/

/-- The digits of a natural number, the first one first. -/
def decimals (value : Nat) : List Nat :=
  if value < 10 then [value] else decimals (value / 10) ++ [value % 10]

theorem digits_eq_map_decimals (value : Nat) :
    digits value = (decimals value).map Nat.digitChar := by
  fun_induction decimals value with
  | case1 value small => simp [digits, Nat.toDigits_of_lt_base small]
  | case2 value large ih =>
      rw [digits, Nat.toDigits_eq_if (by decide), if_neg large]
      simpa [digits] using ih

theorem decimals_lt {value digit : Nat} (h : digit ∈ decimals value) : digit < 10 := by
  fun_induction decimals value with
  | case1 value small => simp_all
  | case2 value large ih =>
      rcases List.mem_append.mp h with h | h
      · exact ih h
      · simp only [List.mem_singleton] at h
        omega

theorem natOfDigits_decimals (value : Nat) : natOfDigits (decimals value) = value := by
  fun_induction decimals value with
  | case1 value small => simp [natOfDigits]
  | case2 value large ih =>
      rw [natOfDigits] at ih ⊢
      rw [List.foldl_append, ih]
      simp only [List.foldl_cons, List.foldl_nil]
      omega

/-- Only zero is written with a leading zero. -/
theorem decimals_eq_cons {value : Nat} (h : 0 < value) :
    ∃ first more, decimals value = (first + 1) :: more := by
  fun_induction decimals value with
  | case1 value small => exact ⟨value - 1, [], by simp; omega⟩
  | case2 value large ih =>
      obtain ⟨first, more, hmore⟩ := ih (by omega)
      exact ⟨first, more ++ [value % 10], by simp [hmore]⟩

theorem digitValue?_digitChar {digit : Nat} (h : digit < 10) :
    digitValue? digit.digitChar = some digit := by
  have : ∀ digit : Fin 10, digitValue? digit.val.digitChar = some digit.val := by decide
  exact this ⟨digit, h⟩

theorem digitChar_mem_digits {digit : Nat} (h : digit < 10) :
    digit.digitChar ∈ ['0', '1', '2', '3', '4', '5', '6', '7', '8', '9'] := by
  have : ∀ digit : Fin 10,
      digit.val.digitChar ∈ ['0', '1', '2', '3', '4', '5', '6', '7', '8', '9'] := by decide
  exact this ⟨digit, h⟩

/-- True of a text that does not start with a digit. -/
def NoDigit (rest : List Char) : Prop := ∀ c ∈ rest.head?, digitValue? c = none

theorem readDigits_append {written : List Nat} {rest : List Char}
    (hwritten : ∀ digit ∈ written, digit < 10) (hrest : NoDigit rest) :
    readDigits (written.map Nat.digitChar ++ rest) = (written, rest) := by
  induction written with
  | nil =>
      cases rest with
      | nil => rfl
      | cons c rest => simp [readDigits, hrest c (by simp)]
  | cons digit written ih =>
      have hmore := ih fun digit h => hwritten digit (List.mem_cons_of_mem _ h)
      simp [readDigits, digitValue?_digitChar (hwritten digit (by simp)), hmore]

theorem readDigits_digits (value : Nat) {rest : List Char} (hrest : NoDigit rest) :
    readDigits (digits value ++ rest) = (decimals value, rest) := by
  rw [digits_eq_map_decimals]
  exact readDigits_append (fun _ h => decimals_lt h) hrest

/-! ## Numbers -/

theorem readWhole?_digits (value : Nat) {rest : List Char} (hrest : NoDigit rest) :
    readWhole? (digits value ++ rest) = some (value, rest) := by
  have hdigits := readDigits_digits value hrest
  rcases Nat.eq_zero_or_pos value with rfl | hpos
  · have hzero : decimals 0 = [0] := by rw [decimals]; rfl
    rw [hzero] at hdigits
    simp [readWhole?, hdigits]
  · obtain ⟨first, more, hmore⟩ := decimals_eq_cons hpos
    have hvalue := natOfDigits_decimals value
    rw [hmore] at hdigits hvalue
    simp [readWhole?, hdigits, hvalue]

/-- The part of a number from its point on, as it is written. -/
def renderFraction (fraction : List Nat) : List Char :=
  if fraction.isEmpty then [] else '.' :: fraction.map Nat.digitChar

/-- The exponent of a number, as it is written. -/
def renderExponent : Option Int → List Char
  | none => []
  | some power => ['e'] ++ (if power < 0 then ['-'] else []) ++ digits power.natAbs

theorem renderNumeral_eq (numeral : Numeral) :
    renderNumeral numeral = (if numeral.negative then ['-'] else []) ++ digits numeral.whole ++
      renderFraction numeral.fraction ++ renderExponent numeral.exponent := by
  rcases numeral with ⟨negative, whole, fraction, exponent | power⟩ <;>
    simp [renderNumeral, renderFraction, renderExponent]

theorem readFraction?_render {fraction : List Nat} {rest : List Char}
    (hfraction : ∀ digit ∈ fraction, digit < 10) (hrest : NoDigit rest)
    (hpoint : rest.head? ≠ some '.') :
    readFraction? (renderFraction fraction ++ rest) = some (fraction, rest) := by
  cases fraction with
  | nil =>
      cases rest with
      | nil => rfl
      | cons c rest =>
          have : c ≠ '.' := by simpa using hpoint
          simp [renderFraction, readFraction?, this]
  | cons digit fraction =>
      have hdigits := readDigits_append hfraction hrest
      simp only [List.map_cons, List.cons_append] at hdigits
      simp [renderFraction, readFraction?, hdigits]

theorem readPower?_digits (negative : Bool) (value : Nat) {rest : List Char}
    (hrest : NoDigit rest) :
    readPower? negative (digits value ++ rest) =
      some (some (if negative then -(value : Int) else value), rest) := by
  have hdigits := readDigits_digits value hrest
  have hvalue := natOfDigits_decimals value
  cases hdecimals : decimals value with
  | nil =>
      rw [decimals] at hdecimals
      split at hdecimals <;> simp at hdecimals
  | cons digit more =>
      rw [hdecimals] at hdigits hvalue
      simp [readPower?, hdigits, hvalue]

/-- The digits of a number do not start with a sign. -/
theorem digits_eq_cons (value : Nat) :
    ∃ digit more, digits value = Nat.digitChar digit :: more ∧ digit < 10 := by
  cases hdecimals : decimals value with
  | nil =>
      rw [decimals] at hdecimals
      split at hdecimals <;> simp at hdecimals
  | cons digit more =>
      exact ⟨digit, more.map Nat.digitChar, by simp [digits_eq_map_decimals, hdecimals],
        decimals_lt (hdecimals ▸ List.mem_cons_self)⟩

theorem readExponent?_render (exponent : Option Int) {rest : List Char}
    (hrest : NoDigit rest) (hletter : ∀ c ∈ rest.head?, c ≠ 'e' ∧ c ≠ 'E') :
    readExponent? (renderExponent exponent ++ rest) = some (exponent, rest) := by
  rcases exponent with - | power
  · cases rest with
    | nil => rfl
    | cons c rest => simp [renderExponent, readExponent?, hletter c (by simp)]
  · by_cases hpower : power < 0
    · have hvalue : (-(power.natAbs : Int)) = power := by omega
      have hread := readPower?_digits true power.natAbs hrest
      rw [if_pos rfl, hvalue] at hread
      simpa [renderExponent, readExponent?, hpower] using hread
    · have hvalue : (power.natAbs : Int) = power := by omega
      have hread := readPower?_digits false power.natAbs hrest
      obtain ⟨digit, more, hdigits, hdigit⟩ := digits_eq_cons power.natAbs
      have hsign := digitChar_mem_digits hdigit
      rw [hdigits, List.cons_append] at hread
      simp only [renderExponent, hpower, hdigits, readExponent?, List.cons_append,
        List.nil_append, if_false, List.append_nil, if_true, decide_true, Bool.true_or]
      split
      · simp_all
      · simp_all
      · simpa [hvalue] using hread

/-- True of the texts that cannot go on with a number: those that end, or start with a
comma or a closing bracket. -/
def Stops (rest : List Char) : Prop := ∀ c ∈ rest.head?, c ∈ [',', ']', '}']

theorem Stops.noDigit {rest : List Char} (h : Stops rest) : NoDigit rest := by
  intro c hc
  have := h c hc
  simp only [List.mem_cons, List.not_mem_nil, or_false] at this
  rcases this with rfl | rfl | rfl <;> decide

theorem Stops.ne {rest : List Char} (h : Stops rest) {c : Char}
    (hc : c ∉ [',', ']', '}']) : rest.head? ≠ some c := fun hhead => hc (h c hhead)

theorem noDigit_renderExponent {exponent : Option Int} {rest : List Char}
    (h : Stops rest) : NoDigit (renderExponent exponent ++ rest) := by
  rcases exponent with - | power
  · exact h.noDigit
  · intro c hc
    obtain rfl : 'e' = c := by simpa [renderExponent] using hc
    decide

theorem noDigit_renderFraction {fraction : List Nat} {rest : List Char}
    (h : NoDigit rest) : NoDigit (renderFraction fraction ++ rest) := by
  cases fraction with
  | nil => exact h
  | cons digit fraction =>
      intro c hc
      obtain rfl : '.' = c := by simpa [renderFraction] using hc
      decide

/-- A number is read up to its end. -/
theorem readUnsigned?_render (numeral : Numeral) {rest : List Char}
    (hfraction : ∀ digit ∈ numeral.fraction, digit < 10) (hrest : Stops rest) :
    readUnsigned? numeral.negative (digits numeral.whole ++
        (renderFraction numeral.fraction ++ (renderExponent numeral.exponent ++ rest))) =
      some (numeral, rest) := by
  have hexponent : NoDigit (renderExponent numeral.exponent ++ rest) :=
    noDigit_renderExponent hrest
  have hpoint : (renderExponent numeral.exponent ++ rest).head? ≠ some '.' := by
    cases hcase : numeral.exponent with
    | none => simpa [renderExponent] using hrest.ne (c := '.') (by decide)
    | some power => simp [renderExponent]
  have hletter : ∀ c ∈ rest.head?, c ≠ 'e' ∧ c ≠ 'E' := by
    intro c hc
    have := hrest c hc
    constructor <;> rintro rfl <;> simp at this
  simp [readUnsigned?, readWhole?_digits _ (noDigit_renderFraction hexponent),
    readFraction?_render hfraction hexponent hpoint,
    readExponent?_render numeral.exponent hrest.noDigit hletter]

theorem readNumeral?_render (numeral : Numeral) {rest : List Char}
    (hfraction : ∀ digit ∈ numeral.fraction, digit < 10) (hrest : Stops rest) :
    readNumeral? (renderNumeral numeral ++ rest) = some (numeral, rest) := by
  have hread := readUnsigned?_render numeral hfraction hrest
  rw [renderNumeral_eq]
  cases hsign : numeral.negative with
  | true =>
      rw [hsign] at hread
      simpa [readNumeral?] using hread
  | false =>
      rw [hsign] at hread
      obtain ⟨digit, more, hdigits, hdigit⟩ := digits_eq_cons numeral.whole
      have hfirst := digitChar_mem_digits hdigit
      rw [hdigits, List.cons_append] at hread
      simp only [hdigits, Bool.false_eq_true, if_false, List.nil_append, List.cons_append,
        List.append_assoc, readNumeral?]
      split
      · simp_all
      · exact hread

/-! ## Strings -/

theorem hexValue?_digitChar {digit : Nat} (h : digit < 16) :
    hexValue? digit.digitChar = some digit := by
  have : ∀ digit : Fin 16, hexValue? digit.val.digitChar = some digit.val := by decide
  exact this ⟨digit, h⟩

/-- The four digits with which a control character is escaped name that character. -/
theorem readUnit?_controlDigits {c : Char} (h : c.toNat < 0x20) (rest : List Char) :
    readUnit? ('0' :: '0' :: (controlDigits c ++ rest)) = some (c.toNat, rest) := by
  have hzero : hexValue? '0' = some 0 := by decide
  have hhigh : hexValue? (c.toNat / 16).digitChar = some (c.toNat / 16) :=
    hexValue?_digitChar (by omega)
  have hlow : hexValue? (c.toNat % 16).digitChar = some (c.toNat % 16) :=
    hexValue?_digitChar (by omega)
  have hvalue : c.toNat / 16 * 16 + c.toNat % 16 = c.toNat := by omega
  simp [controlDigits, readUnit?, hzero, hhigh, hlow, hvalue]

theorem pieceOfUnit_toNat {c : Char} (h : c.toNat < 0x20) : pieceOfUnit c.toNat = .char c := by
  have hhigh : isHigh c.toNat = false := by
    simp only [isHigh, Bool.and_eq_false_iff, decide_eq_false_iff_not]
    omega
  have hlow : isLow c.toNat = false := by
    simp only [isLow, Bool.and_eq_false_iff, decide_eq_false_iff_not]
    omega
  simp [pieceOfUnit, hhigh, hlow, Char.ofNat_toNat]

/-- In whichever way a character is written, it is read as one element. -/
theorem readPieces?_escapeChar (budget : Nat) (c : Char) (rest : List Char) :
    readPieces? (budget + 1) (escapeChar c ++ rest) =
      (readPieces? budget rest).map fun read => (.char c :: read.1, read.2) := by
  fun_cases escapeChar c with
  | case8 notQuote notBackslash notB notF notN notR notT control =>
      have hunit := readUnit?_controlDigits control rest
      have hpiece := pieceOfUnit_toNat control
      cases hrest : readPieces? budget rest <;> simp [readPieces?, hunit, hpiece, hrest]
  | case9 notQuote notBackslash notB notF notN notR notT plain =>
      have hplain : ¬ c.toNat < 32 := plain
      cases hrest : readPieces? budget rest with
      | none =>
          simp [readPieces?, notBackslash, hrest]
      | some read =>
          simp [readPieces?, notBackslash, hrest]
          omega
  | _ =>
      subst_vars
      cases hrest : readPieces? budget rest <;> simp [readPieces?, shortEscape?, hrest]

theorem readPieces?_escape (text : List Char) (budget : Nat) (rest : List Char)
    (h : text.length < budget) :
    readPieces? budget (text.flatMap escapeChar ++ '"' :: rest) =
      some (text.map .char, rest) := by
  induction text generalizing budget with
  | nil =>
      obtain ⟨budget, rfl⟩ : ∃ less, budget = less + 1 := ⟨budget - 1, by simp at h; omega⟩
      simp [readPieces?]
  | cons c text ih =>
      obtain ⟨budget, rfl⟩ : ∃ less, budget = less + 1 := ⟨budget - 1, by simp at h; omega⟩
      have hrest := ih budget (by simpa using h)
      simp only [List.flatMap_cons, List.append_assoc]
      rw [readPieces?_escapeChar, hrest]
      rfl

theorem textOfPieces?_map_char (text : List Char) :
    textOfPieces? (text.map .char) = some text := by
  induction text with
  | nil => rfl
  | cons c text ih => simp [textOfPieces?, ih]

theorem length_le_length_escape (text : List Char) :
    text.length ≤ (text.flatMap escapeChar).length := by
  induction text with
  | nil => exact Nat.le_refl 0
  | cons c text ih =>
      have : 1 ≤ (escapeChar c).length := by
        fun_cases escapeChar c <;> simp
      simp only [List.length_cons, List.flatMap_cons, List.length_append]
      omega

/-- A string is read as the text that was written. -/
theorem readText?_quote (text : String) (rest : List Char) :
    readText? (text.toList.flatMap escapeChar ++ '"' :: rest) = some (some text, rest) := by
  have hlength := length_le_length_escape text.toList
  rw [readText?, readPieces?_escape _ _ _ (by simp only [List.length_append]; omega)]
  simp [textOfPieces?_map_char]

/-! ## Values -/

mutual

/-- True of the values that a text can show: strings are text, and what stands after the
point of a number is digits. -/
def Spelled : Json → Prop
  | .number numeral => ∀ digit ∈ numeral.fraction, digit < 10
  | .string text => text.isSome
  | .array items => SpelledItems items
  | .object members => SpelledMembers members
  | _ => True

/-- `Spelled`, for all items of an array. -/
def SpelledItems : List Json → Prop
  | [] => True
  | item :: rest => item.Spelled ∧ SpelledItems rest

/-- `Spelled`, for all members of an object, their names included. -/
def SpelledMembers : List (Option String × Json) → Prop
  | [] => True
  | (name, value) :: rest => name.isSome ∧ value.Spelled ∧ SpelledMembers rest

end

/-- The characters with which a value can start. -/
def openings : List Char :=
  ['n', 't', 'f', '"', '[', '{', '-', '0', '1', '2', '3', '4', '5', '6', '7', '8', '9']

theorem renderNumeral_eq_cons (numeral : Numeral) :
    ∃ c more, renderNumeral numeral = c :: more ∧
      c ∈ ['-', '0', '1', '2', '3', '4', '5', '6', '7', '8', '9'] := by
  rw [renderNumeral_eq]
  cases numeral.negative with
  | true => exact ⟨_, _, rfl, by decide⟩
  | false =>
      obtain ⟨digit, more, hdigits, hdigit⟩ := digits_eq_cons numeral.whole
      refine ⟨digit.digitChar, _, by simp [hdigits]; rfl, ?_⟩
      exact List.mem_cons_of_mem _ (digitChar_mem_digits hdigit)

theorem render_eq_cons (value : Json) :
    ∃ c more, value.render = c :: more ∧ c ∈ openings := by
  match value with
  | .null => exact ⟨_, _, rfl, by decide⟩
  | .bool true => exact ⟨_, _, rfl, by decide⟩
  | .bool false => exact ⟨_, _, rfl, by decide⟩
  | .number numeral =>
      obtain ⟨c, more, hmore, hc⟩ := renderNumeral_eq_cons numeral
      exact ⟨c, more, hmore, List.mem_append_right ['n', 't', 'f', '"', '[', '{'] hc⟩
  | .string text => exact ⟨_, _, rfl, by decide⟩
  | .array items => exact ⟨_, _, rfl, by decide⟩
  | .object members => exact ⟨_, _, rfl, by decide⟩

theorem skipBlanks_cons {c : Char} (h : c ∈ openings) (rest : List Char) :
    skipBlanks (c :: rest) = c :: rest := by
  have : ¬ (c = ' ' || c = '\t' || c = '\n' || c = '\x0d') := by
    revert h
    simp only [openings, List.mem_cons, List.not_mem_nil, or_false]
    rintro (rfl | rfl | rfl | rfl | rfl | rfl | rfl | rfl | rfl | rfl | rfl | rfl | rfl |
      rfl | rfl | rfl | rfl) <;> decide
  rw [skipBlanks, if_neg this]

theorem skipBlanks_render (value : Json) (rest : List Char) :
    skipBlanks (value.render ++ rest) = value.render ++ rest := by
  obtain ⟨c, more, hmore, hc⟩ := render_eq_cons value
  rw [hmore, List.cons_append, skipBlanks_cons hc]

theorem readValue?_numeral (numeral : Numeral) (budget : Nat) {rest : List Char}
    (hfraction : ∀ digit ∈ numeral.fraction, digit < 10) (hrest : Stops rest) :
    readValue? (budget + 1) (renderNumeral numeral ++ rest) = some (.number numeral, rest) := by
  have hread := readNumeral?_render numeral hfraction hrest
  have hskip := skipBlanks_render (.number numeral) rest
  obtain ⟨c, more, hmore, hc⟩ := renderNumeral_eq_cons numeral
  simp only [render] at hskip
  rw [hmore, List.cons_append] at hskip hread ⊢
  rw [readValue?, hskip]
  split <;> simp_all

/-- An array is opened by a bracket, and no item can be taken for the closing one. -/
theorem skipBlanks_renderItems (item : Json) (items : List Json) (rest : List Char) :
    ∃ c more, skipBlanks (renderItems (item :: items) ++ rest) = c :: more ∧ c ≠ ']' ∧
      c :: more = renderItems (item :: items) ++ rest := by
  obtain ⟨c, more, hmore, hc⟩ := render_eq_cons item
  have hne : c ≠ ']' := by rintro rfl; revert hc; decide
  cases items with
  | nil =>
      refine ⟨c, more ++ ']' :: rest, ?_, hne, by simp [renderItems, hmore]⟩
      simp [renderItems, hmore, skipBlanks_cons hc]
  | cons next items =>
      refine ⟨c, more ++ ',' :: renderItems (next :: items) ++ rest, ?_, hne,
        by simp [renderItems, hmore]⟩
      simp [renderItems, hmore, skipBlanks_cons hc]

theorem skipBlanks_renderMembers (member : Option String × Json)
    (members : List (Option String × Json)) (rest : List Char) :
    ∃ more, skipBlanks (renderMembers (member :: members) ++ rest) = '"' :: more ∧
      '"' :: more = renderMembers (member :: members) ++ rest := by
  obtain ⟨name, value⟩ := member
  cases members with
  | nil => exact ⟨_, by simp [renderMembers, quote, skipBlanks]; rfl,
      by simp [renderMembers, quote]⟩
  | cons next members => exact ⟨_, by simp [renderMembers, quote, skipBlanks]; rfl,
      by simp [renderMembers, quote]⟩

mutual

/-- A value is read up to its end. -/
theorem readValue?_render (value : Json) (budget : Nat) (rest : List Char)
    (hspelled : value.Spelled) (hrest : Stops rest) (hbudget : 2 * value.render.length ≤ budget) :
    readValue? budget (value.render ++ rest) = some (value, rest) := by
  obtain ⟨budget, rfl⟩ : ∃ less, budget = less + 1 := by
    obtain ⟨c, more, hmore, -⟩ := render_eq_cons value
    rw [hmore, List.length_cons] at hbudget
    exact ⟨budget - 1, by omega⟩
  match value with
  | .null => simp [render, readValue?, skipBlanks, afterWord?]
  | .bool true => simp [render, readValue?, skipBlanks, afterWord?]
  | .bool false => simp [render, readValue?, skipBlanks, afterWord?]
  | .number numeral => exact readValue?_numeral numeral budget hspelled hrest
  | .string none => simp [Spelled] at hspelled
  | .string (some text) =>
      simp [render, quote, readValue?, skipBlanks, readText?_quote]
  | .array [] => simp [render, renderItems, readValue?, skipBlanks]
  | .array (item :: items) =>
      have hitems := readItems?_render item items budget rest hspelled
        (by simp only [render, List.length_cons] at hbudget; omega)
      obtain ⟨c, more, hskip, hne, hmore⟩ := skipBlanks_renderItems item items rest
      rw [← hmore] at hitems
      simp only [render, List.cons_append, readValue?, skipBlanks_cons (c := '[') (by decide),
        hskip]
      split
      · rename_i heq
        cases heq
        exact absurd rfl hne
      · simp [hitems]
  | .object [] => simp [render, renderMembers, readValue?, skipBlanks]
  | .object (member :: members) =>
      have hmembers := readMembers?_render member members budget rest hspelled
        (by simp only [render, List.length_cons] at hbudget; omega)
      obtain ⟨more, hskip, hmore⟩ := skipBlanks_renderMembers member members rest
      rw [← hmore] at hmembers
      simp only [render, List.cons_append, readValue?, skipBlanks_cons (c := '{') (by decide),
        hskip]
      simp [hmembers]

/-- The items of an array are read up to its closing bracket. -/
theorem readItems?_render (item : Json) (items : List Json) (budget : Nat) (rest : List Char)
    (hspelled : SpelledItems (item :: items))
    (hbudget : 2 * (renderItems (item :: items)).length ≤ budget) :
    readItems? budget (renderItems (item :: items) ++ rest) = some (item :: items, rest) := by
  match items with
  | [] =>
      simp only [renderItems, List.length_append, List.length_cons, List.length_nil] at hbudget
      obtain ⟨budget, rfl⟩ : ∃ less, budget = less + 1 := ⟨budget - 1, by omega⟩
      have hitem := readValue?_render item budget (']' :: rest) hspelled.1
        (by simp [Stops]) (by omega)
      simp [renderItems, readItems?, hitem, skipBlanks]
  | next :: items =>
      simp only [renderItems, List.length_append, List.length_cons] at hbudget
      obtain ⟨budget, rfl⟩ : ∃ less, budget = less + 1 := ⟨budget - 1, by omega⟩
      have hitem := readValue?_render item budget
        (',' :: (renderItems (next :: items) ++ rest)) hspelled.1 (by simp [Stops]) (by omega)
      have hitems := readItems?_render next items budget rest hspelled.2 (by omega)
      simp [renderItems, readItems?, hitem, skipBlanks, hitems]

/-- The members of an object are read up to its closing brace. -/
theorem readMembers?_render (member : Option String × Json)
    (members : List (Option String × Json)) (budget : Nat) (rest : List Char)
    (hspelled : SpelledMembers (member :: members))
    (hbudget : 2 * (renderMembers (member :: members)).length ≤ budget) :
    readMembers? budget (renderMembers (member :: members) ++ rest) =
      some (member :: members, rest) := by
  obtain ⟨name | name, value⟩ := member
  · simp [SpelledMembers] at hspelled
  match members with
  | [] =>
      simp only [renderMembers, List.length_append, List.length_cons, List.length_nil] at hbudget
      obtain ⟨budget, rfl⟩ : ∃ less, budget = less + 1 := ⟨budget - 1, by omega⟩
      have hvalue := readValue?_render value budget ('}' :: rest) hspelled.2.1
        (by simp [Stops]) (by omega)
      simp [renderMembers, readMembers?, quote, skipBlanks, readText?_quote, hvalue]
  | next :: members =>
      simp only [renderMembers, List.length_append, List.length_cons] at hbudget
      obtain ⟨budget, rfl⟩ : ∃ less, budget = less + 1 := ⟨budget - 1, by omega⟩
      have hvalue := readValue?_render value budget
        (',' :: (renderMembers (next :: members) ++ rest)) hspelled.2.1 (by simp [Stops])
        (by omega)
      have hmembers := readMembers?_render next members budget rest hspelled.2.2 (by omega)
      simp [renderMembers, readMembers?, quote, skipBlanks, readText?_quote, hvalue, hmembers]

end

/-- The text of a value is read as that value. -/
theorem read?_toText {value : Json} (h : value.Spelled) : read? value.toText = some value := by
  have hread := readValue?_render value (2 * value.render.length + 2) [] h (by simp [Stops])
    (by omega)
  rw [List.append_nil] at hread
  simp [read?, readChars?, toText, hread, skipBlanks]

end FrameLang.Json
