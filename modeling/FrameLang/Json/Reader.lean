import FrameLang.Json

/-!
# Reading JSON

`Json.read?` accepts exactly the JSON texts: one value, with blanks allowed around every
token, and nothing after it.  Names of members may repeat, numbers may be of any size,
and an escape may name half of a surrogate pair; whether such a value can be used is for
`Json.sound` to say.

## Strategy

Every reader takes the characters that are left and gives back those it did not use.
The readers of values, items and members call each other with one unit less of a budget
that starts at twice the length of the text, and of two nested calls at least one uses up
a character, so that the budget never decides.
-/

namespace FrameLang.Json

/-- Drop the blanks in front of a token. -/
def skipBlanks : List Char → List Char
  | [] => []
  | c :: rest =>
      if c = ' ' || c = '\t' || c = '\n' || c = '\x0d' then skipBlanks rest else c :: rest

/-! ## Numbers -/

/-- The value of a decimal digit. -/
def digitValue? (c : Char) : Option Nat :=
  if '0' ≤ c ∧ c ≤ '9' then some (c.toNat - '0'.toNat) else none

/-- The digits in front, and what follows them. -/
def readDigits : List Char → List Nat × List Char
  | [] => ([], [])
  | c :: rest =>
      match digitValue? c with
      | some digit =>
          let more := readDigits rest
          (digit :: more.1, more.2)
      | none => ([], c :: rest)

/-- Digits read as one natural number. -/
def natOfDigits (digits : List Nat) : Nat :=
  digits.foldl (fun value digit => 10 * value + digit) 0

/-- The part before the point: a zero, or digits that do not start with one. -/
def readWhole? (input : List Char) : Option (Nat × List Char) :=
  match readDigits input with
  | ([], _) => none
  | ([0], rest) => some (0, rest)
  | (0 :: _ :: _, _) => none
  | (digits, rest) => some (natOfDigits digits, rest)

/-- The part after the point, which has at least one digit. -/
def readFraction? : List Char → Option (List Nat × List Char)
  | '.' :: rest =>
      match readDigits rest with
      | ([], _) => none
      | (digits, rest) => some (digits, rest)
  | input => some ([], input)

/-- The digits of an exponent, of which there is at least one. -/
def readPower? (negative : Bool) (input : List Char) : Option (Option Int × List Char) :=
  match readDigits input with
  | ([], _) => none
  | (digits, rest) =>
      let power : Int := natOfDigits digits
      some (some (if negative then -power else power), rest)

/-- The exponent, if there is one. -/
def readExponent? : List Char → Option (Option Int × List Char)
  | c :: rest =>
      if c = 'e' || c = 'E' then
        match rest with
        | '+' :: rest => readPower? false rest
        | '-' :: rest => readPower? true rest
        | rest => readPower? false rest
      else some (none, c :: rest)
  | [] => some (none, [])

/-- A number without its sign. -/
def readUnsigned? (negative : Bool) (input : List Char) : Option (Numeral × List Char) := do
  let (whole, rest) ← readWhole? input
  let (fraction, rest) ← readFraction? rest
  let (exponent, rest) ← readExponent? rest
  pure (⟨negative, whole, fraction, exponent⟩, rest)

/-- A number. -/
def readNumeral? : List Char → Option (Numeral × List Char)
  | '-' :: rest => readUnsigned? true rest
  | input => readUnsigned? false input

/-! ## Strings -/

/-- The value of a hexadecimal digit. -/
def hexValue? (c : Char) : Option Nat :=
  if '0' ≤ c ∧ c ≤ '9' then some (c.toNat - '0'.toNat)
  else if 'a' ≤ c ∧ c ≤ 'f' then some (c.toNat - 'a'.toNat + 10)
  else if 'A' ≤ c ∧ c ≤ 'F' then some (c.toNat - 'A'.toNat + 10)
  else none

/-- The code unit that four hexadecimal digits write. -/
def readUnit? : List Char → Option (Nat × List Char)
  | a :: b :: c :: d :: rest => do
      let a ← hexValue? a
      let b ← hexValue? b
      let c ← hexValue? c
      let d ← hexValue? d
      pure (((a * 16 + b) * 16 + c) * 16 + d, rest)
  | _ => none

/-- The character that the letter of a short escape stands for. -/
def shortEscape? (c : Char) : Option Char :=
  match c with
  | '"' => some '"'
  | '\\' => some '\\'
  | '/' => some '/'
  | 'b' => some '\x08'
  | 'f' => some '\x0c'
  | 'n' => some '\n'
  | 'r' => some '\x0d'
  | 't' => some '\t'
  | _ => none

/-- One element of a string: a character, or half of a surrogate pair. -/
inductive Piece where
  | char (c : Char)
  | half (codeUnit : Nat)
  deriving DecidableEq, Repr

/-- True of the code units that open a surrogate pair. -/
def isHigh (codeUnit : Nat) : Bool := 0xD800 ≤ codeUnit && codeUnit < 0xDC00

/-- True of the code units that close a surrogate pair. -/
def isLow (codeUnit : Nat) : Bool := 0xDC00 ≤ codeUnit && codeUnit < 0xE000

/-- The element that a code unit is when it stands alone. -/
def pieceOfUnit (codeUnit : Nat) : Piece :=
  if isHigh codeUnit || isLow codeUnit then .half codeUnit else .char (Char.ofNat codeUnit)

/-- The elements of a string up to its closing quotation mark, and what follows it.  The
budget is at least the number of characters. -/
def readPieces? : Nat → List Char → Option (List Piece × List Char)
  | 0, _ => none
  | budget + 1, input =>
      match input with
      | [] => none
      | '"' :: rest => some ([], rest)
      | '\\' :: 'u' :: rest => do
          let (codeUnit, rest) ← readUnit? rest
          let (pieces, rest) ← readPieces? budget rest
          pure (pieceOfUnit codeUnit :: pieces, rest)
      | '\\' :: c :: rest => do
          let c ← shortEscape? c
          let (pieces, rest) ← readPieces? budget rest
          pure (.char c :: pieces, rest)
      | c :: rest =>
          if c.toNat < 0x20 || c = '\\' then none
          else do
            let (pieces, rest) ← readPieces? budget rest
            pure (.char c :: pieces, rest)

/-- The text of a string: the two halves of a pair that stand together make one
character, and half a pair on its own makes no text at all. -/
def textOfPieces? : List Piece → Option (List Char)
  | [] => some []
  | .char c :: rest => (textOfPieces? rest).map (c :: ·)
  | .half high :: .half low :: rest =>
      if isHigh high && isLow low then
        (textOfPieces? rest).map
          (Char.ofNat (0x10000 + (high - 0xD800) * 0x400 + (low - 0xDC00)) :: ·)
      else none
  | .half _ :: _ => none

/-- A string after its opening quotation mark. -/
def readText? (input : List Char) : Option (Option String × List Char) := do
  let (pieces, rest) ← readPieces? (input.length + 1) input
  pure ((textOfPieces? pieces).map String.ofList, rest)

/-! ## Values -/

/-- What follows a given word, when the input starts with it. -/
def afterWord? : List Char → List Char → Option (List Char)
  | [], input => some input
  | _ :: _, [] => none
  | expected :: word, c :: rest => if c = expected then afterWord? word rest else none

mutual

/-- A value, with blanks before it. -/
def readValue? : Nat → List Char → Option (Json × List Char)
  | 0, _ => none
  | budget + 1, input =>
      match skipBlanks input with
      | [] => none
      | '"' :: rest => do
          let (text, rest) ← readText? rest
          pure (.string text, rest)
      | '[' :: rest =>
          match skipBlanks rest with
          | ']' :: rest => some (.array [], rest)
          | rest => do
              let (items, rest) ← readItems? budget rest
              pure (.array items, rest)
      | '{' :: rest =>
          match skipBlanks rest with
          | '}' :: rest => some (.object [], rest)
          | rest => do
              let (members, rest) ← readMembers? budget rest
              pure (.object members, rest)
      | 'n' :: rest => (afterWord? "ull".toList rest).map fun rest => (.null, rest)
      | 't' :: rest => (afterWord? "rue".toList rest).map fun rest => (.bool true, rest)
      | 'f' :: rest => (afterWord? "alse".toList rest).map fun rest => (.bool false, rest)
      | input => do
          let (numeral, rest) ← readNumeral? input
          pure (.number numeral, rest)

/-- The items of an array that has some, up to its closing bracket. -/
def readItems? : Nat → List Char → Option (List Json × List Char)
  | 0, _ => none
  | budget + 1, input => do
      let (item, rest) ← readValue? budget input
      match skipBlanks rest with
      | ',' :: rest => do
          let (items, rest) ← readItems? budget rest
          pure (item :: items, rest)
      | ']' :: rest => some ([item], rest)
      | _ => none

/-- The members of an object that has some, up to its closing brace. -/
def readMembers? : Nat → List Char → Option (List (Option String × Json) × List Char)
  | 0, _ => none
  | budget + 1, input =>
      match skipBlanks input with
      | '"' :: rest => do
          let (name, rest) ← readText? rest
          match skipBlanks rest with
          | ':' :: rest => do
              let (value, rest) ← readValue? budget rest
              match skipBlanks rest with
              | ',' :: rest => do
                  let (members, rest) ← readMembers? budget rest
                  pure ((name, value) :: members, rest)
              | '}' :: rest => some ([(name, value)], rest)
              | _ => none
          | _ => none
      | _ => none

end

/-- The value that a text is, when it is nothing but one JSON value. -/
def readChars? (input : List Char) : Option Json := do
  let (value, rest) ← readValue? (2 * input.length + 2) input
  match skipBlanks rest with
  | [] => some value
  | _ => none

/-- The value that a text is, when it is nothing but one JSON value. -/
def read? (input : String) : Option Json := readChars? input.toList

end FrameLang.Json
