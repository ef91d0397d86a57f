import FrameLang.Json.Numeral

/-!
# JSON values

`Json` is the tree that a JSON text stands for.  It keeps what a reader of records may
have to look at: the order and repetition of members, and the way a number is written,
since a record that asks for an integer refuses `1.0`.

`Json.render` writes a tree without blanks.  In strings it escapes the quotation mark,
the backslash and the characters below U+0020, and nothing else.

## Strategy

Both directions work on `List Char`.  A tree is *sound* (`Json.sound`) when a text can
hold it: all its strings are text, its numbers are finite, and it is not nested too
deeply.
-/

namespace FrameLang

/-- A JSON value.  The text of a string, or of a member's name, is absent when one of its
escapes names half of a surrogate pair: no text contains half a character. -/
inductive Json where
  | null
  | bool (value : Bool)
  | number (numeral : Numeral)
  | string (text : Option String)
  | array (items : List Json)
  | object (members : List (Option String × Json))
  deriving Repr

namespace Json

/-- A string value. -/
def text (value : String) : Json := .string (some value)

/-- A natural number. -/
def nat (value : Nat) : Json := .number (.ofNat value)

/-- An integer. -/
def int (value : Int) : Json := .number (.ofInt value)

/-- An object with the given members. -/
def record (members : List (String × Json)) : Json :=
  .object (members.map fun member => (some member.1, member.2))

/-! ## Soundness -/

mutual

/-- How many arrays and objects are open around the innermost value. -/
def depth : Json → Nat
  | .array items => depthOfItems items + 1
  | .object members => depthOfMembers members + 1
  | _ => 0

/-- The greatest depth among the items of an array. -/
def depthOfItems : List Json → Nat
  | [] => 0
  | item :: rest => max item.depth (depthOfItems rest)

/-- The greatest depth among the members of an object. -/
def depthOfMembers : List (Option String × Json) → Nat
  | [] => 0
  | (_, value) :: rest => max value.depth (depthOfMembers rest)

end

mutual

/-- True when all strings of a value are text and all its numbers are finite. -/
def whole : Json → Bool
  | .number numeral => numeral.finite
  | .string text => text.isSome
  | .array items => wholeItems items
  | .object members => wholeMembers members
  | _ => true

/-- `whole`, for all items of an array. -/
def wholeItems : List Json → Bool
  | [] => true
  | item :: rest => item.whole && wholeItems rest

/-- `whole`, for all members of an object, their names included. -/
def wholeMembers : List (Option String × Json) → Bool
  | [] => true
  | (name, value) :: rest => name.isSome && value.whole && wholeMembers rest

end

/-- The number of arrays and objects that may be open at once. -/
def maxDepth : Nat := 127

/-- True when a value can be kept inside `outer` arrays and objects: it is whole, and
not nested too deeply. -/
def sound (outer : Nat) (value : Json) : Bool :=
  value.whole && outer + value.depth ≤ maxDepth

/-! ## Writing -/

/-- The two hexadecimal digits of a character below U+0020. -/
def controlDigits (c : Char) : List Char :=
  [Nat.digitChar (c.toNat / 16), Nat.digitChar (c.toNat % 16)]

/-- A character as it is written inside a string. -/
def escapeChar (c : Char) : List Char :=
  if c = '"' then ['\\', '"']
  else if c = '\\' then ['\\', '\\']
  else if c = '\x08' then ['\\', 'b']
  else if c = '\x0c' then ['\\', 'f']
  else if c = '\n' then ['\\', 'n']
  else if c = '\x0d' then ['\\', 'r']
  else if c = '\t' then ['\\', 't']
  else if c.toNat < 0x20 then ['\\', 'u', '0', '0'] ++ controlDigits c
  else [c]

/-- A string with its quotation marks. -/
def quote (text : List Char) : List Char :=
  '"' :: text.flatMap escapeChar ++ ['"']

/-- The digits of a natural number. -/
def digits (value : Nat) : List Char := Nat.toDigits 10 value

/-- A number as it is written. -/
def renderNumeral (numeral : Numeral) : List Char :=
  (if numeral.negative then ['-'] else []) ++ digits numeral.whole ++
    (if numeral.fraction.isEmpty then [] else '.' :: numeral.fraction.map Nat.digitChar) ++
    match numeral.exponent with
    | none => []
    | some power => ['e'] ++ (if power < 0 then ['-'] else []) ++ digits power.natAbs

mutual

/-- A value as text, without blanks. -/
def render : Json → List Char
  | .null => "null".toList
  | .bool true => "true".toList
  | .bool false => "false".toList
  | .number numeral => renderNumeral numeral
  | .string text => quote (text.getD "").toList
  | .array items => '[' :: renderItems items
  | .object members => '{' :: renderMembers members

/-- The items of an array with the commas between them and the closing bracket. -/
def renderItems : List Json → List Char
  | [] => [']']
  | [item] => item.render ++ [']']
  | item :: next :: rest => item.render ++ ',' :: renderItems (next :: rest)

/-- The members of an object with the commas between them and the closing brace. -/
def renderMembers : List (Option String × Json) → List Char
  | [] => ['}']
  | [(name, value)] => quote (name.getD "").toList ++ ':' :: value.render ++ ['}']
  | (name, value) :: next :: rest =>
      quote (name.getD "").toList ++ ':' :: value.render ++ ',' :: renderMembers (next :: rest)

end

/-- A value as one line of text. -/
def toText (value : Json) : String := String.ofList value.render

end Json

end FrameLang
