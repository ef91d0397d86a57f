import FrameLang.Text.Letters

/-!
# Symbols

The components of a path that is looked up have to be symbols.  A symbol starts with a
lower case letter or a letter without case; after that it may have any letters that are
not modifiers, numbers and underscores.
-/

namespace FrameLang.Symbol

/-- What is wrong with a text that is not a symbol. -/
inductive Flaw where
  | empty
  | start (c : Char)
  | character (c : Char)
  deriving DecidableEq, Repr

/-- The wording of a flaw. -/
def Flaw.reason : Flaw → String
  | empty => "name is empty"
  | start c => s!"cannot start with “{c}”"
  | character c => s!"“{c}” is not a letter, digit or underscore"

/-- True of the characters that a symbol may have after the first. -/
def continues (c : Char) : Bool := c = '_' || Text.isWord c

/-- The first flaw of a text, if it is not a symbol. -/
def flaw? (text : String) : Option Flaw :=
  match text.toList with
  | [] => some .empty
  | first :: rest =>
      if Text.startsWord first then
        (rest.find? fun c => !continues c).map .character
      else some (.start first)

end FrameLang.Symbol
