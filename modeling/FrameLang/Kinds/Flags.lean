import FrameLang.Kinds
import FrameLang.Text.Blank
import FrameLang.Text.Split

/-!
# Sets of kinds as text

Where a set of kinds is written into a record, it is written as the flags of its members
in canonical order, with a bar between them; the empty set is the empty text.

Reading is more liberal: blanks may stand around every flag, flags may come in any order
and repeat, and a flag may be a hexadecimal number whose bits are the members.
-/

namespace FrameLang.Kinds

/-- The flags of the members, joined by bars. -/
def toFlags (kinds : Kinds) : String :=
  " | ".intercalate (kinds.toList.map Kind.flag)

/-- The value of a hexadecimal digit, in either case. -/
def hexDigit? (c : Char) : Option Nat :=
  if '0' ≤ c ∧ c ≤ '9' then some (c.toNat - '0'.toNat)
  else if 'a' ≤ c ∧ c ≤ 'f' then some (c.toNat - 'a'.toNat + 10)
  else if 'A' ≤ c ∧ c ≤ 'F' then some (c.toNat - 'A'.toNat + 10)
  else none

/-- The number that hexadecimal digits write, when it fits into eight bits. -/
def hexByte? (digits : List Char) : Option Nat :=
  digits.foldlM (fun value digit => do
    let next := value * 16 + (← hexDigit? digit)
    if next < 256 then some next else none) 0

/-- The set that a number of eight bits, written in hexadecimal, stands for.  A plus sign
may stand before the digits, of which there is at least one. -/
def ofHex? (digits : List Char) : Option Kinds :=
  let digits := match digits with
    | '+' :: rest => rest
    | digits => digits
  if digits.isEmpty then none
  else (hexByte? digits).map fun byte => ⟨BitVec.ofNat 8 byte⟩

/-- The set that one flag stands for: a kind, or `0x` and a number. -/
def ofFlag? (flag : List Char) : Option Kinds :=
  match flag with
  | '0' :: 'x' :: digits => ofHex? digits
  | flag =>
      (Kind.all.find? fun kind => kind.flag.toList = flag).map fun kind => {kind}

/-- The set that a text of flags stands for, if it is one. -/
def ofFlags? (text : String) : Option Kinds :=
  if (Text.trim text.toList).isEmpty then some ∅
  else
    (Text.splitOn '|' text.toList).foldlM
      (fun kinds flag => (ofFlag? (Text.trim flag)).map (kinds ∪ ·)) ∅

end FrameLang.Kinds
