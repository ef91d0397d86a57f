import FrameLang.Kinds
import FrameLang.Span
import FrameLang.Text.Split

/-!
# Expressions

The syntax of one unit, as a front end delivers it.  Every node carries a `Mark`: its
identity within the unit and its region of the text.  Everything that analysis learns
about a node is filed under its identity, so the identities of a unit have to be distinct
(`Expr.Distinct`).

A `Numbering` hands out marks to whoever builds an expression: identities count up from
zero, and a node that is built before its parent has the smaller one.
-/

namespace FrameLang

/-- The identity of a node within one unit. -/
structure NodeId where
  index : Nat
  deriving DecidableEq, Repr, Inhabited

/-- The identity and region of a node. -/
structure Mark where
  id : NodeId
  span : Span
  deriving DecidableEq, Repr, Inhabited

/-- A value written in the text.  A floating-point number is kept as its 64 bits. -/
inductive Literal where
  | bool (value : Bool)
  | float (bits : UInt64)
  | int (value : Int64)
  | str (value : String)
  | null
  | bin (bytes : List UInt8)
  deriving DecidableEq, Repr

/-- The kind of a literal. -/
def Literal.kind : Literal → Kind
  | bool _ => .bool
  | float _ => .float
  | int _ => .int
  | str _ => .str
  | null => .unit
  | bin _ => .bin

/-- An arithmetic operation. -/
inductive Operator where
  | add
  | subtract
  | multiply
  | divide
  | modulus
  deriving DecidableEq, Repr

/-- A named value inside a frame, a template or a `Let`. -/
structure Attribute (α : Type) where
  name : String
  span : Span
  value : α
  deriving Repr, Inhabited

/-- An attribute that is given when a template is instantiated.  It replaces what the
template says, or amends it: then its value can look up what it replaces under the name
`replaced?`. -/
structure Override (α : Type) where
  name : String
  span : Span
  replaced? : Option String
  value : α
  deriving Repr, Inhabited

/-- An expression. -/
inductive Expr where
  | literal (mark : Mark) (value : Literal)
  /-- A contextual lookup of a dotted name. -/
  | lookup (mark : Mark) (path : List String)
  /-- The primary value unless it is null, and the fallback otherwise. -/
  | coalesce (mark : Mark) (primary fallback : Expr)
  | conditional (mark : Mark) (condition consequent alternative : Expr)
  | arithmetic (mark : Mark) (operator : Operator) (left right : Expr)
  /-- A checked conversion to one of the given kinds. -/
  | enforce (mark : Mark) (value : Expr) (kinds : Kinds)
  | frame (mark : Mark) (attributes : List (Attribute Expr))
  | template (mark : Mark) (attributes : List (Attribute Expr))
  | instantiate (mark : Mark) (base : Expr) (overrides : List (Override Expr))
  | letIn (mark : Mark) (bindings : List (Attribute Expr)) (body : Expr)
  /-- The body, in which the given names cannot be looked up. -/
  | hide (mark : Mark) (names : List String) (body : Expr)
  deriving Repr

instance : Inhabited Expr := ⟨.literal default .null⟩

namespace Expr

/-- The identity and region of the outermost node. -/
def mark : Expr → Mark
  | literal mark _ | lookup mark _ | coalesce mark _ _ | conditional mark _ _ _
  | arithmetic mark _ _ _ | enforce mark _ _ | frame mark _ | template mark _
  | instantiate mark _ _ | letIn mark _ _ | hide mark _ _ => mark

/-- The identity of the outermost node. -/
def id (expr : Expr) : NodeId := expr.mark.id

/-- The region of the outermost node. -/
def span (expr : Expr) : Span := expr.mark.span

/-- The expression with another mark on its outermost node. -/
def withMark (mark : Mark) : Expr → Expr
  | literal _ value => literal mark value
  | lookup _ path => lookup mark path
  | coalesce _ primary fallback => coalesce mark primary fallback
  | conditional _ condition consequent alternative =>
      conditional mark condition consequent alternative
  | arithmetic _ operator left right => arithmetic mark operator left right
  | enforce _ value kinds => enforce mark value kinds
  | frame _ attributes => frame mark attributes
  | template _ attributes => template mark attributes
  | instantiate _ base overrides => instantiate mark base overrides
  | letIn _ bindings body => letIn mark bindings body
  | hide _ names body => hide mark names body

/-- The expression with another region on its outermost node. -/
def withSpan (expr : Expr) (span : Span) : Expr :=
  expr.withMark { expr.mark with span := span }

mutual

/-- Every node of an expression, each before the nodes inside it. -/
def nodes : Expr → List Expr
  | expr@(literal ..) | expr@(lookup ..) => [expr]
  | expr@(coalesce _ primary fallback) => expr :: (primary.nodes ++ fallback.nodes)
  | expr@(conditional _ condition consequent alternative) =>
      expr :: (condition.nodes ++ consequent.nodes ++ alternative.nodes)
  | expr@(arithmetic _ _ left right) => expr :: (left.nodes ++ right.nodes)
  | expr@(enforce _ value _) => expr :: value.nodes
  | expr@(frame _ attributes) => expr :: nodesOfAttributes attributes
  | expr@(template _ attributes) => expr :: nodesOfAttributes attributes
  | expr@(instantiate _ base overrides) => expr :: (base.nodes ++ nodesOfOverrides overrides)
  | expr@(letIn _ bindings body) => expr :: (nodesOfAttributes bindings ++ body.nodes)
  | expr@(hide _ _ body) => expr :: body.nodes

/-- Every node of the values of attributes. -/
def nodesOfAttributes : List (Attribute Expr) → List Expr
  | [] => []
  | ⟨_, _, value⟩ :: rest => value.nodes ++ nodesOfAttributes rest

/-- Every node of the values of overrides. -/
def nodesOfOverrides : List (Override Expr) → List Expr
  | [] => []
  | ⟨_, _, _, value⟩ :: rest => value.nodes ++ nodesOfOverrides rest

end

/-- True of the units whose nodes have distinct identities. -/
def Distinct (unit : Expr) : Prop := (unit.nodes.map Expr.id).Nodup

instance (unit : Expr) : Decidable unit.Distinct :=
  inferInstanceAs (Decidable (List.Nodup _))

end Expr

/-! ## Building expressions -/

/-- The attribute with a given name and value, in the region of its value. -/
def Attribute.of (name : String) (value : Expr) : Attribute Expr :=
  ⟨name, value.span, value⟩

/-- The override that replaces an attribute, in the region of its value. -/
def Override.replace (name : String) (value : Expr) : Override Expr :=
  ⟨name, value.span, none, value⟩

/-- The override that amends an attribute, in the region of its value. -/
def Override.amend (name replaced : String) (value : Expr) : Override Expr :=
  ⟨name, value.span, some replaced, value⟩

/-- The components of a dotted path; the empty text has none. -/
def pathOf (text : String) : List String :=
  if text.isEmpty then [] else Text.components text

/-- What it takes to mark the next node. -/
structure Numbering where
  /-- The number of nodes marked so far. -/
  next : Nat
  /-- The line on which nodes are placed. -/
  line : UInt32
  deriving Repr

namespace Numbering

/-- No node has been marked, and the next one goes on the first line. -/
def start : Numbering := ⟨0, 1⟩

/-- Place the nodes that follow on a given line. -/
def atLine (line : UInt32) : StateM Numbering Unit :=
  modify fun numbering => { numbering with line := line }

/-- The mark of the next node: a point whose column counts the nodes from one, on the
line chosen, or on the first line when line zero was chosen. -/
def mark : StateM Numbering Mark := do
  let numbering ← get
  set { numbering with next := numbering.next + 1 }
  pure ⟨⟨numbering.next⟩, .point (max numbering.line 1) (UInt32.ofNat (numbering.next + 1))⟩

end Numbering

end FrameLang
