import FrameLang.Scope.Session

/-!
# Demands

A demand says which kinds the value of a name has to have, and whether it is needed
unboxed.  It narrows what is known of the name as far as it agrees with it.  A demand
that has nothing in common with what is known is reported and leaves the known kinds as
they are.

Where a demand ends depends on the name.  A free, replaced or masked name settles it by
itself; a delegated name hands it on to its source; a bound name hands it on to its
definition, and then adds what the definition proved to what it knows.
-/

namespace FrameLang

/-- What a record makes of a demand. -/
inductive Answer where
  /-- The demand is settled, and these kinds are proven. -/
  | settled (proven : Kinds)
  /-- Nothing that is known agrees with the demand. -/
  | refused (known : Kinds)
  /-- The demand goes on to another name. -/
  | passOn (source : NameId)
  /-- The demand goes on to a definition. -/
  | define (node : NodeId)
  deriving DecidableEq, Repr

/-- What known kinds make of demanded ones. -/
def Answer.of (known demanded : Kinds) : Answer :=
  if known.meets demanded then settled (known ∩ demanded) else refused known

namespace Origin

/-- What is known after a demand. -/
def narrow (demanded : Kinds) : Origin → Origin
  | free known => free (known.narrow demanded)
  | replaced known => replaced (known.narrow demanded)
  | bound node known => bound node (known.narrow demanded)
  | masked source mask => masked source (mask.narrow demanded)
  | delegated source => delegated source
  | junk => junk

/-- What an origin makes of a demand. -/
def answer (demanded : Kinds) : Origin → Answer
  | free known | replaced known => .of known demanded
  | bound node _ => .define node
  | masked _ mask => .of mask demanded
  | delegated source => .passOn source
  | junk => .settled .any

/-- What is known after a definition has proven something. -/
def settle (proven : Kinds) : Origin → Origin
  | bound node known => bound node (known.narrow proven)
  | origin => origin

end Origin

namespace NameRecord

/-- The record after a demand; junk does not change. -/
def afterDemand (record : NameRecord) (demanded : Kinds) (unbox : Bool) : NameRecord :=
  if record.isJunk then record
  else
    { record with
      origin := record.origin.narrow demanded
      mustUnbox := record.mustUnbox || unbox }

/-- The record after its definition has proven something. -/
def afterProof (record : NameRecord) (proven : Kinds) : NameRecord :=
  { record with origin := record.origin.settle proven }

end NameRecord

namespace ScopeM

variable {σ : Type}

/-- Apply a demand to a name and, as far as it is handed on, to the names and definitions
behind it; the result is what they prove. -/
def follow (definer : Definer σ) (id : NameId) (demanded : Kinds) (unbox : Bool) :
    ScopeM σ Kinds := do
  let before ← tree
  let record := before.name id
  modifyTree fun tree => tree.modifyName id fun record => record.afterDemand demanded unbox
  match record.origin.answer demanded with
  | .settled proven => pure proven
  | .refused known => do
      report fun reporter =>
        reporter.nameConflict (before.spanOfName id) record.path known demanded
      pure known
  | .passOn source =>
      if _h : source.index < id.index then follow definer source demanded unbox
      else pure .any
  | .define node => do
      note (.defining node demanded unbox)
      let proven ← definer node demanded unbox
      modifyTree fun tree => tree.modifyName id fun record => record.afterProof proven
      pure proven
termination_by id.index

/-- Make a demand on a name; the result is what the name is proven to have. -/
def ensure (definer : Definer σ) (id : NameId) (demanded : Kinds) (unbox : Bool) :
    ScopeM σ Kinds := do
  note (.asked id demanded unbox)
  let proven ← follow definer id demanded unbox
  note (.answered id proven)
  pure proven

/-- Make a demand on the result of an arithmetic operation.  The first demand sets what is
known of it; every later one narrows the kinds, and the value stays needed unboxed only
while every demand needs it so. -/
def ensureIntrinsic (scope : ScopeId) (node : NodeId) (demanded : Kinds) (unbox : Bool)
    (span : Span) : ScopeM σ Kinds := do
  let entry := ((← tree).scope scope).intrinsics.find? node |>.getD ⟨demanded, unbox⟩
  let put (entry : Intrinsic) : ScopeM σ Unit :=
    modifyTree fun tree => tree.modifyScope scope fun scope =>
      { scope with intrinsics := scope.intrinsics.insert node entry }
  if entry.kinds.meets demanded then do
    put ⟨entry.kinds ∩ demanded, entry.mustUnbox && unbox⟩
    pure (entry.kinds ∩ demanded)
  else do
    put entry
    report fun reporter => reporter.expressionConflict span entry.kinds demanded
    pure entry.kinds

end ScopeM

end FrameLang
