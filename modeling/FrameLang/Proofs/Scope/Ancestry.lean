import FrameLang.Proofs.Scope.Narrowing

/-!
# The graph of names

Names refer to other names in two ways: what is inherited refers to what it is inherited
from, and a name refers to the names one component longer.  Whatever operations do, the
first sort of reference leads to earlier names and the second one to later names, each
between the scopes between which it should (`ScopeTree.Graded`).  So neither of them
leads on forever, and whatever follows them comes to an end on every name
(`Session.names_graded`).

## Strategy

The functions that follow references look at positions as they go, and would come to an
end in any tree at all.  What is to be shown is that they need not look.  So each of them
is stated once more without a look at positions (`ScopeTree.possibleWithin` and so on), as
a recursion that is given a number of steps and has no result if they are not enough.  On a
tree whose references are in order no more steps are needed than there are names, and the
result is that of the function that does look (`Session.Ends`).  That a look is needed
otherwise can be seen at a name that is inherited from itself
(`ScopeTree.possibleWithin_of_circular`).
-/

namespace FrameLang

namespace ScopeTree

variable {tree : ScopeTree}

/-! ## References in order -/

/-- The references between names, and those of the tables of scopes, are in order. -/
structure Graded (tree : ScopeTree) : Prop where
  /-- What is inherited comes from an earlier name with the same path in the scope directly
  outside.  It is delegated in a scope that delegates, and masked in any other. -/
  source : ∀ id source, (tree.name id).origin.source? = some source →
    source.index < id.index ∧ tree.isJunk source = false ∧
      (tree.name source).path = (tree.name id).path ∧
      ∃ here outer, (tree.name id).scope? = some here ∧
        (tree.scope here).parent? = some outer ∧ (tree.name source).scope? = some outer ∧
        ((tree.name id).origin = .delegated source ↔ (tree.scope here).delegates = true)
  /-- One component longer is a later name of the same scope.  It is junk if the shorter one is. -/
  child : ∀ id component child, tree.child? id component = some child →
    id.index < child.index ∧ (tree.name child).scope? = (tree.name id).scope? ∧
      tree.isJunk child = tree.isJunk id ∧
      (tree.name child).path = (tree.name id).path ++ "." ++ component
  /-- The table of a scope holds names of that scope, and no junk. -/
  entry : ∀ scope name id, tree.meaning? scope name = some (some id) →
    tree.isJunk id = false ∧ (tree.name id).scope? = some scope
  /-- Sources do not lead on forever. -/
  sources : WellFounded fun source id => (tree.name id).origin.source? = some source
  /-- Nor do the names that are longer and longer. -/
  children : WellFounded fun child id => ∃ component, tree.child? id component = some child

/-- What is inherited in a scope is delegated if the scope delegates, and masked if not. -/
theorem Formed.delegated_iff (h : tree.Formed) {id source : NameId} {here : ScopeId}
    (hsource : (tree.name id).origin.source? = some source)
    (hhere : (tree.name id).scope? = some here) :
    (tree.name id).origin = .delegated source ↔ (tree.scope here).delegates = true := by
  cases horigin : (tree.name id).origin with
  | delegated other =>
      rw [horigin] at hsource
      obtain rfl := Option.some.inj hsource
      simp [h.delegated id other here horigin hhere]
  | masked other mask => simp [h.masked id other mask here horigin hhere]
  | _ => rw [horigin] at hsource; cases hsource

theorem Formed.graded (h : tree.Formed) : tree.Graded where
  source id source hsource := by
    obtain ⟨hlt, hjunk, hpath, here, outer, rest, hhere, houter, hscope⟩ :=
      h.source id source hsource
    have hparent : (tree.scope here).parent? = some outer := by rw [Scope.parent?, houter]; rfl
    exact ⟨hlt, hjunk, hpath, here, outer, hhere, hparent, hscope, h.delegated_iff hsource hhere⟩
  child id component child hchild := by
    obtain ⟨hlt, -, hjunk, hscope, hpath⟩ := h.child id component child hchild
    exact ⟨hlt, hscope, hjunk, hpath⟩
  entry scope name id hentry := by
    obtain ⟨hjunk, hscope, -⟩ := h.entry scope name id hentry
    exact ⟨hjunk, hscope⟩
  sources := Subrelation.wf (fun {source id} hsource => (h.source id source hsource).1)
    (measure NameId.index).wf
  children := by
    refine Subrelation.wf (fun {child id} hchild => ?_)
      (measure fun id : NameId => tree.names.size - id.index).wf
    obtain ⟨component, hcomponent⟩ := hchild
    obtain ⟨hlt, hsize, -⟩ := h.child id component child hcomponent
    exact Nat.sub_lt_sub_left (Nat.lt_trans hlt hsize) hlt

/-! ## Following references without a look at positions -/

/-- The kinds that a name may still have, if so many steps are enough to find them. -/
def possibleWithin (tree : ScopeTree) (steps : Nat) (id : NameId) : Option Kinds :=
  match steps with
  | 0 => none
  | steps + 1 =>
      match (tree.name id).origin with
      | .free kinds | .replaced kinds | .bound _ kinds => some kinds
      | .masked source mask => do
          let kinds ← tree.possibleWithin steps source
          return kinds ∩ mask
      | .delegated source => tree.possibleWithin steps source
      | .junk => some .any

/-- Whether the value of a name is needed unboxed, if so many steps are enough to find out. -/
def mustUnboxWithin (tree : ScopeTree) (steps : Nat) (id : NameId) : Option Bool :=
  match steps with
  | 0 => none
  | steps + 1 =>
      if (tree.name id).mustUnbox then some true
      else
        match (tree.name id).origin with
        | .delegated source => tree.mustUnboxWithin steps source
        | _ => some false

/-- Whether a name or one that it is inherited from has a child, if so many steps are enough to
find out. -/
def hasChildWithin (tree : ScopeTree) (steps : Nat) (id : NameId) (component : String) :
    Option Bool :=
  match steps with
  | 0 => none
  | steps + 1 =>
      if (tree.child? id component).isSome then some true
      else
        match (tree.name id).origin.source? with
        | none => some false
        | some source => tree.hasChildWithin steps source component

/-- A name and the names longer than it, if so many steps are enough to find them. -/
def descendantsWithin (tree : ScopeTree) (steps : Nat) (id : NameId) : Option (List NameId) :=
  match steps with
  | 0 => none
  | steps + 1 => do
      let longer ← (tree.name id).children.values.mapM fun child =>
        tree.descendantsWithin steps child
      return id :: longer.flatten

/-- Every name of a scope, if so many steps are enough for each entry. -/
def allNamesWithin (tree : ScopeTree) (steps : Nat) (scope : ScopeId) : Option (List NameId) := do
  let names ← (tree.scope scope).entries.values.mapM fun entry =>
    match entry with
    | none => some []
    | some id => tree.descendantsWithin steps id
  return names.flatten

/-- Without a look at positions there is no end to a name that is inherited from itself. -/
theorem possibleWithin_of_circular {id : NameId} (h : (tree.name id).origin = .delegated id)
    (steps : Nat) : tree.possibleWithin steps id = none := by
  induction steps with
  | zero => rfl
  | succ steps ih =>
      rw [possibleWithin, h]
      exact ih

/-! ## Where references are in order -/

theorem Formed.possibleWithin_eq (h : tree.Formed) {steps : Nat} {id : NameId}
    (hsteps : id.index < steps) : tree.possibleWithin steps id = some (tree.possible id) := by
  induction steps generalizing id with
  | zero => exact absurd hsteps (Nat.not_lt_zero _)
  | succ steps ih =>
      have hsource : ∀ source, (tree.name id).origin.source? = some source →
          tree.possibleWithin steps source = some (tree.possible source) :=
        fun source hsource =>
          ih (Nat.lt_of_lt_of_le (h.source id source hsource).1 (Nat.le_of_lt_succ hsteps))
      rw [possibleWithin]
      cases horigin : (tree.name id).origin with
      | masked source mask =>
          dsimp only
          rw [hsource source (by rw [horigin]; rfl), possible_of_masked h horigin]
          rfl
      | delegated source =>
          dsimp only
          rw [hsource source (by rw [horigin]; rfl), possible_of_delegated h horigin]
      | _ => rw [possible, horigin]

theorem Formed.mustUnboxWithin_eq (h : tree.Formed) {steps : Nat} {id : NameId}
    (hsteps : id.index < steps) : tree.mustUnboxWithin steps id = some (tree.mustUnbox id) := by
  induction steps generalizing id with
  | zero => exact absurd hsteps (Nat.not_lt_zero _)
  | succ steps ih =>
      rw [mustUnboxWithin]
      cases hunbox : (tree.name id).mustUnbox with
      | true => rw [mustUnbox, hunbox, Bool.true_or, if_pos rfl]
      | false =>
          rw [if_neg Bool.false_ne_true]
          by_cases hdelegates : ∃ source, (tree.name id).origin = .delegated source
          · obtain ⟨source, horigin⟩ := hdelegates
            have hlt := (h.source id source (by rw [horigin]; rfl)).1
            rw [mustUnbox_of_delegated h horigin, horigin, hunbox, Bool.false_or]
            exact ih (Nat.lt_of_lt_of_le hlt (Nat.le_of_lt_succ hsteps))
          · have hnot : ∀ source, (tree.name id).origin ≠ .delegated source :=
              fun source horigin => hdelegates ⟨source, horigin⟩
            rw [mustUnbox_of_not_delegated hnot, hunbox]
            split
            · next source horigin => exact absurd horigin (hnot source)
            · rfl

theorem Formed.hasChildWithin_eq (h : tree.Formed) {steps : Nat} {id : NameId}
    (hsteps : id.index < steps) (component : String) :
    tree.hasChildWithin steps id component = some (tree.hasChild id component) := by
  induction steps generalizing id with
  | zero => exact absurd hsteps (Nat.not_lt_zero _)
  | succ steps ih =>
      rw [hasChildWithin, hasChild]
      cases (tree.child? id component).isSome with
      | true => rw [if_pos rfl, Bool.true_or]
      | false =>
          rw [if_neg Bool.false_ne_true, Bool.false_or]
          cases hsource : (tree.name id).origin.source? with
          | none => rfl
          | some source =>
              have hlt := (h.source id source hsource).1
              dsimp only
              rw [dif_pos hlt]
              exact ih (Nat.lt_of_lt_of_le hlt (Nat.le_of_lt_succ hsteps))

/-- What has a result for each item of a list has results for the list. -/
theorem mapM_eq_some_map {α β : Type} {items : List α} {f : α → Option β} {g : α → β}
    (h : ∀ item ∈ items, f item = some (g item)) : items.mapM f = some (items.map g) := by
  induction items with
  | nil => rfl
  | cons item rest ih =>
      obtain ⟨hitem, hrest⟩ := List.forall_mem_cons.mp h
      rw [List.mapM_cons, hitem, ih hrest]
      rfl

/-- Names get longer towards the end of the tree. -/
theorem Formed.descendantsWithin_eq (h : tree.Formed) {steps : Nat} {id : NameId}
    (hsteps : tree.names.size - id.index < steps) :
    tree.descendantsWithin steps id = some (tree.descendants id) := by
  induction steps generalizing id with
  | zero => exact absurd hsteps (Nat.not_lt_zero _)
  | succ steps ih =>
      have hchildren : ∀ child ∈ (tree.name id).children.values,
          tree.descendantsWithin steps child = some (tree.descendants child) := by
        intro child hmem
        obtain ⟨component, hchild⟩ := (Table.mem_values_iff (h.nodup_children id)).mp hmem
        obtain ⟨hlt, hsize, -⟩ := h.child id component child hchild
        exact ih (by omega)
      rw [descendantsWithin, mapM_eq_some_map hchildren, descendants_eq h]
      rfl

theorem Formed.allNamesWithin_eq (h : tree.Formed) {steps : Nat}
    (hsteps : tree.names.size < steps) (scope : ScopeId) :
    tree.allNamesWithin steps scope = some (tree.allNames scope) := by
  have hentries : ∀ entry ∈ (tree.scope scope).entries.values,
      (match entry with
        | none => some []
        | some id => tree.descendantsWithin steps id) =
      some (match entry with
        | none => []
        | some id => tree.descendants id) := by
    intro entry _
    cases entry with
    | none => rfl
    | some id => exact h.descendantsWithin_eq (Nat.lt_of_le_of_lt (Nat.sub_le _ _) hsteps)
  rw [allNamesWithin, allNames, mapM_eq_some_map hentries]
  rfl

end ScopeTree

namespace ScopeM

variable {σ : Type}

/-- Apply a demand to a name and to what is behind it, if so many steps are enough. -/
def followWithin (definer : Definer σ) (steps : Nat) (id : NameId) (demanded : Kinds)
    (unbox : Bool) (session : Session σ) : Option (Kinds × Session σ) :=
  match steps with
  | 0 => none
  | steps + 1 =>
      match (session.tree.name id).origin.answer demanded with
      | .settled proven => some (proven, session.demanding id demanded unbox)
      | .refused known =>
          some (known, (session.demanding id demanded unbox).reporting
            (session.reporter.nameConflict (session.tree.spanOfName id)
              (session.tree.name id).path known demanded))
      | .passOn source =>
          followWithin definer steps source demanded unbox (session.demanding id demanded unbox)
      | .define node =>
          let defined := (definer node demanded unbox).run
            ((session.demanding id demanded unbox).noting (.defining node demanded unbox))
          some (defined.1, defined.2.proving id defined.1)

/-- A demand comes to where it is settled, if sources are in order. -/
theorem followWithin_eq (definer : Definer σ) {steps : Nat} {id : NameId}
    (hsteps : id.index < steps) (demanded : Kinds) (unbox : Bool) {session : Session σ}
    (h : session.tree.Formed) :
    followWithin definer steps id demanded unbox session =
      some ((follow definer id demanded unbox).run session) := by
  induction steps generalizing id session with
  | zero => exact absurd hsteps (Nat.not_lt_zero _)
  | succ steps ih =>
      rw [followWithin, run_follow]
      cases hanswer : (session.tree.name id).origin.answer demanded with
      | settled proven => rfl
      | refused known => rfl
      | passOn source =>
          have horigin := Origin.eq_delegated_of_answer hanswer
          have hlt := (h.source id source (by rw [horigin]; rfl)).1
          have hstep : Session.Step (fun _ _ => False) session
              (session.demanding id demanded unbox) := .demanding id demanded unbox
          dsimp only
          rw [if_pos hlt]
          exact ih (Nat.lt_of_lt_of_le hlt (Nat.le_of_lt_succ hsteps)) (hstep.formed h)
      | define node => rfl

end ScopeM

/-! ## Whole runs -/

namespace Session

variable {σ : Type}

/-- Whatever follows references comes to an end without a look at positions, on every name and
with the same result: towards earlier names after as many steps as there are names up to it, and
towards longer ones after as many as there are from it on. -/
structure Ends (session : Session σ) : Prop where
  possible : ∀ (id : NameId) steps, id.index < steps →
    session.tree.possibleWithin steps id = some (session.tree.possible id)
  mustUnbox : ∀ (id : NameId) steps, id.index < steps →
    session.tree.mustUnboxWithin steps id = some (session.tree.mustUnbox id)
  hasChild : ∀ (id : NameId) component steps, id.index < steps →
    session.tree.hasChildWithin steps id component = some (session.tree.hasChild id component)
  descendants : ∀ (id : NameId) steps, session.tree.names.size - id.index < steps →
    session.tree.descendantsWithin steps id = some (session.tree.descendants id)
  allNames : ∀ scope steps, session.tree.names.size < steps →
    session.tree.allNamesWithin steps scope = some (session.tree.allNames scope)
  /-- So does a demand that is handed on, whatever the definitions are. -/
  follow : ∀ (definer : Definer σ) (id : NameId) demanded unbox steps, id.index < steps →
    ScopeM.followWithin definer steps id demanded unbox session =
      some ((ScopeM.follow definer id demanded unbox).run session)

theorem ends_of_formed {session : Session σ} (h : session.tree.Formed) : session.Ends where
  possible _ _ := h.possibleWithin_eq
  mustUnbox _ _ := h.mustUnboxWithin_eq
  hasChild _ component _ hsteps := h.hasChildWithin_eq hsteps component
  descendants _ _ := h.descendantsWithin_eq
  allNames scope _ hsteps := h.allNamesWithin_eq hsteps scope
  follow definer _ demanded unbox _ hsteps :=
    ScopeM.followWithin_eq definer hsteps demanded unbox h

/-- A step to a session in which the references between names are in order. -/
structure Grading (own : σ → σ → Prop) (before after : Session σ) : Prop where
  step : before.Step own after
  graded : after.tree.Graded
  ends : after.Ends

theorem Runs.grading {own : σ → σ → Prop} {before after : Session σ} (h : before.Runs own after)
    (hformed : before.tree.Formed) : Relation.ReflTransGen (Grading own) before after := by
  induction h with
  | refl => exact .refl
  | tail hruns hstep ih =>
      have hthird := hstep.formed (Runs.formed hruns hformed)
      exact ih.tail ⟨hstep, hthird.graded, ends_of_formed hthird⟩

/-- Whatever operations are applied to an empty tree, and by whatever definitions that act by means
of operations, names are inherited from earlier names and longer names are later ones, each where
it belongs, so whatever follows names comes to an end.  This is true after the operations and
after each step that they take, definitions included. -/
theorem names_graded {own : σ → σ → Prop} {start after : Session σ} (hempty : start.tree = ∅)
    (h : start.Operated own after) :
    after.tree.Graded ∧ after.Ends ∧ Relation.ReflTransGen (Grading own) start after := by
  have hstart : start.tree.Formed := hempty ▸ ScopeTree.formed_empty
  have hruns := h.runs hstart
  have hafter := Runs.formed hruns hstart
  exact ⟨hafter.graded, ends_of_formed hafter, Runs.grading hruns hstart⟩

/-- A definition that puts a name into the tree whenever it is asked. -/
def littering : Definer Unit := fun _ demanded _ => do
  let _ ← ScopeM.junk
  return demanded

/-- A scope that binds a name, and one inside it that delegates. -/
def delegating : Session Unit :=
  let rooted : Session Unit := ⟨(∅ : ScopeTree).openRoot .nowhere true, .new "unit", [], ()⟩
  let bound := rooted.withTree (rooted.tree.define ⟨0⟩ "a" (.bound ⟨0⟩ .any))
  bound.withTree (bound.tree.openInside ⟨0⟩ .nowhere true)

/-- A lookup is handed on to the scope outside, while the definition puts names in between. -/
theorem names_graded_delegating :
    let start : Session Unit := ⟨∅, .new "unit", [], ()⟩
    let after := ((ScopeM.lookup littering ⟨1⟩ ["a", "b"] .nowhere).run delegating).2
    ((after.tree.name ⟨6⟩).origin = .delegated ⟨2⟩ ∧ (after.tree.name ⟨6⟩).path = "a.b") ∧
      start.tree = ∅ ∧ start.Operated (fun _ _ => False) after ∧
        after.tree.Graded ∧ after.Ends ∧
          Relation.ReflTransGen (Grading fun _ _ => False) start after := by
  have hlittering : ∀ node demanded unbox (later : Session Unit),
      later.Operated (fun _ _ => False) ((littering node demanded unbox).run later).2 :=
    fun _ _ _ later => .junk later
  have hdelegating : Operated (fun _ _ => False) ⟨∅, .new "unit", [], ()⟩ delegating :=
    have hrooted := Operated.openRoot ⟨∅, .new "unit", [], ()⟩ .nowhere true
    have hbound := hrooted.trans (@Operated.bind Unit _ _ ⟨0⟩ "a" ⟨0⟩ _ rfl)
    hbound.trans (.openInside _ (by decide) .nowhere true)
  have hafter := hdelegating.trans (.lookup delegating littering
    (fun node demanded unbox later _ _ => hlittering node demanded unbox later) ⟨1⟩ ["a", "b"]
    .nowhere)
  exact ⟨by decide +kernel, rfl, hafter, names_graded rfl hafter⟩

end Session

end FrameLang
