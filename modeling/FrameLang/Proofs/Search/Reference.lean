import FrameLang.Proofs.Search.Contents
import Mathlib.Data.List.Forall2

/-!
# The search frame by frame

This file says what a search ought to find: it walks down the path from one
frame after the other, and puts the outcomes together in the order of the
context.  The walk (`World.walk`) reads the world as it is now and waits for
nothing, so its outcome may be that the path ends at a pending attribute.

Two facts about it carry everything else.  An outcome that is not pending stays
what it is while more attributes are produced (`walk_of_extends`), and a result
that is certain while some outcomes are pending stays the result once they are
known (`result?_of_refines`).
-/

namespace FrameLang

/-! ## Putting outcomes together -/

namespace Reference

/-- What one outcome offers to a search for a single value. -/
def offer? (mode : Mode) : Outcome → Option Value
  | .found value =>
      if mode = .coalescing ∧ value = .unit then none
      else some (if mode = .existential then .bool true else value)
  | _ => none

/-- The component of the path that is not a frame, and its kind. -/
def obstacle? : Outcome → Option (Nat × Kind)
  | .notAFrame component kind => some (component, kind)
  | _ => none

/-- The value at the end of the path. -/
def found? : Outcome → Option Value
  | .found value => some value
  | _ => none

/-- The outcomes before the first pending one. -/
def known (outcomes : List Outcome) : List Outcome :=
  outcomes.takeWhile fun outcome => outcome ≠ .pending

/-- What comes of it when no frame supplies a value: the first obstacle, or nothing at all. -/
def failed (mode : Mode) (names : List String) (frames : Nat) :
    Option (Nat × Kind) → Verdict
  | some (component, kind) => .failure (Search.drilled names component kind)
  | none =>
      if mode = .existential then .value (.bool false)
      else .failure (.nameNotFound (".".intercalate names) frames)

/-- A search for a single value: the first offer, unless something before it is pending. -/
def first? (mode : Mode) (names : List String) (outcomes : List Outcome) : Option Verdict :=
  match (known outcomes).findSome? (offer? mode) with
  | some value => some (.value value)
  | none =>
      if .pending ∈ outcomes then none
      else some (failed mode names outcomes.length (outcomes.findSome? obstacle?))

/-- A search for all values: the first obstacle, unless something before it is pending, and
otherwise the list of what was found. -/
def every? (names : List String) (outcomes : List Outcome) : Option Verdict :=
  match (known outcomes).findSome? obstacle? with
  | some (component, kind) => some (.failure (Search.drilled names component kind))
  | none =>
      if .pending ∈ outcomes then none
      else some (.list (outcomes.filterMap found?))

/-- The result of a search that has these outcomes in the order of its context, if it is
determined. -/
def result? (mode : Mode) (names : List String) (outcomes : List Outcome) : Option Verdict :=
  if mode = .all then every? names outcomes else first? mode names outcomes

end Reference

/-! ## What a search decides from its outcomes

`Search.decideOne` and `Search.decideAll` read the outcomes one by one; both come to what
the reference says. -/

section Decide

theorem known_cons {outcome : Outcome} (h : outcome ≠ .pending) (rest : List Outcome) :
    Reference.known (outcome :: rest) = outcome :: Reference.known rest := by
  simp [Reference.known, h]

theorem decideOne_eq (mode : Mode) (names : List String) (frames : Nat)
    (miss : Option (Nat × Kind)) (outcomes : List Outcome) :
    Search.decideOne mode names frames miss outcomes =
      match (Reference.known outcomes).findSome? (Reference.offer? mode) with
      | some value => some (.value value)
      | none =>
          if .pending ∈ outcomes then none
          else some (Reference.failed mode names frames
            (miss.or (outcomes.findSome? Reference.obstacle?))) := by
  induction outcomes generalizing miss with
  | nil =>
      cases miss with
      | none =>
          simp only [Search.decideOne, Reference.known, Reference.failed, List.takeWhile_nil,
            List.findSome?_nil, List.not_mem_nil, if_false, Option.or_none]
          split <;> rfl
      | some pair => rfl
  | cons outcome rest ih =>
      cases outcome with
      | pending => cases miss <;> simp [Search.decideOne, Reference.known]
      | notFound =>
          have hstep : Search.decideOne mode names frames miss (.notFound :: rest) =
              Search.decideOne mode names frames miss rest := by cases miss <;> rfl
          rw [hstep, ih, known_cons (by simp)]
          simp [List.findSome?_cons, Reference.offer?, Reference.obstacle?]
      | notAFrame component kind =>
          have hstep : Search.decideOne mode names frames miss (.notAFrame component kind :: rest) =
              Search.decideOne mode names frames (miss.or (some (component, kind))) rest := by
            cases miss <;> rfl
          rw [hstep, ih, known_cons (by simp)]
          cases miss <;> simp [List.findSome?_cons, Reference.offer?, Reference.obstacle?]
      | found value =>
          have hstep : Search.decideOne mode names frames miss (.found value :: rest) =
              if mode = .coalescing && value = .unit then
                Search.decideOne mode names frames miss rest
              else if mode = .existential then some (.value (.bool true))
              else some (.value value) := by cases miss <;> rfl
          rw [hstep, ih, known_cons (by simp)]
          -- a coalescing search passes over a unit as it does over what is not there
          by_cases hskip : mode = .coalescing ∧ value = .unit
          · simp [List.findSome?_cons, Reference.offer?, Reference.obstacle?, hskip]
          · have hoffer : Reference.offer? mode (.found value) =
                some (if mode = .existential then .bool true else value) := by
              simp only [Reference.offer?, if_neg hskip]
            have hcond : ¬ ((mode = .coalescing && value = .unit) = true) := by
              simpa using hskip
            simp only [if_neg hcond, List.findSome?_cons, hoffer]
            split <;> rfl

theorem decideAll_eq (names : List String) (values : List Value) (outcomes : List Outcome) :
    Search.decideAll names values outcomes =
      match (Reference.known outcomes).findSome? Reference.obstacle? with
      | some (component, kind) => some (.failure (Search.drilled names component kind))
      | none =>
          if .pending ∈ outcomes then none
          else some (.list (values ++ outcomes.filterMap Reference.found?)) := by
  induction outcomes generalizing values with
  | nil => simp [Search.decideAll, Reference.known]
  | cons outcome rest ih =>
      cases outcome with
      | pending => simp [Search.decideAll, Reference.known]
      | notFound =>
          rw [Search.decideAll, ih, known_cons (by simp)]
          simp [List.findSome?_cons, List.filterMap_cons, Reference.obstacle?, Reference.found?]
      | notAFrame component kind =>
          simp [Search.decideAll, known_cons, List.findSome?_cons, Reference.obstacle?]
      | found value =>
          rw [Search.decideAll, ih, known_cons (by simp)]
          simp [List.findSome?_cons, Reference.obstacle?, Reference.found?]

/-- A search decides what the reference says of its outcomes. -/
theorem verdict?_eq {κ : Type} (search : Search κ)
    (hlength : search.outcomes.length = search.context.length) :
    search.verdict? = Reference.result? search.mode search.names search.outcomes := by
  unfold Search.verdict? Reference.result?
  cases hmode : search.mode with
  | all =>
      rw [if_pos rfl, decideAll_eq, Reference.every?]
      rfl
  | _ =>
      simp only [reduceCtorEq, if_false, ← hlength, decideOne_eq, Reference.first?,
        Option.none_or]

/-- An outcome that comes to be known may have been pending before, and is otherwise as it
was. -/
def Outcome.Refines (before after : Outcome) : Prop := before = .pending ∨ after = before

/-- A result that is certain while some outcomes are pending is the result once they are
known. -/
theorem result?_of_refines {mode : Mode} {names : List String} {before after : List Outcome}
    (h : List.Forall₂ Outcome.Refines before after) {verdict : Verdict}
    (hverdict : Reference.result? mode names before = some verdict) :
    Reference.result? mode names after = some verdict := by
  -- a pending outcome settles nothing, so only what comes before one counts
  have one : ∀ frames miss, Search.decideOne mode names frames miss before = some verdict →
      Search.decideOne mode names frames miss after = some verdict := by
    clear hverdict
    intro frames
    induction h with
    | nil => exact fun _ h => h
    | @cons first second before after hfirst hrest ih =>
        intro miss hdecide
        rcases hfirst with rfl | rfl
        · cases miss <;> simp [Search.decideOne] at hdecide
        · cases second with
          | pending => cases miss <;> simp [Search.decideOne] at hdecide
          | notFound => cases miss <;> exact ih _ hdecide
          | notAFrame component kind => cases miss <;> exact ih _ hdecide
          | found value =>
              cases miss <;>
              · simp only [Search.decideOne] at hdecide ⊢
                split
                · next hskip => exact ih _ (by rwa [if_pos hskip] at hdecide)
                · next hskip => rwa [if_neg hskip] at hdecide
  have all : ∀ values, Search.decideAll names values before = some verdict →
      Search.decideAll names values after = some verdict := by
    clear hverdict one
    induction h with
    | nil => exact fun _ h => h
    | @cons first second before after hfirst hrest ih =>
        intro values hdecide
        rcases hfirst with rfl | rfl
        · simp [Search.decideAll] at hdecide
        · cases second with
          | pending => simp [Search.decideAll] at hdecide
          | notFound => exact ih _ hdecide
          | notAFrame component kind => exact hdecide
          | found value => exact ih _ hdecide
  unfold Reference.result? at hverdict ⊢
  split
  · next hmode =>
    rw [if_pos hmode] at hverdict
    have h' := all [] (by rw [decideAll_eq]; exact hverdict)
    rwa [decideAll_eq] at h'
  · next hmode =>
    rw [if_neg hmode] at hverdict
    have h' := one before.length none (by rw [decideOne_eq]; exact hverdict)
    rw [h.length_eq, decideOne_eq] at h'
    exact h'

end Decide

/-! ## Walking down a path -/

namespace World

variable {κ : Type}

/-- What is at the end of a path that starts in a frame; `component` is the position of the
path's first name in the path that is looked up. -/
def walk (world : World κ) : (component : Nat) → FrameId → List String → Outcome
  | _, frame, [] => .found (.frame frame)
  | component, frame, name :: rest =>
      match world.content frame name with
      | none => .notFound
      | some none => .pending
      | some (some value) =>
          match rest, value with
          | [], value => .found value
          | _ :: _, .frame inner => walk world (component + 1) inner rest
          | _ :: _, value => .notAFrame component value.kind

/-- What a search for a path in the given frames finds, if that is determined by what has
been produced so far. -/
def reference? (world : World κ) (context : List FrameId) (names : List String) (mode : Mode) :
    Option Verdict :=
  match Search.pathError? names with
  | some error => some (.failure error)
  | none =>
      Reference.result? mode names (context.map fun frame => world.walk 0 frame names)

/-- What becomes of a walk that has come to the value of a component. -/
def walkOn (world : World κ) (component : Nat) (value : Value) (rest : List String) : Outcome :=
  match rest, value with
  | [], value => .found value
  | name :: rest, .frame inner => world.walk (component + 1) inner (name :: rest)
  | _ :: _, value => .notAFrame component value.kind

/-- The frame that a path leads to, if everything on the way is a frame. -/
def reach (world : World κ) : FrameId → List String → Option FrameId
  | frame, [] => some frame
  | frame, name :: rest =>
      match world.content frame name with
      | some (some (.frame inner)) => reach world inner rest
      | _ => none

/-- To go down a path is to go down its first part, and then the rest. -/
theorem reach_append (world : World κ) (frame : FrameId) (first rest : List String) :
    world.reach frame (first ++ rest) =
      (world.reach frame first).bind fun inner => world.reach inner rest := by
  induction first generalizing frame with
  | nil => rfl
  | cons name more ih =>
      rw [List.cons_append, reach, reach]
      split
      · exact ih _
      · rfl

theorem walk_ready {world : World κ} {frame : FrameId} {name : String} {value : Value}
    (h : world.content frame name = some (some value)) (component : Nat) (rest : List String) :
    world.walk component frame (name :: rest) = world.walkOn component value rest := by
  cases rest with
  | nil => simp [walk, walkOn, h]
  | cons next more => cases value <;> simp [walk, walkOn, h]

theorem walk_pending {world : World κ} {frame : FrameId} {name : String}
    (h : world.content frame name = some none) (component : Nat) (rest : List String) :
    world.walk component frame (name :: rest) = .pending := by
  simp [walk, h]

theorem walk_absent {world : World κ} {frame : FrameId} {name : String}
    (h : world.content frame name = none) (component : Nat) (rest : List String) :
    world.walk component frame (name :: rest) = .notFound := by
  simp [walk, h]

/-- A walk goes on from wherever a part of the path leads. -/
theorem walk_of_reach {world : World κ} {frame inner : FrameId} {first rest : List String}
    (component : Nat) (h : world.reach frame first = some inner) :
    world.walk component frame (first ++ rest) =
      world.walk (component + first.length) inner rest := by
  induction first generalizing frame component with
  | nil =>
      obtain rfl : frame = inner := by simpa [reach] using h
      rfl
  | cons name more ih =>
      cases hcontent : world.content frame name with
      | none => simp [reach, hcontent] at h
      | some state =>
          cases state with
          | none => simp [reach, hcontent] at h
          | some value =>
              cases value with
              | frame next =>
                  have hnext : world.reach next more = some inner := by
                    simpa [reach, hcontent] using h
                  have hgo := ih (component + 1) hnext
                  rw [List.length_cons, Nat.add_comm more.length, ← Nat.add_assoc, ← hgo,
                    List.cons_append]
                  cases hrest : more ++ rest with
                  | nil => simp [walk, hcontent]
                  | cons head tail => simp [walk, hcontent]
              | _ => simp [reach, hcontent] at h

/-! ## Producing more -/

/-- Every frame that the world refers to is one of its frames. -/
def Closed (world : World κ) : Prop :=
  ∀ frame name value, world.content frame name = some (some value) → world.Knows value

/-- The first world may still have attributes to produce that the second one has, and may
lack some frames altogether. -/
structure Extends (before after : World κ) : Prop where
  size_le : before.frames.size ≤ after.frames.size
  /-- What has been produced stays, and no attribute comes or goes. -/
  content : ∀ frame name, frame.index < before.frames.size →
    after.content frame name = before.content frame name ∨
      before.content frame name = some none ∧ (after.content frame name).isSome

theorem Extends.refl (world : World κ) : world.Extends world :=
  ⟨Nat.le_refl _, fun _ _ _ => Or.inl rfl⟩

theorem Extends.of_eq {before after : World κ}
    (hsize : before.frames.size ≤ after.frames.size)
    (hcontent : ∀ frame name, frame.index < before.frames.size →
      after.content frame name = before.content frame name) : before.Extends after :=
  ⟨hsize, fun frame name hframe => Or.inl (hcontent frame name hframe)⟩

theorem Extends.trans {first second third : World κ} (h : first.Extends second)
    (h' : second.Extends third) : first.Extends third := by
  refine ⟨Nat.le_trans h.size_le h'.size_le, ?_⟩
  intro frame name hframe
  rcases h.content frame name hframe with heq | ⟨hpending, hsome⟩
  · rw [← heq]
    exact h'.content frame name (Nat.lt_of_lt_of_le hframe h.size_le)
  · refine Or.inr ⟨hpending, ?_⟩
    rcases h'.content frame name (Nat.lt_of_lt_of_le hframe h.size_le) with heq | ⟨-, hsome'⟩
    · rw [heq]
      exact hsome
    · exact hsome'

theorem Extends.of_ready {before after : World κ} (h : before.Extends after) {frame : FrameId}
    {name : String} {value : Value} (hvalue : before.content frame name = some (some value)) :
    after.content frame name = some (some value) := by
  rcases h.content frame name (lt_size_of_content hvalue) with heq | ⟨hpending, -⟩
  · rw [heq, hvalue]
  · rw [hvalue] at hpending
    cases hpending

theorem Knows.mono {before after : World κ} {value : Value} (h : before.Knows value)
    (hsize : before.frames.size ≤ after.frames.size) : after.Knows value :=
  fun frame heq => Nat.lt_of_lt_of_le (h frame heq) hsize

/-- What a path leads to stays what it leads to. -/
theorem reach_of_extends {before after : World κ} (h : before.Extends after) {frame inner : FrameId}
    {names : List String} (hreach : before.reach frame names = some inner) :
    after.reach frame names = some inner := by
  induction names generalizing frame with
  | nil => exact hreach
  | cons name rest ih =>
      unfold reach at hreach
      split at hreach
      · next next hcontent =>
        simp only [reach, h.of_ready hcontent]
        exact ih hreach
      · cases hreach

/-- A walk that is not pending has the same outcome once more has been produced. -/
theorem walk_of_extends {before after : World κ} (hclosed : before.Closed)
    (h : before.Extends after) {frame : FrameId} (hframe : frame.index < before.frames.size)
    (component : Nat) (names : List String) :
    before.walk component frame names = .pending ∨
      after.walk component frame names = before.walk component frame names := by
  induction names generalizing component frame with
  | nil => exact Or.inr rfl
  | cons name rest ih =>
      rcases h.content frame name hframe with heq | ⟨hpending, -⟩
      · cases hcontent : before.content frame name with
        | none => exact Or.inr (by simp [walk, heq, hcontent])
        | some state =>
            cases state with
            | none => exact Or.inl (by simp [walk, hcontent])
            | some value =>
                cases rest with
                | nil => exact Or.inr (by simp [walk, heq, hcontent])
                | cons next more =>
                    cases value with
                    | frame inner =>
                        have hinner := hclosed _ _ _ hcontent inner rfl
                        rcases ih hinner (component + 1) with hwalk | hwalk
                        · exact Or.inl (by rw [← hwalk]; simp [walk, hcontent])
                        · refine Or.inr ?_
                          rw [walk, walk, heq, hcontent]
                          exact hwalk
                    | _ => exact Or.inr (by simp [walk, heq, hcontent])
      · exact Or.inl (by simp [walk, hpending])

/-- A walk depends on nothing but what the frames say. -/
theorem walk_congr {before after : World κ} (hclosed : before.Closed)
    (hcontent : ∀ frame name, frame.index < before.frames.size →
      after.content frame name = before.content frame name)
    {frame : FrameId} (hframe : frame.index < before.frames.size) (component : Nat)
    (names : List String) :
    after.walk component frame names = before.walk component frame names := by
  induction names generalizing component frame with
  | nil => rfl
  | cons name rest ih =>
      rw [walk, walk, hcontent frame name hframe]
      cases hstate : before.content frame name with
      | none => rfl
      | some state =>
          cases state with
          | none => rfl
          | some value =>
              cases rest with
              | nil => rfl
              | cons next more =>
                  cases value with
                  | frame inner => exact ih (hclosed _ _ _ hstate inner rfl) (component + 1)
                  | _ => rfl

end World

end FrameLang
