import FrameLang.Proofs.Search.Runs
import Mathlib.Logic.Relation

/-!
# Moments of a run

Whoever is told something may call back into the world: a listener may start another search,
produce an attribute or listen to something else, and whoever is told because of that may do so
again.  So a call may be made while the callbacks of another one are still to be delivered.

This file takes a run apart into moments.  Between two moments one thing happens as a whole: a
call does what it does at once, a search takes a value that it is owed, or an observer is told
something.  What is left to do is part of the moment: the values that are still to be delivered
and the news that is still to be told, the nearest first.

## Strategy

Observers that act by calls (`Acting`) are followed from moment to moment: telling one of them
its news, with all that it does then, leads from a moment that has the news in front to one that
is rid of it (`Attends`).  By induction on how deep observers act, every call of a program is
such a chain of moments (`Attends.issues`).

What holds at the first moment and is kept by each step then holds throughout every run.  The
state of the searches is of this kind (`Step.delivering`): whatever is owed in the middle of a
call is owed to open attempts, and all the others are settled.
-/

namespace FrameLang.World

variable {κ : Type}

/-! ## What happens -/

/-- What happens in a run. -/
inductive Occurrence (κ : Type) where
  | called (action : Action κ)
  | told (token : κ) (notice : Notice)

/-- All that has happened so far, in order. -/
abbrev Chronicle (κ : Type) := List (Occurrence κ)

/-- The world and what has happened in it. -/
abbrev Stage (κ : Type) := World κ × Chronicle κ

/-- What a program makes of the world and of the chronicle. -/
def after {α : Type} (program : StateT (World κ) (StateM (Chronicle κ)) α) (stage : Stage κ) :
    Stage κ :=
  (((program.run stage.1).run stage.2).1.2, ((program.run stage.1).run stage.2).2)

/-- What a program gives back. -/
def answerOf {α : Type} (program : StateT (World κ) (StateM (Chronicle κ)) α) (stage : Stage κ) :
    α :=
  ((program.run stage.1).run stage.2).1.1

theorem after_bind {α β : Type} (first : StateT (World κ) (StateM (Chronicle κ)) α)
    (second : α → StateT (World κ) (StateM (Chronicle κ)) β) (stage : Stage κ) :
    after (first >>= second) stage = after (second (answerOf first stage)) (after first stage) :=
  rfl

/-- A call that can be made: all that it refers to is there. -/
def Action.Possible (world : World κ) : Action κ → Prop
  | .start id => id.index < world.searches.size
  | .notify id _ => id.index < world.searches.size
  | action => action.Valid world

theorem Action.Possible.valid {world : World κ} {action : Action κ} (h : action.Possible world) :
    action.Valid world := by
  cases action with
  | start id => trivial
  | notify id token => trivial
  | _ => exact h

/-- Make a call, and write it down. -/
def issue (observe : Observer κ (StateM (Chronicle κ))) (action : Action κ) :
    StateT (World κ) (StateM (Chronicle κ)) Unit := do
  StateT.lift (modify (· ++ [.called action]))
  perform observe action

/-- Calls that are made one after the other. -/
def Issues (observe : Observer κ (StateM (Chronicle κ))) : Stage κ → Stage κ → Prop :=
  Relation.ReflTransGen fun before next =>
    ∃ action : Action κ, action.Possible before.1 ∧ next = after (issue observe action) before

/-- Observers that note what they are told, and then make calls of their own, if any.  What is
told because of these calls is told to observers of the same kind. -/
inductive Acting : Observer κ (StateM (Chronicle κ)) → Prop
  | silent {observe : Observer κ (StateM (Chronicle κ))}
      (notes : ∀ token notice stage,
        after (observe token notice) stage = (stage.1, stage.2 ++ [.told token notice])) :
      Acting observe
  | react {observe : Observer κ (StateM (Chronicle κ))}
      (inner : κ → Notice → Stage κ → Observer κ (StateM (Chronicle κ)))
      (acting : ∀ token notice stage, Acting (inner token notice stage))
      (issues : ∀ token notice stage, Issues (inner token notice stage)
        (stage.1, stage.2 ++ [.told token notice]) (after (observe token notice) stage)) :
      Acting observe

/-! ## Moments -/

/-- A moment of a run, with all that is left to do. -/
structure Moment (κ : Type) where
  world : World κ
  chronicle : Chronicle κ
  /-- The values that are still to be delivered, the next one first. -/
  owed : List (Delivery κ)
  /-- The news that is still to be told, the next first. -/
  tidings : List (κ × Notice)

/-- The moment before anything has happened. -/
instance : EmptyCollection (Moment κ) := ⟨⟨∅, [], [], []⟩⟩

/-- A stage of a run, with what is left to do. -/
def Stage.moment (stage : Stage κ) (owed : List (Delivery κ)) (tidings : List (κ × Notice)) :
    Moment κ :=
  ⟨stage.1, stage.2, owed, tidings⟩

/-- What the listeners of a search are to be told. -/
def announcement (world : World κ) (id : SearchId) (listeners : List κ) : List (κ × Notice) :=
  match (world.search id).result with
  | none => []
  | some result => listeners.map fun token => (token, .result result)

@[simp] theorem announcement_nil (world : World κ) (id : SearchId) :
    announcement world id [] = [] := by
  unfold announcement
  split <;> rfl

namespace Moment

/-- A search takes a step, and its listeners are to be told of it. -/
def advance (moment : Moment κ) (id : SearchId) (change : World κ → List κ × World κ) :
    Moment κ :=
  { moment with
    world := (change moment.world).2
    tidings := announcement (change moment.world).2 id (change moment.world).1 ++ moment.tidings }

/-- What a call does at once. -/
def issue (moment : Moment κ) (action : Action κ) : Moment κ :=
  let noted : Moment κ := { moment with chronicle := moment.chronicle ++ [.called action] }
  match action with
  | .addFrame attributes => { noted with world := (noted.world.addFrame (.ofAttributes attributes)).2 }
  | .addSearch context names mode =>
      { noted with world := (noted.world.addSearch (.new context names mode)).2 }
  | .start id => noted.advance id (begin id)
  | .fulfil frame name value =>
      match noted.world.content frame name with
      | some none =>
          { noted with
            world := noted.world.produce frame name value
            owed := noted.world.deliveries frame name value ++ noted.owed }
      | _ => noted
  | .notify id token =>
      match (noted.world.search id).result with
      | some result => { noted with tidings := (token, .result result) :: noted.tidings }
      | none =>
          { noted with
            world := noted.world.modifySearch id fun search =>
              { search with listeners := search.listeners ++ [token] } }
  | .subscribe frame name token =>
      { noted with
        world := (noted.world.request frame name (.observer token)).2
        tidings :=
          match (noted.world.request frame name (.observer token)).1 with
          | .delivered value => (token, .value value) :: noted.tidings
          | _ => noted.tidings }

section Issue

variable {moment : Moment κ}

/-- What is pending is produced, and is owed to all who wait for it. -/
theorem issue_fulfil_of_pending {frame : FrameId} {name : String}
    (hpending : moment.world.content frame name = some none) (value : Value) :
    moment.issue (.fulfil frame name value) =
      { moment with
        chronicle := moment.chronicle ++ [.called (.fulfil frame name value)]
        world := moment.world.produce frame name value
        owed := moment.world.deliveries frame name value ++ moment.owed } := by
  simp only [issue, hpending]

/-- A value for what is not pending is ignored. -/
theorem issue_fulfil_of_ne_pending {frame : FrameId} {name : String}
    (hpending : moment.world.content frame name ≠ some none) (value : Value) :
    moment.issue (.fulfil frame name value) =
      { moment with chronicle := moment.chronicle ++ [.called (.fulfil frame name value)] } := by
  simp only [issue]

/-- Who asks for the result of a search that has not ended becomes its listener. -/
theorem issue_notify_of_open {id : SearchId} (hopen : (moment.world.search id).result = none)
    (token : κ) : moment.issue (.notify id token) =
      { moment with
        chronicle := moment.chronicle ++ [.called (.notify id token)]
        world := moment.world.modifySearch id fun search =>
          { search with listeners := search.listeners ++ [token] } } := by
  simp only [issue, hopen]

/-- Who asks for the result of a search that has ended is told it at once. -/
theorem issue_notify_of_ended {id : SearchId} {result : Result}
    (hended : (moment.world.search id).result = some result) (token : κ) :
    moment.issue (.notify id token) =
      { moment with
        chronicle := moment.chronicle ++ [.called (.notify id token)]
        tidings := (token, .result result) :: moment.tidings } := by
  simp only [issue, hended]

end Issue

end Moment

@[simp] theorem Moment.chronicle_issue (moment : Moment κ) (action : Action κ) :
    (moment.issue action).chronicle = moment.chronicle ++ [.called action] := by
  cases action with
  | fulfil frame name value =>
      simp only [Moment.issue]
      split <;> rfl
  | notify id token =>
      simp only [Moment.issue]
      split <;> rfl
  | _ => rfl

/-- What may happen next. -/
inductive Step : Moment κ → Moment κ → Prop
  | issue {moment : Moment κ} (action : Action κ) (possible : action.Possible moment.world) :
      Step moment (moment.issue action)
  /-- The value that is owed next goes to the attempt of a search. -/
  | deliver {moment : Moment κ} {value : Value} {id : SearchId} {index component : Nat}
      {rest : List (Delivery κ)}
      (next : moment.owed = ⟨value, .attempt id index component⟩ :: rest) :
      Step moment
        (Moment.advance { moment with owed := rest } id (World.deliver id index component value))
  /-- The value that is owed next goes to an observer. -/
  | hand {moment : Moment κ} {value : Value} {token : κ} {rest : List (Delivery κ)}
      (next : moment.owed = ⟨value, .observer token⟩ :: rest) :
      Step moment { moment with owed := rest, tidings := (token, .value value) :: moment.tidings }
  | tell {moment : Moment κ} {token : κ} {notice : Notice} {rest : List (κ × Notice)}
      (next : moment.tidings = (token, notice) :: rest) :
      Step moment
        { moment with chronicle := moment.chronicle ++ [.told token notice], tidings := rest }

/-- What has happened stays in the chronicle. -/
theorem Step.chronicle_subset {before after : Moment κ} (h : Step before after) :
    before.chronicle ⊆ after.chronicle := by
  cases h with
  | issue action possible =>
      rw [Moment.chronicle_issue]
      exact List.subset_append_left _ _
  | deliver next => exact fun _ h => h
  | hand next => exact fun _ h => h
  | tell next => exact List.subset_append_left _ _

/-- What may happen in the course of a run. -/
abbrev Steps : Moment κ → Moment κ → Prop := Relation.ReflTransGen Step

/-! ## Programs as chains of moments -/

/-- To tell observers their news leads from a moment that has the news in front to one that is rid
of it. -/
def Attends (observe : Observer κ (StateM (Chronicle κ))) : Prop :=
  ∀ token notice (stage : Stage κ) owed tidings,
    Steps (stage.moment owed ((token, notice) :: tidings))
      (Stage.moment (after (observe token notice) stage) owed tidings)

section Attends

variable {observe : Observer κ (StateM (Chronicle κ))}

theorem Attends.forM (h : Attends observe) (notice : Notice) (tokens : List κ) (stage : Stage κ)
    (owed : List (Delivery κ)) (tidings : List (κ × Notice)) :
    Steps (stage.moment owed (tokens.map (fun token => (token, notice)) ++ tidings))
      (Stage.moment (after (tokens.forM fun token => observe token notice) stage) owed tidings) := by
  induction tokens generalizing stage with
  | nil => exact .refl
  | cons token rest ih => exact (h token notice stage owed _).trans (ih _)

theorem Attends.tell (h : Attends observe) (id : SearchId) (listeners : List κ) (stage : Stage κ)
    (owed : List (Delivery κ)) (tidings : List (κ × Notice)) :
    Steps (stage.moment owed (announcement stage.1 id listeners ++ tidings))
      (Stage.moment (after (World.tell observe id listeners) stage) owed tidings) := by
  have htell : after (World.tell observe id listeners) stage =
      after (match (stage.1.search id).result with
        | none => pure ()
        | some result => listeners.forM fun token => observe token (.result result)) stage := rfl
  rw [htell, announcement]
  cases (stage.1.search id).result with
  | none => exact .refl
  | some result => exact h.forM (.result result) listeners stage owed tidings

/-- A step of a search goes on by telling its listeners. -/
theorem Attends.step (h : Attends observe) (id : SearchId)
    (change : World κ → List κ × World κ) (stage : Stage κ) (owed : List (Delivery κ))
    (tidings : List (κ × Notice)) :
    Steps ((stage.moment owed tidings).advance id change)
      (Stage.moment (after (World.step observe id change) stage) owed tidings) :=
  h.tell id (change stage.1).1 ((change stage.1).2, stage.2) owed tidings

theorem Attends.call (h : Attends observe) (value : Value) (callback : Callback κ)
    (stage : Stage κ) (owed : List (Delivery κ)) (tidings : List (κ × Notice)) :
    Steps (stage.moment (⟨value, callback⟩ :: owed) tidings)
      (Stage.moment (after (World.call observe value callback) stage) owed tidings) := by
  cases callback with
  | observer token =>
      have hhand : Step (stage.moment (⟨value, .observer token⟩ :: owed) tidings)
          (stage.moment owed ((token, .value value) :: tidings)) := .hand rfl
      exact (h token (.value value) stage owed tidings).head hhand
  | attempt id index component =>
      have hdeliver : Step (stage.moment (⟨value, .attempt id index component⟩ :: owed) tidings)
          ((stage.moment owed tidings).advance id (deliver id index component value)) := .deliver rfl
      exact (h.step id (deliver id index component value) stage owed tidings).head hdeliver

theorem Attends.calls (h : Attends observe) (value : Value) (callbacks : List (Callback κ))
    (stage : Stage κ) (owed : List (Delivery κ)) (tidings : List (κ × Notice)) :
    Steps (stage.moment (callbacks.map (fun callback => ⟨value, callback⟩) ++ owed) tidings)
      (Stage.moment (after (callbacks.forM (World.call observe value)) stage) owed tidings) := by
  induction callbacks generalizing stage with
  | nil => exact .refl
  | cons callback rest ih => exact (h.call value callback stage _ tidings).trans (ih _)

/-- What cannot be produced is not produced; otherwise all who waited are called back. -/
theorem after_fulfil (frame : FrameId) (name : String) (value : Value) (stage : Stage κ) :
    after (fulfil observe frame name value) stage =
      match (stage.1.frame frame).fulfil name value with
      | .error _ => stage
      | .ok (callbacks, changed) =>
          after (callbacks.forM (call observe value)) (stage.1.setFrame frame changed, stage.2) := by
  unfold fulfil
  rw [after_bind]
  have hget : answerOf (get : StateT (World κ) (StateM (Chronicle κ)) (World κ)) stage = stage.1 :=
    rfl
  rw [hget]
  cases (stage.1.frame frame).fulfil name value <;> rfl

theorem after_notify (id : SearchId) (token : κ) (stage : Stage κ) :
    after (notify observe id token) stage =
      match (stage.1.search id).result with
      | some result => after (observe token (.result result)) stage
      | none => (stage.1.modifySearch id fun search =>
          { search with listeners := search.listeners ++ [token] }, stage.2) := by
  unfold notify
  rw [after_bind]
  have hget : answerOf (get : StateT (World κ) (StateM (Chronicle κ)) (World κ)) stage = stage.1 :=
    rfl
  rw [hget]
  cases (stage.1.search id).result <;> rfl

theorem after_subscribe (frame : FrameId) (name : String) (token : κ) (stage : Stage κ) :
    after (subscribe observe frame name token) stage =
      match (stage.1.request frame name (.observer token)).1 with
      | .delivered value => after (observe token (.value value))
          ((stage.1.request frame name (.observer token)).2, stage.2)
      | _ => ((stage.1.request frame name (.observer token)).2, stage.2) := by
  unfold subscribe
  rw [after_bind]
  have hrequest : answerOf (modifyGet fun world => world.request frame name (.observer token) :
      StateT (World κ) (StateM (Chronicle κ)) Availability) stage =
        (stage.1.request frame name (.observer token)).1 := rfl
  rw [hrequest]
  cases (stage.1.request frame name (.observer token)).1 <;> rfl

/-- What a call does at once is followed by what its observers do. -/
theorem Attends.issue (h : Attends observe) (action : Action κ) (stage : Stage κ)
    (owed : List (Delivery κ)) (tidings : List (κ × Notice)) :
    Steps ((stage.moment owed tidings).issue action)
      (Stage.moment (after (World.issue observe action) stage) owed tidings) := by
  obtain ⟨world, chronicle⟩ := stage
  cases action with
  | addFrame attributes => exact .refl
  | addSearch context names mode => exact .refl
  | start id => exact h.step id (begin id) (world, chronicle ++ [.called (.start id)]) owed tidings
  | fulfil frame name value =>
      have hissue : after (World.issue observe (.fulfil frame name value)) (world, chronicle) =
          after (World.fulfil observe frame name value)
            (world, chronicle ++ [.called (.fulfil frame name value)]) := rfl
      rw [hissue, after_fulfil]
      -- only a pending attribute has anybody to call, and they are called one after another
      by_cases hpending : world.content frame name = some none
      · simp only [Moment.issue, Stage.moment, hpending, fulfil_of_pending hpending]
        have hcalls := h.calls value ((world.waiting frame name).map Waiter.callback)
          (world.produce frame name value, chronicle ++ [.called (.fulfil frame name value)])
          owed tidings
        rw [List.map_map] at hcalls
        exact hcalls
      · obtain ⟨error, herror⟩ := fulfil_of_ne_pending hpending value
        simp only [Moment.issue, Stage.moment, herror]
        exact .refl
  | notify id token =>
      have hissue : after (World.issue observe (.notify id token)) (world, chronicle) =
          after (World.notify observe id token)
            (world, chronicle ++ [.called (.notify id token)]) := rfl
      rw [hissue, after_notify]
      cases hresult : (world.search id).result with
      | none =>
          simp only [Moment.issue, Stage.moment, hresult]
          exact .refl
      | some result =>
          simp only [Moment.issue, Stage.moment, hresult]
          exact h token (.result result) (world, _) owed tidings
  | subscribe frame name token =>
      have hissue : after (World.issue observe (.subscribe frame name token)) (world, chronicle) =
          after (World.subscribe observe frame name token)
            (world, chronicle ++ [.called (.subscribe frame name token)]) := rfl
      rw [hissue, after_subscribe]
      simp only [Moment.issue, Stage.moment]
      cases (world.request frame name (.observer token)).1 with
      | delivered value => exact h token (.value value) (_, _) owed tidings
      | absent => exact .refl
      | subscribed ticket => exact .refl

/-- A chain of calls is a chain of moments. -/
theorem Attends.issues (h : Attends observe) {before after : Stage κ}
    (hissues : Issues observe before after) (owed : List (Delivery κ))
    (tidings : List (κ × Notice)) :
    Steps (before.moment owed tidings) (after.moment owed tidings) := by
  induction hissues with
  | refl => exact .refl
  | tail _ hlast ih =>
      obtain ⟨action, hpossible, rfl⟩ := hlast
      exact (ih.tail (.issue action hpossible)).trans (h.issue action _ owed tidings)

/-- Observers that act by calls attend to their news, however deep they act. -/
theorem Acting.attends (h : Acting observe) : Attends observe := by
  induction h with
  | silent notes =>
      intro token notice stage owed tidings
      rw [notes]
      exact .single (.tell rfl)
  | react inner _ issues ih =>
      intro token notice stage owed tidings
      have hissues := (ih token notice stage).issues (issues token notice stage) owed tidings
      exact hissues.head (.tell rfl)

end Attends

/-! ## What is owed in the middle of a run -/

/-- A call leaves to every search what it is owed, and may owe more. -/
theorem Moment.delivering_issue {moment : Moment κ} (h : Delivering moment.owed moment.world)
    {action : Action κ} (hvalid : action.Valid moment.world) :
    Delivering (moment.issue action).owed (moment.issue action).world := by
  cases action with
  | addFrame attributes => exact h.addFrame hvalid
  | addSearch context names mode => exact h.addSearch hvalid names mode
  | start id => exact (h.begins id).2
  | fulfil frame name value =>
      by_cases hpending : moment.world.content frame name = some none
      · rw [issue_fulfil_of_pending hpending]
        exact h.produce hpending hvalid
      · rw [issue_fulfil_of_ne_pending hpending]
        exact h
  | notify id token =>
      cases hresult : (moment.world.search id).result with
      | none =>
          rw [issue_notify_of_open hresult]
          exact h.addListener id token
      | some result =>
          rw [issue_notify_of_ended hresult]
          exact h
  | subscribe frame name token => exact h.request frame name token

/-- At every moment the open attempts are those that are owed a value. -/
theorem Step.delivering {before after : Moment κ} (hstep : Step before after)
    (h : Delivering before.owed before.world) : Delivering after.owed after.world := by
  cases hstep with
  | issue action possible => exact Moment.delivering_issue h possible.valid
  | deliver next =>
      rw [next] at h
      exact h.answer
  | hand next =>
      rw [next] at h
      exact h.answer
  | tell next => exact h

theorem Steps.delivering {before after : Moment κ} (hsteps : Steps before after)
    (h : Delivering before.owed before.world) : Delivering after.owed after.world := by
  induction hsteps with
  | refl => exact h
  | tail _ hlast ih => exact hlast.delivering ih

/-- The moments of all runs. -/
def Arises (moment : Moment κ) : Prop := Steps ∅ moment

theorem Arises.delivering {moment : Moment κ} (h : Arises moment) :
    Delivering moment.owed moment.world :=
  Steps.delivering h (calm_iff.mp calm_empty)

/-- The world and the chronicle after a run of calls. -/
def Ran (observe : Observer κ (StateM (Chronicle κ))) (stage : Stage κ) : Prop :=
  Issues observe (∅, []) stage

/-- Between the calls of a run nothing is left to do. -/
theorem Acting.arises {observe : Observer κ (StateM (Chronicle κ))} (h : Acting observe)
    {stage : Stage κ} (hran : Ran observe stage) : Arises (stage.moment [] []) :=
  h.attends.issues hran [] []

theorem Ran.call {observe : Observer κ (StateM (Chronicle κ))} {stage : Stage κ}
    (h : Ran observe stage) (action : Action κ) (possible : action.Possible stage.1) :
    Ran observe (after (issue observe action) stage) :=
  Relation.ReflTransGen.tail h ⟨action, possible, rfl⟩

/-! ## A listener that starts a search -/

/-- An observer that notes what it is told, and does nothing else. -/
def noting : Observer κ (StateM (Chronicle κ)) :=
  fun token notice => StateT.lift (modify (· ++ [.told token notice]))

/-- An observer that starts a search whenever it is told something. -/
def starting (id : SearchId) : Observer κ (StateM (Chronicle κ)) := fun token notice => do
  noting token notice
  if id.index < (← get).searches.size then issue noting (.start id)

theorem acting_noting : Acting (noting : Observer κ (StateM (Chronicle κ))) :=
  .silent fun _ _ _ => rfl

theorem acting_starting (id : SearchId) :
    Acting (starting id : Observer κ (StateM (Chronicle κ))) := by
  refine .react (fun _ _ _ => noting) (fun _ _ _ => acting_noting) fun token notice stage => ?_
  have hafter : after (starting id token notice) stage =
      after (if id.index < stage.1.searches.size then issue noting (.start id) else pure ())
        (stage.1, stage.2 ++ [.told token notice]) := rfl
  rw [hafter]
  split
  · next hid => exact .single ⟨.start id, hid, rfl⟩
  · exact .refl

/-- A search over two pending frames and one over the second of them alone.  When the first search
ends its listeners start the second one, while the attribute that was produced is still being
delivered. -/
def relayCalls : List (Action Nat) :=
  [.addFrame [("a", none)], .addFrame [("a", none)],
    .addSearch ⟨[⟨0⟩, ⟨1⟩]⟩ ["a"] .contextual, .addSearch ⟨[⟨1⟩]⟩ ["a"] .existential,
    .notify ⟨0⟩ 7, .start ⟨0⟩, .notify ⟨0⟩ 8, .fulfil ⟨0⟩ "a" (.bool true), .notify ⟨0⟩ 9]

/-- The world and the chronicle after these calls. -/
def relay : Stage Nat :=
  relayCalls.foldl (fun stage action => after (issue (starting ⟨1⟩) action) stage) (∅, [])

theorem ran_relay : Ran (starting ⟨1⟩) relay := by
  have hattributes : ∀ (world : World Nat) name value,
      (name, some value) ∈ [("a", (none : Option Value))] → world.Knows value := by simp
  have hscalar : ∀ world : World Nat, world.Knows (.bool true) := by rintro world frame ⟨⟩
  have hempty : Ran (starting ⟨1⟩ : Observer Nat _) (∅, []) := .refl
  have hfirst := hempty.call (.addFrame [("a", none)]) (hattributes _)
  have hsecond := hfirst.call (.addFrame [("a", none)]) (hattributes _)
  have hboth := hsecond.call (.addSearch ⟨[⟨0⟩, ⟨1⟩]⟩ ["a"] .contextual)
    (by unfold Action.Possible Action.Valid; decide +kernel)
  have hone := hboth.call (.addSearch ⟨[⟨1⟩]⟩ ["a"] .existential)
    (by unfold Action.Possible Action.Valid; decide +kernel)
  have hbefore := hone.call (.notify ⟨0⟩ 7) (by unfold Action.Possible; decide +kernel)
  have hstart := hbefore.call (.start ⟨0⟩) (by unfold Action.Possible; decide +kernel)
  have hbetween := hstart.call (.notify ⟨0⟩ 8) (by unfold Action.Possible; decide +kernel)
  have hfulfil := hbetween.call (.fulfil ⟨0⟩ "a" (.bool true)) (hscalar _)
  have hafter := hfulfil.call (.notify ⟨0⟩ 9) (by unfold Action.Possible; decide +kernel)
  simpa only [relay, relayCalls, List.foldl_cons, List.foldl_nil] using hafter

end FrameLang.World
