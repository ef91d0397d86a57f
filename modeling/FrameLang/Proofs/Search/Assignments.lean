import FrameLang.Proofs.Search.Cells
import FrameLang.Proofs.Search.Runs

/-!
# Attributes in a running world

Whoever uses a world may ask its frames for attributes, produce them and stop waiting for them,
at any time, and so may every observer that is called back.  This file lists what is done with
one frame in the course of a program (`World.Deals`), whoever does it, and shows that all the
attributes of the frame are assigned at most once and delivered exactly
(`World.assigned_once_delivered_exactly`).

## Strategy

The steps of searches do nothing to a frame but ask it and cancel (`World.Touched`); only
`World.fulfil` assigns, and it then calls back those who have waited one after the other.
So a program leads the desk of the frame from step to step (`World.Deals.steps`), and the
callbacks that are due when a program starts are still due when it ends.
-/

namespace FrameLang.World

variable {κ σ : Type} {frame : FrameId}

/-! ## What touches a frame -/

/-- What a change of the world asks of a frame, and what it cancels. -/
inductive Touches (frame : FrameId) : World κ → World κ → List (Dealing (Callback κ)) → Prop
  /-- Whatever leaves the frame as it is need not be told. -/
  | other {world later : World κ} (h : later.frame frame = world.frame frame)
      (hsize : world.frames.size ≤ later.frames.size) : Touches frame world later []
  | request (world : World κ) (name : String) (callback : Callback κ) :
      Touches frame world (world.request frame name callback).2
        [.asked name callback (world.request frame name callback).1]
  | cancel (world : World κ) (name : String) (ticket : Nat) :
      Touches frame world (world.cancel frame name ticket).2
        [.cancelled name ticket (world.cancel frame name ticket).1]
  | trans {first second third : World κ} {dealings more : List (Dealing (Callback κ))}
      (h : Touches frame first second dealings) (h' : Touches frame second third more) :
      Touches frame first third (dealings ++ more)

theorem Touches.size {world later : World κ} {dealings : List (Dealing (Callback κ))}
    (h : Touches frame world later dealings) : world.frames.size ≤ later.frames.size := by
  induction h with
  | other h hsize => exact hsize
  | request world name callback => simp [World.request]
  | cancel world name ticket => simp
  | trans h h' ih ih' => exact Nat.le_trans ih ih'

/-- A change that only asks a frame and cancels, if the frame is there. -/
def Touched (frame : FrameId) (world later : World κ) : Prop :=
  frame.index < world.frames.size → ∃ dealings, Touches frame world later dealings

section Touched

variable {world : World κ}

theorem Touched.of_frames {later : World κ} (h : later.frames = world.frames) :
    Touched frame world later := by
  refine fun _ => ⟨[], .other ?_ (Nat.le_of_eq (congrArg Array.size h).symm)⟩
  rw [World.frame, World.frame, h]

theorem Touched.trans {second third : World κ} (h : Touched frame world second)
    (h' : Touched frame second third) : Touched frame world third := by
  intro hframe
  obtain ⟨dealings, hdealings⟩ := h hframe
  obtain ⟨more, hmore⟩ := h' (Nat.lt_of_lt_of_le hframe hdealings.size)
  exact ⟨dealings ++ more, hdealings.trans hmore⟩

theorem touched_modifySearch (world : World κ) (id : SearchId) (change : Search κ → Search κ) :
    Touched frame world (world.modifySearch id change) :=
  .of_frames rfl

theorem touched_setFrame (world : World κ) {other : FrameId} (hne : other ≠ frame)
    (changed : Frame (Callback κ)) : Touched frame world (world.setFrame other changed) := by
  refine fun _ => ⟨[], .other ?_ (by simp)⟩
  rw [frame_setFrame, if_neg fun h => hne h.1]

theorem touched_addFrame (world : World κ) (added : Frame (Callback κ)) :
    Touched frame world (world.addFrame added).2 :=
  fun hframe => ⟨[], .other (frame_addFrame_of_lt world added hframe) (by simp)⟩

theorem touched_request (world : World κ) (other : FrameId) (name : String)
    (callback : Callback κ) : Touched frame world (world.request other name callback).2 := by
  by_cases heq : other = frame
  · subst heq
    exact fun _ => ⟨_, .request world name callback⟩
  · exact touched_setFrame world heq _

theorem touched_cancel (world : World κ) (other : FrameId) (name : String) (ticket : Nat) :
    Touched frame world (world.cancel other name ticket).2 := by
  by_cases heq : other = frame
  · subst heq
    exact fun _ => ⟨_, .cancel world name ticket⟩
  · exact touched_setFrame world heq _

theorem touched_release (world : World κ) (subscriptions : List (Option Subscription)) :
    Touched frame world (world.release subscriptions) := by
  induction subscriptions generalizing world with
  | nil => exact .of_frames rfl
  | cons subscription rest ih =>
      rw [release_cons]
      cases subscription with
      | none => exact ih world
      | some subscription =>
          obtain ⟨other, name, ticket⟩ := subscription
          exact (touched_cancel world other name ticket).trans (ih _)

theorem touched_commit (world : World κ) (id : SearchId) (result : Result) :
    Touched frame world (commit id result world).2 :=
  (touched_modifySearch world id _).trans (touched_release _ _)

theorem touched_settle (world : World κ) (id : SearchId) :
    Touched frame world (settle id world).2 := by
  unfold settle
  dsimp only
  split
  · exact .of_frames rfl
  · split
    · exact .of_frames rfl
    · exact touched_commit world id _
    · exact touched_commit world id _
    · exact (touched_addFrame world _).trans (touched_commit _ id _)

theorem touched_record (world : World κ) (id : SearchId) (index : Nat) (outcome : Outcome) :
    Touched frame world (record id index outcome world).2 :=
  (touched_modifySearch world id _).trans (touched_settle _ id)

theorem touched_ask (world : World κ) (id : SearchId) (index component : Nat) (name : String)
    (other : FrameId) {next : Value → World κ → List κ × World κ}
    (hnext : ∀ value later, Touched frame later (next value later).2) :
    Touched frame world (ask id index component name other next world).2 := by
  have hnoted : Touched frame world (noteAttempt id ⟨index, component, other⟩ world) :=
    touched_modifySearch world id _
  have hasked := hnoted.trans (touched_request (noteAttempt id ⟨index, component, other⟩ world)
    other name (.attempt id index component))
  rw [ask_eq]
  refine hasked.trans ?_
  generalize (noteAttempt id ⟨index, component, other⟩ world).request other name
    (.attempt id index component) = answer
  obtain ⟨availability, later⟩ := answer
  cases availability with
  | absent => exact touched_record later id index .notFound
  | delivered value => exact hnext value later
  | subscribed ticket => exact touched_modifySearch later id _

theorem touched_receive (world : World κ) (id : SearchId) (index component : Nat)
    (rest : List String) (value : Value) :
    Touched frame world (receive id index component rest value world).2 := by
  induction rest generalizing world component value with
  | nil =>
      cases hcommitted : (world.search id).isCommitted with
      | true =>
          rw [receive_of_committed hcommitted]
          exact .of_frames rfl
      | false =>
          rw [receive_nil hcommitted]
          exact (touched_modifySearch world id _).trans (touched_record _ id index _)
  | cons name rest ih =>
      cases hcommitted : (world.search id).isCommitted with
      | true =>
          rw [receive_of_committed hcommitted]
          exact .of_frames rfl
      | false =>
          have htaken : Touched frame world (subscribeTo id index none world) :=
            touched_modifySearch world id _
          rw [receive_cons hcommitted]
          refine htaken.trans ?_
          cases value with
          | frame inner =>
              exact touched_ask _ id index (component + 1) name inner fun value later =>
                ih later (component + 1) value
          | _ => exact touched_record _ id index _

theorem touched_attemptFrom (world : World κ) (id : SearchId) (name : String) (rest : List String)
    (index : Nat) (frames : List FrameId) :
    Touched frame world (attemptFrom id name rest index frames world).2 := by
  induction frames generalizing world index with
  | nil => exact touched_settle world id
  | cons other frames ih =>
      rw [attemptFrom]
      split
      · exact .of_frames rfl
      · have hgoes : ∀ value (later : World κ),
            Touched frame later (receive id index 0 rest value later).2 :=
          fun value later => touched_receive later id index 0 rest value
        exact (touched_ask world id index 0 name other hgoes).trans (ih _ (index + 1))

theorem touched_begin (world : World κ) (id : SearchId) :
    Touched frame world (begin id world).2 := by
  cases hstarted : (world.search id).started with
  | true =>
      rw [begin_of_started hstarted]
      exact .of_frames rfl
  | false =>
      rw [begin_eq hstarted]
      refine (touched_modifySearch world id _ : Touched frame world (noteStarted id world)).trans ?_
      cases Search.pathError? (world.search id).names with
      | some error => exact touched_commit _ id _
      | none =>
          cases (world.search id).names with
          | nil => exact .of_frames rfl
          | cons name rest => exact touched_attemptFrom _ id name rest 0 _

theorem touched_deliver (world : World κ) (id : SearchId) (index component : Nat) (value : Value) :
    Touched frame world (deliver id index component value world).2 :=
  touched_receive world id index component _ value

end Touched

/-! ## Programs -/

/-- The world and the state of its own that a program leaves. -/
def final {α : Type} (program : StateT (World κ) (StateM σ) α) (state : World κ × σ) :
    World κ × σ :=
  let ended := (program.run state.1).run state.2
  (ended.1.2, ended.2)

/-- What a program gives back. -/
def returned {α : Type} (program : StateT (World κ) (StateM σ) α) (state : World κ × σ) : α :=
  ((program.run state.1).run state.2).1.1

/-- What one may do with a world.  Observers may do the same when they are called. -/
inductive Uses : {α : Type} → StateT (World κ) (StateM σ) α → Prop where
  | own {α : Type} (step : StateM σ α) : Uses (StateT.lift step : StateT (World κ) (StateM σ) α)
  | look : Uses (get : StateT (World κ) (StateM σ) (World κ))
  | bind {α β : Type} {first : StateT (World κ) (StateM σ) α}
      {next : α → StateT (World κ) (StateM σ) β} (h : Uses first)
      (h' : ∀ value, Uses (next value)) : Uses (first >>= next)
  | addFrame (attributes : List (String × Option Value)) :
      Uses (modifyGet fun world : World κ => world.addFrame (.ofAttributes attributes))
  | addTemplate (names : List String) :
      Uses (modifyGet fun world : World κ => world.addTemplate names)
  | addSearch (search : Search κ) : Uses (modifyGet fun world : World κ => world.addSearch search)
  | cancel (frame : FrameId) (name : String) (ticket : Nat) :
      Uses (modifyGet fun world : World κ => world.cancel frame name ticket)
  | subscribe {observe : Observer κ (StateM σ)} (h : ∀ token notice, Uses (observe token notice))
      (frame : FrameId) (name : String) (token : κ) : Uses (subscribe observe frame name token)
  | fulfil {observe : Observer κ (StateM σ)} (h : ∀ token notice, Uses (observe token notice))
      (frame : FrameId) (name : String) (value : Value) : Uses (fulfil observe frame name value)
  | start {observe : Observer κ (StateM σ)} (h : ∀ token notice, Uses (observe token notice))
      (id : SearchId) : Uses (start observe id)
  | notify {observe : Observer κ (StateM σ)} (h : ∀ token notice, Uses (observe token notice))
      (id : SearchId) (token : κ) : Uses (notify observe id token)

/-! ## What a program does with a frame -/

mutual

/-- What is done with a frame in the course of a program, in order. -/
inductive Deals (frame : FrameId) : {α : Type} → StateT (World κ) (StateM σ) α → World κ × σ →
    List (Dealing (Callback κ)) → Prop where
  | own {α : Type} (step : StateM σ α) (state : World κ × σ) :
      Deals frame (StateT.lift step : StateT (World κ) (StateM σ) α) state []
  | look (state : World κ × σ) :
      Deals frame (get : StateT (World κ) (StateM σ) (World κ)) state []
  | bind {α β : Type} {first : StateT (World κ) (StateM σ) α}
      {next : α → StateT (World κ) (StateM σ) β} {state : World κ × σ}
      {dealings more : List (Dealing (Callback κ))} (h : Deals frame first state dealings)
      (h' : Deals frame (next (returned first state)) (final first state) more) :
      Deals frame (first >>= next) state (dealings ++ more)
  | touch {α : Type} {change : World κ → α × World κ} {state : World κ × σ}
      {dealings : List (Dealing (Callback κ))}
      (h : Touches frame state.1 (change state.1).2 dealings) :
      Deals frame (modifyGet change : StateT (World κ) (StateM σ) α) state dealings
  | refuse {observe : Observer κ (StateM σ)} {name : String} {value : Value} {state : World κ × σ}
      {error : FrameError} (h : (state.1.frame frame).fulfil name value = .error error) :
      Deals frame (fulfil observe frame name value) state
        [.produced name value (returned (fulfil observe frame name value) state)]
  /-- What has been produced is followed by what those do who are called back. -/
  | produce {observe : Observer κ (StateM σ)} {name : String} {value : Value} {state : World κ × σ}
      {callbacks : List (Callback κ)} {changed : Frame (Callback κ)}
      {dealings : List (Dealing (Callback κ))}
      (h : (state.1.frame frame).fulfil name value = .ok (callbacks, changed))
      (h' : Serves frame observe name value (state.1.waiting frame name)
        (state.1.setFrame frame changed, state.2) dealings) :
      Deals frame (fulfil observe frame name value) state
        (.produced name value (returned (fulfil observe frame name value) state) :: dealings)

/-- What is done with a frame while those who have waited are called back one after the other. -/
inductive Serves (frame : FrameId) : Observer κ (StateM σ) → String → Value →
    List (Waiter (Callback κ)) → World κ × σ → List (Dealing (Callback κ)) → Prop where
  | done {observe : Observer κ (StateM σ)} {name : String} {value : Value} {state : World κ × σ} :
      Serves frame observe name value [] state []
  | next {observe : Observer κ (StateM σ)} {name : String} {value : Value}
      {waiter : Waiter (Callback κ)} {rest : List (Waiter (Callback κ))} {state : World κ × σ}
      {dealings more : List (Dealing (Callback κ))}
      (h : Deals frame (call observe value waiter.callback) state dealings)
      (h' : Serves frame observe name value rest
        (final (call observe value waiter.callback) state) more) :
      Serves frame observe name value (waiter :: rest) state
        (.ran name waiter value :: (dealings ++ more))

end

theorem final_bind {α β : Type} (first : StateT (World κ) (StateM σ) α)
    (next : α → StateT (World κ) (StateM σ) β) (state : World κ × σ) :
    final (first >>= next) state = final (next (returned first state)) (final first state) :=
  rfl

theorem returned_bind {α β : Type} (first : StateT (World κ) (StateM σ) α)
    (next : α → StateT (World κ) (StateM σ) β) (state : World κ × σ) :
    returned (first >>= next) state = returned (next (returned first state)) (final first state) :=
  rfl

section Fulfil

variable {name : String} {value : Value} {state : World κ × σ}

/-- A value that is refused changes nothing. -/
theorem fulfil_error (observe : Observer κ (StateM σ)) {error : FrameError}
    (h : (state.1.frame frame).fulfil name value = .error error) :
    returned (fulfil observe frame name value) state = .error error ∧
      final (fulfil observe frame name value) state = state := by
  have hget : returned (get : StateT (World κ) (StateM σ) (World κ)) state = state.1 := rfl
  unfold fulfil
  rw [returned_bind, final_bind, hget, h]
  exact ⟨rfl, rfl⟩

/-- A value that is accepted is delivered to those who have waited. -/
theorem fulfil_ok (observe : Observer κ (StateM σ)) {callbacks : List (Callback κ)}
    {changed : Frame (Callback κ)}
    (h : (state.1.frame frame).fulfil name value = .ok (callbacks, changed)) :
    returned (fulfil observe frame name value) state = .ok callbacks.length ∧
      final (fulfil observe frame name value) state =
        final (callbacks.forM (call observe value)) (state.1.setFrame frame changed, state.2) := by
  have hget : returned (get : StateT (World κ) (StateM σ) (World κ)) state = state.1 := rfl
  unfold fulfil
  rw [returned_bind, final_bind, hget, h]
  exact ⟨rfl, rfl⟩

/-- Those who have waited are called back. -/
theorem callbacks_eq {callbacks : List (Callback κ)} {changed : Frame (Callback κ)}
    (h : (state.1.frame frame).fulfil name value = .ok (callbacks, changed)) :
    callbacks = (state.1.waiting frame name).map Waiter.callback := by
  by_cases hpending : state.1.content frame name = some none
  · rw [fulfil_of_pending hpending] at h
    cases h
    rfl
  · obtain ⟨error, herror⟩ := fulfil_of_ne_pending hpending value
    rw [herror] at h
    cases h

end Fulfil

/-! ## Programs as steps of a desk -/

theorem frame_setFrame_self {world : World κ} (hframe : frame.index < world.frames.size)
    (changed : Frame (Callback κ)) : (world.setFrame frame changed).frame frame = changed := by
  rw [frame_setFrame, if_pos ⟨rfl, hframe⟩]

/-- What touches a frame leads its desk from step to step. -/
theorem Touches.steps {world later : World κ} {dealings : List (Dealing (Callback κ))}
    (h : Touches frame world later dealings) (hframe : frame.index < world.frames.size)
    (due : List (Errand (Callback κ))) (history : List (Dealing (Callback κ))) :
    Desk.Steps ⟨world.frame frame, due, history⟩ ⟨later.frame frame, due, history ++ dealings⟩ := by
  induction h generalizing history with
  | @other world later h hsize => rw [h, List.append_nil]
  | request world name callback =>
      have hstep : Desk.Step ⟨world.frame frame, due, history⟩ _ := .ask name callback
      have hlater : (world.request frame name callback).2.frame frame =
          ((world.frame frame).request name callback).2 := frame_setFrame_self hframe _
      rw [hlater]
      exact .single hstep
  | cancel world name ticket =>
      have hstep : Desk.Step ⟨world.frame frame, due, history⟩ _ := .cancel name ticket
      have hlater : (world.cancel frame name ticket).2.frame frame =
          ((world.frame frame).cancel name ticket).2 := frame_setFrame_self hframe _
      rw [hlater]
      exact .single hstep
  | @trans first second third dealings more h h' ih ih' =>
      rw [← List.append_assoc]
      exact (ih hframe history).trans (ih' (Nat.lt_of_lt_of_le hframe h.size) _)

/-- Those who are to be called because of a value that has been produced. -/
def errands (name : String) (value : Value) (waiters : List (Waiter (Callback κ))) :
    List (Errand (Callback κ)) :=
  waiters.map fun waiter => ⟨name, waiter, value⟩

mutual

/-- A program leads the desk of a frame from step to step.  What is due before it is due after
it. -/
theorem Deals.steps {α : Type} {program : StateT (World κ) (StateM σ) α} {state : World κ × σ}
    {dealings : List (Dealing (Callback κ))} : Deals frame program state dealings →
    frame.index < state.1.frames.size → ∀ due history,
      frame.index < (final program state).1.frames.size ∧
        Desk.Steps ⟨state.1.frame frame, due, history⟩
          ⟨(final program state).1.frame frame, due, history ++ dealings⟩
  | .own step state, hframe, due, history => ⟨hframe, by rw [List.append_nil]; exact .refl⟩
  | .look state, hframe, due, history => ⟨hframe, by rw [List.append_nil]; exact .refl⟩
  | .bind h h', hframe, due, history => by
      obtain ⟨hmiddle, hfirst⟩ := h.steps hframe due history
      obtain ⟨hlast, hsecond⟩ := h'.steps hmiddle due _
      rw [← List.append_assoc]
      exact ⟨hlast, hfirst.trans hsecond⟩
  | .touch h, hframe, due, history =>
      ⟨Nat.lt_of_lt_of_le hframe h.size, h.steps hframe due history⟩
  | @Deals.refuse _ _ _ observe name value state error h, hframe, due, history => by
      rw [(fulfil_error observe h).1, (fulfil_error observe h).2]
      exact ⟨hframe, .single (.refuse h)⟩
  | @Deals.produce _ _ _ observe name value state callbacks changed more h h', hframe, due,
      history => by
      obtain ⟨hreturned, hfinal⟩ := fulfil_ok observe h
      have hplaced : (state.1.setFrame frame changed).frame frame = changed :=
        frame_setFrame_self hframe changed
      have hinside : frame.index < (state.1.setFrame frame changed).frames.size := by
        simpa using hframe
      -- the desk first takes the value in, and then calls those who are due because of it
      obtain ⟨hlast, hserved⟩ := h'.steps hinside due
        (history ++ [.produced name value (.ok callbacks.length)])
      have hproduced : Desk.Step ⟨state.1.frame frame, due, history⟩
          ⟨changed, errands name value (state.1.waiting frame name) ++ due,
            history ++ [.produced name value (.ok callbacks.length)]⟩ := .produce h
      rw [hplaced, ← callbacks_eq h, ← hfinal, List.append_assoc] at hserved
      rw [← callbacks_eq h, ← hfinal] at hlast
      rw [hreturned]
      exact ⟨hlast, hserved.head hproduced⟩

/-- Those who are called one after the other are due first, and then no longer. -/
theorem Serves.steps {observe : Observer κ (StateM σ)} {name : String} {value : Value}
    {waiters : List (Waiter (Callback κ))} {state : World κ × σ}
    {dealings : List (Dealing (Callback κ))} :
    Serves frame observe name value waiters state dealings →
    frame.index < state.1.frames.size → ∀ due history,
      frame.index <
          (final ((waiters.map Waiter.callback).forM (call observe value)) state).1.frames.size ∧
        Desk.Steps ⟨state.1.frame frame, errands name value waiters ++ due, history⟩
          ⟨(final ((waiters.map Waiter.callback).forM (call observe value)) state).1.frame frame,
            due, history ++ dealings⟩
  | .done, hframe, due, history => ⟨hframe, by rw [List.append_nil]; exact .refl⟩
  | @Serves.next _ _ _ observe name value waiter rest state dealings more h h', hframe, due,
      history => by
      let desk : Desk (Callback κ) :=
        ⟨state.1.frame frame, errands name value (waiter :: rest) ++ due, history⟩
      have hdue : desk.due = ⟨name, waiter, value⟩ :: (errands name value rest ++ due) := rfl
      have hran : desk.Step ⟨state.1.frame frame, errands name value rest ++ due,
          history ++ [.ran name waiter value]⟩ := .run hdue
      obtain ⟨hmiddle, hcalled⟩ := h.steps hframe (errands name value rest ++ due)
        (history ++ [.ran name waiter value])
      obtain ⟨hlast, hserved⟩ := h'.steps hmiddle due
        (history ++ [.ran name waiter value] ++ dealings)
      have hall : history ++ (.ran name waiter value :: (dealings ++ more)) =
          history ++ [.ran name waiter value] ++ dealings ++ more := by simp
      rw [hall]
      exact ⟨hlast, (hcalled.trans hserved).head hran⟩

end

/-! ## Every program has its dealings -/

/-- A program of which it can be said what it does with a frame. -/
def Dealt (frame : FrameId) {α : Type} (program : StateT (World κ) (StateM σ) α) : Prop :=
  ∀ state : World κ × σ, frame.index < state.1.frames.size →
    ∃ dealings, Deals frame program state dealings

section Dealt

variable {observe : Observer κ (StateM σ)}

theorem dealt_own {α : Type} (step : StateM σ α) :
    Dealt frame (StateT.lift step : StateT (World κ) (StateM σ) α) :=
  fun state _ => ⟨[], .own step state⟩

theorem dealt_pure {α : Type} (value : α) :
    Dealt frame (pure value : StateT (World κ) (StateM σ) α) :=
  dealt_own (pure value)

theorem dealt_look : Dealt frame (get : StateT (World κ) (StateM σ) (World κ)) :=
  fun state _ => ⟨[], .look state⟩

theorem Dealt.bind {α β : Type} {first : StateT (World κ) (StateM σ) α}
    {next : α → StateT (World κ) (StateM σ) β} (h : Dealt frame first)
    (h' : ∀ value, Dealt frame (next value)) : Dealt frame (first >>= next) := by
  intro state hframe
  obtain ⟨dealings, hdealings⟩ := h state hframe
  obtain ⟨hmiddle, -⟩ := hdealings.steps hframe [] []
  obtain ⟨more, hmore⟩ := h' (returned first state) (final first state) hmiddle
  exact ⟨dealings ++ more, .bind hdealings hmore⟩

theorem dealt_change {α : Type} {change : World κ → α × World κ}
    (h : ∀ world, Touched frame world (change world).2) :
    Dealt frame (modifyGet change : StateT (World κ) (StateM σ) α) := by
  intro state hframe
  obtain ⟨dealings, hdealings⟩ := h state.1 hframe
  exact ⟨dealings, .touch hdealings⟩

theorem dealt_forM {β : Type} {body : β → StateT (World κ) (StateM σ) Unit}
    (h : ∀ item, Dealt frame (body item)) (items : List β) : Dealt frame (items.forM body) := by
  induction items with
  | nil => exact dealt_pure ()
  | cons item rest ih => exact (h item).bind fun _ => ih

theorem dealt_tell (h : ∀ token notice, Dealt frame (observe token notice)) (id : SearchId)
    (listeners : List κ) : Dealt frame (tell observe id listeners) := by
  unfold tell
  refine dealt_look.bind fun world => ?_
  cases (world.search id).result with
  | none => exact dealt_pure ()
  | some result => exact dealt_forM (fun token => h token _) listeners

theorem dealt_step (h : ∀ token notice, Dealt frame (observe token notice)) (id : SearchId)
    {change : World κ → List κ × World κ}
    (hchange : ∀ world, Touched frame world (change world).2) :
    Dealt frame (step observe id change) :=
  (dealt_change hchange).bind fun listeners => dealt_tell h id listeners

theorem dealt_call (h : ∀ token notice, Dealt frame (observe token notice)) (value : Value)
    (callback : Callback κ) : Dealt frame (call observe value callback) := by
  cases callback with
  | observer token => exact h token _
  | attempt id index component =>
      exact dealt_step h id fun world => touched_deliver world id index component value

theorem exists_serves (h : ∀ token notice, Dealt frame (observe token notice)) (name : String)
    (value : Value) (waiters : List (Waiter (Callback κ))) (state : World κ × σ)
    (hframe : frame.index < state.1.frames.size) :
    ∃ dealings, Serves frame observe name value waiters state dealings := by
  induction waiters generalizing state with
  | nil => exact ⟨[], .done⟩
  | cons waiter rest ih =>
      obtain ⟨dealings, hdealings⟩ := dealt_call h value waiter.callback state hframe
      obtain ⟨hmiddle, -⟩ := hdealings.steps hframe [] []
      obtain ⟨more, hmore⟩ := ih (final (call observe value waiter.callback) state) hmiddle
      exact ⟨_, .next hdealings hmore⟩

theorem dealt_fulfil (h : ∀ token notice, Dealt frame (observe token notice)) (other : FrameId)
    (name : String) (value : Value) : Dealt frame (fulfil observe other name value) := by
  by_cases heq : other = frame
  · subst heq
    intro state hframe
    cases hfulfil : (state.1.frame other).fulfil name value with
    | error error => exact ⟨_, .refuse hfulfil⟩
    | ok produced =>
        obtain ⟨callbacks, changed⟩ := produced
        have hinside : other.index < (state.1.setFrame other changed).frames.size := by
          simpa using hframe
        obtain ⟨dealings, hdealings⟩ := exists_serves h name value (state.1.waiting other name)
          (state.1.setFrame other changed, state.2) hinside
        exact ⟨_, .produce hfulfil hdealings⟩
  · -- those who are called because of another frame may deal with this one
    unfold fulfil
    refine dealt_look.bind fun world => ?_
    cases (world.frame other).fulfil name value with
    | error error => exact dealt_pure _
    | ok produced =>
        obtain ⟨callbacks, changed⟩ := produced
        have hplaced : Dealt frame (modify fun world => world.setFrame other changed :
            StateT (World κ) (StateM σ) PUnit) :=
          dealt_change fun world => touched_setFrame world heq changed
        exact hplaced.bind fun _ => (dealt_forM (dealt_call h value) callbacks).bind fun _ =>
          dealt_pure _

theorem dealt_subscribe (h : ∀ token notice, Dealt frame (observe token notice)) (other : FrameId)
    (name : String) (token : κ) : Dealt frame (subscribe observe other name token) := by
  unfold subscribe
  refine (dealt_change fun world => touched_request world other name (.observer token)).bind
    fun availability => ?_
  cases availability with
  | delivered value => exact (h token _).bind fun _ => dealt_pure _
  | absent => exact dealt_pure _
  | subscribed ticket => exact dealt_pure _

theorem dealt_notify (h : ∀ token notice, Dealt frame (observe token notice)) (id : SearchId)
    (token : κ) : Dealt frame (notify observe id token) := by
  unfold notify
  refine dealt_look.bind fun world => ?_
  cases (world.search id).result with
  | some result => exact h token _
  | none => exact dealt_change fun world => touched_modifySearch world id _

end Dealt

theorem Uses.dealt {α : Type} {program : StateT (World κ) (StateM σ) α} (h : Uses program) :
    Dealt frame program := by
  induction h with
  | own step => exact dealt_own step
  | look => exact dealt_look
  | bind h h' ih ih' => exact ih.bind ih'
  | addFrame attributes => exact dealt_change fun world => touched_addFrame world _
  | addTemplate names => exact dealt_change fun world => .of_frames rfl
  | addSearch search => exact dealt_change fun world => .of_frames rfl
  | cancel other name ticket =>
      exact dealt_change fun world => touched_cancel world other name ticket
  | subscribe h other name token ih => exact dealt_subscribe ih other name token
  | fulfil h other name value ih => exact dealt_fulfil ih other name value
  | start h id ih => exact dealt_step ih id fun world => touched_begin world id
  | notify h id token ih => exact dealt_notify ih id token

/-! ## Whole programs -/

/-- A frame gives up a ticket just when somebody waits under it. -/
theorem cancel_found_iff (world : World κ) (name : String) (ticket : Nat) :
    (world.cancel frame name ticket).1 = true ↔
      ticket ∈ (world.waiting frame name).map Waiter.ticket := by
  rw [cancel, waiting, Frame.waiting]
  rcases (world.frame frame).cancel_cases name ticket with
    ⟨waiting, hpending, hticket, hcancel⟩ | ⟨hnobody, hcancel⟩
  · rw [hcancel, hpending]
    exact iff_of_true rfl hticket
  · rw [hcancel]
    refine iff_of_false Bool.false_ne_true fun hticket => ?_
    cases hslot : (world.frame frame).slots.find? name with
    | none => simp [hslot] at hticket
    | some slot =>
        rw [hslot] at hticket
        cases slot with
        | ready value => simp [Slot.waiting] at hticket
        | pending waiting => exact hnobody waiting hslot hticket

/-- A value that is refused leaves everything as it is. -/
theorem final_fulfil_of_error {observe : Observer κ (StateM σ)} {name : String} {value : Value}
    {state : World κ × σ} {error : FrameError}
    (h : returned (fulfil observe frame name value) state = .error error) :
    final (fulfil observe frame name value) state = state := by
  cases hfulfil : (state.1.frame frame).fulfil name value with
  | error cause => exact (fulfil_error observe hfulfil).2
  | ok produced =>
      rw [(fulfil_ok observe hfulfil).1] at h
      cases h

/-- The attributes of a frame are assigned at most once and delivered exactly, whatever a program
does with the frame, and whatever the observers do that are called back meanwhile.

Every dealing with the frame comes to what the dealings before it require.  A value that an
attribute has is its value for ever.  Tickets count up.  In the end everyone who has been made to
wait for an attribute still waits for it, or has been called once, with its value, or has cancelled
once with success.  When an attribute is produced, those are called who wait for it, in the order
in which they have asked, and their number is given back.  A value that is refused changes nothing,
and cancelling succeeds just when somebody waits under the ticket. -/
theorem assigned_once_delivered_exactly {α : Type} {program : StateT (World κ) (StateM σ) α}
    (hprogram : Uses program) {world : World κ} (hframe : frame.index < world.frames.size)
    {attributes : List (String × Option Value)}
    (hfresh : world.frame frame = .ofAttributes attributes) (own : σ) :
    (∃ dealings, Deals frame program (world, own) dealings) ∧
    (∀ dealings, Deals frame program (world, own) dealings →
      Desk.Delivered (.ofAttributes attributes) ((final program (world, own)).1.frame frame)
        dealings) ∧
    (∀ (observe : Observer κ (StateM σ)) name value (state : World κ × σ) error,
      returned (fulfil observe frame name value) state = .error error →
        final (fulfil observe frame name value) state = state) ∧
    ∀ (later : World κ) name ticket, (later.cancel frame name ticket).1 = true ↔
      ticket ∈ (later.waiting frame name).map Waiter.ticket := by
  refine ⟨hprogram.dealt (world, own) hframe, fun dealings hdealings => ?_,
    fun _ _ _ _ _ => final_fulfil_of_error, cancel_found_iff⟩
  -- nothing is due at the start, so nothing is due at the end
  obtain ⟨-, hsteps⟩ := hdealings.steps hframe [] []
  have hstart : Desk.Exact (.ofAttributes attributes) ⟨world.frame frame, [], []⟩ := by
    rw [hfresh]
    exact Desk.exact_start rfl (waiting_ofAttributes attributes)
  exact (hstart.steps hsteps).delivered rfl

/-- Two of three who wait for an attribute are called.  The first of them waits for another
attribute when it is called, and produces it. -/
theorem assigned_once_delivered_exactly_nested :
    ∃ (world : World Nat) (program : StateT (World Nat) (StateM (List Nat)) (Except FrameError Nat))
      (dealings : List (Dealing (Callback Nat))),
      Uses program ∧ world.frame ⟨0⟩ = .ofAttributes [("x", none), ("y", none)] ∧
      Deals ⟨0⟩ program (world, []) dealings ∧
      Desk.Delivered (.ofAttributes [("x", none), ("y", none)])
        ((final program (world, [])).1.frame ⟨0⟩) dealings ∧
      returned program (world, []) = .ok 2 ∧ (final program (world, [])).2 = [2, 4, 3] := by
  let world : World Nat := ((∅ : World Nat).addFrame (.ofAttributes [("x", none), ("y", none)])).2
  let inner : Observer Nat (StateM (List Nat)) :=
    fun token _ => StateT.lift (modify (· ++ [token]))
  let outer : Observer Nat (StateM (List Nat)) := fun token notice => do
    inner token notice
    if token = 2 then
      let _ ← subscribe inner ⟨0⟩ "y" 4
      let _ ← fulfil inner ⟨0⟩ "y" .unit
  let program : StateT (World Nat) (StateM (List Nat)) (Except FrameError Nat) := do
    let _ ← subscribe outer ⟨0⟩ "x" 1
    let _ ← subscribe outer ⟨0⟩ "x" 2
    let _ ← subscribe outer ⟨0⟩ "x" 3
    let _ ← modifyGet fun world : World Nat => world.cancel ⟨0⟩ "x" 0
    fulfil outer ⟨0⟩ "x" (.bool true)
  have hinner : ∀ token notice, Uses (inner token notice) := fun token notice => .own _
  have houter : ∀ token notice, Uses (outer token notice) := by
    intro token notice
    refine .bind (hinner token notice) fun _ => ?_
    split
    · exact .bind (.subscribe hinner ⟨0⟩ "y" 4) fun _ =>
        .bind (.fulfil hinner ⟨0⟩ "y" .unit) fun _ => .own (pure ())
    · exact .own (pure ())
  have hprogram : Uses program :=
    .bind (.subscribe houter ⟨0⟩ "x" 1) fun _ => .bind (.subscribe houter ⟨0⟩ "x" 2) fun _ =>
      .bind (.subscribe houter ⟨0⟩ "x" 3) fun _ => .bind (.cancel ⟨0⟩ "x" 0) fun _ =>
        .fulfil houter ⟨0⟩ "x" (.bool true)
  have hframe : (⟨0⟩ : FrameId).index < world.frames.size := by decide
  have hfresh : world.frame ⟨0⟩ = .ofAttributes [("x", none), ("y", none)] := rfl
  obtain ⟨⟨dealings, hdealings⟩, hdelivered, -, -⟩ :=
    assigned_once_delivered_exactly hprogram hframe hfresh []
  have hcalled : returned program (world, []) = .ok 2 ∧
      (final program (world, [])).2 = [2, 4, 3] := by
    decide +kernel
  exact ⟨world, program, dealings, hprogram, hfresh, hdealings, hdelivered dealings hdealings,
    hcalled⟩

end FrameLang.World
