import FrameLang.Proofs.Search.Deliveries

/-!
# Searches against the frames as they are

Searches are started and attributes are produced in any order, and whoever is
told about it only looks on.  This file shows that between the calls a search
that has begun has ended just when the search frame by frame is determined by
what has been produced so far, and that it ends with the result of that search.

## Strategy

Every call keeps the world calm (`Calm.perform`), by the lemmas on the steps of a
search and on the deliveries of a value.  Observers come in through the log that
they may write: a program that is run with observers who only look changes the
world as if they were not there (`worldAfter`).
-/

namespace FrameLang.World

variable {κ σ : Type}

/-! ## Calls -/

/-- A call from outside. -/
inductive Action (κ : Type) where
  | addFrame (attributes : List (String × Option Value))
  | addSearch (context : Context) (names : List String) (mode : Mode)
  | start (search : SearchId)
  | fulfil (frame : FrameId) (name : String) (value : Value)
  | notify (search : SearchId) (token : κ)
  | subscribe (frame : FrameId) (name : String) (token : κ)

/-- Calls refer to frames that exist. -/
def Action.Valid (world : World κ) : Action κ → Prop
  | .addFrame attributes => ∀ name value, (name, some value) ∈ attributes → world.Knows value
  | .addSearch context _ _ => ∀ frame ∈ context.frames, frame.index < world.frames.size
  | .fulfil _ _ value => world.Knows value
  | .start _ | .notify _ _ | .subscribe _ _ _ => True

/-- Carry out a call. -/
def perform (observe : Observer κ (StateM σ)) : Action κ → StateT (World κ) (StateM σ) Unit
  | .addFrame attributes => modify fun world => (world.addFrame (.ofAttributes attributes)).2
  | .addSearch context names mode =>
      modify fun world => (world.addSearch (.new context names mode)).2
  | .start search => start observe search
  | .fulfil frame name value => discard (fulfil observe frame name value)
  | .notify search token => notify observe search token
  | .subscribe frame name token => discard (subscribe observe frame name token)

/-- What a program makes of the world, given what observers have written so far. -/
def worldAfter {α : Type} (program : StateT (World κ) (StateM σ) α) (world : World κ) (log : σ) :
    World κ :=
  ((program.run world).run log).1.2

/-- Observers that may write down what they are told, and change nothing in the world. -/
def OnlyLook (observe : Observer κ (StateM σ)) : Prop :=
  ∀ token notice world log, worldAfter (observe token notice) world log = world

/-- What a search is asked for. -/
structure Inquiry where
  context : List FrameId
  names : List String
  mode : Mode
  deriving DecidableEq

/-- What the searches of the world are asked for. -/
def inquiries (world : World κ) : List Inquiry :=
  world.searches.toList.map fun search => ⟨search.context, search.names, search.mode⟩

/-- What a call asks for. -/
def Action.inquiries : Action κ → List Inquiry
  | .addSearch context names mode => [⟨context.frames, names, mode⟩]
  | _ => []

/-- The worlds between the calls of a run, each with all that has been asked for. -/
inductive Reachable (observe : Observer κ (StateM σ)) : List Inquiry → World κ → Prop where
  | empty : Reachable observe [] ∅
  | call {inquiries : List Inquiry} {world : World κ} (action : Action κ) (log : σ)
      (reachable : Reachable observe inquiries world) (valid : action.Valid world) :
      Reachable observe (inquiries ++ action.inquiries)
        (worldAfter (perform observe action) world log)

/-! ## Programs whose observers only look -/

/-- A program changes the world in one way whatever is in the log. -/
def Changes {α : Type} (program : StateT (World κ) (StateM σ) α) (change : World κ → World κ) :
    Prop :=
  ∀ world log, worldAfter program world log = change world

theorem worldAfter_bind {α β : Type} (first : StateT (World κ) (StateM σ) α)
    (second : α → StateT (World κ) (StateM σ) β) (world : World κ) (log : σ) :
    worldAfter (first >>= second) world log =
      worldAfter (second ((first.run world).run log).1.1) (worldAfter first world log)
        ((first.run world).run log).2 :=
  rfl

theorem Changes.then {α β : Type} {first : StateT (World κ) (StateM σ) α}
    {second : α → StateT (World κ) (StateM σ) β} {change change' : World κ → World κ}
    (hfirst : Changes first change) (hsecond : ∀ result, Changes (second result) change') :
    Changes (first >>= second) fun world => change' (change world) := by
  intro world log
  rw [worldAfter_bind, hsecond, hfirst]

theorem changes_forM {α : Type} {program : α → StateT (World κ) (StateM σ) Unit}
    {change : World κ → α → World κ} (h : ∀ item, Changes (program item) (change · item))
    (items : List α) : Changes (items.forM program) fun world => items.foldl change world := by
  induction items with
  | nil => exact fun _ _ => rfl
  | cons item rest ih =>
      rw [List.forM_eq_forM, List.forM_cons]
      exact (h item).then fun _ => ih

section OnlyLook

variable {observe : Observer κ (StateM σ)}

theorem changes_observe (hlook : OnlyLook observe) (notice : Notice) (tokens : List κ) :
    Changes (tokens.forM fun token => observe token notice) fun world => world := by
  intro world log
  rw [changes_forM fun token => hlook token notice]
  simp

theorem changes_tell (hlook : OnlyLook observe) (id : SearchId) (listeners : List κ) :
    Changes (tell observe id listeners) fun world => world := by
  intro world log
  unfold worldAfter tell
  simp only [StateT.run_bind, StateT.run_get, pure_bind]
  cases (world.search id).result with
  | none => rfl
  | some result => exact changes_observe hlook (.result result) listeners world log

theorem changes_step (hlook : OnlyLook observe) (id : SearchId)
    (change : World κ → List κ × World κ) :
    Changes (step observe id change) fun world => (change world).2 := by
  have hmodify : Changes (modifyGet change : StateT (World κ) (StateM σ) (List κ))
      fun world => (change world).2 := fun _ _ => rfl
  exact hmodify.then fun listeners => changes_tell hlook id listeners

theorem changes_call (hlook : OnlyLook observe) (value : Value) (callback : Callback κ) :
    Changes (call observe value callback) (answer · ⟨value, callback⟩) := by
  cases callback with
  | observer token => exact hlook token (.value value)
  | attempt id index component => exact changes_step hlook id (deliver id index component value)

theorem worldAfter_fulfil (world : World κ) (frame : FrameId) (name : String) (value : Value)
    (log : σ) :
    worldAfter (fulfil observe frame name value) world log =
      match (world.frame frame).fulfil name value with
      | .error _ => world
      | .ok (callbacks, changed) =>
          worldAfter (callbacks.forM (call observe value)) (world.setFrame frame changed) log := by
  unfold fulfil
  rw [worldAfter_bind]
  have hget : (((get : StateT (World κ) (StateM σ) (World κ)).run world).run log).1.1 = world := rfl
  rw [hget]
  cases (world.frame frame).fulfil name value <;> rfl

/-- Producing a pending attribute calls back all who wait for it. -/
theorem fulfil_of_pending {world : World κ} {frame : FrameId} {name : String}
    (hpending : world.content frame name = some none) (value : Value) :
    (world.frame frame).fulfil name value =
      .ok ((world.waiting frame name).map Waiter.callback,
        ⟨(world.frame frame).slots.insert name (.ready value), world.ticket frame⟩) := by
  simp only [Frame.fulfil, find?_of_content_pending hpending]
  rfl

/-- What has been produced already, or is not there at all, cannot be produced. -/
theorem fulfil_of_ne_pending {world : World κ} {frame : FrameId} {name : String}
    (hpending : world.content frame name ≠ some none) (value : Value) :
    ∃ error, (world.frame frame).fulfil name value = .error error := by
  unfold Frame.fulfil
  cases hslot : (world.frame frame).slots.find? name with
  | none => exact ⟨_, rfl⟩
  | some slot =>
      cases slot with
      | ready found => exact ⟨_, rfl⟩
      | pending waiting => exact absurd (content_of_find? hslot) hpending

/-- Producing an attribute delivers its value to all who wait for it. -/
theorem worldAfter_fulfil_pending (hlook : OnlyLook observe) {world : World κ} {frame : FrameId}
    {name : String} (hpending : world.content frame name = some none) (value : Value) (log : σ) :
    worldAfter (fulfil observe frame name value) world log =
      (world.deliveries frame name value).foldl answer (world.produce frame name value) := by
  rw [worldAfter_fulfil, fulfil_of_pending hpending, deliveries, List.foldl_map]
  refine (changes_forM (changes_call hlook value) _ _ _).trans ?_
  exact List.foldl_map

theorem worldAfter_fulfil_of_ne {world : World κ} {frame : FrameId} {name : String}
    (hpending : world.content frame name ≠ some none) (value : Value) (log : σ) :
    worldAfter (fulfil observe frame name value) world log = world := by
  obtain ⟨error, herror⟩ := fulfil_of_ne_pending hpending value
  rw [worldAfter_fulfil, herror]

theorem worldAfter_notify (hlook : OnlyLook observe) (world : World κ) (id : SearchId) (token : κ)
    (log : σ) :
    worldAfter (notify observe id token) world log =
      match (world.search id).result with
      | some _ => world
      | none => world.modifySearch id fun search =>
          { search with listeners := search.listeners ++ [token] } := by
  unfold notify
  rw [worldAfter_bind]
  have hget : (((get : StateT (World κ) (StateM σ) (World κ)).run world).run log).1.1 = world := rfl
  rw [hget]
  cases (world.search id).result with
  | none => rfl
  | some result => exact hlook token (.result result) world log

theorem worldAfter_subscribe (hlook : OnlyLook observe) (world : World κ) (frame : FrameId)
    (name : String) (token : κ) (log : σ) :
    worldAfter (subscribe observe frame name token) world log =
      (world.request frame name (.observer token)).2 := by
  unfold subscribe
  rw [worldAfter_bind]
  have hrequest : (((modifyGet fun world => world.request frame name (.observer token) :
      StateT (World κ) (StateM σ) Availability).run world).run log).1.1 =
      (world.request frame name (.observer token)).1 := rfl
  rw [hrequest]
  cases (world.request frame name (.observer token)).1 with
  | delivered value => exact hlook token (.value value) _ log
  | absent => rfl
  | subscribed ticket => rfl

end OnlyLook

/-! ## Calm -/

theorem search_of_size_le {world : World κ} {id : SearchId}
    (hid : world.searches.size ≤ id.index) : world.search id = default := by
  rw [search, Array.getElem?_eq_none hid]
  rfl

/-- A search that has just been put in waits for nothing. -/
theorem unstarted_new {world : World κ} {id : SearchId} {context : Context}
    {names : List String} {mode : Mode} (h : world.search id = .new context names mode) :
    world.Unstarted id := by
  refine ⟨by rw [h]; rfl, by rw [h]; rfl, ?_, ?_⟩
  · intro index hindex
    rw [h] at hindex ⊢
    have hlt : index < context.frames.length := hindex
    simp only [Search.new, List.getElem?_map, List.getElem?_eq_getElem hlt, Option.map_some]
  · intro index
    rw [subscription?, h]
    simp only [Search.new, List.getElem?_map]
    cases context.frames[index]? <;> rfl

theorem shaped_new (context : Context) (names : List String) (mode : Mode) :
    Shaped (.new context names mode : Search κ) := by
  constructor <;> simp [Search.new]

theorem calm_empty : (∅ : World κ).Calm := by
  have hsearch : ∀ id, (∅ : World κ).search id = .new .empty [] .contextual :=
    fun id => search_of_size_le (Nat.zero_le _)
  have hcontent : ∀ frame name state, (∅ : World κ).content frame name ≠ some state :=
    fun frame name state h => absurd (lt_size_of_content h) (Nat.not_lt_zero _)
  have hnobody : ∀ frame name, ∀ waiter, waiter ∉ (∅ : World κ).waiting frame name :=
    fun frame name waiter h => hcontent frame name _ (content_of_mem_waiting h)
  have horderly : (∅ : World κ).Orderly := {
    closed := fun frame name value h => absurd h (hcontent frame name _)
    contexts := fun id frame hframe => by
      rw [hsearch] at hframe
      cases hframe
    shaped := fun id => by
      rw [hsearch]
      exact shaped_new ..
    ticket_lt := fun frame name waiter h => absurd h (hnobody frame name waiter)
    tickets_nodup := fun frame name => by
      rw [List.eq_nil_iff_forall_not_mem.mpr (hnobody frame name)]
      exact List.nodup_nil }
  refine ⟨horderly, fun id => .unstarted (fun frame name ticket index component h => ?_)
    (unstarted_new (hsearch id))⟩
  exact absurd h (hnobody frame name _)

section Delivering

variable {world : World κ} {owed : List (Delivery κ)}

theorem waiting_ofAttributes (attributes : List (String × Option Value)) (name : String) :
    (Frame.ofAttributes attributes : Frame (Callback κ)).waiting name = [] := by
  unfold Frame.waiting
  split
  · next slot hslot =>
    obtain ⟨value, -, rfl⟩ := find?_ofAttributes hslot
    cases value <;> rfl
  · rfl

theorem Delivering.addFrame (h : Delivering owed world)
    {attributes : List (String × Option Value)}
    (hvalid : ∀ name value, (name, some value) ∈ attributes → world.Knows value) :
    Delivering owed (world.addFrame (.ofAttributes attributes)).2 := by
  have hnobody := waiting_ofAttributes (κ := κ) attributes
  refine h.spared (h.orderly.addFrame ?_ hnobody) fun id => spares_addFrame id world hnobody
  intro name value hslot
  obtain ⟨found, hmem, heq⟩ := find?_ofAttributes hslot
  cases found with
  | none => cases heq
  | some found =>
      cases heq
      exact hvalid name value hmem

theorem search_addSearch (world : World κ) (added : Search κ) (id : SearchId) :
    (world.addSearch added).2.search id =
      if id.index = world.searches.size then added else world.search id := by
  simp only [World.search, addSearch, Array.getElem?_push]
  split <;> rfl

/-- A search that is added concerns no other search. -/
theorem spares_addSearch (world : World κ) (added : Search κ) {id : SearchId}
    (hid : id.index ≠ world.searches.size) : Spares id world (world.addSearch added).2 := by
  refine ⟨Nat.le_refl _, fun _ _ _ => rfl, fun _ _ _ => rfl, fun _ _ _ _ _ => Iff.rfl,
    (world.search id).attempts, (world.search id).listeners, ?_⟩
  rw [search_addSearch, if_neg hid]

theorem Orderly.addSearch (h : world.Orderly) {context : Context}
    (hvalid : ∀ frame ∈ context.frames, frame.index < world.frames.size) (names : List String)
    (mode : Mode) : (world.addSearch (.new context names mode)).2.Orderly := by
  refine ⟨h.closed, ?_, ?_, h.ticket_lt, h.tickets_nodup⟩
  · intro id frame hframe
    rw [search_addSearch] at hframe
    split at hframe
    · exact hvalid frame hframe
    · exact h.contexts id frame hframe
  · intro id
    rw [search_addSearch]
    split
    · exact shaped_new ..
    · exact h.shaped id

theorem Delivering.addSearch (h : Delivering owed world) {context : Context}
    (hvalid : ∀ frame ∈ context.frames, frame.index < world.frames.size) (names : List String)
    (mode : Mode) : Delivering owed (world.addSearch (.new context names mode)).2 := by
  refine ⟨h.orderly.addSearch hvalid names mode, ?_, ?_, h.distinct⟩
  · intro id
    by_cases hid : id.index = world.searches.size
    · have hold := search_of_size_le (Nat.le_of_eq hid.symm)
      have hnone : ∀ index, world.subscription? id index = none := (unstarted_new hold).subscriptions
      refine .unstarted ?_ (unstarted_new (by rw [search_addSearch, if_pos hid]))
      intro frame name ticket index component hmem
      exact absurd hmem
        ((h.tended id).linked.not_mem_waiting (hnone index) frame name ticket component)
    · exact (h.tended id).spared (spares_addSearch world _ hid) h.orderly
  -- what is owed is owed to searches that have begun, and these are not new
  · intro value id index component hmem
    have hid := lt_size_of_started (h.started ⟨value, component, hmem⟩)
    exact (h.arrived value id index component hmem).later
      (spares_addSearch world _ (Nat.ne_of_lt hid)).later

/-- To listen to a search concerns no search. -/
theorem spares_addListener (world : World κ) (id : SearchId) (token : κ) (other : SearchId) :
    Spares other world (world.modifySearch id fun search =>
      { search with listeners := search.listeners ++ [token] }) := by
  refine ⟨Nat.le_refl _, fun _ _ _ => rfl, fun _ _ _ => rfl, fun _ _ _ _ _ => Iff.rfl, ?_⟩
  rw [search_modifySearch]
  split
  · next heq =>
    rw [heq.1]
    exact ⟨_, _, rfl⟩
  · exact ⟨_, _, rfl⟩

theorem Delivering.addListener (h : Delivering owed world) (id : SearchId) (token : κ) :
    Delivering owed (world.modifySearch id fun search =>
      { search with listeners := search.listeners ++ [token] }) := by
  have hshaped := h.orderly.shaped id
  exact h.spared (h.orderly.modifySearch rfl ⟨hshaped.outcomes, hshaped.subscriptions⟩)
    (spares_addListener world id token)

/-- An observer that begins to wait concerns no search. -/
theorem spares_request (world : World κ) (frame : FrameId) (name : String) (token : κ)
    (id : SearchId) : Spares id world (world.request frame name (.observer token)).2 := by
  have hsame : Spares id world world :=
    ⟨Nat.le_refl _, fun _ _ _ => rfl, fun _ _ _ => rfl, fun _ _ _ _ _ => Iff.rfl, _, _, rfl⟩
  cases hcontent : world.content frame name with
  | none =>
      rw [request_absent hcontent]
      exact hsame
  | some state =>
      cases state with
      | some value =>
          rw [request_ready hcontent]
          exact hsame
      | none =>
          rw [request_pending hcontent]
          have hframe := lt_size_of_content hcontent
          -- the slot stays pending and gains a ticket that no search holds
          refine ⟨by simp, ?_, ?_, ?_, _, _, rfl⟩
          · intro other here _
            rw [content_setSlot hframe]
            split
            · next heq =>
              rw [heq.1, heq.2, hcontent]
              rfl
            · rfl
          · intro other _ hcomplete
            apply frame_setSlot_of_ne
            rintro rfl
            exact hcomplete name hcontent
          · intro other here ticket index component
            rw [waiting_setSlot hframe]
            split
            · next heq =>
              obtain ⟨rfl, rfl⟩ := heq
              simp [Slot.waiting]
            · rfl

theorem Orderly.request (h : world.Orderly) (frame : FrameId) (name : String)
    (callback : Callback κ) : (world.request frame name callback).2.Orderly := by
  cases hcontent : world.content frame name with
  | none =>
      rw [request_absent hcontent]
      exact h
  | some state =>
      cases state with
      | some value =>
          rw [request_ready hcontent]
          exact h
      | none =>
          rw [request_pending hcontent]
          exact h.setSlot_wait hcontent callback

/-- An observer may wait for an attribute like anybody else. -/
theorem Delivering.request (h : Delivering owed world) (frame : FrameId) (name : String)
    (token : κ) : Delivering owed (world.request frame name (.observer token)).2 :=
  h.spared (h.orderly.request frame name _) (spares_request world frame name token)

end Delivering

/-- Every call leaves the world calm. -/
theorem Calm.perform {observe : Observer κ (StateM σ)} (hlook : OnlyLook observe) {world : World κ}
    (h : world.Calm) {action : Action κ} (hvalid : action.Valid world) (log : σ) :
    (worldAfter (World.perform observe action) world log).Calm := by
  have hnothing := calm_iff.mp h
  cases action with
  | addFrame attributes => exact calm_iff.mpr (hnothing.addFrame hvalid)
  | addSearch context names mode => exact calm_iff.mpr (hnothing.addSearch hvalid names mode)
  | start id =>
      have hstart : worldAfter (start observe id) world log = (begin id world).2 :=
        changes_step hlook id (begin id) world log
      exact hstart ▸ calm_iff.mpr (hnothing.begins id).2
  | fulfil frame name value =>
      have hfulfil : worldAfter (World.perform observe (.fulfil frame name value)) world log =
          worldAfter (fulfil observe frame name value) world log := rfl
      rw [hfulfil]
      by_cases hpending : world.content frame name = some none
      · rw [worldAfter_fulfil_pending hlook hpending]
        have hproduced := hnothing.produce hpending hvalid
        rw [List.append_nil] at hproduced
        exact hproduced.calm
      · rw [worldAfter_fulfil_of_ne hpending]
        exact h
  | notify id token =>
      have hnotify : worldAfter (World.perform observe (.notify id token)) world log =
          worldAfter (notify observe id token) world log := rfl
      rw [hnotify, worldAfter_notify hlook]
      split
      · exact h
      · exact calm_iff.mpr (hnothing.addListener id token)
  | subscribe frame name token =>
      have hsubscribe : worldAfter (World.perform observe (.subscribe frame name token)) world log =
          worldAfter (subscribe observe frame name token) world log := rfl
      rw [hsubscribe, worldAfter_subscribe hlook]
      exact calm_iff.mpr (hnothing.request frame name token)

/-! ## What has been asked for -/

theorem inquiries_getElem? (world : World κ) (id : SearchId) (hid : id.index < world.searches.size) :
    world.inquiries[id.index]? =
      some ⟨(world.search id).context, (world.search id).names, (world.search id).mode⟩ := by
  simp only [inquiries, search, List.getElem?_map, Array.getElem?_toList,
    Array.getElem?_eq_getElem hid, Option.map_some, Option.getD_some]

theorem inquiries_eq_of_later {before after : World κ}
    (hsize : after.searches.size = before.searches.size) (h : ∀ id, Later id before after) :
    after.inquiries = before.inquiries := by
  apply List.ext_getElem?
  intro index
  by_cases hindex : index < before.searches.size
  · have hafter := inquiries_getElem? after ⟨index⟩ (hsize ▸ hindex)
    have hbefore := inquiries_getElem? before ⟨index⟩ hindex
    rw [(h ⟨index⟩).context, (h ⟨index⟩).names, (h ⟨index⟩).mode] at hafter
    exact hafter.trans hbefore.symm
  · have hlength : ∀ world : World κ, world.inquiries.length = world.searches.size := by
      intro world
      simp [inquiries]
    rw [List.getElem?_eq_none (by rw [hlength]; omega),
      List.getElem?_eq_none (by rw [hlength]; omega)]

theorem Advances.inquiries {id : SearchId} {before after : World κ} (h : Advances id before after) :
    after.inquiries = before.inquiries :=
  inquiries_eq_of_later h.size_searches fun other => h.later other

theorem Delivering.inquiries {owed : List (Delivery κ)} {world : World κ}
    (h : Delivering owed world) :
    (owed.foldl World.answer world).inquiries = world.inquiries := by
  induction owed generalizing world with
  | nil => rfl
  | cons delivery rest ih =>
      have hstep : (World.answer world delivery).inquiries = world.inquiries := by
        obtain ⟨value, callback⟩ := delivery
        cases callback with
        | observer token => rfl
        | attempt id index component => exact h.proceeds.advances.inquiries
      rw [List.foldl_cons, ih h.answer, hstep]

/-- A call adds what it asks for, and no search comes to look for anything else. -/
theorem Calm.inquiries_perform {observe : Observer κ (StateM σ)} (hlook : OnlyLook observe)
    {world : World κ} (h : world.Calm) {action : Action κ} (hvalid : action.Valid world) (log : σ) :
    (worldAfter (World.perform observe action) world log).inquiries =
      world.inquiries ++ action.inquiries := by
  have hsame : ∀ after : World κ, after.inquiries = world.inquiries →
      after.inquiries = world.inquiries ++ [] := by
    intro after heq
    rw [heq, List.append_nil]
  cases action with
  | addFrame attributes => exact hsame _ rfl
  | addSearch context names mode =>
      have hadd : worldAfter (World.perform observe (.addSearch context names mode)) world log =
          (world.addSearch (.new context names mode)).2 := rfl
      rw [hadd]
      simp [World.inquiries, World.addSearch, Search.new, Action.inquiries]
  | start id =>
      have hstart : worldAfter (World.perform observe (.start id)) world log = (begin id world).2 :=
        changes_step hlook id (begin id) world log
      rw [hstart]
      exact hsame _ ((calm_iff.mp h).begins id).1.inquiries
  | fulfil frame name value =>
      have hfulfil : worldAfter (World.perform observe (.fulfil frame name value)) world log =
          worldAfter (fulfil observe frame name value) world log := rfl
      rw [hfulfil]
      by_cases hpending : world.content frame name = some none
      · rw [worldAfter_fulfil_pending hlook hpending]
        have hproduced := (calm_iff.mp h).produce hpending hvalid
        rw [List.append_nil] at hproduced
        exact hsame _ hproduced.inquiries
      · rw [worldAfter_fulfil_of_ne hpending]
        exact hsame _ rfl
  | notify id token =>
      have hnotify : worldAfter (World.perform observe (.notify id token)) world log =
          worldAfter (notify observe id token) world log := rfl
      rw [hnotify, worldAfter_notify hlook]
      split
      · exact hsame _ rfl
      · exact hsame _ (advances_modifySearch world id _ (fun h => h) rfl rfl rfl).inquiries
  | subscribe frame name token =>
      have hsubscribe : worldAfter (World.perform observe (.subscribe frame name token)) world log =
          worldAfter (subscribe observe frame name token) world log := rfl
      rw [hsubscribe, worldAfter_subscribe hlook]
      exact hsame _ rfl

/-! ## Runs -/

theorem Reachable.calm {observe : Observer κ (StateM σ)} (hlook : OnlyLook observe)
    {inquiries : List Inquiry} {world : World κ} (h : Reachable observe inquiries world) :
    world.Calm ∧ world.inquiries = inquiries := by
  induction h with
  | empty => exact ⟨calm_empty, rfl⟩
  | call action log _ hvalid ih =>
      refine ⟨ih.1.perform hlook hvalid log, ?_⟩
      rw [ih.1.inquiries_perform hlook hvalid log, ih.2]

/-- In a calm world a running search is undecided, and so is its reference search. -/
theorem Running.reference?_eq_none {world : World κ} {id : SearchId} (hworld : world.Orderly)
    (h : world.Running id fun _ => False) (hundecided : (world.search id).verdict? = none) :
    world.reference? (world.search id).context (world.search id).names (world.search id).mode =
      none := by
  have houtcomes : (world.search id).outcomes =
      (world.search id).context.map (world.outcome id) := by
    apply List.ext_getElem?
    intro index
    rw [List.getElem?_map]
    by_cases hindex : index < (world.search id).context.length
    · rw [List.getElem?_eq_getElem hindex]
      exact (h.settled index _ (List.getElem?_eq_getElem hindex) not_false).1
    · rw [List.getElem?_eq_none (by rw [(hworld.shaped id).outcomes]; omega),
        List.getElem?_eq_none (Nat.le_of_not_lt hindex)]
      rfl
  rw [verdict?_eq _ (hworld.shaped id).outcomes, houtcomes] at hundecided
  simp only [reference?, h.path]
  exact hundecided

end FrameLang.World
