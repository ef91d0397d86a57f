import FrameLang.Proofs.Search.Moments
import FrameLang.Proofs.Search.Trails

/-!
# Searches retraced

Whoever looks at a search at any moment of a run can tell from its requests what has become
of each frame of its context: how far down the path the search has come for it, by which
frames, and why it is there that it stands (`World.Retraced`).  This is so while values are
still to be delivered and news is still to be told, whoever calls back into the world in
between, and whoever drops a callback, be it that of a search (`World.requests_retraced`).

## Strategy

`Traced` is kept from one moment to the next.  Of what happens between two moments only the
steps of searches make requests, and these are done with; producing an attribute turns those
who wait for it into those who are about to be called back (`Traced.produce`), and whatever
else is done concerns no search at all.
-/

namespace FrameLang.World

variable {κ : Type} {world : World κ} {owed : List (Delivery κ)} {id : SearchId} {index : Nat}

/-! ## What is done to the world -/

theorem traced_empty : Traced [] (∅ : World κ) := by
  have hsearch : ∀ id, (∅ : World κ).search id = .new .empty [] .contextual :=
    fun id => search_of_size_le (Nat.zero_le _)
  have hnobody : ∀ frame name (waiter : Waiter (Callback κ)),
      waiter ∉ (∅ : World κ).waiting frame name :=
    fun frame name waiter h =>
      absurd (lt_size_of_content (content_of_mem_waiting h)) (Nat.not_lt_zero _)
  refine ⟨⟨calm_empty.orderly, fun id frame name ticket index component h =>
    absurd h (hnobody frame name _), by simp, .nil, by simp [Due]⟩, ?_, ?_, ?_⟩
  · intro id index position attempt hattempt
    unfold trail at hattempt
    rw [hsearch] at hattempt
    cases hattempt
  · intro id index outcome houtcome
    rw [hsearch] at houtcome
    cases houtcome
  · rintro id index component (⟨frame, name, ticket, hmem⟩ | ⟨value, hmem⟩)
    · exact absurd hmem (hnobody frame name _)
    · cases hmem

/-- What is no longer owed leaves the rest as it is. -/
theorem Traced.sublist {rest : List (Delivery κ)} (h : Traced owed world)
    (hrest : rest.Sublist owed) : Traced rest world where
  orderly := h.orderly
  linked := h.linked
  arrived value id index component hmem := h.arrived value id index component (hrest.subset hmem)
  distinct := h.distinct.sublist hrest
  apart id index := by
    rintro ⟨value, component, hmem⟩
    exact h.apart id index ⟨value, component, hrest.subset hmem⟩
  trail := h.trail
  shown := h.shown
  underway id index component hunderway := by
    refine h.underway id index component ?_
    rcases hunderway with hwaits | ⟨value, hmem⟩
    · exact .inl hwaits
    · exact .inr ⟨value, hrest.subset hmem⟩

theorem Traced.addFrameOf (h : Traced owed world) {attributes : List (String × Option Value)}
    (hvalid : ∀ name value, (name, some value) ∈ attributes → world.Knows value) :
    Traced owed (world.addFrame (.ofAttributes attributes)).2 := by
  refine h.addFrame (fun name value hslot => ?_) (waiting_ofAttributes attributes)
  obtain ⟨found, hmem, heq⟩ := find?_ofAttributes hslot
  cases found with
  | none => cases heq
  | some found =>
      cases heq
      exact hvalid name value hmem

theorem Traced.addListener (h : Traced owed world) (id : SearchId) (token : κ) :
    Traced owed (world.modifySearch id fun search =>
      { search with listeners := search.listeners ++ [token] }) :=
  h.modifySearch (fun other => (spares_addListener world id token other).later) (fun _ => rfl)
    (fun _ => rfl) (fun _ => rfl) fun _ => rfl

/-- An observer may wait for an attribute like anybody else. -/
theorem Traced.request (h : Traced owed world) (frame : FrameId) (name : String) (token : κ) :
    Traced owed (world.request frame name (.observer token)).2 := by
  have hspares := spares_request world frame name token
  refine h.kept (h.orderly.request frame name _) (fun id => (hspares id).later) ?_
    (fun _ => rfl) fun _ => rfl
  intro other here ticket id index component hmem
  exact ⟨((hspares id).waiting _ _ _ _ _).mp hmem, rfl⟩

/-- Anybody may stop waiting, or make others stop. -/
theorem Traced.cancel (h : Traced owed world) (frame : FrameId) (name : String) (ticket : Nat) :
    Traced owed (world.cancel frame name ticket).2 := by
  have hlater : ∀ id, Later id world (world.cancel frame name ticket).2 := by
    intro id
    refine ⟨.of_eq (Nat.le_of_eq (size_frames_cancel ..).symm) fun _ _ _ => content_cancel ..,
      fun _ _ hcomplete => frame_cancel _ _ _ _ hcomplete, fun h => h, rfl, rfl, rfl⟩
  have horderly : (world.cancel frame name ticket).2.Orderly :=
    h.orderly.of_sublist (size_frames_cancel ..) (fun _ _ => content_cancel ..)
      (waiting_cancel_sublist _ _ _ _) (fun _ => ticket_cancel ..) (fun _ => rfl)
      h.orderly.shaped
  refine h.kept horderly hlater ?_ (fun _ => rfl) fun _ => rfl
  exact .of_waiting
    (fun other here _ hmem => (waiting_cancel_sublist _ _ _ _ other here).subset hmem) fun _ => rfl

/-- A search that is added has made no request. -/
theorem trail_addSearch (world : World κ) (context : Context) (names : List String) (mode : Mode)
    (id : SearchId) (index : Nat) :
    (world.addSearch (.new context names mode)).2.trail id index = world.trail id index := by
  refine trail_of_attempts ?_ index
  rw [search_addSearch]
  split
  · next hid =>
    rw [search_of_size_le (Nat.le_of_eq hid.symm)]
    rfl
  · rfl

/-- A search that has begun is not the one that is added. -/
theorem ne_size_of_started (h : (world.search id).started = true) :
    id.index ≠ world.searches.size :=
  Nat.ne_of_lt (lt_size_of_started h)

theorem Posted.addSearch (h : Posted owed world) {context : Context}
    (hvalid : ∀ frame ∈ context.frames, frame.index < world.frames.size) (names : List String)
    (mode : Mode) : Posted owed (world.addSearch (.new context names mode)).2 := by
  refine ⟨h.orderly.addSearch hvalid names mode, ?_, ?_, h.distinct, h.apart⟩
  · intro id frame name ticket index component hmem
    obtain ⟨hsubscription, hstanding⟩ := h.linked id frame name ticket index component hmem
    have hne := ne_size_of_started hstanding.started
    refine ⟨?_, hstanding.later (spares_addSearch world _ hne).later⟩
    unfold World.subscription?
    rw [search_addSearch, if_neg hne]
    exact hsubscription
  · intro value id index component hmem
    have harrived := h.arrived value id index component hmem
    exact harrived.later (spares_addSearch world _ (ne_size_of_started harrived.started)).later

/-- Whoever is under way belongs to a search that has begun. -/
theorem Posted.started_of_underway (h : Posted owed world) {component : Nat}
    (hunderway : Underway owed world id index component) : (world.search id).started = true := by
  rcases hunderway with ⟨frame, name, ticket, hmem⟩ | ⟨value, hmem⟩
  · exact (h.linked id frame name ticket index component hmem).2.started
  · exact (h.arrived value id index component hmem).started

theorem Traced.addSearch (h : Traced owed world) {context : Context}
    (hvalid : ∀ frame ∈ context.frames, frame.index < world.frames.size) (names : List String)
    (mode : Mode) : Traced owed (world.addSearch (.new context names mode)).2 := by
  have htrail := trail_addSearch world context names mode
  refine ⟨h.toPosted.addSearch hvalid names mode, ?_, ?_, ?_⟩
  · intro id index position attempt hattempt
    rw [htrail] at hattempt
    obtain ⟨hcomponent, name, hstanding⟩ := h.trail id index position attempt hattempt
    have hne := ne_size_of_started hstanding.started
    exact ⟨hcomponent, name, hstanding.later (spares_addSearch world _ hne).later⟩
  · intro id index outcome houtcome
    by_cases hid : id.index = world.searches.size
    · rw [search_addSearch, if_pos hid] at houtcome
      obtain ⟨frame, -, heq⟩ := List.mem_map.mp (List.mem_of_getElem? houtcome)
      exact heq ▸ .pending
    · rw [search_addSearch, if_neg hid] at houtcome
      exact (h.shown id index outcome houtcome).later h.orderly (spares_addSearch world _ hid).later
        (htrail id index)
  · intro id index component hunderway
    have hne := ne_size_of_started (h.toPosted.started_of_underway hunderway)
    rw [htrail, search_addSearch, if_neg hne]
    exact h.underway id index component hunderway

/-! ## Producing and delivering -/

section Produce

variable {frame : FrameId} {name : String}

theorem Posted.produce (h : Posted owed world) (hpending : world.content frame name = some none)
    {value : Value} (hvalue : world.Knows value) :
    Posted (world.deliveries frame name value ++ owed) (world.produce frame name value) := by
  have hframe := lt_size_of_content hpending
  have hlater := later_produce hpending value
  have hready : (world.produce frame name value).content frame name = some (some value) := by
    rw [content_produce hframe, if_pos ⟨rfl, rfl⟩]
  refine ⟨h.orderly.produce hframe hvalue, fun id => (h.linked id).produce hpending value,
    ?_, ?_, ?_⟩
  · intro found id index component hmem
    rcases List.mem_append.mp hmem with hnew | hold
    · obtain ⟨rfl, ticket, hwaiter⟩ := mem_deliveries.mp hnew
      exact ⟨frame, name, (h.linked id _ _ _ _ _ hwaiter).2.later (hlater id), hready⟩
    · exact (h.arrived found id index component hold).later (hlater id)
  · refine List.pairwise_append.mpr
      ⟨h.orderly.distinct_deliveries h.linked value, h.distinct, ?_⟩
    rintro ⟨_, _⟩ hfirst ⟨found, _⟩ hsecond id index component component' rfl rfl
    obtain ⟨-, ticket, hwaiter⟩ := mem_deliveries.mp hfirst
    exact h.apart id index ⟨found, component', hsecond⟩ frame name ticket component hwaiter
  · intro id index hdue other here ticket component hmem
    rw [waiting_produce hframe] at hmem
    split at hmem
    · cases hmem
    · next hne =>
      rcases due_append.mp hdue with ⟨found, component', hnew⟩ | hold
      · obtain ⟨-, ticket', hwaiter⟩ := mem_deliveries.mp hnew
        -- whoever waits for the attempt waits where its subscription says
        have hlink := (h.linked id _ _ _ _ _ hwaiter).1.symm.trans (h.linked id _ _ _ _ _ hmem).1
        cases hlink
        exact hne ⟨rfl, rfl⟩
      · exact h.apart id index hold other here ticket component hmem

/-- Those who waited for the attribute are to be called back, and stand where they stood. -/
theorem Traced.produce (h : Traced owed world) (hpending : world.content frame name = some none)
    {value : Value} (hvalue : world.Knows value) :
    Traced (world.deliveries frame name value ++ owed) (world.produce frame name value) := by
  have hframe := lt_size_of_content hpending
  have hlater := later_produce hpending value
  refine ⟨h.toPosted.produce hpending hvalue, h.trail_of_later hlater fun _ _ => rfl, ?_, ?_⟩
  · intro id index outcome houtcome
    exact (h.shown id index outcome houtcome).later h.orderly (hlater id) rfl
  · intro id index component hunderway
    refine h.underway id index component ?_
    rcases hunderway with ⟨other, here, ticket, hmem⟩ | ⟨found, hmem⟩
    · rw [waiting_produce hframe] at hmem
      split at hmem
      · cases hmem
      · exact .inl ⟨other, here, ticket, hmem⟩
    · rcases List.mem_append.mp hmem with hnew | hold
      · obtain ⟨-, ticket, hwaiter⟩ := mem_deliveries.mp hnew
        exact .inl ⟨frame, name, ticket, hwaiter⟩
      · exact .inr ⟨found, hold⟩

end Produce

/-- An attempt whose value is delivered is one for which nobody else is under way. -/
theorem Traced.asking {value : Value} {component : Nat}
    (h : Traced (⟨value, .attempt id index component⟩ :: owed) world) :
    Asking owed world id index (component + 1) := by
  obtain ⟨hlength, hpending⟩ := h.underway id index component (.inr ⟨value, List.mem_cons_self⟩)
  refine ⟨h.sublist (List.sublist_cons_self _ _), hlength, hpending, ?_⟩
  rintro other (⟨frame, name, ticket, hmem⟩ | ⟨found, hmem⟩)
  · exact h.apart id index ⟨value, component, List.mem_cons_self⟩ frame name ticket other hmem
  · exact (List.pairwise_cons.mp h.distinct).1 _ hmem id index component other rfl rfl

theorem Traced.deliver {value : Value} {component : Nat}
    (h : Traced (⟨value, .attempt id index component⟩ :: owed) world) :
    Traced owed (World.deliver id index component value world).2 :=
  (h.asking.receive (h.arrived value id index component List.mem_cons_self) rfl).traced

/-! ## From moment to moment -/

/-- What may happen next, when callbacks may be dropped at any time. -/
inductive Turn : Moment κ → Moment κ → Prop
  | step {before after : Moment κ} (h : Step before after) : Turn before after
  /-- Somebody drops the callback that an attribute has under a ticket. -/
  | drop (moment : Moment κ) (frame : FrameId) (name : String) (ticket : Nat) :
      Turn moment { moment with world := (moment.world.cancel frame name ticket).2 }

/-- The moments of all runs in which callbacks may be dropped. -/
def Unfolds (moment : Moment κ) : Prop := Relation.ReflTransGen Turn ∅ moment

theorem Arises.unfolds {moment : Moment κ} (h : Arises moment) : Unfolds moment :=
  Relation.ReflTransGen.mono (fun _ _ => .step) _ _ h

theorem Unfolds.drop {moment : Moment κ} (h : Unfolds moment) (frame : FrameId) (name : String)
    (ticket : Nat) : Unfolds { moment with world := (moment.world.cancel frame name ticket).2 } :=
  h.tail (.drop moment frame name ticket)

theorem Traced.issue {moment : Moment κ} (h : Traced moment.owed moment.world) {action : Action κ}
    (hvalid : action.Valid moment.world) :
    Traced (moment.issue action).owed (moment.issue action).world := by
  cases action with
  | addFrame attributes => exact h.addFrameOf hvalid
  | addSearch context names mode => exact h.addSearch hvalid names mode
  | start id => exact h.begin id
  | fulfil frame name value =>
      by_cases hpending : moment.world.content frame name = some none
      · rw [Moment.issue_fulfil_of_pending hpending]
        exact h.produce hpending hvalid
      · rw [Moment.issue_fulfil_of_ne_pending hpending]
        exact h
  | notify id token =>
      cases hresult : (moment.world.search id).result with
      | none =>
          rw [Moment.issue_notify_of_open hresult]
          exact h.addListener id token
      | some result =>
          rw [Moment.issue_notify_of_ended hresult]
          exact h
  | subscribe frame name token => exact h.request frame name token

theorem Turn.traced {before after : Moment κ} (hturn : Turn before after)
    (h : Traced before.owed before.world) : Traced after.owed after.world := by
  cases hturn with
  | drop frame name ticket => exact h.cancel frame name ticket
  | step hstep =>
      cases hstep with
      | issue action possible => exact h.issue possible.valid
      | deliver next =>
          rw [next] at h
          exact h.deliver
      | hand next =>
          rw [next] at h
          exact h.sublist (List.sublist_cons_self _ _)
      | tell next => exact h

theorem Unfolds.traced {moment : Moment κ} (h : Unfolds moment) :
    Traced moment.owed moment.world := by
  induction h with
  | refl => exact traced_empty
  | tail _ hturn ih => exact hturn.traced ih

/-! ## What requests tell -/

/-- At a component an attempt asks one frame for one name. -/
theorem Standing.unique {frame other : FrameId} {name here : String} {component : Nat}
    (h : world.Standing id index component frame name)
    (h' : world.Standing id index component other here) : other = frame ∧ here = name := by
  obtain ⟨root, hroot, hreach⟩ := h.root
  obtain ⟨root', hroot', hreach'⟩ := h'.root
  cases hroot.symm.trans hroot'
  exact ⟨Option.some.inj (hreach'.symm.trans hreach), Option.some.inj (h'.name.symm.trans h.name)⟩

/-- An attempt has come to the next component by what it asked for before. -/
theorem Standing.content_of_next {frame inner : FrameId} {name here : String} {component : Nat}
    (h : world.Standing id index component frame name)
    (hnext : world.Standing id index (component + 1) inner here) :
    world.content frame name = some (some (.frame inner)) := by
  obtain ⟨root, hroot, hreach⟩ := h.root
  obtain ⟨root', hroot', hreach'⟩ := hnext.root
  cases hroot.symm.trans hroot'
  rw [List.take_add_one, h.name, reach_append, hreach] at hreach'
  simp only [Option.bind_some, Option.toList_some, reach] at hreach'
  split at hreach'
  · next found hcontent =>
    cases hreach'
    exact hcontent
  · cases hreach'

/-- The last request for a frame of the context has asked a frame for a name. -/
def AskedLast (world : World κ) (id : SearchId) (index : Nat) (frame : FrameId) (name : String) :
    Prop :=
  ∃ attempt, (world.trail id index).getLast? = some attempt ∧ attempt.frame = frame ∧
    (world.search id).names[attempt.component]? = some name

/-- What the requests of a search tell of a frame of its context. -/
structure Retraced (world : World κ) (id : SearchId) (index : Nat) : Prop where
  /-- Components have been asked for from the first on, in order, each of them once. -/
  components : (world.trail id index).map Attempt.component =
    List.range (world.trail id index).length
  first : ∀ attempt, (world.trail id index)[0]? = some attempt →
    (world.search id).context[index]? = some attempt.frame
  /-- Each frame that is asked is the one that the frame before has given. -/
  next : ∀ component earlier later, (world.trail id index)[component]? = some earlier →
    (world.trail id index)[component + 1]? = some later →
      ∃ name, (world.search id).names[component]? = some name ∧
        world.content earlier.frame name = some (some (.frame later.frame))
  frameAt : ∀ component, (world.search id).frameAt? component index =
    ((world.trail id index)[component]?).map Attempt.frame
  isSome_frameAt : ∀ component, ((world.search id).frameAt? component index).isSome ↔
    component < (world.trail id index).length
  /-- What has been found is what the last component is. -/
  found : ∀ value, (world.search id).outcomes[index]? = some (.found value) →
    (world.trail id index).length = (world.search id).names.length ∧
      ∃ frame name, world.AskedLast id index frame name ∧
        world.content frame name = some (some value)
  /-- What has not been found is missing from the frame that was asked last. -/
  notFound : (world.search id).outcomes[index]? = some .notFound →
    ∃ frame name, world.AskedLast id index frame name ∧ world.content frame name = none
  /-- What is not a frame is in the middle of the path. -/
  notAFrame : ∀ component kind,
    (world.search id).outcomes[index]? = some (.notAFrame component kind) →
      (world.trail id index).length = component + 1 ∧
        component + 1 < (world.search id).names.length ∧
          ∃ frame name value, world.AskedLast id index frame name ∧
            world.content frame name = some (some value) ∧ value.kind = kind ∧
              ∀ inner, value ≠ .frame inner

theorem Traced.components (h : Traced owed world) (id : SearchId) (index : Nat) :
    (world.trail id index).map Attempt.component = List.range (world.trail id index).length := by
  refine List.ext_getElem (by rw [List.length_map, List.length_range]) fun position hlt _ => ?_
  rw [List.length_map] at hlt
  rw [List.getElem_map, List.getElem_range]
  exact (h.trail id index position _ (List.getElem?_eq_getElem hlt)).1

/-- The request for a component is the one that the trail has at its position. -/
theorem Traced.find?_trail (h : Traced owed world) (id : SearchId) (index component : Nat) :
    ((world.trail id index).find? fun attempt => attempt.component = component) =
      (world.trail id index)[component]? := by
  cases hattempt : (world.trail id index)[component]? with
  | none =>
      refine List.find?_eq_none.mpr fun attempt hmem => ?_
      obtain ⟨position, hat⟩ := List.mem_iff_getElem?.mp hmem
      rw [(h.trail id index position attempt hat).1, decide_eq_true_eq]
      rintro rfl
      rw [hattempt] at hat
      cases hat
  | some attempt =>
      obtain ⟨hlt, heq⟩ := List.getElem?_eq_some_iff.mp hattempt
      refine List.find?_eq_some_iff_getElem.mpr ⟨?_, component, hlt, heq, ?_⟩
      · rw [(h.trail id index component attempt hattempt).1, decide_eq_true_eq]
      · intro position hbefore
        have hat := List.getElem?_eq_getElem (Nat.lt_trans hbefore hlt)
        rw [(h.trail id index position _ hat).1]
        simpa using Nat.ne_of_lt hbefore

theorem Traced.frameAt?_eq (h : Traced owed world) (id : SearchId) (index component : Nat) :
    (world.search id).frameAt? component index =
      ((world.trail id index)[component]?).map Attempt.frame := by
  have hfind : ((world.search id).attempts.find? fun attempt =>
        attempt.index = index && attempt.component = component) =
      (world.trail id index).find? fun attempt => attempt.component = component := by
    rw [World.trail, Search.trail, List.find?_filter]
    simp
  rw [Search.frameAt?, hfind, h.find?_trail]

/-- Where an attempt stands at the end of its trail the last request was made. -/
theorem Traced.askedLast (h : Traced owed world) {frame : FrameId} {name : String}
    {component : Nat} (hlength : (world.trail id index).length = component + 1)
    (hstanding : world.Standing id index component frame name) :
    world.AskedLast id index frame name := by
  have hlt : component < (world.trail id index).length := by omega
  have hattempt := List.getElem?_eq_getElem hlt
  obtain ⟨hcomponent, here, hstood⟩ := h.trail id index component _ hattempt
  refine ⟨_, ?_, (hstanding.unique hstood).1, ?_⟩
  · rw [List.getLast?_eq_getElem?, hlength]
    exact hattempt
  · rw [hcomponent]
    exact hstanding.name

theorem Traced.retraced (h : Traced owed world) (id : SearchId) (index : Nat) :
    world.Retraced id index where
  components := h.components id index
  first attempt hattempt := by
    obtain ⟨-, name, hstanding⟩ := h.trail id index 0 attempt hattempt
    obtain ⟨root, hroot, hreach⟩ := hstanding.root
    cases hreach
    exact hroot
  next component earlier later hearlier hlater := by
    obtain ⟨-, name, hstanding⟩ := h.trail id index component earlier hearlier
    obtain ⟨-, here, hnext⟩ := h.trail id index (component + 1) later hlater
    exact ⟨name, hstanding.name, hstanding.content_of_next hnext⟩
  frameAt := h.frameAt?_eq id index
  isSome_frameAt component := by
    rw [h.frameAt?_eq, Option.isSome_map, isSome_getElem?]
  found value houtcome := by
    cases h.shown id index _ houtcome with
    | found length arrived last =>
        obtain ⟨frame, name, hstanding, hcontent⟩ := arrived
        exact ⟨length.trans last, frame, name, h.askedLast length hstanding, hcontent⟩
  notFound houtcome := by
    cases h.shown id index _ houtcome with
    | notFound length standing absent =>
        exact ⟨_, _, h.askedLast length standing, absent⟩
  notAFrame component kind houtcome := by
    cases h.shown id index _ houtcome with
    | notAFrame length arrived scalar more =>
        obtain ⟨frame, name, hstanding, hcontent⟩ := arrived
        exact ⟨length, more, frame, name, _, h.askedLast length hstanding, hcontent, rfl, scalar⟩

/-- At every moment of every run, and so after every program, the requests of each search tell
for each frame of its context how far the search has come for it, and by which frames. -/
theorem requests_retraced :
    (∀ moment : Moment κ, Unfolds moment → ∀ id index, moment.world.Retraced id index) ∧
      ∀ (observe : Observer κ (StateM (Chronicle κ))) (stage : Stage κ), Acting observe →
        Ran observe stage → ∀ id index, stage.1.Retraced id index := by
  have hmoment : ∀ moment : Moment κ, Unfolds moment →
      ∀ id index, moment.world.Retraced id index :=
    fun moment h id index => h.traced.retraced id index
  exact ⟨hmoment, fun observe stage hacting hran =>
    hmoment _ (hacting.arises hran).unfolds⟩

/-- Two frames in a search for `a.a`.  The second one turns out to be its own attribute, and then
that of the first one too, so that it is asked three times. -/
def cycleCalls : List (Action Nat) :=
  [.addFrame [("a", none)], .addFrame [("a", none)],
    .addSearch ⟨[⟨0⟩, ⟨1⟩]⟩ ["a", "a"] .contextual, .start ⟨0⟩,
    .fulfil ⟨1⟩ "a" (.frame ⟨1⟩), .fulfil ⟨0⟩ "a" (.frame ⟨1⟩)]

/-- The world and the chronicle after the first so many of these calls. -/
def cycle (count : Nat) : Stage Nat :=
  (cycleCalls.take count).foldl (fun stage action => after (issue noting action) stage) (∅, [])

theorem ran_cycle : Ran noting (cycle 5) ∧ Ran noting (cycle 6) := by
  have hattributes : ∀ (world : World Nat) name value,
      (name, some value) ∈ [("a", (none : Option Value))] → world.Knows value := by simp
  have hempty : Ran (noting : Observer Nat _) (∅, []) := .refl
  have hfirst := hempty.call (.addFrame [("a", none)]) (hattributes _)
  have hsecond := hfirst.call (.addFrame [("a", none)]) (hattributes _)
  have hsearch := hsecond.call (.addSearch ⟨[⟨0⟩, ⟨1⟩]⟩ ["a", "a"] .contextual)
    (by unfold Action.Possible Action.Valid; decide +kernel)
  have hstart := hsearch.call (.start ⟨0⟩) (by unfold Action.Possible; decide +kernel)
  have hloop := hstart.call (.fulfil ⟨1⟩ "a" (.frame ⟨1⟩)) (by rintro frame ⟨⟩; decide +kernel)
  have hlast := hloop.call (.fulfil ⟨0⟩ "a" (.frame ⟨1⟩)) (by rintro frame ⟨⟩; decide +kernel)
  exact ⟨by simpa only [cycle, cycleCalls, List.take_succ_cons, List.take_zero, List.foldl_cons,
      List.foldl_nil] using hloop, by simpa only [cycle, cycleCalls, List.take_succ_cons,
      List.take_zero, List.foldl_cons, List.foldl_nil] using hlast⟩

/-- Both frames of the context are retraced where the callback for the first one has been dropped,
and where it has been called. -/
theorem requests_retraced_cycle :
    (∃ moment : Moment Nat, Unfolds moment ∧
      moment.world.trail ⟨0⟩ 0 = [⟨0, 0, ⟨0⟩⟩] ∧
      moment.world.trail ⟨0⟩ 1 = [⟨1, 0, ⟨1⟩⟩, ⟨1, 1, ⟨1⟩⟩] ∧
      moment.world.waiting ⟨0⟩ "a" = [] ∧ ∀ id index, moment.world.Retraced id index) ∧
    Ran noting (cycle 6) ∧
      (cycle 6).1.trail ⟨0⟩ 0 = [⟨0, 0, ⟨0⟩⟩, ⟨0, 1, ⟨1⟩⟩] ∧
      ((cycle 6).1.search ⟨0⟩).outcomes = [.found (.frame ⟨1⟩), .found (.frame ⟨1⟩)] ∧
      ∀ id index, (cycle 6).1.Retraced id index := by
  have hdropped := (acting_noting.arises ran_cycle.1).unfolds.drop ⟨0⟩ "a" 0
  exact ⟨⟨_, hdropped, by decide +kernel, by decide +kernel, by decide +kernel,
      requests_retraced.1 _ hdropped⟩,
    ran_cycle.2, by decide +kernel, by decide +kernel,
    requests_retraced.2 noting _ acting_noting ran_cycle.2⟩

end FrameLang.World
