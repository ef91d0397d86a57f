import FrameLang.Proofs.Search.Steps

/-!
# How a search makes its attempts

The steps that make an attempt close it: the attempt was open before, and
afterwards it is settled unless the search has ended.

## Strategy

`ask` and `receive` move an attempt along the walk down the path.  Before each
request the attempt stands at a frame (`Standing`), after each delivery it has
arrived at a value (`Arrived`), and in both cases the outcome of the walk is the
outcome of what remains of it.  The induction of `receive_sound` is on what
remains of the path.
-/

namespace FrameLang.World

variable {κ : Type}

/-! ## Making an attempt -/

/-- A search is about to go on with an attempt that waits for nothing. -/
structure Attempting (world : World κ) (id : SearchId) (index : Nat) (isOpen : Nat → Prop) :
    Prop where
  orderly : world.Orderly
  linked : world.Linked id
  running : world.Running id isOpen
  undecided : (world.search id).verdict? = none
  isOpen : isOpen index
  subscription : world.subscription? id index = none

section Attempting

variable {world : World κ} {id : SearchId} {index : Nat} {isOpen : Nat → Prop}

/-- The world once a search has noted a request. -/
def noteAttempt (id : SearchId) (attempt : Attempt) (world : World κ) : World κ :=
  world.modifySearch id fun search => { search with attempts := search.attempts ++ [attempt] }

/-- A request is noted first; what follows depends on what comes back. -/
theorem ask_eq (component : Nat) (name : String) (frame : FrameId)
    (next : Value → World κ → List κ × World κ) :
    ask id index component name frame next world =
      match (noteAttempt id ⟨index, component, frame⟩ world).request frame name
        (.attempt id index component) with
      | (.absent, world) => record id index .notFound world
      | (.delivered value, world) => next value world
      | (.subscribed ticket, world) =>
          ([], subscribeTo id index (some ⟨frame, name, ticket⟩) world) := rfl

/-- The record of requests says nothing about the phase of a search. -/
theorem spares_noteAttempt (world : World κ) (id : SearchId) (attempt : Attempt) :
    Spares id world (noteAttempt id attempt world) := by
  refine ⟨Nat.le_refl _, fun _ _ _ => rfl, fun _ _ _ => rfl, fun _ _ _ _ _ => Iff.rfl, ?_⟩
  rw [noteAttempt, search_modifySearch]
  split
  · exact ⟨_, _, rfl⟩
  · exact ⟨_, _, rfl⟩

theorem advances_noteAttempt (world : World κ) (id : SearchId) (attempt : Attempt) :
    Advances id world (noteAttempt id attempt world) :=
  advances_modifySearch world id _ (fun h => h) rfl rfl rfl

theorem Attempting.noteAttempt (h : world.Attempting id index isOpen) (attempt : Attempt) :
    (World.noteAttempt id attempt world).Attempting id index isOpen := by
  have hspares := spares_noteAttempt world id attempt
  have hshaped := h.orderly.shaped id
  refine ⟨h.orderly.modifySearch rfl ⟨hshaped.outcomes, hshaped.subscriptions⟩,
    h.linked.spared hspares, h.running.spared hspares h.orderly, ?_, h.isOpen, ?_⟩
  · rw [World.noteAttempt, search_modifySearch_self (lt_size_of_started h.running.started)]
    exact h.undecided
  · rw [hspares.subscription?]
    exact h.subscription

theorem search_subscribeTo (hid : id.index < world.searches.size)
    (subscription : Option Subscription) :
    (subscribeTo id index subscription world).search id =
      { world.search id with
        subscriptions := (world.search id).subscriptions.set index subscription } :=
  search_modifySearch_self hid _

theorem subscription?_subscribeTo (hid : id.index < world.searches.size) (index : Nat)
    (subscription : Option Subscription) (other : Nat) :
    (subscribeTo id index subscription world).subscription? id other =
      if index = other ∧ index < (world.search id).subscriptions.length then subscription
      else world.subscription? id other := by
  rw [subscription?, search_subscribeTo hid, List.getElem?_set, subscription?]
  by_cases heq : index = other
  · subst heq
    by_cases hlt : index < (world.search id).subscriptions.length <;> simp [hlt]
  · simp [heq]

theorem advances_subscribeTo (world : World κ) (id : SearchId) (index : Nat)
    (subscription : Option Subscription) :
    Advances id world (subscribeTo id index subscription world) :=
  advances_modifySearch world id _ (fun h => h) rfl rfl rfl

theorem Orderly.subscribeTo (hworld : world.Orderly) (id : SearchId) (index : Nat)
    (subscription : Option Subscription) :
    (World.subscribeTo id index subscription world).Orderly := by
  refine hworld.modifySearch rfl ⟨(hworld.shaped id).outcomes, ?_⟩
  rw [List.length_set]
  exact (hworld.shaped id).subscriptions

/-- What a search notes about its subscriptions does not change where its attempts stand. -/
theorem Standing.subscribeTo {component : Nat} {frame : FrameId} {name : String}
    {other : Nat} (h : world.Standing id other component frame name)
    (subscription : Option Subscription) :
    (World.subscribeTo id index subscription world).Standing id other component frame name :=
  h.later ((advances_subscribeTo world id index subscription).later id)

/-- An attempt that takes what it has waited for waits for nothing. -/
theorem attempting_subscribeTo_none (hworld : world.Orderly) (hlinked : world.Linked id)
    (h : world.Running id isOpen) (hundecided : (world.search id).verdict? = none)
    (hindex : index < (world.search id).context.length) (hopen : isOpen index) :
    (subscribeTo id index none world).Attempting id index isOpen := by
  have hid := lt_size_of_started h.started
  have hlength : index < (world.search id).subscriptions.length := by
    rw [(hworld.shaped id).subscriptions]
    exact hindex
  have hsub := subscription?_subscribeTo hid index none
  refine ⟨hworld.subscribeTo id index none, ?_, ?_, ?_, hopen, ?_⟩
  · intro frame name ticket other component hmem
    obtain ⟨hsubscription, hstanding⟩ := hlinked _ _ _ _ _ hmem
    refine ⟨?_, hstanding.subscribeTo none⟩
    rw [hsub, if_neg]
    · exact hsubscription
    · rintro ⟨rfl, -⟩
      obtain ⟨value, hvalue⟩ := (h.opened index hindex hopen).2 _ _ _ hsubscription
      have hpending : world.content frame name = some none := content_of_mem_waiting hmem
      rw [hpending] at hvalue
      cases hvalue
  · constructor
    · rw [search_subscribeTo hid]
      exact h.path
    · rw [search_subscribeTo hid]
      exact h.started
    · rw [search_subscribeTo hid]
      exact h.result
    · intro other hother hopen'
      rw [search_subscribeTo hid] at hother ⊢
      obtain ⟨hpending, hready⟩ := h.opened other hother hopen'
      refine ⟨hpending, ?_⟩
      intro frame name ticket heq
      rw [hsub] at heq
      split at heq
      · cases heq
      · exact hready frame name ticket heq
  -- the attempts that are settled are other ones
    · intro other root hroot hclosed
      have hne : ¬ (index = other ∧ index < (world.search id).subscriptions.length) := by
        rintro ⟨rfl, -⟩
        exact hclosed hopen
      have hsettled := h.settled other root (by rwa [search_subscribeTo hid] at hroot) hclosed
      have hsame := (advances_subscribeTo world id index none).outcome_eq hworld
        (List.mem_of_getElem? (by rwa [search_subscribeTo hid] at hroot))
      rw [hsame, hsub, if_neg hne, search_subscribeTo hid]
      exact hsettled
  · rw [search_subscribeTo hid]
    exact hundecided
  · rw [hsub, if_pos ⟨rfl, hlength⟩]

/-! ### Coming to know an outcome -/

/-- The world once a search has noted the outcome of an attempt. -/
def noteOutcome (id : SearchId) (index : Nat) (outcome : Outcome) (world : World κ) : World κ :=
  world.modifySearch id fun search =>
    { search with outcomes := search.outcomes.set index outcome }

theorem search_noteOutcome (hid : id.index < world.searches.size) (index : Nat)
    (outcome : Outcome) : (noteOutcome id index outcome world).search id =
      { world.search id with outcomes := (world.search id).outcomes.set index outcome } :=
  search_modifySearch_self hid _

theorem advances_noteOutcome (world : World κ) (id : SearchId) (index : Nat)
    (outcome : Outcome) : Advances id world (noteOutcome id index outcome world) :=
  advances_modifySearch world id _ (fun h => h) rfl rfl rfl

theorem subscription?_noteOutcome (hid : id.index < world.searches.size) (index : Nat)
    (outcome : Outcome) (other : Nat) :
    (noteOutcome id index outcome world).subscription? id other =
      world.subscription? id other := by
  rw [subscription?, search_noteOutcome hid]
  rfl

theorem Running.noteOutcome (hworld : world.Orderly) (h : world.Running id isOpen)
    {root : FrameId} (hroot : (world.search id).context[index]? = some root)
    (hnone : world.subscription? id index = none) (hne : world.outcome id root ≠ .pending) :
    (World.noteOutcome id index (world.outcome id root) world).Running id
      fun other => isOpen other ∧ other ≠ index := by
  have hid := lt_size_of_started h.started
  have hsearch := search_noteOutcome hid index (world.outcome id root)
  have hsub := subscription?_noteOutcome hid index (world.outcome id root)
  have hadvances := advances_noteOutcome world id index (world.outcome id root)
  constructor
  case path =>
    rw [hsearch]
    exact h.path
  case started =>
    rw [hsearch]
    exact h.started
  case result =>
    rw [hsearch]
    exact h.result
  case opened =>
    rintro other hother ⟨hopen, hother'⟩
    rw [hsearch] at hother ⊢
    obtain ⟨hpending, hready⟩ := h.opened other hother hopen
    refine ⟨?_, fun frame name ticket heq => hready frame name ticket (by rwa [hsub] at heq)⟩
    rw [List.getElem?_set_ne hother'.symm]
    exact hpending
  case settled =>
    intro other root' hroot' hclosed
    rw [hadvances.outcome_eq hworld (List.mem_of_getElem? (by rwa [hsearch] at hroot')), hsub]
    rw [hsearch] at hroot' ⊢
    by_cases heq : other = index
    · subst heq
      obtain rfl : root = root' := Option.some.inj (hroot.symm.trans hroot')
      have hlt : other < (world.search id).outcomes.length := by
        rw [(hworld.shaped id).outcomes]
        exact (List.getElem?_eq_some_iff.mp hroot).1
      exact ⟨List.getElem?_set_self hlt, by rw [if_neg hne, hnone]⟩
    · have hsettled := h.settled other root' hroot' fun hopen => hclosed ⟨hopen, heq⟩
      refine ⟨?_, hsettled.2⟩
      rw [List.getElem?_set_ne (Ne.symm heq)]
      exact hsettled.1

/-- An attempt whose outcome is known is settled, and the search may end. -/
theorem record_sound (h : world.Attempting id index isOpen) {root : FrameId} {outcome : Outcome}
    (hroot : (world.search id).context[index]? = some root)
    (houtcome : world.outcome id root = outcome) (hne : outcome ≠ .pending) :
    Proceeds id (fun other => isOpen other ∧ other ≠ index) world
      (record id index outcome world).2 := by
  subst houtcome
  have hid := lt_size_of_started h.running.started
  have hsub := subscription?_noteOutcome hid index (world.outcome id root)
  have hadvances := advances_noteOutcome world id index (world.outcome id root)
  have horderly : (noteOutcome id index (world.outcome id root) world).Orderly := by
    refine h.orderly.modifySearch rfl ⟨?_, (h.orderly.shaped id).subscriptions⟩
    rw [List.length_set]
    exact (h.orderly.shaped id).outcomes
  have hlinked : (noteOutcome id index (world.outcome id root) world).Linked id := by
    intro frame name ticket other component hmem
    obtain ⟨hsubscription, hstanding⟩ := h.linked _ _ _ _ _ hmem
    exact ⟨by rw [hsub, hsubscription], hstanding.later (hadvances.later id)⟩
  have hrunning := h.running.noteOutcome h.orderly hroot h.subscription hne
  exact (settle_sound horderly hlinked hrunning).of_advances hadvances fun other _ => hsub other

/-! ### Beginning to wait -/

/-- The world once an attempt waits for an attribute. -/
def await (id : SearchId) (index component : Nat) (frame : FrameId) (name : String)
    (world : World κ) : World κ :=
  subscribeTo id index (some ⟨frame, name, world.ticket frame⟩) <|
    world.setSlot frame name
      (.pending (world.waiting frame name ++
        [⟨world.ticket frame, .attempt id index component⟩])) (world.ticket frame + 1)

section Await

variable {component : Nat} {frame : FrameId} {name : String}

theorem search_await (hid : id.index < world.searches.size) :
    (await id index component frame name world).search id =
      { world.search id with
        subscriptions := (world.search id).subscriptions.set index
          (some ⟨frame, name, world.ticket frame⟩) } :=
  search_subscribeTo hid _

theorem content_await (id : SearchId) (index component : Nat)
    (hpending : world.content frame name = some none) (other : FrameId) (here : String) :
    (await id index component frame name world).content other here = world.content other here := by
  unfold await
  rw [subscribeTo, content_modifySearch, content_setSlot (lt_size_of_content hpending)]
  split
  · next heq =>
    rw [heq.1, heq.2, hpending]
    rfl
  · rfl

theorem mem_waiting_await (id : SearchId) (index component : Nat)
    (hpending : world.content frame name = some none) (other : FrameId) (here : String)
    (waiter : Waiter (Callback κ)) :
    waiter ∈ (await id index component frame name world).waiting other here ↔
      waiter ∈ world.waiting other here ∨
        (other = frame ∧ here = name ∧
          waiter = ⟨world.ticket frame, .attempt id index component⟩) := by
  unfold await
  rw [subscribeTo, waiting_modifySearch, waiting_setSlot (lt_size_of_content hpending)]
  split
  · next heq =>
    obtain ⟨rfl, rfl⟩ := heq
    simp [Slot.waiting]
  · next hne =>
    constructor
    · exact Or.inl
    · rintro (hmem | ⟨hother, hhere, -⟩)
      · exact hmem
      · exact absurd ⟨hother, hhere⟩ hne

theorem advances_await (hpending : world.content frame name = some none) :
    Advances id world (await id index component frame name world) := by
  refine Advances.trans ?_ (advances_subscribeTo _ id index _)
  refine ⟨by simp, ?_, ?_, ?_, rfl, fun _ _ => rfl, fun h => h, rfl, rfl, rfl⟩
  · intro other here _
    exact content_await id index component hpending other here
  · intro other _ hcomplete
    apply frame_setSlot_of_ne
    rintro rfl
    exact hcomplete name hpending
  · intro other here waiter hother
    refine (mem_waiting_await id index component hpending other here waiter).trans ?_
    constructor
    · rintro (hmem | ⟨-, -, rfl⟩)
      · exact hmem
      · exact absurd rfl (hother index component)
    · exact Or.inl

theorem subscription?_await_self (h : world.Attempting id index isOpen)
    (hindex : index < (world.search id).context.length) :
    (await id index component frame name world).subscription? id index =
      some ⟨frame, name, world.ticket frame⟩ := by
  rw [← (h.orderly.shaped id).subscriptions] at hindex
  rw [subscription?, search_await (lt_size_of_started h.running.started),
    List.getElem?_set_self hindex]
  rfl

theorem subscription?_await_of_ne (h : world.Attempting id index isOpen) {other : Nat}
    (hne : other ≠ index) :
    (await id index component frame name world).subscription? id other =
      world.subscription? id other := by
  rw [subscription?, search_await (lt_size_of_started h.running.started),
    List.getElem?_set_ne (Ne.symm hne)]
  rfl

theorem Attempting.linked_await (h : world.Attempting id index isOpen)
    (hstanding : world.Standing id index component frame name)
    (hpending : world.content frame name = some none)
    (hindex : index < (world.search id).context.length) :
    (await id index component frame name world).Linked id := by
  have hadvances : Advances id world (await id index component frame name world) :=
    advances_await hpending
  intro other here ticket index' component' hmem
  rw [mem_waiting_await id index component hpending] at hmem
  rcases hmem with hold | ⟨rfl, rfl, heq⟩
  · obtain ⟨hsubscription, hold'⟩ := h.linked _ _ _ _ _ hold
    have hne : index' ≠ index := by
      rintro rfl
      rw [h.subscription] at hsubscription
      cases hsubscription
    exact ⟨by rw [subscription?_await_of_ne h hne, hsubscription],
      hold'.later (hadvances.later id)⟩
  · cases heq
    exact ⟨subscription?_await_self h hindex, hstanding.later (hadvances.later id)⟩

theorem Attempting.running_await (h : world.Attempting id index isOpen)
    (hstanding : world.Standing id index component frame name)
    (hpending : world.content frame name = some none)
    (hindex : index < (world.search id).context.length) :
    (await id index component frame name world).Running id
      fun other => isOpen other ∧ other ≠ index := by
  have hadvances : Advances id world (await id index component frame name world) :=
    advances_await hpending
  have hsearch : (await id index component frame name world).search id = _ :=
    search_await (lt_size_of_started h.running.started)
  constructor
  case path =>
    rw [hsearch]
    exact h.running.path
  case started =>
    rw [hsearch]
    exact h.running.started
  case result =>
    rw [hsearch]
    exact h.running.result
  case opened =>
    rintro other hlt ⟨hopen, hne⟩
    rw [hsearch] at hlt ⊢
    obtain ⟨hnone, hready⟩ := h.running.opened other hlt hopen
    refine ⟨hnone, ?_⟩
    intro frame' name' ticket heq
    rw [subscription?_await_of_ne h hne] at heq
    rw [content_await id index component hpending]
    exact hready frame' name' ticket heq
  case settled =>
    intro other root hroot hclosed
    rw [hadvances.outcome_eq h.orderly (List.mem_of_getElem? (by rwa [hsearch] at hroot))]
    rw [hsearch] at hroot ⊢
    by_cases heq : other = index
    · subst heq
      -- this attempt waits now, and the others are as they were
      have hwalk : world.outcome id root = .pending := by
        rw [hstanding.outcome_eq hroot, walk_pending hpending]
      rw [hwalk, if_pos rfl]
      refine ⟨(h.running.opened other hindex h.isOpen).1, frame, name, world.ticket frame,
        component, subscription?_await_self h hindex, ?_⟩
      rw [mem_waiting_await id other component hpending]
      exact Or.inr ⟨rfl, rfl, rfl⟩
    · obtain ⟨houtcome, hwaits⟩ :=
        h.running.settled other root hroot fun hopen => hclosed ⟨hopen, heq⟩
      refine ⟨houtcome, ?_⟩
      rw [subscription?_await_of_ne h heq]
      split
      · next hwalk =>
        rw [if_pos hwalk] at hwaits
        obtain ⟨frame', name', ticket, component', hsubscription, hmem⟩ := hwaits
        refine ⟨frame', name', ticket, component', hsubscription, ?_⟩
        rw [mem_waiting_await id index component hpending]
        exact Or.inl hmem
      · next hwalk =>
        rw [if_neg hwalk] at hwaits
        exact hwaits

/-- An attempt that has begun to wait is settled, and the search goes on. -/
theorem await_sound (h : world.Attempting id index isOpen)
    (hstanding : world.Standing id index component frame name)
    (hpending : world.content frame name = some none) :
    Proceeds id (fun other => isOpen other ∧ other ≠ index) world
      (await id index component frame name world) := by
  obtain ⟨root, hroot, -⟩ := hstanding.root
  have hindex : index < (world.search id).context.length := (List.getElem?_eq_some_iff.mp hroot).1
  have hlinked := h.linked_await hstanding hpending hindex
  have hrunning := h.running_await hstanding hpending hindex
  refine ⟨?_, .running hlinked hrunning ?_, advances_await hpending,
    fun other hopen => Or.inl (subscription?_await_of_ne h hopen.2)⟩
  · exact (h.orderly.setSlot_wait hpending _).subscribeTo id index _
  · rw [search_await (lt_size_of_started h.running.started)]
    exact h.undecided

end Await

/-! ### Asking and taking -/

/-- A request settles the attempt for which it is made, if going on with a value does. -/
theorem ask_sound (h : world.Attempting id index isOpen) {component : Nat} {frame : FrameId}
    {name : String} (hstanding : world.Standing id index component frame name)
    {next : Value → World κ → List κ × World κ}
    (hnext : ∀ (value : Value) (later : World κ), later.Attempting id index isOpen →
      Advances id world later → later.Arrived id index component value →
        Proceeds id (fun other => isOpen other ∧ other ≠ index) later (next value later).2) :
    Proceeds id (fun other => isOpen other ∧ other ≠ index) world
      (ask id index component name frame next world).2 := by
  have hnoted := h.noteAttempt ⟨index, component, frame⟩
  have hspares := spares_noteAttempt world id ⟨index, component, frame⟩
  have hadvances := advances_noteAttempt world id ⟨index, component, frame⟩
  have hstanding' := hstanding.later (hadvances.later id)
  obtain ⟨root, hroot, -⟩ := hstanding'.root
  refine Proceeds.of_advances hadvances (fun other _ => hspares.subscription? other) ?_
  rw [ask_eq]
  cases hcontent : (World.noteAttempt id ⟨index, component, frame⟩ world).content frame name with
  | none =>
      rw [request_absent hcontent]
      refine record_sound hnoted hroot ?_ (by simp)
      rw [hstanding'.outcome_eq hroot, walk_absent hcontent]
  | some state =>
      cases state with
      | none =>
          rw [request_pending hcontent]
          exact await_sound hnoted hstanding' hcontent
      | some value =>
          rw [request_ready hcontent]
          exact hnext value _ hnoted hadvances ⟨frame, name, hstanding', hcontent⟩

theorem receive_of_committed (hcommitted : (world.search id).isCommitted = true)
    (component : Nat) (rest : List String) (value : Value) :
    receive id index component rest value world = ([], world) := by
  unfold receive
  rw [if_pos hcommitted]

theorem receive_nil (hopen : (world.search id).isCommitted = false) (component : Nat)
    (value : Value) :
    receive id index component [] value world =
      record id index (.found value) (subscribeTo id index none world) := by
  rw [receive, if_neg (by simp [hopen])]

theorem receive_cons (hopen : (world.search id).isCommitted = false) (component : Nat)
    (name : String) (rest : List String) (value : Value) :
    receive id index component (name :: rest) value world =
      match value with
      | .frame frame =>
          ask id index (component + 1) name frame (receive id index (component + 1) rest)
            (subscribeTo id index none world)
      | value =>
          record id index (.notAFrame component value.kind) (subscribeTo id index none world) := by
  have hgoes : ¬ (world.search id).isCommitted = true := by simp [hopen]
  rw [receive]
  exact (if_neg hgoes).trans (by cases value <;> rfl)

/-- A search that is under way goes on with an attempt that has arrived at a value. -/
theorem Arrived.attempting {component : Nat} {value : Value}
    (harrived : world.Arrived id index component value) (hworld : world.Orderly)
    (htended : world.Tended id isOpen) (hopen : isOpen index)
    (hcommitted : (world.search id).isCommitted = false) :
    (subscribeTo id index none world).Attempting id index isOpen := by
  obtain ⟨frame, here, hstanding, -⟩ := harrived
  obtain ⟨root, hroot, -⟩ := hstanding.root
  obtain ⟨hrunning, hundecided⟩ := htended.running_of_open hstanding.started hcommitted
  exact attempting_subscribeTo_none hworld htended.linked hrunning hundecided
    (List.getElem?_eq_some_iff.mp hroot).1 hopen

/-- Taking a value changes no subscription but that of the attempt. -/
theorem subscription?_subscribeTo_of_ne (hid : id.index < world.searches.size) {other : Nat}
    (hne : other ≠ index) (subscription : Option Subscription) :
    (subscribeTo id index subscription world).subscription? id other =
      world.subscription? id other := by
  rw [subscription?_subscribeTo hid, if_neg fun h => hne h.1.symm]

/-- The value of a component settles the attempt that takes it. -/
theorem receive_sound {component : Nat} {rest : List String} {value : Value}
    (hworld : world.Orderly) (htended : world.Tended id isOpen)
    (hopen : isOpen index) (harrived : world.Arrived id index component value)
    (hrest : (world.search id).names.drop (component + 1) = rest) :
    Proceeds id (fun other => isOpen other ∧ other ≠ index) world
      (receive id index component rest value world).2 := by
  induction rest generalizing world component value with
  | nil =>
      cases hcommitted : (world.search id).isCommitted with
      | true =>
          rw [receive_of_committed hcommitted]
          exact htended.proceeds_of_committed hworld hcommitted
      | false =>
          have hattempting := harrived.attempting hworld htended hopen hcommitted
          have hadvances := advances_subscribeTo world id index none
          have hlater := harrived.later (hadvances.later id)
          obtain ⟨root, hroot⟩ := hlater.root
          have hid := lt_size_of_started harrived.started
          rw [receive_nil hcommitted]
          refine (record_sound hattempting hroot ?_ (by simp)).of_advances hadvances
            fun other hother => subscription?_subscribeTo_of_ne hid hother.2 none
          rw [hlater.outcome_eq hroot, hadvances.names, hrest]
          rfl
  | cons name rest ih =>
      cases hcommitted : (world.search id).isCommitted with
      | true =>
          rw [receive_of_committed hcommitted]
          exact htended.proceeds_of_committed hworld hcommitted
      | false =>
          have hattempting := harrived.attempting hworld htended hopen hcommitted
          have hadvances := advances_subscribeTo world id index none
          have hlater := harrived.later (hadvances.later id)
          obtain ⟨root, hroot⟩ := hlater.root
          have hid := lt_size_of_started harrived.started
          have hname : ((subscribeTo id index none world).search id).names[component + 1]? =
              some name := by
            rw [hadvances.names, ← List.head?_drop, hrest]
            rfl
          rw [receive_cons hcommitted]
          refine Proceeds.of_advances hadvances
            (fun other hother => subscription?_subscribeTo_of_ne hid hother.2 none) ?_
          cases value with
          | frame inner =>
              -- the walk goes on with the next component, in the frame it has come to
              refine ask_sound hattempting (hlater.standing hname) ?_
              intro value later hattempting' hadvances' harrived'
              have hunder : later.Tended id isOpen :=
                .running hattempting'.linked hattempting'.running hattempting'.undecided
              refine ih hattempting'.orderly hunder harrived' ?_
              rw [hadvances'.names, hadvances.names, ← List.tail_drop, hrest]
              rfl
          -- a value that is no frame has no components
          | _ =>
              refine record_sound hattempting hroot ?_ (by simp)
              rw [hlater.outcome_eq hroot, hadvances.names, hrest]
              rfl

end Attempting

/-! ## Beginning -/

section Begin

variable {world : World κ} {id : SearchId}

/-- It matters only of the frames of the context whether the attempts at them are open. -/
theorem Tended.congr {isOpen isOpen' : Nat → Prop} (h : world.Tended id isOpen)
    (heq : ∀ index, index < (world.search id).context.length → (isOpen index ↔ isOpen' index)) :
    world.Tended id isOpen' := by
  cases h with
  | unstarted hlinked hunstarted => exact .unstarted hlinked hunstarted
  | running hlinked hrunning hundecided =>
      refine .running hlinked ⟨hrunning.path, hrunning.started, hrunning.result, ?_, ?_⟩ hundecided
      · intro index hindex hopen
        exact hrunning.opened index hindex ((heq index hindex).mpr hopen)
      · intro index root hroot hclosed
        have hindex := (List.getElem?_eq_some_iff.mp hroot).1
        exact hrunning.settled index root hroot fun hopen => hclosed ((heq index hindex).mp hopen)
  | ended hlinked hended => exact .ended hlinked hended

/-- A search attempts the frames of its context one after the other, and then every attempt is
settled. -/
theorem attemptFrom_sound {name : String} {rest : List String} {index : Nat}
    {frames : List FrameId} (hworld : world.Orderly)
    (htended : world.Tended id fun other => index ≤ other)
    (hstarted : (world.search id).started = true) (hnames : (world.search id).names = name :: rest)
    (hframes : (world.search id).context.drop index = frames)
    (hnone : ∀ other, index ≤ other → world.subscription? id other = none) :
    Proceeds id (fun _ => False) world (attemptFrom id name rest index frames world).2 := by
  induction frames generalizing world index with
  | nil =>
      have hlength : (world.search id).context.length ≤ index := List.drop_eq_nil_iff.mp hframes
      have hnobody : world.Tended id fun _ => False := by
        refine htended.congr ?_
        intro other hother
        simp only [iff_false]
        omega
      exact hnobody.settle_sound hworld hstarted
  | cons frame frames ih =>
      cases hcommitted : (world.search id).isCommitted with
      | true =>
          have hsame : attemptFrom id name rest index (frame :: frames) world = ([], world) := by
            rw [attemptFrom, if_pos hcommitted]
          rw [hsame]
          exact htended.proceeds_of_committed hworld hcommitted
      | false =>
          have hroot : (world.search id).context[index]? = some frame := by
            rw [← List.head?_drop, hframes]
            rfl
          obtain ⟨hrunning, hundecided⟩ := htended.running_of_open hstarted hcommitted
          have hattempting : world.Attempting id index fun other => index ≤ other :=
            ⟨hworld, htended.linked, hrunning, hundecided, Nat.le_refl _,
              hnone index (Nat.le_refl _)⟩
          have hstanding : world.Standing id index 0 frame name :=
            ⟨hstarted, by rw [hnames]; rfl, frame, hroot, rfl⟩
          -- the attempt is settled, however far its walk leads
          have hasked : Proceeds id (fun other => index ≤ other ∧ other ≠ index) world
              (ask id index 0 name frame (receive id index 0 rest) world).2 := by
            refine ask_sound hattempting hstanding ?_
            intro value later hlater hadvances harrived
            refine receive_sound hlater.orderly
              (.running hlater.linked hlater.running hlater.undecided) hlater.isOpen harrived ?_
            rw [hadvances.names, hnames]
            rfl
          -- so those that are still open come after it
          have htended' : (ask id index 0 name frame (receive id index 0 rest) world).2.Tended id
              fun other => index + 1 ≤ other := by
            refine hasked.tended.congr ?_
            intro other _
            omega
          have hrest := ih hasked.orderly htended' (hasked.advances.started hstarted)
            (by rw [hasked.advances.names, hnames])
            (by rw [hasked.advances.context, ← List.tail_drop, hframes]; rfl) ?_
          · have hnext : (attemptFrom id name rest index (frame :: frames) world).2 =
                (attemptFrom id name rest (index + 1) frames
                  (ask id index 0 name frame (receive id index 0 rest) world).2).2 := by
              rw [attemptFrom, if_neg (by simp [hcommitted])]
            rw [hnext]
            exact ⟨hrest.orderly, hrest.tended, hasked.advances.trans hrest.advances,
              fun _ => False.elim⟩
          · intro other hother
            rcases hasked.subscription other (by omega) with hsame | hgone
            · rw [hsame]
              exact hnone other (by omega)
            · exact hgone

/-- The world once a search has begun. -/
def noteStarted (id : SearchId) (world : World κ) : World κ :=
  world.modifySearch id fun search => { search with started := true }

theorem search_noteStarted (hid : id.index < world.searches.size) :
    (noteStarted id world).search id = { world.search id with started := true } :=
  search_modifySearch_self hid _

theorem advances_noteStarted (world : World κ) (id : SearchId) :
    Advances id world (noteStarted id world) :=
  advances_modifySearch world id _ (fun _ => rfl) rfl rfl rfl

theorem Orderly.noteStarted (hworld : world.Orderly) (id : SearchId) :
    (World.noteStarted id world).Orderly :=
  hworld.modifySearch rfl ⟨(hworld.shaped id).outcomes, (hworld.shaped id).subscriptions⟩

theorem Unstarted.subscription?_noteStarted (h : world.Unstarted id)
    (hid : id.index < world.searches.size) (index : Nat) :
    (World.noteStarted id world).subscription? id index = none := by
  rw [subscription?, search_noteStarted hid]
  exact h.subscriptions index

theorem Unstarted.linked_noteStarted (h : world.Unstarted id) (hlinked : world.Linked id) :
    (World.noteStarted id world).Linked id := by
  intro frame name ticket index component hmem
  exact absurd hmem (hlinked.not_mem_waiting (h.subscriptions index) frame name ticket component)

/-- At its beginning all attempts of a search are open. -/
theorem Unstarted.running_noteStarted (h : world.Unstarted id)
    (hid : id.index < world.searches.size)
    (hpath : Search.pathError? (world.search id).names = none) :
    (World.noteStarted id world).Running id fun other => 0 ≤ other := by
  have hsearch := search_noteStarted hid
  constructor
  case path =>
    rw [hsearch]
    exact hpath
  case started => rw [hsearch]
  case result =>
    rw [hsearch]
    exact h.result
  case opened =>
    intro index hindex _
    rw [hsearch] at hindex ⊢
    refine ⟨h.outcomes index hindex, ?_⟩
    intro frame name ticket heq
    rw [h.subscription?_noteStarted hid] at heq
    cases heq
  case settled =>
    intro index root _ hclosed
    exact absurd (Nat.zero_le index) hclosed

/-- Nothing is certain while the first outcome is pending. -/
theorem verdict?_of_pending {search : Search κ} (h : search.outcomes[0]? = some .pending) :
    search.verdict? = none := by
  unfold Search.verdict?
  cases houtcomes : search.outcomes with
  | nil => simp [houtcomes] at h
  | cons outcome rest =>
      obtain rfl : outcome = .pending := by simpa [houtcomes] using h
      cases search.mode <;> rfl

theorem begin_of_started (hstarted : (world.search id).started = true) :
    begin id world = ([], world) := by
  rw [begin, if_pos hstarted]

theorem begin_eq (hstarted : (world.search id).started = false) :
    begin id world =
      match Search.pathError? (world.search id).names, (world.search id).names with
      | some error, _ => commit id (.error error) (noteStarted id world)
      | none, name :: rest =>
          attemptFrom id name rest 0 (world.search id).context (noteStarted id world)
      | none, [] => ([], noteStarted id world) := by
  rw [begin, if_neg (by simp [hstarted])]
  rfl

/-- There is nothing to begin where there is no search. -/
theorem begin_of_size_le (hid : world.searches.size ≤ id.index) :
    (begin id world).2 = world := by
  have hsearch : world.search id = default := by
    rw [search, Array.getElem?_eq_none hid]
    rfl
  have hsame : ∀ change, world.modifySearch id change = world := by
    intro change
    obtain ⟨frames, templates, searches⟩ := world
    simp only [modifySearch, mk.injEq, true_and]
    apply Array.ext (by simp)
    intro index hsize hlt
    rw [Array.getElem_modify, if_neg (Nat.ne_of_gt (Nat.lt_of_lt_of_le hlt hid))]
  rw [begin_eq (by rw [hsearch]; rfl), noteStarted, hsame, hsearch]
  simp only [commit, hsame, hsearch]
  rfl

/-- Beginning a search settles all its attempts, or ends it. -/
theorem begin_sound (hworld : world.Orderly) (htended : world.Tended id fun _ => False) :
    Proceeds id (fun _ => False) world (begin id world).2 := by
  cases htended with
  | running hlinked hrunning hundecided =>
      rw [begin_of_started hrunning.started]
      exact Tended.proceeds (.running hlinked hrunning hundecided) hworld
  | ended hlinked hended =>
      rw [begin_of_started hended.started]
      exact Tended.proceeds (.ended hlinked hended) hworld
  | unstarted hlinked h =>
      by_cases hid : id.index < world.searches.size
      · have hadvances := advances_noteStarted world id
        have hsearch := search_noteStarted hid
        have hnone := h.subscription?_noteStarted hid
        have horderly := hworld.noteStarted id
        have hlinked' := h.linked_noteStarted hlinked
        have hstarted : ((noteStarted id world).search id).started = true := by rw [hsearch]
        refine Proceeds.of_advances hadvances (fun _ => False.elim) ?_
        rw [begin_eq h.started]
        cases hpath : Search.pathError? (world.search id).names with
        | some error =>
            -- nobody waits for a search that has only just begun
            have howned : (noteStarted id world).Owned id := by
              intro index frame name ticket hsubscription
              rw [hnone] at hsubscription
              cases hsubscription
            refine commit_sound horderly hlinked' howned hstarted ⟨.failure error, ?_, rfl⟩ _
            simp only [reference?, hsearch, hpath]
        | none =>
            have hrunning := h.running_noteStarted hid hpath
            cases hnames : (world.search id).names with
            | nil => simp [hnames, Search.pathError?] at hpath
            | cons name rest =>
                cases hcontext : (world.search id).context with
                | nil =>
                    have hsettled : (noteStarted id world).Running id fun _ => False := by
                      refine ⟨hrunning.path, hrunning.started, hrunning.result, ?_, ?_⟩
                      · exact fun _ _ => False.elim
                      · intro index root hroot
                        simp [hsearch, hcontext] at hroot
                    exact settle_sound horderly hlinked' hsettled
                | cons root roots =>
                    have hlength : 0 < ((noteStarted id world).search id).context.length := by
                      simp [hsearch, hcontext]
                    have hundecided : ((noteStarted id world).search id).verdict? = none :=
                      verdict?_of_pending (hrunning.opened 0 hlength (Nat.le_refl 0)).1
                    rw [← hcontext]
                    exact attemptFrom_sound horderly (.running hlinked' hrunning hundecided)
                      hstarted (by rw [hsearch, hnames]) (by rw [hsearch]; rfl)
                      fun index _ => hnone index
      · rw [begin_of_size_le (Nat.le_of_not_lt hid)]
        exact Tended.proceeds (.unstarted hlinked h) hworld

end Begin

end FrameLang.World
