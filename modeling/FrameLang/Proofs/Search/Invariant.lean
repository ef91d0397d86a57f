import FrameLang.Proofs.Search.Reference
import Mathlib.Data.List.Nodup

/-!
# What holds while searches are under way

A world is in order when its frames refer only to each other and its tickets
are distinct (`World.Orderly`).  On top of that each search is in one of three
phases: it has not started, it is running, or it has ended (`World.Tended`).

While a search runs, the attempt at each frame of its context is either *open*
or *settled*.  A settled attempt agrees with the walk down the path: its
outcome is the outcome of the walk, and if the walk ends at a pending attribute
somebody waits there for exactly this attempt.  An open attempt is one on which
something remains to be done: it has not been made yet, or what it waited for
has just been produced and its callback has still to run.  Between the calls no
attempt is open, and then the outcomes of a running search are those of the
walks.

`World.Linked` ties those who wait in the frames to the subscriptions of the
search on whose behalf they wait.

Each step of a search touches that search alone: it leaves what the frames say,
the other searches, and those who wait for anybody else (`World.Advances`).
-/

namespace FrameLang.World

variable {κ : Type}

/-! ## Order -/

/-- What the attempt at a frame of the context waits for. -/
def subscription? (world : World κ) (id : SearchId) (index : Nat) : Option Subscription :=
  ((world.search id).subscriptions[index]?).join

/-- A search that has begun is a search of the world. -/
theorem lt_size_of_started {world : World κ} {id : SearchId}
    (h : (world.search id).started = true) : id.index < world.searches.size := by
  by_contra hge
  rw [search, Array.getElem?_eq_none (Nat.le_of_not_lt hge)] at h
  cases h

/-- A search keeps one outcome and one subscription for each frame of its context. -/
structure Shaped (search : Search κ) : Prop where
  outcomes : search.outcomes.length = search.context.length
  subscriptions : search.subscriptions.length = search.context.length

/-- The order that every operation keeps, whatever the searches are doing. -/
structure Orderly (world : World κ) : Prop where
  closed : world.Closed
  contexts : ∀ id, ∀ frame ∈ (world.search id).context, frame.index < world.frames.size
  shaped : ∀ id, Shaped (world.search id)
  ticket_lt : ∀ frame name, ∀ waiter ∈ world.waiting frame name,
    waiter.ticket < world.ticket frame
  tickets_nodup : ∀ frame name, ((world.waiting frame name).map Waiter.ticket).Nodup

/-- In one list of those who wait, the ticket tells who it is. -/
theorem Orderly.eq_of_ticket_eq {world : World κ} (h : world.Orderly) {frame : FrameId}
    {name : String} {first second : Waiter (Callback κ)}
    (hfirst : first ∈ world.waiting frame name) (hsecond : second ∈ world.waiting frame name)
    (hticket : first.ticket = second.ticket) : first = second :=
  List.inj_on_of_nodup_map (h.tickets_nodup frame name) hfirst hsecond hticket

/-! ## Attempts -/

/-- The attempt at a frame of the context has come down to asking a frame for a name. -/
structure Standing (world : World κ) (id : SearchId) (index component : Nat) (frame : FrameId)
    (name : String) : Prop where
  started : (world.search id).started = true
  name : (world.search id).names[component]? = some name
  root : ∃ root, (world.search id).context[index]? = some root ∧
    world.reach root ((world.search id).names.take component) = some frame

/-- The attempt at a frame of the context has come down to the value of a component. -/
def Arrived (world : World κ) (id : SearchId) (index component : Nat) (value : Value) : Prop :=
  ∃ frame name, world.Standing id index component frame name ∧
    world.content frame name = some (some value)

/-- The walk of a search down its path from a frame. -/
def outcome (world : World κ) (id : SearchId) (root : FrameId) : Outcome :=
  world.walk 0 root (world.search id).names

theorem Standing.outcome_eq {world : World κ} {id : SearchId} {index component : Nat}
    {frame root : FrameId} {name : String} (h : world.Standing id index component frame name)
    (hroot : (world.search id).context[index]? = some root) :
    world.outcome id root =
      world.walk component frame (name :: (world.search id).names.drop (component + 1)) := by
  obtain ⟨other, hother, hreach⟩ := h.root
  obtain rfl : root = other := Option.some.inj (hroot.symm.trans hother)
  obtain ⟨hlt, hname⟩ := List.getElem?_eq_some_iff.mp h.name
  have hsplit : (world.search id).names =
      (world.search id).names.take component ++
        name :: (world.search id).names.drop (component + 1) := by
    rw [← hname, List.getElem_cons_drop, List.take_append_drop]
  have hlength : ((world.search id).names.take component).length = component := by
    rw [List.length_take, Nat.min_eq_left (Nat.le_of_lt hlt)]
  rw [outcome]
  conv_lhs => rw [hsplit]
  rw [walk_of_reach 0 hreach, hlength, Nat.zero_add]

theorem Arrived.outcome_eq {world : World κ} {id : SearchId} {index component : Nat}
    {root : FrameId} {value : Value} (h : world.Arrived id index component value)
    (hroot : (world.search id).context[index]? = some root) :
    world.outcome id root =
      world.walkOn component value ((world.search id).names.drop (component + 1)) := by
  obtain ⟨frame, name, hstanding, hcontent⟩ := h
  rw [hstanding.outcome_eq hroot, walk_ready hcontent]

theorem Arrived.started {world : World κ} {id : SearchId} {index component : Nat} {value : Value}
    (h : world.Arrived id index component value) : (world.search id).started = true := by
  obtain ⟨frame, name, hstanding, -⟩ := h
  exact hstanding.started

theorem Arrived.root {world : World κ} {id : SearchId} {index component : Nat} {value : Value}
    (h : world.Arrived id index component value) :
    ∃ root, (world.search id).context[index]? = some root := by
  obtain ⟨frame, name, hstanding, -⟩ := h
  obtain ⟨root, hroot, -⟩ := hstanding.root
  exact ⟨root, hroot⟩

/-- From a frame that a path led to, the attempt goes on with the next name. -/
theorem Arrived.standing {world : World κ} {id : SearchId} {index component : Nat}
    {inner : FrameId} {name : String} (h : world.Arrived id index component (.frame inner))
    (hname : (world.search id).names[component + 1]? = some name) :
    world.Standing id index (component + 1) inner name := by
  obtain ⟨frame, here, ⟨hstarted, hhere, root, hroot, hreach⟩, hcontent⟩ := h
  refine ⟨hstarted, hname, root, hroot, ?_⟩
  rw [List.take_add_one, hhere, reach_append, hreach]
  simp only [Option.bind_some, Option.toList_some, reach, hcontent]

/-! ## Results -/

/-- A result says what a verdict says; a list is a frame of its own that lists the values. -/
def Realises (world : World κ) (result : Result) : Verdict → Prop
  | .value value => result = .ok value
  | .failure error => result = .error error
  | .list values => ∃ frame : FrameId, result = .ok (.frame frame) ∧
      frame.index < world.frames.size ∧ world.frame frame = .ofValues values

/-- A search has ended with the result that its reference search has. -/
def Answered (world : World κ) (id : SearchId) (result : Result) : Prop :=
  ∃ verdict, world.reference? (world.search id).context (world.search id).names
    (world.search id).mode = some verdict ∧ world.Realises result verdict

/-! ## Phases -/

/-- Those who wait on behalf of a search wait for what its subscriptions say. -/
def Linked (world : World κ) (id : SearchId) : Prop :=
  ∀ frame name ticket index component,
    ⟨ticket, .attempt id index component⟩ ∈ world.waiting frame name →
      world.subscription? id index = some ⟨frame, name, ticket⟩ ∧
        world.Standing id index component frame name

/-- A search that has not begun. -/
structure Unstarted (world : World κ) (id : SearchId) : Prop where
  started : (world.search id).started = false
  result : (world.search id).result = none
  outcomes : ∀ index, index < (world.search id).context.length →
    (world.search id).outcomes[index]? = some .pending
  subscriptions : ∀ index, world.subscription? id index = none

/-- A search that has begun and not ended; `isOpen` says which of its attempts are open. -/
structure Running (world : World κ) (id : SearchId) (isOpen : Nat → Prop) : Prop where
  path : Search.pathError? (world.search id).names = none
  started : (world.search id).started = true
  result : (world.search id).result = none
  /-- Nothing is known of an open attempt, and what it may have waited for is there. -/
  opened : ∀ index, index < (world.search id).context.length → isOpen index →
    (world.search id).outcomes[index]? = some .pending ∧
      ∀ frame name ticket, world.subscription? id index = some ⟨frame, name, ticket⟩ →
        ∃ value, world.content frame name = some (some value)
  settled : ∀ index root, (world.search id).context[index]? = some root → ¬ isOpen index →
    (world.search id).outcomes[index]? = some (world.outcome id root) ∧
      if world.outcome id root = .pending then
        ∃ frame name ticket component,
          world.subscription? id index = some ⟨frame, name, ticket⟩ ∧
            ⟨ticket, .attempt id index component⟩ ∈ world.waiting frame name
      else world.subscription? id index = none

/-- A search that has ended. -/
structure Ended (world : World κ) (id : SearchId) : Prop where
  started : (world.search id).started = true
  result : ∃ result, (world.search id).result = some result ∧ world.Answered id result
  subscriptions : ∀ index, world.subscription? id index = none

/-- What holds of a search whenever no step of its own is being taken. -/
inductive Tended (world : World κ) (id : SearchId) (isOpen : Nat → Prop) : Prop where
  | unstarted (linked : world.Linked id) (unstarted : world.Unstarted id)
  | running (linked : world.Linked id) (running : world.Running id isOpen)
      (undecided : (world.search id).verdict? = none)
  | ended (linked : world.Linked id) (ended : world.Ended id)

theorem Tended.linked {world : World κ} {id : SearchId} {isOpen : Nat → Prop}
    (h : world.Tended id isOpen) : world.Linked id := by
  cases h with
  | unstarted linked _ => exact linked
  | running linked _ _ => exact linked
  | ended linked _ => exact linked

/-- A search without subscriptions is one for which nobody waits. -/
theorem Linked.not_mem_waiting {world : World κ} {id : SearchId} (h : world.Linked id)
    {index : Nat} (hnone : world.subscription? id index = none) (frame : FrameId) (name : String)
    (ticket component : Nat) :
    (⟨ticket, .attempt id index component⟩ : Waiter (Callback κ)) ∉ world.waiting frame name := by
  intro hmem
  rw [(h _ _ _ _ _ hmem).1] at hnone
  cases hnone

/-! ## One search at a time -/

/-- A step on behalf of one search: nothing is produced, and all that concerns other searches
or observers stays. -/
structure Advances (id : SearchId) (before after : World κ) : Prop where
  size_le : before.frames.size ≤ after.frames.size
  content : ∀ frame name, frame.index < before.frames.size →
    after.content frame name = before.content frame name
  complete : ∀ frame, frame.index < before.frames.size → before.Complete frame →
    after.frame frame = before.frame frame
  waiting : ∀ frame name (waiter : Waiter (Callback κ)),
    (∀ index component, waiter.callback ≠ .attempt id index component) →
      (waiter ∈ after.waiting frame name ↔ waiter ∈ before.waiting frame name)
  size_searches : after.searches.size = before.searches.size
  search : ∀ other, other ≠ id → after.search other = before.search other
  started : (before.search id).started = true → (after.search id).started = true
  names : (after.search id).names = (before.search id).names
  context : (after.search id).context = (before.search id).context
  mode : (after.search id).mode = (before.search id).mode

namespace Advances

variable {id : SearchId} {before after third : World κ}

theorem refl (id : SearchId) (world : World κ) : Advances id world world := by
  constructor <;> simp

theorem trans (h : Advances id before after) (h' : Advances id after third) :
    Advances id before third where
  size_le := Nat.le_trans h.size_le h'.size_le
  content frame name hframe := by
    rw [h'.content frame name (Nat.lt_of_lt_of_le hframe h.size_le), h.content frame name hframe]
  complete frame hframe hcomplete := by
    rw [h'.complete frame (Nat.lt_of_lt_of_le hframe h.size_le), h.complete frame hframe hcomplete]
    intro name
    rw [h.content frame name hframe]
    exact hcomplete name
  waiting frame name waiter hother :=
    (h'.waiting frame name waiter hother).trans (h.waiting frame name waiter hother)
  size_searches := h'.size_searches.trans h.size_searches
  search other hne := (h'.search other hne).trans (h.search other hne)
  started hstarted := h'.started (h.started hstarted)
  names := h'.names.trans h.names
  context := h'.context.trans h.context
  mode := h'.mode.trans h.mode

theorem toExtends (h : Advances id before after) : before.Extends after :=
  .of_eq h.size_le h.content

theorem outcome_eq (h : Advances id before after) (hbefore : before.Orderly) {root : FrameId}
    (hroot : root ∈ (before.search id).context) :
    after.outcome id root = before.outcome id root := by
  unfold World.outcome
  rw [h.names]
  exact walk_congr hbefore.closed h.content (hbefore.contexts id root hroot) 0 _

end Advances

/-- More may have been produced, and a search still looks for the same path in the same frames. -/
structure Later (id : SearchId) (before after : World κ) : Prop where
  toExtends : before.Extends after
  complete : ∀ frame, frame.index < before.frames.size → before.Complete frame →
    after.frame frame = before.frame frame
  started : (before.search id).started = true → (after.search id).started = true
  names : (after.search id).names = (before.search id).names
  context : (after.search id).context = (before.search id).context
  mode : (after.search id).mode = (before.search id).mode

theorem Advances.later {id : SearchId} {before after : World κ} (h : Advances id before after)
    (other : SearchId) : Later other before after := by
  by_cases heq : other = id
  · subst heq
    exact ⟨h.toExtends, h.complete, h.started, h.names, h.context, h.mode⟩
  · have hsame := h.search other heq
    exact ⟨h.toExtends, h.complete, by rw [hsame]; exact fun h => h, by rw [hsame],
      by rw [hsame], by rw [hsame]⟩

section Later

variable {id : SearchId} {before after : World κ}

theorem Standing.later (h : Later id before after) {index component : Nat} {frame : FrameId}
    {name : String} (hstanding : before.Standing id index component frame name) :
    after.Standing id index component frame name := by
  obtain ⟨hstarted, hname, root, hroot, hreach⟩ := hstanding
  refine ⟨h.started hstarted, by rw [h.names, hname], root, by rw [h.context, hroot], ?_⟩
  rw [h.names]
  exact reach_of_extends h.toExtends hreach

theorem Arrived.later (h : Later id before after) {index component : Nat} {value : Value}
    (harrived : before.Arrived id index component value) :
    after.Arrived id index component value := by
  obtain ⟨frame, name, hstanding, hcontent⟩ := harrived
  exact ⟨frame, name, hstanding.later h, h.toExtends.of_ready hcontent⟩

theorem Orderly.refines_of_later (hbefore : before.Orderly) (h : Later id before after) :
    List.Forall₂ Outcome.Refines ((before.search id).context.map (before.outcome id))
      ((after.search id).context.map (after.outcome id)) := by
  rw [h.context, List.forall₂_map_left_iff, List.forall₂_map_right_iff, List.forall₂_same]
  intro frame hframe
  unfold outcome
  rw [h.names]
  exact walk_of_extends hbefore.closed h.toExtends (hbefore.contexts id frame hframe) 0 _

/-- The result of a search stays the result of its reference search. -/
theorem Answered.later (hbefore : before.Orderly) (h : Later id before after) {result : Result}
    (hanswered : before.Answered id result) : after.Answered id result := by
  obtain ⟨verdict, hverdict, hrealises⟩ := hanswered
  refine ⟨verdict, ?_, ?_⟩
  · have hrefines := hbefore.refines_of_later h
    unfold reference? at hverdict ⊢
    rw [h.names]
    cases hpath : Search.pathError? (before.search id).names with
    | some error => simpa only [hpath] using hverdict
    | none =>
        simp only [hpath] at hverdict ⊢
        unfold outcome at hrefines
        rw [h.names] at hrefines
        rw [h.mode]
        exact result?_of_refines hrefines hverdict
  · cases verdict with
    | value value => exact hrealises
    | failure error => exact hrealises
    | list values =>
        obtain ⟨frame, hresult, hlt, hframe⟩ := hrealises
        refine ⟨frame, hresult, Nat.lt_of_lt_of_le hlt h.toExtends.size_le, ?_⟩
        rw [h.complete frame hlt, hframe]
        intro name hpending
        unfold content at hpending
        rw [hframe] at hpending
        obtain ⟨slot, hslot, hvalue⟩ := Option.map_eq_some_iff.mp hpending
        obtain ⟨value, -, rfl⟩ := find?_ofValues hslot
        cases hvalue

end Later

/-! ## What leaves a search alone -/

/-- Nothing that concerns a search has changed, except perhaps the record of its requests and
who listens to it. -/
structure Spares (id : SearchId) (before after : World κ) : Prop where
  size_le : before.frames.size ≤ after.frames.size
  content : ∀ frame name, frame.index < before.frames.size →
    after.content frame name = before.content frame name
  complete : ∀ frame, frame.index < before.frames.size → before.Complete frame →
    after.frame frame = before.frame frame
  waiting : ∀ frame name ticket index component,
    ⟨ticket, .attempt id index component⟩ ∈ after.waiting frame name ↔
      ⟨ticket, .attempt id index component⟩ ∈ before.waiting frame name
  search : ∃ attempts listeners, after.search id =
    { before.search id with attempts := attempts, listeners := listeners }

theorem Advances.spares {id other : SearchId} {before after : World κ}
    (h : Advances id before after) (hne : other ≠ id) : Spares other before after where
  size_le := h.size_le
  content := h.content
  complete := h.complete
  waiting frame name ticket index component := by
    apply h.waiting
    intro _ _ heq
    cases heq
    exact hne rfl
  search := ⟨_, _, h.search other hne⟩

section Spares

variable {id : SearchId} {before after : World κ}

theorem Spares.later (h : Spares id before after) : Later id before after := by
  obtain ⟨attempts, listeners, hsearch⟩ := h.search
  constructor
  · exact .of_eq h.size_le h.content
  · exact h.complete
  all_goals simp [hsearch]

theorem Spares.subscription? (h : Spares id before after) (index : Nat) :
    after.subscription? id index = before.subscription? id index := by
  obtain ⟨attempts, listeners, hsearch⟩ := h.search
  unfold World.subscription?
  rw [hsearch]

theorem Spares.outcome (h : Spares id before after) (hbefore : before.Orderly) {root : FrameId}
    (hroot : root ∈ (before.search id).context) :
    after.outcome id root = before.outcome id root := by
  unfold World.outcome
  rw [h.later.names]
  exact walk_congr hbefore.closed h.content (hbefore.contexts id root hroot) 0 _

theorem Linked.spared (h : Spares id before after) (hlinked : before.Linked id) :
    after.Linked id := by
  intro frame name ticket index component hmem
  rw [h.waiting] at hmem
  obtain ⟨hsubscription, hstanding⟩ := hlinked _ _ _ _ _ hmem
  exact ⟨by rw [h.subscription?, hsubscription], hstanding.later h.later⟩

theorem Running.spared (h : Spares id before after) (hbefore : before.Orderly)
    {isOpen : Nat → Prop} (hrunning : before.Running id isOpen) : after.Running id isOpen := by
  have hsub := h.subscription?
  have hout : ∀ root ∈ (before.search id).context, after.outcome id root = before.outcome id root :=
    fun root hroot => h.outcome hbefore hroot
  obtain ⟨attempts, listeners, hsearch⟩ := h.search
  constructor
  case path => simpa [hsearch] using hrunning.path
  case started => simpa [hsearch] using hrunning.started
  case result => simpa [hsearch] using hrunning.result
  case opened =>
    intro index hindex hopen
    rw [hsearch] at hindex ⊢
    obtain ⟨hpending, hready⟩ := hrunning.opened index hindex hopen
    refine ⟨hpending, ?_⟩
    intro frame name ticket heq
    rw [hsub] at heq
    obtain ⟨value, hvalue⟩ := hready frame name ticket heq
    exact ⟨value, by rw [h.content frame name (lt_size_of_content hvalue), hvalue]⟩
  case settled =>
    intro index root hroot hclosed
    rw [hsearch] at hroot
    rw [hout root (List.mem_of_getElem? hroot), hsub]
    simp only [hsearch, h.waiting]
    exact hrunning.settled index root hroot hclosed

/-- A search on which nothing happens stays in the phase in which it is. -/
theorem Tended.spared (h : Spares id before after) (hbefore : before.Orderly)
    {isOpen : Nat → Prop} (htended : before.Tended id isOpen) : after.Tended id isOpen := by
  have hsub := h.subscription?
  obtain ⟨attempts, listeners, hsearch⟩ := h.search
  cases htended with
  | unstarted hlinked hunstarted =>
      refine .unstarted (hlinked.spared h) ?_
      obtain ⟨hstarted, hresult, houtcomes, hsubscriptions⟩ := hunstarted
      exact ⟨by simpa [hsearch] using hstarted, by simpa [hsearch] using hresult,
        by simpa [hsearch] using houtcomes, fun index => by rw [hsub, hsubscriptions]⟩
  | running hlinked hrunning hundecided =>
      refine .running (hlinked.spared h) (hrunning.spared h hbefore) ?_
      rw [hsearch]
      exact hundecided
  | ended hlinked hended =>
      refine .ended (hlinked.spared h) ?_
      obtain ⟨hstarted, ⟨result, hresult, hanswered⟩, hsubscriptions⟩ := hended
      exact ⟨by simpa [hsearch] using hstarted,
        ⟨result, by simpa [hsearch] using hresult, hanswered.later hbefore h.later⟩,
        fun index => by rw [hsub, hsubscriptions]⟩

end Spares

end FrameLang.World
