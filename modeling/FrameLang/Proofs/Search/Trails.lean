import FrameLang.Proofs.Search.Deliveries

/-!
# The trails of a search

A search notes every request that it makes, whichever frame of its context it makes it for.
The requests for one frame of the context are a *trail* down the path (`Search.trail`): the
first is made of that frame, and each of the others of the frame that the one before has
led to.  This file says how trails, outcomes, those who wait and those who are about to be
called back belong together (`World.Traced`), and shows that the steps of a search keep it
so.

## Strategy

Nothing is said here about what a search has come to know, so nothing has to be known of
those who have dropped a callback of a search: whoever waits for an attempt, or is to be
called back, stands at the end of the trail, and there is no more than one of them for each
frame of the context.  Where nobody does, the trail may stay as it is for ever.

A step goes on with one attempt, for which nobody waits at that time (`World.Asking`).
Each part of a step leads from one such world to the next, its trail one request longer,
or comes to an end with an outcome or a new callback.  The induction of
`Asking.receive` is on what remains of the path, and the trails for other frames of the
context stay what they are all along (`World.Follows`).
-/

namespace FrameLang

/-- The requests for a frame of the context, in the order in which they were made. -/
def Search.trail {κ : Type} (search : Search κ) (index : Nat) : List Attempt :=
  search.attempts.filter fun attempt => attempt.index = index

namespace World

variable {κ : Type} {world after : World κ} {owed : List (Delivery κ)} {id : SearchId}
  {index component : Nat}

/-- The requests that a search has made for a frame of its context. -/
def trail (world : World κ) (id : SearchId) (index : Nat) : List Attempt :=
  (world.search id).trail index

theorem trail_of_attempts (h : (after.search id).attempts = (world.search id).attempts)
    (index : Nat) : after.trail id index = world.trail id index := by
  unfold World.trail Search.trail
  rw [h]

/-- What a change keeps of the search that it is made to is kept of all searches. -/
theorem modifySearch_keeps {β : Type} (field : Search κ → β) {change : Search κ → Search κ}
    (h : field (change (world.search id)) = field (world.search id)) (other : SearchId) :
    field ((world.modifySearch id change).search other) = field (world.search other) := by
  rw [search_modifySearch]
  split
  · next heq => rw [h, heq.1]
  · rfl

/-! ## What belongs together -/

/-- Somebody waits on behalf of an attempt, or is about to be called back. -/
def Underway (owed : List (Delivery κ)) (world : World κ) (id : SearchId)
    (index component : Nat) : Prop :=
  (∃ frame name ticket, ⟨ticket, .attempt id index component⟩ ∈ world.waiting frame name) ∨
    ∃ value, ⟨value, .attempt id index component⟩ ∈ owed

/-- Those who wait and those who are about to be called back are where they should be, no more
than one for each attempt. -/
structure Posted (owed : List (Delivery κ)) (world : World κ) : Prop where
  orderly : world.Orderly
  linked : ∀ id, world.Linked id
  arrived : ∀ value id index component, ⟨value, .attempt id index component⟩ ∈ owed →
    world.Arrived id index component value
  distinct : owed.Pairwise fun first second => ∀ id index component component',
    first.callback = .attempt id index component →
      second.callback ≠ .attempt id index component'
  /-- Nobody waits for an attempt whose value is on the way. -/
  apart : ∀ id index, Due owed id index → ∀ frame name ticket component,
    ⟨ticket, .attempt id index component⟩ ∉ world.waiting frame name

/-- What has become of an attempt is what the frame has said that was asked last. -/
inductive Shows (world : World κ) (id : SearchId) (index : Nat) : Outcome → Prop where
  | pending : Shows world id index .pending
  | found {component : Nat} {value : Value} (length : (world.trail id index).length = component + 1)
      (arrived : world.Arrived id index component value)
      (last : component + 1 = (world.search id).names.length) : Shows world id index (.found value)
  | notFound {component : Nat} {frame : FrameId} {name : String}
      (length : (world.trail id index).length = component + 1)
      (standing : world.Standing id index component frame name)
      (absent : world.content frame name = none) : Shows world id index .notFound
  | notAFrame {component : Nat} {value : Value}
      (length : (world.trail id index).length = component + 1)
      (arrived : world.Arrived id index component value) (scalar : ∀ inner, value ≠ .frame inner)
      (more : component + 1 < (world.search id).names.length) :
      Shows world id index (.notAFrame component value.kind)

/-- The requests of all searches are trails, and what becomes of them is noted. -/
structure Traced (owed : List (Delivery κ)) (world : World κ) : Prop
    extends Posted owed world where
  /-- The components of a trail count up, and each request is made where the attempt stood. -/
  trail : ∀ id index position attempt, (world.trail id index)[position]? = some attempt →
    attempt.component = position ∧ ∃ name, world.Standing id index position attempt.frame name
  shown : ∀ id index outcome, (world.search id).outcomes[index]? = some outcome →
    world.Shows id index outcome
  /-- Whoever is under way stands at the end of the trail. -/
  underway : ∀ id index component, Underway owed world id index component →
    (world.trail id index).length = component + 1 ∧
      (world.search id).outcomes[index]? = some .pending

/-- Where no request has been made nobody is under way. -/
theorem Traced.idle (h : Traced owed world) (hnone : world.trail id index = []) (component : Nat) :
    ¬ Underway owed world id index component := by
  intro hunderway
  have hlength := (h.underway id index component hunderway).1
  rw [hnone] at hlength
  cases hlength

/-- Where no request has been made nothing is known. -/
theorem Traced.pending_of_nil (h : Traced owed world) (hnone : world.trail id index = [])
    (hindex : index < (world.search id).context.length) :
    (world.search id).outcomes[index]? = some .pending := by
  rw [← (h.orderly.shaped id).outcomes] at hindex
  have houtcome := List.getElem?_eq_getElem hindex
  have hlength : (world.trail id index).length = 0 := by rw [hnone]; rfl
  have hshown := h.shown id index _ houtcome
  rw [houtcome]
  generalize (world.search id).outcomes[index] = outcome at hshown
  cases hshown with
  | pending => rfl
  | found length => omega
  | notFound length => omega
  | notAFrame length => omega

/-- A search that has not begun has made no request. -/
theorem Traced.trail_of_unstarted (h : Traced owed world)
    (hstarted : (world.search id).started = false) (index : Nat) : world.trail id index = [] := by
  cases htrail : world.trail id index with
  | nil => rfl
  | cons attempt rest =>
      obtain ⟨-, name, hstanding⟩ := h.trail id index 0 attempt (by rw [htrail]; rfl)
      rw [hstanding.started] at hstarted
      cases hstarted

/-! ## What goes on elsewhere -/

theorem Later.refl (id : SearchId) (world : World κ) : Later id world world :=
  ⟨.refl world, fun _ _ _ => rfl, fun h => h, rfl, rfl, rfl⟩

theorem Later.trans {first second third : World κ} (h : Later id first second)
    (h' : Later id second third) : Later id first third where
  toExtends := h.toExtends.trans h'.toExtends
  complete frame hframe hcomplete := by
    have hsame := h.complete frame hframe hcomplete
    rw [h'.complete frame (Nat.lt_of_lt_of_le hframe h.toExtends.size_le), hsame]
    intro name
    unfold content
    rw [hsame]
    exact hcomplete name
  started hstarted := h'.started (h.started hstarted)
  names := h'.names.trans h.names
  context := h'.context.trans h.context
  mode := h'.mode.trans h.mode

/-- A path leads to a frame of the world. -/
theorem lt_size_of_reach (hclosed : world.Closed) {frame inner : FrameId} {names : List String}
    (hframe : frame.index < world.frames.size) (h : world.reach frame names = some inner) :
    inner.index < world.frames.size := by
  induction names generalizing frame with
  | nil =>
      cases h
      exact hframe
  | cons name rest ih =>
      unfold reach at h
      split at h
      · next next hcontent => exact ih (hclosed frame name _ hcontent next rfl) h
      · cases h

theorem Standing.lt_size (hworld : world.Orderly) {frame : FrameId} {name : String}
    (h : world.Standing id index component frame name) : frame.index < world.frames.size := by
  obtain ⟨root, hroot, hreach⟩ := h.root
  exact lt_size_of_reach hworld.closed (hworld.contexts id root (List.mem_of_getElem? hroot)) hreach

/-- What is shown does not change by what is produced, or by what other searches do. -/
theorem Shows.later (hworld : world.Orderly) (hlater : Later id world after)
    (htrail : after.trail id index = world.trail id index) {outcome : Outcome}
    (h : world.Shows id index outcome) : after.Shows id index outcome := by
  cases h with
  | pending => exact .pending
  | found length arrived last =>
      exact .found (htrail ▸ length) (arrived.later hlater) (by rw [hlater.names, last])
  | @notFound component frame name length standing absent =>
      refine .notFound (htrail ▸ length) (standing.later hlater) ?_
      have hcontent := hlater.toExtends.content frame name (standing.lt_size hworld)
      rcases hcontent with hsame | ⟨hpending, -⟩
      · rw [hsame, absent]
      · rw [hpending] at absent
        cases absent
  | notAFrame length arrived scalar more =>
      exact .notAFrame (htrail ▸ length) (arrived.later hlater) scalar (hlater.names ▸ more)

/-- Nobody begins to wait for a search, and who waits still waits for what its subscription says. -/
def Fewer (world after : World κ) : Prop :=
  ∀ frame name ticket id index component,
    ⟨ticket, .attempt id index component⟩ ∈ after.waiting frame name →
      ⟨ticket, .attempt id index component⟩ ∈ world.waiting frame name ∧
        after.subscription? id index = world.subscription? id index

theorem Posted.kept (h : Posted owed world) (horderly : after.Orderly)
    (hlater : ∀ id, Later id world after) (hfewer : Fewer world after) : Posted owed after where
  orderly := horderly
  linked id frame name ticket index component hmem := by
    obtain ⟨hold, hsame⟩ := hfewer _ _ _ _ _ _ hmem
    obtain ⟨hsubscription, hstanding⟩ := h.linked id _ _ _ _ _ hold
    exact ⟨hsame.trans hsubscription, hstanding.later (hlater id)⟩
  arrived value id index component hmem :=
    (h.arrived value id index component hmem).later (hlater id)
  distinct := h.distinct
  apart id index hdue frame name ticket component hmem :=
    h.apart id index hdue frame name ticket component (hfewer _ _ _ _ _ _ hmem).1

theorem Underway.of_fewer (hfewer : Fewer world after)
    (h : Underway owed after id index component) : Underway owed world id index component := by
  rcases h with ⟨frame, name, ticket, hmem⟩ | howed
  · exact .inl ⟨frame, name, ticket, (hfewer _ _ _ _ _ _ hmem).1⟩
  · exact .inr howed

/-- The requests of a trail have been made for good. -/
theorem Traced.trail_of_later (h : Traced owed world) (hlater : ∀ id, Later id world after)
    (htrail : ∀ id index, after.trail id index = world.trail id index) (id : SearchId)
    (index position : Nat) (attempt : Attempt)
    (hattempt : (after.trail id index)[position]? = some attempt) :
    attempt.component = position ∧ ∃ name, after.Standing id index position attempt.frame name := by
  rw [htrail] at hattempt
  obtain ⟨hcomponent, name, hstanding⟩ := h.trail id index position attempt hattempt
  exact ⟨hcomponent, name, hstanding.later (hlater id)⟩

/-- What touches neither requests nor outcomes leaves trails as they are. -/
theorem Traced.kept (h : Traced owed world) (horderly : after.Orderly)
    (hlater : ∀ id, Later id world after) (hfewer : Fewer world after)
    (hattempts : ∀ id, (after.search id).attempts = (world.search id).attempts)
    (houtcomes : ∀ id, (after.search id).outcomes = (world.search id).outcomes) :
    Traced owed after := by
  have htrail : ∀ id index, after.trail id index = world.trail id index :=
    fun id => trail_of_attempts (hattempts id)
  refine ⟨h.toPosted.kept horderly hlater hfewer, h.trail_of_later hlater htrail, ?_, ?_⟩
  · intro id index outcome houtcome
    rw [houtcomes] at houtcome
    exact (h.shown id index outcome houtcome).later h.orderly (hlater id) (htrail id index)
  · intro id index component hunderway
    rw [htrail, houtcomes]
    exact h.underway id index component (hunderway.of_fewer hfewer)

theorem Fewer.of_waiting (hwaiting : ∀ frame name, ∀ waiter : Waiter (Callback κ),
      waiter ∈ after.waiting frame name → waiter ∈ world.waiting frame name)
    (hsearch : ∀ id, (after.search id).subscriptions = (world.search id).subscriptions) :
    Fewer world after := by
  intro frame name ticket id index component hmem
  refine ⟨hwaiting frame name _ hmem, ?_⟩
  unfold World.subscription?
  rw [hsearch]

/-! ## Ending a search -/

/-- What search has asked for and what has become of it stay, and nobody new waits. -/
theorem Traced.modifySearch (h : Traced owed world) {change : Search κ → Search κ}
    (hlater : ∀ other, Later other world (world.modifySearch id change))
    (hattempts : ∀ search, (change search).attempts = search.attempts)
    (houtcomes : ∀ search, (change search).outcomes = search.outcomes)
    (hcontext : ∀ search, (change search).context = search.context)
    (hsubscriptions : ∀ search, (change search).subscriptions = search.subscriptions) :
    Traced owed (world.modifySearch id change) := by
  have hshaped := h.orderly.shaped id
  refine h.kept (h.orderly.modifySearch (hcontext _) ⟨?_, ?_⟩) hlater
    (.of_waiting (fun _ _ _ hmem => hmem) (modifySearch_keeps _ (hsubscriptions _)))
    (modifySearch_keeps _ (hattempts _)) (modifySearch_keeps _ (houtcomes _))
  · rw [houtcomes, hcontext]
    exact hshaped.outcomes
  · rw [hsubscriptions, hcontext]
    exact hshaped.subscriptions

theorem later_release (id : SearchId) (world : World κ)
    (subscriptions : List (Option Subscription)) :
    Later id world (world.release subscriptions) where
  toExtends := .of_eq (Nat.le_of_eq (size_frames_release ..).symm) fun _ _ _ => content_release ..
  complete _ _ hcomplete := frame_release _ hcomplete
  started h := by rwa [search_release]
  names := by rw [search_release]
  context := by rw [search_release]
  mode := by rw [search_release]

section Commit

variable {result : Result}

theorem later_commit (other : SearchId) : Later other world (commit id result world).2 :=
  ((advances_modifySearch world id _ (fun h => h) rfl rfl rfl).later other).trans
    (later_release other _ _)

theorem search_commit_of_ne {other : SearchId} (hne : other ≠ id) :
    (commit id result world).2.search other = world.search other := by
  simp only [commit, search_release, search_modifySearch_of_ne (Ne.symm hne)]

theorem Traced.commit (h : Traced owed world) (hid : id.index < world.searches.size) :
    Traced owed (World.commit id result world).2 := by
  have hshaped := h.orderly.shaped id
  have horderly : (World.commit id result world).2.Orderly := by
    refine (h.orderly.modifySearch rfl ⟨hshaped.outcomes, ?_⟩).release _
    rw [List.length_map]
    exact hshaped.subscriptions
  refine h.kept horderly later_commit ?_ ?_ ?_
  · intro frame name ticket other index component hmem
    rw [mem_waiting_commit] at hmem
    by_cases hother : other = id
    · subst hother
      exact absurd (mem_subscriptions_iff.mpr ⟨index, (h.linked _ _ _ _ _ _ hmem.1).1⟩) hmem.2
    · refine ⟨hmem.1, ?_⟩
      unfold World.subscription?
      rw [search_commit_of_ne hother]
  · intro other
    by_cases hother : other = id
    · rw [hother, search_commit hid]
    · rw [search_commit_of_ne hother]
  · intro other
    by_cases hother : other = id
    · rw [hother, search_commit hid]
    · rw [search_commit_of_ne hother]

end Commit

/-- What an outcome shows as found is a value of the world. -/
theorem Traced.knows_of_found (h : Traced owed world) {value : Value}
    (hfound : .found value ∈ (world.search id).outcomes) : world.Knows value := by
  obtain ⟨index, hindex⟩ := List.mem_iff_getElem?.mp hfound
  cases h.shown id index _ hindex with
  | found length arrived last =>
      obtain ⟨frame, name, -, hcontent⟩ := arrived
      exact h.orderly.closed frame name value hcontent

theorem Traced.addFrame (h : Traced owed world) {added : Frame (Callback κ)}
    (hknows : ∀ name value, added.slots.find? name = some (.ready value) → world.Knows value)
    (hnobody : ∀ name, added.waiting name = []) : Traced owed (world.addFrame added).2 := by
  refine h.kept (h.orderly.addFrame hknows hnobody)
    (fun id => (advances_addFrame id world hnobody).later id) ?_ (fun _ => rfl) fun _ => rfl
  refine .of_waiting (fun frame name waiter hmem => ?_) fun _ => rfl
  rwa [waiting_addFrame _ hnobody] at hmem

/-- A search goes on with an attempt, and nothing is requested for other frames of the context. -/
structure Follows (owed : List (Delivery κ)) (id : SearchId) (index : Nat)
    (before after : World κ) : Prop where
  traced : Traced owed after
  later : ∀ other, Later other before after
  trail : ∀ other, other ≠ index → after.trail id other = before.trail id other

theorem Traced.follows (h : Traced owed world) (id : SearchId) (index : Nat) :
    Follows owed id index world world :=
  ⟨h, fun other => .refl other world, fun _ _ => rfl⟩

theorem Follows.of_later {first second third : World κ} (hlater : ∀ other, Later other first second)
    (htrail : ∀ other, other ≠ index → second.trail id other = first.trail id other)
    (h : Follows owed id index second third) : Follows owed id index first third where
  traced := h.traced
  later other := (hlater other).trans (h.later other)
  trail other hne := (h.trail other hne).trans (htrail other hne)

theorem Traced.follows_commit (h : Traced owed world) (hid : id.index < world.searches.size)
    (result : Result) (index : Nat) :
    Follows owed id index world (World.commit id result world).2 := by
  have hattempts : ((World.commit id result world).2.search id).attempts =
      (world.search id).attempts := by
    rw [search_commit hid]
  exact ⟨h.commit hid, later_commit, fun other _ => trail_of_attempts hattempts other⟩

/-- Whether or not a search ends, its trails stay as they are. -/
theorem Traced.settle (h : Traced owed world) (hid : id.index < world.searches.size)
    (index : Nat) : Follows owed id index world (World.settle id world).2 := by
  unfold World.settle
  dsimp only
  split
  · exact h.follows id index
  · cases hverdict : (world.search id).verdict? with
    | none => exact h.follows id index
    | some verdict =>
        cases verdict with
        | value value => exact h.follows_commit hid _ index
        | failure error => exact h.follows_commit hid _ index
        | list values =>
            have hnobody : ∀ name, (Frame.ofValues values : Frame (Callback κ)).waiting name = [] :=
              waiting_ofValues values
            have hadded : Traced owed (world.addFrame (.ofValues values)).2 := by
              refine h.addFrame (fun name value hslot => ?_) hnobody
              obtain ⟨other, hother, heq⟩ := find?_ofValues hslot
              cases heq
              exact h.knows_of_found (found_of_verdict? h.orderly hverdict _ hother)
            exact (hadded.follows_commit hid _ index).of_later
              (advances_addFrame id world hnobody).later fun _ _ => rfl

/-! ## Going on with an attempt -/

/-- A search goes on with an attempt for which nobody is under way, and which has asked for so
many components. -/
structure Asking (owed : List (Delivery κ)) (world : World κ) (id : SearchId)
    (index asked : Nat) : Prop where
  traced : Traced owed world
  length : (world.trail id index).length = asked
  pending : (world.search id).outcomes[index]? = some .pending
  free : ∀ component, ¬ Underway owed world id index component

section Asking

variable {asked : Nat} {frame : FrameId} {name : String}

/-! ### Making a request -/

theorem later_noteAttempt (world : World κ) (id : SearchId) (attempt : Attempt)
    (other : SearchId) : Later other world (noteAttempt id attempt world) :=
  (advances_noteAttempt world id attempt).later other

theorem trail_noteAttempt (hid : id.index < world.searches.size) (attempt : Attempt)
    (other : SearchId) (index : Nat) :
    (noteAttempt id attempt world).trail other index =
      if other = id ∧ attempt.index = index then world.trail id index ++ [attempt]
      else world.trail other index := by
  unfold trail
  by_cases hother : other = id
  · subst hother
    rw [noteAttempt, search_modifySearch_self hid, Search.trail, List.filter_append, Search.trail]
    by_cases hindex : attempt.index = index <;> simp [hindex]
  · rw [noteAttempt, search_modifySearch_of_ne (Ne.symm hother), if_neg fun h => hother h.1]

/-- A trail has at a position what it had there, or the new request at its end. -/
theorem getElem?_trail_noteAttempt (hid : id.index < world.searches.size) {attempt found : Attempt}
    {other : SearchId} {position : Nat}
    (h : ((noteAttempt id attempt world).trail other index)[position]? = some found) :
    (world.trail other index)[position]? = some found ∨
      other = id ∧ index = attempt.index ∧ position = (world.trail id index).length ∧
        found = attempt := by
  rw [trail_noteAttempt hid] at h
  split at h
  · next hsame =>
    obtain ⟨rfl, rfl⟩ := hsame
    rw [List.getElem?_append, List.getElem?_singleton] at h
    split at h
    · exact .inl h
    · next hbeyond =>
      split at h
      · next hlast => exact .inr ⟨rfl, rfl, by omega, (Option.some.inj h).symm⟩
      · cases h
  · exact .inl h

theorem outcomes_noteAttempt (world : World κ) (id : SearchId) (attempt : Attempt)
    (other : SearchId) :
    ((noteAttempt id attempt world).search other).outcomes = (world.search other).outcomes :=
  modifySearch_keeps Search.outcomes rfl other

theorem fewer_noteAttempt (world : World κ) (id : SearchId) (attempt : Attempt) :
    Fewer world (noteAttempt id attempt world) :=
  .of_waiting (fun _ _ _ hmem => hmem) (modifySearch_keeps Search.subscriptions rfl)

/-- A request makes the trail longer. -/
theorem Asking.noteAttempt (h : Asking owed world id index component)
    (hstanding : world.Standing id index component frame name) :
    Asking owed (World.noteAttempt id ⟨index, component, frame⟩ world) id index
      (component + 1) := by
  have hid := lt_size_of_started hstanding.started
  have hlater := later_noteAttempt world id ⟨index, component, frame⟩
  have hfewer := fewer_noteAttempt world id ⟨index, component, frame⟩
  have htrail := trail_noteAttempt hid ⟨index, component, frame⟩
  have houtcomes := outcomes_noteAttempt world id ⟨index, component, frame⟩
  have hshaped := h.traced.orderly.shaped id
  have horderly : (World.noteAttempt id ⟨index, component, frame⟩ world).Orderly :=
    h.traced.orderly.modifySearch rfl ⟨hshaped.outcomes, hshaped.subscriptions⟩
  refine ⟨⟨h.traced.toPosted.kept horderly hlater hfewer, ?trail, ?shown, ?underway⟩, ?length,
    ?pending, ?free⟩
  case trail =>
    intro other index' position attempt hattempt
    rcases getElem?_trail_noteAttempt hid hattempt with hold | ⟨rfl, rfl, rfl, rfl⟩
    · obtain ⟨hcomponent, here, hstood⟩ := h.traced.trail other index' position attempt hold
      exact ⟨hcomponent, here, hstood.later (hlater other)⟩
    · rw [h.length]
      exact ⟨rfl, name, hstanding.later (hlater other)⟩
  case shown =>
    intro other index' outcome houtcome
    rw [houtcomes] at houtcome
    -- what has become of the attempt is not known, whatever is asked next
    by_cases hsame : other = id ∧ index = index'
    · obtain ⟨rfl, rfl⟩ := hsame
      obtain rfl := Option.some.inj (h.pending.symm.trans houtcome)
      exact .pending
    · refine (h.traced.shown other index' outcome houtcome).later h.traced.orderly (hlater other) ?_
      rw [htrail, if_neg hsame]
  case underway =>
    intro other index' component' hunderway
    have hold := hunderway.of_fewer hfewer
    have hne : ¬ (other = id ∧ index = index') := by
      rintro ⟨rfl, rfl⟩
      exact h.free component' hold
    rw [htrail, if_neg hne, houtcomes]
    exact h.traced.underway other index' component' hold
  case length =>
    rw [htrail, if_pos ⟨rfl, rfl⟩, List.length_append, h.length]
    rfl
  case pending => rw [houtcomes, h.pending]
  case free => exact fun other hunderway => h.free other (hunderway.of_fewer hfewer)

/-! ### Coming to know an outcome -/

theorem outcomes_noteOutcome (hid : id.index < world.searches.size) (index : Nat)
    (outcome : Outcome) (other : SearchId) :
    ((noteOutcome id index outcome world).search other).outcomes =
      if other = id then (world.search id).outcomes.set index outcome
      else (world.search other).outcomes := by
  split
  · next heq => rw [heq, search_noteOutcome hid]
  · next hne => rw [noteOutcome, search_modifySearch_of_ne (Ne.symm hne)]

theorem trail_noteOutcome (world : World κ) (id : SearchId) (index : Nat) (outcome : Outcome)
    (other : SearchId) (index' : Nat) :
    (noteOutcome id index outcome world).trail other index' = world.trail other index' :=
  trail_of_attempts (modifySearch_keeps Search.attempts rfl other) index'

theorem fewer_noteOutcome (world : World κ) (id : SearchId) (index : Nat) (outcome : Outcome) :
    Fewer world (noteOutcome id index outcome world) :=
  .of_waiting (fun _ _ _ hmem => hmem) (modifySearch_keeps Search.subscriptions rfl)

/-- An attempt for which nobody is under way may come to an end. -/
theorem Asking.noteOutcome (h : Asking owed world id index asked)
    (hid : id.index < world.searches.size) {outcome : Outcome}
    (hshows : world.Shows id index outcome) :
    Traced owed (World.noteOutcome id index outcome world) := by
  have hlater : ∀ other, Later other world (World.noteOutcome id index outcome world) :=
    (advances_noteOutcome world id index outcome).later
  have hfewer := fewer_noteOutcome world id index outcome
  have houtcomes := outcomes_noteOutcome hid index outcome
  have htrail := trail_noteOutcome world id index outcome
  have hshaped := h.traced.orderly.shaped id
  have horderly : (World.noteOutcome id index outcome world).Orderly := by
    refine h.traced.orderly.modifySearch rfl ⟨?_, hshaped.subscriptions⟩
    rw [List.length_set]
    exact hshaped.outcomes
  refine ⟨h.traced.toPosted.kept horderly hlater hfewer, h.traced.trail_of_later hlater htrail,
    ?shown, ?underway⟩
  case shown =>
    intro other index' shown hshown
    refine Shows.later h.traced.orderly (hlater other) (htrail other index') ?_
    rw [houtcomes] at hshown
    split at hshown
    · next hother =>
      subst hother
      rw [List.getElem?_set] at hshown
      split at hshown
      · next hindex =>
        subst hindex
        split at hshown
        · exact Option.some.inj hshown ▸ hshows
        · cases hshown
      · exact h.traced.shown other index' shown hshown
    · exact h.traced.shown other index' shown hshown
  case underway =>
    intro other index' component hunderway
    have hold := hunderway.of_fewer hfewer
    obtain ⟨hlength, hpending⟩ := h.traced.underway other index' component hold
    refine ⟨by rw [htrail, hlength], ?_⟩
    rw [houtcomes]
    split
    · next hother =>
      subst hother
      rw [List.getElem?_set_ne, hpending]
      rintro rfl
      exact h.free component hold
    · exact hpending

theorem Asking.record (h : Asking owed world id index asked)
    (hid : id.index < world.searches.size) {outcome : Outcome}
    (hshows : world.Shows id index outcome) :
    Follows owed id index world (World.record id index outcome world).2 := by
  have hnoted := h.noteOutcome hid hshows
  have hid' : id.index < (World.noteOutcome id index outcome world).searches.size := by
    rwa [World.noteOutcome, size_searches_modifySearch]
  exact (hnoted.settle hid' index).of_later (advances_noteOutcome world id index outcome).later
    fun other _ => trail_noteOutcome world id index outcome id other

/-! ### Waiting -/

theorem search_subscribeTo_of_ne (world : World κ) {other : SearchId} (hother : other ≠ id)
    (subscription : Option Subscription) :
    (subscribeTo id index subscription world).search other = world.search other :=
  search_modifySearch_of_ne (Ne.symm hother) world _

theorem attempts_subscribeTo (world : World κ) (id : SearchId) (index : Nat)
    (subscription : Option Subscription) (other : SearchId) :
    ((subscribeTo id index subscription world).search other).attempts =
      (world.search other).attempts :=
  modifySearch_keeps Search.attempts rfl other

theorem outcomes_subscribeTo (world : World κ) (id : SearchId) (index : Nat)
    (subscription : Option Subscription) (other : SearchId) :
    ((subscribeTo id index subscription world).search other).outcomes =
      (world.search other).outcomes :=
  modifySearch_keeps Search.outcomes rfl other

theorem trail_subscribeTo (world : World κ) (id : SearchId) (index : Nat)
    (subscription : Option Subscription) (other : SearchId) (index' : Nat) :
    (subscribeTo id index subscription world).trail other index' = world.trail other index' :=
  trail_of_attempts (attempts_subscribeTo world id index subscription other) index'

/-- What an attempt has waited for can be forgotten when nobody waits for it. -/
theorem Asking.forget (h : Asking owed world id index asked)
    (hid : id.index < world.searches.size) :
    Asking owed (subscribeTo id index none world) id index asked := by
  have hlater : ∀ other, Later other world (subscribeTo id index none world) :=
    (advances_subscribeTo world id index none).later
  have hfewer : Fewer world (subscribeTo id index none world) := by
    intro frame name ticket other index' component hmem
    refine ⟨hmem, ?_⟩
    by_cases hother : other = id
    · subst hother
      rw [subscription?_subscribeTo_of_ne hid]
      rintro rfl
      exact h.free component (.inl ⟨frame, name, ticket, hmem⟩)
    · unfold World.subscription?
      rw [search_subscribeTo_of_ne world hother]
  refine ⟨h.traced.kept (h.traced.orderly.subscribeTo id index none) hlater hfewer
    (attempts_subscribeTo world id index none) (outcomes_subscribeTo world id index none),
    ?_, ?_, ?_⟩
  · rw [trail_subscribeTo, h.length]
  · rw [outcomes_subscribeTo, h.pending]
  · exact fun component hunderway => h.free component (hunderway.of_fewer hfewer)

theorem attempts_await (world : World κ) (other : SearchId) :
    ((await id index component frame name world).search other).attempts =
      (world.search other).attempts :=
  attempts_subscribeTo _ id index _ other

theorem outcomes_await (world : World κ) (other : SearchId) :
    ((await id index component frame name world).search other).outcomes =
      (world.search other).outcomes :=
  outcomes_subscribeTo _ id index _ other

theorem subscription?_await (hworld : world.Orderly) (hid : id.index < world.searches.size)
    (hindex : index < (world.search id).context.length) (component : Nat) (frame : FrameId)
    (name : String) (other : SearchId) (index' : Nat) :
    (await id index component frame name world).subscription? other index' =
      if other = id ∧ index' = index then some ⟨frame, name, world.ticket frame⟩
      else world.subscription? other index' := by
  rw [← (hworld.shaped id).subscriptions] at hindex
  unfold World.subscription?
  by_cases hother : other = id
  · subst hother
    rw [search_await hid]
    by_cases heq : index' = index
    · subst heq
      rw [List.getElem?_set_self hindex, if_pos ⟨rfl, rfl⟩]
      rfl
    · rw [List.getElem?_set_ne (Ne.symm heq), if_neg fun h => heq h.2]
  · rw [if_neg fun h => hother h.1, await, search_subscribeTo_of_ne _ hother]
    rfl

/-- Somebody begins to wait for the attempt. -/
theorem Asking.posted_await (h : Asking owed world id index (component + 1))
    (hstanding : world.Standing id index component frame name)
    (hpending : world.content frame name = some none) :
    Posted owed (World.await id index component frame name world) := by
  have hid := lt_size_of_started hstanding.started
  obtain ⟨root, hroot, -⟩ := hstanding.root
  have hindex := (List.getElem?_eq_some_iff.mp hroot).1
  have hlater : ∀ other, Later other world (World.await id index component frame name world) :=
    (advances_await hpending).later
  have hsubscription := subscription?_await h.traced.orderly hid hindex component frame name
  refine ⟨(h.traced.orderly.setSlot_wait hpending _).subscribeTo id index _, ?linked, ?arrived,
    h.traced.distinct, ?apart⟩
  case linked =>
    intro other other' here ticket index' component' hmem
    rw [mem_waiting_await id index component hpending] at hmem
    rcases hmem with hold | ⟨rfl, rfl, heq⟩
    · obtain ⟨hlink, hstood⟩ := h.traced.linked other _ _ _ _ _ hold
      refine ⟨?_, hstood.later (hlater other)⟩
      rw [hsubscription, if_neg, hlink]
      rintro ⟨rfl, rfl⟩
      exact h.free component' (.inl ⟨_, _, _, hold⟩)
    · cases heq
      exact ⟨by rw [hsubscription, if_pos ⟨rfl, rfl⟩], hstanding.later (hlater id)⟩
  case arrived =>
    intro value other index' component' hmem
    exact (h.traced.arrived value other index' component' hmem).later (hlater other)
  case apart =>
    intro other index' hdue other' here ticket component' hmem
    rw [mem_waiting_await id index component hpending] at hmem
    rcases hmem with hold | ⟨rfl, rfl, heq⟩
    · exact h.traced.apart other index' hdue other' here ticket component' hold
    · cases heq
      obtain ⟨value, component'', howed⟩ := hdue
      exact h.free component'' (.inr ⟨value, howed⟩)

theorem Asking.await (h : Asking owed world id index (component + 1))
    (hstanding : world.Standing id index component frame name)
    (hpending : world.content frame name = some none) :
    Follows owed id index world (World.await id index component frame name world) := by
  have hlater : ∀ other, Later other world (World.await id index component frame name world) :=
    (advances_await hpending).later
  have htrail : ∀ other index',
      (World.await id index component frame name world).trail other index' =
        world.trail other index' :=
    fun other => trail_of_attempts (attempts_await world other)
  refine ⟨⟨h.posted_await hstanding hpending, h.traced.trail_of_later hlater htrail, ?_, ?_⟩,
    hlater, fun other _ => htrail id other⟩
  · intro other index' outcome houtcome
    rw [outcomes_await] at houtcome
    exact (h.traced.shown other index' outcome houtcome).later h.traced.orderly (hlater other)
      (htrail other index')
  · intro other index' component' hunderway
    rw [htrail, outcomes_await]
    rcases hunderway with ⟨other', here, ticket, hmem⟩ | howed
    · rw [mem_waiting_await id index component hpending] at hmem
      rcases hmem with hold | ⟨-, -, heq⟩
      · exact h.traced.underway other index' component' (.inl ⟨_, _, _, hold⟩)
      · cases heq
        exact ⟨h.length, h.pending⟩
    · exact h.traced.underway other index' component' (.inr howed)

/-! ### Asking and taking -/

/-- A request leads on, if going on with a value does. -/
theorem Asking.ask (h : Asking owed world id index component)
    (hstanding : world.Standing id index component frame name)
    {next : Value → World κ → List κ × World κ}
    (hnext : ∀ (value : Value) (later : World κ), Asking owed later id index (component + 1) →
      Later id world later → later.Arrived id index component value →
        Follows owed id index later (next value later).2) :
    Follows owed id index world (World.ask id index component name frame next world).2 := by
  have hid := lt_size_of_started hstanding.started
  have hnoted := h.noteAttempt hstanding
  have hlater := later_noteAttempt world id ⟨index, component, frame⟩
  have hstanding' := hstanding.later (hlater id)
  refine Follows.of_later hlater (fun other hne => ?_) ?_
  · rw [trail_noteAttempt hid, if_neg]
    rintro ⟨-, heq⟩
    exact hne heq.symm
  rw [ask_eq]
  cases hcontent : (World.noteAttempt id ⟨index, component, frame⟩ world).content frame name with
  | none =>
      rw [request_absent hcontent]
      exact hnoted.record (lt_size_of_started hstanding'.started)
        (.notFound hnoted.length hstanding' hcontent)
  | some state =>
      cases state with
      | none =>
          rw [request_pending hcontent]
          exact hnoted.await hstanding' hcontent
      | some value =>
          rw [request_ready hcontent]
          exact hnext value _ hnoted (hlater id) ⟨frame, name, hstanding', hcontent⟩

/-- The value of a component leads on to the requests for the components after it. -/
theorem Asking.receive {rest : List String} {value : Value}
    (h : Asking owed world id index (component + 1))
    (harrived : world.Arrived id index component value)
    (hrest : (world.search id).names.drop (component + 1) = rest) :
    Follows owed id index world (World.receive id index component rest value world).2 := by
  induction rest generalizing world component value with
  | nil =>
      cases hcommitted : (world.search id).isCommitted with
      | true =>
          rw [receive_of_committed hcommitted]
          exact h.traced.follows id index
      | false =>
          have hid := lt_size_of_started harrived.started
          have hlater := (advances_subscribeTo world id index none).later
          have hforgotten := h.forget hid
          have harrived' := harrived.later (hlater id)
          -- nothing is left to ask for, so the value is what the path leads to
          have hlast : component + 1 = (world.search id).names.length := by
            obtain ⟨frame, name, hstanding, -⟩ := harrived
            have hlt := (List.getElem?_eq_some_iff.mp hstanding.name).1
            have hle := List.drop_eq_nil_iff.mp hrest
            omega
          rw [receive_nil hcommitted]
          refine Follows.of_later hlater
            (fun other _ => trail_subscribeTo world id index none id other) ?_
          refine hforgotten.record (lt_size_of_started harrived'.started) ?_
          exact .found hforgotten.length harrived' (by rw [(hlater id).names, hlast])
  | cons name rest ih =>
      cases hcommitted : (world.search id).isCommitted with
      | true =>
          rw [receive_of_committed hcommitted]
          exact h.traced.follows id index
      | false =>
          have hid := lt_size_of_started harrived.started
          have hlater := (advances_subscribeTo world id index none).later
          have hforgotten := h.forget hid
          have harrived' := harrived.later (hlater id)
          have hname : ((subscribeTo id index none world).search id).names[component + 1]? =
              some name := by
            rw [(hlater id).names, ← List.head?_drop, hrest]
            rfl
          rw [receive_cons hcommitted]
          refine Follows.of_later hlater
            (fun other _ => trail_subscribeTo world id index none id other) ?_
          cases value with
          | frame inner =>
              -- the next request goes to the frame that has arrived
              refine hforgotten.ask (harrived'.standing hname) ?_
              intro value later hasking hlater' hnext
              refine ih hasking hnext ?_
              rw [hlater'.names, (hlater id).names, ← List.tail_drop, hrest]
              rfl
          | _ =>
              refine hforgotten.record (lt_size_of_started harrived'.started) ?_
              exact .notAFrame hforgotten.length harrived' (by simp)
                (List.getElem?_eq_some_iff.mp hname).1

end Asking

/-! ## Beginning -/

/-- A search attempts the frames of its context one after the other, each for the first time. -/
theorem Traced.attemptFrom {name : String} {rest : List String} {frames : List FrameId}
    (h : Traced owed world) (hstarted : (world.search id).started = true)
    (hnames : (world.search id).names = name :: rest)
    (hframes : (world.search id).context.drop index = frames)
    (hnone : ∀ other, index ≤ other → world.trail id other = []) :
    Traced owed (World.attemptFrom id name rest index frames world).2 := by
  induction frames generalizing world index with
  | nil => exact (h.settle (lt_size_of_started hstarted) index).traced
  | cons frame frames ih =>
      unfold World.attemptFrom
      split
      · exact h
      · have hroot : (world.search id).context[index]? = some frame := by
          rw [← List.head?_drop, hframes]
          rfl
        have hnothing := hnone index (Nat.le_refl _)
        have hasking : Asking owed world id index 0 :=
          ⟨h, by rw [hnothing]; rfl,
            h.pending_of_nil hnothing (List.getElem?_eq_some_iff.mp hroot).1, h.idle hnothing⟩
        have hstanding : world.Standing id index 0 frame name :=
          ⟨hstarted, by rw [hnames]; rfl, frame, hroot, rfl⟩
        -- this attempt is followed to its end, and the ones after it are untouched
        have hasked : Follows owed id index world
            (ask id index 0 name frame (receive id index 0 rest) world).2 := by
          refine hasking.ask hstanding ?_
          intro value later hlater hsince harrived
          refine hlater.receive harrived ?_
          rw [hsince.names, hnames]
          rfl
        have hlater := hasked.later id
        refine ih hasked.traced (hlater.started hstarted) (by rw [hlater.names, hnames])
          (by rw [hlater.context, ← List.tail_drop, hframes]; rfl) fun other hother => ?_
        rw [hasked.trail other (by omega)]
        exact hnone other (by omega)

theorem Traced.noteStarted (h : Traced owed world) (id : SearchId) :
    Traced owed (World.noteStarted id world) :=
  h.modifySearch (advances_noteStarted world id).later (fun _ => rfl) (fun _ => rfl)
    (fun _ => rfl) fun _ => rfl

/-- To begin a search makes its first requests, unless it has begun before. -/
theorem Traced.begin (h : Traced owed world) (id : SearchId) :
    Traced owed (World.begin id world).2 := by
  cases hstarted : (world.search id).started with
  | true =>
      rw [begin_of_started hstarted]
      exact h
  | false =>
      by_cases hid : id.index < world.searches.size
      · have hnoted := h.noteStarted id
        have hsearch := search_noteStarted hid
        have hid' : id.index < (World.noteStarted id world).searches.size := by
          rwa [World.noteStarted, size_searches_modifySearch]
        rw [begin_eq hstarted]
        split
        · exact hnoted.commit hid'
        · next name rest hpath hnames =>
          refine hnoted.attemptFrom (by rw [hsearch]) (by rw [hsearch, hnames])
            (by rw [hsearch]; rfl) fun other _ => ?_
          have hnothing := h.trail_of_unstarted hstarted other
          unfold World.trail at hnothing ⊢
          rw [hsearch]
          exact hnothing
        · exact hnoted
      · rw [begin_of_size_le (Nat.le_of_not_lt hid)]
        exact h

end World

end FrameLang
