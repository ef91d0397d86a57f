import FrameLang.Proofs.Search.Moments

/-!
# Who waits, and for what

Two places know about waiting: an attribute lists the callbacks that wait for it, and a search
notes for each frame of its context what its attempt there waits for.  This file shows that the
two agree whenever no call is running (`Matched`): every callback of a search is noted by the
search, every note stands for exactly one callback, and there is a note for an attempt just when
the search is under way and nothing is known of the attempt.

## Strategy

The agreement cannot hold in the middle of a call, because a callback leaves the attribute before
its search takes the value.  But then the attempt is owed that value, and what holds of the other
attempts (`Delivering`) comes to the agreement once nothing is owed (`Arises.matched`).

What a step does to those who wait is said by `Undisturbed`: a callback goes away only when the
attribute is produced, or when its own search takes a value.  A search that ends releases only
what is its own, since its notes are tickets of its own callbacks (`Tended.owned`).
-/

namespace FrameLang.World

variable {κ : Type}

/-- Who waits in the frames, and what the searches say that they wait for, is the same. -/
structure Matched (world : World κ) (chronicle : Chronicle κ) : Prop where
  /-- What waits on behalf of a search is noted by the search. -/
  noted : ∀ frame name ticket id index component,
    ⟨ticket, .attempt id index component⟩ ∈ world.waiting frame name →
      world.subscription? id index = some ⟨frame, name, ticket⟩
  /-- What is noted by a search waits, and it waits once. -/
  backed : ∀ id index frame name ticket,
    world.subscription? id index = some ⟨frame, name, ticket⟩ →
      ∃ component, (world.waiting frame name).filter (fun waiter => waiter.ticket = ticket) =
        [⟨ticket, .attempt id index component⟩]
  /-- Whoever else waits has asked for it. -/
  invited : ∀ frame name ticket token,
    ⟨ticket, .observer token⟩ ∈ world.waiting frame name →
      .called (.subscribe frame name token) ∈ chronicle
  /-- An attempt waits as long as its search is under way and nothing is known of it. -/
  pending : ∀ id index, (world.subscription? id index).isSome = true ↔
    (world.search id).started = true ∧ (world.search id).result = none ∧
      (world.search id).outcomes[index]? = some .pending

/-! ## Between the calls -/

section Matched

variable {world : World κ} {id : SearchId} {index : Nat}

/-- Only attempts at frames of the context are noted. -/
theorem Orderly.lt_of_subscription (hworld : world.Orderly) {subscription : Subscription}
    (h : world.subscription? id index = some subscription) :
    index < (world.search id).context.length := by
  rw [← (hworld.shaped id).subscriptions]
  by_contra hge
  rw [subscription?, List.getElem?_eq_none (Nat.le_of_not_lt hge)] at h
  cases h

/-- There is one who waits under a ticket. -/
theorem Orderly.filter_ticket (hworld : world.Orderly) {frame : FrameId} {name : String}
    {waiter : Waiter (Callback κ)} (hmem : waiter ∈ world.waiting frame name) :
    (world.waiting frame name).filter (fun other => other.ticket = waiter.ticket) = [waiter] := by
  have hnodup : (world.waiting frame name).Nodup := .of_map _ (hworld.tickets_nodup frame name)
  rw [← List.perm_singleton, List.perm_ext_iff_of_nodup (hnodup.filter _) (List.nodup_singleton _)]
  intro other
  rw [List.mem_filter, List.mem_singleton, decide_eq_true_iff]
  constructor
  · rintro ⟨hother, hticket⟩
    exact hworld.eq_of_ticket_eq hother hmem hticket
  · rintro rfl
    exact ⟨hmem, rfl⟩

/-- A search that has settled its attempts notes a pending one, and its callback waits. -/
theorem Running.subscription_cases (h : world.Running id fun _ => False)
    (hindex : index < (world.search id).context.length) :
    ((world.search id).outcomes[index]? = some .pending ∧
      ∃ frame name ticket component, world.subscription? id index = some ⟨frame, name, ticket⟩ ∧
        ⟨ticket, .attempt id index component⟩ ∈ world.waiting frame name) ∨
    ((world.search id).outcomes[index]? ≠ some .pending ∧
      world.subscription? id index = none) := by
  obtain ⟨houtcome, hwaits⟩ := h.settled index _ (List.getElem?_eq_getElem hindex) not_false
  split at hwaits
  · next hwalk =>
    rw [hwalk] at houtcome
    exact .inl ⟨houtcome, hwaits⟩
  · next hwalk =>
    refine .inr ⟨?_, hwaits⟩
    rw [houtcome]
    exact fun heq => hwalk (Option.some.inj heq)

theorem Tended.backed (hworld : world.Orderly) (h : world.Tended id fun _ => False)
    {frame : FrameId} {name : String} {ticket : Nat}
    (hsubscription : world.subscription? id index = some ⟨frame, name, ticket⟩) :
    ∃ component, (world.waiting frame name).filter (fun waiter => waiter.ticket = ticket) =
      [⟨ticket, .attempt id index component⟩] := by
  have hindex := hworld.lt_of_subscription hsubscription
  cases h with
  | unstarted _ hunstarted =>
      rw [hunstarted.subscriptions] at hsubscription
      cases hsubscription
  | ended _ hended =>
      rw [hended.subscriptions] at hsubscription
      cases hsubscription
  | running _ hrunning _ =>
      rcases hrunning.subscription_cases hindex with ⟨-, hwaits⟩ | ⟨-, hnone⟩
      · obtain ⟨frame', name', ticket', component, hsame, hmem⟩ := hwaits
        rw [hsubscription] at hsame
        cases hsame
        exact ⟨component, hworld.filter_ticket hmem⟩
      · rw [hsubscription] at hnone
        cases hnone

theorem Tended.pending_iff (hworld : world.Orderly) (h : world.Tended id fun _ => False) :
    (world.subscription? id index).isSome = true ↔
      (world.search id).started = true ∧ (world.search id).result = none ∧
        (world.search id).outcomes[index]? = some .pending := by
  cases h with
  | unstarted _ hunstarted => simp [hunstarted.subscriptions, hunstarted.started]
  | ended _ hended =>
      obtain ⟨result, hresult, -⟩ := hended.result
      simp [hended.subscriptions, hresult]
  | running _ hrunning _ =>
      constructor
      · intro hsome
        obtain ⟨subscription, hsubscription⟩ := Option.isSome_iff_exists.mp hsome
        rcases hrunning.subscription_cases (hworld.lt_of_subscription hsubscription) with
          ⟨hpending, -⟩ | ⟨-, hnone⟩
        · exact ⟨hrunning.started, hrunning.result, hpending⟩
        · rw [hnone] at hsome
          cases hsome
      · rintro ⟨-, -, hpending⟩
        have hindex : index < (world.search id).context.length := by
          rw [← (hworld.shaped id).outcomes]
          exact (List.getElem?_eq_some_iff.mp hpending).1
        rcases hrunning.subscription_cases hindex with ⟨-, hwaits⟩ | ⟨hknown, -⟩
        · obtain ⟨frame, name, ticket, component, hsubscription, -⟩ := hwaits
          simp [hsubscription]
        · exact absurd hpending hknown

end Matched

/-! ## What a step does to those who wait -/

/-- What one step may do to the attributes and to those who wait for them. -/
structure Undisturbed (before after : Moment κ) : Prop where
  /-- An attribute changes only when it is produced. -/
  content : ∀ frame name, frame.index < before.world.frames.size →
    after.world.content frame name = before.world.content frame name ∨
      ∃ value, after = before.issue (.fulfil frame name value)
  /-- A search waits until the attribute is produced, or until it takes a value itself. -/
  waiting : ∀ frame name ticket id index component,
    ⟨ticket, .attempt id index component⟩ ∈ before.world.waiting frame name →
      ⟨ticket, .attempt id index component⟩ ∈ after.world.waiting frame name ∨
        (∃ value, after = before.issue (.fulfil frame name value)) ∨
        ∃ value other component' rest,
          before.owed = ⟨value, .attempt id other component'⟩ :: rest
  /-- Nobody else begins to wait without asking. -/
  invited : ∀ frame name ticket token,
    ⟨ticket, .observer token⟩ ∈ after.world.waiting frame name →
      ⟨ticket, .observer token⟩ ∈ before.world.waiting frame name ∨
        .called (.subscribe frame name token) ∈ after.chronicle

section Undisturbed

variable {before after : Moment κ}

/-- A step that leaves the attributes and all who wait as they are. -/
theorem Undisturbed.of_same
    (hcontent : ∀ frame name, frame.index < before.world.frames.size →
      after.world.content frame name = before.world.content frame name)
    (hwaiting : ∀ frame name,
      after.world.waiting frame name = before.world.waiting frame name) :
    Undisturbed before after where
  content frame name hframe := .inl (hcontent frame name hframe)
  waiting frame name ticket id index component hmem := .inl (by rwa [hwaiting])
  invited frame name ticket token hmem := .inl (by rwa [← hwaiting])

/-- A step of one search leaves all others waiting. -/
theorem Undisturbed.of_advances {id : SearchId}
    (hadvances : Advances id before.world after.world)
    (hself : (∃ frame name ticket index component,
        ⟨ticket, .attempt id index component⟩ ∈ before.world.waiting frame name) →
      after.world = before.world ∨
        ∃ value other component rest, before.owed = ⟨value, .attempt id other component⟩ :: rest) :
    Undisturbed before after where
  content frame name hframe := .inl (hadvances.content frame name hframe)
  waiting frame name ticket other index component hmem := by
    by_cases hother : other = id
    · subst hother
      rcases hself ⟨frame, name, ticket, index, component, hmem⟩ with hsame | howed
      · exact .inl (by rwa [hsame])
      · exact .inr (.inr howed)
    · refine .inl ((hadvances.waiting frame name _ ?_).mpr hmem)
      intro index' component' heq
      cases heq
      exact hother rfl
  invited frame name ticket token hmem :=
    .inl ((hadvances.waiting frame name _ fun _ _ heq => by cases heq).mp hmem)

/-- An attribute is produced, and nobody waits for it any more. -/
theorem undisturbed_produce {frame : FrameId} {name : String}
    (hpending : before.world.content frame name = some none) (value : Value) :
    Undisturbed before (before.issue (.fulfil frame name value)) := by
  have hframe := lt_size_of_content hpending
  have hworld : (before.issue (.fulfil frame name value)).world =
      before.world.produce frame name value := by
    rw [Moment.issue_fulfil_of_pending hpending]
  constructor
  case content =>
    intro other here _
    rw [hworld, content_produce hframe]
    split
    · next heq =>
      obtain ⟨rfl, rfl⟩ := heq
      exact .inr ⟨value, rfl⟩
    · exact .inl rfl
  case waiting =>
    intro other here ticket id index component hmem
    rw [hworld, waiting_produce hframe]
    split
    · next heq =>
      obtain ⟨rfl, rfl⟩ := heq
      exact .inr (.inl ⟨value, rfl⟩)
    · exact .inl hmem
  case invited =>
    intro other here ticket token hmem
    rw [hworld, waiting_produce hframe] at hmem
    split at hmem
    · cases hmem
    · exact .inl hmem

theorem Delivering.undisturbed_issue (h : Delivering before.owed before.world)
    (action : Action κ) : Undisturbed before (before.issue action) := by
  cases action with
  | addFrame attributes =>
      exact .of_same (fun _ name hframe => content_addFrame_of_lt _ _ hframe name)
        (waiting_addFrame _ (waiting_ofAttributes attributes))
  | addSearch context names mode => exact .of_same (fun _ _ _ => rfl) fun _ _ => rfl
  | start id =>
      refine .of_advances (h.begins id).1 ?_
      rintro ⟨frame, name, ticket, index, component, hmem⟩
      -- who waits has begun, and to begin once more changes nothing
      have hstarted := ((h.tended id).linked _ _ _ _ _ hmem).2.started
      refine .inl ?_
      have hbegin : (before.issue (.start id)).world = (begin id before.world).2 := rfl
      rw [hbegin, begin_of_started hstarted]
  | fulfil frame name value =>
      by_cases hpending : before.world.content frame name = some none
      · exact undisturbed_produce hpending value
      · rw [Moment.issue_fulfil_of_ne_pending hpending]
        exact .of_same (fun _ _ _ => rfl) fun _ _ => rfl
  | notify id token =>
      cases hresult : (before.world.search id).result with
      | none =>
          rw [Moment.issue_notify_of_open hresult]
          exact .of_same (fun _ _ _ => by rw [content_modifySearch])
            fun _ _ => by rw [waiting_modifySearch]
      | some result =>
          rw [Moment.issue_notify_of_ended hresult]
          exact .of_same (fun _ _ _ => rfl) fun _ _ => rfl
  | subscribe frame name token =>
      have hspares := spares_request before.world frame name token
      refine ⟨fun other here hframe => .inl ((hspares ⟨0⟩).content other here hframe), ?_, ?_⟩
      · intro other here ticket id index component hmem
        exact .inl (((hspares id).waiting other here ticket index component).mpr hmem)
      · intro other here ticket token' hmem
        rcases mem_waiting_request hmem with hold | ⟨rfl, rfl, heq⟩
        · exact .inl hold
        · cases heq
          exact .inr (List.mem_append_right _ (List.mem_singleton.mpr rfl))

/-- No step disturbs those who wait. -/
theorem Step.undisturbed (hstep : Step before after) (h : Delivering before.owed before.world) :
    Undisturbed before after := by
  cases hstep with
  | issue action possible => exact h.undisturbed_issue action
  | deliver next =>
      rw [next] at h
      exact .of_advances h.proceeds.advances fun _ => .inr ⟨_, _, _, _, next⟩
  | hand next => exact .of_same (fun _ _ _ => rfl) fun _ _ => rfl
  | tell next => exact .of_same (fun _ _ _ => rfl) fun _ _ => rfl

end Undisturbed

/-! ## Runs -/

/-- Whoever waits besides the searches has asked for it. -/
theorem Arises.invited {moment : Moment κ} (h : Arises moment) {frame : FrameId} {name : String}
    {ticket : Nat} {token : κ}
    (hmem : ⟨ticket, .observer token⟩ ∈ moment.world.waiting frame name) :
    .called (.subscribe frame name token) ∈ moment.chronicle := by
  induction h with
  | refl => exact absurd (lt_size_of_content (content_of_mem_waiting hmem)) (Nat.not_lt_zero _)
  | tail hbefore hlast ih =>
      have hdelivering := Arises.delivering hbefore
      rcases (hlast.undisturbed hdelivering).invited _ _ _ _ hmem with hold | hcalled
      · exact hlast.chronicle_subset (ih hold)
      · exact hcalled

/-- What a search notes are tickets of its own callbacks. -/
theorem Tended.owned {world : World κ} {id : SearchId} {isOpen : Nat → Prop}
    (h : world.Tended id isOpen) (hworld : world.Orderly) : world.Owned id := by
  have hnothing : (∀ index, world.subscription? id index = none) → world.Owned id := by
    intro hnone index frame name ticket hsubscription
    rw [hnone] at hsubscription
    cases hsubscription
  cases h with
  | unstarted _ hunstarted => exact hnothing hunstarted.subscriptions
  | running _ hrunning _ => exact hrunning.owned hworld
  | ended _ hended => exact hnothing hended.subscriptions

/-- When nothing is owed, those who wait are those who are noted. -/
theorem Arises.matched {stage : Stage κ} (h : Arises (stage.moment [] [])) :
    Matched stage.1 stage.2 := by
  have hcalm : stage.1.Calm := calm_iff.mpr h.delivering
  refine ⟨?_, ?_, ?_, ?_⟩
  · intro frame name ticket id index component hmem
    exact ((hcalm.tended id).linked _ _ _ _ _ hmem).1
  · intro id index frame name ticket hsubscription
    exact (hcalm.tended id).backed hcalm.orderly hsubscription
  · intro frame name ticket token hmem
    exact h.invited hmem
  · intro id index
    exact (hcalm.tended id).pending_iff hcalm.orderly

/-- After every run of calls, and whatever calls the observers make in between, those who wait in
the frames are those who are noted by the searches.  On the way no step takes away what another
search waits for, nor changes an attribute except by producing it; in particular a search that is
ended at any moment, with any result, touches nothing of any other search or of the attributes. -/
theorem subscriptions_matched {observe : Observer κ (StateM (Chronicle κ))}
    (hacting : Acting observe) {stage : Stage κ} (hran : Ran observe stage) :
    Matched stage.1 stage.2 ∧
      Arises (stage.moment [] []) ∧
      (∀ before after : Moment κ, Arises before → Step before after → Undisturbed before after) ∧
      ∀ moment : Moment κ, Arises moment → ∀ id result,
        Advances id moment.world (commit id result moment.world).2 := by
  have harises := hacting.arises hran
  refine ⟨harises.matched, harises, ?_, ?_⟩
  · intro before after hbefore hstep
    exact hstep.undisturbed hbefore.delivering
  · intro moment hmoment id result
    have hdelivering := hmoment.delivering
    exact advances_commit ((hdelivering.tended id).owned hdelivering.orderly)

/-- The search that has ended has released what it waited for at the second frame; the one that
was started meanwhile waits there alone. -/
theorem subscriptions_matched_relay :
    Acting (starting ⟨1⟩ : Observer Nat _) ∧ Ran (starting ⟨1⟩) relay ∧ Matched relay.1 relay.2 ∧
      relay.1.waiting ⟨1⟩ "a" = [⟨1, .attempt ⟨1⟩ 0 0⟩] ∧
      relay.1.subscription? ⟨1⟩ 0 = some ⟨⟨1⟩, "a", 1⟩ :=
  ⟨acting_starting ⟨1⟩, ran_relay, (subscriptions_matched (acting_starting ⟨1⟩) ran_relay).1,
    by decide +kernel, by decide +kernel⟩

end FrameLang.World
