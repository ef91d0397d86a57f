import FrameLang.Proofs.Search.Invariant

/-!
# How a search ends

Each step of a search keeps the world in order, leaves the search in one of its
phases, and touches nothing but that search (`World.Proceeds`).  Here this is
shown of the steps that end a search, `commit` and `settle`.

## Strategy

The outcomes of a running search come before those of the walks
(`Running.refines`), because those that differ are still pending.  So a verdict
on them is the verdict of the reference search, and `settle` may commit to it
(`Running.reference?_eq`).  A committed search releases just what it waits for:
nobody else waits under one of its tickets (`Owned`).
-/

namespace FrameLang.World

variable {κ : Type}

/-! ## Releasing -/

section Release

variable (subscriptions : List (Option Subscription)) (world : World κ)

theorem release_cons (subscription : Option Subscription) :
    world.release (subscription :: subscriptions) =
      release (match subscription with
        | none => world
        | some ⟨frame, name, ticket⟩ => (world.cancel frame name ticket).2) subscriptions :=
  rfl

@[simp] theorem content_release (frame : FrameId) (name : String) :
    (world.release subscriptions).content frame name = world.content frame name := by
  induction subscriptions generalizing world with
  | nil => rfl
  | cons subscription rest ih =>
      rw [release_cons, ih]
      cases subscription with
      | none => rfl
      | some subscription => exact content_cancel ..

/-- Who waits under a released subscription waits no longer. -/
theorem mem_waiting_release (frame : FrameId) (name : String) (waiter : Waiter (Callback κ)) :
    waiter ∈ (world.release subscriptions).waiting frame name ↔
      waiter ∈ world.waiting frame name ∧
        some ⟨frame, name, waiter.ticket⟩ ∉ subscriptions := by
  induction subscriptions generalizing world with
  | nil => simp [release]
  | cons subscription rest ih =>
      rw [release_cons, ih]
      cases subscription with
      | none => simp
      | some subscription =>
          rw [mem_waiting_cancel, List.mem_cons, Option.some.injEq, and_assoc, not_or]
          obtain ⟨other, here, ticket⟩ := subscription
          simp only [Subscription.mk.injEq]

theorem waiting_release_sublist (frame : FrameId) (name : String) :
    ((world.release subscriptions).waiting frame name).Sublist (world.waiting frame name) := by
  induction subscriptions generalizing world with
  | nil => exact List.Sublist.refl _
  | cons subscription rest ih =>
      rw [release_cons]
      refine (ih _).trans ?_
      cases subscription with
      | none => exact List.Sublist.refl _
      | some subscription => exact waiting_cancel_sublist ..

@[simp] theorem ticket_release (frame : FrameId) :
    (world.release subscriptions).ticket frame = world.ticket frame := by
  induction subscriptions generalizing world with
  | nil => rfl
  | cons subscription rest ih =>
      rw [release_cons, ih]
      cases subscription with
      | none => rfl
      | some subscription => exact ticket_cancel ..

theorem frame_release {world : World κ} {frame : FrameId} (hcomplete : world.Complete frame) :
    (world.release subscriptions).frame frame = world.frame frame := by
  induction subscriptions generalizing world with
  | nil => rfl
  | cons subscription rest ih =>
      rw [release_cons]
      cases subscription with
      | none => exact ih hcomplete
      | some subscription =>
          rw [ih, frame_cancel _ _ _ _ hcomplete]
          intro name
          rw [content_cancel]
          exact hcomplete name

@[simp] theorem searches_release : (world.release subscriptions).searches = world.searches := by
  induction subscriptions generalizing world with
  | nil => rfl
  | cons subscription rest ih =>
      rw [release_cons, ih]
      cases subscription <;> rfl

@[simp] theorem search_release (id : SearchId) :
    (world.release subscriptions).search id = world.search id := by
  unfold World.search
  rw [searches_release]

@[simp] theorem size_frames_release :
    (world.release subscriptions).frames.size = world.frames.size := by
  induction subscriptions generalizing world with
  | nil => rfl
  | cons subscription rest ih =>
      rw [release_cons, ih]
      cases subscription with
      | none => rfl
      | some subscription => exact size_frames_cancel ..

end Release

/-! ## Keeping the order -/

/-- The world stays in order when nobody begins to wait. -/
theorem Orderly.of_sublist {before after : World κ} (h : before.Orderly)
    (hsize : after.frames.size = before.frames.size)
    (hcontent : ∀ frame name, after.content frame name = before.content frame name)
    (hwaiting : ∀ frame name,
      (after.waiting frame name).Sublist (before.waiting frame name))
    (hticket : ∀ frame, after.ticket frame = before.ticket frame)
    (hcontext : ∀ id, (after.search id).context = (before.search id).context)
    (hshaped : ∀ id, Shaped (after.search id)) : after.Orderly where
  closed frame name value hvalue := by
    rw [hcontent] at hvalue
    exact (h.closed frame name value hvalue).mono (Nat.le_of_eq hsize.symm)
  contexts id frame hframe := by
    rw [hcontext] at hframe
    rw [hsize]
    exact h.contexts id frame hframe
  shaped := hshaped
  ticket_lt frame name waiter hmem := by
    rw [hticket]
    exact h.ticket_lt frame name waiter ((hwaiting frame name).subset hmem)
  tickets_nodup frame name := (h.tickets_nodup frame name).sublist ((hwaiting frame name).map _)

/-- What a search says about itself may change, but not over how many frames it goes. -/
theorem Orderly.modifySearch {world : World κ} (h : world.Orderly) {id : SearchId}
    {change : Search κ → Search κ}
    (hcontext : (change (world.search id)).context = (world.search id).context)
    (hshaped : Shaped (change (world.search id))) : (world.modifySearch id change).Orderly := by
  refine h.of_sublist rfl (fun _ _ => rfl) (fun _ _ => List.Sublist.refl _) (fun _ => rfl) ?_ ?_
  · intro other
    rw [search_modifySearch]
    split
    · next heq => rw [hcontext, heq.1]
    · rfl
  · intro other
    rw [search_modifySearch]
    split
    · exact hshaped
    · exact h.shaped other

theorem Orderly.release {world : World κ} (h : world.Orderly)
    (subscriptions : List (Option Subscription)) : (world.release subscriptions).Orderly :=
  h.of_sublist (size_frames_release ..) (content_release _ _) (waiting_release_sublist _ _)
    (ticket_release _ _) (fun id => by rw [search_release])
    (fun id => by rw [search_release]; exact h.shaped id)

/-- Somebody begins to wait, under a ticket that nobody had. -/
theorem Orderly.setSlot_wait {world : World κ} (h : world.Orderly) {id : FrameId} {name : String}
    (hpending : world.content id name = some none) (callback : Callback κ) :
    (world.setSlot id name
      (.pending (world.waiting id name ++ [⟨world.ticket id, callback⟩]))
      (world.ticket id + 1)).Orderly := by
  have hid := lt_size_of_content hpending
  constructor
  case closed =>
    intro frame other value hvalue
    rw [content_setSlot hid] at hvalue
    split at hvalue
    · simp [Slot.value?] at hvalue
    · exact (h.closed frame other value hvalue).mono (Nat.le_of_eq (by simp))
  case contexts =>
    intro search frame hframe
    rw [size_frames_setSlot]
    exact h.contexts search frame hframe
  case shaped => exact h.shaped
  case ticket_lt =>
    intro frame other waiter hmem
    rw [waiting_setSlot hid] at hmem
    rw [ticket_setSlot hid]
    split at hmem
    · next heq =>
      obtain ⟨rfl, rfl⟩ := heq
      rw [if_pos rfl]
      -- earlier tickets are below the one that is handed out now
      rcases List.mem_append.mp hmem with hold | hnew
      · exact Nat.lt_succ_of_lt (h.ticket_lt _ _ _ hold)
      · rw [List.mem_singleton.mp hnew]
        exact Nat.lt_succ_self _
    · have hlt := h.ticket_lt frame other waiter hmem
      split
      · next heq => exact Nat.lt_succ_of_lt (heq ▸ hlt)
      · exact hlt
  case tickets_nodup =>
    intro frame other
    rw [waiting_setSlot hid]
    split
    · next heq =>
      obtain ⟨rfl, rfl⟩ := heq
      simp only [Slot.waiting, List.map_append, List.map_cons, List.map_nil]
      refine List.nodup_append.mpr ⟨h.tickets_nodup _ _, by simp, ?_⟩
      intro ticket hticket new hnew
      obtain ⟨waiter, hwaiter, rfl⟩ := List.mem_map.mp hticket
      rw [List.mem_singleton.mp hnew]
      exact Nat.ne_of_lt (h.ticket_lt _ _ _ hwaiter)
    · exact h.tickets_nodup frame other

/-- A frame is added for which nobody waits. -/
theorem waiting_addFrame (world : World κ) {added : Frame (Callback κ)}
    (hnobody : ∀ name, added.waiting name = []) (frame : FrameId) (name : String) :
    (world.addFrame added).2.waiting frame name = world.waiting frame name := by
  unfold waiting
  rw [frame_addFrame]
  split
  · next heq =>
    rw [hnobody, frame_of_size_le (Nat.le_of_eq heq.symm)]
    rfl
  · rfl

theorem content_addFrame_of_lt (world : World κ) (added : Frame (Callback κ)) {frame : FrameId}
    (hframe : frame.index < world.frames.size) (name : String) :
    (world.addFrame added).2.content frame name = world.content frame name := by
  unfold content
  rw [frame_addFrame_of_lt _ _ hframe]

/-- A new frame refers to the frames of the world. -/
theorem Orderly.addFrame {world : World κ} (h : world.Orderly) {added : Frame (Callback κ)}
    (hknows : ∀ name value, added.slots.find? name = some (.ready value) → world.Knows value)
    (hnobody : ∀ name, added.waiting name = []) : (world.addFrame added).2.Orderly := by
  have hsize : world.frames.size ≤ (world.addFrame added).2.frames.size := by simp
  constructor
  case closed =>
    intro frame name value hvalue
    unfold content at hvalue
    rw [frame_addFrame] at hvalue
    split at hvalue
    · obtain ⟨slot, hslot, hready⟩ := Option.map_eq_some_iff.mp hvalue
      cases slot with
      | pending waiting => cases hready
      | ready other =>
          obtain rfl : other = value := Option.some.inj hready
          exact (hknows name other hslot).mono hsize
    · exact (h.closed frame name value hvalue).mono hsize
  case contexts =>
    exact fun id frame hframe => Nat.lt_of_lt_of_le (h.contexts id frame hframe) hsize
  case shaped => exact h.shaped
  case ticket_lt =>
    intro frame name waiter hmem
    rw [waiting_addFrame _ hnobody] at hmem
    have hframe := lt_size_of_content (content_of_mem_waiting hmem)
    unfold ticket
    rw [frame_addFrame_of_lt _ _ hframe]
    exact h.ticket_lt frame name waiter hmem
  case tickets_nodup =>
    intro frame name
    rw [waiting_addFrame _ hnobody]
    exact h.tickets_nodup frame name

theorem waiting_ofValues {γ : Type} (values : List Value) (name : String) :
    (Frame.ofValues values : Frame γ).waiting name = [] := by
  unfold Frame.waiting
  split
  · next slot hslot =>
    obtain ⟨value, -, rfl⟩ := find?_ofValues hslot
    rfl
  · rfl

/-- A new frame is none of the concern of any search. -/
theorem spares_addFrame (id : SearchId) (world : World κ) {added : Frame (Callback κ)}
    (hnobody : ∀ name, added.waiting name = []) : Spares id world (world.addFrame added).2 where
  size_le := by simp
  content _ name hframe := content_addFrame_of_lt _ _ hframe name
  complete _ hframe _ := frame_addFrame_of_lt _ _ hframe
  waiting frame name _ _ _ := by rw [waiting_addFrame _ hnobody]
  search := ⟨_, _, rfl⟩

theorem advances_addFrame (id : SearchId) (world : World κ) {added : Frame (Callback κ)}
    (hnobody : ∀ name, added.waiting name = []) : Advances id world (world.addFrame added).2 where
  size_le := by simp
  content _ name hframe := content_addFrame_of_lt _ _ hframe name
  complete _ hframe _ := frame_addFrame_of_lt _ _ hframe
  waiting frame name _ _ := by rw [waiting_addFrame _ hnobody]
  size_searches := rfl
  search _ _ := rfl
  started h := h
  names := rfl
  context := rfl
  mode := rfl

/-! ## What a step leaves behind -/

/-- The world after a step of a search.  Attempts that are still open wait for what they
waited for before, or for nothing. -/
structure Proceeds (id : SearchId) (isOpen : Nat → Prop) (before after : World κ) : Prop where
  orderly : after.Orderly
  tended : after.Tended id isOpen
  advances : Advances id before after
  subscription : ∀ index, isOpen index →
    after.subscription? id index = before.subscription? id index ∨
      after.subscription? id index = none

theorem Proceeds.of_advances {id : SearchId} {isOpen : Nat → Prop} {first second third : World κ}
    (hadvances : Advances id first second)
    (hsubscription : ∀ index, isOpen index →
      second.subscription? id index = first.subscription? id index)
    (h : Proceeds id isOpen second third) : Proceeds id isOpen first third where
  orderly := h.orderly
  tended := h.tended
  advances := hadvances.trans h.advances
  subscription index hopen := by
    rw [← hsubscription index hopen]
    exact h.subscription index hopen

theorem advances_modifySearch (world : World κ) (id : SearchId) (change : Search κ → Search κ)
    (hstarted : (world.search id).started = true → (change (world.search id)).started = true)
    (hnames : (change (world.search id)).names = (world.search id).names)
    (hcontext : (change (world.search id)).context = (world.search id).context)
    (hmode : (change (world.search id)).mode = (world.search id).mode) :
    Advances id world (world.modifySearch id change) := by
  refine ⟨Nat.le_refl _, fun _ _ _ => rfl, fun _ _ _ => rfl, fun _ _ _ _ => Iff.rfl,
    size_searches_modifySearch .., fun other hne => search_modifySearch_of_ne hne.symm world change,
    ?_, ?_, ?_, ?_⟩
  all_goals
    rw [search_modifySearch]
    split
    · assumption
    · first | rfl | exact fun h => h

/-- A search may release what only its own attempts wait for. -/
theorem advances_release (world : World κ) (id : SearchId)
    (subscriptions : List (Option Subscription))
    (hmine : ∀ frame name, ∀ waiter ∈ world.waiting frame name,
      some ⟨frame, name, waiter.ticket⟩ ∈ subscriptions →
        ∃ index component, waiter.callback = .attempt id index component) :
    Advances id world (world.release subscriptions) := by
  refine ⟨Nat.le_of_eq (size_frames_release ..).symm, fun frame name _ => content_release ..,
    fun frame _ hcomplete => frame_release _ hcomplete, ?_, by rw [searches_release],
    fun other _ => search_release .., ?_, ?_, ?_, ?_⟩
  · intro frame name waiter hother
    rw [mem_waiting_release]
    refine ⟨fun h => h.1, fun hmem => ⟨hmem, ?_⟩⟩
    intro hsubscription
    obtain ⟨index, component, hcallback⟩ := hmine frame name waiter hmem hsubscription
    exact hother index component hcallback
  all_goals simp only [search_release, imp_self]

/-! ## Ending -/

/-- The subscriptions of a search are not tickets of anybody else. -/
def Owned (world : World κ) (id : SearchId) : Prop :=
  ∀ index frame name ticket, world.subscription? id index = some ⟨frame, name, ticket⟩ →
    ∀ waiter ∈ world.waiting frame name, waiter.ticket = ticket →
      ∃ component, waiter.callback = .attempt id index component

theorem Running.owned {world : World κ} {id : SearchId} {isOpen : Nat → Prop}
    (hworld : world.Orderly) (h : world.Running id isOpen) : world.Owned id := by
  intro index frame name ticket hsubscription waiter hwaiter hticket
  have hindex : index < (world.search id).context.length := by
    rw [← (hworld.shaped id).subscriptions]
    by_contra hge
    rw [subscription?, List.getElem?_eq_none (Nat.le_of_not_lt hge)] at hsubscription
    cases hsubscription
  by_cases hopen : isOpen index
  · obtain ⟨value, hvalue⟩ := (h.opened index hindex hopen).2 frame name ticket hsubscription
    rw [content_of_mem_waiting hwaiter] at hvalue
    cases hvalue
  · have hsettled := (h.settled index _ (List.getElem?_eq_getElem hindex) hopen).2
    split at hsettled
    · obtain ⟨frame', name', ticket', component, hsubscription', hmem⟩ := hsettled
      rw [hsubscription] at hsubscription'
      cases hsubscription'
      have heq := hworld.eq_of_ticket_eq hwaiter hmem hticket
      exact ⟨component, by rw [heq]⟩
    · rw [hsubscription] at hsettled
      cases hsettled

section Commit

variable {world : World κ} {id : SearchId} {result : Result}

theorem search_commit (hid : id.index < world.searches.size) :
    (commit id result world).2.search id =
      { world.search id with
        result := some result
        subscriptions := (world.search id).subscriptions.map fun _ => none
        listeners := [] } := by
  simp only [commit, search_release, search_modifySearch_self hid]

theorem subscription?_commit (hid : id.index < world.searches.size) (index : Nat) :
    (commit id result world).2.subscription? id index = none := by
  rw [subscription?, search_commit hid, List.getElem?_map]
  cases (world.search id).subscriptions[index]? <;> rfl

theorem mem_waiting_commit (frame : FrameId) (name : String) (waiter : Waiter (Callback κ)) :
    waiter ∈ (commit id result world).2.waiting frame name ↔
      waiter ∈ world.waiting frame name ∧
        some ⟨frame, name, waiter.ticket⟩ ∉ (world.search id).subscriptions := by
  simp only [commit, mem_waiting_release, waiting_modifySearch]

theorem mem_subscriptions_iff {subscription : Subscription} :
    some subscription ∈ (world.search id).subscriptions ↔
      ∃ index, world.subscription? id index = some subscription := by
  rw [List.mem_iff_getElem?]
  refine exists_congr fun index => ?_
  rw [subscription?, Option.join_eq_some_iff]

theorem advances_commit (howned : world.Owned id) :
    Advances id world (commit id result world).2 := by
  refine (advances_modifySearch world id _ (fun h => h) rfl rfl rfl).trans
    (advances_release _ id _ ?_)
  intro frame name waiter hmem hsubscription
  obtain ⟨index, hindex⟩ := mem_subscriptions_iff.mp hsubscription
  exact ⟨index, howned _ _ _ _ hindex waiter hmem rfl⟩

/-- Committing to the result of the reference search ends a search. -/
theorem commit_sound (hworld : world.Orderly) (hlinked : world.Linked id)
    (howned : world.Owned id) (hstarted : (world.search id).started = true)
    (hanswered : world.Answered id result) (isOpen : Nat → Prop) :
    Proceeds id isOpen world (commit id result world).2 := by
  have hid := lt_size_of_started hstarted
  have hadvances : Advances id world (commit id result world).2 := advances_commit howned
  have hnone : ∀ index, (commit id result world).2.subscription? id index = none :=
    subscription?_commit hid
  have hshaped := hworld.shaped id
  refine ⟨?_, .ended ?_ ⟨?_, ⟨result, ?_, ?_⟩, hnone⟩, hadvances,
    fun index _ => Or.inr (hnone index)⟩
  · refine (hworld.modifySearch rfl ⟨hshaped.outcomes, ?_⟩).release _
    rw [List.length_map]
    exact hshaped.subscriptions
  · intro frame name ticket index component hmem
    rw [mem_waiting_commit] at hmem
    exact absurd (mem_subscriptions_iff.mpr ⟨index, (hlinked _ _ _ _ _ hmem.1).1⟩) hmem.2
  · rw [search_commit hid]
    exact hstarted
  · rw [search_commit hid]
  · exact hanswered.later hworld (hadvances.later id)

end Commit

/-! ## Settling -/

theorem Tended.running_of_open {world : World κ} {id : SearchId} {isOpen : Nat → Prop}
    (h : world.Tended id isOpen) (hstarted : (world.search id).started = true)
    (hcommitted : (world.search id).isCommitted = false) :
    world.Running id isOpen ∧ (world.search id).verdict? = none := by
  cases h with
  | unstarted _ hunstarted =>
      rw [hunstarted.started] at hstarted
      cases hstarted
  | running _ hrunning hundecided => exact ⟨hrunning, hundecided⟩
  | ended _ hended =>
      obtain ⟨result, hresult, -⟩ := hended.result
      rw [Search.isCommitted, hresult] at hcommitted
      cases hcommitted

theorem Tended.ended_of_committed {world : World κ} {id : SearchId} {isOpen : Nat → Prop}
    (h : world.Tended id isOpen) (hcommitted : (world.search id).isCommitted = true) :
    world.Ended id := by
  cases h with
  | unstarted _ hunstarted =>
      rw [Search.isCommitted, hunstarted.result] at hcommitted
      cases hcommitted
  | running _ hrunning _ =>
      rw [Search.isCommitted, hrunning.result] at hcommitted
      cases hcommitted
  | ended _ hended => exact hended

/-- A world in which nothing has happened. -/
theorem Tended.proceeds {world : World κ} {id : SearchId} {isOpen : Nat → Prop}
    (h : world.Tended id isOpen) (hworld : world.Orderly) : Proceeds id isOpen world world :=
  ⟨hworld, h, Advances.refl id world, fun _ _ => .inl rfl⟩

/-- A search that has ended has no open attempts, so it does not matter which ones are due. -/
theorem Tended.proceeds_of_committed {world : World κ} {id : SearchId} {isOpen isOpen' : Nat → Prop}
    (h : world.Tended id isOpen) (hworld : world.Orderly)
    (hcommitted : (world.search id).isCommitted = true) : Proceeds id isOpen' world world :=
  Tended.proceeds (.ended h.linked (h.ended_of_committed hcommitted)) hworld

section Settle

variable {world : World κ} {id : SearchId} {isOpen : Nat → Prop}

/-- The outcome of an attempt is that of the walk, unless it is still pending. -/
theorem Running.outcome_cases (h : world.Running id isOpen) {index : Nat} {root : FrameId}
    (hroot : (world.search id).context[index]? = some root) :
    (world.search id).outcomes[index]? = some .pending ∨
      (world.search id).outcomes[index]? = some (world.outcome id root) := by
  by_cases hopen : isOpen index
  · exact Or.inl (h.opened index (List.getElem?_eq_some_iff.mp hroot).1 hopen).1
  · exact Or.inr (h.settled index root hroot hopen).1

theorem Running.refines (hworld : world.Orderly) (h : world.Running id isOpen) :
    List.Forall₂ Outcome.Refines (world.search id).outcomes
      ((world.search id).context.map (world.outcome id)) := by
  rw [List.forall₂_iff_get]
  refine ⟨by rw [(hworld.shaped id).outcomes, List.length_map], ?_⟩
  intro index hindex hlt
  rw [List.length_map] at hlt
  rw [List.get_eq_getElem, List.get_eq_getElem, List.getElem_map]
  rcases h.outcome_cases (List.getElem?_eq_getElem hlt) with hpending | hknown
  · exact Or.inl (Option.some.inj ((List.getElem?_eq_getElem hindex).symm.trans hpending))
  · exact Or.inr (Option.some.inj ((List.getElem?_eq_getElem hindex).symm.trans hknown)).symm

/-- What a walk finds is a value of the world. -/
theorem knows_of_walk (hclosed : world.Closed) {component : Nat} {frame : FrameId}
    {names : List String} {value : Value} (hframe : frame.index < world.frames.size)
    (h : world.walk component frame names = .found value) : world.Knows value := by
  induction names generalizing component frame with
  | nil =>
      cases h
      rintro other ⟨⟩
      exact hframe
  | cons name rest ih =>
      cases hcontent : world.content frame name with
      | none => simp [walk, hcontent] at h
      | some state =>
          cases state with
          | none => simp [walk, hcontent] at h
          | some here =>
              rw [walk_ready hcontent] at h
              cases rest with
              | nil =>
                  cases h
                  exact hclosed _ _ _ hcontent
              | cons next more =>
                  cases here with
                  | frame inner => exact ih (hclosed _ _ _ hcontent inner rfl) h
                  | _ => cases h

theorem Running.knows_of_found (hworld : world.Orderly) (h : world.Running id isOpen)
    {value : Value} (hfound : .found value ∈ (world.search id).outcomes) : world.Knows value := by
  obtain ⟨index, hindex⟩ := List.mem_iff_getElem?.mp hfound
  have hlt : index < (world.search id).context.length := by
    rw [← (hworld.shaped id).outcomes]
    exact (List.getElem?_eq_some_iff.mp hindex).1
  have hroot := List.getElem?_eq_getElem hlt
  rcases h.outcome_cases hroot with hpending | hknown
  · rw [hindex] at hpending
    cases hpending
  · rw [hindex] at hknown
    exact knows_of_walk hworld.closed (hworld.contexts id _ (List.getElem_mem hlt))
      (Option.some.inj hknown).symm

/-- A verdict on the outcomes of a running search is the result of its reference search. -/
theorem Running.reference?_eq (hworld : world.Orderly) (h : world.Running id isOpen)
    {verdict : Verdict} (hverdict : (world.search id).verdict? = some verdict) :
    world.reference? (world.search id).context (world.search id).names (world.search id).mode =
      some verdict := by
  rw [verdict?_eq _ (hworld.shaped id).outcomes] at hverdict
  simp only [reference?, h.path]
  exact result?_of_refines (h.refines hworld) hverdict

/-- The values that a search for all values lists have been found. -/
theorem found_of_verdict? (hworld : world.Orderly) {values : List Value}
    (hverdict : (world.search id).verdict? = some (.list values)) :
    ∀ value ∈ values, .found value ∈ (world.search id).outcomes := by
  rw [verdict?_eq _ (hworld.shaped id).outcomes] at hverdict
  unfold Reference.result? Reference.every? Reference.first? at hverdict
  split at hverdict
  · split at hverdict
    · cases hverdict
    · split at hverdict
      · cases hverdict
      · cases hverdict
        intro value hvalue
        obtain ⟨outcome, hmem, hfound⟩ := List.mem_filterMap.mp hvalue
        cases outcome with
        | found other =>
            cases hfound
            exact hmem
        | _ => cases hfound
  · split at hverdict
    · cases hverdict
    · split at hverdict
      · cases hverdict
      · unfold Reference.failed at hverdict
        split at hverdict
        · cases hverdict
        · split at hverdict <;> cases hverdict

/-- A running search ends as soon as its result is certain. -/
theorem settle_sound (hworld : world.Orderly) (hlinked : world.Linked id)
    (h : world.Running id isOpen) : Proceeds id isOpen world (settle id world).2 := by
  have hopen : (world.search id).isCommitted = false := by
    rw [Search.isCommitted, h.result]
    rfl
  unfold settle
  simp only [hopen, Bool.false_eq_true, if_false]
  cases hverdict : (world.search id).verdict? with
  | none =>
      exact Tended.proceeds (.running hlinked h hverdict) hworld
  | some verdict =>
      have hreference := h.reference?_eq hworld hverdict
      cases verdict with
      | value value =>
          exact commit_sound hworld hlinked (h.owned hworld) h.started
            ⟨_, hreference, rfl⟩ isOpen
      | failure error =>
          exact commit_sound hworld hlinked (h.owned hworld) h.started
            ⟨_, hreference, rfl⟩ isOpen
      | list values =>
          have hnobody : ∀ name, (Frame.ofValues values : Frame (Callback κ)).waiting name = [] :=
            waiting_ofValues values
          have hknows : ∀ name value,
              (Frame.ofValues values : Frame (Callback κ)).slots.find? name = some (.ready value) →
                world.Knows value := by
            intro name value hslot
            obtain ⟨other, hother, heq⟩ := find?_ofValues hslot
            cases heq
            exact h.knows_of_found hworld (found_of_verdict? hworld hverdict _ hother)
          have hspares := spares_addFrame id world hnobody
          have hadded := hworld.addFrame hknows hnobody
          have hanswered : (world.addFrame (.ofValues values)).2.Answered id
              (.ok (.frame (world.addFrame (.ofValues values)).1)) := by
            refine ⟨.list values, ?_, _, rfl, by simp [addFrame], frame_addFrame_self ..⟩
            exact (h.spared hspares hworld).reference?_eq hadded hverdict
          refine (commit_sound hadded (hlinked.spared hspares)
            ((h.spared hspares hworld).owned hadded) h.started hanswered isOpen).of_advances
              (advances_addFrame id world hnobody) ?_
          exact fun _ _ => rfl

end Settle

theorem Tended.settle_sound {world : World κ} {id : SearchId} {isOpen : Nat → Prop}
    (h : world.Tended id isOpen) (hworld : world.Orderly)
    (hstarted : (world.search id).started = true) :
    Proceeds id isOpen world (settle id world).2 := by
  cases hcommitted : (world.search id).isCommitted with
  | true =>
      have hsame : (settle id world).2 = world := by
        unfold settle
        simp only [hcommitted, if_true]
      rw [hsame]
      exact h.proceeds hworld
  | false =>
      exact World.settle_sound hworld h.linked (h.running_of_open hstarted hcommitted).1

end FrameLang.World
