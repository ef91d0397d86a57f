import FrameLang.Proofs.Search.Attempts

/-!
# Producing an attribute

Between the calls every search has settled all its attempts (`World.Calm`).
Producing an attribute opens the attempts of all those who waited for it, and
these are delivered the value one after the other.

## Strategy

While callbacks are still to be delivered, the open attempts are just those that
have a callback among them (`Due`), and each of these has arrived at the value
that it is owed (`Delivering`).  A delivery settles its own attempt, and since no
attempt has two callbacks, the others stay open.  When no callback is left,
nothing is open.

An observer may produce another attribute while callbacks are still to be
delivered.  Then the new callbacks come before the others, and they belong to
other attempts: nobody waits for an attempt whose value is on the way
(`Delivering.not_waiting`).
-/

namespace FrameLang.World

variable {κ : Type}

/-- Every search has settled what it has begun. -/
structure Calm (world : World κ) : Prop where
  orderly : world.Orderly
  tended : ∀ id, world.Tended id fun _ => False

/-- The world once an attribute has been produced, and before anybody is called back. -/
def produce (world : World κ) (frame : FrameId) (name : String) (value : Value) : World κ :=
  world.setSlot frame name (.ready value) (world.ticket frame)

/-- A callback, and the value with which it is to be called. -/
structure Delivery (κ : Type) where
  value : Value
  callback : Callback κ

/-- The deliveries to all who wait for an attribute. -/
def deliveries (world : World κ) (frame : FrameId) (name : String) (value : Value) :
    List (Delivery κ) :=
  (world.waiting frame name).map fun waiter => ⟨value, waiter.callback⟩

/-- An attempt of a search is owed a value. -/
def Due (owed : List (Delivery κ)) (id : SearchId) (index : Nat) : Prop :=
  ∃ value component, ⟨value, .attempt id index component⟩ ∈ owed

/-- The state of the world while deliveries are owed. -/
structure Delivering (owed : List (Delivery κ)) (world : World κ) : Prop where
  orderly : world.Orderly
  tended : ∀ id, world.Tended id (Due owed id)
  arrived : ∀ value id index component, ⟨value, .attempt id index component⟩ ∈ owed →
    world.Arrived id index component value
  distinct : owed.Pairwise fun first second => ∀ id index component component',
    first.callback = .attempt id index component →
      second.callback ≠ .attempt id index component'

/-- A world is calm when nothing is owed. -/
theorem calm_iff {world : World κ} : world.Calm ↔ Delivering [] world := by
  have hnothing : ∀ id index, ¬ Due ([] : List (Delivery κ)) id index := by simp [Due]
  constructor
  · intro h
    refine ⟨h.orderly, fun id => (h.tended id).congr fun index _ => ?_, by simp, .nil⟩
    exact iff_of_false not_false (hnothing id index)
  · intro h
    refine ⟨h.orderly, fun id => (h.tended id).congr fun index _ => ?_⟩
    exact iff_of_false (hnothing id index) not_false

theorem mem_deliveries {world : World κ} {frame : FrameId} {name : String} {value : Value}
    {delivery : Delivery κ} : delivery ∈ world.deliveries frame name value ↔
      delivery.value = value ∧ ∃ ticket, ⟨ticket, delivery.callback⟩ ∈ world.waiting frame name := by
  unfold deliveries
  rw [List.mem_map]
  constructor
  · rintro ⟨⟨ticket, callback⟩, hmem, rfl⟩
    exact ⟨rfl, ticket, hmem⟩
  · rintro ⟨rfl, ticket, hmem⟩
    exact ⟨_, hmem, rfl⟩

theorem due_append {first second : List (Delivery κ)} {id : SearchId} {index : Nat} :
    Due (first ++ second) id index ↔ Due first id index ∨ Due second id index := by
  simp only [Due, List.mem_append, exists_or]

/-! ## What is on the way -/

section OnTheWay

variable {world : World κ} {owed : List (Delivery κ)}

/-- A search that is owed a value has begun. -/
theorem Delivering.started (h : Delivering owed world) {id : SearchId} {index : Nat}
    (hdue : Due owed id index) : (world.search id).started = true := by
  obtain ⟨value, component, hmem⟩ := hdue
  exact (h.arrived value id index component hmem).started

/-- Nobody waits for an attempt whose value is on the way. -/
theorem Delivering.not_waiting (h : Delivering owed world) {id : SearchId} {index : Nat}
    (hdue : Due owed id index) (frame : FrameId) (name : String) (ticket component : Nat) :
    (⟨ticket, .attempt id index component⟩ : Waiter (Callback κ)) ∉ world.waiting frame name := by
  intro hwaiting
  have hstarted := h.started hdue
  have hsubscription := ((h.tended id).linked _ _ _ _ _ hwaiting).1
  obtain ⟨value, component', hmem⟩ := hdue
  cases h.tended id with
  | unstarted _ hunstarted =>
      rw [hunstarted.started] at hstarted
      cases hstarted
  | running _ hrunning _ =>
      obtain ⟨root, hroot⟩ := (h.arrived value id index component' hmem).root
      obtain ⟨hindex, -⟩ := List.getElem?_eq_some_iff.mp hroot
      -- what an open attempt waited for is there, so nobody can wait for it
      obtain ⟨found, hready⟩ :=
        (hrunning.opened index hindex ⟨value, component', hmem⟩).2 _ _ _ hsubscription
      rw [content_of_mem_waiting hwaiting] at hready
      cases hready
  | ended _ hended =>
      rw [hended.subscriptions index] at hsubscription
      cases hsubscription

/-- What spares every search leaves to each what it is owed. -/
theorem Delivering.spared {after : World κ} (h : Delivering owed world) (horderly : after.Orderly)
    (hspares : ∀ id, Spares id world after) : Delivering owed after :=
  ⟨horderly, fun id => (h.tended id).spared (hspares id) h.orderly,
    fun value id index component hmem =>
      (h.arrived value id index component hmem).later (hspares id).later,
    h.distinct⟩

/-- A step of one search leaves to the others what they are owed. -/
theorem Delivering.advanced {after : World κ} {id : SearchId} {rest : List (Delivery κ)}
    (h : Delivering owed world) (hrest : rest.Sublist owed)
    (hothers : ∀ other, other ≠ id → ∀ index, Due owed other index → Due rest other index)
    (hadvances : Advances id world after) (horderly : after.Orderly)
    (htended : after.Tended id (Due rest id)) : Delivering rest after := by
  refine ⟨horderly, fun other => ?_, fun value other index component hmem => ?_,
    h.distinct.sublist hrest⟩
  · by_cases hother : other = id
    · exact hother ▸ htended
    · refine ((h.tended other).spared (hadvances.spares hother) h.orderly).congr fun index _ => ?_
      constructor
      · exact hothers other hother index
      · rintro ⟨value, component, hmem⟩
        exact ⟨value, component, hrest.subset hmem⟩
  · exact (h.arrived value other index component (hrest.subset hmem)).later (hadvances.later other)

end OnTheWay

/-! ## Producing -/

section Produce

variable {world : World κ} {frame : FrameId} {name : String}

theorem content_produce (hframe : frame.index < world.frames.size) (value : Value)
    (other : FrameId) (here : String) : (world.produce frame name value).content other here =
      if other = frame ∧ here = name then some (some value) else world.content other here :=
  content_setSlot hframe other here

theorem waiting_produce (hframe : frame.index < world.frames.size) (value : Value)
    (other : FrameId) (here : String) : (world.produce frame name value).waiting other here =
      if other = frame ∧ here = name then [] else world.waiting other here :=
  waiting_setSlot hframe other here

theorem later_produce (hpending : world.content frame name = some none) (value : Value)
    (id : SearchId) : Later id world (world.produce frame name value) := by
  have hframe := lt_size_of_content hpending
  refine ⟨⟨by simp [produce], ?_⟩, ?_, fun h => h, rfl, rfl, rfl⟩
  · intro other here _
    rw [content_produce hframe]
    split
    · next heq =>
      refine Or.inr ⟨?_, rfl⟩
      rw [heq.1, heq.2, hpending]
    · exact Or.inl rfl
  · intro other _ hcomplete
    apply frame_setSlot_of_ne
    rintro rfl
    exact hcomplete name hpending

theorem Orderly.produce (hworld : world.Orderly) (hframe : frame.index < world.frames.size)
    {value : Value} (hvalue : world.Knows value) : (world.produce frame name value).Orderly := by
  have hsize : (world.produce frame name value).frames.size = world.frames.size := by
    simp [World.produce]
  constructor
  case closed =>
    intro other here found hfound
    rw [content_produce hframe] at hfound
    split at hfound
    · cases hfound
      exact hvalue.mono (Nat.le_of_eq hsize.symm)
    · exact (hworld.closed other here found hfound).mono (Nat.le_of_eq hsize.symm)
  case contexts =>
    intro id other hother
    rw [hsize]
    exact hworld.contexts id other hother
  case shaped => exact hworld.shaped
  case ticket_lt =>
    intro other here waiter hmem
    rw [waiting_produce hframe] at hmem
    split at hmem
    · cases hmem
    · have hlt := hworld.ticket_lt other here waiter hmem
      rw [World.produce, ticket_setSlot hframe]
      split
      · next heq => exact heq ▸ hlt
      · exact hlt
  case tickets_nodup =>
    intro other here
    rw [waiting_produce hframe]
    split
    · exact List.nodup_nil
    · exact hworld.tickets_nodup other here

theorem Linked.produce {id : SearchId} (h : world.Linked id)
    (hpending : world.content frame name = some none) (value : Value) :
    (world.produce frame name value).Linked id := by
  intro other here ticket index component hmem
  rw [waiting_produce (lt_size_of_content hpending)] at hmem
  split at hmem
  · cases hmem
  · obtain ⟨hsubscription, hstanding⟩ := h _ _ _ _ _ hmem
    exact ⟨hsubscription, hstanding.later (later_produce hpending value id)⟩

/-- Those who waited for the attribute have their attempts open as well, and all others are as
before. -/
theorem Running.produce {id : SearchId} {isOpen : Nat → Prop} (hworld : world.Orderly)
    (hlinked : world.Linked id) (h : world.Running id isOpen)
    (hpending : world.content frame name = some none) (value : Value) :
    (world.produce frame name value).Running id
      fun index => Due (world.deliveries frame name value) id index ∨ isOpen index := by
  have hframe := lt_size_of_content hpending
  have hlater := later_produce hpending value id
  have hready : (world.produce frame name value).content frame name = some (some value) := by
    rw [content_produce hframe, if_pos ⟨rfl, rfl⟩]
  refine ⟨h.path, h.started, h.result, ?opened, ?settled⟩
  case opened =>
    intro index hindex hdue
    by_cases hopen : isOpen index
    · obtain ⟨houtcome, hfound⟩ := h.opened index hindex hopen
      refine ⟨houtcome, fun other here ticket heq => ?_⟩
      obtain ⟨found, hcontent⟩ := hfound other here ticket heq
      exact ⟨found, hlater.toExtends.of_ready hcontent⟩
    -- the attempt has waited for this attribute, so it has been pending
    · obtain ⟨_, component, hmem⟩ := hdue.resolve_right hopen
      obtain ⟨-, ticket, hwaiter⟩ := mem_deliveries.mp hmem
      obtain ⟨hsubscription, hstanding⟩ := hlinked _ _ _ _ _ hwaiter
      obtain ⟨houtcome, -⟩ := h.settled index _ (List.getElem?_eq_getElem hindex) hopen
      rw [hstanding.outcome_eq (List.getElem?_eq_getElem hindex), walk_pending hpending] at houtcome
      refine ⟨houtcome, fun other here ticket' heq => ?_⟩
      have hsame : some (⟨frame, name, ticket⟩ : Subscription) = some ⟨other, here, ticket'⟩ :=
        hsubscription.symm.trans heq
      cases hsame
      exact ⟨value, hready⟩
  case settled =>
    intro index root hroot hnot
    obtain ⟨hnotdue, hclosed⟩ := not_or.mp hnot
    obtain ⟨houtcome, hwaits⟩ := h.settled index root hroot hclosed
    by_cases hwalk : world.outcome id root = .pending
    · rw [if_pos hwalk] at hwaits
      obtain ⟨other, here, ticket, component, hsubscription, hmem⟩ := hwaits
      -- it waits for another attribute, since it is not owed this one
      have hne : ¬ (other = frame ∧ here = name) := by
        rintro ⟨rfl, rfl⟩
        exact hnotdue ⟨value, component, mem_deliveries.mpr ⟨rfl, ticket, hmem⟩⟩
      have hstill : (world.produce frame name value).content other here = some none := by
        rw [content_produce hframe, if_neg hne]
        exact content_of_mem_waiting hmem
      have hwalk' : (world.produce frame name value).outcome id root = .pending := by
        rw [((hlinked _ _ _ _ _ hmem).2.later hlater).outcome_eq hroot, walk_pending hstill]
      rw [hwalk', if_pos rfl]
      refine ⟨by rw [← hwalk]; exact houtcome, other, here, ticket, component, hsubscription, ?_⟩
      rw [waiting_produce hframe, if_neg hne]
      exact hmem
    · have hsame : (world.produce frame name value).outcome id root = world.outcome id root := by
        have hcontext := hworld.contexts id root (List.mem_of_getElem? hroot)
        rcases walk_of_extends hworld.closed hlater.toExtends hcontext 0 _ with hnone | hsome
        · exact absurd hnone hwalk
        · exact hsome
      rw [hsame, if_neg hwalk]
      rw [if_neg hwalk] at hwaits
      exact ⟨houtcome, hwaits⟩

/-- Two who wait for an attribute wait for two attempts. -/
theorem Orderly.distinct_deliveries (hworld : world.Orderly) (hlinked : ∀ id, world.Linked id)
    (value : Value) :
    (world.deliveries frame name value).Pairwise fun first second =>
      ∀ id index component component', first.callback = .attempt id index component →
        second.callback ≠ .attempt id index component' := by
  unfold deliveries
  rw [List.pairwise_map]
  have hnodup := hworld.tickets_nodup frame name
  rw [List.Nodup, List.pairwise_map] at hnodup
  refine hnodup.imp_of_mem ?_
  rintro ⟨ticket, callback⟩ ⟨ticket', callback'⟩ hfirst hsecond hne id index component component'
    rfl rfl
  -- two callbacks of one attempt would have the one ticket that its subscription names
  have hsame := (hlinked id _ _ _ _ _ hfirst).1.symm.trans (hlinked id _ _ _ _ _ hsecond).1
  cases hsame
  exact hne rfl

/-- Who waited for the attribute is owed its value, before all that has been owed already. -/
theorem Delivering.produce {owed : List (Delivery κ)} (h : Delivering owed world)
    (hpending : world.content frame name = some none) {value : Value}
    (hvalue : world.Knows value) :
    Delivering (world.deliveries frame name value ++ owed) (world.produce frame name value) := by
  have hframe := lt_size_of_content hpending
  refine ⟨h.orderly.produce hframe hvalue, ?tended, ?arrived, List.pairwise_append.mpr
    ⟨h.orderly.distinct_deliveries (fun id => (h.tended id).linked) value, h.distinct, ?apart⟩⟩
  case tended =>
    intro id
    have hlater := later_produce hpending value id
    cases h.tended id with
    | unstarted hlinked hunstarted =>
        refine .unstarted (hlinked.produce hpending value) ?_
        exact ⟨hunstarted.started, hunstarted.result, hunstarted.outcomes,
          hunstarted.subscriptions⟩
    | running hlinked hrunning hundecided =>
        have hproduced := hrunning.produce h.orderly hlinked hpending value
        exact (Tended.running (hlinked.produce hpending value) hproduced hundecided).congr
          fun index _ => due_append.symm
    | ended hlinked hended =>
        refine .ended (hlinked.produce hpending value) ?_
        obtain ⟨hstarted, ⟨result, hresult, hanswered⟩, hsubscriptions⟩ := hended
        exact ⟨hstarted, ⟨result, hresult, hanswered.later h.orderly hlater⟩, hsubscriptions⟩
  case arrived =>
    intro found id index component hmem
    have hlater := later_produce hpending value id
    rcases List.mem_append.mp hmem with hmem | hmem
    · obtain ⟨rfl, ticket, hwaiter⟩ := mem_deliveries.mp hmem
      obtain ⟨-, hstanding⟩ := (h.tended id).linked _ _ _ _ _ hwaiter
      refine ⟨frame, name, hstanding.later hlater, ?_⟩
      rw [content_produce hframe, if_pos ⟨rfl, rfl⟩]
    · exact (h.arrived found id index component hmem).later hlater
  case apart =>
    rintro ⟨_, _⟩ hfirst ⟨found, _⟩ hsecond id index component component' rfl rfl
    obtain ⟨-, ticket, hwaiter⟩ := mem_deliveries.mp hfirst
    exact h.not_waiting ⟨found, component', hsecond⟩ frame name ticket component hwaiter

end Produce

/-! ## Delivering -/

/-- What a delivery to an attempt does to the world; observers only look. -/
def answer (world : World κ) : Delivery κ → World κ
  | ⟨_, .observer _⟩ => world
  | ⟨value, .attempt id index component⟩ => (deliver id index component value world).2

section Deliver

variable {world : World κ} {owed : List (Delivery κ)}

/-- A search takes the value that it is owed. -/
theorem Delivering.proceeds {value : Value} {id : SearchId} {index component : Nat}
    (h : Delivering (⟨value, .attempt id index component⟩ :: owed) world) :
    Proceeds id (fun other => Due (⟨value, .attempt id index component⟩ :: owed) id other ∧
      other ≠ index) world (deliver id index component value world).2 := by
  have hdue : Due (⟨value, .attempt id index component⟩ :: owed) id index :=
    ⟨value, component, List.mem_cons_self⟩
  exact receive_sound h.orderly (h.tended id) hdue
    (h.arrived value id index component List.mem_cons_self) rfl

theorem Delivering.answer {delivery : Delivery κ} (h : Delivering (delivery :: owed) world) :
    Delivering owed (World.answer world delivery) := by
  obtain ⟨hfirst, hdistinct⟩ := List.pairwise_cons.mp h.distinct
  have hsublist : owed.Sublist (delivery :: owed) := List.sublist_cons_self _ _
  obtain ⟨value, callback⟩ := delivery
  cases callback with
  | observer token =>
      refine ⟨h.orderly, fun id => (h.tended id).congr fun index _ => by simp [Due],
        fun value id index component hmem =>
          h.arrived value id index component (hsublist.subset hmem), hdistinct⟩
  | attempt id index component =>
      have hreceived := h.proceeds
      refine h.advanced hsublist ?_ hreceived.advances hreceived.orderly
        (hreceived.tended.congr fun index' _ => ?_)
      · rintro other hother index' ⟨value', component', hmem⟩
        rcases List.mem_cons.mp hmem with heq | hrest
        · cases heq
          exact absurd rfl hother
        · exact ⟨value', component', hrest⟩
      · constructor
        · rintro ⟨⟨value', component', hmem⟩, hne⟩
          rcases List.mem_cons.mp hmem with heq | hrest
          · cases heq
            exact absurd rfl hne
          · exact ⟨value', component', hrest⟩
        · rintro ⟨value', component', hrest⟩
          refine ⟨⟨value', component', List.mem_cons_of_mem _ hrest⟩, ?_⟩
          rintro rfl
          exact hfirst _ hrest id index' component component' rfl rfl

/-- When everybody has been called back, nothing is owed. -/
theorem Delivering.calm (h : Delivering owed world) : (owed.foldl World.answer world).Calm := by
  induction owed generalizing world with
  | nil => exact calm_iff.mpr h
  | cons delivery rest ih => exact ih h.answer

end Deliver

/-! ## Beginning while values are on the way -/

section Begin

variable {world : World κ} {owed : List (Delivery κ)}

/-- To begin a search once more changes nothing, and a search that has not begun is owed nothing. -/
theorem Delivering.begins (h : Delivering owed world) (id : SearchId) :
    Advances id world (begin id world).2 ∧ Delivering owed (begin id world).2 := by
  by_cases hstarted : (world.search id).started = true
  · rw [begin_of_started hstarted]
    exact ⟨.refl id world, h⟩
  · have hnothing : ∀ index, ¬ Due owed id index := fun index hdue => hstarted (h.started hdue)
    have hclosed : world.Tended id fun _ => False :=
      (h.tended id).congr fun index _ => iff_of_false (hnothing index) not_false
    have hbegun := begin_sound h.orderly hclosed
    refine ⟨hbegun.advances, h.advanced (List.Sublist.refl _) (fun _ _ _ hdue => hdue)
      hbegun.advances hbegun.orderly ?_⟩
    exact hbegun.tended.congr fun index _ => iff_of_false not_false (hnothing index)

end Begin

end FrameLang.World
