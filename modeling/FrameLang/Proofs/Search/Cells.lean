import FrameLang.Proofs.Search.Dealings
import Mathlib.Logic.Relation

/-!
# Attributes as cells

An attribute is assigned at most once, and whoever has asked for it before is called back with
the value, once, unless the callback has been cancelled (`Desk.Delivered`).

## Strategy

A callback may do anything with the frame that calls it, so dealings are made while other
callbacks are still due.  A `Desk` is a frame with the callbacks that are due, the next one
first, and with all that has been done so far.  Its steps are the dealings, each as a whole,
and the calls of those that are due.

The invariant (`Desk.Exact`) makes the frame a function of its history: an attribute is ready
with the value that it has been assigned, and otherwise it is awaited by those who have asked
for it and have not cancelled, in the order in which they have asked.  When it is assigned,
these are the ones to call, and from then on nobody joins or leaves them.
-/

namespace FrameLang

/-! ## Cancelling -/

/-- To put in what is there changes nothing. -/
theorem Table.insert_eq_self {α : Type} {table : Table String α} {key : String} {value : α}
    (h : table.find? key = some value) : table.insert key value = table := by
  obtain ⟨entries⟩ := table
  rw [Table.insert]
  congr 1
  rw [Table.find?] at h
  induction entries with
  | nil => cases h
  | cons entry rest ih =>
      rw [findIn] at h
      rw [insertIn]
      split
      · next hkey =>
        rw [if_pos hkey] at h
        cases h
        rw [← hkey]
      · next hkey =>
        rw [if_neg hkey] at h
        rw [ih h]

theorem Table.find?_insert_of_ne {α : Type} (table : Table String α) (value : α)
    {key other : String} (hne : key ≠ other) :
    (table.insert key value).find? other = table.find? other := by
  rw [Table.find?_insert, if_neg hne]

/-- Cancelling succeeds if somebody waits under the ticket, and otherwise changes nothing. -/
theorem Frame.cancel_cases {γ : Type} (frame : Frame γ) (name : String) (ticket : Nat) :
    (∃ waiting, frame.slots.find? name = some (.pending waiting) ∧
      ticket ∈ waiting.map Waiter.ticket ∧
      frame.cancel name ticket = (true,
        ⟨frame.slots.insert name (.pending (waiting.filter fun waiter => waiter.ticket ≠ ticket)),
          frame.next⟩)) ∨
    ((∀ waiting, frame.slots.find? name = some (.pending waiting) →
      ticket ∉ waiting.map Waiter.ticket) ∧ frame.cancel name ticket = (false, frame)) := by
  cases hslot : frame.slots.find? name with
  | none =>
      refine .inr ⟨fun waiting h => ?_, by simp only [cancel, hslot]⟩
      cases h
  | some slot =>
      cases slot with
      | ready value =>
          refine .inr ⟨fun waiting h => ?_, by simp only [cancel, hslot]⟩
          cases h
      | pending waiting =>
          by_cases hticket : ticket ∈ waiting.map Waiter.ticket
          · refine .inl ⟨waiting, rfl, hticket, ?_⟩
            have hfewer : (waiting.filter fun waiter => waiter.ticket ≠ ticket).length ≠
                waiting.length := by
              obtain ⟨waiter, hwaiter, rfl⟩ := List.mem_map.mp hticket
              intro hlength
              have hall := List.length_filter_eq_length_iff.mp hlength waiter hwaiter
              simp at hall
            simp only [cancel, hslot]
            rw [decide_eq_true hfewer]
          · refine .inr ⟨fun other h => ?_, ?_⟩
            · cases h
              exact hticket
            · have hall : (waiting.filter fun waiter => waiter.ticket ≠ ticket) = waiting := by
                refine List.filter_eq_self.mpr fun waiter hwaiter => ?_
                simp only [decide_eq_true_iff]
                exact fun heq => hticket (heq ▸ List.mem_map_of_mem hwaiter)
              simp only [cancel, hslot]
              rw [hall, Table.insert_eq_self hslot]
              simp

/-! ## Desks -/

/-- A callback that is due. -/
structure Errand (γ : Type) where
  name : String
  waiter : Waiter γ
  value : Value

/-- A frame, the callbacks that are due, the next one first, and what has been done so far. -/
structure Desk (γ : Type) where
  frame : Frame γ
  due : List (Errand γ)
  history : List (Dealing γ)

namespace Desk

open Dealing

variable {γ : Type}

/-- What may be done with a frame next. -/
inductive Step : Desk γ → Desk γ → Prop
  | ask {desk : Desk γ} (name : String) (callback : γ) :
      Step desk
        ⟨(desk.frame.request name callback).2, desk.due,
          desk.history ++ [.asked name callback (desk.frame.request name callback).1]⟩
  | refuse {desk : Desk γ} {name : String} {value : Value} {error : FrameError}
      (h : desk.frame.fulfil name value = .error error) :
      Step desk ⟨desk.frame, desk.due, desk.history ++ [.produced name value (.error error)]⟩
  /-- The callbacks of an attribute that is produced come before those that are due already. -/
  | produce {desk : Desk γ} {name : String} {value : Value} {callbacks : List γ} {frame : Frame γ}
      (h : desk.frame.fulfil name value = .ok (callbacks, frame)) :
      Step desk
        ⟨frame, (desk.frame.waiting name).map (fun waiter => ⟨name, waiter, value⟩) ++ desk.due,
          desk.history ++ [.produced name value (.ok callbacks.length)]⟩
  | cancel {desk : Desk γ} (name : String) (ticket : Nat) :
      Step desk
        ⟨(desk.frame.cancel name ticket).2, desk.due,
          desk.history ++ [.cancelled name ticket (desk.frame.cancel name ticket).1]⟩
  | run {desk : Desk γ} {errand : Errand γ} {rest : List (Errand γ)}
      (h : desk.due = errand :: rest) :
      Step desk
        ⟨desk.frame, rest, desk.history ++ [.ran errand.name errand.waiter errand.value]⟩

/-- What is done with a frame in the course of time. -/
abbrev Steps : Desk γ → Desk γ → Prop := Relation.ReflTransGen Step

/-- An attribute that is in order. -/
structure Settled (initial : Frame γ) (desk : Desk γ) (name : String) : Prop where
  /-- It is in the state that the history says. -/
  slot : desk.frame.slots.find? name = slot? initial desk.history name
  /-- Nobody cancels who has not been made to wait, and nobody cancels twice. -/
  dropped : (dropped desk.history name).Nodup ∧
    dropped desk.history name ⊆ (accepted desk.history name).map Waiter.ticket
  /-- It is assigned at most once, and only if it has had no value from the start. -/
  assigned : ∀ value count rest, assignments desk.history name = (value, count) :: rest →
    rest = [] ∧ count = (kept desk.history name).length ∧ initial.get? name = none
  /-- Those who have been called, and those who are due, are those who are to be called. -/
  runs : runs desk.history name ++
    ((desk.due.filter (·.name = name)).map fun errand => (errand.waiter, errand.value)) =
      toRun desk.history name

/-- A desk that is in order. -/
structure Exact (initial : Frame γ) (desk : Desk γ) : Prop where
  settled : ∀ name, Settled initial desk name
  next : desk.frame.next = (tickets desk.history).length
  /-- The tickets count up. -/
  tickets : tickets desk.history = List.range (tickets desk.history).length
  lawful : Lawful initial [] desk.history

section Steps

variable {initial : Frame γ} {desk : Desk γ}

/-- A frame that nobody has dealt with. -/
theorem exact_start (hnext : initial.next = 0) (hnobody : ∀ name, initial.waiting name = []) :
    Exact initial ⟨initial, [], []⟩ := by
  refine ⟨fun name => ⟨?_, ⟨List.nodup_nil, List.nil_subset _⟩, fun value count rest h => ?_, rfl⟩,
    hnext, rfl, trivial⟩
  · have hwaiting := hnobody name
    unfold slot? value? Frame.get?
    unfold Frame.waiting at hwaiting
    cases hslot : initial.slots.find? name with
    | none => rfl
    | some slot =>
        cases slot with
        | ready value => rfl
        | pending waiting =>
            rw [hslot] at hwaiting
            cases hwaiting
            rfl
  · cases h

/-- Because of an attribute that has not been assigned nobody has been called, and nobody is due. -/
theorem Settled.nothing {name : String} (h : Settled initial desk name)
    (hunassigned : Dealing.assignments desk.history name = []) :
    Dealing.runs desk.history name = [] ∧ desk.due.filter (·.name = name) = [] := by
  have hruns := h.runs
  rw [toRun_of_unassigned hunassigned, List.append_eq_nil_iff, List.map_eq_nil_iff] at hruns
  exact hruns

/-- What a pending attribute has to fulfil. -/
theorem settled_of_unassigned {name : String}
    (hslot : desk.frame.slots.find? name = some (.pending (kept desk.history name)))
    (hdeclared : (initial.slots.find? name).isSome = true) (hvalue : initial.get? name = none)
    (hunassigned : Dealing.assignments desk.history name = [])
    (hdropped : (Dealing.dropped desk.history name).Nodup ∧
      Dealing.dropped desk.history name ⊆ (accepted desk.history name).map Waiter.ticket)
    (hruns : Dealing.runs desk.history name = [])
    (hdue : desk.due.filter (·.name = name) = []) : Settled initial desk name := by
  refine ⟨?_, hdropped, fun value count rest hcount => ?_, ?_⟩
  · rw [hslot, slot?_eq_pending_iff.mpr ⟨hdeclared, hvalue, hunassigned, rfl⟩]
  · rw [hunassigned] at hcount
    cases hcount
  · rw [hruns, hdue, toRun_of_unassigned hunassigned]
    rfl

/-- Whatever is done about other attributes leaves an attribute in order. -/
theorem Settled.concat {name : String} (h : Settled initial desk name) {dealing : Dealing γ}
    (hquiet : dealing.Quiet name) {frame : Frame γ}
    (hslot : frame.slots.find? name = desk.frame.slots.find? name) {due : List (Errand γ)}
    (hdue : due.filter (·.name = name) = desk.due.filter (·.name = name)) :
    Settled initial ⟨frame, due, desk.history ++ [dealing]⟩ name := by
  refine ⟨?_, ?_, fun value count rest hcount => ?_, ?_⟩
  · rw [hquiet.slot?]
    exact hslot.trans h.slot
  · rw [dropped_concat, hquiet.dropped, accepted_concat, hquiet.accepted, Option.toList_none,
      Option.toList_none, List.append_nil, List.append_nil]
    exact h.dropped
  · rw [hquiet.assignments] at hcount
    rw [hquiet.kept]
    exact h.assigned value count rest hcount
  · rw [runs_concat, hquiet.run, Option.toList_none, List.append_nil, hquiet.toRun, hdue]
    exact h.runs

/-- A desk stays in order if the attribute that is dealt with does, if nothing happens to the
others, and if a ticket that is given out is the next one. -/
theorem Exact.extend (h : Exact initial desk) {dealing : Dealing γ} {name : String}
    (hname : dealing.name = name) {frame : Frame γ} {due : List (Errand γ)}
    (hsettled : Settled initial ⟨frame, due, desk.history ++ [dealing]⟩ name)
    (hslots : ∀ other, name ≠ other →
      frame.slots.find? other = desk.frame.slots.find? other)
    (hdue : ∀ other, name ≠ other →
      due.filter (·.name = other) = desk.due.filter (·.name = other))
    (hticket : dealing.ticket? = none ∧ frame.next = desk.frame.next ∨
      dealing.ticket? = some desk.frame.next ∧ frame.next = desk.frame.next + 1)
    (hapt : Apt initial desk.history dealing) :
    Exact initial ⟨frame, due, desk.history ++ [dealing]⟩ := by
  have htickets := tickets_concat desk.history dealing
  refine ⟨fun other => ?_, ?_, ?_, lawful_concat.mpr ⟨h.lawful, hapt⟩⟩
  · by_cases heq : name = other
    · exact heq ▸ hsettled
    · have hquiet : dealing.Quiet other := quiet_of_ne (hname ▸ heq)
      exact (h.settled other).concat hquiet (hslots other heq) (hdue other heq)
  · rcases hticket with ⟨hnone, hnext⟩ | ⟨hsome, hnext⟩
    · rw [htickets, hnone, hnext, h.next, Option.toList_none, List.append_nil]
    · rw [htickets, hsome, hnext, h.next, Option.toList_some, List.length_append,
        List.length_singleton]
  · rcases hticket with ⟨hnone, -⟩ | ⟨hsome, -⟩
    · rw [htickets, hnone, Option.toList_none, List.append_nil]
      exact h.tickets
    · rw [htickets, hsome, Option.toList_some, List.length_append, List.length_singleton,
        List.range_succ, ← h.tickets, h.next]

/-- A dealing that changes nothing. -/
theorem Exact.concat (h : Exact initial desk) {dealing : Dealing γ}
    (hquiet : ∀ name, dealing.Quiet name) (hticket : dealing.ticket? = none)
    (hapt : Apt initial desk.history dealing) :
    Exact initial ⟨desk.frame, desk.due, desk.history ++ [dealing]⟩ :=
  h.extend rfl ((h.settled _).concat (hquiet _) rfl rfl) (fun _ _ => rfl) (fun _ _ => rfl)
    (.inl ⟨hticket, rfl⟩) hapt

/-- A ticket that has not been given out has not been cancelled either. -/
theorem Exact.next_not_mem_dropped (h : Exact initial desk) (name : String) :
    desk.frame.next ∉ Dealing.dropped desk.history name := by
  intro hmem
  have hticket := (map_ticket_accepted_sublist _ _).subset ((h.settled name).dropped.2 hmem)
  rw [h.tickets, List.mem_range, h.next] at hticket
  exact Nat.lt_irrefl _ hticket

/-- Who asks for a pending attribute is made to wait after all the others. -/
theorem Exact.subscribe (h : Exact initial desk) {name : String} {waiting : List (Waiter γ)}
    (hslot : slot? initial desk.history name = some (.pending waiting)) (callback : γ) :
    Exact initial
      ⟨⟨desk.frame.slots.insert name (.pending (waiting ++ [⟨desk.frame.next, callback⟩])),
          desk.frame.next + 1⟩, desk.due,
        desk.history ++ [.asked name callback (.subscribed desk.frame.next)]⟩ := by
  obtain ⟨hdeclared, hvalue, hunassigned, rfl⟩ := slot?_eq_pending_iff.mp hslot
  have hsettled := h.settled name
  have hkept := kept_concat_asked callback (h.next_not_mem_dropped name)
  generalize hdealing : (asked name callback (.subscribed desk.frame.next) : Dealing γ) = dealing
    at hkept
  have hdropped : dealing.dropped? name = none := hdealing ▸ rfl
  have hrun : dealing.run? name = none := hdealing ▸ rfl
  have hassigned : dealing.assigned? name = none := hdealing ▸ rfl
  have hassignments : Dealing.assignments (desk.history ++ [dealing]) name = [] := by
    rw [assignments_concat, hunassigned, hassigned]
    rfl
  obtain ⟨hruns, hdue⟩ := hsettled.nothing hunassigned
  refine h.extend (hdealing ▸ rfl)
    (settled_of_unassigned ?_ hdeclared hvalue hassignments ?_ ?_ hdue)
    (fun other hne => Table.find?_insert_of_ne _ _ hne) (fun _ _ => rfl)
    (.inr ⟨hdealing ▸ rfl, rfl⟩) (by simp only [← hdealing, Apt, hslot, h.next])
  · rw [Table.find?_insert, if_pos rfl, hkept]
  · rw [dropped_concat, hdropped, Option.toList_none, List.append_nil, accepted_concat,
      List.map_append]
    exact ⟨hsettled.dropped.1, List.Subset.trans hsettled.dropped.2 (List.subset_append_left _ _)⟩
  · rw [runs_concat, hruns, hrun]
    rfl

theorem Exact.ask (h : Exact initial desk) (name : String) (callback : γ) :
    Exact initial
      ⟨(desk.frame.request name callback).2, desk.due,
        desk.history ++ [.asked name callback (desk.frame.request name callback).1]⟩ := by
  have hslot := (h.settled name).slot
  cases hstate : desk.frame.slots.find? name with
  | none =>
      rw [hstate] at hslot
      simp only [Frame.request, hstate]
      exact h.concat (fun _ => ⟨rfl, rfl, rfl, rfl⟩) rfl (by simp only [Apt, ← hslot])
  | some slot =>
      rw [hstate] at hslot
      cases slot with
      | ready value =>
          simp only [Frame.request, hstate]
          exact h.concat (fun _ => ⟨rfl, rfl, rfl, rfl⟩) rfl (by simp only [Apt, ← hslot])
      | pending waiting =>
          simp only [Frame.request, hstate]
          exact h.subscribe hslot.symm callback

theorem Exact.refuse (h : Exact initial desk) {name : String} {value : Value} {error : FrameError}
    (hrefused : desk.frame.fulfil name value = .error error) :
    Exact initial
      ⟨desk.frame, desk.due, desk.history ++ [.produced name value (.error error)]⟩ := by
  refine h.concat (fun _ => ⟨rfl, rfl, rfl, rfl⟩) rfl ?_
  have hslot := (h.settled name).slot
  unfold Frame.fulfil at hrefused
  cases hstate : desk.frame.slots.find? name with
  | none =>
      rw [hstate] at hslot hrefused
      cases hrefused
      simp only [Apt, ← hslot]
  | some slot =>
      rw [hstate] at hslot hrefused
      cases slot with
      | ready value =>
          cases hrefused
          simp only [Apt, ← hslot]
      | pending waiting => cases hrefused

/-- A pending attribute that is assigned is ready, and all who wait for it are due. -/
theorem Exact.assign (h : Exact initial desk) {name : String} {waiting : List (Waiter γ)}
    (hslot : slot? initial desk.history name = some (.pending waiting)) (value : Value) :
    Exact initial
      ⟨⟨desk.frame.slots.insert name (.ready value), desk.frame.next⟩,
        waiting.map (fun waiter => ⟨name, waiter, value⟩) ++ desk.due,
        desk.history ++ [.produced name value (.ok waiting.length)]⟩ := by
  obtain ⟨hdeclared, hvalue, hunassigned, rfl⟩ := slot?_eq_pending_iff.mp hslot
  have hsettled := h.settled name
  generalize hdealing : (produced name value (.ok (Dealing.kept desk.history name).length) :
    Dealing γ) = dealing
  have haccepted : dealing.accepted? name = none := hdealing ▸ rfl
  have hdropped : dealing.dropped? name = none := hdealing ▸ rfl
  have hrun : dealing.run? name = none := hdealing ▸ rfl
  have hassigned : dealing.assigned? name =
      some (value, (Dealing.kept desk.history name).length) := hdealing ▸ if_pos rfl
  have hkept : Dealing.kept (desk.history ++ [dealing]) name = Dealing.kept desk.history name :=
    kept_concat_of_none haccepted hdropped
  have hassignments : Dealing.assignments (desk.history ++ [dealing]) name =
      [(value, (Dealing.kept desk.history name).length)] := by
    rw [assignments_concat, hunassigned, hassigned]
    rfl
  have hothers : ∀ other, name ≠ other →
      ((Dealing.kept desk.history name).map (fun waiter => (⟨name, waiter, value⟩ : Errand γ)) ++
        desk.due).filter (·.name = other) = desk.due.filter (·.name = other) := by
    intro other hne
    rw [List.filter_append, List.filter_map]
    simp [hne]
  refine h.extend (hdealing ▸ rfl) ⟨?_, ?_, fun other count rest hcount => ?_, ?_⟩
    (fun other hne => Table.find?_insert_of_ne _ _ hne) hothers
    (.inl ⟨hdealing ▸ rfl, rfl⟩) (by simp only [← hdealing, Apt, hslot])
  · obtain ⟨slot, hinitial⟩ := Option.isSome_iff_exists.mp hdeclared
    rw [Table.find?_insert, if_pos rfl, slot?, value?, hassignments, hinitial]
    rfl
  · rw [dropped_concat, accepted_concat, haccepted, hdropped, Option.toList_none,
      Option.toList_none, List.append_nil, List.append_nil]
    exact hsettled.dropped
  · rw [hassignments] at hcount
    cases hcount
    exact ⟨rfl, by rw [hkept], hvalue⟩
  · -- all who are due because of this attribute are those who waited for it
    obtain ⟨hruns, hdue⟩ := hsettled.nothing hunassigned
    rw [runs_concat, hrun, hruns, List.filter_append, hdue, List.append_nil, toRun,
      hassignments, List.filter_map, hkept]
    simp [Function.comp_def]

theorem Exact.produce (h : Exact initial desk) {name : String} {value : Value} {callbacks : List γ}
    {frame : Frame γ} (hproduced : desk.frame.fulfil name value = .ok (callbacks, frame)) :
    Exact initial
      ⟨frame, (desk.frame.waiting name).map (fun waiter => ⟨name, waiter, value⟩) ++ desk.due,
        desk.history ++ [.produced name value (.ok callbacks.length)]⟩ := by
  have hslot := (h.settled name).slot
  unfold Frame.fulfil at hproduced
  unfold Frame.waiting
  cases hstate : desk.frame.slots.find? name with
  | none =>
      rw [hstate] at hproduced
      cases hproduced
  | some slot =>
      rw [hstate] at hslot hproduced
      cases slot with
      | ready value => cases hproduced
      | pending waiting =>
          cases hproduced
          rw [List.length_map]
          exact h.assign hslot.symm value

/-- A ticket under which somebody waits is cancelled, and the others wait on. -/
theorem Exact.drop (h : Exact initial desk) {name : String} {waiting : List (Waiter γ)}
    (hslot : slot? initial desk.history name = some (.pending waiting)) {ticket : Nat}
    (hticket : ticket ∈ waiting.map Waiter.ticket) :
    Exact initial
      ⟨⟨desk.frame.slots.insert name
            (.pending (waiting.filter fun waiter => waiter.ticket ≠ ticket)),
          desk.frame.next⟩, desk.due, desk.history ++ [.cancelled name ticket true]⟩ := by
  have hapt : Apt initial desk.history (cancelled name ticket true) := by
    simp only [Apt, hslot, true_iff]
    exact ⟨waiting, rfl, hticket⟩
  obtain ⟨hdeclared, hvalue, hunassigned, rfl⟩ := slot?_eq_pending_iff.mp hslot
  have hsettled := h.settled name
  obtain ⟨waiter, hwaiter, rfl⟩ := List.mem_map.mp hticket
  obtain ⟨haccepted, hkept⟩ := List.mem_filter.mp hwaiter
  rw [decide_eq_true_iff] at hkept
  have hleft := kept_concat_cancelled desk.history name waiter.ticket
  generalize hdealing : (cancelled name waiter.ticket true : Dealing γ) = dealing at hapt hleft
  have hunaccepted : dealing.accepted? name = none := hdealing ▸ rfl
  have hdropped : dealing.dropped? name = some waiter.ticket := hdealing ▸ if_pos rfl
  have hrun : dealing.run? name = none := hdealing ▸ rfl
  have hassigned : dealing.assigned? name = none := hdealing ▸ rfl
  have hassignments : Dealing.assignments (desk.history ++ [dealing]) name = [] := by
    rw [assignments_concat, hunassigned, hassigned]
    rfl
  obtain ⟨hruns, hdue⟩ := hsettled.nothing hunassigned
  refine h.extend (hdealing ▸ rfl)
    (settled_of_unassigned ?_ hdeclared hvalue hassignments ?_ ?_ hdue)
    (fun other hne => Table.find?_insert_of_ne _ _ hne) (fun _ _ => rfl)
    (.inl ⟨hdealing ▸ rfl, rfl⟩) hapt
  · rw [Table.find?_insert, if_pos rfl, hleft]
  · rw [dropped_concat, accepted_concat, hdropped, hunaccepted, Option.toList_some,
      Option.toList_none, List.append_nil, List.nodup_append]
    refine ⟨⟨hsettled.dropped.1, List.nodup_singleton _, ?_⟩,
      List.append_subset.mpr ⟨hsettled.dropped.2, ?_⟩⟩
    · -- who is kept has not cancelled before
      rintro other hother _ hsame rfl
      exact hkept (List.mem_singleton.mp hsame ▸ hother)
    · exact List.cons_subset.mpr ⟨List.mem_map_of_mem haccepted, List.nil_subset _⟩
  · rw [runs_concat, hruns, hrun]
    rfl

theorem Exact.cancel (h : Exact initial desk) (name : String) (ticket : Nat) :
    Exact initial
      ⟨(desk.frame.cancel name ticket).2, desk.due,
        desk.history ++ [.cancelled name ticket (desk.frame.cancel name ticket).1]⟩ := by
  have hslot := (h.settled name).slot
  rcases desk.frame.cancel_cases name ticket with
    ⟨waiting, hpending, hticket, hcancel⟩ | ⟨hnobody, hcancel⟩
  · rw [hcancel]
    exact h.drop (hslot.symm.trans hpending) hticket
  · rw [hcancel]
    refine h.concat (fun _ => ⟨rfl, rfl, rfl, rfl⟩) rfl ?_
    simp only [Apt, Bool.false_eq_true, false_iff]
    rintro ⟨waiting, hwaiting, hticket⟩
    exact hnobody waiting (hslot.trans hwaiting) hticket

/-- Who is called is the next one. -/
theorem Exact.run (h : Exact initial desk) {errand : Errand γ} {rest : List (Errand γ)}
    (hdue : desk.due = errand :: rest) :
    Exact initial
      ⟨desk.frame, rest, desk.history ++ [.ran errand.name errand.waiter errand.value]⟩ := by
  obtain ⟨name, waiter, value⟩ := errand
  have hsettled := h.settled name
  -- what is due next comes right after what has been run
  have hruns : (Dealing.runs desk.history name ++ [(waiter, value)]) ++
      ((rest.filter (·.name = name)).map fun errand => (errand.waiter, errand.value)) =
        toRun desk.history name := by
    have hall := hsettled.runs
    rw [hdue, List.filter_cons_of_pos (by simp), List.map_cons] at hall
    rw [List.append_assoc]
    exact hall
  have hapt : Apt initial desk.history (ran name waiter value) := by
    rw [Apt, ← hruns, List.append_assoc, List.getElem?_append_right (Nat.le_refl _), Nat.sub_self]
    rfl
  have hothers : ∀ other, name ≠ other →
      rest.filter (·.name = other) = desk.due.filter (·.name = other) := by
    intro other hne
    rw [hdue, List.filter_cons_of_neg (by simpa using hne)]
  generalize hdealing : (ran name waiter value : Dealing γ) = dealing at hapt
  have haccepted : dealing.accepted? name = none := hdealing ▸ rfl
  have hdropped : dealing.dropped? name = none := hdealing ▸ rfl
  have hassigned : dealing.assigned? name = none := hdealing ▸ rfl
  have hrun : dealing.run? name = some (waiter, value) := hdealing ▸ if_pos rfl
  have hkept : Dealing.kept (desk.history ++ [dealing]) name = Dealing.kept desk.history name :=
    kept_concat_of_none haccepted hdropped
  have hassignments : Dealing.assignments (desk.history ++ [dealing]) name =
      Dealing.assignments desk.history name := by
    rw [assignments_concat, hassigned, Option.toList_none, List.append_nil]
  refine h.extend (hdealing ▸ rfl) ⟨?_, ?_, ?_, ?_⟩ (fun _ _ => rfl) hothers
    (.inl ⟨hdealing ▸ rfl, rfl⟩) hapt
  · rw [slot?, value?, hassignments, hkept]
    exact hsettled.slot
  · rw [dropped_concat, accepted_concat, haccepted, hdropped, Option.toList_none,
      Option.toList_none, List.append_nil, List.append_nil]
    exact hsettled.dropped
  · rw [hassignments, hkept]
    exact hsettled.assigned
  · rw [runs_concat, toRun, hassignments, hkept, hrun]
    exact hruns

/-- Every step keeps a desk in order. -/
theorem Exact.step (h : Exact initial desk) {after : Desk γ} (hstep : Step desk after) :
    Exact initial after := by
  cases hstep with
  | ask name callback => exact h.ask name callback
  | refuse hrefused => exact h.refuse hrefused
  | produce hproduced => exact h.produce hproduced
  | cancel name ticket => exact h.cancel name ticket
  | run hdue => exact h.run hdue

/-- Every desk that a frame gets to from the start is in order. -/
theorem Exact.steps (h : Exact initial desk) {after : Desk γ} (hsteps : Steps desk after) :
    Exact initial after := by
  induction hsteps with
  | refl => exact h
  | tail _ hlast ih => exact ih.step hlast

end Steps

/-! ## What has become of everyone -/

section Ends

variable {initial : Frame γ} {desk : Desk γ} {name : String} {waiter : Waiter γ}

/-- The value of an attribute is what the history says. -/
theorem Exact.get?_eq (h : Exact initial desk) (name : String) :
    desk.frame.get? name = value? initial desk.history name := by
  rw [Frame.get?, (h.settled name).slot, slot?]
  cases hinitial : initial.slots.find? name with
  | none =>
      have hnone : initial.get? name = none := by rw [Frame.get?, hinitial]; rfl
      have hunassigned : Dealing.assignments desk.history name = [] := by
        cases hassigned : Dealing.assignments desk.history name with
        | nil => rfl
        | cons assignment rest =>
            have hmem : (assignment.1, assignment.2) ∈ Dealing.assignments desk.history name :=
              hassigned ▸ List.mem_cons_self
            have hdeclared := (h.lawful.pending_of_assigned hmem).1
            rw [hinitial] at hdeclared
            cases hdeclared
      rw [value?, hunassigned]
      exact hnone.symm
  | some slot => cases hvalue : value? initial desk.history name <;> rfl

/-- Those who wait for an attribute, unless it has been assigned, are those who are kept. -/
theorem Exact.waiting_eq (h : Exact initial desk) (hmem : waiter ∈ accepted desk.history name) :
    desk.frame.waiting name =
      if Dealing.assignments desk.history name = [] then kept desk.history name else [] := by
  obtain ⟨hdeclared, hvalue⟩ := h.lawful.pending_of_accepted hmem
  obtain ⟨slot, hslot⟩ := Option.isSome_iff_exists.mp hdeclared
  rw [Frame.waiting, (h.settled name).slot, slot?, hslot, value?]
  cases Dealing.assignments desk.history name with
  | nil => rw [hvalue, if_pos rfl]; rfl
  | cons assignment rest => rfl

/-- When no callback is due, those who are to be called have been called. -/
theorem Exact.runs_eq (h : Exact initial desk) (hdue : desk.due = []) (name : String) :
    Dealing.runs desk.history name = toRun desk.history name := by
  have hruns := (h.settled name).runs
  rw [hdue] at hruns
  rw [← hruns]
  exact (List.append_nil _).symm

theorem Exact.mem_kept_of_waiting (h : Exact initial desk)
    (hmem : waiter ∈ desk.frame.waiting name) : waiter ∈ kept desk.history name := by
  rw [Frame.waiting, (h.settled name).slot, slot?] at hmem
  cases hinitial : initial.slots.find? name with
  | none =>
      rw [hinitial] at hmem
      cases hmem
  | some slot =>
      rw [hinitial] at hmem
      cases hvalue : value? initial desk.history name with
      | none => simpa [hvalue, Slot.waiting] using hmem
      | some value => simp [hvalue, Slot.waiting] at hmem

theorem Exact.nodup_tickets (h : Exact initial desk) : (Dealing.tickets desk.history).Nodup := by
  rw [h.tickets]
  exact List.nodup_range

/-- Among those who wait for an attribute there is one for each ticket. -/
theorem Exact.filter_kept (h : Exact initial desk) (hmem : waiter ∈ kept desk.history name) :
    (kept desk.history name).filter (fun other => other.ticket = waiter.ticket) = [waiter] := by
  have hnodup : (kept desk.history name).Nodup :=
    ((h.nodup_tickets.sublist (map_ticket_accepted_sublist _ name)).of_map _).filter _
  rw [← List.perm_singleton, List.perm_ext_iff_of_nodup (hnodup.filter _) (List.nodup_singleton _)]
  intro other
  rw [List.mem_filter, List.mem_singleton, decide_eq_true_iff]
  constructor
  · rintro ⟨hother, hticket⟩
    exact (eq_of_accepted h.nodup_tickets (List.mem_of_mem_filter hother)
      (List.mem_of_mem_filter hmem) hticket).2
  · rintro rfl
    exact ⟨hmem, rfl⟩

/-- Who is called has been made to wait, and is called with the value of the attribute. -/
theorem Exact.kept_of_run (h : Exact initial desk) {value : Value}
    (hmem : ran name waiter value ∈ desk.history) :
    waiter ∈ kept desk.history name ∧ desk.frame.get? name = some value := by
  have hrun : (waiter, value) ∈ toRun desk.history name := by
    rw [← (h.settled name).runs]
    exact List.mem_append_left _ (mem_runs_iff.mpr hmem)
  rw [h.get?_eq, value?]
  rw [toRun] at hrun
  cases hassigned : Dealing.assignments desk.history name with
  | nil =>
      rw [hassigned] at hrun
      cases hrun
  | cons assignment rest =>
      rw [hassigned] at hrun
      obtain ⟨other, hother, heq⟩ := List.mem_map.mp hrun
      cases heq
      exact ⟨hother, rfl⟩

/-- When no callback is due, everyone who has been made to wait still waits, or has been called
once, or has cancelled once. -/
theorem Exact.fate (h : Exact initial desk) (hdue : desk.due = [])
    (hmem : waiter ∈ accepted desk.history name) : Fate desk.frame desk.history name waiter := by
  -- a ticket is handed out once, so whatever happens to it happens under this name
  have hruns : runsOf desk.history waiter.ticket =
      ((toRun desk.history name).filter fun run => run.1.ticket = waiter.ticket).map
        fun run => (name, run) := by
    rw [← h.runs_eq hdue]
    refine runsOf_eq fun other called value hran hticket => ?_
    have hcalled := List.mem_of_mem_filter (h.kept_of_run hran).1
    exact (eq_of_accepted h.nodup_tickets hcalled hmem hticket).1
  have hdrops : dropsOf desk.history waiter.ticket =
      ((Dealing.dropped desk.history name).filter (· = waiter.ticket)).map fun _ => name := by
    refine dropsOf_eq fun other hcancelled => ?_
    obtain ⟨later, hlater, hticket⟩ := List.mem_map.mp
      ((h.settled other).dropped.2 (mem_dropped_iff.mpr hcancelled))
    exact (eq_of_accepted h.nodup_tickets hlater hmem hticket).1
  by_cases hdropped : waiter.ticket ∈ Dealing.dropped desk.history name
  · have hgone : ∀ other ∈ kept desk.history name, other.ticket ≠ waiter.ticket := by
      intro other hother heq
      have hkept := (List.mem_filter.mp hother).2
      rw [heq] at hkept
      simp [hdropped] at hkept
    refine .released ?_ ?_ ?_
    · have hcount : (Dealing.dropped desk.history name).count waiter.ticket = 1 :=
        List.count_eq_one_of_mem (h.settled name).dropped.1 hdropped
      rw [hdrops, List.filter_eq, hcount]
      rfl
    · rw [hruns, List.map_eq_nil_iff, List.filter_eq_nil_iff]
      rintro ⟨other, value⟩ hother heq
      exact hgone other (mem_kept_of_toRun hother) (of_decide_eq_true heq)
    · intro hwaits
      obtain ⟨other, hother, heq⟩ := List.mem_map.mp hwaits
      exact hgone other (h.mem_kept_of_waiting hother) heq
  · have hkept : waiter ∈ kept desk.history name :=
      List.mem_filter.mpr ⟨hmem, by simpa using hdropped⟩
    have hundropped : dropsOf desk.history waiter.ticket = [] := by
      rw [hdrops, List.map_eq_nil_iff, List.filter_eq_nil_iff]
      rintro ticket hticket heq
      exact hdropped (of_decide_eq_true heq ▸ hticket)
    have hwaiting := h.waiting_eq hmem
    have hvalue := h.get?_eq name
    rw [value?] at hvalue
    cases hassigned : Dealing.assignments desk.history name with
    | nil =>
        rw [if_pos hassigned] at hwaiting
        refine .parked (hwaiting ▸ hkept) ?_ hundropped
        rw [hruns, toRun_of_unassigned hassigned]
        rfl
    | cons assignment rest =>
        rw [if_neg (by simp [hassigned])] at hwaiting
        rw [hassigned] at hvalue
        refine .served hvalue ?_ hundropped (by simp [hwaiting])
        rw [hruns, toRun, hassigned, List.filter_map]
        have hone := h.filter_kept hkept
        simp only [Function.comp_def]
        rw [hone]
        rfl

/-! ## Exact delivery -/

/-- All that has been done with a frame, when no callback is due. -/
structure Delivered (initial frame : Frame γ) (history : List (Dealing γ)) : Prop where
  /-- Everything has come to what it had to. -/
  lawful : Lawful initial [] history
  /-- A value that an attribute has had at some time is its value in the end. -/
  lasting : ∀ earlier later, history = earlier ++ later → ∀ name value,
    value? initial earlier name = some value → frame.get? name = some value
  /-- No attribute is assigned twice. -/
  once : ∀ name, (Dealing.assignments history name).length ≤ 1
  /-- No ticket is given out twice. -/
  tickets : Dealing.tickets history = List.range frame.next
  /-- Everyone who has been made to wait still waits, has been called once, or has cancelled. -/
  fate : ∀ name waiter, waiter ∈ accepted history name → Fate frame history name waiter
  /-- Nobody else waits or has been called. -/
  invited : ∀ name waiter, waiter ∈ frame.waiting name → waiter ∈ accepted history name
  called : ∀ name waiter value, ran name waiter value ∈ history →
    waiter ∈ accepted history name ∧ frame.get? name = some value
  /-- Because of an attribute that is assigned, those are called who wait for it, in the order in
  which they have asked, and there are as many as have been reported. -/
  served : ∀ name value count, (value, count) ∈ Dealing.assignments history name →
    Dealing.runs history name = (kept history name).map (fun waiter => (waiter, value)) ∧
      (Dealing.runs history name).length = count ∧
      ((Dealing.runs history name).map fun run => run.1.ticket).Pairwise (· < ·)

theorem Exact.lasting (h : Exact initial desk) {earlier later : List (Dealing γ)}
    (hsplit : desk.history = earlier ++ later) {value : Value}
    (hvalue : value? initial earlier name = some value) : desk.frame.get? name = some value := by
  have hassignments : Dealing.assignments desk.history name =
      Dealing.assignments earlier name ++ Dealing.assignments later name := by
    rw [hsplit]
    exact List.filterMap_append
  rw [h.get?_eq, value?, hassignments]
  rw [value?] at hvalue
  cases hassigned : Dealing.assignments earlier name with
  | cons assignment rest =>
      rw [hassigned] at hvalue
      exact hvalue
  | nil =>
      rw [hassigned] at hvalue hassignments
      rw [List.nil_append] at hassignments ⊢
      cases hlater : Dealing.assignments later name with
      | nil => exact hvalue
      | cons assignment rest =>
          -- an attribute that has had its value from the start is not assigned
          obtain ⟨-, -, hnone⟩ := (h.settled name).assigned _ _ _ (hassignments.trans hlater)
          cases hvalue.symm.trans hnone

theorem Exact.served (h : Exact initial desk) (hdue : desk.due = []) {value : Value} {count : Nat}
    (hmem : (value, count) ∈ Dealing.assignments desk.history name) :
    Dealing.runs desk.history name =
        (kept desk.history name).map (fun waiter => (waiter, value)) ∧
      (Dealing.runs desk.history name).length = count ∧
      ((Dealing.runs desk.history name).map fun run => run.1.ticket).Pairwise (· < ·) := by
  cases hassigned : Dealing.assignments desk.history name with
  | nil =>
      rw [hassigned] at hmem
      cases hmem
  | cons assignment rest =>
      obtain ⟨rfl, hcount, -⟩ := (h.settled name).assigned _ _ _ hassigned
      rw [hassigned, List.mem_singleton] at hmem
      subst hmem
      have hruns : Dealing.runs desk.history name =
          (kept desk.history name).map fun waiter => (waiter, value) := by
        rw [h.runs_eq hdue, toRun, hassigned]
      have hsublist : ((kept desk.history name).map Waiter.ticket).Sublist
          (Dealing.tickets desk.history) :=
        (List.filter_sublist.map _).trans (map_ticket_accepted_sublist _ name)
      have hordered : (Dealing.tickets desk.history).Pairwise (· < ·) := by
        rw [h.tickets]
        exact List.pairwise_lt_range
      refine ⟨hruns, by rw [hruns, List.length_map]; exact hcount.symm, ?_⟩
      rw [hruns, List.map_map]
      exact hordered.sublist hsublist

theorem Exact.delivered (h : Exact initial desk) (hdue : desk.due = []) :
    Delivered initial desk.frame desk.history := by
  refine ⟨h.lawful, fun _ _ hsplit _ _ => h.lasting hsplit, fun name => ?_, ?_,
    fun _ _ => h.fate hdue, fun _ _ hmem => List.mem_of_mem_filter (h.mem_kept_of_waiting hmem),
    fun _ _ _ hran => ?_, fun _ _ _ => h.served hdue⟩
  · cases hassigned : Dealing.assignments desk.history name with
    | nil => exact Nat.zero_le _
    | cons assignment rest =>
        obtain ⟨rfl, -⟩ := (h.settled name).assigned _ _ _ hassigned
        exact Nat.le_refl _
  · rw [h.next]
    exact h.tickets
  · exact ⟨List.mem_of_mem_filter (h.kept_of_run hran).1, (h.kept_of_run hran).2⟩

end Ends

end Desk

end FrameLang
