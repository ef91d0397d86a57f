import FrameLang.Search.Frame
import Mathlib.Data.List.Basic
import Mathlib.Data.List.Nodup
import Mathlib.Data.List.Pairwise

/-!
# What is done with a frame

A frame is asked for attributes, is given their values, and is told that somebody no longer
waits for one.  This file says what a history of such dealings tells about each attribute,
and what every dealing has to come to, given only what has been done before
(`Dealing.Lawful`).

## Strategy

A dealing is about one attribute.  So whatever a history tells about another one is the same
as before (`Dealing.Quiet`), and only a few lemmas say what a dealing adds.
-/

namespace FrameLang

/-- Something that is done with a frame, and what comes of it. -/
inductive Dealing (γ : Type) where
  /-- An attribute is asked for.  If the answer is its value, it is taken at once. -/
  | asked (name : String) (callback : γ) (answer : Availability)
  | produced (name : String) (value : Value) (answer : Except FrameError Nat)
  | cancelled (name : String) (ticket : Nat) (found : Bool)
  /-- One who has waited for an attribute is called back. -/
  | ran (name : String) (waiter : Waiter γ) (value : Value)

namespace Dealing

variable {γ : Type}

/-- The attribute that a dealing is about. -/
def name : Dealing γ → String
  | asked name _ _ => name
  | produced name _ _ => name
  | cancelled name _ _ => name
  | ran name _ _ => name

/-! ## What a history says -/

/-- The ticket that is given out. -/
def ticket? : Dealing γ → Option Nat
  | asked _ _ (.subscribed ticket) => some ticket
  | _ => none

/-- Who begins to wait for an attribute. -/
def accepted? (name : String) : Dealing γ → Option (Waiter γ)
  | asked other callback (.subscribed ticket) =>
      if other = name then some ⟨ticket, callback⟩ else none
  | _ => none

/-- The ticket under which an attribute is no longer awaited. -/
def dropped? (name : String) : Dealing γ → Option Nat
  | cancelled other ticket true => if other = name then some ticket else none
  | _ => none

/-- What an attribute is assigned, and how many are to be called. -/
def assigned? (name : String) : Dealing γ → Option (Value × Nat)
  | produced other value (.ok count) => if other = name then some (value, count) else none
  | _ => none

/-- Who is called back because of an attribute, and with what. -/
def run? (name : String) : Dealing γ → Option (Waiter γ × Value)
  | ran other waiter value => if other = name then some (waiter, value) else none
  | _ => none

/-- All tickets that have been given out, for whatever attribute. -/
def tickets (history : List (Dealing γ)) : List Nat := history.filterMap ticket?

/-- Those who have been made to wait for an attribute. -/
def accepted (history : List (Dealing γ)) (name : String) : List (Waiter γ) :=
  history.filterMap (accepted? name)

/-- The tickets that have been cancelled with success. -/
def dropped (history : List (Dealing γ)) (name : String) : List Nat :=
  history.filterMap (dropped? name)

/-- All values that an attribute has been assigned, each with the number of callbacks. -/
def assignments (history : List (Dealing γ)) (name : String) : List (Value × Nat) :=
  history.filterMap (assigned? name)

/-- The callbacks because of an attribute. -/
def runs (history : List (Dealing γ)) (name : String) : List (Waiter γ × Value) :=
  history.filterMap (run? name)

/-- Those who have been made to wait for an attribute and have not cancelled. -/
def kept (history : List (Dealing γ)) (name : String) : List (Waiter γ) :=
  (accepted history name).filter fun waiter => waiter.ticket ∉ dropped history name

/-- The value of an attribute: what it has been assigned, or what it has had from the start. -/
def value? (initial : Frame γ) (history : List (Dealing γ)) (name : String) : Option Value :=
  match assignments history name with
  | [] => initial.get? name
  | (value, _) :: _ => some value

/-- The state of an attribute, if the frame has it: it is ready if it has a value, and otherwise it
is awaited by those who have been made to wait and have not cancelled. -/
def slot? (initial : Frame γ) (history : List (Dealing γ)) (name : String) : Option (Slot γ) :=
  (initial.slots.find? name).map fun _ =>
    match value? initial history name with
    | some value => .ready value
    | none => .pending (kept history name)

/-- Those who are to be called because of an attribute, in order, and with what. -/
def toRun (history : List (Dealing γ)) (name : String) : List (Waiter γ × Value) :=
  match assignments history name with
  | [] => []
  | (value, _) :: _ => (kept history name).map fun waiter => (waiter, value)

/-! ## Where an entry comes from -/

section Entries

variable {name : String} {dealing : Dealing γ} {history : List (Dealing γ)}

theorem accepted?_eq_some_iff {waiter : Waiter γ} : dealing.accepted? name = some waiter ↔
    dealing = asked name waiter.callback (.subscribed waiter.ticket) := by
  obtain ⟨ticket, callback⟩ := waiter
  cases dealing with
  | asked other asker answer => cases answer <;> simp [accepted?, and_comm]
  | _ => simp [accepted?]

theorem dropped?_eq_some_iff {ticket : Nat} : dealing.dropped? name = some ticket ↔
    dealing = cancelled name ticket true := by
  cases dealing with
  | cancelled other given found => cases found <;> simp [dropped?]
  | _ => simp [dropped?]

theorem assigned?_eq_some_iff {value : Value} {count : Nat} :
    dealing.assigned? name = some (value, count) ↔ dealing = produced name value (.ok count) := by
  cases dealing with
  | produced other given answer => cases answer <;> simp [assigned?]
  | _ => simp [assigned?]

theorem run?_eq_some_iff {waiter : Waiter γ} {value : Value} :
    dealing.run? name = some (waiter, value) ↔ dealing = ran name waiter value := by
  cases dealing <;> simp [run?]

/-- An entry is there if the one dealing is there from which it is read. -/
theorem mem_filterMap_iff {β : Type} {note : Dealing γ → Option β} {entry : β}
    {source : Dealing γ} (h : ∀ dealing, note dealing = some entry ↔ dealing = source) :
    entry ∈ history.filterMap note ↔ source ∈ history := by
  rw [List.mem_filterMap]
  constructor
  · rintro ⟨dealing, hdealing, hentry⟩
    exact (h dealing).mp hentry ▸ hdealing
  · exact fun hsource => ⟨source, hsource, (h source).mpr rfl⟩

theorem mem_accepted_iff {waiter : Waiter γ} : waiter ∈ accepted history name ↔
    asked name waiter.callback (.subscribed waiter.ticket) ∈ history :=
  mem_filterMap_iff fun _ => accepted?_eq_some_iff

theorem mem_dropped_iff {ticket : Nat} :
    ticket ∈ dropped history name ↔ cancelled name ticket true ∈ history :=
  mem_filterMap_iff fun _ => dropped?_eq_some_iff

theorem mem_assignments_iff {value : Value} {count : Nat} :
    (value, count) ∈ assignments history name ↔ produced name value (.ok count) ∈ history :=
  mem_filterMap_iff fun _ => assigned?_eq_some_iff

theorem mem_runs_iff {waiter : Waiter γ} {value : Value} :
    (waiter, value) ∈ runs history name ↔ ran name waiter value ∈ history :=
  mem_filterMap_iff fun _ => run?_eq_some_iff

end Entries

/-! ## Lawful histories -/

/-- What has to come of a dealing with a frame, after all that has been done before. -/
def Apt (initial : Frame γ) (earlier : List (Dealing γ)) : Dealing γ → Prop
  | asked name _ answer =>
      answer = match slot? initial earlier name with
        | none => .absent
        | some (.ready value) => .delivered value
        | some (.pending _) => .subscribed (tickets earlier).length
  | produced name _ answer =>
      answer = match slot? initial earlier name with
        | none => .error (.unknownAttribute name)
        | some (.ready _) => .error (.alreadyResolved name)
        | some (.pending waiting) => .ok waiting.length
  | cancelled name ticket found =>
      found = true ↔ ∃ waiting, slot? initial earlier name = some (.pending waiting) ∧
        ticket ∈ waiting.map Waiter.ticket
  | ran name waiter value =>
      (toRun earlier name)[(runs earlier name).length]? = some (waiter, value)

/-- A history in which everything comes to what it has to. -/
def Lawful (initial : Frame γ) : List (Dealing γ) → List (Dealing γ) → Prop
  | _, [] => True
  | earlier, dealing :: rest =>
      Apt initial earlier dealing ∧ Lawful initial (earlier ++ [dealing]) rest

theorem lawful_concat {initial : Frame γ} {earlier history : List (Dealing γ)}
    {dealing : Dealing γ} : Lawful initial earlier (history ++ [dealing]) ↔
      Lawful initial earlier history ∧ Apt initial (earlier ++ history) dealing := by
  induction history generalizing earlier with
  | nil => simp [Lawful]
  | cons first rest ih =>
      rw [List.cons_append, Lawful, Lawful, ih, List.append_assoc, List.singleton_append,
        and_assoc]

/-! ## One more dealing -/

theorem filterMap_concat {β : Type} (note : Dealing γ → Option β) (history : List (Dealing γ))
    (dealing : Dealing γ) :
    (history ++ [dealing]).filterMap note = history.filterMap note ++ (note dealing).toList := by
  rw [List.filterMap_append, List.filterMap_cons, List.filterMap_nil]
  cases note dealing <;> rfl

section Concat

variable (history : List (Dealing γ)) (name : String)

theorem tickets_concat (dealing : Dealing γ) :
    tickets (history ++ [dealing]) = tickets history ++ dealing.ticket?.toList :=
  filterMap_concat ticket? history dealing

theorem accepted_concat (dealing : Dealing γ) :
    accepted (history ++ [dealing]) name =
      accepted history name ++ (dealing.accepted? name).toList :=
  filterMap_concat (accepted? name) history dealing

theorem dropped_concat (dealing : Dealing γ) :
    dropped (history ++ [dealing]) name =
      dropped history name ++ (dealing.dropped? name).toList :=
  filterMap_concat (dropped? name) history dealing

theorem assignments_concat (dealing : Dealing γ) :
    assignments (history ++ [dealing]) name =
      assignments history name ++ (dealing.assigned? name).toList :=
  filterMap_concat (assigned? name) history dealing

theorem runs_concat (dealing : Dealing γ) :
    runs (history ++ [dealing]) name = runs history name ++ (dealing.run? name).toList :=
  filterMap_concat (run? name) history dealing

end Concat

/-- Nothing is said about an attribute. -/
structure Quiet (dealing : Dealing γ) (name : String) : Prop where
  accepted : dealing.accepted? name = none
  dropped : dealing.dropped? name = none
  assigned : dealing.assigned? name = none
  run : dealing.run? name = none

theorem quiet_of_ne {dealing : Dealing γ} {name : String} (hne : dealing.name ≠ name) :
    dealing.Quiet name := by
  cases dealing with
  | asked other callback answer =>
      refine ⟨?_, rfl, rfl, rfl⟩
      cases answer with
      | subscribed ticket => exact if_neg hne
      | _ => rfl
  | produced other value answer =>
      refine ⟨rfl, rfl, ?_, rfl⟩
      cases answer with
      | ok count => exact if_neg hne
      | error error => rfl
  | cancelled other ticket found =>
      refine ⟨rfl, ?_, rfl, rfl⟩
      cases found with
      | true => exact if_neg hne
      | false => rfl
  | ran other waiter value => exact ⟨rfl, rfl, rfl, if_neg hne⟩

section Quiet

variable {initial : Frame γ} {history : List (Dealing γ)} {name : String} {dealing : Dealing γ}

theorem Quiet.assignments (h : dealing.Quiet name) :
    assignments (history ++ [dealing]) name = Dealing.assignments history name := by
  rw [assignments_concat, h.assigned, Option.toList_none, List.append_nil]

theorem kept_concat_of_none (haccepted : dealing.accepted? name = none)
    (hdropped : dealing.dropped? name = none) :
    kept (history ++ [dealing]) name = Dealing.kept history name := by
  rw [Dealing.kept, accepted_concat, dropped_concat, haccepted, hdropped]
  simp [Dealing.kept]

theorem Quiet.kept (h : dealing.Quiet name) :
    kept (history ++ [dealing]) name = Dealing.kept history name :=
  kept_concat_of_none h.accepted h.dropped

theorem Quiet.slot? (h : dealing.Quiet name) :
    slot? initial (history ++ [dealing]) name = Dealing.slot? initial history name := by
  unfold Dealing.slot? value?
  rw [h.assignments, h.kept]

theorem Quiet.toRun (h : dealing.Quiet name) :
    toRun (history ++ [dealing]) name = Dealing.toRun history name := by
  unfold Dealing.toRun
  rw [h.assignments, h.kept]

end Quiet

/-- Who asks is kept after all the others. -/
theorem kept_concat_asked {history : List (Dealing γ)} {name : String} (callback : γ)
    {ticket : Nat} (hfresh : ticket ∉ dropped history name) :
    kept (history ++ [asked name callback (.subscribed ticket)]) name =
      kept history name ++ [⟨ticket, callback⟩] := by
  rw [kept, accepted_concat, dropped_concat]
  simp [kept, accepted?, dropped?, hfresh]

theorem kept_concat_cancelled (history : List (Dealing γ)) (name : String) (ticket : Nat) :
    kept (history ++ [cancelled name ticket true]) name =
      (kept history name).filter fun waiter => waiter.ticket ≠ ticket := by
  rw [kept, accepted_concat, dropped_concat, kept, List.filter_filter]
  simp [accepted?, dropped?, and_comm]

section Slots

variable {initial : Frame γ} {history : List (Dealing γ)} {name : String}

theorem slot?_eq_pending_iff {waiting : List (Waiter γ)} :
    slot? initial history name = some (.pending waiting) ↔
      (initial.slots.find? name).isSome = true ∧ initial.get? name = none ∧
        assignments history name = [] ∧ waiting = kept history name := by
  unfold slot? value?
  cases hfound : initial.slots.find? name with
  | none => simp
  | some slot =>
      cases hassigned : assignments history name with
      | cons assignment rest => simp
      | nil => cases hvalue : initial.get? name <;> simp [eq_comm]

theorem mem_kept_of_toRun {waiter : Waiter γ} {value : Value}
    (h : (waiter, value) ∈ toRun history name) : waiter ∈ kept history name := by
  rw [toRun] at h
  split at h
  · cases h
  · obtain ⟨other, hother, heq⟩ := List.mem_map.mp h
    cases heq
    exact hother

/-- As long as an attribute has not been assigned there is nobody to call. -/
theorem toRun_of_unassigned (h : assignments history name = []) : toRun history name = [] := by
  rw [toRun, h]

/-- Those who have been made to wait for an attribute have been given tickets in turn. -/
theorem map_ticket_accepted_sublist (history : List (Dealing γ)) (name : String) :
    ((accepted history name).map Waiter.ticket).Sublist (tickets history) := by
  induction history with
  | nil => exact .slnil
  | cons dealing rest ih =>
      unfold accepted tickets at ih ⊢
      rw [List.filterMap_cons, List.filterMap_cons]
      cases haccepted : dealing.accepted? name with
      | none =>
          cases dealing.ticket? with
          | none => exact ih
          | some ticket => exact ih.cons ticket
      | some waiter =>
          have hticket : dealing.ticket? = some waiter.ticket := by
            rw [accepted?_eq_some_iff.mp haccepted]
            rfl
          rw [hticket]
          exact ih.cons_cons waiter.ticket

/-- If no ticket is given out twice, it tells who has got it, and for what. -/
theorem eq_of_accepted (hnodup : (tickets history).Nodup) {other : String}
    {waiter later : Waiter γ} (h : waiter ∈ accepted history name)
    (h' : later ∈ accepted history other) (hticket : waiter.ticket = later.ticket) :
    name = other ∧ waiter = later := by
  have hapart := List.pairwise_filterMap.mp hnodup
  have : Std.Symm fun first second : Dealing γ =>
      ∀ ticket, first.ticket? = some ticket → ∀ ticket', second.ticket? = some ticket' →
        ticket ≠ ticket' :=
    ⟨fun _ _ hne ticket hfirst ticket' hsecond heq => hne ticket' hsecond ticket hfirst heq.symm⟩
  have hsame : (asked name waiter.callback (.subscribed waiter.ticket) : Dealing γ) =
      asked other later.callback (.subscribed later.ticket) := by
    by_contra hne
    exact hapart.forall (mem_accepted_iff.mp h) (mem_accepted_iff.mp h') hne _ rfl _ rfl hticket
  injection hsame with hname hcallback
  exact ⟨hname, by cases waiter; cases later; cases hticket; cases hcallback; rfl⟩

end Slots

/-! ## What has become of everyone -/

/-- All callbacks under a ticket, with the attributes because of which they were made. -/
def runsOf (history : List (Dealing γ)) (ticket : Nat) : List (String × Waiter γ × Value) :=
  history.filterMap fun
    | ran name waiter value => if waiter.ticket = ticket then some (name, waiter, value) else none
    | _ => none

/-- The attributes for which a ticket has been cancelled with success. -/
def dropsOf (history : List (Dealing γ)) (ticket : Nat) : List String :=
  history.filterMap fun
    | cancelled name other true => if other = ticket then some name else none
    | _ => none

/-- What has become of one who has been made to wait for an attribute. -/
inductive Fate (frame : Frame γ) (history : List (Dealing γ)) (name : String) (waiter : Waiter γ) :
    Prop where
  /-- The callback is still parked. -/
  | parked (hparked : waiter ∈ frame.waiting name) (hrun : runsOf history waiter.ticket = [])
      (hdropped : dropsOf history waiter.ticket = [])
  /-- It has been run once, with the value of the attribute. -/
  | served {value : Value} (hvalue : frame.get? name = some value)
      (hrun : runsOf history waiter.ticket = [(name, waiter, value)])
      (hdropped : dropsOf history waiter.ticket = [])
      (hparked : waiter.ticket ∉ (frame.waiting name).map Waiter.ticket)
  /-- It has been dropped by one cancellation. -/
  | released (hdropped : dropsOf history waiter.ticket = [name])
      (hrun : runsOf history waiter.ticket = [])
      (hparked : waiter.ticket ∉ (frame.waiting name).map Waiter.ticket)

section Fates

variable {history : List (Dealing γ)} {name : String}

/-- If all callbacks under a ticket are because of one attribute, they are among its callbacks. -/
theorem runsOf_eq {ticket : Nat} (h : ∀ other waiter value, ran other waiter value ∈ history →
    waiter.ticket = ticket → other = name) :
    runsOf history ticket = ((runs history name).filter fun run => run.1.ticket = ticket).map
      fun run => (name, run) := by
  induction history with
  | nil => rfl
  | cons dealing rest ih =>
      have hrest := ih fun other waiter value hmem => h other waiter value (.tail _ hmem)
      cases dealing with
      | ran other waiter value =>
          have hother := h other waiter value List.mem_cons_self
          unfold runsOf runs at hrest ⊢
          by_cases hticket : waiter.ticket = ticket
          · simp [run?, hother hticket, hticket, hrest]
          · by_cases hname : other = name <;> simp [run?, hname, hticket, hrest]
      | _ => exact hrest

theorem dropsOf_eq {ticket : Nat} (h : ∀ other, cancelled other ticket true ∈ history →
    other = name) :
    dropsOf history ticket = ((dropped history name).filter (· = ticket)).map fun _ => name := by
  induction history with
  | nil => rfl
  | cons dealing rest ih =>
      have hrest := ih fun other hmem => h other (.tail _ hmem)
      unfold dropsOf dropped at hrest ⊢
      cases dealing with
      | cancelled other found success =>
          cases success with
          | false => exact hrest
          | true =>
              by_cases hticket : found = ticket
              · subst hticket
                simp [dropped?, h other List.mem_cons_self, hrest]
              · by_cases hname : other = name <;> simp [dropped?, hname, hticket, hrest]
      | _ => exact hrest

/-- In a lawful history everything comes to what it has to. -/
theorem Lawful.exists_apt {initial : Frame γ} {earlier : List (Dealing γ)}
    (h : Lawful initial earlier history) {dealing : Dealing γ} (hmem : dealing ∈ history) :
    ∃ before, Apt initial before dealing := by
  induction history generalizing earlier with
  | nil => cases hmem
  | cons first rest ih =>
      rcases List.mem_cons.mp hmem with rfl | hrest
      · exact ⟨earlier, h.1⟩
      · exact ih h.2 hrest

/-- Only attributes without a value from the start are waited for. -/
theorem Lawful.pending_of_accepted {initial : Frame γ} (h : Lawful initial [] history)
    {waiter : Waiter γ} (hmem : waiter ∈ accepted history name) :
    (initial.slots.find? name).isSome = true ∧ initial.get? name = none := by
  obtain ⟨before, hapt⟩ := h.exists_apt (mem_accepted_iff.mp hmem)
  simp only [Apt] at hapt
  split at hapt
  · cases hapt
  · cases hapt
  · next waiting hslot =>
    obtain ⟨hdeclared, hvalue, -⟩ := slot?_eq_pending_iff.mp hslot
    exact ⟨hdeclared, hvalue⟩

/-- Only attributes without a value from the start are assigned one. -/
theorem Lawful.pending_of_assigned {initial : Frame γ} (h : Lawful initial [] history)
    {value : Value} {count : Nat} (hmem : (value, count) ∈ assignments history name) :
    (initial.slots.find? name).isSome = true ∧ initial.get? name = none := by
  obtain ⟨before, hapt⟩ := h.exists_apt (mem_assignments_iff.mp hmem)
  simp only [Apt] at hapt
  split at hapt
  · cases hapt
  · cases hapt
  · next waiting hslot =>
    obtain ⟨hdeclared, hvalue, -⟩ := slot?_eq_pending_iff.mp hslot
    exact ⟨hdeclared, hvalue⟩

end Fates

end Dealing

end FrameLang
