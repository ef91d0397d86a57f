import FrameLang.Search.World
import Mathlib.Tactic.Common

/-!
# What a world shows

A world is looked at through four views: what a frame says about a name
(`World.content`), who waits for it (`World.waiting`), which ticket a frame
gives out next (`World.ticket`), and the state of a search (`World.search`).
This file says what each operation does to each of them, so that nothing after
it looks at slots, tables or arrays.

Only producing a value changes what a frame says.  Asking and cancelling move
waiters, and they do so at a pending attribute only: a frame without pending
attributes never changes again (`request_ready`, `frame_cancel`).
-/

namespace FrameLang.World

variable {κ : Type}

/-- What a frame says about a name: nothing, that its value is pending, or the value. -/
def content (world : World κ) (frame : FrameId) (name : String) : Option (Option Value) :=
  ((world.frame frame).slots.find? name).map Slot.value?

/-- Who waits for an attribute. -/
def waiting (world : World κ) (frame : FrameId) (name : String) : List (Waiter (Callback κ)) :=
  (world.frame frame).waiting name

/-- The ticket that a frame gives out next. -/
def ticket (world : World κ) (frame : FrameId) : Nat := (world.frame frame).next

/-- A frame all of whose attributes have been produced. -/
def Complete (world : World κ) (frame : FrameId) : Prop :=
  ∀ name, world.content frame name ≠ some none

/-- A value that refers to no frame outside the world. -/
def Knows (world : World κ) (value : Value) : Prop :=
  ∀ frame, value = .frame frame → frame.index < world.frames.size

/-! ## Replacing one frame or one search -/

theorem frame_setFrame (world : World κ) (id other : FrameId) (frame : Frame (Callback κ)) :
    (world.setFrame id frame).frame other =
      if id = other ∧ id.index < world.frames.size then frame else world.frame other := by
  obtain ⟨index⟩ := id
  obtain ⟨other⟩ := other
  simp only [World.frame, setFrame, Array.getElem?_modify, FrameId.mk.injEq]
  by_cases heq : index = other
  · subst heq
    by_cases hlt : index < world.frames.size <;> simp [hlt]
  · simp [heq]

@[simp] theorem search_setFrame (world : World κ) (id : FrameId) (frame : Frame (Callback κ))
    (search : SearchId) : (world.setFrame id frame).search search = world.search search := rfl

@[simp] theorem size_frames_setFrame (world : World κ) (id : FrameId)
    (frame : Frame (Callback κ)) : (world.setFrame id frame).frames.size = world.frames.size := by
  simp [setFrame]

@[simp] theorem searches_setFrame (world : World κ) (id : FrameId)
    (frame : Frame (Callback κ)) : (world.setFrame id frame).searches = world.searches := rfl

/-- Putting a frame where it is already changes nothing. -/
theorem setFrame_frame (world : World κ) (id : FrameId) :
    world.setFrame id (world.frame id) = world := by
  obtain ⟨frames, templates, searches⟩ := world
  simp only [setFrame, World.frame, mk.injEq, and_self, and_true]
  apply Array.ext (by simp)
  intro index hsize hlt
  rw [Array.getElem_modify]
  split
  · next heq =>
    subst heq
    simp [Array.getElem?_eq_getElem hlt]
  · rfl

theorem search_modifySearch (world : World κ) (id other : SearchId)
    (change : Search κ → Search κ) :
    (world.modifySearch id change).search other =
      if id = other ∧ id.index < world.searches.size then change (world.search id)
      else world.search other := by
  obtain ⟨index⟩ := id
  obtain ⟨other⟩ := other
  simp only [World.search, modifySearch, Array.getElem?_modify, SearchId.mk.injEq]
  by_cases heq : index = other
  · subst heq
    by_cases hlt : index < world.searches.size <;> simp [hlt]
  · simp [heq]

@[simp] theorem search_modifySearch_self {world : World κ} {id : SearchId}
    (hid : id.index < world.searches.size) (change : Search κ → Search κ) :
    (world.modifySearch id change).search id = change (world.search id) := by
  rw [search_modifySearch, if_pos ⟨rfl, hid⟩]

theorem search_modifySearch_of_ne {id other : SearchId} (hne : id ≠ other) (world : World κ)
    (change : Search κ → Search κ) :
    (world.modifySearch id change).search other = world.search other := by
  rw [search_modifySearch, if_neg fun h => hne h.1]

@[simp] theorem frames_modifySearch (world : World κ) (id : SearchId)
    (change : Search κ → Search κ) : (world.modifySearch id change).frames = world.frames := rfl

@[simp] theorem frame_modifySearch (world : World κ) (id : SearchId)
    (change : Search κ → Search κ) (frame : FrameId) :
    (world.modifySearch id change).frame frame = world.frame frame := rfl

@[simp] theorem content_modifySearch (world : World κ) (id : SearchId)
    (change : Search κ → Search κ) (frame : FrameId) (name : String) :
    (world.modifySearch id change).content frame name = world.content frame name := rfl

@[simp] theorem waiting_modifySearch (world : World κ) (id : SearchId)
    (change : Search κ → Search κ) (frame : FrameId) (name : String) :
    (world.modifySearch id change).waiting frame name = world.waiting frame name := rfl

@[simp] theorem ticket_modifySearch (world : World κ) (id : SearchId)
    (change : Search κ → Search κ) (frame : FrameId) :
    (world.modifySearch id change).ticket frame = world.ticket frame := rfl

@[simp] theorem size_searches_modifySearch (world : World κ) (id : SearchId)
    (change : Search κ → Search κ) :
    (world.modifySearch id change).searches.size = world.searches.size := by
  simp [modifySearch]

/-! ## Frames that are not there -/

theorem frame_of_size_le {world : World κ} {id : FrameId} (h : world.frames.size ≤ id.index) :
    world.frame id = ∅ := by
  simp [World.frame, Array.getElem?_eq_none h]
  rfl

/-- A frame that says anything about a name is a frame of the world. -/
theorem lt_size_of_content {world : World κ} {frame : FrameId} {name : String}
    {state : Option Value} (h : world.content frame name = some state) :
    frame.index < world.frames.size := by
  by_contra hge
  rw [content, frame_of_size_le (Nat.le_of_not_lt hge)] at h
  cases h

/-- Somebody waits only for what is pending. -/
theorem content_of_mem_waiting {world : World κ} {frame : FrameId} {name : String}
    {waiter : Waiter (Callback κ)} (h : waiter ∈ world.waiting frame name) :
    world.content frame name = some none := by
  unfold waiting Frame.waiting at h
  unfold content
  cases hslot : (world.frame frame).slots.find? name with
  | none => simp [hslot] at h
  | some slot =>
      cases slot with
      | ready value => simp [hslot, Slot.waiting] at h
      | pending waiting => rfl

/-- What a frame says, given its slot. -/
theorem content_of_find? {world : World κ} {frame : FrameId} {name : String}
    {slot : Slot (Callback κ)} (h : (world.frame frame).slots.find? name = some slot) :
    world.content frame name = some slot.value? := by
  rw [content, h]
  rfl

theorem waiting_of_find? {world : World κ} {frame : FrameId} {name : String}
    {slot : Slot (Callback κ)} (h : (world.frame frame).slots.find? name = some slot) :
    world.waiting frame name = slot.waiting := by
  rw [waiting, Frame.waiting, h]

/-- A pending attribute has a slot with those who wait for it. -/
theorem find?_of_content_pending {world : World κ} {frame : FrameId} {name : String}
    (h : world.content frame name = some none) :
    (world.frame frame).slots.find? name = some (.pending (world.waiting frame name)) := by
  unfold content at h
  cases hslot : (world.frame frame).slots.find? name with
  | none => simp [hslot] at h
  | some slot =>
      cases slot with
      | ready value => simp [hslot, Slot.value?] at h
      | pending waiting => rw [waiting_of_find? hslot]; rfl

/-! ## Putting a slot in the place of another -/

/-- The world after a slot of a frame has been replaced. -/
def setSlot (world : World κ) (id : FrameId) (name : String) (slot : Slot (Callback κ))
    (next : Nat) : World κ :=
  world.setFrame id ⟨(world.frame id).slots.insert name slot, next⟩

section SetSlot

variable {world : World κ} {id : FrameId} {name : String} {slot : Slot (Callback κ)} {next : Nat}

theorem content_setSlot (hid : id.index < world.frames.size) (frame : FrameId)
    (other : String) :
    (world.setSlot id name slot next).content frame other =
      if frame = id ∧ other = name then some slot.value? else world.content frame other := by
  simp only [content, setSlot, frame_setFrame]
  by_cases hframe : id = frame
  · subst hframe
    rw [if_pos ⟨rfl, hid⟩, Table.find?_insert]
    by_cases hname : name = other
    · simp [hname]
    · rw [if_neg hname, if_neg fun h => hname h.2.symm]
  · rw [if_neg fun h => hframe h.1, if_neg fun h => hframe h.1.symm]

theorem waiting_setSlot (hid : id.index < world.frames.size) (frame : FrameId)
    (other : String) :
    (world.setSlot id name slot next).waiting frame other =
      if frame = id ∧ other = name then slot.waiting else world.waiting frame other := by
  simp only [waiting, Frame.waiting, setSlot, frame_setFrame]
  by_cases hframe : id = frame
  · subst hframe
    rw [if_pos ⟨rfl, hid⟩, Table.find?_insert]
    by_cases hname : name = other
    · simp [hname]
    · rw [if_neg hname, if_neg fun h => hname h.2.symm]
  · rw [if_neg fun h => hframe h.1, if_neg fun h => hframe h.1.symm]

theorem ticket_setSlot (hid : id.index < world.frames.size) (frame : FrameId) :
    (world.setSlot id name slot next).ticket frame =
      if frame = id then next else world.ticket frame := by
  simp only [ticket, setSlot, frame_setFrame]
  by_cases hframe : id = frame
  · subst hframe
    rw [if_pos ⟨rfl, hid⟩, if_pos rfl]
  · rw [if_neg fun h => hframe h.1, if_neg fun h => hframe h.symm]

theorem frame_setSlot_of_ne {frame : FrameId} (hne : frame ≠ id) :
    (world.setSlot id name slot next).frame frame = world.frame frame := by
  rw [setSlot, frame_setFrame, if_neg fun h => hne h.1.symm]

@[simp] theorem search_setSlot (search : SearchId) :
    (world.setSlot id name slot next).search search = world.search search := rfl

@[simp] theorem size_frames_setSlot :
    (world.setSlot id name slot next).frames.size = world.frames.size := by
  simp [setSlot]

@[simp] theorem searches_setSlot :
    (world.setSlot id name slot next).searches = world.searches := rfl

end SetSlot

/-! ## Asking -/

section Request

variable {world : World κ} {id : FrameId} {name : String}

theorem request_absent (h : world.content id name = none) (callback : Callback κ) :
    world.request id name callback = (.absent, world) := by
  have hslot : (world.frame id).slots.find? name = none := by
    simpa [content] using h
  simp only [request, Frame.request, hslot, setFrame_frame]

theorem request_ready {value : Value} (h : world.content id name = some (some value))
    (callback : Callback κ) :
    world.request id name callback = (.delivered value, world) := by
  unfold content at h
  cases hslot : (world.frame id).slots.find? name with
  | none => simp [hslot] at h
  | some slot =>
      cases slot with
      | pending waiting => simp [hslot, Slot.value?] at h
      | ready other =>
          have hvalue : other = value := by simpa [hslot, Slot.value?] using h
          simp only [request, Frame.request, hslot, setFrame_frame, hvalue]

/-- Asking for a pending attribute puts one more at the end of those who wait, under the
frame's next ticket. -/
theorem request_pending (h : world.content id name = some none) (callback : Callback κ) :
    world.request id name callback =
      (.subscribed (world.ticket id),
        world.setSlot id name
          (.pending (world.waiting id name ++ [⟨world.ticket id, callback⟩]))
          (world.ticket id + 1)) := by
  simp only [request, Frame.request, find?_of_content_pending h]
  rfl

/-- Nobody begins to wait but who asks. -/
theorem mem_waiting_request {callback : Callback κ} {frame : FrameId} {other : String}
    {waiter : Waiter (Callback κ)}
    (h : waiter ∈ (world.request id name callback).2.waiting frame other) :
    waiter ∈ world.waiting frame other ∨
      frame = id ∧ other = name ∧ waiter.callback = callback := by
  cases hcontent : world.content id name with
  | none =>
      rw [request_absent hcontent] at h
      exact .inl h
  | some state =>
      cases state with
      | some value =>
          rw [request_ready hcontent] at h
          exact .inl h
      | none =>
          rw [request_pending hcontent, waiting_setSlot (lt_size_of_content hcontent)] at h
          split at h
          · next heq =>
            rw [heq.1, heq.2]
            rcases List.mem_append.mp h with hold | hnew
            · exact .inl hold
            · rw [List.mem_singleton.mp hnew]
              exact .inr ⟨rfl, rfl, rfl⟩
          · exact .inl h

end Request

/-! ## Cancelling -/

section Cancel

variable (world : World κ) (id : FrameId) (name : String) (ticket : Nat)

theorem cancel_of_ne_pending {world : World κ} {id : FrameId} {name : String}
    (h : world.content id name ≠ some none) (ticket : Nat) :
    (world.cancel id name ticket).2 = world := by
  unfold content at h
  cases hslot : (world.frame id).slots.find? name with
  | none => simp only [cancel, Frame.cancel, hslot, setFrame_frame]
  | some slot =>
      cases slot with
      | ready value => simp only [cancel, Frame.cancel, hslot, setFrame_frame]
      | pending waiting => simp [hslot, Slot.value?] at h

theorem cancel_pending {world : World κ} {id : FrameId} {name : String}
    (h : world.content id name = some none) (ticket : Nat) :
    (world.cancel id name ticket).2 =
      world.setSlot id name
        (.pending ((world.waiting id name).filter fun waiter => waiter.ticket ≠ ticket))
        (world.ticket id) := by
  simp only [cancel, Frame.cancel, find?_of_content_pending h]
  rfl

@[simp] theorem content_cancel (frame : FrameId) (other : String) :
    (world.cancel id name ticket).2.content frame other = world.content frame other := by
  by_cases h : world.content id name = some none
  · rw [cancel_pending h, content_setSlot (lt_size_of_content h)]
    split
    · next heq => rw [heq.1, heq.2, h]; rfl
    · rfl
  · rw [cancel_of_ne_pending h]

theorem mem_waiting_cancel (frame : FrameId) (other : String) (waiter : Waiter (Callback κ)) :
    waiter ∈ (world.cancel id name ticket).2.waiting frame other ↔
      waiter ∈ world.waiting frame other ∧
        ¬ (frame = id ∧ other = name ∧ waiter.ticket = ticket) := by
  by_cases h : world.content id name = some none
  · rw [cancel_pending h, waiting_setSlot (lt_size_of_content h)]
    split
    · next heq =>
      obtain ⟨rfl, rfl⟩ := heq
      simp [Slot.waiting]
    · next hne =>
      have : ¬ (frame = id ∧ other = name ∧ waiter.ticket = ticket) :=
        fun h => hne ⟨h.1, h.2.1⟩
      simp [this]
  · rw [cancel_of_ne_pending h]
    constructor
    · intro hmem
      refine ⟨hmem, ?_⟩
      rintro ⟨rfl, rfl, -⟩
      exact h (content_of_mem_waiting hmem)
    · exact fun h => h.1

theorem waiting_cancel_sublist (frame : FrameId) (other : String) :
    ((world.cancel id name ticket).2.waiting frame other).Sublist
      (world.waiting frame other) := by
  by_cases h : world.content id name = some none
  · rw [cancel_pending h, waiting_setSlot (lt_size_of_content h)]
    split
    · next heq =>
      obtain ⟨rfl, rfl⟩ := heq
      exact List.filter_sublist
    · exact List.Sublist.refl _
  · simp only [cancel_of_ne_pending h, List.Sublist.refl]

@[simp] theorem ticket_cancel (frame : FrameId) :
    (world.cancel id name ticket).2.ticket frame = world.ticket frame := by
  by_cases h : world.content id name = some none
  · rw [cancel_pending h, ticket_setSlot (lt_size_of_content h)]
    split
    · next heq => rw [heq]
    · rfl
  · rw [cancel_of_ne_pending h]

theorem frame_cancel {frame : FrameId} (hcomplete : world.Complete frame) :
    (world.cancel id name ticket).2.frame frame = world.frame frame := by
  by_cases h : world.content id name = some none
  · rw [cancel_pending h]
    apply frame_setSlot_of_ne
    rintro rfl
    exact hcomplete name h
  · rw [cancel_of_ne_pending h]

@[simp] theorem search_cancel (search : SearchId) :
    (world.cancel id name ticket).2.search search = world.search search := rfl

@[simp] theorem size_frames_cancel :
    (world.cancel id name ticket).2.frames.size = world.frames.size := by
  simp [cancel]

@[simp] theorem searches_cancel :
    (world.cancel id name ticket).2.searches = world.searches := rfl

end Cancel

/-! ## Adding -/

section AddFrame

variable (world : World κ) (added : Frame (Callback κ))

theorem frame_addFrame (id : FrameId) :
    (world.addFrame added).2.frame id =
      if id.index = world.frames.size then added else world.frame id := by
  simp only [World.frame, addFrame, Array.getElem?_push]
  split <;> rfl

theorem frame_addFrame_of_lt {id : FrameId} (hid : id.index < world.frames.size) :
    (world.addFrame added).2.frame id = world.frame id := by
  rw [frame_addFrame, if_neg (Nat.ne_of_lt hid)]

@[simp] theorem frame_addFrame_self :
    (world.addFrame added).2.frame (world.addFrame added).1 = added := by
  rw [frame_addFrame]
  exact if_pos rfl

@[simp] theorem search_addFrame (search : SearchId) :
    (world.addFrame added).2.search search = world.search search := rfl

@[simp] theorem size_frames_addFrame :
    (world.addFrame added).2.frames.size = world.frames.size + 1 := by
  simp [addFrame]

@[simp] theorem searches_addFrame :
    (world.addFrame added).2.searches = world.searches := rfl

end AddFrame

/-! ## Frames that are built at once -/

/-- What a new frame says about a name comes from one of its attributes. -/
theorem find?_ofAttributes {γ : Type} {attributes : List (String × Option Value)}
    {name : String} {slot : Slot γ}
    (h : (Frame.ofAttributes attributes).slots.find? name = some slot) :
    ∃ value, (name, value) ∈ attributes ∧ slot = Frame.newSlot value := by
  have general : ∀ (pairs : List (String × Slot γ)) (table : Table String (Slot γ)),
      (pairs.foldl (fun table pair => table.insert pair.1 pair.2) table).find? name = some slot →
        (name, slot) ∈ pairs ∨ table.find? name = some slot := by
    intro pairs
    induction pairs with
    | nil => exact fun table h => Or.inr h
    | cons pair rest ih =>
        intro table h
        rcases ih _ h with hrest | htable
        · exact Or.inl (List.mem_cons_of_mem _ hrest)
        · rw [Table.find?_insert] at htable
          split at htable
          · next heq =>
            refine Or.inl ?_
            rw [← heq, ← Option.some.inj htable]
            exact List.mem_cons_self
          · exact Or.inr htable
  rcases general _ _ h with hmem | hnone
  · obtain ⟨pair, hpair, heq⟩ := List.mem_map.mp hmem
    cases heq
    exact ⟨pair.2, hpair, rfl⟩
  · simp at hnone

/-- A frame that lists values has nothing pending, and what it says is one of them. -/
theorem find?_ofValues {γ : Type} {values : List Value} {name : String} {slot : Slot γ}
    (h : (Frame.ofValues values).slots.find? name = some slot) :
    ∃ value ∈ values, slot = .ready value := by
  obtain ⟨value, hmem, rfl⟩ := find?_ofAttributes h
  obtain ⟨pair, hpair, heq⟩ := List.mem_map.mp hmem
  cases heq
  exact ⟨pair.1, List.fst_mem_of_mem_zipIdx hpair, rfl⟩

end FrameLang.World
