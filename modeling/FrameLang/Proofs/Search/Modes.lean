import FrameLang.Proofs.Search.Moments
import Mathlib.Data.List.TakeWhile

/-!
# The four modes side by side

Four searches for the same path in the same frames, one of each mode, are compared once everything
on the way along the path has been produced.

## Strategy

Then no walk is pending, so each search has ended with the result of its reference search
(`Calm.answered`).  What the reference searches report can be read off two things that are the same
for all of them (`result?_eq`): the values at the ends of the walks, in the order of the frames, and
the first obstacle on the way of a walk.  The modes differ in which of the two they look at first,
and in which of the values they take.

The list that a search for all values ends with has its values under the names `1`, `2` and so on.
Numerals of distinct numbers are distinct, so no value is lost (`lists_ofValues`).
-/

namespace FrameLang

/-! ## Lists of values -/

/-- A frame lists values under the names `1`, `2` and so on. -/
structure Frame.Lists {γ : Type} (frame : Frame γ) (values : List Value) : Prop where
  names : frame.names = (List.range values.length).map fun index => toString (index + 1)
  get : ∀ index, index < values.length → frame.get? (toString (index + 1)) = values[index]?

/-- Distinct numbers have distinct numerals. -/
theorem numeral_injective : Function.Injective fun number : Nat => toString number := by
  intro first second heq
  have hdigits : Nat.toDigits 10 first = Nat.toDigits 10 second := by
    simpa only [Nat.toString_eq_ofList_toDigits, String.ofList_inj] using heq
  have hnumbers := congrArg (Nat.ofDigitChars 10 · 0) hdigits
  simpa only [Nat.ofDigitChars_ten_toDigits] using hnumbers

/-- Every value that a list is made from has a name of its own. -/
theorem lists_ofValues {γ : Type} (values : List Value) :
    (Frame.ofValues values : Frame γ).Lists values := by
  let pairs : List (String × Slot γ) :=
    values.zipIdx.map fun pair => (toString (pair.2 + 1), .ready pair.1)
  have hframe : (Frame.ofValues values : Frame γ).slots = .ofList pairs := by
    simp only [Frame.ofValues, Frame.ofAttributes, List.map_map, pairs]
    rfl
  have hkeys : pairs.map Prod.fst =
      (List.range values.length).map fun index => toString (index + 1) := by
    rw [List.range_eq_range', ← List.zipIdx_map_snd 0 values, List.map_map, List.map_map]
    rfl
  have hnodup : (pairs.map Prod.fst).Nodup := by
    rw [hkeys]
    refine List.nodup_range.map fun first second heq => ?_
    exact Nat.succ_injective (numeral_injective heq)
  have hentries : (Table.ofList pairs).entries = pairs := Table.entries_ofList hnodup
  constructor
  · rw [Frame.names, hframe, Table.keys, hentries, hkeys]
  · intro index hindex
    have hmem : (toString (index + 1), Slot.ready values[index]) ∈ pairs := by
      refine List.mem_map.mpr ⟨(values[index], index), ?_, rfl⟩
      rw [List.mem_zipIdx_iff_getElem?]
      exact List.getElem?_eq_getElem hindex
    have hfind : (Table.ofList pairs).find? (toString (index + 1)) =
        some (Slot.ready values[index]) :=
      Table.find?_of_mem (by rwa [Table.keys, hentries]) (by rwa [hentries])
    rw [Frame.get?, hframe, hfind, List.getElem?_eq_getElem hindex]
    rfl

/-! ## Outcomes that are all known -/

namespace Reference

variable {outcomes : List Outcome}

theorem known_eq_self (h : .pending ∉ outcomes) : known outcomes = outcomes := by
  rw [known, List.takeWhile_eq_self_iff]
  intro outcome hmem
  rw [decide_eq_true_iff]
  rintro rfl
  exact h hmem

/-- What the modes offer from one outcome is read off the value that it has. -/
theorem findSome?_offer? (mode : Mode) (outcomes : List Outcome) :
    outcomes.findSome? (offer? mode) =
      (outcomes.filterMap found?).findSome? fun value => offer? mode (.found value) := by
  induction outcomes with
  | nil => rfl
  | cons outcome rest ih =>
      cases outcome with
      | found value =>
          have hfound : found? (.found value) = some value := rfl
          rw [List.filterMap_cons_some hfound, List.findSome?_cons, List.findSome?_cons, ih]
      | _ => exact ih

/-- The verdict of a search when nothing is pending: the first obstacle or the list of all values
when all are looked for, and otherwise what the first suitable value offers. -/
def verdict (mode : Mode) (names : List String) (outcomes : List Outcome) : Verdict :=
  if mode = .all then
    match outcomes.findSome? obstacle? with
    | some (component, kind) => .failure (Search.drilled names component kind)
    | none => .list (outcomes.filterMap found?)
  else
    match (outcomes.filterMap found?).findSome? fun value => offer? mode (.found value) with
    | some value => .value value
    | none => failed mode names outcomes.length (outcomes.findSome? obstacle?)

theorem result?_eq (mode : Mode) (names : List String) (h : .pending ∉ outcomes) :
    result? mode names outcomes = some (verdict mode names outcomes) := by
  unfold result? verdict
  split
  · rw [every?, known_eq_self h, if_neg h]
    cases outcomes.findSome? obstacle? <;> rfl
  · rw [first?, known_eq_self h, if_neg h, findSome?_offer?]
    cases (outcomes.filterMap found?).findSome? fun value => offer? mode (.found value) <;> rfl

/-! ### What the modes take from the values -/

theorem findSome?_existential (values : List Value) :
    (values.findSome? fun value => offer? .existential (.found value)) =
      values.head?.map fun _ => .bool true := by
  cases values with
  | nil => rfl
  | cons value rest => rfl

theorem findSome?_contextual (values : List Value) :
    (values.findSome? fun value => offer? .contextual (.found value)) = values.head? := by
  cases values with
  | nil => rfl
  | cons value rest => rfl

theorem findSome?_coalescing (values : List Value) :
    (values.findSome? fun value => offer? .coalescing (.found value)) =
      values.find? (· ≠ .unit) := by
  induction values with
  | nil => rfl
  | cons value rest ih =>
      by_cases hunit : value = .unit
      · subst hunit
        exact ih
      · rw [List.findSome?_cons, List.find?_cons_of_pos (by simpa using hunit)]
        simp [offer?, hunit]

end Reference

namespace World

variable {κ : Type}

/-- A walk along frames that have been produced is not pending. -/
theorem walk_ne_pending {world : World κ} {root : FrameId} {names : List String} (component : Nat)
    (h : ∀ count frame, world.reach root (names.take count) = some frame → world.Complete frame) :
    world.walk component root names ≠ .pending := by
  induction names generalizing root component with
  | nil => simp [walk]
  | cons name rest ih =>
      have hroot : world.content root name ≠ some none := h 0 root rfl name
      cases hcontent : world.content root name with
      | none =>
          rw [walk_absent hcontent]
          simp
      | some state =>
          cases state with
          | none => exact absurd hcontent hroot
          | some value =>
              rw [walk_ready hcontent]
              cases rest with
              | nil => simp [walkOn]
              | cons next more =>
                  cases value with
                  | frame inner =>
                      refine ih (component + 1) fun count frame hreach => h (count + 1) frame ?_
                      rw [List.take_succ_cons, reach, hcontent]
                      exact hreach
                  | _ => simp [walkOn]

/-- In a calm world a search that has begun has ended, if its reference search is determined. -/
theorem Calm.answered {world : World κ} (h : world.Calm) {id : SearchId} {verdict : Verdict}
    (hstarted : (world.search id).started = true)
    (hverdict : world.reference? (world.search id).context (world.search id).names
      (world.search id).mode = some verdict) :
    ∃ result, (world.search id).result = some result ∧ world.Realises result verdict := by
  cases h.tended id with
  | unstarted _ hunstarted => exact absurd (hunstarted.started.symm.trans hstarted) (by simp)
  | running _ hrunning hundecided =>
      rw [hrunning.reference?_eq_none h.orderly hundecided] at hverdict
      cases hverdict
  | ended _ hended =>
      obtain ⟨result, hresult, other, hother, hrealises⟩ := hended.result
      obtain rfl : other = verdict := Option.some.inj (hother.symm.trans hverdict)
      exact ⟨result, hresult, hrealises⟩

/-! ## The modes -/

/-- A value, or the failure of a search that no frame supplies. -/
def foundOr (names : List String) (frames : Nat) : Option Value → Result
  | some value => .ok value
  | none => .error (.nameNotFound (".".intercalate names) frames)

/-- What the results of the four modes have to do with each other. -/
structure Agree (world : World κ) (context : List FrameId) (names : List String)
    (results : Mode → Result) : Prop where
  present : results .existential = .ok (.bool true) ↔ ∃ value, results .contextual = .ok value
  absent : results .existential = .ok (.bool false) ↔
    results .contextual = .error (.nameNotFound (".".intercalate names) context.length)
  obstructed : results .existential ≠ .ok (.bool true) → results .existential ≠ .ok (.bool false) →
    ∃ name component kind, results .contextual = .error (.notAFrame name component kind) ∧
      results .existential = .error (.notAFrame name component kind)
  listed : ∀ value, results .all = .ok value → ∃ frame values, value = .frame frame ∧
    (world.frame frame).Lists values ∧
    results .contextual = foundOr names context.length values.head? ∧
    results .coalescing = foundOr names context.length (values.find? (· ≠ .unit))
  /-- When a search for all values fails, a search for one fails in the same way, unless some frame
  supplies the path. -/
  refused : ∀ error, results .all = .error error →
    (∃ name component kind, error = .notAFrame name component kind) ∧
    ((∀ root ∈ context, ∀ value, world.walk 0 root names ≠ .found value) →
      results .contextual = .error error)

section Agree

variable {world : World κ} {context : List FrameId} {names : List String} {results : Mode → Result}

/-- All values are listed, and the other modes find the first of them that suits. -/
theorem agree_of_listed {frame : FrameId} {values : List Value}
    (hall : results .all = .ok (.frame frame)) (hlists : (world.frame frame).Lists values)
    (hexistential : results .existential = .ok (.bool values.head?.isSome))
    (hcontextual : results .contextual = foundOr names context.length values.head?)
    (hcoalescing : results .coalescing =
      foundOr names context.length (values.find? (· ≠ .unit))) :
    world.Agree context names results := by
  constructor
  case listed =>
    intro value hvalue
    obtain rfl : Value.frame frame = value := Except.ok.inj (hall.symm.trans hvalue)
    exact ⟨frame, values, rfl, hlists, hcontextual, hcoalescing⟩
  case refused =>
    intro error herror
    exact absurd (hall.symm.trans herror) (by simp)
  all_goals
    rw [hexistential, hcontextual]
    cases values <;> simp [foundOr]

variable {component : Nat} {kind : Kind}
  (hall : results .all = .error (Search.drilled names component kind))
include hall

/-- Something on the way is no frame, and no frame supplies the path. -/
theorem agree_of_obstructed
    (hexistential : results .existential = .error (Search.drilled names component kind))
    (hcontextual : results .contextual = .error (Search.drilled names component kind)) :
    world.Agree context names results := by
  constructor <;> simp [hexistential, hcontextual, hall, Search.drilled]

/-- Something on the way is no frame, but some frame supplies the path. -/
theorem agree_of_found {value : Value}
    (hfound : ¬ ∀ root ∈ context, ∀ value, world.walk 0 root names ≠ .found value)
    (hexistential : results .existential = .ok (.bool true))
    (hcontextual : results .contextual = .ok value) : world.Agree context names results := by
  constructor
  case refused =>
    intro error herror
    exact ⟨⟨_, _, _, (Except.error.inj (hall.symm.trans herror)).symm⟩,
      fun hnone => absurd hnone hfound⟩
  all_goals simp [hexistential, hcontextual, hall]

end Agree

/-- Nothing is found if no frame supplies the path. -/
theorem filterMap_found?_eq_nil {world : World κ} {context : List FrameId} {names : List String}
    (h : ∀ root ∈ context, ∀ value, world.walk 0 root names ≠ .found value) :
    (context.map fun root => world.walk 0 root names).filterMap Reference.found? = [] := by
  rw [List.filterMap_eq_nil_iff]
  intro outcome hmem
  obtain ⟨root, hroot, rfl⟩ := List.mem_map.mp hmem
  cases hwalk : world.walk 0 root names with
  | found value => exact absurd hwalk (h root hroot value)
  | _ => rfl

/-- The verdicts on the same outcomes agree. -/
theorem agree_of_realises {world : World κ} {context : List FrameId} {names : List String}
    {results : Mode → Result}
    (h : ∀ mode, world.Realises (results mode)
      (Reference.verdict mode names (context.map fun root => world.walk 0 root names))) :
    world.Agree context names results := by
  have hlength : (context.map fun root => world.walk 0 root names).length = context.length :=
    List.length_map _
  have hnothing := @filterMap_found?_eq_nil κ world context names
  have hexistential := h .existential
  have hcontextual := h .contextual
  have hcoalescing := h .coalescing
  have hall := h .all
  simp only [Reference.verdict, reduceCtorEq, if_false, if_true, hlength,
    Reference.findSome?_existential, Reference.findSome?_contextual,
    Reference.findSome?_coalescing] at hexistential hcontextual hcoalescing hall
  generalize (context.map fun root => world.walk 0 root names).filterMap Reference.found? = values
    at *
  generalize (context.map fun root => world.walk 0 root names).findSome? Reference.obstacle? =
    obstacle at *
  cases obstacle with
  | none =>
      obtain ⟨frame, hlist, -, hframe⟩ := hall
      refine agree_of_listed hlist (hframe ▸ lists_ofValues values) ?_ ?_ ?_
      · cases values <;> exact hexistential
      · cases values <;> exact hcontextual
      · cases hfind : values.find? (· ≠ .unit) <;> rw [hfind] at hcoalescing <;> exact hcoalescing
  | some obstacle =>
      obtain ⟨component, kind⟩ := obstacle
      cases values with
      | nil => exact agree_of_obstructed hall hexistential hcontextual
      | cons value rest =>
          have hfound : ¬ ∀ root ∈ context, ∀ value, world.walk 0 root names ≠ .found value :=
            fun hnone => absurd (hnothing hnone) (List.cons_ne_nil value rest)
          exact agree_of_found hall hfound hexistential hcontextual

/-- When four searches have been started for a path in the same frames, one of each mode, and
everything on the way has been produced, then all of them have ended, and their results agree. -/
theorem modes_agree {observe : Observer κ (StateM (Chronicle κ))} (hacting : Acting observe)
    {stage : Stage κ} (hran : Ran observe stage) {context : List FrameId} {names : List String}
    (hpath : Search.pathError? names = none) (id : Mode → SearchId)
    (hcontext : ∀ mode, (stage.1.search (id mode)).context = context)
    (hnames : ∀ mode, (stage.1.search (id mode)).names = names)
    (hmode : ∀ mode, (stage.1.search (id mode)).mode = mode)
    (hstarted : ∀ mode, (stage.1.search (id mode)).started = true)
    (hproduced : ∀ root ∈ context, ∀ count frame,
      stage.1.reach root (names.take count) = some frame → stage.1.Complete frame) :
    ∃ results : Mode → Result,
      (∀ mode, (stage.1.search (id mode)).result = some (results mode)) ∧
      stage.1.Agree context names results := by
  have hcalm : stage.1.Calm := calm_iff.mpr (hacting.arises hran).delivering
  have hknown : .pending ∉ context.map fun root => stage.1.walk 0 root names := by
    intro hmem
    obtain ⟨root, hroot, hwalk⟩ := List.mem_map.mp hmem
    exact walk_ne_pending 0 (hproduced root hroot) hwalk
  have hended : ∀ mode, ∃ result, (stage.1.search (id mode)).result = some result ∧
      stage.1.Realises result
        (Reference.verdict mode names (context.map fun root => stage.1.walk 0 root names)) := by
    intro mode
    refine hcalm.answered (hstarted mode) ?_
    rw [hcontext, hnames, hmode]
    simp only [reference?, hpath]
    exact Reference.result?_eq mode names hknown
  choose results hresults hrealises using hended
  exact ⟨results, hresults, agree_of_realises hrealises⟩

/-- The position of the search of each mode. -/
def seat : Mode → SearchId
  | .contextual => ⟨0⟩
  | .existential => ⟨1⟩
  | .coalescing => ⟨2⟩
  | .all => ⟨3⟩

/-- Four searches over a null and a pending attribute, which is produced at the end. -/
def fourCalls : List (Action Nat) :=
  [.addFrame [("a", some .unit)], .addFrame [("a", none)],
    .addSearch ⟨[⟨0⟩, ⟨1⟩]⟩ ["a"] .contextual, .addSearch ⟨[⟨0⟩, ⟨1⟩]⟩ ["a"] .existential,
    .addSearch ⟨[⟨0⟩, ⟨1⟩]⟩ ["a"] .coalescing, .addSearch ⟨[⟨0⟩, ⟨1⟩]⟩ ["a"] .all,
    .start ⟨0⟩, .start ⟨1⟩, .start ⟨2⟩, .start ⟨3⟩, .fulfil ⟨1⟩ "a" (.bool true)]

/-- The world and the chronicle after these calls. -/
def four : Stage Nat :=
  fourCalls.foldl (fun stage action => after (issue noting action) stage) (∅, [])

theorem ran_four : Ran noting four := by
  have hscalar : ∀ world : World Nat, world.Knows (.bool true) := by rintro world frame ⟨⟩
  have hnull : ∀ (world : World Nat) name value,
      (name, some value) ∈ [("a", some Value.unit)] → world.Knows value := by
    intro world name value hmem
    obtain ⟨-, rfl⟩ := by simpa using hmem
    rintro frame ⟨⟩
  have hpending : ∀ (world : World Nat) name value,
      (name, some value) ∈ [("a", (none : Option Value))] → world.Knows value := by simp
  have hempty : Ran (noting : Observer Nat _) (∅, []) := .refl
  have hfirst := hempty.call (.addFrame [("a", some .unit)]) (hnull _)
  have hframes := hfirst.call (.addFrame [("a", none)]) (hpending _)
  have hcontextual := hframes.call (.addSearch ⟨[⟨0⟩, ⟨1⟩]⟩ ["a"] .contextual)
    (by unfold Action.Possible Action.Valid; decide +kernel)
  have hexistential := hcontextual.call (.addSearch ⟨[⟨0⟩, ⟨1⟩]⟩ ["a"] .existential)
    (by unfold Action.Possible Action.Valid; decide +kernel)
  have hcoalescing := hexistential.call (.addSearch ⟨[⟨0⟩, ⟨1⟩]⟩ ["a"] .coalescing)
    (by unfold Action.Possible Action.Valid; decide +kernel)
  have hall := hcoalescing.call (.addSearch ⟨[⟨0⟩, ⟨1⟩]⟩ ["a"] .all)
    (by unfold Action.Possible Action.Valid; decide +kernel)
  have hstarts := (((hall.call (.start ⟨0⟩) (by unfold Action.Possible; decide +kernel)).call
    (.start ⟨1⟩) (by unfold Action.Possible; decide +kernel)).call
    (.start ⟨2⟩) (by unfold Action.Possible; decide +kernel)).call
    (.start ⟨3⟩) (by unfold Action.Possible; decide +kernel)
  have hfulfil := hstarts.call (.fulfil ⟨1⟩ "a" (.bool true)) (hscalar _)
  simpa only [four, fourCalls, List.foldl_cons, List.foldl_nil] using hfulfil

theorem modes_agree_four : ∃ results : Mode → Result,
    (∀ mode, (four.1.search (seat mode)).result = some (results mode)) ∧
      four.1.Agree [⟨0⟩, ⟨1⟩] ["a"] results := by
  have hpath : Search.pathError? ["a"] = none := by decide +kernel
  have hcontext : ∀ mode, (four.1.search (seat mode)).context = [⟨0⟩, ⟨1⟩] := by
    intro mode
    cases mode <;> decide +kernel
  have hnames : ∀ mode, (four.1.search (seat mode)).names = ["a"] := by
    intro mode
    cases mode <;> decide +kernel
  have hmode : ∀ mode, (four.1.search (seat mode)).mode = mode := by
    intro mode
    cases mode <;> decide +kernel
  have hstarted : ∀ mode, (four.1.search (seat mode)).started = true := by
    intro mode
    cases mode <;> decide +kernel
  have hcomplete : ∀ root ∈ [(⟨0⟩ : FrameId), ⟨1⟩], four.1.Complete root ∧
      four.1.reach root ["a"] = none := by
    intro root hroot
    have hslots : (four.1.frame root).slots.entries = [("a", .ready .unit)] ∨
        (four.1.frame root).slots.entries = [("a", .ready (.bool true))] := by
      revert root
      decide +kernel
    refine ⟨fun name => ?_, ?_⟩
    · unfold content Table.find?
      rcases hslots with hslots | hslots <;>
        by_cases hname : "a" = name <;> simp [hslots, Table.findIn, hname, Slot.value?]
    · revert root
      decide +kernel
  refine modes_agree acting_noting ran_four hpath seat hcontext hnames hmode hstarted ?_
  intro root hroot count frame hreach
  cases count with
  | zero =>
      obtain rfl : root = frame := Option.some.inj hreach
      exact (hcomplete root hroot).1
  | succ count =>
      rw [List.take_succ_cons, List.take_nil, (hcomplete root hroot).2] at hreach
      cases hreach

end World

end FrameLang
