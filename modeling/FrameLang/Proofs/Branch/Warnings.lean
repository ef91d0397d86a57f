import FrameLang.Proofs.Branch.Transcripts
import Mathlib.Data.Finset.Card

/-!
# Warnings about too many paths

The branches of the scopes around a point multiply.  A walk warns about a scope when a
visit of it, in the branches around it, comes to more paths than the options allow, and
it does so once, however often that happens again
(`Walk.warned_once_per_scope`).  The warning says where, and how many paths there are
(`Walk.Announces`).

## Strategy

The walk counts paths in 64 bits, and stops at the largest number of that size.  A count
that has stopped there stays there, so the count of a walk is the product of all
branches around the point, cut off at that number (`multiply_eq_min`).

What a stretch of a run adds to the warnings is read off its transcript (`Warns`): the
calls that come to too many paths, without those in scopes that have been warned about
before.  Stretches that follow each other add one after the other (`Warns.append`).
-/

namespace FrameLang

namespace Walk

variable {analysis : Analysis} {σ α : Type}

/-! ## Counting beyond 64 bits -/

theorem min_mul_min {paths count ceiling : Nat} (hcount : 0 < count) :
    min (min paths ceiling * count) ceiling = min (paths * count) ceiling := by
  rcases Nat.le_total paths ceiling with hle | hge
  · rw [Nat.min_eq_left hle]
  · rw [Nat.min_eq_right hge]
    have hceiling : ceiling ≤ ceiling * count := Nat.le_mul_of_pos_right _ hcount
    have hpaths : ceiling ≤ paths * count := Nat.le_trans hge (Nat.le_mul_of_pos_right _ hcount)
    rw [Nat.min_eq_right hceiling, Nat.min_eq_right hpaths]

/-- The paths are multiplied by the number of branches, and cut off at what 64 bits hold. -/
theorem multiply_eq_min {dispatch : List Loaded}
    (hkinds : ∀ loaded ∈ dispatch, loaded.possible ≠ ∅) (paths : Nat) :
    multiply (min paths pathCeiling) dispatch =
      min (paths * Entrance.degree dispatch) pathCeiling := by
  induction dispatch generalizing paths with
  | nil => rw [Entrance.degree, List.map_nil, List.prod_nil, Nat.mul_one]; rfl
  | cons loaded rest ih =>
      obtain ⟨hfirst, hrest⟩ := List.forall_mem_cons.mp hkinds
      have hsize : 0 < loaded.possible.size := Kinds.size_pos hfirst
      calc multiply (min paths pathCeiling) (loaded :: rest)
          = multiply (min (min paths pathCeiling * max loaded.possible.size 1) pathCeiling)
              rest := rfl
        _ = multiply (min (paths * loaded.possible.size) pathCeiling) rest := by
          rw [Nat.max_eq_left hsize, min_mul_min hsize]
        _ = min (paths * loaded.possible.size * Entrance.degree rest) pathCeiling := ih hrest _
        _ = min (paths * Entrance.degree (loaded :: rest)) pathCeiling := by
          rw [Nat.mul_assoc, Entrance.degree, Entrance.degree, List.map_cons, List.prod_cons]

/-- Whatever is dispatched over has some kind. -/
theorem possible_ne_empty_of_enter? {scope : ScopeId} {specials : List Special}
    {current : Option Cache} {entrance : Entrance}
    (h : analysis.enter? scope specials current = .ok entrance) :
    ∀ loaded ∈ entrance.dispatch, loaded.possible ≠ ∅ := by
  obtain ⟨-, fetched, -, hsettled⟩ := Analysis.exists_fetched_of_enter? h
  obtain ⟨dispatched, -, hdispatch, hpossible⟩ := Analysis.dispatch_of_foldlM hsettled
  rw [hdispatch]
  exact hpossible

/-- Inside a scope the paths are counted in full, if they are around it. -/
theorem paths_enter_eq_min {scope : ScopeId} {specials : List Special} {current : Option Cache}
    {entrance : Entrance} (henter : analysis.enter? scope specials current = .ok entrance)
    {walk : Walk} {around : Nat} (hpaths : walk.paths = min around pathCeiling) :
    (enter analysis scope entrance.dispatch walk).paths =
      min (around * Entrance.degree entrance.dispatch) pathCeiling := by
  rw [paths_enter, hpaths, multiply_eq_min (possible_ne_empty_of_enter? henter)]

theorem Performs.paths {around : Nat} {program : StateT Walk (StateM σ) α} {state : Walk × σ}
    {calls : List (Call σ)} (h : Performs analysis around program state calls) :
    (after program state).1.paths = state.1.paths := by
  induction h with
  | own around step state => rfl
  | look around state => rfl
  | bind h h' ih ih' => exact ih'.trans ih
  | @refused around scope specials current body state refusal henter =>
      rw [after_visit_error henter]
      cases refusal <;> rfl
  | entered henter h ih => rw [after_visit_ok henter]

/-! ## Calls that come to too many paths -/

namespace Call

/-- The number of paths that a call comes to: those around it times its own branches.  A call
that is refused comes to none. -/
def paths? (analysis : Analysis) (call : Call σ) : Option Nat :=
  match call.outcome analysis with
  | .error _ => none
  | .ok visited => some (min (call.around *
      (visited.dispatch.map fun loaded => loaded.possible.size).prod) pathCeiling)

/-- The scope of a call that comes to more paths than are allowed, and their number. -/
def excess? (analysis : Analysis) (call : Call σ) : Option (ScopeId × Nat) :=
  (call.paths? analysis).bind fun paths =>
    if analysis.options.dispatchPathLimit < paths then some (call.scope, paths) else none

end Call

/-- The excesses in scopes that are not known, the first one in each. -/
def fresh : List ScopeId → List (ScopeId × Nat) → List (ScopeId × Nat)
  | _, [] => []
  | known, excess :: rest =>
      if excess.1 ∈ known then fresh known rest
      else excess :: fresh (excess.1 :: known) rest

/-- The scopes that are known after some excesses. -/
def known (before : List ScopeId) (excesses : List (ScopeId × Nat)) : List ScopeId :=
  ((fresh before excesses).map Prod.fst).reverse ++ before

theorem fresh_append (before : List ScopeId) (excesses more : List (ScopeId × Nat)) :
    fresh before (excesses ++ more) =
      fresh before excesses ++ fresh (known before excesses) more := by
  induction excesses generalizing before with
  | nil => rfl
  | cons excess rest ih =>
      rw [List.cons_append, fresh, known, fresh]
      by_cases hmem : excess.1 ∈ before
      · rw [if_pos hmem, if_pos hmem, ih, known]
      · rw [if_neg hmem, if_neg hmem, ih, known, List.cons_append, List.map_cons,
          List.reverse_cons, List.append_assoc, List.singleton_append]

/-- Those that are fresh are the first of their scopes. -/
theorem fresh_eq_eraseDupsBy (before : List ScopeId) (excesses : List (ScopeId × Nat)) :
    fresh before excesses =
      (excesses.filter fun excess => excess.1 ∉ before).eraseDupsBy
        fun later earlier => later.1 == earlier.1 := by
  induction excesses generalizing before with
  | nil => rfl
  | cons excess rest ih =>
      rw [fresh, List.filter_cons]
      by_cases hmem : excess.1 ∈ before
      · simp [hmem, ih]
      · have hrest : (rest.filter fun other => other.1 ∉ excess.1 :: before) =
            (rest.filter fun other => other.1 ∉ before).filter fun other =>
              (other.1 == excess.1) = false := by
          rw [List.filter_filter]
          refine List.filter_congr fun other _ => ?_
          simp [not_or]
        rw [if_neg hmem, if_pos (by simpa using hmem), List.eraseDupsBy_cons, ih, hrest]

theorem mem_map_fresh {before : List ScopeId} {excesses : List (ScopeId × Nat)}
    {scope : ScopeId} : scope ∈ (fresh before excesses).map Prod.fst ↔
      scope ∈ excesses.map Prod.fst ∧ scope ∉ before := by
  induction excesses generalizing before with
  | nil => simp [fresh]
  | cons excess rest ih =>
      rw [fresh]
      by_cases hmem : excess.1 ∈ before
      · rw [if_pos hmem, ih, List.map_cons, List.mem_cons]
        constructor
        · rintro ⟨hrest, hnot⟩
          exact ⟨.inr hrest, hnot⟩
        · rintro ⟨rfl | hrest, hnot⟩
          · exact absurd hmem hnot
          · exact ⟨hrest, hnot⟩
      · rw [if_neg hmem, List.map_cons, List.mem_cons, ih, List.map_cons, List.mem_cons,
          List.mem_cons]
        by_cases heq : scope = excess.1
        · simp [heq, hmem]
        · simp [heq]

theorem nodup_map_fresh (before : List ScopeId) (excesses : List (ScopeId × Nat)) :
    ((fresh before excesses).map Prod.fst).Nodup := by
  induction excesses generalizing before with
  | nil => exact List.nodup_nil
  | cons excess rest ih =>
      rw [fresh]
      split
      · exact ih before
      · rw [List.map_cons, List.nodup_cons]
        refine ⟨fun hmem => ?_, ih _⟩
        exact (mem_map_fresh.mp hmem).2 List.mem_cons_self

/-! ## What a stretch of a run warns about -/

/-- The warnings that a stretch of a run adds are those about its fresh excesses. -/
structure Warns (analysis : Analysis) (before after : Walk) (excesses : List (ScopeId × Nat)) :
    Prop where
  warned : after.warned = known before.warned excesses
  warnings : after.report.warnings = before.report.warnings ++
    (fresh before.warned excesses).map fun excess => explosion analysis excess.1 excess.2
  total : after.report.totalWarnings =
    before.report.totalWarnings + (fresh before.warned excesses).length

theorem Warns.refl (walk : Walk) : Warns analysis walk walk [] :=
  ⟨rfl, (List.append_nil _).symm, rfl⟩

theorem Warns.append {first second third : Walk} {excesses more : List (ScopeId × Nat)}
    (h : Warns analysis first second excesses) (h' : Warns analysis second third more) :
    Warns analysis first third (excesses ++ more) := by
  obtain ⟨hwarned, hwarnings, htotal⟩ := h
  obtain ⟨hwarned', hwarnings', htotal'⟩ := h'
  rw [hwarned] at hwarned' hwarnings' htotal'
  refine ⟨?_, ?_, ?_⟩
  · rw [hwarned', known, known, known, fresh_append, List.map_append, List.reverse_append,
      List.append_assoc]
    rfl
  · rw [hwarnings', hwarnings, fresh_append, List.map_append, List.append_assoc]
  · rw [htotal', htotal, fresh_append, List.length_append, Nat.add_assoc]

/-- Entering a scope warns about it if there are too many paths, unless it is known. -/
theorem warns_enter (scope : ScopeId) (dispatch : List Loaded) (walk : Walk) :
    Warns analysis walk (enter analysis scope dispatch walk)
      (if analysis.options.dispatchPathLimit < multiply walk.paths dispatch
        then some (scope, multiply walk.paths dispatch) else none).toList := by
  unfold enter
  by_cases hexcess : analysis.options.dispatchPathLimit < multiply walk.paths dispatch
  · rw [if_pos hexcess, Option.toList_some]
    by_cases hmem : scope ∈ walk.warned
    · simp only [hexcess, hmem, decide_true, Bool.not_true, Bool.and_false, Bool.false_eq_true,
        ↓reduceIte]
      constructor <;> simp [known, fresh, hmem]
    · simp only [hexcess, hmem, decide_true, decide_false, Bool.not_false, Bool.and_self,
        ↓reduceIte]
      constructor <;> simp [known, fresh, hmem, Report.addWarning]
  · rw [if_neg hexcess, Option.toList_none]
    simp only [hexcess, decide_false, Bool.false_and, Bool.false_eq_true, ↓reduceIte]
    exact ⟨rfl, (List.append_nil _).symm, rfl⟩

/-- Entering the scope of a call warns about its excess, if it has any. -/
theorem Call.warns (call : Call σ) {entrance : Entrance}
    (henter : analysis.enter? call.scope call.specials call.current = .ok entrance)
    (hpaths : call.before.1.paths = min call.around pathCeiling) :
    Warns analysis call.before.1 (enter analysis call.scope entrance.dispatch call.before.1)
      (call.excess? analysis).toList := by
  have hcount : multiply call.before.1.paths entrance.dispatch =
      min (call.around * Entrance.degree entrance.dispatch) pathCeiling :=
    (paths_enter call.scope _ _).symm.trans (paths_enter_eq_min henter hpaths)
  have hexcess : call.excess? analysis =
      if analysis.options.dispatchPathLimit < multiply call.before.1.paths entrance.dispatch
        then some (call.scope, multiply call.before.1.paths entrance.dispatch) else none := by
    rw [excess?, paths?, outcome, result_visit, henter, hcount]
    rfl
  rw [hexcess]
  exact warns_enter call.scope entrance.dispatch call.before.1

theorem Call.excess?_of_error {call : Call σ} {refusal : Refusal}
    (henter : analysis.enter? call.scope call.specials call.current = .error refusal) :
    call.excess? analysis = none := by
  rw [excess?, paths?, outcome, result_visit, henter]
  rfl

/-- The excesses of some calls, in the order of the calls. -/
def excesses (analysis : Analysis) (calls : List (Call σ)) : List (ScopeId × Nat) :=
  calls.filterMap (Call.excess? analysis)

theorem excesses_append (calls more : List (Call σ)) :
    excesses analysis (calls ++ more) = excesses analysis calls ++ excesses analysis more :=
  List.filterMap_append

theorem excesses_cons (call : Call σ) (calls : List (Call σ)) :
    excesses analysis (call :: calls) =
      (call.excess? analysis).toList ++ excesses analysis calls := by
  rw [excesses, List.filterMap_cons]
  cases call.excess? analysis <;> rfl

/-- A refusal reports no warning. -/
theorem warns_refuse (scope : ScopeId) (refusal : Refusal) (walk : Walk) :
    Warns analysis walk (refuse analysis scope refusal walk) [] := by
  cases refusal <;> exact ⟨rfl, (List.append_nil _).symm, rfl⟩

/-- A program warns about the fresh excesses of its transcript.  The paths are counted in full
where each call is made. -/
theorem Performs.warns {around : Nat} {program : StateT Walk (StateM σ) α} {state : Walk × σ}
    {calls : List (Call σ)} (h : Performs analysis around program state calls)
    (hpaths : state.1.paths = min around pathCeiling) :
    (∀ call ∈ calls, call.before.1.paths = min call.around pathCeiling) ∧
      Warns analysis state.1 (after program state).1 (excesses analysis calls) := by
  induction h with
  | own around step state => exact ⟨by simp, .refl state.1⟩
  | look around state => exact ⟨by simp, .refl state.1⟩
  | bind h h' ih ih' =>
      obtain ⟨hcalls, hfirst⟩ := ih hpaths
      obtain ⟨hmore, hsecond⟩ := ih' (h.paths.trans hpaths)
      rw [excesses_append]
      exact ⟨List.forall_mem_append.mpr ⟨hcalls, hmore⟩, hfirst.append hsecond⟩
  | @refused around scope specials current body state refusal henter =>
      rw [after_visit_error henter, excesses_cons, Call.excess?_of_error henter]
      exact ⟨by simpa using hpaths, warns_refuse scope refusal state.1⟩
  | @entered around scope specials current body state entrance calls henter h ih =>
      have henters := Call.warns ⟨scope, specials, current, body, state, around⟩ henter hpaths
      obtain ⟨hinner, hwarns⟩ := ih (paths_enter_eq_min henter hpaths)
      obtain ⟨hwarned, hwarnings, htotal⟩ := henters.append hwarns
      rw [after_visit_ok henter, excesses_cons]
      exact ⟨List.forall_mem_cons.mpr ⟨hpaths, hinner⟩, hwarned, hwarnings, htotal⟩

/-- When a call is made, there have been the warnings about the calls before it. -/
theorem Performs.warns_before {around : Nat} {program : StateT Walk (StateM σ) α}
    {state : Walk × σ} {calls : List (Call σ)} (h : Performs analysis around program state calls)
    (hpaths : state.1.paths = min around pathCeiling) :
    ∀ earlier call later, calls = earlier ++ call :: later →
      Warns analysis state.1 call.before.1 (excesses analysis earlier) := by
  induction h with
  | own around step state => simp
  | look around state => simp
  | @bind α β around first next state calls more h h' ih ih' =>
      intro earlier call later heq
      have hsecond := h.paths.trans hpaths
      -- the call is made by the second program, or by the first one
      rcases List.append_eq_append_iff.mp heq with
        ⟨between, hearlier, hmore⟩ | ⟨between, hcalls, hmore⟩
      · rw [hearlier, excesses_append]
        exact (h.warns hpaths).2.append (ih' hsecond between call later hmore)
      · cases between with
        | nil =>
            have hwarns := (h.warns hpaths).2.append (ih' hsecond [] call later hmore.symm)
            rwa [← excesses_append, List.append_nil, hcalls, List.append_nil] at hwarns
        | cons other rest =>
            obtain ⟨rfl, hrest⟩ := List.cons.inj hmore
            exact ih hpaths earlier call rest hcalls
  | @refused around scope specials current body state refusal henter =>
      intro earlier call later heq
      cases earlier with
      | nil =>
          obtain ⟨rfl, -⟩ := List.cons.inj heq
          exact .refl state.1
      | cons other rest => simp at heq
  | @entered around scope specials current body state entrance calls henter h ih =>
      intro earlier call later heq
      cases earlier with
      | nil =>
          obtain ⟨rfl, -⟩ := List.cons.inj heq
          exact .refl state.1
      | cons first rest =>
          obtain ⟨rfl, hrest⟩ := List.cons.inj heq
          have henters := Call.warns ⟨scope, specials, current, body, state, around⟩ henter hpaths
          rw [excesses_cons]
          exact henters.append (ih (paths_enter_eq_min henter hpaths) rest call later hrest)

/-! ## Whole programs -/

/-- What a warning says about a scope and the number of paths that a call in it has come to. -/
structure Announces (analysis : Analysis) (excess : ScopeId × Nat) (warning : Diagnostic) :
    Prop where
  file : warning.file = analysis.file
  code : warning.code = .dispatchExplosion
  severity : warning.severity = .warning
  category : warning.category = .dispatch
  message : warning.message =
    s!"There are {excess.2} type-derived flows in the generated code. " ++
      "This will be slow to compile."
  span : warning.span = (analysis.tree.scope excess.1).span
  conflict : warning.conflict = none
  suggestion : warning.suggestion = none

theorem announces_explosion (analysis : Analysis) (excess : ScopeId × Nat) :
    Announces analysis excess (explosion analysis excess.1 excess.2) :=
  ⟨rfl, rfl, rfl, rfl, rfl, rfl, rfl, rfl⟩

theorem announces_explosions (analysis : Analysis) (excesses : List (ScopeId × Nat)) :
    List.Forall₂ (Announces analysis) excesses
      (excesses.map fun excess => explosion analysis excess.1 excess.2) := by
  rw [List.forall₂_map_right_iff, List.forall₂_same]
  exact fun excess _ => announces_explosion analysis excess

/-- All that announce something have the code of too many paths. -/
theorem filter_code_of_announces {excesses : List (ScopeId × Nat)} {warnings : List Diagnostic}
    (h : List.Forall₂ (Announces analysis) excesses warnings) :
    warnings.filter (·.code = .dispatchExplosion) = warnings := by
  induction h with
  | nil => rfl
  | cons hfirst _ ih => rw [List.filter_cons, if_pos (by simp [hfirst.code]), ih]

/-- The first excess in each scope, in the order of the calls. -/
def firstExcesses (analysis : Analysis) (calls : List (Call σ)) : List (ScopeId × Nat) :=
  (excesses analysis calls).eraseDupsBy fun later earlier => later.1 == earlier.1

/-- The warnings that a program gives, given the calls that it makes. -/
structure WarnedOnce (analysis : Analysis) (calls : List (Call σ)) (last : Walk) : Prop where
  /-- Where a call is made, there are as many paths as the calls around it have branches. -/
  counted : ∀ call ∈ calls, call.before.1.paths = min call.around pathCeiling
  /-- The warnings announce the first excess in each scope, in the order of the calls. -/
  warnings : List.Forall₂ (Announces analysis) (firstExcesses analysis calls) last.report.warnings
  /-- There are as many of them as there are scopes with an excess. -/
  number : (last.report.warnings.filter (·.code = .dispatchExplosion)).length =
    ((excesses analysis calls).map Prod.fst).toFinset.card
  total : last.report.totalWarnings = ((excesses analysis calls).map Prod.fst).toFinset.card
  /-- When a call is made, there have been the warnings about the calls before it. -/
  moments : ∀ earlier call later, calls = earlier ++ call :: later →
    List.Forall₂ (Announces analysis) (firstExcesses analysis earlier)
      call.before.1.report.warnings

/-- At the start no scope is known. -/
theorem fresh_nil (calls : List (Call σ)) :
    fresh [] (excesses analysis calls) = firstExcesses analysis calls := by
  rw [fresh_eq_eraseDupsBy, firstExcesses]
  simp

theorem length_firstExcesses (calls : List (Call σ)) :
    (firstExcesses analysis calls).length =
      ((excesses analysis calls).map Prod.fst).toFinset.card := by
  have hsame : ((fresh [] (excesses analysis calls)).map Prod.fst).toFinset =
      ((excesses analysis calls).map Prod.fst).toFinset := by
    ext scope
    rw [List.mem_toFinset, List.mem_toFinset, mem_map_fresh]
    simp
  rw [← hsame, List.toFinset_card_of_nodup (nodup_map_fresh [] _), List.length_map, fresh_nil]

/-- What a program has added to the warnings when it has started with none. -/
theorem Warns.announces {before after : Walk} {calls : List (Call σ)}
    (h : Warns analysis before after (excesses analysis calls)) (hknown : before.warned = [])
    (hnone : before.report.warnings = []) :
    List.Forall₂ (Announces analysis) (firstExcesses analysis calls) after.report.warnings := by
  have hwarnings := h.warnings
  rw [hknown, hnone, List.nil_append, fresh_nil] at hwarnings
  rw [hwarnings]
  exact announces_explosions analysis _

/-- There is one warning about each scope in which some visit comes to too many paths.

The visits of a program, in the order in which they are made, each come to a number of paths: those
of the branches around it times its own branches, as far as 64 bits go.  Those that are refused come
to none.  The program warns about the scopes in which this number exceeds the limit, about each
when it is first exceeded there.  The warning names the number that the visit has come to then, and
the region of the scope in the file. -/
theorem warned_once_per_scope {program : StateT Walk (StateM σ) α}
    (hprogram : Calls analysis program) (own : σ) :
    (∃ calls, Performs analysis 1 program (start, own) calls) ∧
      ∀ calls, Performs analysis 1 program (start, own) calls →
        WarnedOnce analysis calls (after program (start, own)).1 := by
  refine ⟨hprogram.exists_performs 1 _, fun calls h => ?_⟩
  obtain ⟨hcounted, hwarns⟩ := h.warns rfl
  have hannounces := hwarns.announces rfl rfl
  constructor
  case counted => exact hcounted
  case warnings => exact hannounces
  case number =>
    rw [filter_code_of_announces hannounces, ← hannounces.length_eq, length_firstExcesses]
  case total =>
    have htotal := hwarns.total
    rw [show (start : Walk).warned = [] from rfl, fresh_nil, length_firstExcesses] at htotal
    exact htotal.trans (Nat.zero_add _)
  case moments =>
    intro earlier call later heq
    exact (h.warns_before rfl earlier call later heq).announces rfl rfl

/-- A generator that visits the inner scope of a sum once from outside, and once more in each of the
four branches of the outer one: only there are the paths too many, and there is one warning. -/
theorem warned_once_per_scope_nestedSum :
    ∃ (program : StateT Walk (StateM Unit) Unit) (calls : List (Call Unit)),
      Calls (analyse Analysis.nestedSum "sum" ⟨true, 8⟩) program ∧
      Performs (analyse Analysis.nestedSum "sum" ⟨true, 8⟩) 1 program (start, ()) calls ∧
      WarnedOnce (analyse Analysis.nestedSum "sum" ⟨true, 8⟩) calls
        (after program (start, ())).1 ∧
      (after program (start, ())).1.report.warnings =
        [⟨"sum", .dispatchExplosion, .warning, .dispatch,
          "There are 32 type-derived flows in the generated code. This will be slow to compile.",
          .nowhere, none, none⟩] ∧
      ((excesses (analyse Analysis.nestedSum "sum" ⟨true, 8⟩) calls).map
        Prod.fst).toFinset.card = 1 := by
  let inner : StateT Walk (StateM Unit) Unit :=
    visit (analyse Analysis.nestedSum "sum" ⟨true, 8⟩) ⟨2⟩ [] none
      (fun _ => StateT.lift (pure ())) >>= fun _ => StateT.lift (pure ())
  have hinner : Calls (analyse Analysis.nestedSum "sum" ⟨true, 8⟩) inner :=
    .bind (.visit fun _ => .own _) fun _ => .own _
  let program : StateT Walk (StateM Unit) Unit :=
    inner >>= fun _ =>
      visit (analyse Analysis.nestedSum "sum" ⟨true, 8⟩) ⟨1⟩ [] none (fun _ => inner) >>= fun _ =>
        StateT.lift (pure ())
  have hprogram : Calls (analyse Analysis.nestedSum "sum" ⟨true, 8⟩) program :=
    .bind hinner fun _ => .bind (.visit fun _ => hinner) fun _ => .own _
  have hreport : (after program (start, ())).1.report.warnings =
      [⟨"sum", .dispatchExplosion, .warning, .dispatch,
        "There are 32 type-derived flows in the generated code. This will be slow to compile.",
        .nowhere, none, none⟩] := by
    decide +kernel
  obtain ⟨⟨calls, hcalls⟩, hall⟩ := warned_once_per_scope hprogram ()
  have honce := hall calls hcalls
  have hnumber := honce.number
  rw [hreport] at hnumber
  exact ⟨program, calls, hprogram, hcalls, honce, hreport, hnumber.symm⟩

end Walk

end FrameLang
