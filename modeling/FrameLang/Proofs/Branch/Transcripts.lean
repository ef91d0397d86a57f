import FrameLang.Proofs.Branch.Violations

/-!
# Transcripts of walks

A generator visits scopes one after the other, and further scopes in their branches.
This file lists the calls that a program makes in all, in the order in which they are
made and with the state in which each is made (`Walk.Performs`), and says what a single
one of them leaves behind (`Walk.calls_transactional`): the paths are counted as before,
and a call that is refused has done nothing but report why.

## Strategy

A transcript follows the program: a call comes before those that are made in its
branches, and these come before whatever is done after it.  Every program has one
(`Calls.exists_performs`).

How often a body is run cannot be read off the state that it leaves.  So it is run once
more with a body that does the same and keeps a tally (`tallied`).
-/

namespace FrameLang

namespace Walk

variable {analysis : Analysis} {σ α : Type}

/-! ## Calls -/

/-- A visit and the state in which it is made. -/
structure Call (σ : Type) where
  scope : ScopeId
  specials : List Special
  current : Option Cache
  body : Cache → StateT Walk (StateM σ) Unit
  before : Walk × σ
  /-- The number of branches that all the calls around this one multiply into. -/
  around : Nat

/-- The calls that a program makes, with those around the program counted as given. -/
inductive Performs (analysis : Analysis) {σ : Type} :
    {α : Type} → Nat → StateT Walk (StateM σ) α → Walk × σ → List (Call σ) → Prop where
  | own {α : Type} (around : Nat) (step : StateM σ α) (state : Walk × σ) :
      Performs analysis around (StateT.lift step : StateT Walk (StateM σ) α) state []
  | look (around : Nat) (state : Walk × σ) :
      Performs analysis around (get : StateT Walk (StateM σ) Walk) state []
  | bind {α β : Type} {around : Nat} {first : StateT Walk (StateM σ) α}
      {next : α → StateT Walk (StateM σ) β} {state : Walk × σ} {calls more : List (Call σ)}
      (h : Performs analysis around first state calls)
      (h' : Performs analysis around (next (result first state)) (after first state) more) :
      Performs analysis around (first >>= next) state (calls ++ more)
  /-- A call that is refused is the only one. -/
  | refused {around : Nat} {scope : ScopeId} {specials : List Special} {current : Option Cache}
      {body : Cache → StateT Walk (StateM σ) Unit} {state : Walk × σ} {refusal : Refusal}
      (henter : analysis.enter? scope specials current = .error refusal) :
      Performs analysis around (visit analysis scope specials current body) state
        [⟨scope, specials, current, body, state, around⟩]
  /-- Other calls are followed by those that are made in their branches. -/
  | entered {around : Nat} {scope : ScopeId} {specials : List Special} {current : Option Cache}
      {body : Cache → StateT Walk (StateM σ) Unit} {state : Walk × σ} {entrance : Entrance}
      {calls : List (Call σ)}
      (henter : analysis.enter? scope specials current = .ok entrance)
      (h : Performs analysis (around * Entrance.degree entrance.dispatch)
        (entrance.caches.forM body) (enter analysis scope entrance.dispatch state.1, state.2)
        calls) :
      Performs analysis around (visit analysis scope specials current body) state
        (⟨scope, specials, current, body, state, around⟩ :: calls)

/-- Runs one after the other make the calls that each of them makes. -/
theorem exists_performs_forM {body : Cache → StateT Walk (StateM σ) Unit}
    (hbody : ∀ cache around state, ∃ calls, Performs analysis around (body cache) state calls)
    (caches : List Cache) (around : Nat) (state : Walk × σ) :
    ∃ calls, Performs analysis around (caches.forM body) state calls := by
  induction caches generalizing state with
  | nil => exact ⟨[], .own around (pure ()) state⟩
  | cons cache rest ih =>
      obtain ⟨calls, hcalls⟩ := hbody cache around state
      obtain ⟨more, hmore⟩ := ih (after (body cache) state)
      exact ⟨calls ++ more, .bind hcalls hmore⟩

/-- Every program has a transcript. -/
theorem Calls.exists_performs {program : StateT Walk (StateM σ) α} (h : Calls analysis program)
    (around : Nat) (state : Walk × σ) :
    ∃ calls, Performs analysis around program state calls := by
  induction h generalizing around state with
  | own step => exact ⟨[], .own around step state⟩
  | look => exact ⟨[], .look around state⟩
  | @bind α β first next h h' ih ih' =>
      obtain ⟨calls, hcalls⟩ := ih around state
      obtain ⟨more, hmore⟩ := ih' (result first state) around (after first state)
      exact ⟨calls ++ more, .bind hcalls hmore⟩
  | @visit scope specials current body h ih =>
      cases henter : analysis.enter? scope specials current with
      | error refusal => exact ⟨_, .refused henter⟩
      | ok entrance =>
          obtain ⟨calls, hcalls⟩ := exists_performs_forM ih entrance.caches
            (around * Entrance.degree entrance.dispatch)
            (enter analysis scope entrance.dispatch state.1, state.2)
          exact ⟨_, .entered henter hcalls⟩

/-! ## Counting runs -/

/-- A body that does what another one does, and keeps a tally of its runs. -/
def tallied (body : Cache → StateT Walk (StateM σ) Unit) (cache : Cache) :
    StateT Walk (StateM (σ × Nat)) Unit :=
  fun walk own =>
    let ended := after (body cache) (walk, own.1)
    (((), ended.1), (ended.2, own.2 + 1))

theorem after_forM_tallied (body : Cache → StateT Walk (StateM σ) Unit) (caches : List Cache)
    (state : Walk × σ) (tally : Nat) :
    after (caches.forM (tallied body)) (state.1, (state.2, tally)) =
      ((after (caches.forM body) state).1, ((after (caches.forM body) state).2,
        tally + caches.length)) := by
  induction caches generalizing state tally with
  | nil => rfl
  | cons cache rest ih =>
      calc after ((cache :: rest).forM (tallied body)) (state.1, (state.2, tally))
          = after (rest.forM (tallied body))
              ((after (body cache) state).1, ((after (body cache) state).2, tally + 1)) := rfl
        _ = _ := ih (after (body cache) state) (tally + 1)
        _ = _ := by
          rw [List.length_cons, Nat.add_assoc, Nat.add_comm 1]
          rfl

namespace Call

/-- What the call comes to. -/
def outcome (analysis : Analysis) (call : Call σ) : Except Refusal Visited :=
  result (visit analysis call.scope call.specials call.current call.body) call.before

/-- The state that the call leaves. -/
def after (analysis : Analysis) (call : Call σ) : Walk × σ :=
  Walk.after (visit analysis call.scope call.specials call.current call.body) call.before

/-- How often the call runs its body. -/
def runs (analysis : Analysis) (call : Call σ) : Nat :=
  (Walk.after (visit analysis call.scope call.specials call.current (tallied call.body))
    (call.before.1, (call.before.2, 0))).2.2

theorem runs_of_error {call : Call σ} {refusal : Refusal}
    (h : call.outcome analysis = .error refusal) : call.runs analysis = 0 := by
  have henter : analysis.enter? call.scope call.specials call.current = .error refusal :=
    result_visit_error_iff.mp h
  rw [runs, after_visit_error henter]

/-- The branches that a call comes to are counted right. -/
theorem runs_of_ok {call : Call σ} {visited : Visited}
    (h : call.outcome analysis = .ok visited) :
    call.runs analysis = visited.branches ∧ call.runs analysis = visited.caches.length := by
  obtain ⟨henter, hbranches⟩ := result_visit_ok_iff.mp h
  have htally := after_forM_tallied call.body visited.caches
    (Walk.enter analysis call.scope visited.dispatch call.before.1, call.before.2) 0
  have hruns : call.runs analysis = visited.caches.length := by
    rw [runs, after_visit_ok henter]
    dsimp only at htally ⊢
    rw [htally, Nat.zero_add]
  exact ⟨hruns.trans hbranches.symm, hruns⟩

/-- What a call leaves behind. -/
structure Transactional (analysis : Analysis) (call : Call σ) : Prop where
  /-- There are as many paths as before. -/
  paths : (call.after analysis).1.paths = call.before.1.paths
  /-- The body is run once in every branch, which is as often as the call says, and not at all if
  the call is refused. -/
  branches : ∀ visited, call.outcome analysis = .ok visited →
    call.runs analysis = visited.branches ∧ call.runs analysis = visited.caches.length
  unrun : ∀ refusal, call.outcome analysis = .error refusal → call.runs analysis = 0
  /-- A call that is refused changes nothing outside the walk. -/
  own : ∀ refusal, call.outcome analysis = .error refusal →
    (call.after analysis).2 = call.before.2
  /-- It warns of nothing. -/
  warned : ∀ refusal, call.outcome analysis = .error refusal →
    (call.after analysis).1.warned = call.before.1.warned
  warnings : ∀ refusal, call.outcome analysis = .error refusal →
    (call.after analysis).1.report.warnings = call.before.1.report.warnings ∧
      (call.after analysis).1.report.totalWarnings = call.before.1.report.totalWarnings
  /-- If it is refused because of violations, there is one more error, which describes them. -/
  narrowing : ∀ violations, call.outcome analysis = .error (.narrowing violations) →
    (call.after analysis).1.report =
        call.before.1.report.addError (violation analysis call.scope violations) ∧
      (call.after analysis).1.report.totalErrors = call.before.1.report.totalErrors + 1
  /-- If it is refused for another reason, there is none. -/
  silent : ∀ refusal, call.outcome analysis = .error refusal →
    (∀ violations, refusal ≠ .narrowing violations) →
      (call.after analysis).1.report = call.before.1.report

theorem transactional (analysis : Analysis) (call : Call σ) : call.Transactional analysis := by
  have hrefused : ∀ refusal, call.outcome analysis = .error refusal →
      call.after analysis = (refuse analysis call.scope refusal call.before.1, call.before.2) :=
    fun refusal h => after_visit_error (result_visit_error_iff.mp h)
  refine ⟨?_, fun _ => runs_of_ok, fun _ => runs_of_error, ?_, ?_, ?_, ?_, ?_⟩
  · cases henter : analysis.enter? call.scope call.specials call.current with
    | ok entrance => rw [after, after_visit_ok henter]
    | error refusal =>
        rw [hrefused refusal (result_visit_error_iff.mpr henter)]
        cases refusal <;> rfl
  · intro refusal h
    rw [hrefused refusal h]
  · intro refusal h
    rw [hrefused refusal h]
    cases refusal <;> rfl
  · intro refusal h
    rw [hrefused refusal h]
    cases refusal <;> exact ⟨rfl, rfl⟩
  · intro violations h
    rw [hrefused _ h]
    exact ⟨rfl, rfl⟩
  · intro refusal h hother
    rw [hrefused refusal h]
    cases refusal with
    | narrowing violations => exact absurd rfl (hother violations)
    | _ => rfl

end Call

/-! ## Whole programs -/

/-- Whatever a program does, it leaves as many paths as it has found, and so does each of the calls
that it makes at any depth.  A call that is refused runs its body not at all, warns of nothing, and
adds one error to the report if violations are the reason, and nothing otherwise. -/
theorem calls_transactional {program : StateT Walk (StateM σ) α} (hprogram : Calls analysis program)
    (around : Nat) (state : Walk × σ) :
    (after program state).1.paths = state.1.paths ∧
      (∃ calls, Performs analysis around program state calls) ∧
      ∀ call : Call σ, call.Transactional analysis :=
  ⟨hprogram.paths state, hprogram.exists_performs around state, Call.transactional analysis⟩

/-- A generator that counts the branches in which it gets to the template: there is one in which
the name is an integer, and one in which it is null and the template is refused. -/
theorem calls_transactional_clipped :
    ∃ (program : StateT Walk (StateM Nat) Unit) (refused : Call Nat) (violations : List Violation),
      Calls (analyse Analysis.clipped "unit" .default) program ∧
      (after program (start, 0)).1.paths = 1 ∧ (after program (start, 0)).2 = 1 ∧
      (after program (start, 0)).1.report.totalErrors = 1 ∧
      (∃ calls, Performs (analyse Analysis.clipped "unit" .default) 1 program (start, 0) calls) ∧
      refused.outcome (analyse Analysis.clipped "unit" .default) = .error (.narrowing violations) ∧
      refused.runs (analyse Analysis.clipped "unit" .default) = 0 ∧
      (refused.after (analyse Analysis.clipped "unit" .default)).1.report.totalErrors = 1 := by
  let template (cache : Cache) : StateT Walk (StateM Nat) Unit :=
    visit (analyse Analysis.clipped "unit" .default) ⟨2⟩ [] (some cache)
      (fun _ => StateT.lift (modify (· + 1))) >>= fun _ => StateT.lift (pure ())
  let program : StateT Walk (StateM Nat) Unit :=
    visit (analyse Analysis.clipped "unit" .default) ⟨1⟩ [] none template >>= fun _ =>
      StateT.lift (pure ())
  have hprogram : Calls (analyse Analysis.clipped "unit" .default) program :=
    .bind (.visit fun _ => .bind (.visit fun _ => .own _) fun _ => .own _) fun _ => .own _
  let null : Cache := (∅ : Cache).insert ⟨3⟩ (.unboxed (.lookup "n") {.unit})
  let refused : Call Nat := ⟨⟨2⟩, [], some null, fun _ => StateT.lift (modify (· + 1)),
    (start, 0), 2⟩
  have hreached : (after program (start, 0)).2 = 1 ∧
      (after program (start, 0)).1.report.totalErrors = 1 := by
    decide +kernel
  have hrefused : refused.outcome (analyse Analysis.clipped "unit" .default) =
      .error (.narrowing [⟨"n", {.int}, {.unit}⟩]) := by
    refine result_visit_error_iff.mpr (Analysis.enter?_narrowing_iff.mpr
      ⟨?_, List.cons_ne_nil _ _⟩)
    decide +kernel
  obtain ⟨hpaths, hcalls, hall⟩ := calls_transactional hprogram 1 (start, 0)
  have htransactional := hall refused
  exact ⟨program, refused, _, hprogram, hpaths, hreached.1, hreached.2, hcalls, hrefused,
    htransactional.unrun _ hrefused, (htransactional.narrowing _ hrefused).2⟩

end Walk

end FrameLang
