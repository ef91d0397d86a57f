import FrameLang.Proofs.Analysis.Uniqueness
import FrameLang.Proofs.Branch.Caches
import FrameLang.Proofs.Branch.Choices
import Mathlib.Algebra.Order.BigOperators.GroupWithZero.List
import Mathlib.Algebra.Order.Ring.Nat

/-!
# The visit of a scope

A visit runs a body once for every choice of the kinds that are dispatched over, in
the order of the choices, and in every run there are as many paths as the branches
around it multiply into (`Walk.visit_runs_every_choice`).

## Strategy

The walk runs the body name by name and kind by kind.  Seen from outside it runs it in
one branch after the other and counts the branches (`Walk.runBranches_eq`), so what is
known of the list of branches holds of the runs.

The body of a visit may visit further scopes, so it changes the count of paths while
it runs.  All that a body can do with a walk is to look at it and to visit scopes
(`Walk.Calls`), and a visit leaves as many paths as it has found; hence so does every
body (`Walk.Calls.paths`).  So the count is the same at the start of each run, and
the statement about one visit holds at every depth.
-/

namespace FrameLang

namespace Walk

variable {analysis : Analysis} {σ : Type}

/-! ## Programs -/

/-- What a generator may do with a walk: its own steps, looking at the walk, and visiting a scope
with a body that does nothing else either. -/
inductive Calls (analysis : Analysis) {σ : Type} : {α : Type} → StateT Walk (StateM σ) α → Prop where
  | own {α : Type} (step : StateM σ α) : Calls analysis (StateT.lift step : StateT Walk (StateM σ) α)
  | look : Calls analysis (get : StateT Walk (StateM σ) Walk)
  | bind {α β : Type} {first : StateT Walk (StateM σ) α} {next : α → StateT Walk (StateM σ) β}
      (h : Calls analysis first) (h' : ∀ value, Calls analysis (next value)) :
      Calls analysis (first >>= next)
  | visit {scope : ScopeId} {specials : List Special} {current : Option Cache}
      {body : Cache → StateT Walk (StateM σ) Unit} (h : ∀ cache, Calls analysis (body cache)) :
      Calls analysis (visit analysis scope specials current body)

/-- The state after a program, which starts from a walk and a state of its own. -/
def after {α : Type} (program : StateT Walk (StateM σ) α) (state : Walk × σ) : Walk × σ :=
  let ended := (program.run state.1).run state.2
  (ended.1.2, ended.2)

/-- The result of a program. -/
def result {α : Type} (program : StateT Walk (StateM σ) α) (state : Walk × σ) : α :=
  ((program.run state.1).run state.2).1.1

/-! ## Branch by branch -/

section Branches

variable {m : Type → Type} [Monad m] [LawfulMonad m] {body : Cache → StateT Walk m Unit}
  {rest : List Loaded}

/-- The kinds of one name, if all is known of the names after it.  The runs are counted on top of
those before. -/
theorem foldlM_runBranches
    (hrest : ∀ cache, runBranches body cache rest =
      (Entrance.branches cache rest).forM body >>= fun _ =>
        pure (Entrance.branches cache rest).length)
    (loaded : Loaded) (cache : Cache) (kinds : List Kind) (count : Nat) :
    kinds.foldlM (fun count kind => do
        let more ← runBranches body (loaded.branch cache kind) rest
        pure (count + more)) count =
      (kinds.flatMap fun kind => Entrance.branches (loaded.branch cache kind) rest).forM body >>=
        fun _ => pure (count + (kinds.flatMap fun kind =>
          Entrance.branches (loaded.branch cache kind) rest).length) := by
  induction kinds generalizing count with
  | nil => simp
  | cons kind kinds ih =>
      -- inside the fold the branches of the other kinds stay as they are, for the hypothesis
      rw [List.foldlM_cons, hrest, List.flatMap_cons, List.length_append]
      simp only [bind_assoc, pure_bind, ih, List.forM_eq_forM, List.forM_append, Nat.add_assoc]

/-- A body is run in all branches of a dispatch, one after the other, and the runs are counted. -/
theorem runBranches_eq (body : Cache → StateT Walk m Unit) (cache : Cache)
    (dispatch : List Loaded) :
    runBranches body cache dispatch =
      (Entrance.branches cache dispatch).forM body >>= fun _ =>
        pure (Entrance.branches cache dispatch).length := by
  induction dispatch generalizing cache with
  | nil => simp [runBranches, Entrance.branches]
  | cons loaded rest ih =>
      have hkinds := foldlM_runBranches ih loaded cache loaded.possible.toList 0
      rw [Nat.zero_add] at hkinds
      exact hkinds

end Branches

/-! ## One visit -/

section Visit

variable {scope : ScopeId} {specials : List Special} {current : Option Cache}
  {body : Cache → StateT Walk (StateM σ) Unit} {state : Walk × σ}

/-- A visit comes to what it takes to enter the scope, and the number of branches. -/
theorem result_visit : result (visit analysis scope specials current body) state =
    (analysis.enter? scope specials current).map fun entrance =>
      ⟨entrance, entrance.caches.length⟩ := by
  unfold result visit
  cases analysis.enter? scope specials current with
  | error refusal => rfl
  | ok entrance =>
      simp only [runBranches_eq]
      rfl

theorem result_visit_error_iff {refusal : Refusal} :
    result (visit analysis scope specials current body) state = .error refusal ↔
      analysis.enter? scope specials current = .error refusal := by
  rw [result_visit]
  cases analysis.enter? scope specials current <;> simp [Except.map]

theorem result_visit_ok_iff {visited : Visited} :
    result (visit analysis scope specials current body) state = .ok visited ↔
      analysis.enter? scope specials current = .ok visited.toEntrance ∧
        visited.branches = visited.caches.length := by
  rw [result_visit]
  cases analysis.enter? scope specials current with
  | error refusal => simp [Except.map]
  | ok entrance =>
      obtain ⟨entrance', branches⟩ := visited
      simp only [Except.map, Except.ok.injEq, Visited.mk.injEq]
      constructor
      · rintro ⟨rfl, rfl⟩
        exact ⟨rfl, rfl⟩
      · rintro ⟨rfl, rfl⟩
        exact ⟨rfl, rfl⟩

theorem after_visit_error {refusal : Refusal}
    (h : analysis.enter? scope specials current = .error refusal) :
    after (visit analysis scope specials current body) state =
      (refuse analysis scope refusal state.1, state.2) := by
  unfold after visit
  rw [h]
  rfl

theorem after_visit_ok {entrance : Entrance}
    (h : analysis.enter? scope specials current = .ok entrance) :
    after (visit analysis scope specials current body) state =
      let ended := after (entrance.caches.forM body)
        (enter analysis scope entrance.dispatch state.1, state.2)
      ({ ended.1 with paths := state.1.paths }, ended.2) := by
  unfold after visit
  rw [h]
  simp only [runBranches_eq]
  rfl

end Visit

/-- A program leaves as many paths as it has found. -/
theorem Calls.paths {α : Type} {program : StateT Walk (StateM σ) α} (h : Calls analysis program)
    (state : Walk × σ) : (after program state).1.paths = state.1.paths := by
  induction h generalizing state with
  | own step => rfl
  | look => rfl
  | @bind α β first next h h' ih ih' =>
      have hsecond := ih' (result first state) (after first state)
      exact hsecond.trans (ih state)
  | @visit scope specials current body h ih =>
      cases henter : analysis.enter? scope specials current with
      | ok entrance => rw [after_visit_ok henter]
      | error refusal =>
          rw [after_visit_error henter]
          cases refusal <;> rfl

/-! ## Runs -/

/-- One run of a body. -/
structure Run (σ : Type) where
  cache : Cache
  before : Walk × σ
  after : Walk × σ

/-- Runs of a body one after the other, each in the state that the one before it has left. -/
inductive InTurn (body : Cache → StateT Walk (StateM σ) Unit) :
    Walk × σ → List (Run σ) → Walk × σ → Prop where
  | done {state : Walk × σ} : InTurn body state [] state
  | next {cache : Cache} {first last : Walk × σ} {rest : List (Run σ)}
      (h : InTurn body (Walk.after (body cache) first) rest last) :
      InTurn body first (⟨cache, first, Walk.after (body cache) first⟩ :: rest) last

theorem exists_inTurn (body : Cache → StateT Walk (StateM σ) Unit) (caches : List Cache)
    (state : Walk × σ) :
    ∃ runs, runs.map Run.cache = caches ∧
      InTurn body state runs (after (caches.forM body) state) := by
  induction caches generalizing state with
  | nil => exact ⟨[], rfl, .done⟩
  | cons cache rest ih =>
      obtain ⟨runs, hcaches, hruns⟩ := ih (after (body cache) state)
      refine ⟨⟨cache, state, after (body cache) state⟩ :: runs, ?_, .next hruns⟩
      rw [List.map_cons, hcaches]

/-- If a body leaves as many paths as it has found, there are as many in every run. -/
theorem InTurn.paths {body : Cache → StateT Walk (StateM σ) Unit}
    (hbody : ∀ cache, Calls analysis (body cache)) {first last : Walk × σ} {runs : List (Run σ)}
    (h : InTurn body first runs last) :
    ∀ run ∈ runs, run.before.1.paths = first.1.paths ∧ run.after.1.paths = first.1.paths := by
  induction h with
  | done => simp
  | @next cache first last rest h ih =>
      have hpaths := (hbody cache).paths first
      refine List.forall_mem_cons.mpr ⟨⟨rfl, hpaths⟩, fun run hrun => ?_⟩
      obtain ⟨hbefore, hafter⟩ := ih run hrun
      exact ⟨hbefore.trans hpaths, hafter.trans hpaths⟩

/-! ## Counting paths -/

/-- As long as 64 bits suffice, the paths are multiplied by the number of branches. -/
theorem multiply_eq {dispatch : List Loaded} (hkinds : ∀ loaded ∈ dispatch, loaded.possible ≠ ∅)
    {paths : Nat} (hlt : paths * Entrance.degree dispatch < UInt64.size) :
    multiply paths dispatch = paths * Entrance.degree dispatch := by
  induction dispatch generalizing paths with
  | nil => exact (Nat.mul_one paths).symm
  | cons loaded rest ih =>
      obtain ⟨hfirst, hrest⟩ := List.forall_mem_cons.mp hkinds
      have hsize : 0 < loaded.possible.size := Kinds.size_pos hfirst
      have hpos : 0 < Entrance.degree rest := by
        refine List.prod_pos ?_
        intro size hmem
        obtain ⟨other, hother, rfl⟩ := List.mem_map.mp hmem
        exact Kinds.size_pos (hrest other hother)
      have hdegree : paths * Entrance.degree (loaded :: rest) =
          paths * loaded.possible.size * Entrance.degree rest := by
        rw [Entrance.degree, List.map_cons, List.prod_cons, Nat.mul_assoc]
        rfl
      rw [hdegree] at hlt ⊢
      -- the paths counted so far are no more than those counted in the end
      have hle : paths * loaded.possible.size ≤
          paths * loaded.possible.size * Entrance.degree rest := Nat.le_mul_of_pos_right _ hpos
      have hstep : min (paths * max loaded.possible.size 1) pathCeiling =
          paths * loaded.possible.size := by
        rw [Nat.max_eq_left hsize, Nat.min_eq_left]
        unfold pathCeiling
        omega
      calc multiply paths (loaded :: rest)
          = multiply (min (paths * max loaded.possible.size 1) pathCeiling) rest := rfl
        _ = multiply (paths * loaded.possible.size) rest := by rw [hstep]
        _ = paths * loaded.possible.size * Entrance.degree rest := ih hrest hlt

theorem paths_enter (scope : ScopeId) (dispatch : List Loaded) (walk : Walk) :
    (enter analysis scope dispatch walk).paths = multiply walk.paths dispatch := by
  unfold enter
  dsimp only
  split <;> rfl

/-! ## Whole units -/

/-- A visit runs its body once for every choice.

If a scope can be entered, no name is dispatched over twice.  The body is run in turn, once for
each choice of one kind of every name that is dispatched over, with a cache in which every one
of these names is bound to its value, unboxed to the kind that has been chosen.  The choices
come in lexicographic order.  The visit comes to as many branches as the numbers of kinds multiply
to, and that is how often the body is run.  In every run there are as many paths as on entry times
this number, as long as it fits into 64 bits, and after the visit there are as many as before. -/
theorem visit_runs_every_choice (unit : Expr) (file : String) (options : Options) {scope : ScopeId}
    {specials : List Special} (hspecials : (specials.map Special.name).Nodup)
    {current : Option Cache} {body : Cache → StateT Walk (StateM σ) Unit}
    (hbody : ∀ cache, Calls (analyse unit file options) (body cache)) {state : Walk × σ}
    {visited : Visited}
    (hvisited : result (visit (analyse unit file options) scope specials current body) state =
      .ok visited) :
    (visited.dispatch.map Loaded.name).Nodup ∧
    ∃ (choices : List (List Kind)) (runs : List (Run σ)) (last : Walk × σ),
      (∀ choice, choice ∈ choices ↔ List.Forall₂ (fun kind (loaded : Loaded) =>
        kind ∈ loaded.possible) choice visited.dispatch) ∧
      choices.Pairwise (List.Lex Kind.Before) ∧
      List.Forall₂ (fun choice run => List.Forall₂ (fun kind (loaded : Loaded) =>
        run.cache.find? loaded.name = some (.unboxed loaded.value {kind})) choice visited.dispatch)
        choices runs ∧
      runs.map Run.cache = visited.caches ∧
      visited.branches = (visited.dispatch.map fun loaded => loaded.possible.size).prod ∧
      visited.caches.length = (visited.dispatch.map fun loaded => loaded.possible.size).prod ∧
      runs.length = (visited.dispatch.map fun loaded => loaded.possible.size).prod ∧
      InTurn body (enter (analyse unit file options) scope visited.dispatch state.1, state.2)
        runs last ∧
      after (visit (analyse unit file options) scope specials current body) state =
        ({ last.1 with paths := state.1.paths }, last.2) ∧
      (state.1.paths * (visited.dispatch.map fun loaded => loaded.possible.size).prod <
          UInt64.size →
        ∀ run ∈ runs,
          run.before.1.paths = state.1.paths *
            (visited.dispatch.map fun loaded => loaded.possible.size).prod ∧
          run.after.1.paths = state.1.paths *
            (visited.dispatch.map fun loaded => loaded.possible.size).prod) := by
  have hformed := Analysis.formed_analyse unit file options
  have hrecorded := Analysis.recorded_analyse unit file options
  generalize analyse unit file options = analysis at *
  obtain ⟨henter, hbranches⟩ := result_visit_ok_iff.mp hvisited
  obtain ⟨hnodup, hkinds⟩ := Analysis.nodup_dispatch hformed hrecorded hspecials henter
  obtain ⟨runs, hcaches, hruns⟩ := exists_inTurn body visited.caches
    (enter analysis scope visited.dispatch state.1, state.2)
  have hdegree : visited.caches.length = Entrance.degree visited.dispatch :=
    Entrance.length_branches _ _
  refine ⟨hnodup, Entrance.choices visited.dispatch, runs, _, fun _ => Entrance.mem_choices,
    Entrance.pairwise_choices _, ?_, hcaches, hbranches.trans hdegree, hdegree, ?_, hruns,
    after_visit_ok henter, fun hlt run hrun => ?_⟩
  · have hbinds := Entrance.binds_branches hnodup visited.base
    change List.Forall₂ _ _ visited.caches at hbinds
    rw [← hcaches, List.forall₂_map_right_iff] at hbinds
    exact hbinds
  · calc runs.length
        = (runs.map Run.cache).length := (List.length_map _).symm
      _ = visited.caches.length := by rw [hcaches]
      _ = Entrance.degree visited.dispatch := hdegree
  · obtain ⟨hbefore, hafter⟩ := hruns.paths hbody run hrun
    have hpaths : (enter analysis scope visited.dispatch state.1).paths =
        state.1.paths * Entrance.degree visited.dispatch := by
      rw [paths_enter, multiply_eq hkinds hlt]
    exact ⟨hbefore.trans hpaths, hafter.trans hpaths⟩

/-- A generator that visits a second scope in every branch of a first one: both names of the first
scope may be of two kinds, so there are four branches, and every run of the body starts and ends
with four paths. -/
theorem visit_runs_every_choice_nestedSum :
    ∃ (body : Cache → StateT Walk (StateM Unit) Unit) (visited : Visited)
      (runs : List (Run Unit)) (last : Walk × Unit),
      (∀ cache, Calls (analyse Analysis.nestedSum "sum" .default) (body cache)) ∧
      result (visit (analyse Analysis.nestedSum "sum" .default) ⟨1⟩ [] none body) (start, ()) =
        .ok visited ∧
      (visited.dispatch.map fun loaded => (loaded.name, loaded.possible)) =
        [(⟨2⟩, .number), (⟨4⟩, .number)] ∧
      visited.branches = 4 ∧ visited.caches.length = 4 ∧ runs.length = 4 ∧
      InTurn body (enter (analyse Analysis.nestedSum "sum" .default) ⟨1⟩ visited.dispatch start, ())
        runs last ∧
      ∀ run ∈ runs, run.before.1.paths = 4 ∧ run.after.1.paths = 4 := by
  have hdispatch : ((analyse Analysis.nestedSum "sum" .default).enter? ⟨1⟩ [] none).toOption.map
      (fun entrance => entrance.dispatch.map fun loaded => (loaded.name, loaded.possible)) =
        some [(⟨2⟩, .number), (⟨4⟩, .number)] := by
    decide +kernel
  let body (cache : Cache) : StateT Walk (StateM Unit) Unit :=
    visit (analyse Analysis.nestedSum "sum" .default) ⟨2⟩ [] (some cache)
      (fun _ => StateT.lift (pure ())) >>= fun _ => StateT.lift (pure ())
  have hbody : ∀ cache, Calls (analyse Analysis.nestedSum "sum" .default) (body cache) :=
    fun cache => .bind (.visit fun _ => .own _) fun _ => .own _
  cases henter : (analyse Analysis.nestedSum "sum" .default).enter? ⟨1⟩ [] none with
  | error refusal =>
      rw [henter] at hdispatch
      cases hdispatch
  | ok entrance =>
      rw [henter] at hdispatch
      have hnames : (entrance.dispatch.map fun loaded => (loaded.name, loaded.possible)) =
          [(⟨2⟩, .number), (⟨4⟩, .number)] := Option.some.inj hdispatch
      have hsizes : (entrance.dispatch.map fun loaded => loaded.possible.size) = [2, 2] := by
        have hsecond := congrArg (List.map fun pair : NameId × Kinds => pair.2.size) hnames
        rw [List.map_map] at hsecond
        exact hsecond
      have hnone : (([] : List Special).map Special.name).Nodup := List.nodup_nil
      have hresult : result (visit (analyse Analysis.nestedSum "sum" .default) ⟨1⟩ [] none body)
          (start, ()) = .ok ⟨entrance, entrance.caches.length⟩ :=
        result_visit_ok_iff.mpr ⟨henter, rfl⟩
      obtain ⟨-, choices, runs, last, -, -, -, -, hbranches, hcaches, hlength, hruns, -, hpaths⟩ :=
        visit_runs_every_choice Analysis.nestedSum "sum" .default hnone hbody hresult
      rw [hsizes] at hbranches hcaches hlength hpaths
      exact ⟨body, _, runs, last, hbody, hresult, hnames, hbranches, hcaches, hlength, hruns,
        hpaths (by decide)⟩

end Walk

end FrameLang
