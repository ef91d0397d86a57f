import FrameLang.Proofs.Search.Subscriptions

/-!
# Results are final

A search has no result until it ends, and then it has one for good.  This file shows that
everybody who has asked for the result of a search is told it exactly once if the search ends,
and is told nothing if it does not; that a search which has been started cannot be started again;
and that a value which comes too late is ignored.

## Strategy

What a step of a search says about its result is one of two things (`Reports`): nothing, and then
the result and the listeners are as before; or the result is there and was not before, and the
step hands out all listeners.  Steps that follow each other report together what they report one
by one, since a search that has ended reports nothing any more (`Reports.trans`).

Along a run the listeners of a search that has not ended are those who have asked for its result
(`Heard.listeners`).  So when the search ends, its report goes to just those, and what has been
told together with what is still to be told stays a permutation of what ought to be told
(`Heard.tellings`).
-/

namespace FrameLang.World

variable {κ : Type}

/-! ## Reports -/

/-- What a step of a search says about its result. -/
structure Reports (id : SearchId) (before : World κ) (step : List κ × World κ) : Prop where
  size : step.2.searches.size = before.searches.size
  started : (before.search id).started = true → (step.2.search id).started = true
  others : ∀ other, other ≠ id → step.2.search other = before.search other
  result :
    (step.1 = [] ∧ (step.2.search id).result = (before.search id).result ∧
      (step.2.search id).listeners = (before.search id).listeners) ∨
    ((before.search id).result = none ∧ (step.2.search id).isCommitted = true ∧
      step.1 = (before.search id).listeners)

section Reports

variable {id : SearchId} {world : World κ}

theorem Reports.of_searches {after : World κ} (h : after.searches = world.searches) :
    Reports id world ([], after) := by
  have hsame : ∀ other, after.search other = world.search other := by
    intro other
    rw [search, search, h]
  exact ⟨by rw [h], by rw [hsame]; exact fun h => h, fun other _ => hsame other,
    .inl ⟨rfl, by rw [hsame], by rw [hsame]⟩⟩

/-- A search changes what it knows of its attempts, and reports nothing. -/
theorem Reports.of_modifySearch {change : Search κ → Search κ}
    (hstarted : (world.search id).started = true → (change (world.search id)).started = true)
    (hresult : (change (world.search id)).result = (world.search id).result)
    (hlisteners : (change (world.search id)).listeners = (world.search id).listeners) :
    Reports id world ([], world.modifySearch id change) := by
  have hself : (world.modifySearch id change).search id = change (world.search id) ∨
      (world.modifySearch id change).search id = world.search id := by
    rw [search_modifySearch]
    split
    · exact .inl rfl
    · exact .inr rfl
  refine ⟨size_searches_modifySearch .., ?_,
    fun other hne => search_modifySearch_of_ne hne.symm world change, .inl ⟨rfl, ?_, ?_⟩⟩
  · rcases hself with hself | hself
    · rw [hself]
      exact hstarted
    · rw [hself]
      exact fun h => h
  · rcases hself with hself | hself <;> simp only [hself, hresult]
  · rcases hself with hself | hself <;> simp only [hself, hlisteners]

/-- A search that has ended reports nothing any more, so there is at most one report. -/
theorem Reports.trans {second third : World κ} {told more : List κ}
    (h : Reports id world (told, second)) (h' : Reports id second (more, third)) :
    Reports id world (told ++ more, third) := by
  refine ⟨h'.size.trans h.size, fun hstarted => h'.started (h.started hstarted),
    fun other hne => (h'.others other hne).trans (h.others other hne), ?_⟩
  rcases h.result with ⟨htold, hresult, hlisteners⟩ | ⟨hopen, hended, htold⟩
  · simp only at htold hresult hlisteners
    subst htold
    rw [List.nil_append, ← hresult, ← hlisteners]
    exact h'.result
  · simp only at hended htold
    rcases h'.result with ⟨hmore, hresult, -⟩ | ⟨hopen', -, -⟩
    · simp only at hmore hresult
      refine .inr ⟨hopen, ?_, by simp only [htold, hmore, List.append_nil]⟩
      simp only [Search.isCommitted, hresult] at hended ⊢
      exact hended
    · rw [Search.isCommitted, hopen'] at hended
      cases hended

/-- What is reported after a silent step is all that is reported. -/
theorem Reports.silently {second : World κ} {step : List κ × World κ}
    (h : Reports id world ([], second)) (h' : Reports id second step) : Reports id world step :=
  h.trans h'

theorem reports_commit (hid : id.index < world.searches.size)
    (hopen : (world.search id).result = none) (result : Result) :
    Reports id world (commit id result world) := by
  refine ⟨?_, by rw [search_commit hid]; exact fun h => h, ?_, .inr ⟨hopen, ?_, rfl⟩⟩
  · simp only [commit, searches_release, size_searches_modifySearch]
  · intro other hne
    simp only [commit, search_release]
    exact search_modifySearch_of_ne hne.symm world _
  · rw [search_commit hid]
    rfl

theorem reports_settle (hid : id.index < world.searches.size) :
    Reports id world (settle id world) := by
  unfold settle
  cases hcommitted : (world.search id).isCommitted with
  | true =>
      simp only [hcommitted, if_true]
      exact .of_searches rfl
  | false =>
      have hopen : (world.search id).result = none := by
        simpa [Search.isCommitted] using hcommitted
      simp only [hcommitted, Bool.false_eq_true, if_false]
      cases (world.search id).verdict? with
      | none => exact .of_searches rfl
      | some verdict =>
          cases verdict with
          | value value => exact reports_commit hid hopen _
          | failure error => exact reports_commit hid hopen _
          | list values =>
              let added := world.addFrame (.ofValues values)
              have hadded : Reports id world ([], added.2) := .of_searches (searches_addFrame ..)
              have hid' : id.index < added.2.searches.size := hid
              have hopen' : (added.2.search id).result = none := hopen
              exact hadded.silently (reports_commit hid' hopen' _)

theorem reports_record (hid : id.index < world.searches.size) (index : Nat) (outcome : Outcome) :
    Reports id world (record id index outcome world) := by
  have hnoted : Reports id world ([], noteOutcome id index outcome world) :=
    .of_modifySearch (fun h => h) rfl rfl
  exact hnoted.silently (reports_settle (hnoted.size ▸ hid))

theorem searches_request (frame : FrameId) (name : String) (callback : Callback κ) :
    (world.request frame name callback).2.searches = world.searches := by
  simp only [request, searches_setFrame]

theorem reports_ask (hid : id.index < world.searches.size) (index component : Nat) (name : String)
    (frame : FrameId) {next : Value → World κ → List κ × World κ}
    (hnext : ∀ value (later : World κ), id.index < later.searches.size →
      Reports id later (next value later)) :
    Reports id world (ask id index component name frame next world) := by
  have hnoted : Reports id world ([], noteAttempt id ⟨index, component, frame⟩ world) :=
    .of_modifySearch (fun h => h) rfl rfl
  have hrequested : Reports id world ([], ((noteAttempt id ⟨index, component, frame⟩ world).request
      frame name (.attempt id index component)).2) :=
    hnoted.silently (.of_searches (searches_request ..))
  rw [ask_eq]
  refine hrequested.silently ?_
  have hid' := hrequested.size ▸ hid
  generalize (noteAttempt id ⟨index, component, frame⟩ world).request frame name
    (.attempt id index component) = answer at hid' ⊢
  obtain ⟨availability, later⟩ := answer
  cases availability with
  | absent => exact reports_record hid' index .notFound
  | delivered value => exact hnext value later hid'
  | subscribed ticket => exact .of_modifySearch (fun h => h) rfl rfl

theorem reports_receive (hid : id.index < world.searches.size) (index component : Nat)
    (rest : List String) (value : Value) :
    Reports id world (receive id index component rest value world) := by
  induction rest generalizing world component value with
  | nil =>
      cases hcommitted : (world.search id).isCommitted with
      | true =>
          rw [receive_of_committed hcommitted]
          exact .of_searches rfl
      | false =>
          have htaken : Reports id world ([], subscribeTo id index none world) :=
            .of_modifySearch (fun h => h) rfl rfl
          rw [receive_nil hcommitted]
          exact htaken.silently (reports_record (htaken.size ▸ hid) index _)
  | cons name rest ih =>
      cases hcommitted : (world.search id).isCommitted with
      | true =>
          rw [receive_of_committed hcommitted]
          exact .of_searches rfl
      | false =>
          have htaken : Reports id world ([], subscribeTo id index none world) :=
            .of_modifySearch (fun h => h) rfl rfl
          have hid' := htaken.size ▸ hid
          rw [receive_cons hcommitted]
          refine htaken.silently ?_
          cases value with
          | frame inner =>
              exact reports_ask hid' index (component + 1) name inner
                fun value later hlater => ih hlater (component + 1) value
          | _ => exact reports_record hid' index _

theorem reports_attemptFrom (hid : id.index < world.searches.size) (name : String)
    (rest : List String) (index : Nat) (frames : List FrameId) :
    Reports id world (attemptFrom id name rest index frames world) := by
  induction frames generalizing world index with
  | nil => exact reports_settle hid
  | cons frame frames ih =>
      rw [attemptFrom]
      split
      · exact .of_searches rfl
      · have hgoes : ∀ value (later : World κ), id.index < later.searches.size →
            Reports id later (receive id index 0 rest value later) :=
          fun value later hlater => reports_receive hlater index 0 rest value
        have hasked := reports_ask hid index 0 name frame hgoes
        exact hasked.trans (ih (hasked.size ▸ hid) (index + 1))

theorem reports_deliver (hid : id.index < world.searches.size) (index component : Nat)
    (value : Value) : Reports id world (deliver id index component value world) :=
  reports_receive hid index component _ value

/-- A search that begins goes on like a search that has begun. -/
theorem reports_begin_noted (hid : id.index < world.searches.size)
    (hstarted : (world.search id).started = false) (hopen : (world.search id).result = none) :
    Reports id (noteStarted id world) (begin id world) := by
  have hid' : id.index < (noteStarted id world).searches.size := by
    rw [noteStarted, size_searches_modifySearch]
    exact hid
  rw [begin_eq hstarted]
  cases Search.pathError? (world.search id).names with
  | some error =>
      refine reports_commit hid' ?_ _
      rw [search_noteStarted hid]
      exact hopen
  | none =>
      cases (world.search id).names with
      | nil => exact .of_searches rfl
      | cons name rest => exact reports_attemptFrom hid' name rest 0 _

/-- Only a search that has begun can have ended. -/
theorem Tended.result_eq_none {isOpen : Nat → Prop} (h : world.Tended id isOpen)
    (hstarted : (world.search id).started = false) : (world.search id).result = none := by
  cases h with
  | unstarted _ hunstarted => exact hunstarted.result
  | running _ hrunning _ => exact hrunning.result
  | ended _ hended => exact absurd (hended.started.symm.trans hstarted) (by simp)

/-- A search that is made to begin has begun, and what it reports is a report like any other. -/
theorem reports_begin (hid : id.index < world.searches.size)
    (hopen : (world.search id).started = false → (world.search id).result = none) :
    Reports id world (begin id world) ∧ ((begin id world).2.search id).started = true := by
  cases hstarted : (world.search id).started with
  | true =>
      rw [begin_of_started hstarted]
      exact ⟨.of_searches rfl, hstarted⟩
  | false =>
      have hbegun := reports_begin_noted hid hstarted (hopen hstarted)
      have hnoted : Reports id world ([], noteStarted id world) :=
        .of_modifySearch (fun _ => rfl) rfl rfl
      refine ⟨hnoted.silently hbegun, hbegun.started ?_⟩
      rw [search_noteStarted hid]

end Reports

/-! ## What ought to be told -/

/-- Who has asked for the result of which search, in order. -/
def asked (chronicle : Chronicle κ) : List (SearchId × κ) :=
  chronicle.filterMap fun
    | .called (.notify id token) => some (id, token)
    | _ => none

/-- Who has asked for the result of one search, in order. -/
def askedFor (id : SearchId) (asked : List (SearchId × κ)) : List κ :=
  asked.filterMap fun (other, token) => if other = id then some token else none

/-- What those who have asked ought to be told: the result of the search, if it has ended. -/
def answers (world : World κ) (asked : List (SearchId × κ)) : List (κ × Result) :=
  asked.filterMap fun (id, token) => (world.search id).result.map fun result => (token, result)

/-- The news that is about results. -/
def results (tidings : List (κ × Notice)) : List (κ × Result) :=
  tidings.filterMap fun
    | (token, .result result) => some (token, result)
    | (_, .value _) => none

/-- The news that has been told, in order. -/
def told (chronicle : Chronicle κ) : List (κ × Notice) :=
  chronicle.filterMap fun
    | .told token notice => some (token, notice)
    | .called _ => none

/-- The listeners of the searches, and what has been told and is still to be told, are as those
who have asked may expect. -/
structure Heard (moment : Moment κ) : Prop where
  listeners : ∀ id, (moment.world.search id).result = none →
    (moment.world.search id).listeners = askedFor id (asked moment.chronicle)
  tellings : (results (told moment.chronicle ++ moment.tidings)).Perm
    (answers moment.world (asked moment.chronicle))

section Heard

theorem asked_append (chronicle : Chronicle κ) (occurrence : Occurrence κ) :
    asked (chronicle ++ [occurrence]) = asked chronicle ++ asked [occurrence] :=
  List.filterMap_append

theorem told_append (chronicle : Chronicle κ) (occurrence : Occurrence κ) :
    told (chronicle ++ [occurrence]) = told chronicle ++ told [occurrence] :=
  List.filterMap_append

theorem results_append (first second : List (κ × Notice)) :
    results (first ++ second) = results first ++ results second :=
  List.filterMap_append

theorem answers_congr {before after : World κ}
    (h : ∀ id, (after.search id).result = (before.search id).result) :
    answers after = answers before := by
  funext asked
  simp only [answers, h]

/-- When a search ends, those who have asked for its result ought to be told it, besides all that
ought to be told before. -/
theorem answers_of_ended {before after : World κ} {id : SearchId} {result : Result}
    (hopen : (before.search id).result = none) (hended : (after.search id).result = some result)
    (hothers : ∀ other, other ≠ id → after.search other = before.search other)
    (asked : List (SearchId × κ)) :
    ((askedFor id asked).map (fun token => (token, result)) ++ answers before asked).Perm
      (answers after asked) := by
  induction asked with
  | nil => exact .refl _
  | cons first rest ih =>
      obtain ⟨other, token⟩ := first
      by_cases hother : other = id
      · subst hother
        simp only [askedFor, answers, List.filterMap_cons, if_true, hopen, hended,
          Option.map_none, Option.map_some, List.map_cons, List.cons_append]
        exact ih.cons (token, result)
      · simp only [askedFor, answers, List.filterMap_cons, if_neg hother, hothers other hother]
        cases (before.search other).result with
        | none => exact ih
        | some found =>
            exact List.perm_middle.trans (ih.cons (token, found))

variable {before after : Moment κ}

/-- Nothing that concerns results has happened. -/
theorem Heard.congr (h : Heard before)
    (hresult : ∀ id, (after.world.search id).result = (before.world.search id).result)
    (hlisteners : ∀ id, (after.world.search id).listeners = (before.world.search id).listeners)
    (hasked : asked after.chronicle = asked before.chronicle)
    (htold : results (told after.chronicle ++ after.tidings) =
      results (told before.chronicle ++ before.tidings)) : Heard after := by
  constructor
  · intro id hopen
    rw [hlisteners, hasked]
    exact h.listeners id (by rw [← hresult, hopen])
  · rw [htold, hasked, answers_congr hresult]
    exact h.tellings

open scoped List in
/-- When a search ends and hands out its listeners, those who have asked for its result are about to
be told. -/
theorem Heard.ended {moment : Moment κ} (h : Heard moment) {id : SearchId}
    {change : World κ → List κ × World κ} {result : Result}
    (hopen : (moment.world.search id).result = none)
    (hended : ((change moment.world).2.search id).result = some result)
    (hothers : ∀ other, other ≠ id →
      (change moment.world).2.search other = moment.world.search other)
    (heveryone : (change moment.world).1 = (moment.world.search id).listeners) :
    Heard (moment.advance id change) := by
  constructor
  case listeners =>
    intro other hopen'
    by_cases hother : other = id
    · subst hother
      exact absurd (hopen'.symm.trans hended) (by simp)
    · have hsame : (moment.advance id change).world.search other = moment.world.search other :=
        hothers other hother
      rw [hsame] at hopen' ⊢
      exact h.listeners other hopen'
  case tellings =>
    -- the search was open, so its listeners are just those who have asked for it
    have hannounced : announcement (change moment.world).2 id (change moment.world).1 =
        (askedFor id (asked moment.chronicle)).map fun token => (token, .result result) := by
      rw [heveryone, h.listeners id hopen]
      simp only [announcement, hended]
    have hnews : results ((askedFor id (asked moment.chronicle)).map
        fun token => (token, .result result)) =
          (askedFor id (asked moment.chronicle)).map fun token => (token, result) := by
      simp only [results, List.filterMap_map, Function.comp_def, List.filterMap_eq_map']
    calc results (told moment.chronicle ++ (moment.advance id change).tidings)
        = results (told moment.chronicle) ++ ((askedFor id (asked moment.chronicle)).map
            (fun token => (token, result)) ++ results moment.tidings) := by
          rw [Moment.advance, hannounced, results_append, results_append, hnews]
      _ ~ (askedFor id (asked moment.chronicle)).map (fun token => (token, result)) ++
            results (told moment.chronicle ++ moment.tidings) := by
          rw [results_append, ← List.append_assoc, ← List.append_assoc]
          exact List.perm_append_comm.append_right _
      _ ~ (askedFor id (asked moment.chronicle)).map (fun token => (token, result)) ++
            answers moment.world (asked moment.chronicle) := h.tellings.append_left _
      _ ~ answers (moment.advance id change).world (asked moment.chronicle) :=
          answers_of_ended hopen hended hothers _

/-- What a search reports goes to those who have asked for it. -/
theorem Heard.advance {moment : Moment κ} (h : Heard moment) {id : SearchId}
    {change : World κ → List κ × World κ}
    (hreports : Reports id moment.world (change moment.world)) :
    Heard (moment.advance id change) := by
  rcases hreports.result with ⟨hnobody, hresult, hlisteners⟩ | ⟨hopen, hended, heveryone⟩
  · have hsame : ∀ other, ((change moment.world).2.search other).result =
        (moment.world.search other).result ∧ ((change moment.world).2.search other).listeners =
          (moment.world.search other).listeners := by
      intro other
      by_cases hother : other = id
      · rw [hother]
        exact ⟨hresult, hlisteners⟩
      · rw [hreports.others other hother]
        exact ⟨rfl, rfl⟩
    have htidings : (moment.advance id change).tidings = moment.tidings := by
      rw [Moment.advance, hnobody, announcement_nil, List.nil_append]
    exact h.congr (fun other => (hsame other).1) (fun other => (hsame other).2) rfl
      (by rw [htidings]; rfl)
  · obtain ⟨result, hresult⟩ := Option.isSome_iff_exists.mp hended
    exact h.ended hopen hresult hreports.others heveryone

theorem told_called (chronicle : Chronicle κ) (action : Action κ) :
    told (chronicle ++ [.called action]) = told chronicle := by
  rw [told_append]
  exact List.append_nil _

/-- Only one kind of call asks for a result. -/
theorem asked_called (chronicle : Chronicle κ) (action : Action κ)
    (h : ∀ id token, action ≠ .notify id token) :
    asked (chronicle ++ [.called action]) = asked chronicle := by
  rw [asked_append]
  cases action with
  | notify id token => exact absurd rfl (h id token)
  | _ => exact List.append_nil _

/-- A call that is written down, and has done nothing yet. -/
theorem Heard.called (h : Heard before) (action : Action κ)
    (hother : ∀ id token, action ≠ .notify id token) :
    Heard { before with chronicle := before.chronicle ++ [.called action] } :=
  h.congr (fun _ => rfl) (fun _ => rfl) (asked_called _ action hother) (by rw [told_called])

theorem asked_notify (chronicle : Chronicle κ) (id : SearchId) (token : κ) :
    asked (chronicle ++ [.called (.notify id token)]) = asked chronicle ++ [(id, token)] :=
  asked_append _ _

theorem askedFor_concat (asked : List (SearchId × κ)) (id other : SearchId) (token : κ) :
    askedFor other (asked ++ [(id, token)]) =
      askedFor other asked ++ if id = other then [token] else [] := by
  rw [askedFor, List.filterMap_append]
  congr 1
  split <;> simp_all

theorem answers_concat (world : World κ) (asked : List (SearchId × κ)) (id : SearchId)
    (token : κ) : answers world (asked ++ [(id, token)]) =
      answers world asked ++ ((world.search id).result.map fun result => (token, result)).toList := by
  rw [answers, List.filterMap_append]
  cases hresult : (world.search id).result <;> simp [hresult, answers]

theorem Heard.notify_of_open (h : Heard before) {id : SearchId}
    (hid : id.index < before.world.searches.size)
    (hopen : (before.world.search id).result = none) (token : κ) :
    Heard (before.issue (.notify id token)) := by
  have hself := search_modifySearch_self hid fun search : Search κ =>
    { search with listeners := search.listeners ++ [token] }
  rw [Moment.issue_notify_of_open hopen]
  constructor
  · intro other hother
    simp only [asked_notify, askedFor_concat] at hother ⊢
    by_cases hsame : id = other
    · subst hsame
      rw [hself, if_pos rfl, h.listeners id hopen]
    · rw [search_modifySearch_of_ne hsame] at hother ⊢
      rw [if_neg hsame, List.append_nil, h.listeners other hother]
  · have hresults : ∀ other, ((before.world.modifySearch id fun search =>
        { search with listeners := search.listeners ++ [token] }).search other).result =
          (before.world.search other).result := by
      intro other
      by_cases hsame : id = other
      · subst hsame
        rw [hself]
      · rw [search_modifySearch_of_ne hsame]
    have hanswers : answers before.world (asked before.chronicle ++ [(id, token)]) =
        answers before.world (asked before.chronicle) := by
      rw [answers_concat, hopen]
      exact List.append_nil _
    simp only [told_called, asked_notify, answers_congr hresults, hanswers]
    exact h.tellings

open scoped List in
theorem Heard.notify_of_ended (h : Heard before) {id : SearchId} {result : Result}
    (hended : (before.world.search id).result = some result) (token : κ) :
    Heard (before.issue (.notify id token)) := by
  rw [Moment.issue_notify_of_ended hended]
  constructor
  · intro other hopen
    have hother : id ≠ other := by
      rintro rfl
      exact absurd (hended.symm.trans hopen) (by simp)
    simp only [asked_notify, askedFor_concat, if_neg hother, List.append_nil]
    exact h.listeners other hopen
  · simp only [told_called, asked_notify]
    calc results (told before.chronicle ++ (token, .result result) :: before.tidings)
        = results (told before.chronicle) ++ (token, result) :: results before.tidings := by
          rw [results_append]
          rfl
      _ ~ (token, result) :: results (told before.chronicle ++ before.tidings) := by
          rw [results_append]
          exact List.perm_middle
      _ ~ (token, result) :: answers before.world (asked before.chronicle) := h.tellings.cons _
      _ ~ answers before.world (asked before.chronicle) ++ [(token, result)] :=
          (List.perm_append_singleton _ _).symm
      _ = answers before.world (asked before.chronicle ++ [(id, token)]) := by
          rw [answers_concat, hended]
          rfl

/-- Who asks for the result of a search becomes its listener, or is told at once. -/
theorem Heard.notify (h : Heard before) {id : SearchId}
    (hid : id.index < before.world.searches.size) (token : κ) :
    Heard (before.issue (.notify id token)) := by
  cases hresult : (before.world.search id).result with
  | none => exact h.notify_of_open hid hresult token
  | some result => exact h.notify_of_ended hresult token

/-- A call leaves those who have asked with what they may expect. -/
theorem Heard.issue (h : Heard before) (hdelivering : Delivering before.owed before.world)
    {action : Action κ} (hpossible : action.Possible before.world) :
    Heard (before.issue action) := by
  cases action with
  | addFrame attributes =>
      exact (h.called (.addFrame attributes) (by simp)).congr (fun _ => rfl) (fun _ => rfl) rfl rfl
  | addSearch context names mode =>
      -- nobody can have asked for the result of a search that is new
      have hsame : ∀ id, ((before.world.addSearch (.new context names mode)).2.search id).result =
          (before.world.search id).result ∧
          ((before.world.addSearch (.new context names mode)).2.search id).listeners =
            (before.world.search id).listeners := by
        intro id
        rw [search_addSearch]
        split
        · next hid =>
          rw [search_of_size_le (Nat.le_of_eq hid.symm)]
          exact ⟨rfl, rfl⟩
        · exact ⟨rfl, rfl⟩
      exact (h.called (.addSearch context names mode) (by simp)).congr (fun id => (hsame id).1)
        (fun id => (hsame id).2) rfl rfl
  | start id =>
      have hbegun := reports_begin hpossible (hdelivering.tended id).result_eq_none
      exact (h.called (.start id) (by simp)).advance hbegun.1
  | fulfil frame name value =>
      have hcalled := h.called (.fulfil frame name value) (by simp)
      by_cases hpending : before.world.content frame name = some none
      · rw [Moment.issue_fulfil_of_pending hpending]
        exact hcalled.congr (fun _ => rfl) (fun _ => rfl) rfl rfl
      · rw [Moment.issue_fulfil_of_ne_pending hpending]
        exact hcalled
  | notify id token => exact h.notify hpossible token
  | subscribe frame name token =>
      have hsearch : ∀ id, (before.world.request frame name (.observer token)).2.search id =
          before.world.search id := fun id => by rw [search, searches_request, search]
      refine (h.called (.subscribe frame name token) (by simp)).congr
        (fun id => congrArg Search.result (hsearch id))
        (fun id => congrArg Search.listeners (hsearch id)) rfl ?_
      simp only [Moment.issue, results_append]
      congr 1
      split <;> rfl

/-- What has been told, and is still to be told, is at every moment what ought to be told. -/
theorem Step.heard (hstep : Step before after) (hdelivering : Delivering before.owed before.world)
    (h : Heard before) : Heard after := by
  cases hstep with
  | issue action possible => exact h.issue hdelivering possible
  | @deliver value id index component rest next =>
      have hdue : Due before.owed id index := by
        rw [next]
        exact ⟨value, component, List.mem_cons_self⟩
      have hid := lt_size_of_started (hdelivering.started hdue)
      have hrest : Heard { before with owed := rest } :=
        h.congr (fun _ => rfl) (fun _ => rfl) rfl rfl
      exact hrest.advance (reports_deliver hid index component value)
  | hand next =>
      refine h.congr (fun _ => rfl) (fun _ => rfl) rfl ?_
      simp only [results_append]
      rfl
  | @tell token notice rest next =>
      refine h.congr (fun _ => rfl) (fun _ => rfl) ?_ ?_
      · exact (asked_append _ _).trans (List.append_nil _)
      · rw [next, told_append, List.append_assoc]
        rfl

end Heard

/-! ## What stays -/

/-- What has begun has begun for good, and what has ended has its result for good. -/
structure Keeps (before after : World κ) : Prop where
  started : ∀ id, (before.search id).started = true → (after.search id).started = true
  result : ∀ id result, (before.search id).result = some result →
    (after.search id).result = some result

section Keeps

theorem Keeps.of_search {before after : World κ}
    (h : ∀ id, after.search id = before.search id) : Keeps before after :=
  ⟨fun id hstarted => by rw [h, hstarted], fun id result hresult => by rw [h, hresult]⟩

/-- A search that is new takes the place of none. -/
theorem keeps_addSearch (world : World κ) (search : Search κ) :
    Keeps world (world.addSearch search).2 := by
  have hcases : ∀ id, world.search id = default ∨
      (world.addSearch search).2.search id = world.search id := by
    intro id
    by_cases hid : id.index = world.searches.size
    · exact .inl (search_of_size_le (Nat.le_of_eq hid.symm))
    · exact .inr ((search_addSearch ..).trans (if_neg hid))
  constructor
  · intro id hstarted
    rcases hcases id with hdefault | hsame
    · rw [hdefault] at hstarted
      cases hstarted
    · rw [hsame, hstarted]
  · intro id result hresult
    rcases hcases id with hdefault | hsame
    · rw [hdefault] at hresult
      cases hresult
    · rw [hsame, hresult]

theorem keeps_modifySearch (world : World κ) (id : SearchId) {change : Search κ → Search κ}
    (hstarted : (change (world.search id)).started = (world.search id).started)
    (hresult : (change (world.search id)).result = (world.search id).result) :
    Keeps world (world.modifySearch id change) := by
  constructor
  · intro other hother
    rw [search_modifySearch]
    split
    · next heq => rwa [hstarted, heq.1]
    · exact hother
  · intro other result hother
    rw [search_modifySearch]
    split
    · next heq => rwa [hresult, heq.1]
    · exact hother

theorem Reports.keeps {id : SearchId} {before : World κ} {step : List κ × World κ}
    (h : Reports id before step) : Keeps before step.2 := by
  constructor
  · intro other hstarted
    by_cases hother : other = id
    · exact hother ▸ h.started (hother ▸ hstarted)
    · rw [h.others other hother, hstarted]
  · intro other result hresult
    by_cases hother : other = id
    · subst hother
      rcases h.result with ⟨-, hsame, -⟩ | ⟨hopen, -, -⟩
      · rw [hsame, hresult]
      · exact absurd (hopen.symm.trans hresult) (by simp)
    · rw [h.others other hother, hresult]

variable {before after : Moment κ}

theorem Delivering.keeps_issue (h : Delivering before.owed before.world) {action : Action κ}
    (hpossible : action.Possible before.world) :
    Keeps before.world (before.issue action).world := by
  cases action with
  | addFrame attributes => exact .of_search fun _ => rfl
  | addSearch context names mode => exact keeps_addSearch before.world _
  | start id => exact (reports_begin hpossible (h.tended id).result_eq_none).1.keeps
  | fulfil frame name value =>
      refine .of_search fun id => ?_
      simp only [Moment.issue]
      split <;> rfl
  | notify id token =>
      cases hresult : (before.world.search id).result with
      | none =>
          rw [Moment.issue_notify_of_open hresult]
          exact keeps_modifySearch before.world id rfl rfl
      | some result =>
          rw [Moment.issue_notify_of_ended hresult]
          exact .of_search fun _ => rfl
  | subscribe frame name token =>
      refine .of_search fun id => ?_
      exact congrArg (fun searches => (searches[id.index]?).getD default) (searches_request ..)

theorem Step.keeps (hstep : Step before after) (h : Delivering before.owed before.world) :
    Keeps before.world after.world := by
  cases hstep with
  | issue action possible => exact h.keeps_issue possible
  | @deliver value id index component rest next =>
      have hid := lt_size_of_started (h.started ⟨value, component, next ▸ List.mem_cons_self⟩)
      exact (reports_deliver hid index component value).keeps
  | hand next => exact .of_search fun _ => rfl
  | tell next => exact .of_search fun _ => rfl

theorem Steps.keeps (hsteps : Steps before after) (h : Delivering before.owed before.world) :
    Keeps before.world after.world := by
  induction hsteps with
  | refl => exact .of_search fun _ => rfl
  | tail hbefore hlast ih =>
      have hkeeps := hlast.keeps (Steps.delivering hbefore h)
      exact ⟨fun id hstarted => hkeeps.started id (ih.started id hstarted),
        fun id result hresult => hkeeps.result id result (ih.result id result hresult)⟩

end Keeps

/-! ## Runs -/

section Runs

variable {moment : Moment κ}

theorem Arises.heard (h : Arises moment) : Heard moment := by
  induction h with
  | refl =>
      have hsearch : ∀ id, (∅ : World κ).search id = .new .empty [] .contextual :=
        fun id => search_of_size_le (Nat.zero_le _)
      exact ⟨fun id _ => congrArg Search.listeners (hsearch id), .refl _⟩
  | tail hbefore hlast ih => exact hlast.heard (Arises.delivering hbefore) ih

/-- A search that was made to begin has begun. -/
theorem Arises.started (h : Arises moment) {id : SearchId}
    (hcalled : .called (.start id) ∈ moment.chronicle) :
    (moment.world.search id).started = true := by
  induction h with
  | refl => cases hcalled
  | tail hbefore hlast ih =>
      have hdelivering := Arises.delivering hbefore
      have hkeeps := hlast.keeps hdelivering
      cases hlast with
      | issue action possible =>
          rw [Moment.chronicle_issue, List.mem_append] at hcalled
          rcases hcalled with hold | hnew
          · exact hkeeps.started id (ih hold)
          · obtain rfl : Action.start id = action := by simpa using hnew
            exact (reports_begin possible (hdelivering.tended id).result_eq_none).2
      | deliver next => exact hkeeps.started id (ih hcalled)
      | hand next => exact hkeeps.started id (ih hcalled)
      | tell next =>
          rw [List.mem_append] at hcalled
          rcases hcalled with hold | hnew
          · exact hkeeps.started id (ih hold)
          · simp at hnew

/-- What is final about the results of the searches, at a moment of a run. -/
structure Final (moment : Moment κ) : Prop where
  /-- A result that is there stays. -/
  once : ∀ later, Steps moment later → ∀ id result,
    (moment.world.search id).result = some result → (later.world.search id).result = some result
  /-- Who has asked for a result is told it once, now or soon, if the search has ended, and is not
  told anything otherwise. -/
  heard : (results (told moment.chronicle ++ moment.tidings)).Perm
    (answers moment.world (asked moment.chronicle))
  /-- To start a search again changes nothing. -/
  again : ∀ id, .called (.start id) ∈ moment.chronicle →
    moment.issue (.start id) =
      { moment with chronicle := moment.chronicle ++ [.called (.start id)] }
  /-- A value that comes after the end changes nothing. -/
  late : ∀ value id index component rest,
    moment.owed = ⟨value, .attempt id index component⟩ :: rest →
      (moment.world.search id).isCommitted = true →
        Moment.advance { moment with owed := rest } id (deliver id index component value) =
          { moment with owed := rest }

/-- A step that does nothing leads to the same moment. -/
theorem Moment.advance_eq_self {id : SearchId} {change : World κ → List κ × World κ}
    (h : change moment.world = ([], moment.world)) : moment.advance id change = moment := by
  rw [Moment.advance, h]
  simp only [announcement_nil, List.nil_append]

theorem Arises.final (h : Arises moment) : Final moment := by
  refine ⟨?_, h.heard.tellings, ?_, ?_⟩
  · intro later hsteps id result hresult
    exact (Steps.keeps hsteps h.delivering).result id result hresult
  · intro id hcalled
    exact Moment.advance_eq_self (begin_of_started (h.started hcalled))
  · intro value id index component rest _ hcommitted
    exact Moment.advance_eq_self (receive_of_committed hcommitted component _ value)

/-- In every run of calls, and whatever calls the observers make in between, a search has at most
one result, and everybody who has asked for it, before or after the start or the end of the search,
has been told it exactly once when the calls are over. -/
theorem result_final {observe : Observer κ (StateM (Chronicle κ))} (hacting : Acting observe)
    {stage : Stage κ} (hran : Ran observe stage) :
    (results (told stage.2)).Perm (answers stage.1 (asked stage.2)) ∧
      Arises (stage.moment [] []) ∧ ∀ moment : Moment κ, Arises moment → Final moment := by
  have harises := hacting.arises hran
  refine ⟨?_, harises, fun moment hmoment => hmoment.final⟩
  have htellings := harises.heard.tellings
  rwa [Stage.moment, List.append_nil] at htellings

/-- All three listeners of the first search have been told that it found a value: the one that was
there before the start, the one that came before the end, and the one that came after it. -/
theorem result_final_relay :
    Acting (starting ⟨1⟩ : Observer Nat _) ∧ Ran (starting ⟨1⟩) relay ∧
      (results (told relay.2)).Perm
        [(7, .ok (.bool true)), (8, .ok (.bool true)), (9, .ok (.bool true))] := by
  have htold := (result_final (acting_starting ⟨1⟩) ran_relay).1
  have hanswers : answers relay.1 (asked relay.2) =
      [(7, .ok (.bool true)), (8, .ok (.bool true)), (9, .ok (.bool true))] := by decide +kernel
  rw [hanswers] at htold
  exact ⟨acting_starting ⟨1⟩, ran_relay, htold⟩

end Runs

end FrameLang.World
