import FrameLang.Report
import Mathlib.Data.Finset.Card

/-!
# What a report counts and keeps

Whatever is reported to one reporter, and however often, its report counts each finding
once, keeps the first twenty of them, and keeps each as it was reported first
(`Reporter.counts_and_stores`).

## Strategy

Complaints of every sort are a diagnostic that is pushed (`Reporter.take_eq_push`), so it
is enough to follow `push`.  What a reporter holds after some complaints is told from the
complaints that come first with their findings (`Reporter.Holds`).  One more complaint
either has a finding that is known, and then neither the reporter nor these complaints
change, or it comes last among them (`Complaint.firsts_concat`).  The reporter goes by the
findings that it has seen, and not by the errors that it has kept: a repetition is also
dropped when there was no room for what it repeats.
-/

namespace FrameLang

/-- Something to report: a broken rule, a conflict over a name, over the mask of an inherited name
or over an expression, or a lookup of a hidden name. -/
inductive Complaint where
  | brokenRule (code : Code) (message : String) (span : Span)
  | nameConflict (span : Span) (name : String) (known demanded : Kinds)
  | maskConflict (span : Span) (name : String) (known mask : Kinds)
  | expressionConflict (span : Span) (known demanded : Kinds)
  | forbiddenName (span : Span) (name : String)
  deriving DecidableEq, Repr

namespace Complaint

/-! ## What a complaint says -/

/-- The code, region and message of a complaint. -/
def finding : Complaint → Finding
  | brokenRule code message span => ⟨code, span, message⟩
  | nameConflict span name known demanded =>
      ⟨.conflictingName, span, Reporter.conflictMessage name known demanded⟩
  | maskConflict span name known mask =>
      ⟨.conflictingName, span, Reporter.conflictMessage name known mask⟩
  | expressionConflict span known demanded =>
      ⟨.conflictingExpression, span,
        s!"Expression can only be {known.describe}, but {demanded.describe} is required."⟩
  | forbiddenName span name => ⟨.forbiddenName, span, s!"Lookup for “{name}” is forbidden."⟩

/-- The two sets of kinds that a complaint names. -/
def conflict : Complaint → Option Conflict
  | brokenRule .. | forbiddenName .. => none
  | nameConflict _ _ known demanded | maskConflict _ _ known demanded
  | expressionConflict _ known demanded => some ⟨known, demanded⟩

/-- What a complaint suggests.  This alone tells a conflict over a mask from one over a name. -/
def suggestion : Complaint → Option String
  | maskConflict _ name known _ =>
      some s!"“{name}” is defined in an enclosing scope as {known.describe}."
  | brokenRule .. | nameConflict .. | expressionConflict .. | forbiddenName .. => none

/-- The error that a complaint is, in some file. -/
def diagnostic (file : String) (complaint : Complaint) : Diagnostic where
  file := file
  code := complaint.finding.code
  severity := .error
  category := complaint.finding.code.category
  message := complaint.finding.message
  span := complaint.finding.span
  conflict := complaint.conflict
  suggestion := complaint.suggestion

@[simp] theorem finding_diagnostic (file : String) (complaint : Complaint) :
    (complaint.diagnostic file).finding = complaint.finding :=
  rfl

/-! ## The first complaint with each finding -/

/-- The complaints that do not repeat the finding of an earlier one. -/
def firsts (complaints : List Complaint) : List Complaint :=
  complaints.eraseDupsBy fun later earlier => later.finding == earlier.finding

theorem firsts_cons (complaint : Complaint) (rest : List Complaint) :
    firsts (complaint :: rest) = complaint ::
      firsts (rest.filter fun later => (later.finding == complaint.finding) = false) :=
  List.eraseDupsBy_cons

/-- One more complaint is a first one unless its finding is known. -/
theorem firsts_concat : ∀ (complaints : List Complaint) (last : Complaint),
    firsts (complaints ++ [last]) =
      if last.finding ∈ complaints.map finding then firsts complaints
      else firsts complaints ++ [last]
  | [], last => rfl
  | complaint :: rest, last => by
      rw [List.cons_append, firsts_cons, firsts_cons, List.filter_append, List.map_cons]
      by_cases hfirst : last.finding = complaint.finding
      · have hnone : [last].filter
            (fun later => (later.finding == complaint.finding) = false) = [] := by
          simp [hfirst]
        rw [hnone, List.append_nil, hfirst, if_pos List.mem_cons_self]
      · have hkept : [last].filter
            (fun later => (later.finding == complaint.finding) = false) = [last] := by
          simp [hfirst]
        have hknown : last.finding ∈ (rest.filter fun later =>
            (later.finding == complaint.finding) = false).map finding ↔
            last.finding ∈ complaint.finding :: rest.map finding := by
          simp only [List.mem_map, List.mem_filter, List.mem_cons, hfirst, false_or]
          constructor
          · rintro ⟨later, ⟨hlater, -⟩, heq⟩
            exact ⟨later, hlater, heq⟩
          · rintro ⟨later, hlater, heq⟩
            exact ⟨later, ⟨hlater, by simpa [heq] using hfirst⟩, heq⟩
        rw [hkept, firsts_concat _ last]
        simp only [hknown]
        split <;> rfl
termination_by complaints => complaints.length
decreasing_by exact Nat.lt_succ_of_le (List.length_filter_le _ _)

/-- The first complaints have the findings of all of them, each once. -/
theorem mem_map_firsts {complaints : List Complaint} {finding : Finding} :
    finding ∈ (firsts complaints).map Complaint.finding ↔
      finding ∈ complaints.map Complaint.finding := by
  induction complaints using List.reverseRecOn with
  | nil => exact Iff.rfl
  | append_singleton complaints last ih =>
      rw [firsts_concat, List.map_append, List.mem_append, List.map_singleton,
        List.mem_singleton]
      split
      · next hknown =>
        rw [ih]
        exact ⟨.inl, fun h => h.elim id fun heq => heq ▸ hknown⟩
      · rw [List.map_append, List.mem_append, ih, List.map_singleton, List.mem_singleton]

theorem nodup_map_firsts (complaints : List Complaint) :
    ((firsts complaints).map finding).Nodup := by
  induction complaints using List.reverseRecOn with
  | nil => exact List.nodup_nil
  | append_singleton complaints last ih =>
      rw [firsts_concat]
      split
      · exact ih
      · next hnew =>
        rw [List.map_append, List.map_singleton, ← List.concat_eq_append]
        exact ih.concat fun hmem => hnew (mem_map_firsts.mp hmem)

theorem length_firsts (complaints : List Complaint) :
    (firsts complaints).length = (complaints.map finding).toFinset.card := by
  have hsame : ((firsts complaints).map finding).toFinset =
      (complaints.map finding).toFinset := by
    ext finding
    rw [List.mem_toFinset, List.mem_toFinset, mem_map_firsts]
  rw [← hsame, List.toFinset_card_of_nodup (nodup_map_firsts complaints), List.length_map]

/-- Each of the first complaints is the one that a search for its finding comes to. -/
theorem find?_of_mem_firsts {complaints : List Complaint} {complaint : Complaint}
    (h : complaint ∈ firsts complaints) :
    complaints.find? (fun other => other.finding = complaint.finding) = some complaint := by
  induction complaints using List.reverseRecOn with
  | nil => simp [firsts] at h
  | append_singleton complaints last ih =>
      rw [firsts_concat] at h
      rw [List.find?_append]
      split at h
      · rw [ih h, Option.some_or]
      · next hnew =>
        rcases List.mem_append.mp h with hmem | hmem
        · rw [ih hmem, Option.some_or]
        · obtain rfl := List.mem_singleton.mp hmem
          have hnone : complaints.find? (fun other => other.finding = complaint.finding) =
              none := by
            rw [List.find?_eq_none]
            intro other hother heq
            exact hnew (List.mem_map.mpr ⟨other, hother, of_decide_eq_true heq⟩)
          rw [hnone, Option.none_or]
          simp

end Complaint

/-! ## What a reporter holds -/

namespace Reporter

/-- Report a complaint in the way that is meant for it. -/
def take (reporter : Reporter) : Complaint → Reporter
  | .brokenRule code message span => reporter.error code message span
  | .nameConflict span name known demanded => reporter.nameConflict span name known demanded
  | .maskConflict span name known mask => reporter.maskConflict span name known mask
  | .expressionConflict span known demanded => reporter.expressionConflict span known demanded
  | .forbiddenName span name => reporter.forbiddenName span name

/-- What a reporter for some file holds after some complaints. -/
structure Holds (file : String) (complaints : List Complaint) (reporter : Reporter) : Prop where
  file_eq : reporter.file = file
  seen : reporter.seen.reverse = (Complaint.firsts complaints).map Complaint.finding
  errors : reporter.report.errors =
    ((Complaint.firsts complaints).take Report.capacity).map (Complaint.diagnostic file)
  total : reporter.report.totalErrors = (Complaint.firsts complaints).length
  warnings : reporter.report.warnings = []
  totalWarnings : reporter.report.totalWarnings = 0

theorem holds_new (file : String) : Holds file [] (new file) := ⟨rfl, rfl, rfl, rfl, rfl, rfl⟩

/-- In every way of reporting it is the diagnostic of the complaint that is pushed. -/
theorem take_eq_push (reporter : Reporter) (complaint : Complaint) :
    reporter.take complaint = reporter.push (complaint.diagnostic reporter.file) := by
  cases complaint <;> rfl

/-- A list that is cut off is not changed by what is put behind it. -/
theorem errors_addError {report : Report} {complaints : List Complaint} {file : String}
    (h : report.errors = (complaints.take Report.capacity).map (Complaint.diagnostic file))
    (last : Complaint) :
    (report.addError (last.diagnostic file)).errors =
      ((complaints ++ [last]).take Report.capacity).map (Complaint.diagnostic file) := by
  have hlength : report.errors.length = min Report.capacity complaints.length := by
    rw [h, List.length_map, List.length_take]
  unfold Report.addError
  split
  · next hroom =>
    have hfew : complaints.length < Report.capacity := by omega
    rw [h, List.take_of_length_le (Nat.le_of_lt hfew), List.take_of_length_le,
      List.map_append, List.map_singleton]
    rw [List.length_append]
    exact hfew
  · next hfull =>
    rw [h, List.take_append_of_le_length]
    omega

/-- One complaint more. -/
theorem Holds.take {file : String} {complaints : List Complaint} {reporter : Reporter}
    (h : Holds file complaints reporter) (last : Complaint) :
    Holds file (complaints ++ [last]) (reporter.take last) := by
  have hseen : last.finding ∈ reporter.seen ↔ last.finding ∈ complaints.map Complaint.finding := by
    rw [← List.mem_reverse, h.seen, Complaint.mem_map_firsts]
  rw [take_eq_push, h.file_eq, push, Complaint.finding_diagnostic]
  by_cases hknown : last.finding ∈ complaints.map Complaint.finding
  · have hsame : Complaint.firsts (complaints ++ [last]) = Complaint.firsts complaints := by
      rw [Complaint.firsts_concat, if_pos hknown]
    rw [if_pos (hseen.mpr hknown)]
    exact ⟨h.file_eq, hsame ▸ h.seen, hsame ▸ h.errors, hsame ▸ h.total, h.warnings,
      h.totalWarnings⟩
  · have hmore : Complaint.firsts (complaints ++ [last]) =
        Complaint.firsts complaints ++ [last] := by
      rw [Complaint.firsts_concat, if_neg hknown]
    rw [if_neg fun hmem => hknown (hseen.mp hmem)]
    refine ⟨h.file_eq, ?_, ?_, ?_, h.warnings, h.totalWarnings⟩
    · rw [hmore, List.reverse_cons, h.seen, List.map_append, List.map_singleton]
    · rw [hmore]
      exact errors_addError h.errors last
    · rw [hmore, List.length_append]
      exact congrArg (· + 1) h.total

theorem Holds.foldl {file : String} {before : List Complaint} {reporter : Reporter}
    (h : Holds file before reporter) (complaints : List Complaint) :
    Holds file (before ++ complaints) (complaints.foldl Reporter.take reporter) := by
  induction complaints generalizing before reporter with
  | nil => rwa [List.append_nil]
  | cons complaint rest ih =>
      rw [List.append_cons]
      exact ih (h.take complaint)

/-! ## Whole runs -/

/-- The report of a reporter for some file, given all that it has been told. -/
structure CountsAndStores (file : String) (complaints : List Complaint) (reporter : Reporter) :
    Prop where
  /-- The errors are counted by their findings. -/
  total : reporter.report.totalErrors = (complaints.map Complaint.finding).toFinset.card
  /-- The first complaints are kept, as errors, in the order in which they came. -/
  errors : reporter.report.errors =
    ((Complaint.firsts complaints).take Report.capacity).map (Complaint.diagnostic file)
  /-- There is room for twenty of them. -/
  number : reporter.report.errors.length = min 20 reporter.report.totalErrors
  distinct : (reporter.report.errors.map Diagnostic.finding).Nodup
  /-- What is kept has the conflict and the suggestion with which its finding came first. -/
  original : ∀ error ∈ reporter.report.errors, ∃ complaint,
    complaints.find? (fun other => other.finding = error.finding) = some complaint ∧
      error.conflict = complaint.conflict ∧ error.suggestion = complaint.suggestion
  success : reporter.success = true ↔ complaints = []

/-- A report counts each finding once, however often it is reported, and keeps the first twenty,
each as it was reported first.  A check that reports anything at all does not succeed. -/
theorem counts_and_stores (file : String) (complaints : List Complaint) :
    CountsAndStores file complaints (complaints.foldl take (new file)) := by
  have h : Holds file complaints (complaints.foldl take (new file)) :=
    (holds_new file).foldl complaints
  have htotal := h.total.trans (Complaint.length_firsts complaints)
  refine ⟨htotal, h.errors, ?_, ?_, fun error herror => ?_, ?_⟩
  · rw [h.errors, h.total, List.length_map, List.length_take]
    rfl
  · rw [h.errors, List.map_map]
    exact (Complaint.nodup_map_firsts complaints).sublist ((List.take_sublist ..).map _)
  · rw [h.errors] at herror
    obtain ⟨complaint, hcomplaint, rfl⟩ := List.mem_map.mp herror
    exact ⟨complaint, Complaint.find?_of_mem_firsts (List.mem_of_mem_take hcomplaint), rfl, rfl⟩
  · have hsuccess : (complaints.foldl take (new file)).success = true ↔
        (complaints.map Complaint.finding).toFinset.card = 0 := by
      simp [success, Report.hasErrors, htotal]
    rw [hsuccess, Finset.card_eq_zero, List.toFinset_eq_empty_iff, List.map_eq_nil_iff]

/-- A conflict over a mask that repeats one over the name loses its suggestion. -/
example (file : String) (span : Span) (name : String) (known mask : Kinds) :
    ((new file).nameConflict span name known mask).maskConflict span name known mask =
      (new file).nameConflict span name known mask :=
  if_pos (show _ ∈ [_] from List.mem_singleton_self _)

end Reporter

end FrameLang
