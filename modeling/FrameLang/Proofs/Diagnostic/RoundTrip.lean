import FrameLang.Diagnostic.Encoding
import FrameLang.Proofs.Json.RoundTrip
import Mathlib.Data.Option.Basic
import Mathlib.Data.List.TakeWhile

/-!
# Reports survive being written

A report that is written as text and read again is the same report
(`Report.read?_toJson_toText`), whatever its texts, numbers and sets of kinds are.

## Strategy

`Json.read?_toText` gives back the record that was written, so what is left is to read
the fields out of it.  The flags of a set of kinds are a text inside the text: the bars
between them are found again because no flag has one (`ofFlags?_toFlags`).  The fields of
a record are told apart by their names, and an absent one is not found.

The reader of a diagnostic keeps every field until it knows the record, so the four
numbers of the region have to be values that can be kept (`canKeep_toMembers`).
-/

namespace FrameLang

/-! ## Flags -/

namespace Text

theorem splitOn_of_not_mem {separator : Char} {text : List Char} (h : separator ∉ text) :
    splitOn separator text = [text] := by
  induction text with
  | nil => rfl
  | cons c text ih =>
      have hc : c ≠ separator := fun heq => h (by simp [heq])
      simp [splitOn, hc, ih fun hmem => h (List.mem_cons_of_mem _ hmem)]

theorem splitOn_append {separator : Char} {piece : List Char} (h : separator ∉ piece)
    (rest : List Char) :
    splitOn separator (piece ++ separator :: rest) = piece :: splitOn separator rest := by
  induction piece with
  | nil => simp [splitOn]
  | cons c piece ih =>
      have hc : c ≠ separator := fun heq => h (by simp [heq])
      simp [splitOn, hc, ih fun hmem => h (List.mem_cons_of_mem _ hmem)]

theorem trim_ne_nil {text : List Char} {c : Char} (hc : isBlank c = false) :
    trim (c :: text) ≠ [] := by
  intro h
  rw [trim, List.reverse_eq_nil_iff, List.dropWhile_eq_nil_iff] at h
  have := h c (by simp [hc])
  simp [hc] at this

end Text

namespace Kinds

/-- A flag with or without a blank on either side. -/
def padded (before after : Bool) (kind : Kind) : List Char :=
  (if before then [' '] else []) ++ kind.flag.toList ++ (if after then [' '] else [])

theorem bar_not_mem_padded (before after : Bool) (kind : Kind) :
    '|' ∉ padded before after kind := by
  cases kind <;> cases before <;> cases after <;> decide

theorem ofFlag?_trim_padded (before after : Bool) (kind : Kind) :
    ofFlag? (Text.trim (padded before after kind)) = some {kind} := by
  cases kind <;> cases before <;> cases after <;> decide

/-- The flags of a list of kinds as they are written, but for a blank that may stand
before the first one. -/
def flagsOf (before : Bool) (kind : Kind) : List Kind → List Char
  | [] => padded before false kind
  | next :: rest => padded before true kind ++ '|' :: flagsOf true next rest

theorem toList_toFlags {kinds : Kinds} {kind : Kind} {rest : List Kind}
    (h : kinds.toList = kind :: rest) : kinds.toFlags.toList = flagsOf false kind rest := by
  have (before : Bool) (kind : Kind) (rest : List Kind) :
      (if before then [' '] else []) ++ [' ', '|', ' '].intercalate
        ((kind :: rest).map fun kind => kind.flag.toList) = flagsOf before kind rest := by
    induction rest generalizing before kind with
    | nil => simp [flagsOf, padded, List.intercalate]
    | cons next rest ih =>
        have hrest := ih true next
        simp only [List.map_cons, if_true] at hrest
        simp [flagsOf, padded, ← hrest, List.intercalate]
  rw [toFlags, String.toList_intercalate, h, ← this false kind rest]
  simp [Function.comp_def]

/-- The sets of the flags are added up from the left. -/
theorem foldlM_flagsOf (known : Kinds) (before : Bool) (kind : Kind) (rest : List Kind) :
    (Text.splitOn '|' (flagsOf before kind rest)).foldlM
        (fun kinds flag => (ofFlag? (Text.trim flag)).map (kinds ∪ ·)) known =
      some ((kind :: rest).foldl (fun kinds kind => kinds ∪ {kind}) known) := by
  induction rest generalizing known before kind with
  | nil =>
      rw [flagsOf, Text.splitOn_of_not_mem (bar_not_mem_padded _ _ _)]
      simp [ofFlag?_trim_padded]
  | cons next rest ih =>
      rw [flagsOf, Text.splitOn_append (bar_not_mem_padded _ _ _)]
      simp [ofFlag?_trim_padded, ih]

theorem mem_foldl_union (kinds : List Kind) (known : Kinds) (kind : Kind) :
    kind ∈ kinds.foldl (fun kinds kind => kinds ∪ {kind}) known ↔
      kind ∈ known ∨ kind ∈ kinds := by
  induction kinds generalizing known with
  | nil => simp
  | cons first kinds ih => simp [ih, or_assoc]

theorem trim_flagsOf_ne_nil (kind : Kind) (rest : List Kind) :
    Text.trim (flagsOf false kind rest) ≠ [] := by
  obtain ⟨c, more, hflag, hc⟩ :
      ∃ c more, kind.flag.toList = c :: more ∧ Text.isBlank c = false := by
    cases kind <;> exact ⟨_, _, rfl, by decide⟩
  cases rest <;> simpa [flagsOf, padded, hflag] using Text.trim_ne_nil hc

/-- The flags of a set are read as the set. -/
theorem ofFlags?_toFlags (kinds : Kinds) : ofFlags? kinds.toFlags = some kinds := by
  cases hlist : kinds.toList with
  | nil =>
      have hempty : kinds = ∅ := eq_empty_iff.mpr fun kind hkind => by
        simp [← mem_toList, hlist] at hkind
      subst hempty
      decide
  | cons kind rest =>
      rw [ofFlags?, toList_toFlags hlist, if_neg (by simpa using trim_flagsOf_ne_nil kind rest),
        foldlM_flagsOf, ← hlist]
      refine congrArg some (ext fun kind => ?_)
      simp [mem_foldl_union]

@[simp] theorem ofJson?_toJson (kinds : Kinds) : ofJson? kinds.toJson = some kinds :=
  ofFlags?_toFlags kinds

end Kinds

/-! ## Words -/

theorem Severity.ofJson?_word (severity : Severity) :
    Severity.ofJson? (.text severity.word) = some severity := by
  cases severity <;> decide

theorem Category.ofJson?_word (category : Category) :
    Category.ofJson? (.text category.word) = some category := by
  cases category <;> decide

/-! ## Numbers -/

namespace Json

theorem asNatBelow?_nat {bound value : Nat} (h : value < bound) :
    asNatBelow? bound (.nat value) = some value := by
  simp [asNatBelow?, nat, Numeral.toNat?, Numeral.ofNat, h]

theorem asUInt16?_nat (value : UInt16) : asUInt16? (.nat value.toNat) = some value := by
  simp [asUInt16?, asNatBelow?_nat value.toNat_lt]

theorem asUInt32?_nat (value : UInt32) : asUInt32? (.nat value.toNat) = some value := by
  simp [asUInt32?, asNatBelow?_nat value.toNat_lt]

theorem asText?_text (value : String) : asText? (.text value) = some value := rfl

theorem asOption?_text (value : String) :
    asOption? asText? (.text value) = some (some value) := rfl

/-- A number of at most 64 bits is in the range of floating-point numbers. -/
theorem sound_nat {value outer : Nat} (hvalue : value < UInt64.size) (houter : outer ≤ maxDepth) :
    (nat value).sound outer = true := by
  have hkept : (Numeral.ofNat value).kept = ⟨value, 0⟩ := by
    simp [Numeral.kept, Numeral.ofNat, Numeral.extend, Numeral.leading, hvalue]
  simp [sound, nat, whole, depth, Numeral.finite, hkept, houter]

/-! ## Records -/

theorem spelledMembers_map {members : List (String × Json)}
    (h : ∀ member ∈ members, member.2.Spelled) :
    SpelledMembers (members.map fun member => (some member.1, member.2)) := by
  induction members with
  | nil => trivial
  | cons member members ih =>
      exact ⟨rfl, h member (by simp), ih fun member hmember =>
        h member (List.mem_cons_of_mem _ hmember)⟩

theorem spelledItems_of {items : List Json} (h : ∀ item ∈ items, item.Spelled) :
    SpelledItems items := by
  induction items with
  | nil => trivial
  | cons item items ih =>
      exact ⟨h item (by simp), ih fun item hitem => h item (List.mem_cons_of_mem _ hitem)⟩

theorem spelled_record {members : List (String × Json)}
    (h : ∀ member ∈ members, member.2.Spelled) : (record members).Spelled :=
  spelledMembers_map h

theorem spelled_text (value : String) : (text value).Spelled := rfl

theorem spelled_nat (value : Nat) : (nat value).Spelled := by
  simp [nat, Spelled, Numeral.ofNat]

end Json

open Json

theorem Conflict.ofJson?_toJson (conflict : Conflict) :
    Conflict.ofJson? conflict.toJson = some conflict := by
  simp [guard, toJson, ofJson?, record, namesAreText, required?, given]

theorem Conflict.asOption?_toJson (conflict : Conflict) :
    asOption? Conflict.ofJson? conflict.toJson = some (some conflict) :=
  congrArg (Option.map some) conflict.ofJson?_toJson

theorem Conflict.spelled_toJson (conflict : Conflict) : conflict.toJson.Spelled :=
  spelled_record (by simp [Kinds.toJson, spelled_text])

namespace Diagnostic

/-- The members of a diagnostic's record. -/
def toMembers (diagnostic : Diagnostic) : List (String × Json) :=
  [("file", .text diagnostic.file), ("code", .nat diagnostic.code.number.toNat),
    ("severity", .text diagnostic.severity.word),
    ("category", .text diagnostic.category.word),
    ("message", .text diagnostic.message)] ++ diagnostic.span.toMembers ++
    (diagnostic.conflict.map fun conflict => ("conflict", conflict.toJson)).toList ++
    (diagnostic.suggestion.map fun suggestion => ("suggestion", Json.text suggestion)).toList

theorem toJson_eq (diagnostic : Diagnostic) : diagnostic.toJson = .record diagnostic.toMembers :=
  rfl

theorem spelled_toJson (diagnostic : Diagnostic) : diagnostic.toJson.Spelled := by
  refine spelled_record ?_
  rcases diagnostic with
      ⟨file, code, severity, category, message, span, - | conflict, - | suggestion⟩ <;>
    simp [Span.toMembers, spelled_text, spelled_nat, Conflict.spelled_toJson]

/-- Every field of a diagnostic can be kept until the record is known. -/
theorem canKeep_toMembers (diagnostic : Diagnostic) {outer : Nat} (houter : outer ≤ maxDepth) :
    ∀ member ∈ diagnostic.toMembers, canKeep outer (some member.1, member.2) = true := by
  have hnumber (value : UInt32) : (nat value.toNat).sound outer = true :=
    sound_nat (Nat.lt_trans value.toNat_lt (by decide)) houter
  rcases diagnostic with
      ⟨file, code, severity, category, message, span, - | conflict, - | suggestion⟩ <;>
    simp [toMembers, Span.toMembers, canKeep, ownFields, hnumber]

/-- The record of a diagnostic is read as that diagnostic. -/
theorem ofJson?_toJson (diagnostic : Diagnostic) {outer : Nat} (houter : outer ≤ maxDepth) :
    ofJson? outer diagnostic.toJson = some diagnostic := by
  have hkeep : (diagnostic.toMembers.map fun member => (some member.1, member.2)).all
      (canKeep outer) = true := by
    simpa using canKeep_toMembers diagnostic houter
  rw [toJson_eq, record, ofJson?]
  simp only [hkeep]
  rcases diagnostic with
      ⟨file, code, severity, category, message, span, - | conflict, - | suggestion⟩ <;>
    simp [guard, toMembers, Span.toMembers, Span.ofMembers?, required?, withDefault?, given,
      asText?_text, asUInt16?_nat, asUInt32?_nat, Severity.ofJson?_word,
      Category.ofJson?_word, asOption?_text, Conflict.asOption?_toJson]

theorem listOfJson?_map (diagnostics : List Diagnostic) :
    listOfJson? (.array (diagnostics.map toJson)) = some diagnostics := by
  rw [listOfJson?, asList?]
  induction diagnostics with
  | nil => rfl
  | cons diagnostic diagnostics ih =>
      have hfirst : ofJson? 3 diagnostic.toJson = some diagnostic :=
        ofJson?_toJson diagnostic (by decide)
      simp [hfirst, ih]

theorem spelled_list (diagnostics : List Diagnostic) :
    (Json.array (diagnostics.map toJson)).Spelled :=
  spelledItems_of fun item hitem => by
    obtain ⟨diagnostic, -, rfl⟩ := List.mem_map.mp hitem
    exact spelled_toJson diagnostic

/-- The text of a diagnostic is read as that diagnostic. -/
theorem read?_toJson (diagnostic : Diagnostic) :
    Diagnostic.read? diagnostic.toJson.toText = some diagnostic := by
  rw [Diagnostic.read?, Json.read?_toText diagnostic.spelled_toJson]
  exact ofJson?_toJson diagnostic (by decide)

end Diagnostic

/-! ## Reports -/

namespace Report

theorem spelled_toJson (report : Report) : report.toJson.Spelled :=
  spelled_record (by simp [Diagnostic.spelled_list, spelled_nat])

theorem ofJson?_toJson {report : Report} (herrors : report.totalErrors < UInt64.size)
    (hwarnings : report.totalWarnings < UInt64.size) :
    ofJson? report.toJson = some report := by
  simp [guard, toJson, record, ofJson?, namesAreText, required?, given, asCount?,
    Diagnostic.listOfJson?_map, asNatBelow?_nat herrors, asNatBelow?_nat hwarnings]

/-- The text of a report is read as that report, as long as its counts fit into 64 bits:
every list keeps its order, every text its characters, and what is absent stays absent. -/
theorem read?_toJson_toText {report : Report} (errorsFit : report.totalErrors < UInt64.size)
    (warningsFit : report.totalWarnings < UInt64.size) :
    Report.read? report.toJson.toText = some report := by
  rw [Report.read?, Json.read?_toText report.spelled_toJson]
  exact ofJson?_toJson errorsFit warningsFit

/-- A report with every character that is escaped, the largest numbers, an empty set of
kinds and fields that are absent. -/
def awkward : Report where
  errors :=
    [⟨"\"\\/\x08\x0c\n\x0d\t\x00\x1f.fb", ⟨65535⟩, .warning, .dispatch, "",
        ⟨0, 1, 4294967295, 7⟩, some ⟨∅, .any⟩, none⟩,
      ⟨"", ⟨0⟩, .error, .type, "\x7fé𝄞 “\\u0041”", .nowhere, none, some " | "⟩]
  warnings := []
  totalErrors := 18446744073709551615
  totalWarnings := 0

theorem read?_toJson_toText_awkward :
    awkward.totalErrors < UInt64.size ∧ awkward.totalWarnings < UInt64.size ∧
      Report.read? awkward.toJson.toText = some awkward :=
  ⟨by decide, by decide, read?_toJson_toText (by decide) (by decide)⟩

end Report

end FrameLang
