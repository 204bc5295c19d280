import GrammarAudit.Number.Reading
import GrammarAudit.Report.Leaves

/-!
# Documents

A report as a JSON value and back. Reading takes the values of the sections as they are, except
for the closed sets of names, the flags, the lists and the counts.

- `Document.toJson`: the value of a document.
- `Document.ofJson`: the document of a value, or the first thing that is wrong with it.
- `ReadError`: what can be wrong, with its wording.
-/

namespace GrammarAudit

/-! ## Writing -/

/-- The value of a rule. -/
def RuleRecord.toJson (r : RuleRecord Json Json) : Json :=
  .object [
    ("name", r.name), ("type", .str r.kind.label), ("line", r.line), ("column", r.column),
    ("end_line", r.endLine), ("end_column", r.endColumn), ("text", r.text),
    ("alternative_count", r.alternativeCount), ("references", .list r.references),
    ("referenced_by", .list r.referencedBy)]

/-- The value of an unused rule. -/
def UnusedRecord.toJson (u : UnusedRecord Json Json) : Json :=
  .object [
    ("name", u.name), ("type", .str u.kind.label), ("line", u.line), ("column", u.column),
    ("suggestion", u.suggestion)]

/-- The value of figures. -/
def MetricsRecord.toJson (m : MetricsRecord Json Json) : Json :=
  .object [
    ("name", m.name), ("type", .str m.kind.label), ("line", m.line), ("depth", m.depth),
    ("alternatives", m.alternatives), ("reference_count", m.referenceCount),
    ("directly_recursive", .bool m.directlyRecursive),
    ("indirectly_recursive", .bool m.indirectlyRecursive), ("lookahead", m.lookahead),
    ("score", .str m.grade.label), ("complexity_value", m.value)]

/-- The value of an issue. -/
def IssueRecord.toJson (i : IssueRecord Json Json) : Json :=
  .object [
    ("rule", i.rule), ("type", .str i.kind.label), ("line", i.line), ("column", i.column),
    ("severity", .str i.severity.label), ("issue", i.issue), ("description", i.description),
    ("suggestion", i.suggestion), ("category", .str i.category.label)]

/-- The value of a hint. -/
def HintRecord.toJson (h : HintRecord Json Json) : Json :=
  .object [
    ("rule", h.rule), ("line", h.line), ("alternative_indices", .list h.alternatives),
    ("common_prefix", .list h.commonTokens), ("description", h.description)]

/-- The value of a mention of an undefined name. -/
def DanglingRecord.toJson (d : DanglingRecord Json Json) : Json :=
  .object [("rule", d.rule), ("name", d.name), ("line", d.line), ("column", d.column)]

/-- The value of a tally. -/
def Tally.toJson (t : Tally) : Json :=
  .object <| [
    ("info", .int t.info), ("warning", .int t.warning), ("error", .int t.error),
    ("critical", .int t.critical)] ++ t.others.map fun (k, n) => (k, .int n)

/-- The value of a summary. -/
def Summary.toJson (s : Summary) : Json :=
  .object [
    ("total_rules", .int s.totalRules), ("parser_rules", .int s.parserRules),
    ("lexer_rules", .int s.lexerRules), ("fragment_rules", .int s.fragmentRules),
    ("unused_rules", .int s.unusedRules), ("high_complexity_rules", .int s.highComplexityRules),
    ("performance_issues", .int s.performanceIssues), ("ambiguity_hints", .int s.ambiguityHints),
    ("issues_by_severity", s.tally.toJson)]

/-- The value of a document. -/
def Document.toJson (d : Document) : Json :=
  .object [
    ("summary", d.summary.toJson),
    ("rules", .list (d.rules.map RuleRecord.toJson)),
    ("unused_rules", .list (d.unused.map UnusedRecord.toJson)),
    ("complexity", .list (d.complexity.map MetricsRecord.toJson)),
    ("performance_issues", .list (d.issues.map IssueRecord.toJson)),
    ("ambiguity_hints", .list (d.hints.map HintRecord.toJson)),
    ("unresolved_references", .list (d.dangling.map DanglingRecord.toJson)),
    ("timestamp", .num (.real d.timestamp)),
    ("duration", .num (.real d.duration)),
    ("grammar_hash", .str d.fingerprint)]

/-! ## Errors -/

/-- What can be wrong with a value that should be a document. -/
inductive ReadError where
  | missingField (name : String)
  | notMember (shown set : String)
  | notInteger (shown : String)
  | notNumber (shown : String)
  | nanInteger
  | outOfRange
  | wrongShape
  | noFields
deriving DecidableEq, Repr

/-- The wording of an error, where it has one. -/
def ReadError.message? : ReadError → Option String
  | missingField name => some name
  | notMember shown set => some (shown ++ " is not a valid " ++ set)
  | notInteger shown => some ("invalid literal for int() with base 10: " ++ shown)
  | notNumber shown => some ("could not convert string to float: " ++ shown)
  | nanInteger => some "cannot convert float NaN to integer"
  | outOfRange | wrongShape | noFields => none

/-! ## Reading values -/

/-- The outcome of reading. -/
abbrev Reading := Except ReadError

/-- A required field. -/
def Json.get (value : Json) (name : String) : Reading Json :=
  match value with
  | .object fields =>
    match Json.field? fields name with
    | some v => .ok v
    | none => .error (.missingField name)
  | _ => .error .wrongShape

/-- A field that may be missing. -/
def Json.getOr (value : Json) (name : String) (default : Json) : Json :=
  match value with
  | .object fields => (Json.field? fields name).getD default
  | _ => default

/-- The parts of a value: items of a list, characters of a text, names of an object's fields. -/
def Json.parts : Json → Reading (List Json)
  | .list items => .ok items
  | .str s => .ok (s.toList.map fun c => .str (String.singleton c))
  | .object fields => .ok (fields.map fun (k, _) => .str k)
  | _ => .error .wrongShape

/-- The most characters of a text that an error about it shows. -/
def shownLimit : Nat := 200

/-- A count: an integer, a number cut towards zero, a flag or a text that holds an integer. -/
def Json.toCount : Json → Reading Int
  | .num (.int n) => .ok n
  | .num (.real x) =>
    match x.truncate? with
    | some n => .ok n
    | none => .error (if x = .nan then .nanInteger else .outOfRange)
  | .bool b => .ok (if b then 1 else 0)
  | .str s =>
    match readInt? s with
    | some n => .ok n
    | none => .error (.notInteger (String.ofList ((Text.quote s).toList.take shownLimit)))
  | _ => .error .wrongShape

/-- A time: any number, a flag or a text that holds a number. -/
def Json.toTime : Json → Reading Double
  | .num (.int n) =>
    match Double.ofInt n with
    | .infinite _ => .error .outOfRange
    | x => .ok x
  | .num (.real x) => .ok x
  | .bool b => .ok (.ofInt (if b then 1 else 0))
  | .str s =>
    match readDouble? s with
    | some x => .ok x
    | none => .error (.notNumber (Text.quote s))
  | _ => .error .wrongShape

/-- A member of a closed set, by its written name. -/
def Json.toMember {α : Type} (set : String) (members : List α) (label : α → String)
    (value : Json) : Reading α :=
  match members.find? fun a => Json.str (label a) = value with
  | some a => .ok a
  | none => .error (.notMember value.display set)

/-- The kind of a rule. -/
def Json.toKind : Json → Reading Kind :=
  Json.toMember "RuleType" Kind.all Kind.label

/-- The grade of a rule. -/
def Json.toGrade : Json → Reading Grade :=
  Json.toMember "ComplexityScore" Grade.all Grade.label

/-- The severity of an issue. -/
def Json.toSeverity : Json → Reading Severity :=
  Json.toMember "Severity" Severity.all Severity.label

/-- The category of an issue. -/
def Json.toCategory : Json → Reading Category :=
  Json.toMember "IssueCategory" Category.all Category.label

/-! ## Reading documents -/

/-- Reads a rule. -/
def RuleRecord.ofJson (v : Json) : Reading (RuleRecord Json Json) := do
  let name ← v.get "name"
  let kind ← (← v.get "type").toKind
  let line ← v.get "line"
  let column ← v.get "column"
  let endLine ← v.get "end_line"
  let endColumn ← v.get "end_column"
  let text ← v.get "text"
  let alternativeCount ← v.get "alternative_count"
  let references ← (v.getOr "references" (.list [])).parts
  let referencedBy ← (v.getOr "referenced_by" (.list [])).parts
  return { name, kind, line, column, endLine, endColumn, text, alternativeCount, references,
           referencedBy }

/-- Reads an unused rule. -/
def UnusedRecord.ofJson (v : Json) : Reading (UnusedRecord Json Json) := do
  let name ← v.get "name"
  let kind ← (← v.get "type").toKind
  let line ← v.get "line"
  let column ← v.get "column"
  let suggestion ← v.get "suggestion"
  return { name, kind, line, column, suggestion }

/-- Reads figures. -/
def MetricsRecord.ofJson (v : Json) : Reading (MetricsRecord Json Json) := do
  let name ← v.get "name"
  let kind ← (← v.get "type").toKind
  let line ← v.get "line"
  let depth ← v.get "depth"
  let alternatives ← v.get "alternatives"
  let referenceCount ← v.get "reference_count"
  let direct ← v.get "directly_recursive"
  let indirect ← v.get "indirectly_recursive"
  let lookahead ← v.get "lookahead"
  let grade ← (← v.get "score").toGrade
  let value ← v.get "complexity_value"
  return { name, kind, line, depth, alternatives, referenceCount,
           directlyRecursive := direct.isTruthy, indirectlyRecursive := indirect.isTruthy,
           lookahead, grade, value }

/-- Reads an issue. -/
def IssueRecord.ofJson (v : Json) : Reading (IssueRecord Json Json) := do
  let rule ← v.get "rule"
  let kind ← (← v.get "type").toKind
  let line ← v.get "line"
  let column ← v.get "column"
  let severity ← (← v.get "severity").toSeverity
  let issue ← v.get "issue"
  let description ← v.get "description"
  let suggestion ← v.get "suggestion"
  let category ← (← v.get "category").toCategory
  return { rule, kind, line, column, severity, issue, description, suggestion, category }

/-- Reads a hint. -/
def HintRecord.ofJson (v : Json) : Reading (HintRecord Json Json) := do
  let rule ← v.get "rule"
  let line ← v.get "line"
  let alternatives ← (← v.get "alternative_indices").parts
  let commonTokens ← (← v.get "common_prefix").parts
  let description ← v.get "description"
  return { rule, line, alternatives, commonTokens, description }

/-- Reads a mention of an undefined name, which has its four fields and no others. -/
def DanglingRecord.ofJson : Json → Reading (DanglingRecord Json Json)
  | .object fields =>
    match Json.field? fields "rule", Json.field? fields "name", Json.field? fields "line",
        Json.field? fields "column" with
    | some rule, some name, some line, some column =>
      if fields.all fun (k, _) => k ∈ ["rule", "name", "line", "column"] then
        .ok { rule, name, line, column }
      else .error .wrongShape
    | _, _, _, _ => .error .wrongShape
  | _ => .error .wrongShape

/-- Reads all parts of a section. -/
def readSection {α : Type} (read : Json → Reading α) (v : Json) : Reading (List α) := do
  (← v.parts).mapM read

/-- A tally with the count of a key set. -/
def Tally.set (t : Tally) (key : String) (n : Int) : Tally :=
  if key = "info" then { t with info := n }
  else if key = "warning" then { t with warning := n }
  else if key = "error" then { t with error := n }
  else if key = "critical" then { t with critical := n }
  else { t with others := Json.setField t.others key n }

/-- Reads the counts of an object's fields. -/
def readCounts (fields : List (String × Json)) : Reading (List (String × Int)) :=
  fields.mapM fun (k, v) => return (k, ← v.toCount)

/-- The field of a summary that holds its tally. -/
def tallyField : String := "issues_by_severity"

/-- Reads a tally; a key that is not counted has the count zero. -/
def Tally.ofJson : Json → Reading Tally
  | .object fields => do
    let counts ← readCounts fields
    return counts.foldl (fun t (k, n) => t.set k n) Tally.zero
  | _ => .error .noFields

/-- The counts that a summary can hold beside its tally. -/
def summaryFields : List String := [
  "total_rules", "parser_rules", "lexer_rules", "fragment_rules", "unused_rules",
  "high_complexity_rules", "performance_issues", "ambiguity_hints"]

/-- Reads a summary; a missing count is zero, and there are no counts but the known ones. -/
def Summary.ofJson : Json → Reading Summary
  | .object fields => do
    let counts ← readCounts (fields.filter fun (k, _) => k ≠ tallyField)
    let tally ← Tally.ofJson ((Json.field? fields tallyField).getD (.object []))
    if counts.all fun (k, _) => k ∈ summaryFields then
      let count := fun name => (counts.lookup name).getD 0
      return { totalRules := count "total_rules", parserRules := count "parser_rules"
               lexerRules := count "lexer_rules", fragmentRules := count "fragment_rules"
               unusedRules := count "unused_rules"
               highComplexityRules := count "high_complexity_rules"
               performanceIssues := count "performance_issues"
               ambiguityHints := count "ambiguity_hints", tally }
    else throw .wrongShape
  | _ => .error .noFields

/-- Reads a document. -/
def Document.ofJson (v : Json) : Reading Document := do
  let summary ← Summary.ofJson (← v.get "summary")
  let rules ← readSection RuleRecord.ofJson (← v.get "rules")
  let unused ← readSection UnusedRecord.ofJson (← v.get "unused_rules")
  let complexity ← readSection MetricsRecord.ofJson (← v.get "complexity")
  let issues ← readSection IssueRecord.ofJson (← v.get "performance_issues")
  let hints ← readSection HintRecord.ofJson (← v.get "ambiguity_hints")
  let timestamp ← (← v.get "timestamp").toTime
  let duration ← (← v.get "duration").toTime
  let fingerprint := (← v.get "grammar_hash").plain
  let dangling ← readSection DanglingRecord.ofJson (v.getOr "unresolved_references" (.list []))
  return { summary, rules, unused, complexity, issues, hints, dangling, timestamp, duration,
           fingerprint }

end GrammarAudit
