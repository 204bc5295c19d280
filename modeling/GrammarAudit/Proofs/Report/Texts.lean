import GrammarAudit.Proofs.Grammar.Alphabet
import GrammarAudit.Proofs.Json.NumberText
import GrammarAudit.Proofs.Report.Integrity
import GrammarAudit.Report.Leaves

/-!
# The texts of reports

A report holds names, texts of rules and messages. They are made of the characters of the source,
some of them in lower case, and of ASCII.

- `ReportRecord.texts`, `ReportRecord.map_eq_self_iff`: all texts of a report.
- `Alphabet`: kinds of characters that the texts of a report stay in.
- `over_texts`: if a source is over an alphabet, so are all texts of its reports.
-/

namespace GrammarAudit

open Grammar

/-! ## The texts of a report -/

section Texts

variable {Txt Num : Type}

/-- The texts of a rule. -/
def RuleRecord.texts (r : RuleRecord Txt Num) : List Txt :=
  r.name :: r.text :: (r.references ++ r.referencedBy)

/-- The texts of an unused rule. -/
def UnusedRecord.texts (u : UnusedRecord Txt Num) : List Txt :=
  [u.name, u.suggestion]

/-- The texts of figures. -/
def MetricsRecord.texts (m : MetricsRecord Txt Num) : List Txt :=
  [m.name]

/-- The texts of an issue. -/
def IssueRecord.texts (i : IssueRecord Txt Num) : List Txt :=
  [i.rule, i.issue, i.description, i.suggestion]

/-- The texts of a hint. -/
def HintRecord.texts (h : HintRecord Txt Num) : List Txt :=
  h.rule :: h.description :: h.commonTokens

/-- The texts of a mention of an undefined name. -/
def DanglingRecord.texts (d : DanglingRecord Txt Num) : List Txt :=
  [d.rule, d.name]

/-- All texts of a report, section by section. -/
def ReportRecord.texts (report : ReportRecord Txt Num) : List Txt :=
  report.rules.flatMap RuleRecord.texts ++ (report.unused.flatMap UnusedRecord.texts ++
    (report.complexity.flatMap MetricsRecord.texts ++ (report.issues.flatMap IssueRecord.texts ++
      (report.hints.flatMap HintRecord.texts ++ report.dangling.flatMap DanglingRecord.texts))))

variable {f : Txt → Txt}

theorem map_eq_self_iff {α : Type} {f : α → α} {l : List α} : l.map f = l ↔ ∀ a ∈ l, f a = a := by
  have h := List.map_inj_left (l := l) (f := f) (g := id)
  rwa [List.map_id] at h

/-- The entries of a section stay as they are exactly if their texts do. -/
theorem map_section_eq_self_iff {α : Type} {g : α → α} {texts : α → List Txt}
    (h : ∀ a, g a = a ↔ ∀ text ∈ texts a, f text = text) {entries : List α} :
    entries.map g = entries ↔ ∀ text ∈ entries.flatMap texts, f text = text := by
  rw [map_eq_self_iff]
  constructor
  · intro hentries text htext
    obtain ⟨a, ha, htext⟩ := List.mem_flatMap.mp htext
    exact (h a).mp (hentries a ha) text htext
  · intro htexts a ha
    exact (h a).mpr fun text htext => htexts text (List.mem_flatMap.mpr ⟨a, ha, htext⟩)

theorem RuleRecord.map_eq_self_iff (r : RuleRecord Txt Num) :
    r.map f id = r ↔ ∀ text ∈ r.texts, f text = text := by
  cases r
  simp [RuleRecord.map, texts, GrammarAudit.map_eq_self_iff, or_imp, forall_and]

theorem UnusedRecord.map_eq_self_iff (u : UnusedRecord Txt Num) :
    u.map f id = u ↔ ∀ text ∈ u.texts, f text = text := by
  cases u
  simp [UnusedRecord.map, texts]

theorem MetricsRecord.map_eq_self_iff (m : MetricsRecord Txt Num) :
    m.map f id = m ↔ ∀ text ∈ m.texts, f text = text := by
  cases m
  simp [MetricsRecord.map, texts]

theorem IssueRecord.map_eq_self_iff (i : IssueRecord Txt Num) :
    i.map f id = i ↔ ∀ text ∈ i.texts, f text = text := by
  cases i
  simp [IssueRecord.map, texts]

theorem HintRecord.map_eq_self_iff (h : HintRecord Txt Num) :
    h.map f id = h ↔ ∀ text ∈ h.texts, f text = text := by
  cases h
  simp [HintRecord.map, texts, GrammarAudit.map_eq_self_iff, and_comm]

theorem DanglingRecord.map_eq_self_iff (d : DanglingRecord Txt Num) :
    d.map f id = d ↔ ∀ text ∈ d.texts, f text = text := by
  cases d
  simp [DanglingRecord.map, texts]

/-- **A report stays as it is exactly if its texts do.** -/
theorem ReportRecord.map_eq_self_iff {report : ReportRecord Txt Num} :
    report.map f id = report ↔ ∀ text ∈ report.texts, f text = text := by
  have hsections : report.map f id = report ↔
      report.rules.map (·.map f id) = report.rules ∧
        report.unused.map (·.map f id) = report.unused ∧
        report.complexity.map (·.map f id) = report.complexity ∧
        report.issues.map (·.map f id) = report.issues ∧
        report.hints.map (·.map f id) = report.hints ∧
        report.dangling.map (·.map f id) = report.dangling := by
    cases report
    simp [ReportRecord.map]
  rw [hsections, map_section_eq_self_iff RuleRecord.map_eq_self_iff,
    map_section_eq_self_iff UnusedRecord.map_eq_self_iff,
    map_section_eq_self_iff MetricsRecord.map_eq_self_iff,
    map_section_eq_self_iff IssueRecord.map_eq_self_iff,
    map_section_eq_self_iff HintRecord.map_eq_self_iff,
    map_section_eq_self_iff DanglingRecord.map_eq_self_iff]
  simp only [texts, List.mem_append, or_imp, forall_and]

end Texts

/-! ## Alphabets -/

/-- Characters that include ASCII and the small letters of the capitals among them. -/
structure Alphabet (p : Char → Prop) : Prop where
  ascii : ∀ c : Char, c.toNat < 128 → p c
  lower : ∀ s : List Char, (∀ c ∈ s, p c) → ∀ c ∈ Text.lower s, p c

/-- All characters of a text are of one kind. -/
def Over (p : Char → Prop) (text : String) : Prop :=
  ∀ c ∈ text.toList, p c

/-- All characters of a text are in ASCII. -/
def isAscii (text : List Char) : Bool :=
  text.all fun c => c.toNat < 128

section Over

variable {p : Char → Prop}

theorem Over.append {a b : String} (ha : Over p a) (hb : Over p b) : Over p (a ++ b) := by
  intro c hc
  rw [String.toList_append] at hc
  exact (List.mem_append.mp hc).elim (ha c) (hb c)

variable (hp : Alphabet p)
include hp

theorem Alphabet.of_mem_ascii {text : List Char} (h : isAscii text = true) {c : Char}
    (hc : c ∈ text) : p c :=
  hp.ascii c (of_decide_eq_true (List.all_eq_true.mp h c hc))

-- on the characters of a literal, since its text takes long to be taken apart
theorem Alphabet.over_ascii {text : List Char} (h : isAscii text = true) :
    Over p (String.ofList text) := by
  intro c hc
  rw [String.toList_ofList] at hc
  exact hp.of_mem_ascii h hc

theorem Alphabet.of_isIdentChar {c : Char} (h : isIdentChar c = true) : p c :=
  hp.ascii c (Nat.lt_of_le_of_lt (toNat_of_isIdentChar h).2 (by decide))

theorem Alphabet.over_decimal (n : Int) : Over p (Text.decimal n) := by
  have hdigits (n : Nat) : ∀ c ∈ Text.natNumeral 10 n, p c := fun c hc =>
    hp.of_isIdentChar (by simp [isIdentChar, Char.isAlphanum, Json.isDigit_of_mem_natNumeral hc])
  intro c hc
  rw [Text.decimal, String.toList_ofList] at hc
  cases n with
  | ofNat n => exact hdigits n c hc
  | negSucc n =>
    rcases List.mem_cons.mp hc with rfl | hc
    · exact hp.ascii '-' (by decide)
    · exact hdigits (n + 1) c hc

end Over

theorem Over.intercalate {p : Char → Prop} {separator : String} (hseparator : Over p separator)
    {l : List String} (h : ∀ text ∈ l, Over p text) : Over p (separator.intercalate l) := by
  induction l with
  | nil =>
    rw [String.intercalate_nil]
    exact fun c hc => absurd hc List.not_mem_nil
  | cons a l ih =>
    have ha := h a List.mem_cons_self
    have hl := ih fun text htext => h text (List.mem_cons_of_mem _ htext)
    cases l with
    | nil => rwa [String.intercalate_singleton]
    | cons b l =>
      rw [String.intercalate_cons_cons]
      exact (ha.append hseparator).append hl

/-! ## The texts of findings -/

section Findings

variable {p : Char → Prop} (hp : Alphabet p) {rule : Rule}
include hp

theorem over_unused (hname : Over p rule.name) :
    ∀ text ∈ (Unused.ofRule rule).texts, Over p text := by
  have hadvice : Over p (unusedAdvice rule.kind rule.name) := by
    unfold unusedAdvice
    split
    · exact ((hp.over_ascii rfl).append hname).append (hp.over_ascii rfl)
    · exact ((hp.over_ascii rfl).append hname).append (hp.over_ascii rfl)
  simp [UnusedRecord.texts, Unused.ofRule, hname, hadvice]

/-- What a check says is in ASCII, and so are the figures in it. -/
theorem over_check {check : Check} (hcheck : check ∈ checks) (m : Metrics) :
    Over p check.issue ∧ Over p (check.describe m) ∧ Over p check.suggestion := by
  have hfigure (n : Int) {before after : List Char} (hbefore : isAscii before = true)
      (hafter : isAscii after = true) :
      Over p (String.ofList before ++ Text.decimal n ++ String.ofList after) :=
    ((hp.over_ascii hbefore).append (hp.over_decimal n)).append (hp.over_ascii hafter)
  -- the checks differ in their literals and in the figures between them
  simp only [checks, List.mem_cons, List.not_mem_nil, or_false] at hcheck
  rcases hcheck with rfl | rfl | rfl | rfl | rfl
  · exact ⟨hp.over_ascii rfl, ((hfigure m.alternatives rfl rfl).append
      (hp.over_decimal m.lookahead)).append (hp.over_ascii rfl), hp.over_ascii rfl⟩
  · exact ⟨hp.over_ascii rfl, hfigure m.lookahead rfl rfl, hp.over_ascii rfl⟩
  · exact ⟨hp.over_ascii rfl, hfigure m.depth rfl rfl, hp.over_ascii rfl⟩
  · exact ⟨hp.over_ascii rfl, hfigure m.depth rfl rfl, hp.over_ascii rfl⟩
  · exact ⟨hp.over_ascii rfl, hfigure m.value rfl rfl,
      (hp.over_ascii rfl).append (hp.over_ascii rfl)⟩

theorem over_issue {metrics : List Metrics} {rules : List Rule} {i : Issue}
    (hnames : ∀ rule ∈ rules, Over p rule.name) (h : i ∈ issuesByRule rules metrics) :
    ∀ text ∈ i.texts, Over p text := by
  obtain ⟨rule, hrule, hissue⟩ := List.mem_flatMap.mp h
  split at hissue
  · next m hmetrics =>
    obtain ⟨check, hcheck, rfl⟩ := List.mem_map.mp hissue
    have hsaid := over_check hp (List.mem_filter.mp hcheck).1 m
    simp [IssueRecord.texts, Check.report, hnames rule hrule, hsaid]
  · cases hissue

/-- A hint shows its token in lower case. -/
theorem over_hint (hname : Over p rule.name) (htext : Over p rule.text) {hint : Hint}
    (h : hint ∈ hintsOf rule) : ∀ text ∈ hint.texts, Over p text := by
  unfold hintsOf at h
  split at h
  · obtain ⟨⟨token, positions⟩, hgroup, rfl⟩ := List.mem_map.mp h
    have htoken : Over p token := by
      obtain ⟨key, hkey, heq⟩ := List.mem_map.mp (List.mem_filter.mp hgroup).1
      obtain ⟨piece, hpiece, rfl⟩ := List.mem_map.mp (mem_distinct.mp hkey)
      cases heq
      intro c hc
      rw [tokenKey, String.toList_ofList] at hc
      exact hp.lower _ (fun d hd => htext d
        (mem_of_mem_splitAlternatives hpiece (mem_of_mem_firstToken hd))) c hc
    have hpositions : Over p (", ".intercalate
        (positions.map fun i : Nat => Text.decimal (i + 1))) := by
      refine Over.intercalate (hp.over_ascii rfl) fun text htext => ?_
      obtain ⟨i, -, rfl⟩ := List.mem_map.mp htext
      exact hp.over_decimal _
    have hdescription : Over p (Hint.ofGroup rule token positions).description :=
      ((((hp.over_ascii rfl).append hpositions).append
        (hp.over_ascii rfl)).append htoken).append
          (hp.over_ascii rfl)
    simp only [HintRecord.texts, List.forall_mem_cons]
    refine ⟨hname, hdescription, fun text htext => ?_⟩
    rw [List.mem_singleton.mp htext]
    exact htoken
  · cases h

end Findings

/-! ## The texts of rules -/

section Rules

variable {p : Char → Prop} (hp : Alphabet p) {source : List Char} (hsource : ∀ c ∈ source, p c)
include hp hsource

/-- What a rule is discovered with is over the alphabet of the source. -/
theorem over_found {rule : Rule} (h : rule ∈ rulesOf source) :
    Over p rule.name ∧ Over p rule.text ∧ ∀ name ∈ rule.references, Over p name := by
  obtain ⟨d, hrule, hfound⟩ := exists_definition_of_mem_extractRules h
  have hd : d ∈ scanDefinitions (strip source) := List.mem_of_find?_eq_some hfound
  have hname : Over p (String.ofList d.name) := by
    intro c hc
    rw [String.toList_ofList] at hc
    exact hp.of_isIdentChar (isIdentChar_of_mem_name hd hc)
  have htext : Over p (String.ofList (d.ruleText rule.kind)) := by
    intro c hc
    rw [String.toList_ofList] at hc
    obtain hc | hc | hc := Definition.mem_of_mem_ruleText hd hc
    · exact hsource c (mem_of_mem_strip hc)
    · exact hp.of_isIdentChar hc
    · exact hp.of_mem_ascii rfl hc
  have hreferences : ∀ name ∈ references (d.ruleText rule.kind), Over p name :=
    fun name hname c hc => hp.of_isIdentChar (isIdentChar_of_mem_references hname c hc)
  rw [hrule]
  exact ⟨hname, htext, hreferences⟩

/-- The neighbours of a rule are names. -/
theorem over_rule {rule : Rule} (h : rule ∈ attachedRules source) :
    ∀ text ∈ rule.texts, Over p text := by
  obtain ⟨found, hfound, hname, htext, hreferences, hreferencedBy⟩ := Graph.mem_attach_ofRules h
  have hover := over_found hp hsource hfound
  simp only [RuleRecord.texts, List.forall_mem_cons, List.mem_append]
  refine ⟨hname ▸ hover.1, htext ▸ hover.2.1, fun name hmem => ?_⟩
  rcases hmem with hmem | hmem
  · rw [hreferences, Graph.mem_references_nodeOf_iff] at hmem
    obtain ⟨other, hother, -, hmem⟩ := hmem
    exact (over_found hp hsource hother).2.2 name hmem
  · rw [hreferencedBy, Graph.mem_referencedBy_nodeOf_iff] at hmem
    obtain ⟨other, hother, rfl, -⟩ := hmem
    exact (over_found hp hsource hother).1

/-- **The texts of a report** are over every alphabet that its source is over. -/
theorem over_texts (o : Options) (timing : Timing) :
    ∀ text ∈ (Report.of source o timing).texts, Over p text := by
  have hrules : ∀ rule ∈ attachedRules source, Over p rule.name ∧ Over p rule.text := by
    intro rule hrule
    have hover := over_rule hp hsource hrule
    exact ⟨hover _ List.mem_cons_self, hover _ (List.mem_cons_of_mem _ List.mem_cons_self)⟩
  intro text htext
  simp only [ReportRecord.texts, List.mem_append, List.mem_flatMap] at htext
  rcases htext with ⟨rule, hrule, htext⟩ | ⟨u, hu, htext⟩ | ⟨m, hm, htext⟩ | ⟨i, hi, htext⟩ |
    ⟨hint, hhint, htext⟩ | ⟨d, hd, htext⟩
  · exact over_rule hp hsource hrule text htext
  · obtain ⟨rule, hrule, rfl⟩ := mem_unusedRules (mem_sectionIf_iff.mp hu).2
    exact over_unused hp (hrules rule hrule).1 text htext
  · obtain ⟨rule, hrule, rfl⟩ := mem_complexity_iff.mp (mem_sectionIf_iff.mp hm).2
    rw [List.mem_singleton.mp htext]
    exact (hrules rule hrule).1
  · exact over_issue hp (fun rule hrule => (hrules rule hrule).1)
      (mem_performanceIssues_iff.mp (mem_sectionIf_iff.mp hi).2) text htext
  · obtain ⟨rule, hrule, hmem⟩ := List.mem_flatMap.mp (mem_sectionIf_iff.mp hhint).2
    exact over_hint hp (hrules rule hrule).1 (hrules rule hrule).2 hmem text htext
  · obtain ⟨rule, hrule, name, hname, -, rfl⟩ := mem_dangling_iff.mp (mem_sectionIf_iff.mp hd).2
    simp only [DanglingRecord.texts, List.mem_cons, List.not_mem_nil, or_false] at htext
    rcases htext with rfl | rfl
    · exact (hrules rule hrule).1
    · exact fun c hc => hp.of_isIdentChar (isIdentChar_of_mem_symbolReferences hname c hc)

end Rules

end GrammarAudit
