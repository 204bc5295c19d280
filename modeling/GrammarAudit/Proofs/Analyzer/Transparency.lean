import GrammarAudit.Proofs.Analyzer.Session

/-!
# What a kept report is worth

An analyzer finds a kept report by the hash of the source, so it cannot tell two sources with one
hash apart. Every answer is what a fresh analyzer computes for *some* source with that hash that
was asked for since the last clearing, under options of the same canonical form. It is the answer
for the requested source itself as long as no other such source was asked for.

- `IsFreshReport`: a report is what a fresh analyzer computes, but for when it was made.
- `isFreshReport_of_canonical`: equal options compute equal reports.
- `report_of_answer`: the answers of a session.
- `report_not_of_source`: an answer that is not the report of its source.
-/

namespace GrammarAudit

/-- A report as if it had been made at another time. -/
def ReportRecord.retimed (report : Report) (timing : Timing) : Report :=
  { report with timestamp := timing.timestamp, duration := timing.duration }

/-! ## Options of one canonical form -/

theorem report_canonical (source : List Char) (o : Options) (timing : Timing) :
    Report.of source o.canonical timing = Report.of source o timing := by
  unfold Report.of
  simp only [show o.canonical.thresholds = o.thresholds.canonical from rfl, complexity_canonical]
  rfl

theorem cannotGrade_canonical (source : List Char) (o : Options) :
    cannotGrade source o.canonical = cannotGrade source o := by
  unfold cannotGrade
  simp only [show o.canonical.thresholds = o.thresholds.canonical from rfl,
    complexityOverflows_canonical]

/-- Thresholds whose half is in range grade every rule. -/
theorem cannotGrade_eq_false {o : Options} (h : halfOverflows o.high = false)
    (source : List Char) : cannotGrade source o = false := by
  show List.any _ _ = false
  rw [List.any_eq_false]
  intro m _
  show ¬ gradeOverflows o.thresholds m.value = true
  unfold gradeOverflows
  rw [show o.thresholds.high = o.high from rfl, h, Bool.and_false]
  exact Bool.false_ne_true

/-! ## Fresh analyzers -/

theorem Options.merge_nil (o : Options) : o.merge [] = .ok o := rfl

namespace Session

variable {τ : Type} [Sub τ] [LT τ] [DecidableLT τ]

/-- The report is the one that every fresh analyzer computes for the source under the options, but
for when it was made. -/
def IsFreshReport (report : Report) (source : List Char) (o : Options) : Prop :=
  ∀ (clock ttl : τ) (capacity : Nat) (positive : 0 < capacity) (timing : Timing),
    ∃ run, (start clock ttl capacity positive).answer timing (.ok source) o [] = .ok run ∧
      run.report = report.retimed timing

/-- A fresh analyzer makes the report of the pipeline. -/
theorem answer_start {clock ttl : τ} {capacity : Nat} {positive : 0 < capacity} {timing : Timing}
    {source : List Char} {o : Options} (graded : cannotGrade source o = false) :
    (start clock ttl capacity positive).answer timing (.ok source) o [] =
      .ok ⟨0, Report.of source o timing⟩ := by
  unfold answer Analyzer.request
  rw [Options.merge_nil]
  exact Analyzer.analyze_of_entries_nil rfl _ _ graded

/-- What is computed for a source under some options is the fresh report under all options of the
same canonical form. -/
theorem isFreshReport_of_canonical {source : List Char} {o o' : Options}
    (graded : cannotGrade source o = false) (same : o.canonical = o'.canonical)
    (timing : Timing) : IsFreshReport (τ := τ) (Report.of source o timing) source o' := by
  intro clock ttl capacity positive timing'
  have graded' : cannotGrade source o' = false := by
    rw [← cannotGrade_canonical, ← same, cannotGrade_canonical, graded]
  refine ⟨_, answer_start graded', ?_⟩
  show Report.of source o' timing' = Report.of source o timing'
  rw [← report_canonical source o', ← same, report_canonical]

/-! ## Two sources with one hash -/

variable [Add τ]

/-- A request for a source with the key of the one before gets the report on that one. -/
theorem answer_of_runKey {clock ttl : τ} {capacity : Nat} {positive : 0 < capacity}
    {timing timing' : Timing} {first second : List Char} {o : Options}
    (graded : cannotGrade first o = false) (same : runKey first o = runKey second o)
    (live : ¬ ttl < clock - clock) :
    ((start clock ttl capacity positive).after
      [.request timing (.ok first) o []]).answer timing' (.ok second) o [] =
        .ok ⟨0, Report.of first o timing⟩ := by
  have hstep : (start clock ttl capacity positive).after [.request timing (.ok first) o []] =
      ⟨clock, ⟨⟨ttl, capacity, [⟨runKey second o, clock, ⟨0, Report.of first o timing⟩⟩],
        positive⟩, 1⟩⟩ := by
    have hdrop : 1 - capacity = 0 := by omega
    simp [after, step, start, Analyzer.request, Options.merge_nil, Analyzer.analyze, Store.get,
      Store.find?, Store.put, Store.erase, graded, same, hdrop]
  rw [hstep]
  simp [answer, Analyzer.request, Options.merge_nil, Analyzer.analyze, Store.get, Store.find?,
    Store.expired, live]

/-- The hashes of `Aa:'x';` and `BB:'x';` collide, so one is answered with the report on the
other. -/
theorem answer_of_collision (timing : Timing) :
    ((start 0 300 10 (by decide) : Session Int).after
      [.request timing (.ok "Aa:'x';".toList) {} []]).answer timing
        (.ok "BB:'x';".toList) {} [] = .ok ⟨0, Report.of "Aa:'x';".toList {} timing⟩ :=
  answer_of_runKey (cannotGrade_eq_false (by decide +kernel) _) (by decide +kernel) (by decide)

/-- An answer can be the report on another source. -/
theorem report_not_of_source :
    ¬ ∀ (steps : List (SessionStep Int)) (timing : Timing) (source : List Char) (o : Options)
        (run : Run),
      ((start 0 300 10 (by decide) : Session Int).after steps).answer timing (.ok source) o [] =
        .ok run → IsFreshReport (τ := Int) run.report source o := by
  intro h
  let timing : Timing := ⟨.nan, .nan⟩
  obtain ⟨run, hrun, hreport⟩ :=
    h _ _ _ _ _ (answer_of_collision timing) 0 300 10 (by decide) timing
  -- a fresh analyzer lists another rule
  have graded := cannotGrade_eq_false (o := {}) (by decide +kernel) "BB:'x';".toList
  rw [answer_start graded] at hrun
  cases hrun
  have hrules := congrArg ReportRecord.rules hreport
  revert hrules
  show ¬ attachedRules "BB:'x';".toList = attachedRules "Aa:'x';".toList
  decide +kernel

/-! ## The answers of a session -/

/-- **Reports of a session**: an answered request gets what a fresh analyzer computes for a source
with the same hash, requested now or, under options of the same canonical form, since the last
clearing. If no other source with this hash was, that is the report of the requested source. -/
theorem report_of_answer {clock ttl : τ} {capacity : Nat} {positive : 0 < capacity}
    {steps : List (SessionStep τ)} {timing : Timing} {source : List Char} {options : Options}
    {settings : List (SettingKey × Setting)} {run : Run}
    (answered : ((start clock ttl capacity positive).after steps).answer timing (.ok source)
      options settings = .ok run) :
    ∃ o, options.merge settings = .ok o ∧
      (∃ origin, fingerprint origin = fingerprint source ∧
        IsFreshReport (τ := τ) run.report origin o ∧
        (origin = source ∨ ∃ time timing' o', o'.canonical = o.canonical ∧
          (start clock ttl capacity positive).AskedSinceClear steps time timing' origin o')) ∧
      ((∀ other time timing' o',
          (start clock ttl capacity positive).AskedSinceClear steps time timing' other o' →
          o'.canonical = o.canonical → fingerprint other = fingerprint source →
          other = source) →
        IsFreshReport (τ := τ) run.report source o) := by
  unfold answer Analyzer.request at answered
  cases hmerge : options.merge settings with
  | error e =>
    rw [hmerge] at answered
    cases answered
  | ok o =>
    rw [hmerge] at answered
    refine ⟨o, rfl, ?_⟩
    simp only at answered
    generalize hs : (start clock ttl capacity positive).after steps = s at answered
    rcases s.analyzer.analyze_cases s.clock timing source o with
      ⟨e, hmem, hkey, -, heq⟩ | ⟨-, heq⟩ | ⟨hg, heq⟩
    · -- a kept run, made for its origin
      rw [heq] at answered
      cases answered
      rw [← hs] at hmem
      obtain ⟨timing', origin, o', hasked, hkey', hg, hreport⟩ := hasOrigin_of_mem rfl steps e hmem
      rw [hkey'] at hkey
      obtain ⟨hhash, hsame⟩ : fingerprint origin = fingerprint source ∧
        o'.canonical = o.canonical := Prod.mk.inj hkey
      have hfresh := isFreshReport_of_canonical (τ := τ) hg hsame timing'
      rw [← hreport] at hfresh
      refine ⟨⟨origin, hhash, hfresh, .inr ⟨_, _, _, hsame, hasked⟩⟩, fun alone => ?_⟩
      rw [← alone origin _ _ o' hasked hsame hhash]
      exact hfresh
    · rw [heq] at answered
      cases answered
    · rw [heq] at answered
      cases answered
      have hfresh := isFreshReport_of_canonical (τ := τ) hg rfl timing
      exact ⟨⟨source, rfl, hfresh, .inl rfl⟩, fun _ => hfresh⟩

/-- A source that is requested again gets the kept report, and it is the fresh one. -/
theorem report_of_answer_again :
    ((start 0 300 10 (by decide) : Session Int).after
        [.request ⟨.nan, .nan⟩ (.ok "Aa:'x';".toList) {} []]).answer ⟨.nan, .nan⟩
          (.ok "Aa:'x';".toList) {} [] = .ok ⟨0, Report.of "Aa:'x';".toList {} ⟨.nan, .nan⟩⟩ ∧
      IsFreshReport (τ := Int) (Report.of "Aa:'x';".toList {} ⟨.nan, .nan⟩)
        "Aa:'x';".toList {} := by
  have answered : ((start 0 300 10 (by decide) : Session Int).after
      [.request ⟨.nan, .nan⟩ (.ok "Aa:'x';".toList) {} []]).answer ⟨.nan, .nan⟩
        (.ok "Aa:'x';".toList) {} [] = .ok ⟨0, Report.of "Aa:'x';".toList {} ⟨.nan, .nan⟩⟩ :=
    answer_of_runKey (cannotGrade_eq_false (by decide +kernel) _) rfl (by decide)
  refine ⟨answered, ?_⟩
  obtain ⟨o, hmerge, -, hfresh⟩ := report_of_answer answered
  cases hmerge
  refine hfresh fun other time timing o' hasked _ _ => ?_
  obtain ⟨before, later, options, settings, heq, -⟩ := hasked
  cases before with
  | nil =>
    cases heq
    rfl
  | cons _ before => simp at heq

end Session

end GrammarAudit
