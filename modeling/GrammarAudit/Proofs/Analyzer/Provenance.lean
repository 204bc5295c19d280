import GrammarAudit.Proofs.Analyzer.Transparency

/-!
# Where the answers of a session come from

Every answer of a session is a run of the analysis: one that is made for the request itself, or one
that was made for an earlier request, for a source with the same hash and under equal options, and
that is neither cleared away nor too old. So the hash in a report is always that of the source it is
given out for. A request that is refused leaves everything as it is.

- `Session.ttl_after`: how long runs are kept does not change along a session.
- `MadeFor`, `madeFor_of_answer`: where an answer comes from.
- `step_of_refused`, `store_of_error`: what a request that fails does to the kept runs.
- `Session.provenance`: what answers and failures are, after any steps.
-/

namespace GrammarAudit

namespace Session

variable {τ : Type} [Sub τ] [LT τ] [DecidableLT τ] [Add τ]

/-! ## How long runs are kept -/

theorem ttl_step (s : Session τ) (step : SessionStep τ) :
    (s.step step).analyzer.store.ttl = s.analyzer.store.ttl := by
  cases step with
  | request timing source options settings =>
    rcases s.request_cases timing source options settings with
      ⟨-, -, hstep⟩ | ⟨text, o, -, -, ⟨_, -, -, -, -, hstep⟩ | ⟨-, hstore⟩ | ⟨run, -, hstore⟩⟩
    · rw [hstep]
    · rw [hstep]
    · rw [hstore]
      exact (s.analyzer.store.limits_get s.clock (runKey text o)).1
    · rw [hstore]
      exact (s.analyzer.store.limits_get s.clock (runKey text o)).1
  | clear => rfl
  | advance => rfl

theorem ttl_after (s : Session τ) (steps : List (SessionStep τ)) :
    (s.after steps).analyzer.store.ttl = s.analyzer.store.ttl := by
  induction steps using List.reverseRecOn with
  | nil => rfl
  | append_singleton steps step ih => rw [after_concat, ttl_step, ih]

/-! ## Answers -/

/-- The run that answers a request after some steps: it is made for the request, or it was made for
an earlier one with an equal key, and may still be given out. -/
def MadeFor (s : Session τ) (steps : List (SessionStep τ)) (timing : Timing) (source : List Char)
    (options : Options) (settings : List (SettingKey × Setting)) (o : Options) (run : Run) : Prop :=
  (s.after steps).Makes timing source options settings o run ∨
    ∃ time timing' origin o', s.MadeSinceClear steps time timing' origin o' run ∧
      fingerprint origin = fingerprint source ∧ o'.canonical = o.canonical ∧
        ¬ s.analyzer.store.ttl < (s.after steps).clock - time

/-- A report carries the hash of the source that it answers a request for. -/
theorem MadeFor.fingerprint_eq {s : Session τ} {steps : List (SessionStep τ)} {timing : Timing}
    {source : List Char} {options : Options} {settings : List (SettingKey × Setting)}
    {o : Options} {run : Run} (h : s.MadeFor steps timing source options settings o run) :
    run.report.fingerprint = fingerprint source := by
  rcases h with hmakes | ⟨_, _, _, _, ⟨_, _, _, _, -, hmakes, -, -⟩, hhash, -, -⟩
  · rw [hmakes.report]
    rfl
  · rw [hmakes.report]
    exact hhash

/-- An answered request gets a run that was made for it. -/
theorem madeFor_of_answer {s : Session τ} (empty : s.analyzer.store.entries = [])
    {steps : List (SessionStep τ)} {timing : Timing} {source : Except String (List Char)}
    {options : Options} {settings : List (SettingKey × Setting)} {run : Run}
    (answered : (s.after steps).answer timing source options settings = .ok run) :
    ∃ text o, source = .ok text ∧ options.merge settings = .ok o ∧
      s.MadeFor steps timing text options settings o run := by
  rcases (s.after steps).request_cases timing source options settings with
    ⟨-, ⟨error, hfails⟩, -⟩ | ⟨text, o, rfl, hmerge, ⟨e, hmem, hkey, hlive, hkept, -⟩ |
      ⟨hfails, -⟩ | ⟨made, hmakes, -⟩⟩
  · rw [hfails] at answered
    cases answered
  · -- a kept run, made for a request with the key that was looked up
    rw [hkept] at answered
    cases answered
    obtain ⟨timing', origin, o', hmade, hkey'⟩ := wasMade_of_mem empty steps e hmem
    rw [hkey'] at hkey
    obtain ⟨hhash, hsame⟩ : fingerprint origin = fingerprint text ∧
      o'.canonical = o.canonical := Prod.mk.inj hkey
    unfold Store.expired at hlive
    rw [ttl_after] at hlive
    exact ⟨text, o, rfl, hmerge, .inr ⟨_, timing', origin, o', hmade, hhash, hsame, hlive⟩⟩
  · rw [hfails] at answered
    cases answered
  · rw [hmakes.answered] at answered
    cases answered
    exact ⟨text, o, rfl, hmerge, .inl hmakes⟩

/-! ## Failures -/

/-- A refused request fails and changes nothing. -/
theorem step_of_refused {s : Session τ} {timing : Timing} {source : Except String (List Char)}
    {options : Options} {settings : List (SettingKey × Setting)}
    (refused : Refused source options settings) :
    (∃ error, s.answer timing source options settings = .error error) ∧
      s.step (.request timing source options settings) = s := by
  rcases s.request_cases timing source options settings with
    ⟨-, hfails, hstep⟩ | ⟨text, o, rfl, hmerge, -⟩
  · exact ⟨hfails, hstep⟩
  · rcases refused with ⟨typeName, hsource⟩ | ⟨e, herror⟩
    · cases hsource
    · rw [hmerge] at herror
      cases herror

/-- A request that fails but is not refused has thresholds that are out of range. It can only drop
an entry that has expired. -/
theorem store_of_error {s : Session τ} {timing : Timing} {source : Except String (List Char)}
    {options : Options} {settings : List (SettingKey × Setting)} {error : AnalysisError}
    (failed : s.answer timing source options settings = .error error)
    (tried : ¬ Refused source options settings) :
    error = .outOfRange ∧
      ((s.step (.request timing source options settings)).analyzer.store = s.analyzer.store ∨
        ∃ e ∈ s.analyzer.store.entries, s.analyzer.store.expired s.clock e ∧
          (s.step (.request timing source options settings)).analyzer.store =
            s.analyzer.store.erase e.key) := by
  rcases s.request_cases timing source options settings with
    ⟨hrefused, -⟩ | ⟨text, o, rfl, -, ⟨e, -, -, -, hkept, -⟩ | ⟨hfails, hstore⟩ |
      ⟨made, hmakes, -⟩⟩
  · exact absurd hrefused tried
  · rw [hkept] at failed
    cases failed
  · rw [hfails] at failed
    cases failed
    rw [hstore]
    refine ⟨rfl, (s.analyzer.store.get_snd_cases s.clock (runKey text o)).imp_right ?_⟩
    rintro ⟨e, hfound, hold, hget⟩
    have hkey : e.key = runKey text o := by simpa using List.find?_some hfound
    exact ⟨e, List.mem_of_find?_eq_some hfound, hold, by rw [hget, hkey]⟩
  · rw [hmakes.answered] at failed
    cases failed

/-- **Provenance**: after any steps, an answered request gets a run that carries the hash of its
source and was made for it, or for a request with an equal key that is neither cleared nor too old.
A refused request fails and leaves the session as it is; any other that fails can only drop an
entry that has expired. -/
theorem provenance {s : Session τ} (empty : s.analyzer.store.entries = [])
    (steps : List (SessionStep τ)) (timing : Timing) (source : Except String (List Char))
    (options : Options) (settings : List (SettingKey × Setting)) :
    (∀ run, (s.after steps).answer timing source options settings = .ok run →
      ∃ text o, source = .ok text ∧ options.merge settings = .ok o ∧
        run.report.fingerprint = fingerprint text ∧
          s.MadeFor steps timing text options settings o run) ∧
    (Refused source options settings →
      (∃ error, (s.after steps).answer timing source options settings = .error error) ∧
        (s.after steps).step (.request timing source options settings) = s.after steps) ∧
    (∀ error, (s.after steps).answer timing source options settings = .error error →
      ¬ Refused source options settings → error = .outOfRange ∧
        (((s.after steps).step (.request timing source options settings)).analyzer.store =
            (s.after steps).analyzer.store ∨
          ∃ e ∈ (s.after steps).analyzer.store.entries,
            (s.after steps).analyzer.store.expired (s.after steps).clock e ∧
              ((s.after steps).step (.request timing source options settings)).analyzer.store =
                (s.after steps).analyzer.store.erase e.key)) := by
  refine ⟨fun run answered => ?_, step_of_refused, fun error => store_of_error⟩
  obtain ⟨text, o, hsource, hmerge, hmade⟩ := madeFor_of_answer empty answered
  exact ⟨text, o, hsource, hmerge, hmade.fingerprint_eq, hmade⟩

/-- A source that is answered with the kept run of another one with its hash, and a request without
a text in the same session. -/
theorem provenance_of_collision :
    (start 0 300 10 (by decide) : Session Int).analyzer.store.entries = [] ∧
      (∃ run, run.report = Report.of "Aa:'x';".toList {} ⟨.nan, .nan⟩ ∧
        run.report.fingerprint = fingerprint "BB:'x';".toList ∧
        (start 0 300 10 (by decide) : Session Int).MadeFor
          [.request ⟨.nan, .nan⟩ (.ok "Aa:'x';".toList) {} []] ⟨.nan, .nan⟩ "BB:'x';".toList {} []
          {} run) ∧
      ((start 0 300 10 (by decide) : Session Int).after
          [.request ⟨.nan, .nan⟩ (.ok "Aa:'x';".toList) {} []]).step
            (.request ⟨.nan, .nan⟩ (.error "bytes") {} []) =
        (start 0 300 10 (by decide) : Session Int).after
          [.request ⟨.nan, .nan⟩ (.ok "Aa:'x';".toList) {} []] := by
  refine ⟨rfl, ?_, ?_⟩
  · obtain ⟨text, o, hsource, hmerge, hhash, hmade⟩ :=
      (provenance rfl _ _ _ _ _).1 _ (answer_of_collision ⟨.nan, .nan⟩)
    cases hsource
    cases hmerge
    exact ⟨_, rfl, hhash, hmade⟩
  · exact ((provenance rfl _ _ _ _ _).2.1 (.inl ⟨"bytes", rfl⟩)).2

end Session

end GrammarAudit
