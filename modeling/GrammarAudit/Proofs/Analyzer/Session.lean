import GrammarAudit.Analyzer
import GrammarAudit.Proofs.Analyzer.Entries
import GrammarAudit.Proofs.Number.Canonical
import Mathlib.Data.List.Induction

/-!
# Sessions

A session is an analyzer with a clock, on which requests, clearings and advances of the clock are
made in any order. Every kept run goes back to a request of the session: one for a source with the
same hash under options of the same canonical form, with no clearing in between.

- `Session`, `SessionStep`, `Session.after`: sessions and the steps that lead through them.
- `Analyzer.analyze_cases`: a request is answered by a kept run, fails, or makes a new run.
- `Session.request_cases`: the same for a session, with requests that are refused.
- `AskedSinceClear`, `MadeSinceClear`: a request of the steps that no later clearing made void.
- `Session.wasMade_of_mem`, `Session.hasOrigin_of_mem`: the origin of every kept run.
-/

namespace GrammarAudit

/-- What can be done to an analyzer or to its clock. A request that fails is a step too. -/
inductive SessionStep (τ : Type) where
  | request (timing : Timing) (source : Except String (List Char)) (options : Options)
    (settings : List (SettingKey × Setting))
  | clear
  | advance (by' : τ)

/-- An analyzer and the time on its clock. -/
structure Session (τ : Type) where
  clock : τ
  analyzer : Analyzer τ

/-! ## One request -/

namespace Analyzer

variable {τ : Type} [Sub τ] [LT τ] [DecidableLT τ]

/-- A request is answered by a kept run, fails, or makes a new run and keeps it. -/
theorem analyze_cases (a : Analyzer τ) (now : τ) (timing : Timing) (source : List Char)
    (o : Options) :
    (∃ e ∈ a.store.entries, e.key = runKey source o ∧ ¬ a.store.expired now e ∧
      a.analyze now timing source o = (.ok e.value, a)) ∨
    (cannotGrade source o = true ∧ a.analyze now timing source o =
      (.error .outOfRange, { a with store := (a.store.get now (runKey source o)).2 })) ∨
    (cannotGrade source o = false ∧ a.analyze now timing source o =
      (.ok ⟨a.runs, Report.of source o timing⟩,
        { store := (a.store.get now (runKey source o)).2.put now (runKey source o)
            ⟨a.runs, Report.of source o timing⟩
          runs := a.runs + 1 })) := by
  have miss (s : Store RunKey τ Run) (h : a.store.get now (runKey source o) = (none, s)) :
      (cannotGrade source o = true ∧ a.analyze now timing source o =
        (.error .outOfRange, { a with store := (a.store.get now (runKey source o)).2 })) ∨
      (cannotGrade source o = false ∧ a.analyze now timing source o =
        (.ok ⟨a.runs, Report.of source o timing⟩,
          { store := (a.store.get now (runKey source o)).2.put now (runKey source o)
              ⟨a.runs, Report.of source o timing⟩
            runs := a.runs + 1 })) := by
    unfold analyze
    rw [h]
    cases hg : cannotGrade source o with
    | true => exact .inl ⟨rfl, by simp⟩
    | false => exact .inr ⟨rfl, by simp⟩
  rcases a.store.get_cases now (runKey source o) with ⟨e, hmem, hkey, hlive, hget⟩ | hget | hget
  · refine .inl ⟨e, hmem, hkey, hlive, ?_⟩
    unfold analyze
    rw [hget]
  · exact .inr (miss _ hget)
  · exact .inr (miss _ hget)

/-- A fresh analyzer makes the report of the pipeline, unless the rules cannot be graded. -/
theorem analyze_of_entries_nil {a : Analyzer τ} (h : a.store.entries = []) (now : τ)
    (timing : Timing) {source : List Char} {o : Options} (hg : cannotGrade source o = false) :
    (a.analyze now timing source o).1 = .ok ⟨a.runs, Report.of source o timing⟩ := by
  rcases a.analyze_cases now timing source o with ⟨e, hmem, -⟩ | ⟨hg', -⟩ | ⟨-, heq⟩
  · rw [h] at hmem
    cases hmem
  · rw [hg] at hg'
    cases hg'
  · rw [heq]

end Analyzer

/-! ## Runs of steps -/

namespace Session

variable {τ : Type}

/-- A session with nothing kept. -/
def start (clock ttl : τ) (capacity : Nat) (positive : 0 < capacity) : Session τ :=
  ⟨clock, { store := { ttl, capacity, capacity_pos := positive } }⟩

variable [Sub τ] [LT τ] [DecidableLT τ]

/-- The answer to a request. -/
def answer (s : Session τ) (timing : Timing) (source : Except String (List Char))
    (options : Options) (settings : List (SettingKey × Setting)) : Except AnalysisError Run :=
  (s.analyzer.request s.clock timing source options settings).1

variable [Add τ]

/-- The session after a step. -/
def step (s : Session τ) : SessionStep τ → Session τ
  | .request timing source options settings =>
    { s with analyzer := (s.analyzer.request s.clock timing source options settings).2 }
  | .clear => { s with analyzer := s.analyzer.clear }
  | .advance by' => { s with clock := s.clock + by' }

/-- The session after a list of steps. -/
def after (s : Session τ) (steps : List (SessionStep τ)) : Session τ :=
  steps.foldl step s

@[simp] theorem after_concat (s : Session τ) (steps : List (SessionStep τ))
    (step : SessionStep τ) : s.after (steps ++ [step]) = (s.after steps).step step := by
  simp [after]

/-! ## One request of a session -/

/-- A request that no analysis is tried for: its source is no text, or its settings cannot be
applied. -/
def Refused (source : Except String (List Char)) (options : Options)
    (settings : List (SettingKey × Setting)) : Prop :=
  (∃ typeName, source = .error typeName) ∨ ∃ e, options.merge settings = .error e

/-- The session answers a request with a run that it makes for it. -/
structure Makes (s : Session τ) (timing : Timing) (source : List Char) (options : Options)
    (settings : List (SettingKey × Setting)) (o : Options) (run : Run) : Prop where
  merged : options.merge settings = .ok o
  graded : cannotGrade source o = false
  answered : s.answer timing (.ok source) options settings = .ok run
  report : run.report = Report.of source o timing
  number : run.number = s.analyzer.runs
  counted : (s.step (.request timing (.ok source) options settings)).analyzer.runs =
    s.analyzer.runs + 1

/-- A request is refused and changes nothing, or its settings apply and it gets a kept run, fails
on its thresholds, or has a run made that is then kept. -/
theorem request_cases (s : Session τ) (timing : Timing) (source : Except String (List Char))
    (options : Options) (settings : List (SettingKey × Setting)) :
    (Refused source options settings ∧
      (∃ error, s.answer timing source options settings = .error error) ∧
      s.step (.request timing source options settings) = s) ∨
    ∃ text o, source = .ok text ∧ options.merge settings = .ok o ∧
      ((∃ e ∈ s.analyzer.store.entries, e.key = runKey text o ∧
          ¬ s.analyzer.store.expired s.clock e ∧
          s.answer timing source options settings = .ok e.value ∧
          s.step (.request timing source options settings) = s) ∨
        (s.answer timing source options settings = .error .outOfRange ∧
          (s.step (.request timing source options settings)).analyzer.store =
            (s.analyzer.store.get s.clock (runKey text o)).2) ∨
        ∃ run, s.Makes timing text options settings o run ∧
          (s.step (.request timing source options settings)).analyzer.store =
            (s.analyzer.store.get s.clock (runKey text o)).2.put s.clock (runKey text o) run) := by
  cases source with
  | error typeName => exact .inl ⟨.inl ⟨typeName, rfl⟩, ⟨_, rfl⟩, rfl⟩
  | ok text =>
    cases hmerge : options.merge settings with
    | error e =>
      have hrequest : s.analyzer.request s.clock timing (.ok text) options settings =
          (.error (.option e), s.analyzer) := by
        simp only [Analyzer.request, hmerge]
      refine .inl ⟨.inr ⟨e, hmerge⟩, ⟨.option e, ?_⟩, ?_⟩
      · simp only [answer, hrequest]
      · simp only [step, hrequest]
    | ok o =>
      have hrequest : s.analyzer.request s.clock timing (.ok text) options settings =
          s.analyzer.analyze s.clock timing text o := by
        simp only [Analyzer.request, hmerge]
      refine .inr ⟨text, o, rfl, rfl, ?_⟩
      rcases s.analyzer.analyze_cases s.clock timing text o with
        ⟨e, hmem, hkey, hlive, heq⟩ | ⟨-, heq⟩ | ⟨hg, heq⟩
      · refine .inl ⟨e, hmem, hkey, hlive, ?_, ?_⟩
        · simp only [answer, hrequest, heq]
        · simp only [step, hrequest, heq]
      · refine .inr (.inl ⟨?_, ?_⟩)
        · simp only [answer, hrequest, heq]
        · simp only [step, hrequest, heq]
      · refine .inr (.inr ⟨⟨s.analyzer.runs, Report.of text o timing⟩,
          ⟨hmerge, hg, ?_, rfl, rfl, ?_⟩, ?_⟩)
        · simp only [answer, hrequest, heq]
        · simp only [step, hrequest, heq]
        · simp only [step, hrequest, heq]

/-! ## Origins -/

/-- Among the steps there is a request for the source, at a time on the clock and with merged
options, that no later clearing made void. -/
def AskedSinceClear (s : Session τ) (steps : List (SessionStep τ)) (time : τ) (timing : Timing)
    (source : List Char) (o : Options) : Prop :=
  ∃ before later options settings,
    steps = before ++ .request timing (.ok source) options settings :: later ∧
      options.merge settings = .ok o ∧ .clear ∉ later ∧ time = (s.after before).clock

/-- Among the steps there is a request that the run was made for, at a time on the clock and with
merged options, that no later clearing made void. -/
def MadeSinceClear (s : Session τ) (steps : List (SessionStep τ)) (time : τ) (timing : Timing)
    (source : List Char) (o : Options) (run : Run) : Prop :=
  ∃ before later options settings,
    steps = before ++ .request timing (.ok source) options settings :: later ∧
      (s.after before).Makes timing source options settings o run ∧ .clear ∉ later ∧
        time = (s.after before).clock

/-- The request that a kept run was made for. -/
def HasOrigin (s : Session τ) (steps : List (SessionStep τ)) (e : Entry RunKey τ Run) : Prop :=
  ∃ timing source o, s.AskedSinceClear steps e.storedAt timing source o ∧
    e.key = runKey source o ∧ cannotGrade source o = false ∧
      e.value.report = Report.of source o timing

/-- A kept run was made for a request with the key that it is kept under, when it was stored. -/
def WasMade (s : Session τ) (steps : List (SessionStep τ)) (e : Entry RunKey τ Run) : Prop :=
  ∃ timing source o, s.MadeSinceClear steps e.storedAt timing source o e.value ∧
    e.key = runKey source o

theorem WasMade.concat {s : Session τ} {steps : List (SessionStep τ)} {e : Entry RunKey τ Run}
    (h : s.WasMade steps e) {step : SessionStep τ} (hstep : step ≠ .clear) :
    s.WasMade (steps ++ [step]) e := by
  obtain ⟨timing, source, o, ⟨before, later, options, settings, rfl, hmakes, hclear, htime⟩,
    hkey⟩ := h
  refine ⟨timing, source, o, ⟨before, later ++ [step], options, settings, by simp, hmakes, ?_,
    htime⟩, hkey⟩
  intro hmem
  rcases List.mem_append.mp hmem with hmem | hmem
  · exact hclear hmem
  · exact hstep (List.mem_singleton.mp hmem).symm

/-- What a run was made for is what it has its origin in. -/
theorem WasMade.hasOrigin {s : Session τ} {steps : List (SessionStep τ)}
    {e : Entry RunKey τ Run} (h : s.WasMade steps e) : s.HasOrigin steps e := by
  obtain ⟨timing, source, o, ⟨before, later, options, settings, hsteps, hmakes, hclear, htime⟩,
    hkey⟩ := h
  exact ⟨timing, source, o, ⟨before, later, options, settings, hsteps, hmakes.merged, hclear,
    htime⟩, hkey, hmakes.graded, hmakes.report⟩

/-- A request keeps the runs that stay and makes the one that it adds. -/
theorem wasMade_request {s : Session τ} {steps : List (SessionStep τ)} {timing : Timing}
    {source : Except String (List Char)} {options : Options}
    {settings : List (SettingKey × Setting)}
    (inv : ∀ e ∈ (s.after steps).analyzer.store.entries, s.WasMade steps e) :
    ∀ e ∈ ((s.after steps).step (.request timing source options settings)).analyzer.store.entries,
      s.WasMade (steps ++ [.request timing source options settings]) e := by
  intro e hmem
  have kept (h : e ∈ (s.after steps).analyzer.store.entries) :
      s.WasMade (steps ++ [.request timing source options settings]) e :=
    (inv e h).concat (by simp)
  rcases (s.after steps).request_cases timing source options settings with
    ⟨-, -, hstep⟩ | ⟨text, o, rfl, -, ⟨_, -, -, -, -, hstep⟩ | ⟨-, hstore⟩ | ⟨run, hmakes, hstore⟩⟩
  · rw [hstep] at hmem
    exact kept hmem
  · rw [hstep] at hmem
    exact kept hmem
  · rw [hstore] at hmem
    exact kept (Store.mem_entries_get hmem)
  · rw [hstore] at hmem
    rcases Store.mem_entries_put hmem with rfl | ⟨hold, -⟩
    · exact ⟨timing, text, o, ⟨steps, [], options, settings, rfl, hmakes, by simp, rfl⟩, rfl⟩
    · exact kept (Store.mem_entries_get hold)

/-- Every kept run was made for a request, whatever the steps of the session were. -/
theorem wasMade_of_mem {s : Session τ} (empty : s.analyzer.store.entries = [])
    (steps : List (SessionStep τ)) :
    ∀ e ∈ (s.after steps).analyzer.store.entries, s.WasMade steps e := by
  induction steps using List.reverseRecOn with
  | nil =>
    intro e hmem
    rw [show (s.after []).analyzer.store.entries = [] from empty] at hmem
    cases hmem
  | append_singleton steps step ih =>
    rw [after_concat]
    cases step with
    | request timing source options settings => exact wasMade_request ih
    | clear =>
      intro e hmem
      cases hmem
    | advance by' =>
      intro e hmem
      exact (ih e hmem).concat (by simp)

/-- **Every kept run has an origin**, whatever the steps of the session were. -/
theorem hasOrigin_of_mem {s : Session τ} (empty : s.analyzer.store.entries = [])
    (steps : List (SessionStep τ)) :
    ∀ e ∈ (s.after steps).analyzer.store.entries, s.HasOrigin steps e :=
  fun e hmem => (wasMade_of_mem empty steps e hmem).hasOrigin

end Session

end GrammarAudit
