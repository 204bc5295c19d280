import GrammarAudit.Options.Basic
import Mathlib.Data.List.Basic

/-!
# Merging settings

Options with settings applied are the options overlaid with the last value given for each of them,
whichever spelling it is given under. All keys are looked at first, and then every last value that
is given, in one fixed order. Values that options hold already pass that check, so applying settings
in two steps comes to applying them all at once.

- `Options.get`, `OptionName.Takes`: the value of an option, and the values that it can have.
- `Options.Valid`: every option has such a value.
- `Options.set_of_takes`, `Options.set_of_fault`: giving one option a value.
- `Options.apply_of_fault`, `Options.apply_of_sound`: giving values by name.
- `lastGiven?`, `Options.merge_iff`: what merging settings gives, and when.
- `Options.merge_laws`: merging composes, and the spelling of a key does not matter.
-/

namespace GrammarAudit

/-! ## Values of options -/

/-- The value of an option. -/
def Options.get (o : Options) : OptionName → Setting
  | .detectUnused => .flag o.detectUnused
  | .analyzeComplexity => .flag o.analyzeComplexity
  | .detectIssues => .flag o.detectIssues
  | .detectAmbiguity => .flag o.detectAmbiguity
  | .detectDangling => .flag o.detectDangling
  | .startRule => .text o.startRule
  | .high => .number o.high
  | .critical => .number o.critical

/-- Options are the values that they have. -/
theorem Options.ext_get {o o' : Options} (h : ∀ name, o.get name = o'.get name) : o = o' := by
  cases o
  cases o'
  rw [Options.mk.injEq]
  exact ⟨Setting.flag.inj (h .detectUnused), Setting.flag.inj (h .analyzeComplexity),
    Setting.flag.inj (h .detectIssues), Setting.flag.inj (h .detectAmbiguity),
    Setting.text.inj (h .startRule), Setting.number.inj (h .high),
    Setting.number.inj (h .critical), Setting.flag.inj (h .detectDangling)⟩

/-- The values that an option can have: switches, texts, or numbers that are not below zero. -/
def OptionName.Takes (name : OptionName) (value : Setting) : Prop :=
  match name with
  | .startRule => ∃ s, value = .text s
  | .high | .critical => ∃ n : Number, value = .number n ∧ ¬n < .int 0
  | _ => ∃ b, value = .flag b

/-- Options all of which have a value that they can have. -/
def Options.Valid (o : Options) : Prop :=
  ∀ name : OptionName, name.Takes (o.get name)

/-- What is wrong with a value for an option. -/
def OptionName.fault? (name : OptionName) (value : Setting) : Option OptionFault :=
  match name, value with
  | .startRule, .text _ => none
  | .startRule, _ => some .notText
  | .high, .number n | .critical, .number n => if n < .int 0 then some .negative else none
  | .high, _ | .critical, _ => some .notNumber
  | _, .flag _ => none
  | _, _ => some .notFlag

theorem OptionName.fault?_eq_none_iff {name : OptionName} {value : Setting} :
    name.fault? value = none ↔ name.Takes value := by
  cases name <;> cases value <;> simp [fault?, Takes]

/-! ## Giving one option a value -/

theorem OptionName.threshold_of_not_lt (name : OptionName) {n : Number} (h : ¬n < .int 0) :
    name.threshold (.number n) = .ok n :=
  if_neg h

theorem OptionName.threshold_of_lt (name : OptionName) {n : Number} (h : n < .int 0) :
    name.threshold (.number n) = name.fail .negative :=
  if_pos h

/-- An option is given a value that it can have, and the others keep theirs. -/
theorem Options.set_of_takes {name : OptionName} {value : Setting} (h : name.Takes value)
    (o : Options) :
    ∃ o', o.set name value = .ok o' ∧
      ∀ other, o'.get other = if other = name then value else o.get other := by
  cases name with
  | startRule =>
    obtain ⟨s, rfl⟩ := h
    exact ⟨{ o with startRule := s }, rfl, fun other => by cases other <;> rfl⟩
  | high =>
    obtain ⟨n, rfl, hn⟩ := h
    refine ⟨{ o with high := n }, ?_, fun other => by cases other <;> rfl⟩
    rw [Options.set, OptionName.threshold_of_not_lt _ hn]
    rfl
  | critical =>
    obtain ⟨n, rfl, hn⟩ := h
    refine ⟨{ o with critical := n }, ?_, fun other => by cases other <;> rfl⟩
    rw [Options.set, OptionName.threshold_of_not_lt _ hn]
    rfl
  | detectUnused | analyzeComplexity | detectIssues | detectAmbiguity | detectDangling =>
    obtain ⟨b, rfl⟩ := h
    exact ⟨_, rfl, fun other => by cases other <;> rfl⟩

/-- Any other value is an error that names the option. -/
theorem Options.set_of_fault {name : OptionName} {value : Setting} {fault : OptionFault}
    (h : name.fault? value = some fault) (o : Options) :
    o.set name value = .error ⟨.text name.snake, fault⟩ := by
  have hnumber {n : Number} (h : (if n < .int 0 then some OptionFault.negative else none) =
      some fault) : n < .int 0 ∧ fault = .negative := by
    split at h
    · next hn => exact ⟨hn, (Option.some.inj h).symm⟩
    · cases h
  cases name with
  | high =>
    cases value with
    | number n =>
      obtain ⟨hn, rfl⟩ := hnumber h
      rw [Options.set, OptionName.threshold_of_lt _ hn]
      rfl
    | flag | text | other => cases h; rfl
  | critical =>
    cases value with
    | number n =>
      obtain ⟨hn, rfl⟩ := hnumber h
      rw [Options.set, OptionName.threshold_of_lt _ hn]
      rfl
    | flag | text | other => cases h; rfl
  | startRule | detectUnused | analyzeComplexity | detectIssues | detectAmbiguity
  | detectDangling => cases value <;> cases h <;> rfl

/-! ## Giving values by name -/

section Overlay

variable {given : OptionName → Option Setting}

/-- One step of applying values: the one given for an option, if any. -/
def Options.setGiven (given : OptionName → Option Setting) (o : Options) (name : OptionName) :
    Except OptionError Options :=
  match given name with
  | some value => o.set name value
  | none => .ok o

/-- What is wrong with the value given for an option. -/
def OptionName.givenFault? (given : OptionName → Option Setting) (name : OptionName) :
    Option OptionError :=
  (given name).bind fun value => (name.fault? value).map fun fault => ⟨.text name.snake, fault⟩

/-- A value that an option cannot have stops the step, whatever the options are. -/
theorem Options.setGiven_of_fault {name : OptionName} {e : OptionError}
    (h : name.givenFault? given = some e) (o : Options) : o.setGiven given name = .error e := by
  obtain ⟨value, hgiven, hvalue⟩ := Option.bind_eq_some_iff.mp h
  obtain ⟨fault, hfault, rfl⟩ := Option.map_eq_some_iff.mp hvalue
  rw [Options.setGiven, hgiven]
  exact Options.set_of_fault hfault o

/-- Otherwise the step overlays the value of its option. -/
theorem Options.setGiven_of_sound {name : OptionName} (h : name.givenFault? given = none)
    (o : Options) :
    ∃ o', o.setGiven given name = .ok o' ∧
      ∀ other, o'.get other =
        if other = name then (given name).getD (o.get name) else o.get other := by
  unfold Options.setGiven
  cases hgiven : given name with
  | none =>
    refine ⟨o, rfl, fun other => ?_⟩
    split
    · next heq => rw [heq, Option.getD_none]
    · rfl
  | some value =>
    rw [OptionName.givenFault?, hgiven, Option.bind_some, Option.map_eq_none_iff] at h
    exact Options.set_of_takes (OptionName.fault?_eq_none_iff.mp h) o

/-- The first value that an option cannot have is the error. -/
theorem Options.foldlM_of_fault {names : List OptionName} {e : OptionError}
    (h : names.findSome? (OptionName.givenFault? given) = some e) (o : Options) :
    names.foldlM (Options.setGiven given) o = .error e := by
  induction names generalizing o with
  | nil => cases h
  | cons name names ih =>
    rw [List.findSome?_cons] at h
    rw [List.foldlM_cons]
    cases hname : name.givenFault? given with
    | none =>
      rw [hname] at h
      obtain ⟨o', hstep, -⟩ := Options.setGiven_of_sound hname o
      rw [hstep]
      exact ih h o'
    | some e' =>
      rw [hname] at h
      obtain rfl := Option.some.inj h
      rw [Options.setGiven_of_fault hname]
      rfl

/-- Values that their options can have overlay those of the options. -/
theorem Options.foldlM_of_sound {names : List OptionName}
    (h : ∀ name ∈ names, name.givenFault? given = none) (o : Options) :
    ∃ o', names.foldlM (Options.setGiven given) o = .ok o' ∧
      ∀ name, o'.get name =
        if name ∈ names then (given name).getD (o.get name) else o.get name := by
  induction names generalizing o with
  | nil => exact ⟨o, rfl, fun name => (if_neg List.not_mem_nil).symm⟩
  | cons first names ih =>
    obtain ⟨o₁, hstep, hfirst⟩ := Options.setGiven_of_sound (h first List.mem_cons_self) o
    obtain ⟨o', hrest, hget⟩ := ih (fun name hname => h name (List.mem_cons_of_mem _ hname)) o₁
    refine ⟨o', ?_, fun name => ?_⟩
    · rw [List.foldlM_cons, hstep]
      exact hrest
    · rw [hget, hfirst]
      by_cases hname : name = first
      · -- the value that the first step gave is given again, or kept
        subst hname
        rw [if_pos rfl, if_pos List.mem_cons_self]
        cases given name <;> simp
      · simp [hname]

end Overlay

theorem OptionName.mem_all (name : OptionName) : name ∈ OptionName.all := by
  cases name <;> decide

/-- What is wrong with the first of the last values, in the order in which they are checked. -/
def firstFault? (changes : List (OptionName × Setting)) : Option OptionError :=
  OptionName.all.findSome? (OptionName.givenFault? (lastValue? changes))

theorem Options.apply_of_fault {changes : List (OptionName × Setting)} {e : OptionError}
    (h : firstFault? changes = some e) (o : Options) : o.apply changes = .error e :=
  Options.foldlM_of_fault h o

theorem Options.apply_of_sound {changes : List (OptionName × Setting)}
    (h : firstFault? changes = none) (o : Options) :
    ∃ o', o.apply changes = .ok o' ∧
      ∀ name, o'.get name = (lastValue? changes name).getD (o.get name) := by
  obtain ⟨o', happly, hget⟩ := Options.foldlM_of_sound (List.findSome?_eq_none_iff.mp h) o
  refine ⟨o', happly, fun name => ?_⟩
  rw [hget, if_pos name.mem_all]

/-! ## Keys -/

theorem SettingKey.option?_snake (name : OptionName) :
    (SettingKey.text name.snake).option? = some name := by
  cases name <;> decide

theorem SettingKey.option?_camel (name : OptionName) :
    (SettingKey.text name.camel).option? = some name := by
  cases name <;> decide

/-- The option and the value of a setting, if its key names one. -/
theorem resolveSettings_cons (key : SettingKey) (value : Setting)
    (settings : List (SettingKey × Setting)) :
    resolveSettings ((key, value) :: settings) =
      match key.option? with
      | some name => resolveSettings settings >>= fun changes => .ok ((name, value) :: changes)
      | none => .error ⟨key, .unknown⟩ := by
  rw [resolveSettings, List.mapM_cons]
  simp only
  cases key.option? with
  | none => rfl
  | some name => rfl

theorem resolveSettings_append (a b : List (SettingKey × Setting)) :
    resolveSettings (a ++ b) =
      resolveSettings a >>= fun first => resolveSettings b >>= fun second => .ok (first ++ second) :=
  List.mapM_append

/-- Keys that name options are resolved to these, with their values. -/
theorem resolveSettings_eq_ok_iff {settings : List (SettingKey × Setting)}
    {changes : List (OptionName × Setting)} :
    resolveSettings settings = .ok changes ↔
      changes.map (fun c => (some c.1, c.2)) = settings.map fun p => (p.1.option?, p.2) := by
  induction settings generalizing changes with
  | nil =>
    rw [List.map_nil, List.map_eq_nil_iff]
    exact ⟨fun h => (Except.ok.inj h).symm, fun h => congrArg Except.ok h.symm⟩
  | cons p settings ih =>
    -- both sides say how the first setting and the others are resolved
    rw [resolveSettings_cons, List.map_cons, List.map_eq_cons_iff]
    simp only [← ih]
    cases p.1.option? with
    | none => simp
    | some name =>
      cases resolveSettings settings with
      | error e => simp [bind, Except.bind]
      | ok rest => simp [bind, Except.bind, eq_comm]

/-- Settings are resolved if each key names an option. -/
theorem exists_resolveSettings_iff {settings : List (SettingKey × Setting)} :
    (∃ changes, resolveSettings settings = .ok changes) ↔
      ∀ p ∈ settings, p.1.option?.isSome = true := by
  constructor
  · rintro ⟨changes, h⟩ p hp
    have hmem : (p.1.option?, p.2) ∈ settings.map fun p => (p.1.option?, p.2) :=
      List.mem_map_of_mem hp
    rw [← resolveSettings_eq_ok_iff.mp h] at hmem
    obtain ⟨c, -, hc⟩ := List.mem_map.mp hmem
    rw [← (Prod.mk.inj hc).1]
    rfl
  · intro h
    induction settings with
    | nil => exact ⟨[], rfl⟩
    | cons p settings ih =>
      obtain ⟨changes, hrest⟩ := ih fun q hq => h q (List.mem_cons_of_mem p hq)
      obtain ⟨name, hname⟩ := Option.isSome_iff_exists.mp (h p List.mem_cons_self)
      rw [resolveSettings_cons, hname, hrest]
      exact ⟨_, rfl⟩

/-- The value that settings give for an option: the last one, under whichever spelling. -/
def lastGiven? (settings : List (SettingKey × Setting)) (name : OptionName) : Option Setting :=
  (settings.reverse.find? fun p => p.1.option? = some name).map Prod.snd

theorem lastGiven?_eq_none_iff {settings : List (SettingKey × Setting)} {name : OptionName} :
    lastGiven? settings name = none ↔ ∀ p ∈ settings, p.1.option? ≠ some name := by
  simp [lastGiven?]

/-- Looking an option up by its name is looking for a key that names it. -/
theorem lookup_of_resolved {settings : List (SettingKey × Setting)}
    {changes : List (OptionName × Setting)}
    (h : changes.map (fun c => (some c.1, c.2)) = settings.map fun p => (p.1.option?, p.2))
    (name : OptionName) :
    changes.lookup name =
      (settings.find? fun p => p.1.option? = some name).map Prod.snd := by
  induction settings generalizing changes with
  | nil =>
    rw [List.map_eq_nil_iff.mp h]
    rfl
  | cons p settings ih =>
    cases changes with
    | nil => cases h
    | cons c changes =>
      obtain ⟨hhead, htail⟩ := List.cons.inj h
      obtain ⟨hkey, hvalue⟩ := Prod.mk.inj hhead
      rw [List.lookup_cons, List.find?_cons, ih htail, ← hkey, hvalue]
      by_cases hname : name = c.1
      · simp [hname]
      · simp [beq_false_of_ne hname, Ne.symm hname]

theorem lastValue?_of_resolved {settings : List (SettingKey × Setting)}
    {changes : List (OptionName × Setting)} (h : resolveSettings settings = .ok changes)
    (name : OptionName) : lastValue? changes name = lastGiven? settings name := by
  refine lookup_of_resolved ?_ name
  rw [List.map_reverse, List.map_reverse, resolveSettings_eq_ok_iff.mp h]

theorem lastValue?_append (first second : List (OptionName × Setting)) (name : OptionName) :
    lastValue? (first ++ second) name = (lastValue? second name).or (lastValue? first name) := by
  rw [lastValue?, List.reverse_append, List.lookup_append]
  rfl

/-- Faults of later values come before those of earlier ones, so sound earlier values add none. -/
theorem firstFault?_append {first : List (OptionName × Setting)} (h : firstFault? first = none)
    (second : List (OptionName × Setting)) :
    firstFault? (first ++ second) = firstFault? second := by
  have hsame (name : OptionName) : name.givenFault? (lastValue? (first ++ second)) =
      name.givenFault? (lastValue? second) := by
    have hsound := List.findSome?_eq_none_iff.mp h name name.mem_all
    unfold OptionName.givenFault? at hsound ⊢
    rw [lastValue?_append]
    cases lastValue? second name with
    | none => rw [Option.none_or, hsound, Option.bind_none]
    | some value => rfl
  exact congrArg (OptionName.all.findSome? ·) (funext hsame)

/-! ## Merging -/

section Merge

variable {o o₁ : Options} {a : List (SettingKey × Setting)}

/-- Settings are merged if each key names an option and no last value is at fault; the values are
then overlaid. -/
theorem Options.resolved_of_merge (h : o.merge a = .ok o₁) :
    ∃ changes, resolveSettings a = .ok changes ∧ firstFault? changes = none ∧
      o.apply changes = .ok o₁ := by
  unfold Options.merge at h
  cases hkeys : resolveSettings a with
  | error e =>
    rw [hkeys] at h
    cases h
  | ok changes =>
    rw [hkeys] at h
    have happly : o.apply changes = .ok o₁ := h
    cases hfault : firstFault? changes with
    | none => exact ⟨changes, rfl, hfault, happly⟩
    | some e =>
      rw [Options.apply_of_fault hfault] at happly
      cases happly

/-- Merged options are the options overlaid with the last values given. -/
theorem Options.get_of_merge (h : o.merge a = .ok o₁) (name : OptionName) :
    o₁.get name = (lastGiven? a name).getD (o.get name) := by
  obtain ⟨changes, hkeys, hsound, happly⟩ := Options.resolved_of_merge h
  obtain ⟨o', happly', hget⟩ := Options.apply_of_sound hsound o
  obtain rfl : o' = o₁ := Except.ok.inj (happly'.symm.trans happly)
  rw [hget, lastValue?_of_resolved hkeys]

/-- The last values given are such as their options can have. -/
theorem OptionName.takes_of_merge (h : o.merge a = .ok o₁) {name : OptionName} {value : Setting}
    (hvalue : lastGiven? a name = some value) : name.Takes value := by
  obtain ⟨changes, hkeys, hsound, -⟩ := Options.resolved_of_merge h
  have hname := List.findSome?_eq_none_iff.mp hsound name name.mem_all
  rw [OptionName.givenFault?, lastValue?_of_resolved hkeys, hvalue, Option.bind_some,
    Option.map_eq_none_iff] at hname
  exact OptionName.fault?_eq_none_iff.mp hname

/-- Settings are merged exactly if each key names an option and each last value is one that its
option can have, whatever the options are. -/
theorem Options.exists_merge_iff :
    (∃ o₁, o.merge a = .ok o₁) ↔ (∀ p ∈ a, p.1.option?.isSome = true) ∧
      ∀ name value, lastGiven? a name = some value → name.Takes value := by
  constructor
  · rintro ⟨o₁, h⟩
    obtain ⟨changes, hkeys, -⟩ := Options.resolved_of_merge h
    exact ⟨exists_resolveSettings_iff.mp ⟨changes, hkeys⟩,
      fun name value hvalue => OptionName.takes_of_merge h hvalue⟩
  · rintro ⟨hkeys, hvalues⟩
    obtain ⟨changes, hresolved⟩ := exists_resolveSettings_iff.mpr hkeys
    have hsound : firstFault? changes = none := by
      refine List.findSome?_eq_none_iff.mpr fun name _ => ?_
      rw [OptionName.givenFault?, lastValue?_of_resolved hresolved]
      cases hvalue : lastGiven? a name with
      | none => rfl
      | some value =>
        rw [Option.bind_some, OptionName.fault?_eq_none_iff.mpr (hvalues name value hvalue)]
        rfl
    obtain ⟨o₁, happly, -⟩ := Options.apply_of_sound hsound o
    refine ⟨o₁, ?_⟩
    unfold Options.merge
    rw [hresolved]
    exact happly

/-- Merged into valid options, settings give valid options. -/
theorem Options.Valid.of_merge (valid : o.Valid) (h : o.merge a = .ok o₁) : o₁.Valid := by
  intro name
  rw [Options.get_of_merge h]
  cases hvalue : lastGiven? a name with
  | none => exact valid name
  | some value => exact OptionName.takes_of_merge h hvalue

/-- Merging in two steps is merging at once, with the same error if the second step fails. -/
theorem Options.merge_append (h : o.merge a = .ok o₁) (b : List (SettingKey × Setting)) :
    o₁.merge b = o.merge (a ++ b) := by
  obtain ⟨first, hfirst, hsound, happly⟩ := Options.resolved_of_merge h
  unfold Options.merge
  rw [resolveSettings_append, hfirst]
  cases hsecond : resolveSettings b with
  | error e => rfl
  | ok second =>
    show o₁.apply second = o.apply (first ++ second)
    have hfault := firstFault?_append hsound second
    cases hsame : firstFault? second with
    | some e => rw [Options.apply_of_fault hsame, Options.apply_of_fault (hfault.trans hsame)]
    | none =>
      obtain ⟨o₂, h₂, hget₂⟩ := Options.apply_of_sound hsame o₁
      obtain ⟨o₃, h₃, hget₃⟩ := Options.apply_of_sound (hfault.trans hsame) o
      obtain ⟨o', h', hget'⟩ := Options.apply_of_sound hsound o
      obtain rfl : o' = o₁ := Except.ok.inj (h'.symm.trans happly)
      have heq : o₂ = o₃ := Options.ext_get fun name => by
        rw [hget₂, hget₃, hget', lastValue?_append]
        cases lastValue? second name <;> rfl
      rw [h₂, h₃, heq]

end Merge

/-- Keys that name the same option are resolved alike. -/
theorem Options.merge_congr_key {key key' : SettingKey} {name : OptionName}
    (h : key.option? = some name) (h' : key'.option? = some name) (o : Options)
    (before after : List (SettingKey × Setting)) (value : Setting) :
    o.merge (before ++ (key, value) :: after) = o.merge (before ++ (key', value) :: after) := by
  unfold Options.merge
  rw [resolveSettings_append, resolveSettings_append, resolveSettings_cons, resolveSettings_cons, h,
    h']

/-- The default options are valid. -/
theorem Options.valid_default : ({} : Options).Valid :=
  fun name => OptionName.fault?_eq_none_iff.mp (by cases name <;> decide +kernel)

/-- **Merging settings composes, and their spelling does not matter.** The spelling of a key with
inner capitals can always be replaced by the one with underscores. Merging succeeds exactly if each
key names an option and the last value for each option is one that it can have. Then more settings
merged into the result give what all of them give at once, the same error included; and if the
options were valid, the result is valid too, the options that no key names keep their values, and
each other one has the last value given for it. -/
theorem Options.merge_laws {o : Options} (valid : o.Valid) :
    (∀ before after name value,
      o.merge (before ++ (.text (OptionName.camel name), value) :: after) =
        o.merge (before ++ (.text name.snake, value) :: after)) ∧
    ∀ a, ((∃ o₁, o.merge a = .ok o₁) ↔ (∀ p ∈ a, p.1.option?.isSome = true) ∧
        ∀ name value, lastGiven? a name = some value → name.Takes value) ∧
      ∀ o₁, o.merge a = .ok o₁ →
        (∀ b, o₁.merge b = o.merge (a ++ b)) ∧ o₁.Valid ∧
        (∀ name, (∀ p ∈ a, p.1.option? ≠ some name) → o₁.get name = o.get name) ∧
        ∀ name value, lastGiven? a name = some value → o₁.get name = value := by
  refine ⟨fun before after name value => ?spelling, fun a =>
    ⟨Options.exists_merge_iff, fun o₁ h => ⟨Options.merge_append h, valid.of_merge h, ?kept, ?given⟩⟩⟩
  case spelling =>
    exact Options.merge_congr_key (SettingKey.option?_camel name) (SettingKey.option?_snake name) o
      before after value
  case kept =>
    intro name hnone
    rw [Options.get_of_merge h, lastGiven?_eq_none_iff.mpr hnone, Option.getD_none]
  case given =>
    intro name value hvalue
    rw [Options.get_of_merge h, hvalue, Option.getD_some]

/-- Two spellings of one option, and later settings of which one is at fault. -/
theorem Options.merge_laws_two_spellings :
    let a : List (SettingKey × Setting) :=
      [(.text "startRule", .text "s"), (.text "high_complexity_threshold", .number (.int (-1))),
        (.text "highComplexityThreshold", .number (.int 40))]
    let b : List (SettingKey × Setting) :=
      [(.text "start_rule", .text "t"), (.text "detectAmbiguity", .text "no")]
    let o₁ : Options := { startRule := "s", high := .int 40 }
    ({} : Options).Valid ∧ ({} : Options).merge a = .ok o₁ ∧ o₁.Valid ∧
      ({} : Options).merge (a ++ b) = .error ⟨.text "detect_ambiguity", .notFlag⟩ ∧
      o₁.merge b = .error ⟨.text "detect_ambiguity", .notFlag⟩ := by
  intro a b o₁
  have hmerge : ({} : Options).merge a = .ok o₁ := by decide +kernel
  obtain ⟨hcomposes, hvalid, -⟩ := ((Options.merge_laws Options.valid_default).2 a).2 o₁ hmerge
  have hfails : ({} : Options).merge (a ++ b) = .error ⟨.text "detect_ambiguity", .notFlag⟩ := by
    decide +kernel
  exact ⟨Options.valid_default, hmerge, hvalid, hfails, (hcomposes b).trans hfails⟩

end GrammarAudit
