import QueryAdvisor.Connection.Settings
import Mathlib.Data.List.Basic

/-!
# Merged settings

What an environment says of a setting is what it says itself, in the last entry of
that name, and only otherwise what is merged into it.  The mappings under the last
merge key are merged, and an earlier one takes precedence.
-/

namespace QueryAdvisor

namespace Settings

theorem lookup_cons
    (name : Text)
    (value : Document)
    (settings : Settings)
    (other : Text) :
    List.lookup other ((name, value) :: settings) =
      if other = name then some value else settings.lookup other := by
  rw [List.lookup_cons]
  by_cases same : other = name
  · simp [same]
  · simp [same, beq_eq_false_iff_ne.mpr same]

/-- Exactly one name gets another value. -/
theorem lookup_put
    (name : Text)
    (value : Document)
    (settings : Settings)
    (other : Text) :
    (settings.put name value).lookup other =
      if other = name then some value else settings.lookup other := by
  induction settings with
  | nil => exact lookup_cons name value [] other
  | cons first rest inductionHypothesis =>
      obtain ⟨firstName, firstValue⟩ := first
      rw [put, lookup_cons]
      split
      · rename_i isFirst
        subst isFirst
        rw [lookup_cons]
        split <;> rfl
      · rename_i notFirst
        rw [lookup_cons, inductionHypothesis]
        by_cases same : other = name
        · subst same
          rw [if_pos rfl, if_pos rfl, if_neg notFirst]
        · rw [if_neg same, if_neg same]

/-- What is there takes precedence over what is merged. -/
theorem lookup_mergeInto
    (settings more : Settings)
    (name : Text) :
    (settings.mergeInto more).lookup name = (settings.lookup name).or (more.lookup name) := by
  rw [mergeInto]
  induction more generalizing settings with
  | nil => exact (Option.or_none).symm
  | cons first rest inductionHypothesis =>
      obtain ⟨firstName, firstValue⟩ := first
      rw [List.foldl_cons, inductionHypothesis, lookup_cons]
      by_cases same : name = firstName
      · subst same
        cases present : settings.lookup name with
        | some value => simp [present]
        | none => simp [present, List.lookup_append]
      · simp only [if_neg same]
        split
        · rfl
        · rw [List.lookup_append, lookup_cons, if_neg same, List.lookup_nil, Option.or_none]

/-- Of several mappings the first one with a name counts. -/
theorem lookup_foldl_mergeInto
    (settings : Settings)
    (sources : List Settings)
    (name : Text) :
    (sources.foldl mergeInto settings).lookup name =
      (settings.lookup name).or (sources.findSome? fun source => source.lookup name) := by
  induction sources generalizing settings with
  | nil => exact (Option.or_none).symm
  | cons first rest inductionHypothesis =>
      rw [List.foldl_cons, inductionHypothesis, lookup_mergeInto, Option.or_assoc,
        List.findSome?_cons]
      cases first.lookup name <;> rfl

end Settings

namespace Document

variable (reader : DocumentReader)

/-- The value that entries give to a name themselves, which is that of the last entry
of this name. -/
def own?
    (name : Text) : List (DocumentKey × Document) → Option Document
  | [] => none
  | (key, value) :: rest =>
    (own? name rest).or
      (if key.toOption = some name ∧ name ≠ mergeKey then (resolve reader value).toOption
      else none)

/-- What stands under the last merge key of entries. -/
def merges? : List (DocumentKey × Document) → Option Document
  | [] => none
  | (key, value) :: rest =>
    (merges? rest).or (if key.toOption = some mergeKey then some value else none)

/-- Each entry gives a value to its name, or replaces what is to be merged. -/
theorem lookup_settingsOfEntries
    {entries : List (DocumentKey × Document)}
    {known : Settings}
    {merged : Except Text (List Settings)}
    {result : Settings}
    (read : settingsOfEntries reader entries known merged = .ok result) :
    ∃ others, (merges? entries).elim merged (sources reader) = .ok others ∧
      ∀ name, result.lookup name =
        ((own? reader name entries).or (known.lookup name)).or
          (others.findSome? fun source => source.lookup name) := by
  induction entries generalizing known merged with
  | nil =>
      rw [settingsOfEntries] at read
      cases merged with
      | error complaint => contradiction
      | ok others =>
          obtain rfl := Except.ok.inj read
          exact ⟨others, rfl, Settings.lookup_foldl_mergeInto known others⟩
  | cons entry rest inductionHypothesis =>
      obtain ⟨key, value⟩ := entry
      rw [settingsOfEntries] at read
      cases key with
      | error complaint => contradiction
      | ok text =>
          by_cases isMerge : text = mergeKey
          · subst isMerge
            have readRest : settingsOfEntries reader rest known (sources reader value) =
                .ok result := by
              simpa [bind, Except.bind] using read
            obtain ⟨others, merging, values⟩ := inductionHypothesis readRest
            refine ⟨others, ?_, ?_⟩
            · rw [← merging, merges?]
              cases merges? rest <;> simp [Except.toOption]
            · intro name
              have notOwn : ¬ (some mergeKey = some name ∧ name ≠ mergeKey) := by
                rintro ⟨same, different⟩
                exact different (Option.some.inj same).symm
              rw [values name, own?, Except.toOption, if_neg notOwn, Option.or_none]
          · cases resolved : resolve reader value with
            | error complaint =>
                simp [bind, Except.bind, isMerge, resolved] at read
            | ok resolution =>
                have readRest : settingsOfEntries reader rest (known.put text resolution) merged =
                    .ok result := by
                  simpa [bind, Except.bind, isMerge, resolved] using read
                obtain ⟨others, merging, values⟩ := inductionHypothesis readRest
                refine ⟨others, ?_, ?_⟩
                · rw [← merging, merges?, Except.toOption,
                    if_neg (mt Option.some.inj isMerge), Option.or_none]
                · intro name
                  rw [values name, Settings.lookup_put, own?, Except.toOption, resolved]
                  by_cases same : name = text
                  · subst same
                    simp [isMerge, Except.toOption]
                  · have notNamed : ¬ (some text = some name ∧ name ≠ mergeKey) :=
                      fun named => same (Option.some.inj named.1).symm
                    rw [if_neg same, if_neg notNamed, Option.or_none]

/-- What settings say of each name, if they are those of a mapping with these
entries. -/
def AreMergedFrom
    (settings : Settings)
    (entries : List (DocumentKey × Document)) : Prop :=
  ∃ others, (merges? entries).elim (.ok []) (sources reader) = .ok others ∧
    ∀ name, settings.lookup name =
      (own? reader name entries).or (others.findSome? fun source => source.lookup name)

theorem areMergedFrom_of_settings
    {entries : List (DocumentKey × Document)}
    {result : Settings}
    (read : (mapping entries).settings reader = .ok result) :
    AreMergedFrom reader result entries := by
  rw [settings] at read
  obtain ⟨others, merging, values⟩ := lookup_settingsOfEntries reader read
  refine ⟨others, merging, ?_⟩
  intro name
  rw [values name, List.lookup_nil, Option.or_none]

end Document

namespace DatabaseConfig

variable {reader : DocumentReader}

/-- An environment is what an entry with a mapping says. -/
def IsEntry
    (reader : DocumentReader)
    (entry : DocumentKey × Document)
    (environment : Environment) : Prop :=
  entry.1 = .ok environment.name ∧
    ∃ entries, entry.2 = .mapping entries ∧
      Document.AreMergedFrom reader environment.settings entries

/-- There is an environment for every entry with a mapping, in order. -/
theorem forall₂_environmentsOf
    {entries : List (DocumentKey × Document)}
    {environments : List Environment}
    (read : environmentsOf reader entries = .ok environments) :
    List.Forall₂ (IsEntry reader) (entries.filter fun entry => entry.2.isMapping)
      environments := by
  induction entries generalizing environments with
  | nil =>
      obtain rfl := Except.ok.inj read
      exact .nil
  | cons entry rest inductionHypothesis =>
      obtain ⟨key, value⟩ := entry
      rw [environmentsOf] at read
      cases value with
      | mapping inner =>
          rw [Document.isMapping, if_pos rfl] at read
          cases key with
          | error complaint => contradiction
          | ok name =>
              cases settingsRead : (Document.mapping inner).settings reader with
              | error complaint => simp [bind, Except.bind, settingsRead] at read
              | ok settings =>
                  cases othersRead : environmentsOf reader rest with
                  | error complaint => simp [bind, Except.bind, settingsRead, othersRead] at read
                  | ok others =>
                      obtain rfl : { name, settings } :: others = environments := by
                        simpa [bind, Except.bind, pure, Except.pure, settingsRead, othersRead]
                          using read
                      rw [List.filter_cons_of_pos rfl]
                      exact .cons
                        ⟨rfl, inner, rfl, Document.areMergedFrom_of_settings reader settingsRead⟩
                        (inductionHypothesis othersRead)
      | _ => exact inductionHypothesis read

/-- The environments of a database configuration are the mappings in its document,
which is read without template tags.  What an environment says itself takes precedence
over what is merged into it. -/
theorem forall₂_load
    {disk : Disk}
    {path : Path}
    {content : Text}
    {entries : List (DocumentKey × Document)}
    {config : DatabaseConfig}
    (present : disk.pathExists path = .ok true)
    (opens : disk.read path = .content content)
    (reads : reader.parse (stripTags content) = .ok (.mapping entries))
    (loaded : load reader disk path = .ok config) :
    List.Forall₂ (IsEntry reader) (entries.filter fun entry => entry.2.isMapping)
      config.environments := by
  have parsed : parse reader path content = .ok config := by
    simpa [load, present, opens, bind, Except.bind] using loaded
  have readThrough : (reader.parse (stripTags content) >>= ofDocument reader) =
      environmentsOf reader entries >>= fun environments => pure ⟨environments⟩ := by
    rw [reads]
    rfl
  rw [parse, readThrough] at parsed
  cases read : environmentsOf reader entries with
  | error complaint =>
      rw [read] at parsed
      contradiction
  | ok environments =>
      rw [read] at parsed
      obtain rfl : ⟨environments⟩ = config := Except.ok.inj parsed
      exact forall₂_environmentsOf read

/-- Of a repeated setting the last one counts, also behind the merge key, and the
merged mapping completes what is missing. -/
example :
    let scalar (text : String) : Document := .scalar ⟨ascii text, none, none⟩
    let text : Document → Text
      | .scalar value => value.text
      | _ => []
    let defaults : Document := .mapping
      [(.ok (ascii "pool"), scalar "5"), (.ok (ascii "sslmode"), scalar "require")]
    let production : Document := .mapping
      [(.ok (ascii "pool"), scalar "1"), (.ok Document.mergeKey, defaults),
        (.ok (ascii "pool"), scalar "9")]
    (production.settings (.refusing [])).map
        (fun settings => settings.map fun setting => (setting.1, text setting.2)) =
      .ok [(ascii "pool", ascii "9"), (ascii "sslmode", ascii "require")] := by
  decide

end DatabaseConfig
end QueryAdvisor
