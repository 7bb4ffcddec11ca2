import QueryAdvisor.Proofs.Ordered
import QueryAdvisor.Proofs.Registry.Acceptance
import QueryAdvisor.Registry.Standard

/-!
# Sessions with a registry

A session is a sequence of calls to a registry that begins empty.  Calls that
meet a fault are passed over.  What the registry answers at the end is determined
by the calls that were accepted: they give the kinds and names of its rules, and
which reporter is the default one.  The standard registry is what such a session
leaves, in which no call is refused.
-/

namespace QueryAdvisor
namespace Registry

namespace Call

/-- The kind and the name of the rule that a call registers. -/
def rule? : Call → Option (RuleKind × Text)
  | registerSchemaRule name _ => some (.schema, name)
  | registerSourceRule name _ => some (.source, name)
  | registerConfigRule name _ => some (.config, name)
  | registerReporter _ _ _ => none
  | setSuiteRules _ _ => none

/-- The name of the reporter that a call registers, and whether the call asks to
make it the default. -/
def reporter? : Call → Option (Text × Bool)
  | registerReporter name _ makeDefault => some (name, makeDefault)
  | registerSchemaRule _ _ => none
  | registerSourceRule _ _ => none
  | registerConfigRule _ _ => none
  | setSuiteRules _ _ => none

end Call

namespace Accepts

variable {registry next : Registry} {call : Call}

theorem namesOf_eq
    (accepts : Accepts registry call next)
    (kind : RuleKind) :
    next.namesOf kind = registry.namesOf kind ++
      (call.rule?.toList.filter fun rule => rule.1 = kind).map Prod.snd := by
  cases accepts <;> cases kind <;> simp [namesOf, Components.names, Call.rule?]

/-- A rule is accepted only under a name that no rule has. -/
theorem fresh
    (accepts : Accepts registry call next)
    {kind : RuleKind}
    {name : Text}
    (registers : call.rule? = some (kind, name)) :
    name ≠ [] ∧ registry.kind? name = none := by
  cases accepts with
  | schemaRule admitted =>
      cases registers
      exact ⟨admitted.named, admitted.unknown⟩
  | sourceRule admitted =>
      cases registers
      exact ⟨admitted.named, admitted.unknown⟩
  | configRule admitted =>
      cases registers
      exact ⟨admitted.named, admitted.unknown⟩
  | reporter _ _ _ => contradiction
  | suiteRules _ => contradiction

/-- Suites are given only rules that are there. -/
theorem suiteRules_known
    (accepts : Accepts registry call next)
    {suite : Suite}
    {name : Text}
    (member : name ∈ next.suiteRules suite) :
    name ∈ registry.suiteRules suite ∨ registry.kind? name ≠ none := by
  cases accepts with
  | schemaRule _ => exact .inl member
  | sourceRule _ => exact .inl member
  | configRule _ => exact .inl member
  | reporter _ _ _ => exact .inl member
  | @suiteRules changed names known =>
      by_cases same : suite = changed
      · simp only [same, if_true] at member
        exact .inr (known name member)
      · simp only [same, if_false] at member
        exact .inl member

theorem reporterNames_eq
    (accepts : Accepts registry call next) :
    next.reporters.names =
      registry.reporters.names ++ call.reporter?.toList.map Prod.fst := by
  cases accepts <;> simp [Components.names, Call.reporter?]

/-- Only a call for a reporter changes the default. -/
theorem defaultReporter_of_none
    (accepts : Accepts registry call next)
    (noReporter : call.reporter? = none) :
    next.defaultReporter = registry.defaultReporter := by
  cases accepts with
  | reporter _ _ _ => contradiction
  | _ => rfl

theorem defaultReporter_of_some
    (accepts : Accepts registry call next)
    {name : Text}
    {makeDefault : Bool}
    (registers : call.reporter? = some (name, makeDefault)) :
    name ≠ [] ∧ next.defaultReporter =
      if makeDefault || registry.defaultReporter.isEmpty then name
      else registry.defaultReporter := by
  cases accepts with
  | reporter named _ _ =>
      cases registers
      exact ⟨named, rfl⟩
  | _ => contradiction

end Accepts

/-- A registry and the calls that it has accepted, in order. -/
structure Session where
  registry : Registry
  accepted : List Call

/-- Make a further call.  The session goes on with the registry that the call
leaves, whether it meets a fault or not. -/
def Session.next
    (session : Session)
    (call : Call) : Session where
  registry := (call.perform.on session.registry).2
  accepted :=
    if (call.perform.on session.registry).1.isOk then session.accepted ++ [call]
    else session.accepted

/-- The session of some calls, from the empty registry on. -/
def session (calls : List Call) : Session :=
  calls.foldl Session.next ⟨empty, []⟩

/-- A call changes nothing, or it is accepted. -/
theorem Session.next_cases
    (session : Session)
    (call : Call) :
    session.next call = session ∨
      Accepts session.registry call (session.next call).registry ∧
        (session.next call).accepted = session.accepted ++ [call] := by
  rw [next, Call.on_perform]
  cases outcome : call.outcome session.registry with
  | error fault => exact .inl rfl
  | ok next => exact .inr ⟨outcome_eq_ok_iff.mp outcome, rfl⟩

/-- The kinds and names of the rules that calls register. -/
def rulesOf (calls : List Call) : List (RuleKind × Text) :=
  calls.filterMap Call.rule?

/-- The names of the reporters that calls register, and whether they are to be
the default. -/
def reportersOf (calls : List Call) : List (Text × Bool) :=
  calls.filterMap Call.reporter?

/-- The last reporter that is to be the default, or without one the first
reporter. -/
def chosenReporter (reporters : List (Text × Bool)) : Text :=
  (((reporters.filter Prod.snd).getLast?.or reporters.head?).map Prod.fst).getD []

theorem rulesOf_concat
    (calls : List Call)
    (call : Call) :
    rulesOf (calls ++ [call]) = rulesOf calls ++ call.rule?.toList := by
  rw [rulesOf, List.filterMap_append]
  cases registers : call.rule? <;> simp [rulesOf, registers]

theorem reportersOf_concat
    (calls : List Call)
    (call : Call) :
    reportersOf (calls ++ [call]) = reportersOf calls ++ call.reporter?.toList := by
  rw [reportersOf, List.filterMap_append]
  cases registers : call.reporter? <;> simp [reportersOf, registers]

theorem chosenReporter_mem
    {reporters : List (Text × Bool)}
    (nonempty : reporters ≠ []) :
    chosenReporter reporters ∈ reporters.map Prod.fst := by
  rw [chosenReporter]
  cases last : (reporters.filter Prod.snd).getLast? with
  | some reporter =>
      have member := (List.mem_filter.mp (List.mem_of_getLast? last)).1
      simpa using List.mem_map_of_mem (f := Prod.fst) member
  | none =>
      cases reporters with
      | nil => contradiction
      | cons first rest => simp

/-- A further reporter is chosen if it is to be the default or if it is the
first. -/
theorem chosenReporter_concat
    {reporters : List (Text × Bool)}
    (named : [] ∉ reporters.map Prod.fst)
    (name : Text)
    (makeDefault : Bool) :
    chosenReporter (reporters ++ [(name, makeDefault)]) =
      if makeDefault || (chosenReporter reporters).isEmpty then name
      else chosenReporter reporters := by
  cases makeDefault with
  | true => simp [chosenReporter]
  | false =>
      cases reporters with
      | nil => rfl
      | cons first rest =>
          have chosen : (chosenReporter (first :: rest)).isEmpty = false := by
            rw [List.isEmpty_eq_false_iff]
            intro unnamed
            exact named (unnamed ▸ chosenReporter_mem (List.cons_ne_nil first rest))
          rw [chosen]
          simp [chosenReporter]

/-- A registry is what accepted calls have made of the empty one. -/
structure Follows
    (registry : Registry)
    (accepted : List Call) : Prop where
  namesOf_eq : ∀ kind, registry.namesOf kind =
    ((rulesOf accepted).filter fun rule => rule.1 = kind).map Prod.snd
  distinct : ((rulesOf accepted).map Prod.snd).Nodup
  named : [] ∉ (rulesOf accepted).map Prod.snd
  suiteRules_known : ∀ suite, ∀ name ∈ registry.suiteRules suite, registry.kind? name ≠ none
  reporterNames_eq : registry.reporters.names = (reportersOf accepted).map Prod.fst
  reportersNamed : [] ∉ (reportersOf accepted).map Prod.fst
  defaultReporter_eq : registry.defaultReporter = chosenReporter (reportersOf accepted)

theorem follows_empty : empty.Follows [] where
  namesOf_eq kind := by cases kind <;> rfl
  distinct := .nil
  named := List.not_mem_nil
  suiteRules_known _ _ member := absurd member List.not_mem_nil
  reporterNames_eq := rfl
  reportersNamed := List.not_mem_nil
  defaultReporter_eq := rfl

namespace Follows

variable {registry next : Registry} {accepted : List Call} {call : Call}

theorem mem_rulesOf_iff
    (follows : registry.Follows accepted)
    {kind : RuleKind}
    {name : Text} :
    (kind, name) ∈ rulesOf accepted ↔ name ∈ registry.namesOf kind := by
  rw [follows.namesOf_eq]
  simp

theorem kind?_eq_none_iff
    (follows : registry.Follows accepted)
    {name : Text} :
    registry.kind? name = none ↔ name ∉ (rulesOf accepted).map Prod.snd := by
  rw [Registry.kind?_eq_none_iff]
  simp [← follows.mem_rulesOf_iff]

/-- The rules keep distinct names, all of them nonempty. -/
theorem rules_step
    (follows : registry.Follows accepted)
    (accepts : Accepts registry call next) :
    ((rulesOf (accepted ++ [call])).map Prod.snd).Nodup ∧
      [] ∉ (rulesOf (accepted ++ [call])).map Prod.snd := by
  rw [rulesOf_concat, List.map_append]
  cases registers : call.rule? with
  | none =>
      rw [Option.toList_none, List.map_nil, List.append_nil]
      exact ⟨follows.distinct, follows.named⟩
  | some rule =>
      obtain ⟨kind, name⟩ := rule
      obtain ⟨named, unknown⟩ := accepts.fresh registers
      have absent := follows.kind?_eq_none_iff.mp unknown
      constructor
      · rw [Option.toList_some, List.map_singleton, List.nodup_append]
        refine ⟨follows.distinct, by simp, ?_⟩
        intro earlier member other single same
        rw [same, List.mem_singleton.mp single] at member
        exact absent member
      · simpa [named.symm] using follows.named

/-- The reporters keep nonempty names, and the default is the one that they
choose. -/
theorem reporters_step
    (follows : registry.Follows accepted)
    (accepts : Accepts registry call next) :
    [] ∉ (reportersOf (accepted ++ [call])).map Prod.fst ∧
      next.defaultReporter = chosenReporter (reportersOf (accepted ++ [call])) := by
  rw [reportersOf_concat]
  cases registers : call.reporter? with
  | none =>
      rw [Option.toList_none, List.append_nil, accepts.defaultReporter_of_none registers]
      exact ⟨follows.reportersNamed, follows.defaultReporter_eq⟩
  | some reporter =>
      obtain ⟨name, makeDefault⟩ := reporter
      obtain ⟨named, default⟩ := accepts.defaultReporter_of_some registers
      constructor
      · simpa [named.symm] using follows.reportersNamed
      · rw [default, follows.defaultReporter_eq, Option.toList_some,
          chosenReporter_concat follows.reportersNamed]

theorem step
    (follows : registry.Follows accepted)
    (accepts : Accepts registry call next) :
    next.Follows (accepted ++ [call]) := by
  obtain ⟨distinct, named⟩ := follows.rules_step accepts
  obtain ⟨reportersNamed, defaultReporter_eq⟩ := follows.reporters_step accepts
  refine ⟨?_, distinct, named, ?_, ?_, reportersNamed, defaultReporter_eq⟩
  · intro kind
    rw [accepts.namesOf_eq, follows.namesOf_eq, rulesOf_concat, List.filter_append,
      List.map_append]
  · intro suite name member
    -- A name that has a kind before the call keeps it, since no rule is ever removed.
    have known : registry.kind? name ≠ none :=
      (accepts.suiteRules_known member).elim (follows.suiteRules_known suite name) id
    rw [Ne, Registry.kind?_eq_none_iff] at known ⊢
    refine mt (fun absent kind earlier => absent kind ?_) known
    rw [accepts.namesOf_eq]
    exact List.mem_append_left _ earlier
  · rw [accepts.reporterNames_eq, follows.reporterNames_eq, reportersOf_concat, List.map_append]

end Follows

theorem Session.follows_next
    {session : Session}
    (follows : session.registry.Follows session.accepted)
    (call : Call) :
    (session.next call).registry.Follows (session.next call).accepted := by
  rcases session.next_cases call with unchanged | ⟨accepts, accepted⟩
  · rw [unchanged]
    exact follows
  · rw [accepted]
    exact follows.step accepts

/-- At the end of every session the registry is what the accepted calls have
made. -/
theorem follows_session
    (calls : List Call) :
    (session calls).registry.Follows (session calls).accepted := by
  have foldl_follows : ∀ start : Session, start.registry.Follows start.accepted →
      (calls.foldl Session.next start).registry.Follows
        (calls.foldl Session.next start).accepted := by
    induction calls with
    | nil => exact fun _ follows => follows
    | cons call rest inductionHypothesis =>
        exact fun start follows =>
          inductionHypothesis (start.next call) (Session.follows_next follows call)
  exact foldl_follows ⟨empty, []⟩ follows_empty

/-! ### The standard registry -/

/-- If every call is accepted, then the session ends with what the calls make one
after the other. -/
theorem foldl_next_of_accepted
    {calls : List Call}
    {start : Session}
    {registry : Registry}
    (accepted : calls.foldlM (fun registry call => call.outcome registry) start.registry =
      .ok registry) :
    calls.foldl Session.next start = ⟨registry, start.accepted ++ calls⟩ := by
  induction calls generalizing start with
  | nil =>
      obtain rfl := Except.ok.inj accepted
      rw [List.foldl_nil, List.append_nil]
  | cons call rest inductionHypothesis =>
      rw [List.foldlM_cons] at accepted
      rw [List.foldl_cons]
      cases outcome : call.outcome start.registry with
      | error fault =>
          rw [outcome] at accepted
          contradiction
      | ok next =>
          have performed := call.on_perform start.registry
          rw [outcome] at accepted performed
          have moved : start.next call = ⟨next, start.accepted ++ [call]⟩ := by
            rw [Session.next, performed]
            rfl
          have ends : rest.foldl Session.next ⟨next, start.accepted ++ [call]⟩ =
              ⟨registry, start.accepted ++ [call] ++ rest⟩ := inductionHypothesis accepted
          rw [moved, ends, List.append_assoc, List.singleton_append]

/-- The calls that make the standard registry. -/
def standardCalls : List Call :=
  [.registerSchemaRule (ascii "missing-foreign-key-index") (.makes .missingForeignKeyIndex),
    .registerSchemaRule (ascii "boolean-index-opportunity") (.makes .booleanIndexOpportunity),
    .registerSourceRule (ascii "where-clause-column") (.makes .whereClauseColumn),
    .registerSourceRule (ascii "controller-n-plus-one") (.makes .controllerNPlusOne),
    .registerSourceRule (ascii "view-association-access") (.makes .viewAssociationAccess),
    .registerConfigRule (ascii "connection-pool") (.makes .connectionPool),
    .registerConfigRule (ascii "timeouts") (.makes .timeouts),
    .registerConfigRule (ascii "prepared-statements") (.makes .preparedStatements),
    .registerConfigRule (ascii "reaping-frequency") (.makes .reapingFrequency),
    .registerConfigRule (ascii "ssl-configuration") (.makes .sslConfiguration),
    .registerConfigRule (ascii "performance-extension") (.makes .performanceExtension),
    .registerReporter (ascii "text") (.makes .standard) true,
    .setSuiteRules .indexes
      [ascii "missing-foreign-key-index", ascii "where-clause-column",
        ascii "boolean-index-opportunity"],
    .setSuiteRules .nPlusOne [ascii "controller-n-plus-one", ascii "view-association-access"],
    .setSuiteRules .config
      [ascii "connection-pool", ascii "timeouts", ascii "prepared-statements",
        ascii "reaping-frequency", ascii "ssl-configuration", ascii "performance-extension"]]

/-- The standard registry is left by a session of calls, all of which are accepted. -/
theorem session_standardCalls : session standardCalls = ⟨standard, standardCalls⟩ := by
  have accepted : standardCalls.foldlM (fun registry call => call.outcome registry) empty =
      .ok { standard with
        suiteRules := fun suite =>
          if suite = .config then standard.suiteRules .config
          else if suite = .nPlusOne then standard.suiteRules .nPlusOne
          else if suite = .indexes then standard.suiteRules .indexes
          else [] } := rfl
  rw [session, foldl_next_of_accepted accepted]
  have sameRules : (fun suite : Suite =>
      if suite = .config then standard.suiteRules .config
      else if suite = .nPlusOne then standard.suiteRules .nPlusOne
      else if suite = .indexes then standard.suiteRules .indexes
      else []) = standard.suiteRules := by
    funext suite
    cases suite <;> rfl
  rw [sameRules]
  rfl

end Registry
end QueryAdvisor
