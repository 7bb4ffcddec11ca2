import Mathlib.Data.List.Forall2
import QueryAdvisor.Proofs.Report.Contents

/-!
# JSON reports are read back

A JSON report is put together from pieces of text.  Each piece is shown to be
written by the grammar of JSON for the value it stands for: escaped strings,
digits, objects and arrays, and from them findings, groups and the whole report.
What is read off a report is therefore exactly what it was rendered from.
-/

namespace QueryAdvisor

namespace Json

/-- Plain bytes stand for themselves. -/
theorem isCharacters_of_plain
    {text : Text}
    (allPlain : text.all isPlain = true) :
    IsCharacters text text := by
  induction text with
  | nil => exact .nil
  | cons first rest inductionHypothesis =>
      rw [List.all_cons, Bool.and_eq_true] at allPlain
      exact .cons (.plain allPlain.1) (inductionHypothesis allPlain.2)

/-- Items that are joined by commas are separated by them. -/
theorem separated_join {α : Type}
    {writes : α → Text → Prop}
    {gap : Text}
    (allBlank : gap.all isBlank = true)
    {items : List α}
    {texts : List Text}
    (written : List.Forall₂ writes items texts)
    (nonempty : items ≠ []) :
    Separated writes items (Text.join (Byte.comma :: gap) texts) := by
  induction written with
  | nil => exact absurd rfl nonempty
  | @cons item text items texts first following inductionHypothesis =>
      cases following with
      | nil =>
          have last := Separated.last first (show ([] : Text).all isBlank = true from rfl)
          rwa [List.append_nil] at last
      | cons second rest =>
          have others := inductionHypothesis (List.cons_ne_nil _ _)
          have joined := Separated.cons first (show ([] : Text).all isBlank = true from rfl)
            allBlank others
          simpa [Text.join] using joined

end Json

namespace Report
namespace Json

open QueryAdvisor.Json

/-! ### Strings -/

/-- The two hexadecimal digits of a control byte write it. -/
theorem hexValue?_control : ∀ code < 32,
    hexValue? (hexDigit (code.toUInt8 / 16)) = some (code / 16) ∧
      hexValue? (hexDigit (code.toUInt8 % 16)) = some (code % 16) ∧
      encode code = [code.toUInt8] := by
  decide

theorem isCodeUnit_control
    {byte : UInt8}
    (control : byte < 32) :
    IsCodeUnit byte.toNat [48, 48, hexDigit (byte / 16), hexDigit (byte % 16)] := by
  obtain ⟨high, low, _⟩ := hexValue?_control byte.toNat (UInt8.lt_iff_toNat_lt.mp control)
  rw [Nat.toUInt8_eq, UInt8.ofNat_toNat] at high low
  have digits := IsCodeUnit.digits (show hexValue? 48 = some 0 from rfl)
    (show hexValue? 48 = some 0 from rfl) high low
  rwa [show ((0 * 16 + 0) * 16 + byte.toNat / 16) * 16 + byte.toNat % 16 = byte.toNat by omega]
    at digits

theorem isUnits_control
    {byte : UInt8}
    (control : byte < 32) :
    IsUnits [byte] [48, 48, hexDigit (byte / 16), hexDigit (byte % 16)] := by
  have small : byte.toNat < 32 := UInt8.lt_iff_toNat_lt.mp control
  obtain ⟨_, _, encoded⟩ := hexValue?_control byte.toNat small
  rw [Nat.toUInt8_eq, UInt8.ofNat_toNat] at encoded
  rw [← encoded]
  refine .single (isCodeUnit_control control) ?_ ?_
  · rintro ⟨large, _⟩
    omega
  · rintro ⟨large, _⟩
    omega

/-- Each byte is written by one piece that stands for it alone. -/
theorem isPiece_escapeByte (byte : UInt8) : IsPiece [byte] (escapeByte byte) := by
  unfold escapeByte
  split_ifs with isQuote isBackslash isBackspace isFormFeed isNewline isReturn isTab control
  · rw [isQuote]
    exact .short (by decide)
  · rw [isBackslash]
    exact .short (by decide)
  · exact isBackspace ▸ .short (by decide)
  · exact isFormFeed ▸ .short (by decide)
  · exact isNewline ▸ .short (by decide)
  · exact isReturn ▸ .short (by decide)
  · exact isTab ▸ .short (by decide)
  · exact .units (isUnits_control control)
  · exact .plain ((isPlain_iff byte).mpr ⟨UInt8.not_lt.mp control, isQuote, isBackslash⟩)

theorem isCharacters_escape (text : Text) : IsCharacters text (escape text) := by
  induction text with
  | nil => exact .nil
  | cons first rest inductionHypothesis =>
      exact .cons (isPiece_escapeByte first) inductionHypothesis

theorem writes_string (text : Text) : Writes (.string text) (string text) :=
  .string (isCharacters_escape text)

/-! ### Objects and arrays -/

theorem isMember_member
    {name : String}
    (allPlain : (ascii name).all isPlain = true)
    {value : Value}
    {text : Text}
    (writes : Writes value text) :
    IsMember Writes (ascii name, value) (member name text) := by
  have named := IsMember.named (isCharacters_of_plain allPlain)
    (show ([] : Text).all isBlank = true from rfl) (show [32].all isBlank = true from rfl) writes
  have colon : ascii "\": " = Byte.quote :: 58 :: [32] := rfl
  simpa [member, colon] using named

theorem writes_object
    {divider : String}
    {gap : Text}
    (divides : ascii divider = Byte.comma :: gap)
    (allBlank : gap.all isBlank = true)
    {members : List (Text × Value)}
    {texts : List Text}
    (written : List.Forall₂ (IsMember Writes) members texts) :
    Writes (.object members) (object divider texts) := by
  rw [object, divides, List.append_assoc]
  apply Writes.object
  cases written with
  | nil => exact .empty rfl
  | cons first rest =>
      have separated := separated_join allBlank (.cons first rest) (List.cons_ne_nil _ _)
      exact .items (show ([] : Text).all isBlank = true from rfl) separated

theorem writes_array
    {elements : List Value}
    {texts : List Text}
    (written : List.Forall₂ Writes elements texts) :
    Writes (.array elements) (array texts) := by
  rw [array, List.append_assoc]
  apply Writes.array
  cases written with
  | nil => exact .empty rfl
  | cons first rest =>
      have separated := separated_join (show ([] : Text).all isBlank = true from rfl)
        (.cons first rest) (List.cons_ne_nil _ _)
      exact .items (show ([] : Text).all isBlank = true from rfl) separated

/-- An array of values that are rendered one by one. -/
theorem writes_array_map {α : Type}
    {toJson : α → Value}
    {render : α → Text}
    (writes : ∀ element, Writes (toJson element) (render element))
    (elements : List α) :
    Writes (.array (elements.map toJson)) (array (elements.map render)) := by
  apply writes_array
  rw [List.forall₂_map_left_iff, List.forall₂_map_right_iff, List.forall₂_same]
  exact fun element _ => writes element

theorem writes_ofInt (number : Int) : Writes (.number number 0) (Text.ofInt number) :=
  .number (isNumber_ofInt number)

theorem writes_ofNat (number : Nat) : Writes (.number number 0) (Text.ofNat number) :=
  writes_ofInt number

/-! ### Reports -/

theorem writes_location (location : Location) :
    Writes location.toJson (Json.location location) := by
  cases location with
  | schema table column =>
      exact writes_object (by rfl) (by rfl)
        (.cons (isMember_member (by decide) (writes_string _)) <|
          .cons (isMember_member (by decide) (writes_string table)) <|
          .cons (isMember_member (by decide) (writes_string column)) .nil)
  | source file line column =>
      have kind := isMember_member (show (ascii "kind").all isPlain = true by decide)
        (writes_string (ascii "source"))
      have fileMember := isMember_member (show (ascii "file").all isPlain = true by decide)
        (writes_string file)
      have lineMember := isMember_member (show (ascii "line").all isPlain = true by decide)
        (writes_ofInt line)
      cases column with
      | nil =>
          exact writes_object (by rfl) (by rfl)
            (.cons kind (.cons fileMember (.cons lineMember .nil)))
      | cons first rest =>
          have columnMember := isMember_member
            (show (ascii "column").all isPlain = true by decide) (writes_string (first :: rest))
          exact writes_object (by rfl) (by rfl)
            (.cons kind (.cons fileMember (.cons lineMember (.cons columnMember .nil))))
  | config environment setting =>
      exact writes_object (by rfl) (by rfl)
        (.cons (isMember_member (by decide) (writes_string _)) <|
          .cons (isMember_member (by decide) (writes_string environment)) <|
          .cons (isMember_member (by decide) (writes_string setting)) .nil)

theorem writes_suggestion (text : Option Text) :
    Writes (text.elim .null .string) (suggestion text) := by
  cases text with
  | none => exact .null
  | some content => exact writes_string content

theorem writes_finding (found : Finding) : Writes found.toJson (finding found) :=
  writes_object (by rfl) (by rfl)
    (.cons (isMember_member (by decide) (writes_string _)) <|
      .cons (isMember_member (by decide) (writes_string _)) <|
      .cons (isMember_member (by decide) (writes_string _)) <|
      .cons (isMember_member (by decide) (writes_suggestion _)) <|
      .cons (isMember_member (by decide) (writes_location _)) .nil)

theorem writes_group (found : FindingGroup) :
    Writes (GroupContents.ofGroup found).toJson (group found) := by
  have counted : Writes (.number ((found.warnings ++ found.infos).length : Nat) 0)
      (Text.ofNat found.count) := by
    rw [List.length_append]
    exact writes_ofNat found.count
  exact writes_object (by rfl) (by rfl)
    (.cons (isMember_member (by decide) (writes_string _)) <|
      .cons (isMember_member (by decide) counted) <|
      .cons (isMember_member (by decide) (writes_array_map writes_finding _)) .nil)

theorem writes_scanError (error : ScanError) : Writes error.toJson (scanError error) :=
  writes_object (by rfl) (by rfl)
    (.cons (isMember_member (by decide) (writes_string _)) <|
      .cons (isMember_member (by decide) (writes_string _)) .nil)

theorem writes_counters
    (aggregate : Aggregate)
    (summary : Summary)
    (request : Request) :
    Writes (Contents.ofRun aggregate summary request).counters (counters aggregate summary) :=
  writes_object (by rfl) (by rfl)
    (.cons (isMember_member (by decide) (writes_ofNat _)) <|
      .cons (isMember_member (by decide) (writes_ofNat _)) <|
      .cons (isMember_member (by decide) (writes_ofNat _)) <|
      .cons (isMember_member (by decide) (writes_ofNat _)) <|
      .cons (isMember_member (by decide) (writes_ofNat _)) <|
      .cons (isMember_member (by decide) (writes_ofNat _)) .nil)

/-- A report writes its contents. -/
theorem writes_render
    (aggregate : Aggregate)
    (summary : Summary)
    (request : Request) :
    Writes (Contents.ofRun aggregate summary request).toJson (render aggregate summary request) := by
  have groups : Writes
      (.array ((aggregate.groups.map GroupContents.ofGroup).map GroupContents.toJson))
      (array (aggregate.groups.map group)) := by
    rw [List.map_map]
    exact writes_array_map writes_group aggregate.groups
  exact writes_object (by rfl) (by rfl)
    (.cons (isMember_member (by decide) (writes_string _)) <|
      .cons (isMember_member (by decide) (writes_string _)) <|
      .cons (isMember_member (by decide) (writes_counters aggregate summary request)) <|
      .cons (isMember_member (by decide) groups) <|
      .cons (isMember_member (by decide) (writes_array_map writes_scanError _)) .nil)

end Json

/-- The JSON report is what is rendered if it is asked for. -/
theorem json_standard
    {request : Request}
    (asked : ascii "json" ∈ request.formats)
    (aggregate : Aggregate)
    (summary : Summary) :
    (Reporter.standard.render aggregate summary request).json =
      Json.render aggregate summary request := by
  have asks : request.asksFor (ascii "json") = true := by
    rw [Request.asksFor, if_neg]
    · simpa using asked
    · simpa using List.ne_nil_of_mem asked
  exact if_pos asks

namespace Contents

open QueryAdvisor.Json

/-- The contents list the findings of all groups, in order. -/
theorem flatMap_findings_ofRun
    (aggregate : Aggregate)
    (summary : Summary)
    (request : Request) :
    (ofRun aggregate summary request).groups.flatMap GroupContents.findings =
      aggregate.groups.flatMap fun group => group.warnings ++ group.infos := by
  rw [ofRun, List.flatMap_map]
  rfl

/-- A JSON report is one JSON value with nothing around it, and what it was
rendered from is found in that value again.  So reports that are equal tell the
same, and list the same findings. -/
theorem json_reads_back
    {request : Request}
    (asked : ascii "json" ∈ request.formats)
    (aggregate : Aggregate)
    (summary : Summary) :
    ∃ value,
      Writes value (Reporter.standard.render aggregate summary request).json ∧
        parse (Reporter.standard.render aggregate summary request).json = some value ∧
        ofJson? value = some (ofRun aggregate summary request) ∧
        ∀ (otherAggregate : Aggregate) (otherSummary : Summary) (otherRequest : Request),
          ascii "json" ∈ otherRequest.formats →
            (Reporter.standard.render otherAggregate otherSummary otherRequest).json =
                (Reporter.standard.render aggregate summary request).json →
              ofRun otherAggregate otherSummary otherRequest = ofRun aggregate summary request ∧
                (otherAggregate.groups.flatMap fun group => group.warnings ++ group.infos) =
                  aggregate.groups.flatMap fun group => group.warnings ++ group.infos := by
  have writes := Json.writes_render aggregate summary request
  rw [json_standard asked]
  refine ⟨_, writes, parse_of_writes writes, ofJson?_toJson _, ?_⟩
  intro otherAggregate otherSummary otherRequest otherAsked same
  rw [json_standard otherAsked] at same
  have otherWrites := Json.writes_render otherAggregate otherSummary otherRequest
  rw [same] at otherWrites
  have sameContents : ofRun otherAggregate otherSummary otherRequest =
      ofRun aggregate summary request := by
    apply Option.some.inj
    rw [← ofJson?_toJson, ← ofJson?_toJson, otherWrites.unique writes]
  refine ⟨sameContents, ?_⟩
  rw [← flatMap_findings_ofRun otherAggregate otherSummary otherRequest, sameContents,
    flatMap_findings_ofRun]

/-- A finding with texts that have to be escaped, and without a column. -/
def awkwardFinding : Finding where
  type := .potentialNPlusOne
  severity := .warning
  message := ascii "not \"found\" \\ " ++ [0, 10, 255]
  suggestion := some []
  location := .source (ascii "a\tb.rb") (-1) []

/-- A finding of the same type that is no warning. -/
def mildFinding : Finding where
  type := .potentialNPlusOne
  severity := .info
  message := []
  suggestion := none
  location := .schema (ascii "a\"b") (ascii "\\")

def awkwardRequest : Request where
  root := Path.root
  suite := .nPlusOne
  formats := [ascii "json"]
  limits := {}

def awkwardSummary : Summary where
  projectRoot := Path.root
  tableCount := 0
  filesScanned := 1
  scanErrors := [⟨ascii "b.rb", [127]⟩]

theorem awkwardFinding_reads_back :
    ascii "json" ∈ awkwardRequest.formats ∧
      ∃ value contents,
        parse (Reporter.standard.render (.ofFindings [mildFinding, awkwardFinding])
            awkwardSummary awkwardRequest).json = some value ∧
          ofJson? value = some contents ∧
          contents.groups.map GroupContents.count = [2] ∧
          contents.groups.flatMap GroupContents.findings = [awkwardFinding, mildFinding] := by
  have asked : ascii "json" ∈ awkwardRequest.formats := List.mem_cons_self
  obtain ⟨value, _, parsed, found, _⟩ :=
    json_reads_back asked (.ofFindings [mildFinding, awkwardFinding]) awkwardSummary
  exact ⟨asked, value, _, parsed, found, rfl, rfl⟩

end Contents
end Report
end QueryAdvisor
