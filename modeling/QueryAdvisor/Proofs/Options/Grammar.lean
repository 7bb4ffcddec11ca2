import Mathlib.Data.List.Induction
import QueryAdvisor.Options.Arguments

/-!
# The grammar of arguments

Arguments are read from left to right, one or two at a time.  What is read in one
step is an item: a switch, or a flag with the argument behind it, whatever that
looks like.  A list of arguments is accepted exactly if it is made of items with
admissible values and perhaps a call for help, behind which anything may stand.
The last item of a kind decides on its option.
-/

namespace QueryAdvisor

section Folding

variable {α β : Type} {step : β → α → Except Fault β}

/-- A sequence with a result has a result for its first part. -/
theorem exists_of_bind_eq_ok
    {first : Except Fault α}
    {next : α → Except Fault β}
    {result : β}
    (succeeded : first >>= next = .ok result) :
    ∃ value, first = .ok value ∧ next value = .ok result := by
  cases first with
  | error fault => contradiction
  | ok value => exact ⟨value, rfl, succeeded⟩

/-- A fold goes through if every element is accepted, where this does not depend on
what has come before. -/
theorem exists_foldlM_eq_ok_iff
    {Accepted : α → Prop}
    (accepts : ∀ state element, (∃ next, step state element = .ok next) ↔ Accepted element)
    (elements : List α)
    (state : β) :
    (∃ final, elements.foldlM step state = .ok final) ↔
      ∀ element ∈ elements, Accepted element := by
  induction elements generalizing state with
  | nil => simp [pure, Except.pure]
  | cons element rest inductionHypothesis =>
      rw [List.foldlM_cons, List.forall_mem_cons, ← accepts state element]
      cases step state element with
      | error fault => simp [bind, Except.bind]
      | ok next => simpa [bind, Except.bind] using inductionHypothesis next

/-- A fault of a fold is one of its steps. -/
theorem property_of_foldlM_eq_error
    {Refusal : Fault → Prop}
    (refuses : ∀ {state element fault}, step state element = .error fault → Refusal fault)
    {elements : List α}
    {state : β}
    {fault : Fault}
    (failed : elements.foldlM step state = .error fault) :
    Refusal fault := by
  induction elements generalizing state with
  | nil => contradiction
  | cons element rest inductionHypothesis =>
      rw [List.foldlM_cons] at failed
      cases stepped : step state element with
      | error stopped =>
          rw [stepped] at failed
          obtain rfl := Except.error.inj failed
          exact refuses stepped
      | ok next =>
          rw [stepped] at failed
          exact inductionHypothesis failed

/-- What holds at the start and is preserved by every step holds after a fold that
goes through. -/
theorem holds_of_foldlM_eq_ok
    (Holds : List α → β → Prop)
    {start final : β}
    (atStart : Holds [] start)
    (preserved : ∀ {elements element state next}, Holds elements state →
      step state element = .ok next → Holds (elements ++ [element]) next)
    {elements : List α}
    (folded : elements.foldlM step start = .ok final) :
    Holds elements final := by
  induction elements using List.reverseRecOn generalizing final with
  | nil =>
      obtain rfl := Except.ok.inj folded
      exact atStart
  | append_singleton elements element inductionHypothesis =>
      rw [List.foldlM_append] at folded
      obtain ⟨state, before, last⟩ := exists_of_bind_eq_ok folded
      have stepped : step state element = .ok final :=
        (bind_pure (step state element)).symm.trans last
      exact preserved (inductionHypothesis before) stepped

end Folding

namespace Fault

/-- The faults that lie in the arguments of a command. -/
def IsInvalidArgument : Fault → Prop
  | unknownArgument _ | valueMissing _ | unknownFormat _ | unknownLevel _ => True
  | _ => False

end Fault

theorem Level.isInvalidArgument_of_parse_eq_error
    {word : Text}
    {fault : Fault}
    (refused : parse word = .error fault) :
    fault.IsInvalidArgument := by
  simp only [parse] at refused
  split_ifs at refused
  obtain rfl := Except.error.inj refused
  trivial

namespace Options

/-! ### Items -/

/-- An argument that stands alone. -/
inductive Switch where
  | verbose
  | debug
deriving DecidableEq, Repr

namespace Switch

/-- How a switch is written. -/
def word : Switch → Text
  | verbose => ascii "--verbose"
  | debug => ascii "--debug"

/-- The level that a switch sets. -/
def level : Switch → Level
  | verbose => .info
  | debug => .debug

end Switch

/-- What is read in one step. -/
inductive Item where
  /-- A switch. -/
  | alone (switch : Switch)
  /-- A flag and the argument behind it. -/
  | valued (flag : Flag) (value : Text)
deriving DecidableEq, Repr

namespace Item

/-- The arguments of an item. -/
def words : Item → List Text
  | alone switch => [switch.word]
  | valued flag value => [flag.word, value]

/-- A piece is a word in small letters or capitals, with spaces before and behind. -/
def IsPadded
    (word piece : Text) : Prop :=
  ∃ before inner after : Text,
    before.all Byte.isSpace = true ∧ after.all Byte.isSpace = true ∧
      piece = before ++ inner ++ after ∧ Text.toLower inner = word

/-- Between commas a list of formats holds nothing or a format that is offered, in
small letters or capitals and with spaces around it, and a log level is one that can
be read.  Other values may be anything. -/
def Admissible : Item → Prop
  | valued .format value => ∀ piece ∈ value.splitOn Byte.comma,
      ∃ word ∈ [[], ascii "text", ascii "json"], IsPadded word piece
  | valued .logLevel value => ∃ level, Level.parse value = .ok level
  | _ => True

/-- The value that an item gives to a flag. -/
def value?
    (flag : Flag) : Item → Option Text
  | valued other value => if other = flag then some value else none
  | alone _ => none

/-- The level that an item sets. -/
def level? : Item → Option Level
  | alone switch => some switch.level
  | valued .logLevel value => (Level.parse value).toOption
  | valued _ _ => none

/-- What an item does to the options. -/
def apply
    (options : Options) : Item → Except Fault Options
  | alone switch => .ok { options with level := some switch.level }
  | valued flag value => flag.apply value options

end Item

/-- A call for help with whatever follows it. -/
def IsHelp (arguments : List Text) : Prop :=
  ∃ call ∈ [ascii "--help", ascii "-h"], ∃ rest, arguments = call :: rest

/-- Arguments made of items with admissible values, and perhaps a call for help
behind them. -/
structure IsWritten
    (arguments : List Text)
    (items : List Item)
    (tail : List Text) : Prop where
  words : arguments = items.flatMap Item.words ++ tail
  admissible : ∀ item ∈ items, item.Admissible
  ending : tail = [] ∨ IsHelp tail

/-! ### One step -/

theorem readArguments_switch
    (options : Options)
    (switch : Switch)
    (rest : List Text) :
    readArguments options (switch.word :: rest) =
      readArguments { options with level := some switch.level } rest := by
  cases switch <;> rfl

theorem readArguments_flag
    (options : Options)
    (flag : Flag)
    (value : Text)
    (rest : List Text) :
    readArguments options (flag.word :: value :: rest) =
      flag.apply value options >>= fun next => readArguments next rest := by
  cases flag <;> rfl

theorem readArguments_help
    (options : Options)
    {arguments : List Text}
    (isHelp : IsHelp arguments) :
    readArguments options arguments = .ok { options with showHelp := true } := by
  obtain ⟨call, asks, rest, rfl⟩ := isHelp
  have asked : asksForHelp call = true := by simpa [asksForHelp] using asks
  rw [readArguments, if_pos asked]

/-- An argument is none of the words that begin something. -/
def IsUnknown (argument : Text) : Prop :=
  asksForHelp argument = false ∧ switchLevel? argument = none ∧ Flag.ofWord? argument = none

theorem readArguments_unknown
    (options : Options)
    {argument : Text}
    (unknown : IsUnknown argument)
    (rest : List Text) :
    readArguments options (argument :: rest) = .error (.unknownArgument argument) := by
  obtain ⟨noHelp, noSwitch, noFlag⟩ := unknown
  simp [readArguments, noHelp, noSwitch, noFlag]

/-- Arguments that cannot be read any further: the first one is not known, or it is
a flag without a value. -/
def IsStuck (arguments : List Text) : Prop :=
  (∃ argument rest, arguments = argument :: rest ∧ IsUnknown argument) ∨
    ∃ flag : Flag, arguments = [flag.word]

theorem readArguments_stuck
    (options : Options)
    {arguments : List Text}
    (isStuck : IsStuck arguments) :
    ∃ fault, readArguments options arguments = .error fault ∧ fault.IsInvalidArgument := by
  rcases isStuck with ⟨argument, rest, rfl, unknown⟩ | ⟨flag, rfl⟩
  · exact ⟨.unknownArgument argument, readArguments_unknown options unknown rest, trivial⟩
  · exact ⟨.valueMissing flag.word, by cases flag <;> rfl, trivial⟩

/-- The first argument decides what is read. -/
theorem argument_cases (argument : Text) :
    argument ∈ [ascii "--help", ascii "-h"] ∨ (∃ switch : Switch, switch.word = argument) ∨
      (∃ flag : Flag, flag.word = argument) ∨ IsUnknown argument := by
  by_cases asks : argument ∈ [ascii "--help", ascii "-h"]
  · exact .inl asks
  by_cases isSwitch : ∃ switch : Switch, switch.word = argument
  · exact .inr (.inl isSwitch)
  by_cases isFlag : ∃ flag : Flag, flag.word = argument
  · exact .inr (.inr (.inl isFlag))
  refine .inr (.inr (.inr ⟨?_, ?_, ?_⟩))
  · simpa [asksForHelp] using asks
  · have notVerbose : argument ≠ ascii "--verbose" := fun same => isSwitch ⟨.verbose, same.symm⟩
    have notDebug : argument ≠ ascii "--debug" := fun same => isSwitch ⟨.debug, same.symm⟩
    rw [switchLevel?, if_neg notVerbose, if_neg notDebug]
  · rw [Flag.ofWord?, List.find?_eq_none]
    intro flag _ same
    exact isFlag ⟨flag, of_decide_eq_true same⟩

/-- Step by step, arguments are cut into items and what is left. -/
theorem exists_items_append (arguments : List Text) :
    ∃ (items : List Item) (rest : List Text), arguments = items.flatMap Item.words ++ rest ∧
      (rest = [] ∨ IsHelp rest ∨ IsStuck rest) := by
  -- A step takes one argument or two, so the induction is on the number of arguments.
  induction length : arguments.length using Nat.strongRecOn generalizing arguments with
  | ind length inductionHypothesis =>
      subst length
      cases arguments with
      | nil => exact ⟨[], [], rfl, .inl rfl⟩
      | cons argument rest =>
          rcases argument_cases argument with asks | ⟨switch, rfl⟩ | ⟨flag, rfl⟩ | unknown
          · exact ⟨[], _, rfl, .inr (.inl ⟨argument, asks, rest, rfl⟩)⟩
          · obtain ⟨items, left, cut, ending⟩ :=
              inductionHypothesis rest.length (by simp) rest rfl
            exact ⟨.alone switch :: items, left, by simp [Item.words, cut], ending⟩
          · cases rest with
            | nil => exact ⟨[], _, rfl, .inr (.inr (.inr ⟨flag, rfl⟩))⟩
            | cons value others =>
                obtain ⟨items, left, cut, ending⟩ :=
                  inductionHypothesis others.length (by simp only [List.length_cons]; omega)
                    others rfl
                exact ⟨.valued flag value :: items, left, by simp [Item.words, cut], ending⟩
          · exact ⟨[], _, rfl, .inr (.inr (.inl ⟨argument, rest, rfl, unknown⟩))⟩

/-! ### What an item does -/

theorem exists_addFormat_eq_ok_iff
    (formats : List Text)
    (format : Text) :
    (∃ more, addFormat formats format = .ok more) ↔ format ∈ offeredFormats := by
  rw [addFormat]
  split <;> simp_all

theorem isSpace_toLower (byte : UInt8) :
    Byte.isSpace (Byte.toLower byte) = Byte.isSpace byte := by
  unfold Byte.toLower
  split
  · rename_i isUpper
    simp only [Byte.isUpper, Bool.and_eq_true, decide_eq_true_eq, UInt8.le_iff_toNat_le] at isUpper
    rw [Bool.eq_iff_iff]
    simp only [Byte.isSpace, Bool.or_eq_true, Bool.and_eq_true, beq_iff_eq,
      decide_eq_true_eq, UInt8.le_iff_toNat_le, ← UInt8.toNat_inj, UInt8.toNat_add]
    simp only [UInt8.reduceToNat] at isUpper ⊢
    omega
  · rfl

/-- Of a word without spaces, trimming leaves just the word. -/
theorem isPadded_iff
    {word : Text}
    (solid : word.any Byte.isSpace = false)
    (piece : Text) :
    Item.IsPadded word piece ↔ Text.toLower (Text.trim piece) = word := by
  constructor
  · rintro ⟨before, inner, after, spacesBefore, spacesAfter, rfl, rfl⟩
    have sameSpaces : (Byte.isSpace ∘ Byte.toLower) = Byte.isSpace := funext isSpace_toLower
    rw [Text.toLower, List.any_map, sameSpaces] at solid
    rw [Text.trim_append spacesBefore spacesAfter solid]
  · intro trimmed
    obtain ⟨before, after, spacesBefore, spacesAfter, whole⟩ := Text.exists_append_trim piece
    exact ⟨before, _, after, spacesBefore, spacesAfter, whole, trimmed⟩

/-- Empty pieces do not count, and all others have to be offered. -/
theorem exists_addFormats_eq_ok_iff
    (formats : List Text)
    (value : Text) :
    (∃ more, addFormats formats value = .ok more) ↔
      ∀ piece ∈ value.splitOn Byte.comma,
        ∃ word ∈ [[], ascii "text", ascii "json"], Item.IsPadded word piece := by
  have solid : ∀ word ∈ [[], ascii "text", ascii "json"], word.any Byte.isSpace = false := by
    simp only [List.forall_mem_cons]
    exact ⟨rfl, by decide, by decide, by simp⟩
  have padded (piece : Text) :
      (∃ word ∈ [[], ascii "text", ascii "json"], Item.IsPadded word piece) ↔
        Text.toLower (Text.trim piece) ∈ [[], ascii "text", ascii "json"] := by
    constructor
    · rintro ⟨word, offered, isPadded⟩
      rwa [(isPadded_iff (solid word offered) piece).mp isPadded]
    · intro offered
      exact ⟨_, offered, (isPadded_iff (solid _ offered) piece).mpr rfl⟩
  simp only [padded]
  rw [addFormats, exists_foldlM_eq_ok_iff exists_addFormat_eq_ok_iff, listed]
  simp only [List.forall_mem_map, List.forall_mem_filter, offeredFormats, List.mem_cons,
    List.not_mem_nil, or_false, Bool.not_eq_true', List.isEmpty_eq_false_iff]
  refine forall₂_congr fun piece _ => ?_
  have emptyLower : Text.toLower (Text.trim piece) = [] ↔ Text.trim piece = [] :=
    List.map_eq_nil_iff
  rw [emptyLower]
  exact or_iff_not_imp_left.symm

theorem isInvalidArgument_of_addFormats_eq_error
    {formats : List Text}
    {value : Text}
    {fault : Fault}
    (refused : addFormats formats value = .error fault) :
    fault.IsInvalidArgument := by
  refine property_of_foldlM_eq_error ?_ refused
  intro formats format fault unknown
  rw [addFormat] at unknown
  split at unknown
  · contradiction
  · obtain rfl := Except.error.inj unknown
    trivial

/-- What an item leaves of the options: it decides on the option of its kind, and the
others stay as they are. -/
structure Sets
    (item : Item)
    (options next : Options) : Prop where
  root : next.root = (item.value? .root).or options.root
  outputDirectory : next.outputDirectory = (item.value? .out).or options.outputDirectory
  optionsFile : next.optionsFile = (item.value? .config).or options.optionsFile
  reporter : next.reporter = (item.value? .reporter).or options.reporter
  level : next.level = item.level?.or options.level
  booleanLimit : next.booleanLimit = options.booleanLimit
  whereLimit : next.whereLimit = options.whereLimit
  showHelp : next.showHelp = options.showHelp

namespace Item

/-- Where the value of an item is read first, the reading decides. -/
theorem apply_cases_of_read
    {α : Type}
    {options : Options}
    {item : Item}
    {read : Except Fault α}
    {update : α → Options}
    (applies : item.apply options = read >>= fun value => pure (update value))
    (admissible : item.Admissible ↔ ∃ value, read = .ok value)
    (invalid : ∀ fault, read = .error fault → fault.IsInvalidArgument)
    (sets : ∀ value, read = .ok value → Sets item options (update value)) :
    (item.Admissible ∧ ∃ next, item.apply options = .ok next ∧ Sets item options next) ∨
      (¬ item.Admissible ∧
        ∃ fault, item.apply options = .error fault ∧ fault.IsInvalidArgument) := by
  cases read with
  | error fault =>
      have refused : ¬ item.Admissible := by simp [admissible]
      exact .inr ⟨refused, fault, applies, invalid fault rfl⟩
  | ok value =>
      exact .inl ⟨admissible.mpr ⟨value, rfl⟩, update value, applies, sets value rfl⟩

/-- An item with an admissible value sets its option, and any other is refused. -/
theorem apply_cases
    (options : Options)
    (item : Item) :
    (item.Admissible ∧ ∃ next, item.apply options = .ok next ∧ Sets item options next) ∨
      (¬ item.Admissible ∧
        ∃ fault, item.apply options = .error fault ∧ fault.IsInvalidArgument) := by
  cases item with
  | alone switch => exact .inl ⟨trivial, _, rfl, by constructor <;> rfl⟩
  | valued flag value =>
      -- Only formats and levels are read; any text will do for the other flags.
      cases flag with
      | format =>
          have applies : (valued .format value).apply options =
              addFormats options.formats value >>= fun formats =>
                pure { options with formats } := rfl
          refine apply_cases_of_read applies
            (exists_addFormats_eq_ok_iff options.formats value).symm ?_ ?_
          · exact fun fault refused => isInvalidArgument_of_addFormats_eq_error refused
          · exact fun formats _ => by constructor <;> rfl
      | logLevel =>
          have applies : (valued .logLevel value).apply options =
              Level.parse value >>= fun level =>
                pure { options with level := some level } := rfl
          refine apply_cases_of_read applies Iff.rfl ?_ ?_
          · exact fun fault refused => Level.isInvalidArgument_of_parse_eq_error refused
          · intro level read
            have given : level? (.valued .logLevel value) = some level := by
              rw [level?, read]
              rfl
            constructor <;> simp [given, value?]
      | _ => exact .inl ⟨trivial, _, rfl, by constructor <;> rfl⟩

/-- Whether an item can be applied depends on its value alone. -/
theorem exists_apply_eq_ok_iff
    (options : Options)
    (item : Item) :
    (∃ next, item.apply options = .ok next) ↔ item.Admissible := by
  rcases apply_cases options item with ⟨admissible, next, applied, _⟩ | ⟨refused, fault, failed, _⟩
  · exact ⟨fun _ => admissible, fun _ => ⟨next, applied⟩⟩
  · simp [refused, failed]

theorem isInvalidArgument_of_apply_eq_error
    {options : Options}
    {item : Item}
    {fault : Fault}
    (refused : item.apply options = .error fault) :
    fault.IsInvalidArgument := by
  rcases apply_cases options item with ⟨_, next, applied, _⟩ | ⟨_, other, failed, invalid⟩
  · rw [applied] at refused
    contradiction
  · obtain rfl := Except.error.inj (failed.symm.trans refused)
    exact invalid

theorem sets_of_apply_eq_ok
    {options next : Options}
    {item : Item}
    (applied : item.apply options = .ok next) :
    Sets item options next := by
  rcases apply_cases options item with ⟨_, other, succeeded, sets⟩ | ⟨_, fault, failed, _⟩
  · obtain rfl := Except.ok.inj (succeeded.symm.trans applied)
    exact sets
  · rw [failed] at applied
    contradiction

end Item

/-! ### A whole run -/

theorem readArguments_words
    (options : Options)
    (item : Item)
    (rest : List Text) :
    readArguments options (item.words ++ rest) =
      item.apply options >>= fun next => readArguments next rest := by
  cases item with
  | alone switch => exact readArguments_switch options switch rest
  | valued flag value => exact readArguments_flag options flag value rest

/-- Items are applied one after the other. -/
theorem readArguments_items
    (options : Options)
    (items : List Item)
    (rest : List Text) :
    readArguments options (items.flatMap Item.words ++ rest) =
      items.foldlM Item.apply options >>= fun next => readArguments next rest := by
  induction items generalizing options with
  | nil => rfl
  | cons item others inductionHypothesis =>
      rw [List.flatMap_cons, List.append_assoc, readArguments_words, List.foldlM_cons, bind_assoc]
      congr 1
      funext next
      exact inductionHypothesis next

/-- The options that items stand for: the last item of a kind decides on its
option, and no item sets a limit. -/
structure FollowsItems
    (options : Options)
    (items : List Item) : Prop where
  root : options.root = (items.filterMap (Item.value? .root)).getLast?
  outputDirectory : options.outputDirectory = (items.filterMap (Item.value? .out)).getLast?
  optionsFile : options.optionsFile = (items.filterMap (Item.value? .config)).getLast?
  reporter : options.reporter = (items.filterMap (Item.value? .reporter)).getLast?
  level : options.level = (items.filterMap Item.level?).getLast?
  booleanLimit : options.booleanLimit = none
  whereLimit : options.whereLimit = none

theorem getLast?_filterMap_concat
    {α : Type}
    (part? : Item → Option α)
    (items : List Item)
    (item : Item) :
    ((items ++ [item]).filterMap part?).getLast? =
      (part? item).or (items.filterMap part?).getLast? := by
  rw [List.filterMap_append, List.getLast?_append]
  cases part : part? item <;> simp [part]

/-- One item more, and it decides. -/
theorem FollowsItems.concat
    {options next : Options}
    {items : List Item}
    {item : Item}
    (follows : options.FollowsItems items)
    (sets : Sets item options next) :
    next.FollowsItems (items ++ [item]) where
  root := by rw [getLast?_filterMap_concat, sets.root, follows.root]
  outputDirectory := by
    rw [getLast?_filterMap_concat, sets.outputDirectory, follows.outputDirectory]
  optionsFile := by rw [getLast?_filterMap_concat, sets.optionsFile, follows.optionsFile]
  reporter := by rw [getLast?_filterMap_concat, sets.reporter, follows.reporter]
  level := by rw [getLast?_filterMap_concat, sets.level, follows.level]
  booleanLimit := sets.booleanLimit.trans follows.booleanLimit
  whereLimit := sets.whereLimit.trans follows.whereLimit

/-- From the start, all items together. -/
theorem followsItems_of_foldlM_eq_ok
    {items : List Item}
    {options : Options}
    (applied : items.foldlM Item.apply {} = .ok options) :
    options.FollowsItems items ∧ options.showHelp = false := by
  refine holds_of_foldlM_eq_ok (fun items options => options.FollowsItems items ∧
    options.showHelp = false) ?_ ?_ applied
  · exact ⟨by constructor <;> rfl, rfl⟩
  · rintro earlier item state next ⟨follows, noHelp⟩ last
    have sets := Item.sets_of_apply_eq_ok last
    exact ⟨follows.concat sets, sets.showHelp.trans noHelp⟩

/-- Arguments that are written as they should be are accepted. -/
theorem ofArguments_of_isWritten
    {arguments tail : List Text}
    {items : List Item}
    (isWritten : IsWritten arguments items tail) :
    ∃ options, ofArguments arguments = .ok options ∧ options.FollowsItems items ∧
      (options.showHelp = true ↔ IsHelp tail) := by
  obtain ⟨words, admissible, ending⟩ := isWritten
  obtain ⟨options, applied⟩ :=
    (exists_foldlM_eq_ok_iff Item.exists_apply_eq_ok_iff items {}).mpr admissible
  obtain ⟨follows, noHelp⟩ := followsItems_of_foldlM_eq_ok applied
  have read : ofArguments arguments = readArguments options tail := by
    rw [ofArguments, words, readArguments_items, applied]
    rfl
  rcases ending with rfl | isHelp
  · have notHelp : ¬ IsHelp [] := fun ⟨_, _, _, cut⟩ => by contradiction
    exact ⟨options, read, follows, by simp [noHelp, notHelp]⟩
  · refine ⟨{ options with showHelp := true }, ?_, ?_, by simp [isHelp]⟩
    · rw [read, readArguments_help options isHelp]
    · exact { follows with }

/-- All other arguments are refused. -/
theorem ofArguments_of_not_isWritten
    {arguments : List Text}
    (notWritten : ¬ ∃ items tail, IsWritten arguments items tail) :
    ∃ fault, ofArguments arguments = .error fault ∧ fault.IsInvalidArgument := by
  obtain ⟨items, rest, words, ending⟩ := exists_items_append arguments
  have read := readArguments_items {} items rest
  rw [← words] at read
  cases applied : items.foldlM Item.apply {} with
  | error fault =>
      rw [applied] at read
      exact ⟨fault, read,
        property_of_foldlM_eq_error Item.isInvalidArgument_of_apply_eq_error applied⟩
  | ok options =>
      have admissible :=
        (exists_foldlM_eq_ok_iff Item.exists_apply_eq_ok_iff items {}).mp ⟨options, applied⟩
      have isStuck : IsStuck rest := by
        rcases ending with finished | isHelp | isStuck
        · exact absurd ⟨items, rest, words, admissible, .inl finished⟩ notWritten
        · exact absurd ⟨items, rest, words, admissible, .inr isHelp⟩ notWritten
        · exact isStuck
      rw [applied] at read
      obtain ⟨fault, refused, invalid⟩ := readArguments_stuck options isStuck
      exact ⟨fault, read.trans refused, invalid⟩

/-- Arguments are accepted exactly if they are made of items with admissible values
and perhaps a call for help, with anything behind it.  Then the last item of a kind
decides on its option, help is shown exactly if it is called for, and no limit is
set.  All other arguments are refused as invalid. -/
theorem ofArguments_grammar (arguments : List Text) :
    ((∃ options, ofArguments arguments = .ok options) ↔
        ∃ items tail, IsWritten arguments items tail) ∧
      (∀ items tail options, IsWritten arguments items tail →
        ofArguments arguments = .ok options →
          options.FollowsItems items ∧ (options.showHelp = true ↔ IsHelp tail)) ∧
      ((¬ ∃ items tail, IsWritten arguments items tail) →
        ∃ fault, ofArguments arguments = .error fault ∧ fault.IsInvalidArgument) := by
  refine ⟨⟨?_, ?_⟩, ?_, ofArguments_of_not_isWritten⟩
  · rintro ⟨options, accepted⟩
    by_contra notWritten
    obtain ⟨fault, refused, _⟩ := ofArguments_of_not_isWritten notWritten
    rw [accepted] at refused
    contradiction
  · rintro ⟨items, tail, isWritten⟩
    obtain ⟨options, accepted, _⟩ := ofArguments_of_isWritten isWritten
    exact ⟨options, accepted⟩
  · intro items tail options isWritten accepted
    obtain ⟨other, acceptedOther, follows⟩ := ofArguments_of_isWritten isWritten
    obtain rfl := Except.ok.inj (acceptedOther.symm.trans accepted)
    exact follows

/-- A call for help in the place of a value, formats with blanks between them, a root
that is given twice, and an unknown argument behind the actual call for help. -/
def crowdedItems : List Item :=
  [.valued .root (ascii "--help"), .valued .logLevel (ascii "WARN"), .alone .debug,
    .valued .format (ascii "JSON, ,text"), .valued .root (ascii "shop")]

def crowdedTail : List Text :=
  [ascii "-h", ascii "--bogus"]

theorem admissible_crowdedFormat :
    (Item.valued .format (ascii "JSON, ,text")).Admissible := by
  have pieces : (ascii "JSON, ,text").splitOn Byte.comma =
      [ascii "JSON", ascii " ", ascii "text"] := by decide
  have json : Item.IsPadded (ascii "json") (ascii "JSON") :=
    ⟨[], ascii "JSON", [], rfl, rfl, (List.append_nil _).symm, by decide⟩
  have blank : Item.IsPadded [] (ascii " ") := ⟨ascii " ", [], [], by decide, rfl, rfl, rfl⟩
  have text : Item.IsPadded (ascii "text") (ascii "text") :=
    ⟨[], ascii "text", [], rfl, rfl, (List.append_nil _).symm, by decide⟩
  rw [Item.Admissible, pieces]
  simp only [List.forall_mem_cons]
  exact ⟨⟨_, by simp, json⟩, ⟨_, by simp, blank⟩, ⟨_, by simp, text⟩, by simp⟩

/-- A format with a blank inside is not offered. -/
def brokenFormat : List Text :=
  [ascii "--format", ascii "json,js on"]

theorem ofArguments_brokenFormat :
    ofArguments brokenFormat = .error (.unknownFormat (ascii "js on")) := by
  have pieces : (listed (ascii "json,js on")).map Text.toLower = [ascii "json", ascii "js on"] := by
    decide
  have offered : addFormat [] (ascii "json") = .ok [ascii "json"] := if_pos (by decide)
  have notOffered : addFormat [ascii "json"] (ascii "js on") =
      .error (.unknownFormat (ascii "js on")) := if_neg (by decide)
  have refused : addFormats [] (ascii "json,js on") =
      .error (.unknownFormat (ascii "js on")) := by
    rw [addFormats, pieces, List.foldlM_cons, offered]
    exact congrArg (· >>= pure) notOffered
  have read : ofArguments brokenFormat =
      Flag.format.apply (ascii "json,js on") {} >>= fun next => readArguments next [] := rfl
  rw [read, Flag.apply, refused]
  rfl

theorem crowdedItems_accepted :
    IsWritten (crowdedItems.flatMap Item.words ++ crowdedTail) crowdedItems crowdedTail ∧
      (∃ options, ofArguments (crowdedItems.flatMap Item.words ++ crowdedTail) = .ok options ∧
        options.root = some (ascii "shop") ∧ options.reporter = none ∧
        options.level = some .debug ∧ options.showHelp = true) ∧
      (ofArguments brokenFormat = .error (.unknownFormat (ascii "js on")) ∧
        ¬ ∃ items tail, IsWritten brokenFormat items tail) := by
  have isHelp : IsHelp crowdedTail := ⟨ascii "-h", by decide, [ascii "--bogus"], rfl⟩
  have admissible : ∀ item ∈ crowdedItems, item.Admissible := by
    simp only [crowdedItems, List.forall_mem_cons, Item.Admissible]
    exact ⟨trivial, ⟨.warn, by decide⟩, trivial, admissible_crowdedFormat, trivial, by simp⟩
  have isWritten : IsWritten (crowdedItems.flatMap Item.words ++ crowdedTail) crowdedItems
      crowdedTail := ⟨rfl, admissible, .inr isHelp⟩
  obtain ⟨accepts, decides, _⟩ := ofArguments_grammar
    (crowdedItems.flatMap Item.words ++ crowdedTail)
  obtain ⟨options, accepted⟩ := accepts.mpr ⟨_, _, isWritten⟩
  obtain ⟨follows, helps⟩ := decides _ _ options isWritten accepted
  have notWritten : ¬ ∃ items tail, IsWritten brokenFormat items tail := by
    intro written
    obtain ⟨_, acceptedBroken⟩ := (ofArguments_grammar brokenFormat).1.mpr written
    simp only [ofArguments_brokenFormat, reduceCtorEq] at acceptedBroken
  exact ⟨isWritten, ⟨options, accepted, follows.root.trans (by decide),
    follows.reporter.trans (by decide), follows.level.trans (by decide), helps.mpr isHelp⟩,
    ofArguments_brokenFormat, notWritten⟩

end Options
end QueryAdvisor
