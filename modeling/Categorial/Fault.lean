import Categorial.Text.Quoted

/-!
Everything that can go wrong, as causes. A fault has a kind, by which rejection lists select it, and
a text. Kinds form a tree: a list that names a kind also covers the kinds below it.
-/

namespace Categorial

inductive FaultKind where
  | general
  | lookup | missingKey | index
  | arithmetic | zeroDivision | overflow
  | runtime | unimplemented
  | type | value | member
  | grammar | configuration | scorerConfiguration | execution | typeText
  deriving DecidableEq, Repr

namespace FaultKind

/-- The label of a kind in reports and in rejection lists. -/
def label : FaultKind → String
  | general => "Exception"
  | lookup => "LookupError"
  | missingKey => "KeyError"
  | index => "IndexError"
  | arithmetic => "ArithmeticError"
  | zeroDivision => "ZeroDivisionError"
  | overflow => "OverflowError"
  | runtime => "RuntimeError"
  | unimplemented => "NotImplementedError"
  | type => "TypeError"
  | value => "ValueError"
  | member => "AttributeError"
  | grammar => "SemCCGError"
  | configuration => "ConfigurationError"
  | scorerConfiguration => "ScorerConfigurationError"
  | execution => "ExecutionError"
  | typeText => "CCGSyntaxTypeParsingError"

def all : List FaultKind :=
  [general, lookup, missingKey, index, arithmetic, zeroDivision, overflow, runtime, unimplemented,
    type, value, member, grammar, configuration, scorerConfiguration, execution, typeText]

def ofLabel? (s : String) : Option FaultKind :=
  all.find? (·.label == s)

/-- A kind and the kinds above it, the most general one last. -/
def lineage : FaultKind → List FaultKind
  | general => [general]
  | missingKey => [missingKey, lookup, general]
  | index => [index, lookup, general]
  | zeroDivision => [zeroDivision, arithmetic, general]
  | overflow => [overflow, arithmetic, general]
  | unimplemented => [unimplemented, runtime, general]
  | scorerConfiguration => [scorerConfiguration, configuration, grammar, general]
  | configuration => [configuration, grammar, general]
  | execution => [execution, grammar, general]
  | typeText => [typeText, grammar, general]
  | k => [k, general]

/-- Whether a list of kinds covers a kind. -/
def coveredBy (k : FaultKind) (kinds : List FaultKind) : Bool :=
  k.lineage.any (kinds.contains ·)

end FaultKind

/-- What went wrong. -/
inductive Fault where
  /-- A type was expected and only blanks were found. -/
  | emptyType (source : String)
  /-- A bracket closes that was never opened. -/
  | unopenedBracket (source : String)
  /-- A bracket is never closed. -/
  | unclosedBracket (source : String)
  /-- A name is not defined in the system in use. -/
  | unknownType (name source : String)
  /-- The nameless type stands left of a slash. -/
  | namelessMain
  /-- The nameless type stands right of a slash or in a coordination. -/
  | namelessPart
  /-- A value defines no type. -/
  | notDefinable (shown : String)
  /-- A value names no direction. -/
  | notDirection (shown : String)
  /-- A value names no origin of entries. -/
  | notOrigin (shown : String)
  /-- A value that holds a list is used as a key. -/
  | unhashable (typeName : String)
  /-- A value that is no function is applied. -/
  | notCallable (typeName : String)
  /-- A function refuses the type of its argument. -/
  | refused (function typeName : String)
  /-- A function selects an item that its argument does not have. -/
  | noItem (function : String)
  /-- A key is not in a table; `shown` is how the key is written. -/
  | noKey (shown : String)
  /-- A position is outside a sequence. -/
  | noPosition
  /-- A text is no number. -/
  | notNumeric (shown : String)
  /-- A value of this type is never a number. -/
  | neverNumeric (typeName : String)
  /-- A number that counts or points is not whole. -/
  | notWhole
  /-- An integer is too large for a score. -/
  | tooLarge
  /-- A power is too large for a score. -/
  | powerTooLarge
  /-- Zero is raised to a negative power. -/
  | zeroToNegative
  /-- An operation that an abstract component leaves open. -/
  | unimplemented
  /-- A rule for coordinations has no services to ask for an operation. -/
  | noServices (operation : String)
  /-- A cell has an empty or reversed span. -/
  | cellSpan (first last : Int)
  /-- A derived cell has no children. -/
  | noChildren
  /-- Two children of a cell, with the spans given, do not touch. -/
  | apart (left right : Int × Int)
  /-- A beam has no room for any cell. -/
  | beamSize (shown : String)
  /-- A chart has no such span. -/
  | chartSpan (first last size : Int)
  /-- A setting that must be positive is not. -/
  | notPositive (setting shown : String)
  /-- A setting that must not be negative is. -/
  | isNegative (setting shown : String)
  /-- No scorer has this type name. -/
  | unknownScorer (shown : String)
  /-- A scorer lacks a parameter. -/
  | missingParameter (parameter : String)
  /-- A parameter of a scorer is no number. -/
  | invalidParameter (parameter shown : String)
  /-- A parameter of a scorer names no resource. -/
  | unknownResource (parameter shown : String)
  /-- No counter has this name. -/
  | unknownCounter (name : String)
  /-- A function, rule, validator or executor failed with a fault of its own. -/
  | raised (kind : FaultKind) (message : String)
  deriving DecidableEq, Repr

namespace Fault

def kind : Fault → FaultKind
  | emptyType .. | unopenedBracket .. | unclosedBracket .. | unknownType .. => .typeText
  | namelessMain | namelessPart | notDefinable .. | unhashable .. | notCallable .. => .type
  | refused .. | neverNumeric .. | notWhole => .type
  | notDirection .. | notOrigin .. | notNumeric .. => .value
  | cellSpan .. | noChildren | apart .. | beamSize .. | chartSpan .. => .value
  | noItem .. | noPosition => .index
  | noKey .. | unknownCounter .. => .missingKey
  | tooLarge | powerTooLarge => .overflow
  | zeroToNegative => .zeroDivision
  | unimplemented => .unimplemented
  | noServices .. => .member
  | notPositive .. | isNegative .. => .configuration
  | unknownScorer .. | missingParameter .. | invalidParameter .. | unknownResource .. =>
    .scorerConfiguration
  | raised kind _ => kind

/-- A half-open span of positions. -/
def showSpan (first last : Int) : String := s!"[{first}, {last})"

def showPair (p : Int × Int) : String := "(" ++ toString p.1 ++ ", " ++ toString p.2 ++ ")"

/-- The text of a fault. A missing key is shown as it would be written. -/
def text : Fault → String
  | emptyType source => s!"Invalid syntax type string (got empty type): {source}."
  | unopenedBracket source => s!"Invalid parenthesis (extra \")\"): {source}."
  | unclosedBracket source => s!"Invalid parenthesis (extra \"(\"): {source}."
  | unknownType name source => s!"Unknown primitive syntax type {name} during parsing {source}."
  | namelessMain => "unsupported operand type(s) for +: 'NoneType' and 'str'"
  | namelessPart => "can only concatenate str (not \"NoneType\") to str"
  | notDefinable shown => s!"Invalid type: {shown}."
  | notDirection shown => s!"{shown} is not a valid CCGDirection"
  | notOrigin shown => s!"{shown} is not a valid LexicalEntryOrigin"
  | unhashable typeName => s!"unhashable type: '{typeName}'"
  | notCallable typeName => s!"'{typeName}' object is not callable"
  | refused function typeName => s!"{function} does not accept {typeName}"
  | noItem function => s!"{function} out of range"
  | noKey shown => shown
  | noPosition => "list index out of range"
  | notNumeric shown => s!"could not convert string to float: {shown}"
  | neverNumeric typeName =>
    s!"float() argument must be a string or a real number, not '{typeName}'"
  | notWhole => "'float' object cannot be interpreted as an integer"
  | tooLarge => "int too large to convert to float"
  | powerTooLarge => "(34, 'Numerical result out of range')"
  | zeroToNegative => "0.0 cannot be raised to a negative power"
  | unimplemented => ""
  | noServices operation => s!"'NoneType' object has no attribute '{operation}'"
  | cellSpan first last => s!"Invalid cell span: {showSpan first last}."
  | noChildren => "A derived cell needs at least one child."
  | apart left right =>
    s!"Children of a derived cell must be contiguous: {showPair left} and {showPair right}."
  | beamSize shown => s!"Beam size must be positive, got {shown}."
  | chartSpan first last size =>
    s!"Invalid span {showSpan first last} for a chart over {size} tokens."
  | notPositive setting shown => s!"{setting} must be positive, got {shown}."
  | isNegative setting shown => s!"{setting} must be non-negative, got {shown}."
  | unknownScorer shown => s!"Unknown scorer type: {shown}."
  | missingParameter parameter => s!"Missing scorer parameter: {parameter}."
  | invalidParameter parameter shown =>
    s!"Invalid value for scorer parameter {parameter}: {shown}."
  | unknownResource parameter shown =>
    s!"Unknown resource for scorer parameter {parameter}: {shown}."
  | unknownCounter name => Text.quoted s!"Unknown counter: {name}."
  | raised kind message => if kind = .missingKey then Text.quoted message else message

end Fault

end Categorial
