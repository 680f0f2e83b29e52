import Categorial.Fault

/-!
Notes on what happened while a grammar was at work. A note is kept as data and written out only when
somebody reads the journal.
-/

namespace Categorial

/-- How much a note matters. -/
inductive Level where
  | debug | info | warning
  deriving DecidableEq, Repr

/-- The label of a level in a journal. -/
def Level.label : Level → String
  | debug => "DEBUG"
  | info => "INFO"
  | warning => "WARNING"

inductive Note where
  /-- A service failed on behalf of a rule. -/
  | semanticFailure (rule : String) (fault : Fault)
  /-- A service gave a rule a meaning that cannot be a key. -/
  | unhashableMeaning (rule typeName : String)
  /-- A rule failed on categories. -/
  | ruleFailure (rule : String) (categories : List String) (fault : Fault)
  /-- A meaning could not be executed. -/
  | executionFailure (category : String) (fault : Fault)
  /-- The task score of a cell was computed. -/
  | taskScored
  /-- A line of a report. -/
  | report (level : Level) (text : String)
  deriving DecidableEq, Repr

namespace Note

/-- The label and the text of a fault. -/
def faultText (fault : Fault) : String := fault.kind.label ++ ": " ++ fault.text

/-- The line that a note makes in a journal, with its level; some notes make none. -/
def line? : Note → Option (Level × String)
  | semanticFailure rule fault =>
    some (.debug, "Semantic operation of rule " ++ rule ++ " failed: " ++ faultText fault)
  | unhashableMeaning rule typeName =>
    some (.debug, "Semantic operation of rule " ++ rule ++ " returned an unhashable " ++ typeName
      ++ ".")
  | ruleFailure rule categories fault =>
    some (.debug, "Rule " ++ rule ++ " failed on " ++ ", ".intercalate categories ++ ": "
      ++ faultText fault)
  | executionFailure category fault =>
    some (.debug, "Execution failed for " ++ category ++ ": " ++ fault.text)
  | taskScored => none
  | report level text => some (level, text)

end Note

end Categorial
