import Categorial.Number
import Categorial.SyntaxType.Reader

/-!
Settings of a parser. They are checked in a fixed order, and the type of full parses is read only
after the numbers were found to be positive. A number need not be whole: a beam of two and a half
cells keeps two.
-/

namespace Categorial

/-- Which type a full parse has. -/
inductive RootChoice where
  /-- Any type but those of skipped tokens and of partial coordinations. -/
  | any
  /-- The type with this text, whose names are all primitive. -/
  | named (text : String)
  | type (t : Typing)

/-- The type that a choice stands for, if it stands for one. -/
def RootChoice.type? : RootChoice → Except Fault (Option Typing)
  | any => .ok none
  | named text => (SyntaxType.read text none).map fun t => some (some t)
  | type t => .ok (some t)

/-- A setting that must be positive. -/
def requirePositive (setting : String) (x : Number) : Except Fault Unit :=
  if x.isAtMostZero then .error (.notPositive setting x.text) else .ok ()

structure ParserConfig where
  /-- The number of cells that a span keeps. -/
  beamSize : Number
  root : Option Typing
  /-- Whether every token may be skipped. -/
  skipsWords : Bool
  /-- The number of workers that fill the spans of one length; the result does not depend on it. -/
  workers : Number

namespace ParserConfig

/-- The settings that a parser has if nothing else is said. -/
def default : ParserConfig := ⟨.int 50, none, false, .int 1⟩

def create (beamSize : Number) (root : RootChoice) (skipsWords : Bool) (workers : Number) :
    Except Fault ParserConfig := do
  requirePositive "beam_size" beamSize
  requirePositive "num_workers" workers
  return ⟨beamSize, ← root.type?, skipsWords, workers⟩

end ParserConfig

end Categorial
