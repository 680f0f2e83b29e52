import Categorial.Lexicon.Entry
import Categorial.Model.Features
import Categorial.Text.Layout

/-!
Cells: the nodes of derivations. A lexical cell places an entry on a span; a derived cell combines
children that lie side by side under the name of a rule. Cells made by a parser have the mark zero;
cells made by hand carry marks of their own, so that two of them that look alike are still two
nodes.

Walks over a cell take the next cell from the front of a list and put its children in its place.
Main statement: a walk ends, because each step takes one node away.
-/

namespace Categorial

/-- The positions from `start` up to but not including `stop`. -/
structure Span where
  start : Int
  stop : Int
  deriving DecidableEq, Repr

/-- A span as a pair of positions. -/
def Span.pair (s : Span) : Int × Int := (s.start, s.stop)

def Span.text (s : Span) : String := Fault.showSpan s.start s.stop

/-- A node of a derivation over scores of type `K`. -/
inductive Cell (K : Type) where
  /-- An entry at a span. -/
  | lexical (entry : Entry) (span : Span) (score : K) (full : Bool) (mark : Nat)
  /-- A result of a rule on children. -/
  | derived (category : Category) (rule : RuleName) (children : List (Cell K)) (span : Span)
      (score : K) (full : Bool) (mark : Nat)

namespace Cell

variable {K : Type}

def category : Cell K → Category
  | lexical entry .. => entry.category
  | derived category .. => category

/-- The name of the rule that made a cell. -/
def rule : Cell K → RuleName
  | lexical .. => .lexical
  | derived _ rule .. => rule

def children : Cell K → List (Cell K)
  | lexical .. => []
  | derived _ _ children .. => children

def span : Cell K → Span
  | lexical _ span .. => span
  | derived _ _ _ span .. => span

/-- The structural score of a cell. -/
def score : Cell K → K
  | lexical _ _ score .. => score
  | derived _ _ _ _ score .. => score

/-- Whether a cell is a parse of the whole input. -/
def full : Cell K → Bool
  | lexical _ _ _ full _ => full
  | derived _ _ _ _ _ full _ => full

def entry? : Cell K → Option Entry
  | lexical entry .. => some entry
  | derived .. => none

/-- The cell of an entry at a span, which must not be empty. -/
def ofEntry (entry : Entry) (span : Span) (score : K) (full : Bool) (mark : Nat) :
    Except Fault (Cell K) :=
  if span.start < span.stop then .ok (lexical entry span score full mark)
  else .error (.cellSpan span.start span.stop)

/-- The span of cells that lie side by side, the first of which has the span `first`. -/
def joinSpans (first : Span) : List (Cell K) → Except Fault Span
  | [] => .ok first
  | cell :: cells =>
    if first.stop = cell.span.start then
      (joinSpans cell.span cells).map fun rest => ⟨first.start, rest.stop⟩
    else .error (.apart first.pair cell.span.pair)

/-- The span of the children of a cell, of which there must be one at least. -/
def spanOf : List (Cell K) → Except Fault Span
  | [] => .error .noChildren
  | cell :: cells => joinSpans cell.span cells

/-- The cell of a result of a rule on children. -/
def ofChildren (category : Category) (rule : RuleName) (children : List (Cell K)) (score : K)
    (full : Bool) (mark : Nat) : Except Fault (Cell K) := do
  let span ← spanOf children
  if span.start < span.stop then
    return derived category rule children span score full mark
  else .error (.cellSpan span.start span.stop)

mutual

def sameNode : Cell K → Cell K → Bool
  | lexical entry span _ _ mark, lexical entry' span' _ _ mark' =>
    mark == mark' && span == span' && entry.same entry'
  | derived category rule children _ _ _ mark, derived category' rule' children' _ _ _ mark' =>
    mark == mark' && rule == rule' && category.same category' && sameNodes children children'
  | _, _ => false

/-- Whether the cells of two lists are the same nodes. -/
def sameNodes : List (Cell K) → List (Cell K) → Bool
  | [], [] => true
  | a :: as, b :: bs => sameNode a b && sameNodes as bs
  | _, _ => false

end

/-- Whether two cells are the same step of a derivation: the same entry at the same span, or the
same result of the same rule on the same nodes. -/
def sameStep : Cell K → Cell K → Bool
  | lexical entry span .., lexical entry' span' .. => span == span' && entry.same entry'
  | derived category rule children .., derived category' rule' children' .. =>
    rule == rule' && category.same category' && sameNodes children children'
  | _, _ => false

mutual

def nodes : Cell K → Nat
  | lexical .. => 1
  | derived _ _ children .. => nodesOfAll children + 1

def nodesOfAll : List (Cell K) → Nat
  | [] => 0
  | cell :: cells => nodes cell + nodesOfAll cells

end

@[simp] theorem nodesOfAll_append (as bs : List (Cell K)) :
    nodesOfAll (as ++ bs) = nodesOfAll as + nodesOfAll bs := by
  induction as with
  | nil => simp [nodesOfAll]
  | cons a as ih => simp [nodesOfAll, ih, Nat.add_assoc]

@[simp] theorem nodesOfAll_reverse (as : List (Cell K)) :
    nodesOfAll as.reverse = nodesOfAll as := by
  induction as with
  | nil => rfl
  | cons a as ih => simp [nodesOfAll, ih, Nat.add_comm]

/-- The entries of the leaves that a walk from left to right meets. -/
def leavesFrom : List (Cell K) → List (Cell K)
  | [] => []
  | lexical entry span score full mark :: rest =>
    lexical entry span score full mark :: leavesFrom rest
  | derived _ _ children _ _ _ _ :: rest => leavesFrom (children ++ rest)
termination_by cells => nodesOfAll cells
decreasing_by all_goals simp [nodesOfAll, nodes]

/-- The lexical cells below a cell, from left to right. -/
def leaves (c : Cell K) : List (Cell K) := leavesFrom [c]

/-- The entries below a cell, from left to right. -/
def entries (c : Cell K) : List Entry := c.leaves.filterMap entry?

/-- The names of the rules that a walk meets, each before those of its children. -/
def rulesFrom : List (Cell K) → List RuleName
  | [] => []
  | lexical .. :: rest => rulesFrom rest
  | derived _ rule children _ _ _ _ :: rest => rule :: rulesFrom (children ++ rest)
termination_by cells => nodesOfAll cells
decreasing_by all_goals simp [nodesOfAll, nodes]

/-- The rules used in a cell, each before those of its children. -/
def rules (c : Cell K) : List RuleName := rulesFrom [c]

/-- The text of a cell as a tree, its children below it and two places to the right. -/
def tree : Cell K → String
  | lexical entry span _ _ _ => entry.text ++ " " ++ span.text
  | derived category rule children span _ _ _ =>
    Text.block ((rule.text ++ " " ++ category.text ++ " " ++ span.text) ::
      children.map fun child => Text.indent child.tree)

def text [Scalar K] (c : Cell K) : Except Fault String := do
  let score ← Scalar.shown 4 c.score
  return "Cell[" ++ toString c.span.start ++ ", " ++ toString c.span.stop ++ "]("
    ++ c.category.text ++ ", " ++ c.rule.text ++ ", score=" ++ score ++ ")"

end Cell

end Categorial
