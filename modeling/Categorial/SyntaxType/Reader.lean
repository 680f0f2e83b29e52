import Categorial.SyntaxType.System

/-!
Reading types. A type is a name, a type in parentheses, a coordination `C[ ]` of a type, or two
types with a slash between them; slashes associate to the left, so that a text is cut at its last
slash outside brackets, and blanks may surround every part. Main statement: each part is shorter
than the text, so reading ends.
-/

namespace Categorial.SyntaxType

open Categorial.Text

/-- Whether a character opens a bracket. -/
def opens (c : Char) : Bool := c == '(' || c == '['

/-- Whether a character closes a bracket. -/
def closes (c : Char) : Bool := c == ')' || c == ']'

/-- The number of brackets left open by a text that starts inside `depth` of them; none if a bracket
closes that was never opened. -/
def openBrackets? : Nat → List Char → Option Nat
  | depth, [] => some depth
  | depth, c :: cs =>
    if opens c then openBrackets? (depth + 1) cs
    else if closes c then
      match depth with
      | 0 => none
      | depth + 1 => openBrackets? depth cs
    else openBrackets? depth cs

def slashOf? (c : Char) : Option Direction :=
  if c = '/' then some .forward else if c = '\\' then some .backward else none

/-- The depth after a character. -/
def depthAfter (depth : Nat) (c : Char) : Nat :=
  if opens c then depth + 1 else if closes c then depth - 1 else depth

/-- Cuts a text at its last slash outside brackets, where the text starts inside `depth` of them. -/
def cutLast? : Nat → List Char → Option (List Char × Direction × List Char)
  | _, [] => none
  | depth, c :: cs =>
    match cutLast? (depthAfter depth c) cs with
    | some (left, direction, right) => some (c :: left, direction, right)
    | none =>
      if depth = 0 then (slashOf? c).map fun direction => ([], direction, cs) else none

/-- A cut loses the slash alone. -/
theorem cutLast?_length {depth : Nat} {cs left right : List Char} {direction : Direction}
    (h : cutLast? depth cs = some (left, direction, right)) :
    left.length + right.length + 1 = cs.length := by
  induction cs generalizing depth left with
  | nil => simp [cutLast?] at h
  | cons c cs ih =>
    rw [cutLast?] at h
    split at h
    · rename_i hcut
      simp only [Option.some.injEq, Prod.mk.injEq] at h
      obtain ⟨rfl, rfl, rfl⟩ := h
      have := ih hcut
      simp only [List.length_cons]
      omega
    · split at h
      · simp only [Option.map_eq_some_iff, Prod.mk.injEq] at h
        obtain ⟨_, _, rfl, rfl, rfl⟩ := h
        simp
      · simp at h

theorem length_trim_le (cs : List Char) : (trim cs).length ≤ cs.length := by
  simp only [trim, trimEnd, List.length_reverse]
  exact Nat.le_trans (List.dropWhile_sublist _).length_le
    (by simpa using (List.dropWhile_sublist (p := isBlank) (l := cs)).length_le)

/-- What a text without a slash outside brackets is. -/
inductive Atom where
  /-- A type in parentheses, given without them. -/
  | group (inner : List Char)
  /-- A coordination, given without its brackets. -/
  | coordination (inner : List Char)
  | name (cs : List Char)

/-- Tells what a text without a slash outside brackets is. -/
def atomOf : List Char → Atom
  | '(' :: cs => if cs.getLast? = some ')' then .group cs.dropLast else .name ('(' :: cs)
  | 'C' :: '[' :: cs =>
    if cs.getLast? = some ']' then .coordination cs.dropLast else .name ('C' :: '[' :: cs)
  | cs => .name cs

theorem atomOf_group_length {cs inner : List Char} (h : atomOf cs = .group inner) :
    inner.length < cs.length := by
  unfold atomOf at h
  split at h
  · split at h <;> simp at h
    subst h
    simp only [List.length_dropLast, List.length_cons]
    omega
  · split at h <;> simp at h
  · simp at h

theorem atomOf_coordination_length {cs inner : List Char}
    (h : atomOf cs = .coordination inner) : inner.length < cs.length := by
  unfold atomOf at h
  split at h
  · split at h <;> simp at h
  · split at h <;> simp at h
    subst h
    simp only [List.length_dropLast, List.length_cons]
    omega
  · simp at h

/-- The type that a name stands for. Without a system every name is a primitive type. -/
def ofName (source : String) (system : Option SyntaxSystem) (name : String) :
    Except Fault SyntaxType :=
  if name = empty.name then .ok empty
  else match system with
    | none => .ok (primitive name)
    | some system => match system.find? name with
      | some t => .ok t
      | none => .error (.unknownType name source)

/-- Reads a type from a part of the text `source`. -/
def readPart (source : String) (system : Option SyntaxSystem) (part : List Char) :
    Except Fault SyntaxType :=
  let cs := trim part
  if cs.isEmpty then .error (.emptyType source)
  else match openBrackets? 0 cs with
    | none => .error (.unopenedBracket source)
    | some (_ + 1) => .error (.unclosedBracket source)
    | some 0 =>
      match _hcut : cutLast? 0 (trim part) with
      | some (left, direction, right) =>
        match readPart source system left with
        | .error fault => .error fault
        | .ok main =>
          match readPart source system right with
          | .error fault => .error fault
          | .ok sub => .ok (slash direction main sub)
      | none =>
        match _hatom : atomOf (trim part) with
        | .group inner => readPart source system inner
        | .coordination inner => (readPart source system inner).map coordination
        | .name cs => ofName source system (String.ofList cs)
termination_by part.length
decreasing_by
  · have := cutLast?_length _hcut
    have := length_trim_le part
    omega
  · have := cutLast?_length _hcut
    have := length_trim_le part
    omega
  · have := atomOf_group_length _hatom
    have := length_trim_le part
    omega
  · have := atomOf_coordination_length _hatom
    have := length_trim_le part
    omega

/-- Reads a type. With a system, names must have been defined in it. -/
def read (text : String) (system : Option SyntaxSystem) : Except Fault SyntaxType :=
  readPart text system text.toList

end SyntaxType

/-- Reads a type the way a system does: no text at all stands for the nameless type. -/
def SyntaxSystem.read (system : SyntaxSystem) : Option String → Except Fault Typing
  | none => .ok none
  | some text => (SyntaxType.read text (some system)).map some

end Categorial
