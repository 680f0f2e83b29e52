import Categorial.Decimal.Reading
import Categorial.Decimal.Shortest
import Categorial.Text.Quoted

/-!
The documents in which grammars, lexicons and models are kept: JSON, with integers and real numbers
kept apart, and with words for the infinite and the undefined numbers. Of two fields with one name
the later one counts.
-/

namespace Categorial

/-- A JSON document. -/
inductive Json where
  | null
  | bool (b : Bool)
  | int (n : Int)
  | real (x : Float)
  | text (s : String)
  | array (items : List Json)
  | object (fields : List (String × Json))
  deriving Inhabited

namespace Json

/-- Whether a character may stand between the parts of a document. -/
def isGap (c : Char) : Bool := c == ' ' || c == '\n' || c == '\t' || c == '\r'

/-- The text after the gap it starts with. -/
def skipGap (cs : List Char) : List Char := cs.dropWhile isGap

/-- The value of a hexadecimal digit. -/
def hexValue (c : Char) : Nat :=
  if c.isDigit then c.toNat - 48
  else if 'a' ≤ c && c ≤ 'f' then c.toNat - 87
  else c.toNat - 55

/-- The number that four hexadecimal digits stand for, and the text after them. -/
def hexUnit : List Char → Nat × List Char
  | a :: b :: c :: d :: r =>
    (((hexValue a * 16 + hexValue b) * 16 + hexValue c) * 16 + hexValue d, r)
  | r => (0, r)

/-- The character that starts with a unit, whose second unit may follow, and the text after it. -/
def unitChar (n : Nat) (r : List Char) : Char × List Char :=
  if 0xd800 ≤ n && n < 0xdc00 then
    match r with
    | '\\' :: 'u' :: r =>
      let (m, r) := hexUnit r
      (Char.ofNat (0x10000 + (n - 0xd800) * 0x400 + (m - 0xdc00)), r)
    | r => (Char.ofNat 0xfffd, r)
  else (Char.ofNat n, r)

/-- The characters up to the closing quote, and the text after it. -/
def quotedText : Nat → List Char → List Char × List Char
  | 0, cs => ([], cs)
  | _, [] => ([], [])
  | _, '"' :: r => ([], r)
  | fuel + 1, '\\' :: c :: r =>
    let (c, r) := match c with
      | 'n' => ('\n', r)
      | 't' => ('\t', r)
      | 'r' => ('\r', r)
      | 'b' => ('\x08', r)
      | 'f' => ('\x0c', r)
      | 'u' =>
        let (n, r) := hexUnit r
        unitChar n r
      | c => (c, r)
    let rest := quotedText fuel r
    (c :: rest.1, rest.2)
  | fuel + 1, c :: r =>
    let rest := quotedText fuel r
    (c :: rest.1, rest.2)

/-- The number that a text stands for: an integer unless it has a point or an exponent. -/
def ofNumberText (cs : List Char) : Json :=
  let s := String.ofList cs
  if cs.any fun c => c == '.' || c == 'e' || c == 'E' then
    .real ((Decimal.ofText? s).getD 0.0)
  else .int (s.toInt?.getD 0)

/-- Whether a character may stand in a number. -/
def isNumberPart (c : Char) : Bool :=
  c.isDigit || c == '-' || c == '+' || c == '.' || c == 'e' || c == 'E'

/-- The fields with one more; a field with the same name keeps its place and takes the new part. -/
def addField (fields : List (String × Json)) (name : String) (j : Json) : List (String × Json) :=
  if fields.any (·.1 == name) then fields.map fun f => if f.1 == name then (name, j) else f
  else fields ++ [(name, j)]

mutual

/-- The document that a text starts with, and the text after it. -/
def readPart : Nat → List Char → Json × List Char
  | 0, cs => (null, cs)
  | fuel + 1, cs =>
    match skipGap cs with
    | 'n' :: 'u' :: 'l' :: 'l' :: r => (null, r)
    | 't' :: 'r' :: 'u' :: 'e' :: r => (bool true, r)
    | 'f' :: 'a' :: 'l' :: 's' :: 'e' :: r => (bool false, r)
    | 'N' :: 'a' :: 'N' :: r => (real (0.0 / 0.0), r)
    | 'I' :: 'n' :: 'f' :: 'i' :: 'n' :: 'i' :: 't' :: 'y' :: r => (real (1.0 / 0.0), r)
    | '-' :: 'I' :: 'n' :: 'f' :: 'i' :: 'n' :: 'i' :: 't' :: 'y' :: r => (real (-1.0 / 0.0), r)
    | '"' :: r =>
      let (s, r) := quotedText r.length r
      (text (String.ofList s), r)
    | '[' :: r =>
      match skipGap r with
      | ']' :: r => (array [], r)
      | r =>
        let (items, r) := readItems fuel r
        (array items, r)
    | '\x7b' :: r =>
      match skipGap r with
      | '\x7d' :: r => (object [], r)
      | r =>
        let (fields, r) := readFields fuel [] r
        (object fields, r)
    | cs => (ofNumberText (cs.takeWhile isNumberPart), cs.dropWhile isNumberPart)

/-- The items of an array up to its closing bracket, and the text after it. -/
def readItems : Nat → List Char → List Json × List Char
  | 0, cs => ([], cs)
  | fuel + 1, cs =>
    let (j, r) := readPart fuel cs
    match skipGap r with
    | ',' :: r =>
      let rest := readItems fuel r
      (j :: rest.1, rest.2)
    | r => ([j], r.drop 1)

/-- The fields of an object up to its closing brace, and the text after it. -/
def readFields : Nat → List (String × Json) → List Char → List (String × Json) × List Char
  | 0, fields, cs => (fields, cs)
  | fuel + 1, fields, cs =>
    match skipGap cs with
    | '"' :: r =>
      let (name, r) := quotedText r.length r
      let (j, r) := readPart fuel ((skipGap r).drop 1)
      let fields := addField fields (String.ofList name) j
      match skipGap r with
      | ',' :: r => readFields fuel fields r
      | r => (fields, r.drop 1)
    | r => (fields, r)

end

def read (s : String) : Json :=
  let cs := s.toList
  (readPart (cs.length + 1) cs).1

/-- The written form of a character inside quotes. -/
def escapeChar (c : Char) : List Char :=
  if c = '"' || c = '\\' then ['\\', c]
  else if c = '\n' then ['\\', 'n']
  else if c = '\r' then ['\\', 'r']
  else if c = '\t' then ['\\', 't']
  else if c.toNat < 0x20 || c.toNat = 0x7f then '\\' :: 'u' :: Text.hexDigits 4 c.toNat
  else [c]

/-- A text between quotes. -/
def writeText (s : String) : String :=
  "\"" ++ String.ofList (s.toList.flatMap escapeChar) ++ "\""

mutual

/-- The written form of a document. -/
def write : Json → String
  | null => "null"
  | bool b => if b then "true" else "false"
  | int n => toString n
  | real x => Decimal.shortest x
  | text s => writeText s
  | array items => "[" ++ ",".intercalate (writeItems items) ++ "]"
  | object fields => "\x7b" ++ ",".intercalate (writeFields fields) ++ "\x7d"

/-- The written forms of the items of an array. -/
def writeItems : List Json → List String
  | [] => []
  | j :: js => write j :: writeItems js

/-- The written forms of the fields of an object. -/
def writeFields : List (String × Json) → List String
  | [] => []
  | (name, j) :: fields => (writeText name ++ ":" ++ write j) :: writeFields fields

end

mutual

/-- The form of a document inside a message: texts in single quotes, and words in place of null and
of the truth values. -/
def shown : Json → String
  | null => "None"
  | bool b => if b then "True" else "False"
  | int n => toString n
  | real x => Decimal.shortest x
  | text s => Text.quoted s
  | array items => "[" ++ ", ".intercalate (shownItems items) ++ "]"
  | object fields => "\x7b" ++ ", ".intercalate (shownFields fields) ++ "\x7d"

/-- The forms of the items of an array. -/
def shownItems : List Json → List String
  | [] => []
  | j :: js => shown j :: shownItems js

/-- The forms of the fields of an object. -/
def shownFields : List (String × Json) → List String
  | [] => []
  | (name, j) :: fields => (Text.quoted name ++ ": " ++ shown j) :: shownFields fields

end

mutual

/-- The number of arrays and objects around the innermost part of a document. -/
def depth : Json → Nat
  | array items => depthOfItems items + 1
  | object fields => depthOfFields fields + 1
  | _ => 0

/-- The depth of the deepest item of an array. -/
def depthOfItems : List Json → Nat
  | [] => 0
  | j :: js => max (depth j) (depthOfItems js)

/-- The depth of the deepest field of an object. -/
def depthOfFields : List (String × Json) → Nat
  | [] => 0
  | (_, j) :: fields => max (depth j) (depthOfFields fields)

end

/-- A field, if there is one with the name. -/
def get? (j : Json) (name : String) : Option Json :=
  match j with
  | object fields => fields.lookup name
  | _ => none

/-- A field; null if there is none with the name. -/
def get (j : Json) (name : String) : Json := (j.get? name).getD null

/-- Whether there is a field with a name. -/
def has (j : Json) (name : String) : Bool := (j.get? name).isSome

def isNull : Json → Bool
  | null => true
  | _ => false

/-- The items of an array; none for anything else. -/
def items : Json → List Json
  | array items => items
  | _ => []

/-- The fields of an object; none for anything else. -/
def fields : Json → List (String × Json)
  | object fields => fields
  | _ => []

/-- The text of a field, or a text to use without one. -/
def textOr (j : Json) (name default : String) : String :=
  match j.get? name with
  | some (text s) => s
  | _ => default

/-- A text; empty for anything else. -/
def toText : Json → String
  | text s => s
  | _ => ""

/-- An integer; zero for anything that is no number. -/
def toInt : Json → Int
  | int n => n
  | real x => if x < 0.0 then -((-x).toUInt64.toNat : Int) else x.toUInt64.toNat
  | bool b => if b then 1 else 0
  | _ => 0

/-- Whether a document is anything but null, false, zero or empty. -/
def truth : Json → Bool
  | null => false
  | bool b => b
  | int n => n != 0
  | real x => x != 0.0
  | text s => s != ""
  | array items => !items.isEmpty
  | object fields => !fields.isEmpty

/-- A field that says yes or no, or what to take without one. -/
def flag (j : Json) (name : String) (default : Bool) : Bool :=
  match j.get? name with
  | some v => v.truth
  | none => default

def texts (xs : List String) : Json := array (xs.map text)

/-- A natural number. -/
def nat (n : Nat) : Json := int n

/-- A real number; one that is not finite is written as text. -/
def number (x : Float) : Json :=
  if x.isFinite then real x else text (Decimal.shortest x)

end Json

end Categorial
