import Categorial.Document.DecodeChart
import Categorial.Document.DecodeModel
import Categorial.Learning.Item
import Categorial.Learning.Templates
import Categorial.Parsing.Analyzer

/-!
Settings of parsers, executors and training items out of documents.
-/

namespace Categorial.Decode

/-- Which type a full parse has. -/
def rootChoice (j : Json) : Decode RootChoice := do
  match j with
  | .null => return .any
  | .text s => return .named s
  | j => return .type (← type j)

/-- Settings of a parser. A type of full parses is read first of all; whether the settings hold is
left to whoever needs them. -/
def parserConfig (j : Json) : Decode (Except Fault ParserConfig) := do
  let root ← rootChoice (j.get "root_syntax")
  attempt do
    let beamSize ← fieldOr j "beam_size" (.int 50) setting
    let workers ← fieldOr j "num_workers" (.int 1) setting
    lift (ParserConfig.create beamSize root (j.flag "allow_word_skipping" false) workers)

def itemsOf : Value → Except Fault (List Value)
  | .tuple items | .list items | .set items => .ok items
  | .text s => .ok (s.toList.map fun c => .text (String.singleton c))
  | v => .error (.raised .type ("'" ++ v.className ++ "' object is not iterable"))

/-- The name of an object in a state, with its meaning. -/
def namedMeaning (v : Value) : Except Fault (Value × Value) := do
  match ← itemsOf v with
  | [name, meaning] => return (name, meaning)
  | items =>
    if items.length < 2 then
      .error (.raised .value
        ("not enough values to unpack (expected 2, got " ++ toString items.length ++ ")"))
    else .error (.raised .value "too many values to unpack (expected 2)")

/-- The set of the names of the objects that have a meaning. The objects are looked at one by one,
and a name that cannot be an element ends the search. -/
def denotation (meaning state : Value) : Except Fault Value :=
  match meaning with
  | .tuple _ => do
    let names ← (← itemsOf state).foldlM (fun names object => do
      let (name, m) ← namedMeaning object
      if m.equal meaning then Value.setOf (names ++ [name]) *> .ok (names ++ [name])
      else .ok names) []
    Value.setOf names
  | v => .error (.raised .execution ("Can not execute " ++ v.shown ++ "."))

def executor (name : String) : Executor := fun meaning state =>
  .ofExcept (match name with
    | "denote" => denotation meaning state
    | "ok" => .ok (.text "ok")
    | "none" => .ok .none
    | "state" => .ok state
    | "echo" => .ok meaning
    | "empty" => .ok (.tuple [])
    | "emptystr" => .ok (.text "")
    | "list" => .ok (.list [])
    | _ => .error (.raised (kind (.text (String.ofList (name.toList.drop 6)))) "executor failed"))

/-- A template: a category, or a kind of function with a separator of tokens and a list of names it
is for. -/
def template (j : Json) : Decode Template := do
  match j.get? "fn" with
  | none => return .fixed (← category j)
  | some kind =>
    let type ← type (j.get "syn")
    let only := match j.get "only" with
      | .array names => some (names.map Json.toText)
      | _ => none
    return .ofTokens fun tokens =>
      let name := (j.textOr "sep" "_").intercalate tokens
      if only.any fun names => !names.contains name then none
      else some ⟨type, match kind.toText with
        | "tag" => .func ⟨name, .named, .tag none⟩ [] []
        | "len" => .int tokens.length
        | _ => .text name⟩

def templates (j : Json) : Decode Templates := do
  let templates ← (j.get "templates").items.mapM template
  return ⟨templates, (number? (j.get "max_ngram")).getD (.int 1), j.flag "link_siblings" false,
    (j.get "ignored_tokens").items.map Json.toText⟩

def validator (j : Json) : Decode (Value → Except Fault Bool) := do
  let value ← value (j.get "value")
  return fun result => match (j.get "kind").toText with
    | "eq" => .ok (result.equal value)
    | "in" => (itemsOf value).map fun items => items.any fun item => item.same result
    | "second" => .ok (match result with
      | .tuple (_ :: second :: _) => second.equal value
      | _ => false)
    | "ret" => .ok value.truth
    | _ => .error (.raised .runtime "validator failed")

def item (j : Json) : Decode Item := do
  let state ← value (j.get "state")
  let label ← value (j.get "label")
  let validator ← match j.get "validator" with
    | .object fields => do pure (some (← validator (.object fields)))
    | _ => pure none
  let generator ← match j.get "generator" with
    | .object fields => do pure (some (← templates (.object fields)).generate)
    | _ => pure none
  return ⟨tokens (j.get "sentence"), state, label, generator, validator⟩

/-- The parser of a document, and its executor if it has one. Its settings are checked when all its
parts have been read. -/
def analyzer (j : Json) : Decode (Analyzer Number) := do
  let grammar ← grammar (fieldWith j "grammar" (.object [("make", .text "ccg")]))
  let config ← parserConfig (j.get "config")
  let ranking ← ranking (j.get "factory")
  let skipped ← match j.get "empty" with
    | .null => pure Category.empty
    | c => category c
  let config ← lift config
  let executor := match j.get "executor" with
    | .text name => some (executor name)
    | _ => none
  return ⟨Parser.create grammar config ranking skipped (j.flag "debug" false), executor⟩
where
  fieldWith (j : Json) (name : String) (default : Json) : Json := (j.get? name).getD default

end Categorial.Decode
