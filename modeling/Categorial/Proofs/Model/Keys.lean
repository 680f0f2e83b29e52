import Categorial.Proofs.Model.Growth

/-!
Keys that tell entries apart. Main statement: where entries share a key just if they are the same,
those that are the same have the same score, and learning some of the entries changes the score of
none of them.
-/

namespace Categorial

/-- Some entries and those that are linked to them. -/
def Entry.withLinked (es : List Entry) : List Entry := es ++ es.flatMap Entry.linked

/-- Whether an entry is one of some entries, up to its origin. -/
def Entry.Among (es : List Entry) (e : Entry) : Prop := ∃ x ∈ es, ∃ o, e = x.withOrigin o

theorem Entry.among_of_mem {es : List Entry} {e : Entry} (h : e ∈ es) : e.Among es :=
  ⟨e, h, e.origin, by cases e; rfl⟩

namespace Model

/-- Whether entries share a key just if they are the same. -/
def KeysMatch (m : Model Rat) (es : List Entry) : Prop :=
  ∀ f ∈ m.lexical, ∀ e ∈ es, ∀ e' ∈ es, f.key e = f.key e' ↔ e.same e' = true

instance (m : Model Rat) (es : List Entry) : Decidable (m.KeysMatch es) :=
  inferInstanceAs (Decidable (∀ f ∈ m.lexical, ∀ e ∈ es, ∀ e' ∈ es,
    f.key e = f.key e' ↔ e.same e' = true))

variable {m m' : Model Rat} {es learned : List Entry} {e e' : Entry}

theorem KeysMatch.key_iff (h : m.KeysMatch es) {f : LexicalFeatures} (hf : f ∈ m.lexical)
    (he : e.Among es) (he' : e'.Among es) : f.key e = f.key e' ↔ e.same e' = true := by
  obtain ⟨x, hx, o, rfl⟩ := he
  obtain ⟨x', hx', o', rfl⟩ := he'
  exact h f hf x hx x' hx'

/-- Among entries that share a key just if they are the same, the same ones have the same score. -/
theorem KeysMatch.scoreEntry_eq (h : m.KeysMatch es) (he : e.Among es) (he' : e'.Among es)
    (hsame : e.same e' = true) : m.scoreEntry e = m.scoreEntry e' :=
  scoreEntry_of_same hsame fun _ hf => (h.key_iff hf he he').2 hsame

/-- Learning some of these entries changes the score of none of them. -/
theorem Learned.scoreEntry_of_keysMatch (h : Learned m m' learned)
    (hnames : (m.lexical.map (·.name)).Nodup) (hkeys : m.KeysMatch es)
    (hlearned : ∀ e ∈ learned, e.Among es) (he : e.Among es) :
    m'.scoreEntry e = m.scoreEntry e :=
  h.scoreEntry_eq hnames fun _ hf x hx => (hkeys.key_iff hf (hlearned x hx) he).1

end Model

end Categorial
