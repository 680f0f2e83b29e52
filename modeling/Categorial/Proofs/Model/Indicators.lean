import Categorial.Proofs.Model.Changes
import Categorial.Proofs.Model.Growth
import Categorial.Proofs.Text.Joined

/-!
Features as indicators of entries. A feature key is spelled from the texts of an entry, while
entries are compared by their values, so a key tells entries apart only where the texts do. Main
statement: for entries of plain words and types, keys tell entries apart just if the texts of their
meanings do; and then the weights of an entry are its own: an entry fires its features just if the
model has it, and no change at one entry is seen at another one.
-/

namespace Categorial

/-- Whether two meanings are written alike: both are no meaning, or neither is and their texts are
the same. -/
def Value.Alike (a b : Value) : Prop := a.isNone = b.isNone ∧ a.display = b.display

/-- Whether a type has a name, in which there is no colon. -/
def Typing.Plain (t : Typing) : Prop := ∃ s : SyntaxType, t = some s ∧ ':' ∉ s.name.toList

namespace Typing

variable {t t' : Typing}

theorem Plain.not_mem_text (h : t.Plain) : ':' ∉ t.text.toList := by
  obtain ⟨s, rfl, hs⟩ := h
  exact hs

/-- Types with names are told apart by their texts. -/
theorem Plain.text_eq_iff (h : t.Plain) (h' : t'.Plain) : t.text = t'.text ↔ t.same t' = true := by
  obtain ⟨s, rfl, -⟩ := h
  obtain ⟨s', rfl, -⟩ := h'
  rw [same_iff, Option.map_some, Option.map_some, Option.some_inj, text, text]

end Typing

/-- Categories of plain types are written alike just if their types are the same and their meanings
are written alike. -/
theorem Category.text_eq_iff {c c' : Category} (h : c.type.Plain) (h' : c'.type.Plain) :
    c.text = c'.text ↔ c.type.same c'.type = true ∧ c.meaning.Alike c'.meaning := by
  rw [text, text, Value.Alike]
  cases hnone : c.meaning.isNone <;> cases hnone' : c'.meaning.isNone
  · rw [if_neg Bool.false_ne_true, if_neg Bool.false_ne_true,
      Text.labelled_inj h.not_mem_text h'.not_mem_text, h.text_eq_iff h']
    simp
  · rw [if_neg Bool.false_ne_true, if_pos rfl]
    simp [Text.labelled_ne h'.not_mem_text]
  · rw [if_pos rfl, if_neg Bool.false_ne_true]
    simp [(Text.labelled_ne h.not_mem_text).symm]
  · -- there is one value that is no meaning
    have hdisplay : ∀ v : Value, v.isNone = true → v = .none := by
      intro v hv
      cases v <;> first | rfl | cases hv
    rw [if_pos rfl, if_pos rfl, h.text_eq_iff h', hdisplay _ hnone, hdisplay _ hnone']
    simp

namespace Entry

/-- Whether an entry is made of words, and has a type with a name without colons. -/
structure Plain (e : Entry) : Prop where
  words : ∀ t ∈ e.tokens, Text.Word t
  type : e.category.type.Plain

/-- Whether the meanings of the entries of a class are told apart by their texts, where tokens and
types do not tell the entries apart. -/
def Told (P : Entry → Prop) : Prop :=
  ∀ e e', P e → P e' → e.tokens = e'.tokens → e.category.type.same e'.category.type = true →
    (e.category.meaning.Alike e'.category.meaning ↔
      e.category.meaning.same e'.category.meaning = true)

variable {e e' : Entry}

theorem same_iff : e.same e' = true ↔ e.tokens = e'.tokens ∧
    e.category.type.same e'.category.type = true ∧
      e.category.meaning.same e'.category.meaning = true := by
  rw [same, Category.same, Bool.and_eq_true, Bool.and_eq_true, beq_iff_eq]

/-- Plain entries share a key just if they have the same tokens, the same type, and meanings that
are written alike. -/
theorem Plain.key_eq_iff (h : e.Plain) (h' : e'.Plain) (f : LexicalFeatures) :
    f.key e = f.key e' ↔ e.tokens = e'.tokens ∧
      e.category.type.same e'.category.type = true ∧
        e.category.meaning.Alike e'.category.meaning := by
  simp [LexicalFeatures.key, Text.intercalate_inj h.words h'.words,
    Category.text_eq_iff h.type h'.type]

/-- In a class of plain entries, keys tell entries apart just if the texts of their meanings do. -/
theorem key_eq_iff_same {P : Entry → Prop} (hplain : ∀ e, P e → e.Plain) :
    (∀ (f : LexicalFeatures) e e', P e → P e' → (f.key e = f.key e' ↔ e.same e' = true)) ↔
      Told P := by
  constructor
  · intro hkeys e e' he he' htokens htype
    have hkey := hkeys .default e e' he he'
    rw [(hplain e he).key_eq_iff (hplain e' he'), same_iff] at hkey
    simpa [htokens, htype] using hkey
  · intro htold f e e' he he'
    rw [(hplain e he).key_eq_iff (hplain e' he'), same_iff]
    exact and_congr_right fun htokens => and_congr_right fun htype =>
      htold e e' he he' htokens htype

/-- Feature sets of one name or of two share no key of entries that are not the same. -/
theorem Told.key_ne {P : Entry → Prop} (htold : Told P) (hplain : ∀ e, P e → e.Plain) (he : P e)
    (he' : P e') (hsame : e.same e' = false) (f g : LexicalFeatures) : f.key e' ≠ g.key e := by
  intro hkey
  have hown : g.key e = g.key e' := by
    rw [← hkey, LexicalFeatures.key, LexicalFeatures.key, LexicalFeatures.name_of_key hkey]
  rw [((key_eq_iff_same hplain).2 htold g e e' he he').1 hown] at hsame
  cases hsame

/-- Whether an entry is plain and means nothing or a text. -/
structure Textual (e : Entry) : Prop where
  plain : e.Plain
  meaning : e.category.meaning = .none ∨ ∃ s, e.category.meaning = .text s

/-- Entries that mean nothing or a text are told apart. -/
theorem told_textual : Told Textual := by
  rintro e e' ⟨-, hmeaning⟩ ⟨-, hmeaning'⟩ - -
  rcases hmeaning with hv | ⟨s, hv⟩ <;> rcases hmeaning' with hv' | ⟨s', hv'⟩ <;>
    simp [hv, hv', Value.Alike, Value.isNone, Value.display, Value.same]

end Entry

namespace Model

variable {K : Type} [Scalar K] {P : Entry → Prop} {m : Model K} {e e' : Entry}

/-- Whether a model came to be by adding entries of a class and by moving weights that are there,
from a model without entries of this class and without weights for them. -/
inductive Developed (P : Entry → Prop) : Model K → Prop
  | blank {m : Model K} (hlexicon : ∀ e, P e → m.lexicon.contains e = false)
      (htheta : ∀ f ∈ m.lexical, ∀ e, P e → m.theta.contains (f.key e) = false) : Developed P m
  | add {m m' : Model K} {e : Entry} {new : Bool} (h : Developed P m) (he : P e)
      (hadd : m.addEntry e = (.ok new, m')) : Developed P m'
  | move {m : Model K} {step : K} {delta : SparseVector K} (h : Developed P m)
      (hdelta : ∀ f ∈ m.lexical, ∀ e, P e → delta.contains (f.key e) = true →
        m.theta.contains (f.key e) = true) : Developed P (m.change (.moved step delta))

/-- A model that came to be so has weights just for the entries that it has. -/
theorem Developed.contains_iff (h : m.Developed P) (htold : Entry.Told P)
    (hplain : ∀ e, P e → e.Plain) {f : LexicalFeatures} (hf : f ∈ m.lexical) (he : P e) :
    m.theta.contains (f.key e) = true ↔ m.lexicon.contains e = true := by
  induction h generalizing e with
  | blank hlexicon htheta => rw [hlexicon e he, htheta f hf e he]
  | @add m m' x new _ hx hadd ih =>
    have hm' : m' = (m.addEntry x).2 := by rw [hadd]
    have hlexical : m'.lexical = m.lexical := hm' ▸ lexical_change m (.added x)
    rw [hlexical] at hf
    rw [hm']
    cases hold : m.lexicon.contains x with
    | true =>
      rw [addEntry_of_contains hold]
      exact ih hf he
    | false =>
      rw [lexicon_addEntry, Lexicon.contains_insert]
      cases hsame : x.same e with
      | true =>
        -- the entry shares its key with the new one, which has its weights now
        have hweighs := weighs_of_addEntry (congrArg Prod.fst hadd) hold
        rw [Weighs, ← hm', hlexical] at hweighs
        rw [← hm', ← ((Entry.key_eq_iff_same hplain).2 htold f x e hx he).2 hsame, hweighs f hf]
        simp
      | false =>
        have hkeys : ∀ g ∈ m.lexical, f.key e ≠ g.key x :=
          fun g _ => htold.key_ne hplain hx he hsame f g
        rw [addEntry_eq, hold, if_neg Bool.false_ne_true, SparseVector.contains,
          get?_learnWeights_of_ne m.theta hkeys, ← SparseVector.contains, ih hf he]
        simp
  | @move m step delta _ hdelta ih =>
    have hstay : m.theta.contains (f.key e) = true ↔
        (m.theta.addTimes step delta).contains (f.key e) = true := by
      refine ⟨SparseVector.contains_addTimes, fun hnew => ?_⟩
      cases hd : delta.contains (f.key e) with
      | true => exact hdelta f hf e he hd
      | false =>
        rwa [SparseVector.contains, SparseVector.get?_addTimes_of_not_contains hd] at hnew
    exact hstay.symm.trans (ih hf he)

/-- Weights that are the same for an entry give it the same score and the same features. -/
theorem entry_congr {m' : Model K} (hlexical : m'.lexical = m.lexical)
    (h : ∀ f ∈ m.lexical, m'.theta.get? (f.key e) = m.theta.get? (f.key e)) :
    m'.scoreEntry e = m.scoreEntry e ∧ m'.entryFeatures e = m.entryFeatures e := by
  rw [scoreEntry, scoreEntry, entryFeatures, entryFeatures, hlexical]
  refine ⟨congrArg _ (List.map_congr_left fun f hf => ?_),
    congrArg _ (List.map_congr_left fun f hf => ?_)⟩
  · rw [LexicalFeatures.score, LexicalFeatures.score, h f hf]
  · rw [LexicalFeatures.compute, LexicalFeatures.compute, SparseVector.contains,
      SparseVector.contains, h f hf]

/-- What an entry fires and scores at a feature set of a model that has weights just for the entries
that it has. -/
theorem Developed.indicator (h : m.Developed P) (htold : Entry.Told P)
    (hplain : ∀ e, P e → e.Plain) {f : LexicalFeatures} (hf : f ∈ m.lexical) (he : P e) :
    (m.lexicon.contains e = true → f.compute e m.theta = .ofPairs [(f.key e, 1)] ∧
      ∃ w, m.theta.get? (f.key e) = some w ∧ f.score e m.theta = .ok w) ∧
    (m.lexicon.contains e = false →
      f.compute e m.theta = .empty ∧ f.score e m.theta = f.start e) := by
  have hiff := h.contains_iff htold hplain hf he
  rw [LexicalFeatures.compute, LexicalFeatures.score]
  constructor
  · intro hhas
    have hweight := hiff.2 hhas
    obtain ⟨w, hw⟩ := Option.isSome_iff_exists.1 hweight
    rw [if_pos hweight, hw]
    exact ⟨rfl, w, rfl, rfl⟩
  · intro hhas
    have hnone : m.theta.contains (f.key e) = false := by
      rw [Bool.eq_false_iff, ne_eq, hiff, hhas]
      exact Bool.false_ne_true
    rw [hnone, if_neg Bool.false_ne_true,
      Option.isNone_iff_eq_none.1 (Option.isSome_eq_false_iff.1 hnone)]
    exact ⟨rfl, rfl⟩

/-- Adding an entry, or setting one of its weights, is not seen at an entry whose keys are
others. -/
theorem apart_of_keys (hkeys : ∀ f ∈ m.lexical, ∀ g ∈ m.lexical, f.key e' ≠ g.key e) :
    ((m.addEntry e).2.scoreEntry e' = m.scoreEntry e' ∧
      (m.addEntry e).2.entryFeatures e' = m.entryFeatures e') ∧
    ∀ g ∈ m.lexical, ∀ w,
      { m with theta := m.theta.set (g.key e) w }.scoreEntry e' = m.scoreEntry e' ∧
      { m with theta := m.theta.set (g.key e) w }.entryFeatures e' = m.entryFeatures e' := by
  refine ⟨entry_congr (lexical_change m (.added e)) fun f hf => ?_,
    fun g hg w => entry_congr rfl fun f hf => ?_⟩
  · rw [addEntry_eq]
    split
    · rfl
    · exact get?_learnWeights_of_ne m.theta (hkeys f hf)
  · rw [SparseVector.get?_set, if_neg (hkeys f hf g hg)]

/-- In a class of plain entries, keys tell entries apart just if the texts of their meanings do. If
they do, an entry of the class fires its features and is scored by its weights just if the model has
it; and neither adding an entry, even if it fails, nor setting one of its weights changes the score
or the features of another one. -/
theorem indicators_iff_told (hplain : ∀ e, P e → e.Plain) :
    ((∀ (f : LexicalFeatures) e e', P e → P e' → (f.key e = f.key e' ↔ e.same e' = true)) ↔
      Entry.Told P) ∧
    (Entry.Told P →
      (∀ m : Model K, m.Developed P → ∀ f ∈ m.lexical, ∀ e, P e →
        (m.lexicon.contains e = true → f.compute e m.theta = .ofPairs [(f.key e, 1)] ∧
          ∃ w, m.theta.get? (f.key e) = some w ∧ f.score e m.theta = .ok w) ∧
        (m.lexicon.contains e = false →
          f.compute e m.theta = .empty ∧ f.score e m.theta = f.start e)) ∧
      ∀ (m : Model K) e e', P e → P e' → e.same e' = false →
        ((m.addEntry e).2.scoreEntry e' = m.scoreEntry e' ∧
          (m.addEntry e).2.entryFeatures e' = m.entryFeatures e') ∧
        ∀ g ∈ m.lexical, ∀ w,
          { m with theta := m.theta.set (g.key e) w }.scoreEntry e' = m.scoreEntry e' ∧
          { m with theta := m.theta.set (g.key e) w }.entryFeatures e' = m.entryFeatures e') := by
  refine ⟨Entry.key_eq_iff_same hplain, fun htold => ⟨fun m h f hf e he => ?_, ?_⟩⟩
  · exact h.indicator htold hplain hf he
  · intro m e e' he he' hsame
    exact apart_of_keys fun f _ g _ => htold.key_ne hplain he he' hsame f g

/-- An entry for the token `w` with a meaning. -/
def meaningEntry (v : Value) : Entry := ⟨["w"], ⟨some (.primitive "N"), v⟩, .fixed, []⟩

/-- A model with this entry. -/
def meaningModel (v : Value) : Model Rat :=
  ((⟨.empty, [.default], [], [], .empty⟩ : Model Rat).addEntry (meaningEntry v)).2

theorem textual_meaningEntry (s : String) : (meaningEntry (.text s)).Textual := by
  refine ⟨⟨fun t ht => ?_, .primitive "N", rfl, by decide⟩, Or.inr ⟨s, rfl⟩⟩
  obtain rfl := List.mem_singleton.1 ht
  decide

theorem developed_meaningModel (s : String) : (meaningModel (.text s)).Developed Entry.Textual :=
  .add (.blank (fun _ _ => rfl) fun _ _ _ _ => rfl) (textual_meaningEntry s) (Prod.ext rfl rfl)

/-- A model with an entry that means `x` fires its feature for this entry, but not for one that
means `y`; and adding that one does not change the score of the first. -/
theorem indicators_of_texts :
    LexicalFeatures.default.compute (meaningEntry (.text "x")) (meaningModel (.text "x")).theta =
        .ofPairs [(["LEX", "w", "N : x"], 1)] ∧
      LexicalFeatures.default.compute (meaningEntry (.text "y")) (meaningModel (.text "x")).theta =
        .empty ∧
      ((meaningModel (.text "x")).addEntry (meaningEntry (.text "y"))).2.scoreEntry
          (meaningEntry (.text "x")) =
        (meaningModel (.text "x")).scoreEntry (meaningEntry (.text "x")) := by
  obtain ⟨-, htold⟩ := indicators_iff_told (K := Rat) (P := Entry.Textual) fun _ he => he.plain
  obtain ⟨hindicator, hapart⟩ := htold Entry.told_textual
  have hown := hindicator _ (developed_meaningModel "x") .default (List.mem_singleton_self _)
  refine ⟨?_, ?_, ?_⟩
  · exact ((hown _ (textual_meaningEntry "x")).1 (by decide +kernel)).1
  · exact ((hown _ (textual_meaningEntry "y")).2 (by decide +kernel)).1
  · exact (hapart _ _ _ (textual_meaningEntry "y") (textual_meaningEntry "x")
      (by decide +kernel)).1.1

/-- A number and a text that are written alike share a key, so that an entry which the model does
not have fires a feature; one and true are the same but have two keys, so that an entry which the
model has fires none. -/
theorem indicators_mistaken :
    (meaningModel (.int 1)).lexicon.contains (meaningEntry (.text "1")) = false ∧
      (LexicalFeatures.default.compute (meaningEntry (.text "1"))
        (meaningModel (.int 1)).theta).size = 1 ∧
      (meaningModel (.int 1)).lexicon.contains (meaningEntry (.bool true)) = true ∧
      (LexicalFeatures.default.compute (meaningEntry (.bool true))
        (meaningModel (.int 1)).theta).size = 0 := by
  decide +kernel

end Model

end Categorial
