import Categorial.Proofs.SyntaxType.Denotation

/-!
Reading without a system. Every name is then that of a primitive type, and a text that is taken
apart no further is a name, whatever brackets are left in it. Main statement: a text is accepted
just if the grammar of types derives it from such names, and its type has proper names alone just
if the grammar derives it from plain ones; every other text is refused as one that is not a type.
-/

namespace Categorial

open Categorial.Text

namespace SyntaxSystem

variable {names : List String} {n : String} {t : SyntaxType}

/-- The system of the primitive types with some names. -/
def ofNames (names : List String) : SyntaxSystem := ⟨names.map fun n => some (.primitive n)⟩

theorem mem_types_ofNames : some t ∈ (ofNames names).types ↔ ∃ n ∈ names, t = .primitive n := by
  simp [ofNames, eq_comm]

theorem find?_ofNames : (ofNames names).find? n = some t ↔ n ∈ names ∧ t = .primitive n := by
  constructor
  · intro h
    obtain ⟨hmem, hname⟩ := mem_of_find? h
    obtain ⟨n', hn', rfl⟩ := mem_types_ofNames.1 hmem
    obtain rfl : n' = n := hname
    exact ⟨hn', rfl⟩
  · rintro ⟨hn, rfl⟩
    have hsome : ((ofNames names).types.find? (Typing.same (some (.primitive n)))).isSome := by
      rw [List.find?_isSome]
      exact ⟨_, mem_types_ofNames.2 ⟨n, hn, rfl⟩, Typing.same_refl _⟩
    obtain ⟨u, hu⟩ := Option.isSome_iff_exists.1 hsome
    obtain ⟨n', -, rfl⟩ : ∃ n' ∈ names, some (.primitive n') = u := by
      simpa [ofNames] using List.mem_of_find?_eq_some hu
    obtain rfl : n = n' := by simpa [Typing.same_iff, SyntaxType.name] using List.find?_some hu
    rw [find?, hu]
    rfl

theorem whole_ofNames (h : ∀ n ∈ names, WholeName n) : (ofNames names).Whole := by
  intro t ht
  obtain ⟨n, hn, rfl⟩ := mem_types_ofNames.1 ht
  exact h n hn

end SyntaxSystem

namespace SyntaxType

/-- The names at the leaves of a type. -/
def names : SyntaxType → List String
  | primitive n | conj n => [n]
  | slash _ main sub => main.names ++ sub.names
  | coordination t => t.names

variable {source : String} {t : SyntaxType}

/-- Where what names stand for is looked up elsewhere, a text is read as the same type, if each of
the names of this type is looked up as before. -/
theorem readPart_of_names {system system' : Option SyntaxSystem} {P : String → Prop}
    (hname : ∀ n t, ofName source system n = .ok t → (∀ n ∈ t.names, P n) →
      ofName source system' n = .ok t)
    {part : List Char} (h : readPart source system part = .ok t) (ht : ∀ n ∈ t.names, P n) :
    readPart source system' part = .ok t := by
  fun_induction readPart source system part generalizing t with
  | case1 | case2 | case3 | case4 | case5 => cases h
  | case6 part cs hne hopen left d right hcut main hmain sub hsub ihmain =>
    rename_i ihsub
    cases h
    rw [readPart_eq, if_neg hne, hopen, hcut]
    simp only [ihmain hmain fun n hn => ht n (List.mem_append_left _ hn),
      ihsub hsub fun n hn => ht n (List.mem_append_right _ hn)]
    rfl
  | case7 part cs hne hopen hcut inner hatom =>
    rename_i ih
    rw [readPart_eq, if_neg hne, hopen, hcut, hatom]
    exact ih h ht
  | case8 part cs hne hopen hcut inner hatom =>
    rename_i ih
    obtain ⟨inner, hinner, rfl⟩ := map_eq_ok.1 h
    rw [readPart_eq, if_neg hne, hopen, hcut, hatom]
    exact map_eq_ok.2 ⟨inner, ih hinner ht, rfl⟩
  | case9 part cs hne hopen hcut cs' =>
    rename_i hatom
    rw [readPart_eq, if_neg hne, hopen, hcut, hatom]
    exact hname _ t h ht

/-- What reading without a system leaves in one piece is a name. -/
theorem wholeName_of_readPart {part : List Char} (h : readPart source none part = .ok t) :
    ∀ n ∈ t.names, WholeName n := by
  fun_induction readPart source none part generalizing t with
  | case1 | case2 | case3 | case4 | case5 => cases h
  | case6 part cs hne hopen left d right hcut main hmain sub hsub ihmain =>
    rename_i ihsub
    cases h
    intro n hn
    exact (List.mem_append.1 hn).elim (ihmain hmain n) (ihsub hsub n)
  | case7 =>
    rename_i ih
    exact ih h
  | case8 part cs hne hopen hcut inner hatom =>
    rename_i ih
    obtain ⟨inner, hinner, rfl⟩ := map_eq_ok.1 h
    have hnames := ih hinner
    exact hnames
  | case9 part cs hne hopen hcut cs' =>
    rename_i hatom
    obtain rfl := eq_of_atomOf_name hatom
    have hleaf : t.names = [String.ofList (trim part)] := by
      rw [ofName] at h
      split at h
      · rename_i hempty
        cases h
        rw [hempty]
        rfl
      · cases h
        rfl
    have hwhole : WholeName (String.ofList (trim part)) := by
      refine ⟨?_, ?_, ?_, ?_, ?_⟩
      · simpa using hne
      · rw [String.toList_ofList, trim_trim]
      · rw [String.toList_ofList]
        exact hopen
      · rw [String.toList_ofList]
        exact hcut
      · rw [String.toList_ofList]
        exact hatom
    rw [hleaf]
    exact List.forall_mem_singleton.2 hwhole

/-- A text is read alike with the system of the names of its type. -/
theorem readPart_ofNames_names {part : List Char} (h : readPart source none part = .ok t) :
    readPart source (some (.ofNames t.names)) part = .ok t := by
  refine readPart_of_names (P := (· ∈ t.names)) (fun n t' ht' hleaves => ?_) h fun _ hn => hn
  rw [ofName] at ht'
  rw [ofName]
  split at ht'
  · rename_i hempty
    rw [if_pos hempty]
    exact ht'
  · rename_i hempty
    cases ht'
    rw [if_neg hempty]
    rw [SyntaxSystem.find?_ofNames.2 ⟨hleaves n (List.mem_singleton.2 rfl), rfl⟩]

variable {names : List String}

theorem readPart_of_ofNames {part : List Char}
    (h : readPart source (some (.ofNames names)) part = .ok t) :
    readPart source none part = .ok t := by
  refine readPart_of_names (P := fun _ => True) (fun n t' ht' _ => ?_) h fun _ _ => trivial
  rw [ofName] at ht'
  rw [ofName]
  split at ht'
  · rename_i hempty
    rw [if_pos hempty]
    exact ht'
  · rename_i hempty
    rw [if_neg hempty]
    split at ht' <;> rename_i hfind <;> cases ht'
    obtain ⟨-, rfl⟩ := SyntaxSystem.find?_ofNames.1 hfind
    rfl

end SyntaxType

theorem Denotes.mem_names {names : List String} {form : Form} {cs : List Char} {t : SyntaxType}
    (h : Denotes (.ofNames names) form cs t) :
    ∀ n ∈ t.names, n = SyntaxType.empty.name ∨ n ∈ names := by
  induction h with
  | single _ _ _ ih => exact ih
  | slash d _ _ _ _ ihmain ihsub =>
    exact fun n hn => (List.mem_append.1 hn).elim (ihmain n) (ihsub n)
  | group _ ih => exact ih
  | coordination _ ih => exact ih
  | empty => exact fun n hn => Or.inl (List.mem_singleton.1 hn)
  | name _ ht =>
    obtain ⟨hn, rfl⟩ := SyntaxSystem.find?_ofNames.1 ht
    exact fun n' hn' => Or.inr (List.mem_singleton.1 hn' ▸ hn)

namespace SyntaxType

/-- Without a system, a text is accepted just if the grammar derives it from names that are taken
apart no further, and it is refused as one that is not a type otherwise. Its names are proper ones,
without brackets and slashes, just if the grammar derives it from plain names. -/
theorem read_unlisted (text : String) :
    ((∃ fault, read text none = .error fault ∧ fault.kind = .typeText) ∨
      ∃ t, read text none = .ok t ∧ ∀ n ∈ t.names, WholeName n) ∧
    ∀ t,
      (read text none = .ok t ↔
        ∃ names, (∀ n ∈ names, WholeName n) ∧ Denotes (.ofNames names) .chain text.toList t) ∧
      (read text none = .ok t ∧ (∀ n ∈ t.names, n ≠ "" ∧ ∀ c ∈ n.toList, Plain c) ↔
        ∃ names, (∀ n ∈ names, PlainName n) ∧ Denotes (.ofNames names) .chain text.toList t) := by
  have hread : ∀ {t}, read text none = .ok t →
      Denotes (.ofNames t.names) .chain text.toList t :=
    fun h => (denotes_of_readPart _ (readPart_ofNames_names h)).1
  have haccept : ∀ {names t}, (∀ n ∈ names, WholeName n) →
      Denotes (.ofNames names) .chain text.toList t → read text none = .ok t :=
    fun hwhole h => readPart_of_ofNames
      (h.readPart_eq_ok_of_whole (SyntaxSystem.whole_ofNames hwhole) text)
  refine ⟨?_, fun t => ⟨⟨fun h => ⟨_, wholeName_of_readPart h, hread h⟩, ?_⟩, ?_, ?_⟩⟩
  · cases h : read text none with
    | error fault => exact Or.inl ⟨fault, rfl, kind_of_readPart h⟩
    | ok t => exact Or.inr ⟨t, rfl, wholeName_of_readPart h⟩
  · rintro ⟨names, hwhole, h⟩
    exact haccept hwhole h
  · rintro ⟨h, hproper⟩
    refine ⟨t.names, fun n hn => ?_, hread h⟩
    exact ⟨(hproper n hn).1, (wholeName_of_readPart h n hn).trimmed, (hproper n hn).2⟩
  · rintro ⟨names, hplain, h⟩
    refine ⟨haccept (fun n hn => (hplain n hn).whole) h, fun n hn => ?_⟩
    have hname : PlainName n := by
      rcases h.mem_names n hn with rfl | hn
      · exact plainName_empty
      · exact hplain n hn
    exact ⟨hname.nonempty, hname.plain⟩

theorem not_proper_of_read {text : String} (h : read text none = .ok (primitive text))
    {c : Char} (hc : c ∈ text.toList) (hbracket : ¬ Plain c) :
    ¬ ((∃ fault, read text none = .error fault ∧ fault.kind = .typeText) ∨
      ∃ t, read text none = .ok t ∧ ∀ n ∈ t.names, n ≠ "" ∧ ∀ c ∈ n.toList, Plain c) := by
  rintro (⟨fault, hfault, -⟩ | ⟨t, ht, hproper⟩)
  · rw [h] at hfault
    cases hfault
  · rw [h] at ht
    cases ht
    exact hbracket ((hproper text List.mem_cons_self).2 c hc)

/-- Brackets of two kinds that close each other, and brackets behind a name, with a slash between
them, become part of a name. -/
theorem read_mismatched :
    ¬ ((∃ fault, read "(S/NP]" none = .error fault ∧ fault.kind = .typeText) ∨
      ∃ t, read "(S/NP]" none = .ok t ∧ ∀ n ∈ t.names, n ≠ "" ∧ ∀ c ∈ n.toList, Plain c) ∧
    ¬ ((∃ fault, read "S(NP/N)" none = .error fault ∧ fault.kind = .typeText) ∨
      ∃ t, read "S(NP/N)" none = .ok t ∧ ∀ n ∈ t.names, n ≠ "" ∧ ∀ c ∈ n.toList, Plain c) := by
  have hcrossed : read "(S/NP]" none = .ok (primitive "(S/NP]") := by
    rw [read, readPart_eq]
    rfl
  have hbehind : read "S(NP/N)" none = .ok (primitive "S(NP/N)") := by
    rw [read, readPart_eq]
    rfl
  have hbracket : ¬ Plain '(' := by decide
  exact ⟨not_proper_of_read hcrossed List.mem_cons_self hbracket,
    not_proper_of_read hbehind (List.mem_cons_of_mem _ List.mem_cons_self) hbracket⟩

end SyntaxType

end Categorial
