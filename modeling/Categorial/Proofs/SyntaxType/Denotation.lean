import Categorial.Proofs.Collection.Gather
import Categorial.Proofs.SyntaxType.Cutting

/-!
The grammar of types. A chain is one part or more with slashes between them, and stands for the
slash type that associates to the left; a part is a chain in parentheses, a coordination of a chain,
or a name. Blanks may surround every part. Main statement: where names are plain, reading a text
gives the type that the grammar derives it for, and fails on every text that is not derived.
-/

namespace Categorial

open Categorial.Text

/-- The two forms of a phrase. -/
inductive Form where
  /-- Parts with slashes between them. -/
  | chain
  /-- What stands between two slashes. -/
  | part

/-- Derivations of a text by the grammar of types, with the type that the text stands for. -/
inductive Denotes (system : SyntaxSystem) : Form → List Char → SyntaxType → Prop
  | single {before after cs : List Char} {t : SyntaxType} (hbefore : Blank before)
      (hafter : Blank after) (hpart : Denotes system .part cs t) :
      Denotes system .chain (before ++ cs ++ after) t
  | slash {before after left right : List Char} {main sub : SyntaxType} (d : Direction)
      (hbefore : Blank before) (hafter : Blank after) (hmain : Denotes system .chain left main)
      (hsub : Denotes system .part right sub) :
      Denotes system .chain (left ++ d.slash :: (before ++ right ++ after)) (.slash d main sub)
  | group {inner : List Char} {t : SyntaxType} (hinner : Denotes system .chain inner t) :
      Denotes system .part ('(' :: (inner ++ [')'])) t
  | coordination {inner : List Char} {t : SyntaxType} (hinner : Denotes system .chain inner t) :
      Denotes system .part ('C' :: '[' :: (inner ++ [']'])) (.coordination t)
  | empty : Denotes system .part SyntaxType.empty.name.toList .empty
  | name {n : String} {t : SyntaxType} (hn : n ≠ SyntaxType.empty.name)
      (ht : system.find? n = some t) : Denotes system .part n.toList t

/-- Names that can be told from the rest of a text: without brackets or slashes, and without blanks
at their ends. -/
structure PlainName (n : String) : Prop where
  nonempty : n ≠ ""
  trimmed : trim n.toList = n.toList
  plain : ∀ c ∈ n.toList, SyntaxType.Plain c

/-- Texts that reading takes apart no further: without blanks at their ends, without slashes outside
brackets, with as many closed brackets as opened ones, and not in the brackets of a type. -/
structure WholeName (n : String) : Prop where
  nonempty : n ≠ ""
  trimmed : trim n.toList = n.toList
  closed : SyntaxType.Closed n.toList
  uncut : SyntaxType.cutLast? 0 n.toList = none
  atom : SyntaxType.atomOf n.toList = .name n.toList

/-- Whether every name of a system is plain. -/
def SyntaxSystem.Plain (system : SyntaxSystem) : Prop :=
  ∀ t, some t ∈ system.types → PlainName t.name

/-- Whether every name of a system is taken apart no further. -/
def SyntaxSystem.Whole (system : SyntaxSystem) : Prop :=
  ∀ t, some t ∈ system.types → WholeName t.name

theorem SyntaxSystem.mem_of_find? {system : SyntaxSystem} {n : String} {t : SyntaxType}
    (h : system.find? n = some t) : some t ∈ system.types ∧ t.name = n := by
  have hfind := Option.join_eq_some_iff.1 h
  have hsame := List.find?_some hfind
  rw [Typing.same_iff] at hsame
  exact ⟨List.mem_of_find?_eq_some hfind, (Option.some.inj hsame).symm⟩

/-- Whether a name is plain can be computed. -/
theorem plainName_of_all {n : String} (hnonempty : n ≠ "") (htrimmed : trim n.toList = n.toList)
    (hplain : (n.toList.all fun c => decide (SyntaxType.Plain c)) = true) : PlainName n :=
  ⟨hnonempty, htrimmed, by simpa using hplain⟩

theorem plainName_empty : PlainName SyntaxType.empty.name :=
  plainName_of_all (by decide) (by decide +kernel) (by decide +kernel)

theorem plain_default : SyntaxSystem.default.Plain := by
  intro t ht
  simp only [SyntaxSystem.default, List.map_cons, List.map_nil, List.cons_append, List.nil_append,
    List.mem_cons, Option.some.injEq, List.not_mem_nil, or_false] at ht
  rcases ht with rfl | rfl | rfl | rfl | rfl <;>
    exact plainName_of_all (by decide) (by decide +kernel) (by decide +kernel)

namespace SyntaxType

variable {source : String} {system : Option SyntaxSystem}

/-- What reading does with a part once the blanks around it are gone. -/
theorem readPart_eq (part : List Char) :
    readPart source system part =
      if (trim part).isEmpty then .error (.emptyType source)
      else match openBrackets? 0 (trim part) with
        | none => .error (.unopenedBracket source)
        | some (_ + 1) => .error (.unclosedBracket source)
        | some 0 =>
          match cutLast? 0 (trim part) with
          | some (left, d, right) =>
            (readPart source system left).bind fun main =>
              (readPart source system right).map (slash d main)
          | none =>
            match atomOf (trim part) with
            | .group inner => readPart source system inner
            | .coordination inner => (readPart source system inner).map coordination
            | .name cs => ofName source system (String.ofList cs) := by
  rw [readPart]
  split
  · rfl
  · cases openBrackets? 0 (trim part) with
    | none => rfl
    | some depth =>
      cases depth with
      | succ depth => rfl
      | zero =>
        dsimp only
        cases cutLast? 0 (trim part) with
        | some cut =>
          obtain ⟨left, d, right⟩ := cut
          dsimp only
          cases readPart source system left with
          | error fault => rfl
          | ok main => cases readPart source system right <;> rfl
        | none => cases atomOf (trim part) <;> rfl

theorem readPart_congr {part part' : List Char} (h : trim part = trim part') :
    readPart source system part = readPart source system part' := by
  rw [readPart_eq, readPart_eq part', h]

theorem readPart_slash {left right : List Char} (d : Direction) (hleft : Closed left)
    (hright : Closed right) (hcut : cutLast? 0 right = none) :
    readPart source system (left ++ d.slash :: right) =
      (readPart source system left).bind fun main =>
        (readPart source system right).map (slash d main) := by
  have hclosed : openBrackets? 0 (left.dropWhile isBlank ++ d.slash :: trimEnd right) = some 0 :=
    hleft.dropWhile.slash d hright.trimEnd
  have hnone : cutLast? 0 (trimEnd right) = none := by
    rwa [← cutLast?_trim, trim_trimEnd, cutLast?_trim]
  rw [readPart_eq, trim_append_cons (isBlank_slash d), hclosed,
    cutLast?_slash d hleft.dropWhile hnone, if_neg (by simp)]
  simp only [readPart_congr (trim_dropWhile left), readPart_congr (trim_trimEnd right)]

theorem readPart_atom {cs : List Char} (hne : cs ≠ []) (htrim : trim cs = cs) (hclosed : Closed cs)
    (hcut : cutLast? 0 cs = none) :
    readPart source system cs =
      match atomOf cs with
      | .group inner => readPart source system inner
      | .coordination inner => (readPart source system inner).map coordination
      | .name cs => ofName source system (String.ofList cs) := by
  rw [readPart_eq, htrim, if_neg (by simpa using hne),
    show openBrackets? 0 cs = some 0 from hclosed, hcut]

theorem atomOf_plain {cs : List Char} (h : ∀ c ∈ cs, Plain c) : atomOf cs = .name cs := by
  rw [atomOf.eq_def]
  split
  · exact absurd (h '(' List.mem_cons_self).1 (by decide)
  · exact absurd (h '[' (List.mem_cons_of_mem _ List.mem_cons_self)).1 (by decide)
  · rfl

theorem eq_of_atomOf_group {cs inner : List Char} (h : atomOf cs = .group inner) :
    cs = '(' :: (inner ++ [')']) := by
  rw [atomOf.eq_def] at h
  split at h
  · split at h
    · rename_i hlast
      cases h
      rw [List.dropLast_append_getLast? _ hlast]
    · cases h
  · split at h <;> cases h
  · cases h

theorem eq_of_atomOf_coordination {cs inner : List Char} (h : atomOf cs = .coordination inner) :
    cs = 'C' :: '[' :: (inner ++ [']']) := by
  rw [atomOf.eq_def] at h
  split at h
  · split at h <;> cases h
  · split at h
    · rename_i hlast
      cases h
      rw [List.dropLast_append_getLast? _ hlast]
    · cases h
  · cases h

theorem eq_of_atomOf_name {cs cs' : List Char} (h : atomOf cs = .name cs') : cs' = cs := by
  rw [atomOf.eq_def] at h
  split at h
  · split at h <;> cases h
    rfl
  · split at h <;> cases h
    rfl
  · cases h
    rfl

theorem readPart_name {n : String} (hn : WholeName n) :
    readPart source system n.toList = ofName source system n := by
  have hne : n.toList ≠ [] := by simpa using hn.nonempty
  rw [readPart_atom hne hn.trimmed hn.closed hn.uncut, hn.atom]
  simp only [String.ofList_toList]

end SyntaxType

theorem PlainName.whole {n : String} (h : PlainName n) : WholeName n :=
  ⟨h.nonempty, h.trimmed, SyntaxType.closed_plain h.plain, SyntaxType.cutLast?_plain h.plain 0,
    SyntaxType.atomOf_plain h.plain⟩

theorem SyntaxSystem.Plain.whole {system : SyntaxSystem} (h : system.Plain) : system.Whole :=
  fun t ht => (h t ht).whole

namespace Denotes

open SyntaxType

variable {system : SyntaxSystem} {form : Form} {cs : List Char} {t : SyntaxType}

theorem chain_of_part (h : Denotes system .part cs t) : Denotes system .chain cs t := by
  have hsingle := single blank_nil blank_nil h
  rwa [List.nil_append, List.append_nil] at hsingle

/-- Blanks may surround a chain as well, since they may surround its first and its last part. -/
theorem surround (h : Denotes system form cs t) (hform : form = .chain) {before after : List Char}
    (hbefore : Blank before) (hafter : Blank after) :
    Denotes system .chain (before ++ cs ++ after) t := by
  induction h generalizing before after with
  | single hbefore' hafter' hpart =>
    have := single (hbefore.append hbefore') (hafter'.append hafter) hpart
    simpa only [List.append_assoc] using this
  | slash d hbefore' hafter' hmain hsub ihmain _ =>
    have := slash d hbefore' (hafter'.append hafter) (ihmain rfl hbefore blank_nil) hsub
    simpa only [List.append_assoc, List.append_nil, List.cons_append] using this
  | group _ _ => cases hform
  | coordination _ _ => cases hform
  | empty => cases hform
  | name _ _ => cases hform

/-- Every text that the grammar derives is closed. -/
theorem closed (hwhole : system.Whole) (h : Denotes system form cs t) : Closed cs := by
  induction h with
  | single hbefore hafter _ ih => exact ih.surround hbefore hafter
  | slash d hbefore hafter _ _ ihmain ihsub => exact ihmain.slash d (ihsub.surround hbefore hafter)
  | group _ ih => exact ih.bracketed rfl rfl rfl
  | coordination _ ih =>
    have hfirst : Closed ['C'] := rfl
    exact (closed_append hfirst).2 (ih.bracketed rfl rfl rfl)
  | empty => exact plainName_empty.whole.closed
  | name _ ht =>
    obtain ⟨hmem, rfl⟩ := SyntaxSystem.mem_of_find? ht
    exact (hwhole _ hmem).closed

/-- A part is not cut: its slashes are inside brackets. -/
theorem cutLast?_eq_none (hwhole : system.Whole) (h : Denotes system .part cs t) :
    cutLast? 0 cs = none := by
  cases h with
  | group hinner => exact cutLast?_bracketed rfl (hinner.closed hwhole)
  | @coordination inner _ hinner =>
    have hrest : cutLast? 0 ('[' :: (inner ++ [']'])) = none :=
      cutLast?_bracketed rfl (hinner.closed hwhole)
    rw [cutLast?, show depthAfter 0 'C' = 0 from rfl, hrest]
    rfl
  | empty => exact plainName_empty.whole.uncut
  | name _ ht =>
    obtain ⟨hmem, rfl⟩ := SyntaxSystem.mem_of_find? ht
    exact (hwhole _ hmem).uncut

/-- A text is read as the type that the grammar derives it for. -/
theorem readPart_eq_ok_of_whole (hwhole : system.Whole) (h : Denotes system form cs t)
    (source : String) : readPart source (some system) cs = .ok t := by
  induction h with
  | @single before after cs t hbefore hafter _ ih =>
    rw [readPart_congr (trim_surround hbefore hafter cs), ih]
  | @slash before after left right main sub d hbefore hafter hmain hsub ihmain ihsub =>
    have hclosed := (hsub.closed hwhole).surround hbefore hafter
    have hcut := (cutLast?_surround hbefore hafter).2 (hsub.cutLast?_eq_none hwhole)
    rw [readPart_slash d (hmain.closed hwhole) hclosed hcut, ihmain,
      readPart_congr (trim_surround hbefore hafter right), ihsub]
    rfl
  | @group inner t hinner ih =>
    have hpart := group hinner
    rw [readPart_atom (List.cons_ne_nil _ _) (trim_of_ends rfl rfl inner) (hpart.closed hwhole)
      (hpart.cutLast?_eq_none hwhole)]
    simpa [atomOf] using ih
  | @coordination inner t hinner ih =>
    have hpart := coordination hinner
    have htrim : trim ('C' :: '[' :: (inner ++ [']'])) = 'C' :: '[' :: (inner ++ [']']) :=
      trim_of_ends rfl rfl ('[' :: inner)
    rw [readPart_atom (List.cons_ne_nil _ _) htrim (hpart.closed hwhole)
      (hpart.cutLast?_eq_none hwhole)]
    simp [atomOf, ih, Except.map]
  | empty =>
    rw [readPart_name plainName_empty.whole, ofName, if_pos rfl]
  | @name n t hn ht =>
    obtain ⟨hmem, hname⟩ := SyntaxSystem.mem_of_find? ht
    rw [readPart_name (hname ▸ hwhole _ hmem), ofName, if_neg hn, ht]

theorem readPart_eq_ok (hplain : system.Plain) (h : Denotes system form cs t) (source : String) :
    readPart source (some system) cs = .ok t :=
  h.readPart_eq_ok_of_whole hplain.whole source

end Denotes

namespace SyntaxType

variable {source : String} {system : SyntaxSystem} {t : SyntaxType}

theorem denotes_of_ofName {n : String} (h : ofName source (some system) n = .ok t) :
    Denotes system .part n.toList t := by
  rw [ofName] at h
  split at h
  · rename_i hempty
    cases h
    exact hempty ▸ .empty
  · rename_i hn
    split at h <;> rename_i ht <;> cases h
    exact .name hn ht

theorem denotes_of_trim {part : List Char} (h : Denotes system .chain (trim part) t) :
    Denotes system .chain part t := by
  obtain ⟨before, after, hbefore, hafter, hpart⟩ := exists_trim part
  rw [hpart]
  exact h.surround rfl hbefore hafter

/-- What is read is derived by the grammar, and as a part where it is not cut. -/
theorem denotes_of_readPart (part : List Char) (h : readPart source (some system) part = .ok t) :
    Denotes system .chain part t ∧
      (cutLast? 0 part = none → Denotes system .part (trim part) t) := by
  fun_induction readPart source (some system) part generalizing t with
  | case1 | case2 | case3 | case4 | case5 => cases h
  | case6 =>
    rename_i d right hcut main hmain sub hsub ihmain ihsub
    cases h
    obtain ⟨heq, hright⟩ := eq_of_cutLast? hcut
    obtain ⟨before, after, hbefore, hafter, htrim⟩ := exists_trim right
    have hchain := Denotes.slash d hbefore hafter (ihmain hmain).1 ((ihsub hsub).2 hright)
    rw [← htrim, ← heq] at hchain
    refine ⟨denotes_of_trim hchain, fun hnone => ?_⟩
    rw [cutLast?_trim.2 hnone] at hcut
    cases hcut
  | case7 =>
    rename_i hatom ih
    have hpart := Denotes.group (ih h).1
    rw [← eq_of_atomOf_group hatom] at hpart
    exact ⟨denotes_of_trim hpart.chain_of_part, fun _ => hpart⟩
  | case8 =>
    rename_i hatom ih
    obtain ⟨t, hinner, rfl⟩ := map_eq_ok.1 h
    have hpart := Denotes.coordination (ih hinner).1
    rw [← eq_of_atomOf_coordination hatom] at hpart
    exact ⟨denotes_of_trim hpart.chain_of_part, fun _ => hpart⟩
  | case9 =>
    rename_i hatom
    have hpart := denotes_of_ofName h
    rw [String.toList_ofList, eq_of_atomOf_name hatom] at hpart
    exact ⟨denotes_of_trim hpart.chain_of_part, fun _ => hpart⟩

theorem kind_of_ofName {system : Option SyntaxSystem} {n : String} {fault : Fault}
    (h : ofName source system n = .error fault) : fault.kind = .typeText := by
  rw [ofName.eq_def] at h
  split at h
  · cases h
  · split at h
    · cases h
    · split at h <;> cases h
      rfl

/-- Whatever is wrong with a text, it is reported as a text that is not a type. -/
theorem kind_of_readPart {system : Option SyntaxSystem} {part : List Char} {fault : Fault}
    (h : readPart source system part = .error fault) : fault.kind = .typeText := by
  fun_induction readPart source system part generalizing fault with
  | case1 | case2 | case3 =>
    cases h
    rfl
  | case4 =>
    rename_i hleft ih
    cases h
    exact ih hleft
  | case5 =>
    rename_i hright _ ih
    cases h
    exact ih hright
  | case6 => cases h
  | case7 =>
    rename_i ih
    exact ih h
  | case8 =>
    rename_i inner _ ih
    cases hinner : readPart source system inner with
    | error fault' =>
      rw [hinner] at h
      cases h
      exact ih hinner
    | ok t =>
      rw [hinner] at h
      cases h
  | case9 => exact kind_of_ofName h

/-- Where the names of a system are plain, a text is read as the type that the grammar derives it
for, and a text that the grammar does not derive is refused as one that is not a type. -/
theorem read_eq_ok_iff_denotes (hplain : system.Plain) (text : String) :
    (∀ t, read text (some system) = .ok t ↔ Denotes system .chain text.toList t) ∧
      ((∀ t, ¬ Denotes system .chain text.toList t) →
        ∃ fault, read text (some system) = .error fault ∧ fault.kind = .typeText) := by
  have hiff : ∀ t, read text (some system) = .ok t ↔ Denotes system .chain text.toList t :=
    fun t => ⟨fun h => (denotes_of_readPart text.toList h).1, fun h => h.readPart_eq_ok hplain text⟩
  refine ⟨hiff, fun hnone => ?_⟩
  cases hread : read text (some system) with
  | ok t => exact absurd ((hiff t).1 hread) (hnone t)
  | error fault => exact ⟨fault, rfl, kind_of_readPart hread⟩

/-- A crossed pair of brackets leaves no bracket open, but is derived by no rule. -/
theorem read_crossed : SyntaxSystem.default.Plain ∧
    (∀ t, ¬ Denotes .default .chain "(S/NP]".toList t) ∧
    ∃ fault, read "(S/NP]" (some .default) = .error fault ∧ fault.kind = .typeText := by
  have h := read_eq_ok_iff_denotes plain_default "(S/NP]"
  have hread : read "(S/NP]" (some .default) = .error (.unknownType "(S/NP]" "(S/NP]") := by
    rw [read, readPart_eq]
    rfl
  have hnone : ∀ t, ¬ Denotes .default .chain "(S/NP]".toList t := by
    intro t ht
    rw [← h.1 t, hread] at ht
    cases ht
  exact ⟨plain_default, hnone, h.2 hnone⟩

end SyntaxType

end Categorial
