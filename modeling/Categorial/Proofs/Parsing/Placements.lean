import Mathlib.Data.List.Nodup
import Mathlib.Data.List.Range
import Categorial.Proofs.Lexicon.View
import Categorial.Proofs.Parsing.Offers

/-!
Where a parse places entries. The entries are listed span by span, and those that skip a token in
the order of the tokens. Main statement: the entries that a parse lists for a span are those of its
tokens, and then one that skips the token, if the span has one token and tokens may be skipped.
-/

namespace Categorial

namespace Parser

/-- Of the lists for elements that are all different, those for one element are its own list. -/
theorem flatMap_ite_of_nodup {α β : Type} [DecidableEq α] {f : α → List β} {a : α} {xs : List α}
    (h : xs.Nodup) :
    (xs.flatMap fun x => if x = a then f x else []) = if a ∈ xs then f a else [] := by
  induction xs with
  | nil => rfl
  | cons x xs ih =>
    rw [List.nodup_cons] at h
    rw [List.flatMap_cons, ih h.2]
    by_cases hx : x = a
    · subst hx
      simp [h.1]
    · simp [hx, Ne.symm hx]

theorem nodup_lexicalSpans (n longest : Nat) : (lexicalSpans n longest).Nodup := by
  rw [lexicalSpans, List.nodup_flatMap]
  constructor
  · intro i _
    refine List.Nodup.map (fun j j' heq => ?_) List.nodup_range
    have hstop := congrArg Span.stop heq
    dsimp only at hstop
    omega
  · refine List.nodup_range.imp fun {i i'} hne => ?_
    refine List.disjoint_left.2 ?_
    intro s hs hs'
    obtain ⟨j, -, rfl⟩ := List.mem_map.1 hs
    obtain ⟨j', -, heq⟩ := List.mem_map.1 hs'
    have hstart := congrArg Span.start heq
    dsimp only at hstart
    omega

theorem mem_lexicalSpans {n longest : Nat} {s : Span} : s ∈ lexicalSpans n longest ↔
    0 ≤ s.start ∧ s.start < s.stop ∧ s.stop ≤ n ∧ s.length ≤ longest := by
  rw [lexicalSpans, List.mem_flatMap]
  simp only [Span.length]
  constructor
  · rintro ⟨i, hi, hs⟩
    obtain ⟨j, hj, rfl⟩ := List.mem_map.1 hs
    rw [List.mem_range] at hi hj
    dsimp only
    omega
  · rintro ⟨hstart, hlt, hstop, hlength⟩
    refine ⟨s.start.toNat, List.mem_range.2 (by omega), List.mem_map.2
      ⟨s.length - 1, List.mem_range.2 ?_, ?_⟩⟩
    · simp only [Span.length]
      omega
    · obtain ⟨start, stop⟩ := s
      simp only [Span.length, Span.mk.injEq] at *
      omega

theorem length_tokensOf {tokens : List String} {s : Span} (hstart : 0 ≤ s.start)
    (hstop : s.stop ≤ tokens.length) : (tokensOf tokens s).length = s.length := by
  rw [tokensOf, List.length_take, List.length_drop, Span.length]
  omega

/-- Positions that give nothing may be left out at the end. -/
theorem flatMap_range_eq {β : Type} {f : Nat → List β} {a b : Nat} (hab : a ≤ b)
    (h : ∀ j, a ≤ j → j < b → f j = []) : (List.range a).flatMap f = (List.range b).flatMap f := by
  obtain ⟨d, rfl⟩ := Nat.exists_eq_add_of_le hab
  rw [List.range_add, List.flatMap_append, List.self_eq_append_right, List.flatMap_eq_nil_iff]
  intro j hj
  obtain ⟨i, hi, rfl⟩ := List.mem_map.1 hj
  exact h _ (Nat.le_add_right a i) (Nat.add_lt_add_left (List.mem_range.1 hi) a)

/-- The entries of all spans, for there are none at the spans that are longer than any entry. -/
theorem placements_eq (view : LexiconView) (tokens : List String) : placements view tokens =
    (lexicalSpans tokens.length tokens.length).flatMap fun s =>
      (view.get (tokensOf tokens s)).map fun e => (e, s) := by
  rw [placements, lexicalSpans, lexicalSpans, List.flatMap_assoc, List.flatMap_assoc]
  refine List.flatMap_congr fun i hi => ?_
  rw [List.flatMap_map, List.flatMap_map]
  refine flatMap_range_eq (by omega) ?_
  intro j hlong hshort
  rw [List.map_eq_nil_iff, List.eq_nil_iff_forall_not_mem]
  intro e he
  have hlength := LexiconView.length_le_of_mem_get view he
  have hi := List.mem_range.1 hi
  rw [length_tokensOf (by simp) (by dsimp only; omega), Span.length] at hlength
  dsimp only at hlength
  omega

/-- The entries that are listed for a span are those of its tokens. -/
theorem filter_placements (view : LexiconView) {tokens : List String} {s : Span}
    (hstart : 0 ≤ s.start) (hlt : s.start < s.stop) (hstop : s.stop ≤ tokens.length) :
    (placements view tokens).filter (fun placed => placed.2 = s) =
      (view.get (tokensOf tokens s)).map fun e => (e, s) := by
  have hown : ∀ part : Span, ((view.get (tokensOf tokens part)).map fun e => (e, part)).filter
      (fun placed => placed.2 = s) =
        if part = s then (view.get (tokensOf tokens part)).map fun e => (e, part) else [] := by
    intro part
    by_cases hpart : part = s
    · rw [if_pos hpart, List.filter_eq_self]
      intro placed hplaced
      obtain ⟨e, -, rfl⟩ := List.mem_map.1 hplaced
      simpa using hpart
    · rw [if_neg hpart, List.filter_eq_nil_iff]
      intro placed hplaced
      obtain ⟨e, -, rfl⟩ := List.mem_map.1 hplaced
      simpa using hpart
  rw [placements, List.filter_flatMap]
  simp only [hown]
  rw [flatMap_ite_of_nodup (nodup_lexicalSpans _ _)]
  split
  · rfl
  · rename_i hlong
    -- a span that is longer than the longest entry has none
    rw [eq_comm, List.map_eq_nil_iff, List.eq_nil_iff_forall_not_mem]
    intro e he
    have hlength := LexiconView.length_le_of_mem_get view he
    rw [length_tokensOf hstart hstop] at hlength
    refine hlong (mem_lexicalSpans.2 ⟨hstart, hlt, hstop, Nat.le_min.2 ⟨?_, hlength⟩⟩)
    rw [Span.length]
    omega

/-- The entry that skips some tokens. -/
def skipper (skipped : Category) (tokens : List String) : Entry :=
  ⟨tokens, skipped, .skipping, []⟩

theorem create_skipper {skipped : Category} (h : skipped.hashable = true) (tokens : List String) :
    Entry.create tokens skipped .skipping [] = .ok (skipper skipped tokens) :=
  Entry.create_ok_iff.2 ⟨h, rfl⟩

/-- If the category of skipped tokens can be a key, every token is skipped at its position. -/
theorem skippers_eq {skipped : Category} (h : skipped.hashable = true) (tokens : List String) :
    skippers skipped tokens = .ok (tokens.zipIdx.map fun x =>
      (skipper skipped [x.1], ⟨x.2, x.2 + 1⟩)) := by
  rw [skippers]
  induction tokens.zipIdx with
  | nil => rfl
  | cons x xs ih =>
    obtain ⟨token, i⟩ := x
    rw [List.mapM_cons, ih]
    dsimp only
    rw [create_skipper h]
    rfl

/-- If a token can be skipped, the category of skipped tokens can be a key. -/
theorem hashable_of_skippers {skipped : Category} {token : String} {tokens : List String}
    {xs : List (Entry × Span)} (h : skippers skipped (token :: tokens) = .ok xs) :
    skipped.hashable = true := by
  rw [skippers, List.zipIdx_cons, List.mapM_cons] at h
  obtain ⟨_, hmake, -⟩ := bind_eq_ok.1 h
  obtain ⟨_, hcreate, -⟩ := bind_eq_ok.1 hmake
  exact (Entry.create_ok_iff.1 hcreate).1

theorem filter_zipIdx (tokens : List String) (k i : Nat) :
    (tokens.zipIdx k).filter (fun x => x.2 = k + i) =
      ((tokens.drop i).take 1).map fun token => (token, k + i) := by
  induction tokens generalizing k i with
  | nil => simp
  | cons token tokens ih =>
    rw [List.zipIdx_cons, List.filter_cons]
    cases i with
    | zero =>
      have hnone : (tokens.zipIdx (k + 1)).filter (fun x => x.2 = k) = [] := by
        refine List.filter_eq_nil_iff.2 ?_
        intro x hx
        have hle := List.le_snd_of_mem_zipIdx hx
        simp only [decide_eq_true_eq]
        omega
      simp [hnone]
    | succ i =>
      have hih := ih (k + 1) i
      have hadd : k + 1 + i = k + (i + 1) := by omega
      rw [hadd] at hih
      simp [hih]

/-- The entries that skip the token of a span of one token. -/
theorem filter_skippers {skipped : Category} {tokens : List String} {xs : List (Entry × Span)}
    (h : skipped.hashable = true) (hxs : skippers skipped tokens = .ok xs) {s : Span}
    (hstart : 0 ≤ s.start) (hlt : s.start < s.stop) (hstop : s.stop ≤ tokens.length) :
    xs.filter (fun placed => placed.2 = s) =
      if s.length = 1 then [(skipper skipped (tokensOf tokens s), s)] else [] := by
  rw [skippers_eq h, Except.ok.injEq] at hxs
  subst hxs
  obtain ⟨start, stop⟩ := s
  obtain ⟨i, rfl⟩ := Int.eq_ofNat_of_zero_le hstart
  dsimp only at hlt hstop
  rw [List.filter_map]
  by_cases hone : stop = i + 1
  · subst hone
    have hspan : ((fun placed : Entry × Span => decide (placed.2 = ⟨(i : Int), i + 1⟩)) ∘
        fun x : String × Nat => (skipper skipped [x.1], (⟨x.2, x.2 + 1⟩ : Span))) =
          fun x => decide (x.2 = 0 + i) := by
      funext x
      simp only [Function.comp_apply, Span.mk.injEq, decide_eq_decide]
      omega
    have htoken : ((tokens.drop i).take 1).length = 1 := by
      rw [List.length_take, List.length_drop]
      omega
    obtain ⟨token, htoken⟩ := List.length_eq_one_iff.1 htoken
    have htokens : tokensOf tokens ⟨i, i + 1⟩ = [token] := by
      rw [← htoken, tokensOf]
      congr 1
      dsimp only
      omega
    rw [if_pos (by simp only [Span.length]; omega), htokens, hspan, filter_zipIdx, htoken]
    simp
  · have hlength : ¬ Span.length ⟨(i : Int), stop⟩ = 1 := by
      simp only [Span.length]
      omega
    rw [if_neg hlength, List.map_eq_nil_iff, List.filter_eq_nil_iff]
    intro x _
    simp only [Function.comp_apply, Span.mk.injEq, decide_eq_true_eq]
    omega

/-- Every entry that skips a token is at a span of one token. -/
theorem span_of_mem_skippers {skipped : Category} {tokens : List String} {xs : List (Entry × Span)}
    (h : skipped.hashable = true) (hxs : skippers skipped tokens = .ok xs) {placed : Entry × Span}
    (hplaced : placed ∈ xs) :
    0 ≤ placed.2.start ∧ placed.2.start < placed.2.stop ∧ placed.2.stop ≤ tokens.length := by
  rw [skippers_eq h, Except.ok.injEq] at hxs
  rw [← hxs] at hplaced
  obtain ⟨x, hx, rfl⟩ := List.mem_map.1 hplaced
  have hlt := List.snd_lt_of_mem_zipIdx hx
  dsimp only
  omega

/-- Every entry that is listed is at a span of the sentence. -/
theorem span_of_mem_placements {view : LexiconView} {tokens : List String} {placed : Entry × Span}
    (h : placed ∈ placements view tokens) :
    0 ≤ placed.2.start ∧ placed.2.start < placed.2.stop ∧ placed.2.stop ≤ tokens.length := by
  rw [placements] at h
  obtain ⟨s, hs, hplaced⟩ := List.mem_flatMap.1 h
  obtain ⟨e, -, rfl⟩ := List.mem_map.1 hplaced
  obtain ⟨hstart, hlt, hstop, -⟩ := mem_lexicalSpans.1 hs
  exact ⟨hstart, hlt, hstop⟩

end Parser

end Categorial
