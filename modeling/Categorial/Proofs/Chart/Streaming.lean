import Categorial.Proofs.Chart.Rank
import Categorial.Proofs.Chart.Room
import Categorial.Proofs.Collection.Top

/-!
Beams for a whole number of cells, and offers with defined ranks that depend on the steps of their
cells alone. A step that was pushed out of a beam does not come back, because the last rank of a
full beam never falls. Main statement: the retained cells are the first ones of all offers so far,
without repetitions and ranked, with equals in the order of their arrival.
-/

namespace Categorial

variable {K : Type} [Scalar K]

/-- Whether an offer ranks as high as another one. -/
def Offer.atLeast (a b : Offer K) : Bool := a.rank.atLeast b.rank

/-- The first `k` of some offers: without those whose step was offered before, ranked by the primary
scores and then by the second ones, with equals in the order of their arrival. -/
def Offer.best (k : Nat) (os : List (Offer K)) : List (Offer K) :=
  top Offer.sameStep Offer.atLeast k os

/-- Offers whose ranks are defined, and the same where the steps are. -/
structure Offer.Rankable (os : List (Offer K)) : Prop where
  defined : ∀ o ∈ os, o.rank.Defined
  same : ∀ a ∈ os, ∀ b ∈ os, a.sameStep b = true → a.rank.same b.rank = true

theorem Offer.Rankable.of_subset {os os' : List (Offer K)} (h : Rankable os') (hsub : os ⊆ os') :
    Rankable os :=
  ⟨fun o ho => h.defined o (hsub ho), fun a ha b hb => h.same a (hsub ha) b (hsub hb)⟩

variable [OrderedScalar K]

/-- Whether the key of an offer is at least that of another one. -/
def Offer.keyAtLeast (a b : Offer K) : Bool := decide (b.rank.key ≤ a.rank.key)

theorem Offer.keyAtLeast_iff {a b : Offer K} :
    a.keyAtLeast b = true ↔ b.rank.key ≤ a.rank.key :=
  decide_eq_true_iff

theorem Offer.keyAtLeast_trans (a b c : Offer K) (hab : a.keyAtLeast b = true)
    (hbc : b.keyAtLeast c = true) : a.keyAtLeast c = true := by
  rw [keyAtLeast_iff] at *
  exact hbc.trans hab

theorem Offer.keyAtLeast_total (a b : Offer K) : (a.keyAtLeast b || b.keyAtLeast a) = true := by
  rw [Bool.or_eq_true, keyAtLeast_iff, keyAtLeast_iff]
  exact le_total _ _

/-- Where ranks are defined, the best offers are those with the greatest keys. -/
theorem Offer.best_eq_top_key {os : List (Offer K)} (h : ∀ o ∈ os, o.rank.Defined) (k : Nat) :
    best k os = top Offer.sameStep Offer.keyAtLeast k os := by
  refine top_congr ?_
  intro a ha b hb
  rw [Bool.eq_iff_iff, keyAtLeast_iff]
  exact Rank.atLeast_iff_key (h a ha) (h b hb)

namespace Placed

theorem before_trans {a b c : Placed K} (ha : a.rank.Defined) (hb : b.rank.Defined)
    (hc : c.rank.Defined) (hab : a.before b = true) (hbc : b.before c = true) :
    a.before c = true := by
  rw [before_iff_key ha hb] at hab
  rw [before_iff_key hb hc] at hbc
  rw [before_iff_key ha hc]
  rcases hab with hab | ⟨hab, harrival⟩
  · rcases hbc with hbc | ⟨hbc, -⟩
    · exact Or.inl (hbc.trans hab)
    · exact Or.inl (hbc ▸ hab)
  · rcases hbc with hbc | ⟨hbc, harrival'⟩
    · exact Or.inl (hab ▸ hbc)
    · exact Or.inr ⟨hbc.trans hab, harrival.trans harrival'⟩

/-- A later cell does not go before one whose rank is as high. -/
theorem not_before_eq_keyAtLeast {a new : Placed K} (ha : a.rank.Defined)
    (hnew : new.rank.Defined) (harrival : a.arrival < new.arrival) :
    (!new.before a) = a.offer.keyAtLeast new.offer := by
  rw [Bool.eq_iff_iff, Bool.not_eq_true', ← Bool.not_eq_true, before_iff_key hnew ha,
    Offer.keyAtLeast_iff, not_or]
  constructor
  · intro h
    exact not_lt.1 h.1
  · intro h
    exact ⟨not_lt.2 h, fun hand => absurd hand.2 (by omega)⟩

/-- A later cell does not go before another one just if its rank is not higher. -/
theorem notBefore_eq_keyAtLeast {a new : Placed K} (ha : a.rank.Defined)
    (hnew : new.rank.Defined) (harrival : a.arrival < new.arrival) :
    new.notBefore a = a.offer.keyAtLeast new.offer := by
  rw [Bool.eq_iff_iff, notBefore_iff_key hnew ha, Offer.keyAtLeast_iff]
  constructor
  · intro h
    exact le_iff_lt_or_eq.2 (h.imp_right And.left)
  · intro h
    exact (le_iff_lt_or_eq.1 h).imp_right fun heq => ⟨heq, harrival.le⟩

end Placed

namespace Beam

/-- The invariant of a beam with room for `k` cells to which some offers were made. -/
structure Ranked (k : Nat) (os : List (Offer K)) (b : Beam K) : Prop extends b.Sound where
  offers_eq : b.offers = top Offer.sameStep Offer.keyAtLeast k os
  sorted : b.placed.Pairwise fun a a' => a.before a' = true

theorem ranked_empty (k : Nat) : Ranked k ([] : List (Offer K)) empty where
  toSound := sound_empty
  offers_eq := by simp [offers, empty, top, distinct]
  sorted := .nil

variable {k : Nat} {os : List (Offer K)} {b : Beam K}

theorem Ranked.offer_mem (h : Ranked k os b) {a : Placed K} (ha : a ∈ b.placed) :
    a.offer ∈ top Offer.sameStep Offer.keyAtLeast k os := by
  rw [← h.offers_eq]
  exact List.mem_map_of_mem ha

theorem Ranked.defined (h : Ranked k os b) (hos : ∀ o ∈ os, o.rank.Defined) {a : Placed K}
    (ha : a ∈ b.placed) : a.rank.Defined :=
  hos a.offer (mem_of_mem_top (h.offer_mem ha))

theorem Ranked.size_le (h : Ranked k os b) : b.size ≤ k := by
  have hlength := congrArg List.length h.offers_eq
  rw [offers, List.length_map] at hlength
  rw [size, hlength]
  exact length_top_le

/-- The last cell of a beam is the one with the least key. -/
theorem Ranked.keyAtLeast_getLast (h : Ranked k os b) (hos : ∀ o ∈ os, o.rank.Defined)
    {last : Placed K} (hlast : b.placed.getLast? = some last) {a : Placed K} (ha : a ∈ b.placed) :
    a.offer.keyAtLeast last.offer = true := by
  have hmem := List.mem_of_getLast? hlast
  obtain ⟨front, hfront⟩ := List.getLast?_eq_some_iff.1 hlast
  have hsorted := h.sorted
  rw [hfront, List.pairwise_append] at hsorted
  rw [Offer.keyAtLeast_iff]
  rw [hfront, List.mem_append, List.mem_singleton] at ha
  rcases ha with hfront' | rfl
  · have hbefore := hsorted.2.2 a hfront' last (by simp)
    have hda := h.defined hos (a := a) (by rw [hfront]; exact List.mem_append_left _ hfront')
    rw [Placed.before_iff_key hda (h.defined hos hmem)] at hbefore
    exact le_iff_lt_or_eq.2 (hbefore.imp_right And.left)
  · exact le_rfl

/-- A new cell is refused if the beam is full and no retained cell ranks below it. -/
theorem Ranked.refuses_iff (h : Ranked k os b) (hos : ∀ o ∈ os, o.rank.Defined) {room : Number}
    (hroom : room.whole = .ok k) (hk : 0 < k) {new : Placed K} (hnew : new.rank.Defined)
    (harrival : new.arrival = b.offered) : b.refuses room new = true ↔
      b.size = k ∧ ∀ a ∈ b.placed, a.offer.keyAtLeast new.offer = true := by
  have hsize := h.size_le
  have hcompare : ∀ a ∈ b.placed, new.notBefore a = a.offer.keyAtLeast new.offer := fun a ha =>
    Placed.notBefore_eq_keyAtLeast (h.defined hos ha) hnew (harrival ▸ h.arrival_lt a ha)
  rw [refuses, Bool.and_eq_true, Number.le_of_whole hroom, decide_eq_true_eq, Int.ofNat_le]
  cases hlast : b.placed.getLast? with
  | none =>
    have hnil : b.size = 0 := by rw [size, List.getLast?_eq_none_iff.1 hlast, List.length_nil]
    simp only [Option.any_none, Bool.false_eq_true, and_false, false_iff, not_and]
    omega
  | some last =>
    have hmem := List.mem_of_getLast? hlast
    rw [Option.any_some, hcompare last hmem]
    constructor
    · rintro ⟨hfull, hle⟩
      refine ⟨by omega, fun a ha => ?_⟩
      exact Offer.keyAtLeast_trans _ _ _ (h.keyAtLeast_getLast hos hlast ha) hle
    · rintro ⟨hfull, hle⟩
      exact ⟨by omega, hle last hmem⟩

/-- A new cell that is taken is inserted behind the retained cells that rank as high, and the beam
is cut to its size. -/
theorem Ranked.placed_accept (h : Ranked k os b) (hos : ∀ o ∈ os, o.rank.Defined) {room : Number}
    (hroom : room.whole = .ok k) {new : Placed K} (hnew : new.rank.Defined) :
    (b.accept room new).placed =
      (placeRanked (fun a new => !new.before a) new b.placed).take k := by
  have hsorted : b.placed.Pairwise fun a a' => new.before a = true → new.before a' = true :=
    h.sorted.imp_of_mem fun ha ha' hbefore hnewa =>
      Placed.before_trans hnew (h.defined hos ha) (h.defined hos ha') hnewa hbefore
  rw [accept, insertRanked_eq_placeRanked hsorted, kept_of_whole hroom]
  rw [Nat.min_comm]
  exact List.take_eq_take_min.symm

theorem Ranked.offers_accept (h : Ranked k os b) (hos : ∀ o ∈ os, o.rank.Defined) {room : Number}
    (hroom : room.whole = .ok k) {new : Placed K} (hnew : new.rank.Defined)
    (harrival : new.arrival = b.offered) : (b.accept room new).offers =
      (placeRanked Offer.keyAtLeast new.offer b.offers).take k := by
  rw [offers, h.placed_accept hos hroom hnew, List.map_take, offers]
  rw [map_placeRanked fun a ha => Placed.not_before_eq_keyAtLeast (h.defined hos ha) hnew
    (harrival ▸ h.arrival_lt a ha)]

/-- Insertion into a strictly ranked list keeps it strictly ranked. -/
theorem Ranked.sorted_accept (h : Ranked k os b) (hos : ∀ o ∈ os, o.rank.Defined) {room : Number}
    (hroom : room.whole = .ok k) {new : Placed K} (hnew : new.rank.Defined)
    (harrival : new.arrival = b.offered) :
    (b.accept room new).placed.Pairwise fun a a' => a.before a' = true := by
  rw [h.placed_accept hos hroom hnew]
  refine List.Pairwise.sublist (List.take_sublist _ _) ?_
  have hdefined : ∀ a ∈ b.placed, a.rank.Defined := fun a ha => h.defined hos ha
  have hbefore : ∀ a ∈ b.placed, new.before a = false → a.before new = true := by
    intro a ha hnot
    have hkey := Placed.not_before_eq_keyAtLeast (hdefined a ha) hnew
      (harrival ▸ h.arrival_lt a ha)
    rw [hnot, Bool.not_false, eq_comm, Offer.keyAtLeast_iff, le_iff_lt_or_eq] at hkey
    rw [Placed.before_iff_key (hdefined a ha) hnew]
    exact hkey.imp_right fun heq => ⟨heq, harrival ▸ h.arrival_lt a ha⟩
  refine pairwise_placeRanked h.sorted ?_ ?_ ?_
  · intro a ha hnot
    exact hbefore a ha (by simpa using hnot)
  · intro a ha hnot
    exact by simpa using hnot
  · intro a ha a' ha' hnewa haa'
    exact Placed.before_trans hnew (hdefined a ha) (hdefined a' ha') hnewa haa'

theorem Ranked.any_distinct (h : Ranked k os b) {o : Offer K} (hholds : b.holds o.cell = true) :
    (distinct Offer.sameStep os).any (fun a => a.sameStep o) = true := by
  obtain ⟨d, hd, hsame⟩ := (h.holds_iff o.cell).1 hholds
  obtain ⟨a, ha, rfl⟩ := List.mem_map.1 hd
  exact List.any_eq_true.2 ⟨a.offer, List.mem_mergeSort.1 (List.mem_of_mem_take (h.offer_mem ha)),
    hsame⟩

/-- A step that was offered and is not retained any more is refused: the beam is full, and its last
rank is as high as the one that the step had. -/
theorem Ranked.refuses_of_any_distinct (h : Ranked k os b) {o : Offer K}
    (hos : Offer.Rankable (os ++ [o])) {room : Number} (hroom : room.whole = .ok k) (hk : 0 < k)
    (hholds : b.holds o.cell = false)
    (hany : (distinct Offer.sameStep os).any (fun a => a.sameStep o) = true) :
    b.refuses room ⟨o.rank, b.offered, o.cell⟩ = true := by
  have hdefined : ∀ a ∈ os, a.rank.Defined := fun a ha => hos.defined a (List.mem_append_left _ ha)
  have ho : o.rank.Defined := hos.defined o (by simp)
  obtain ⟨a, ha, hsame⟩ := List.any_eq_true.1 hany
  have hkey : a.rank.key = o.rank.key := by
    have hmem := List.mem_append_left [o] (mem_of_mem_distinct ha)
    exact (Rank.same_iff_key (hos.defined a hmem)).1 (hos.same a hmem o (by simp) hsame)
  have hout : a ∉ top Offer.sameStep Offer.keyAtLeast k os := by
    intro hmem
    rw [← h.offers_eq] at hmem
    obtain ⟨p, hp, rfl⟩ := List.mem_map.1 hmem
    rw [(h.holds_iff o.cell).2 ⟨p.cell, List.mem_map_of_mem hp, hsame⟩] at hholds
    exact Bool.noConfusion hholds
  obtain ⟨hfull, hle⟩ := le_of_not_mem_top Offer.keyAtLeast_trans Offer.keyAtLeast_total ha hout
  refine (h.refuses_iff hdefined hroom hk ho rfl).2 ⟨?_, ?_⟩
  · rw [← hfull, ← h.offers_eq, offers, List.length_map, size]
  · intro p hp
    have hp := hle p.offer (h.offer_mem hp)
    rw [Offer.keyAtLeast_iff] at hp ⊢
    exact hkey ▸ hp

/-- An offer keeps the invariant. -/
theorem Ranked.push (h : Ranked k os b) {o : Offer K} (hos : Offer.Rankable (os ++ [o]))
    {room : Number} (hroom : room.whole = .ok k) (hk : 0 < k) :
    Ranked k (os ++ [o]) (push room b o) := by
  have hdefined : ∀ a ∈ os, a.rank.Defined := fun a ha => hos.defined a (List.mem_append_left _ ha)
  have ho : o.rank.Defined := hos.defined o (by simp)
  have hsound : (Beam.push room b o).Sound := h.toSound.insert room o.rank o.cell
  rcases insert_cases b room o.rank o.cell with
    ⟨hholds, heq⟩ | ⟨hholds, hrefuses, heq⟩ | ⟨hholds, hrefuses, heq⟩
  · rw [Beam.push, heq] at hsound ⊢
    refine ⟨hsound, ?_, h.sorted⟩
    rw [top_concat_of_any (h.any_distinct hholds), h.offers_eq]
  · rw [Beam.push, heq] at hsound ⊢
    refine ⟨hsound, ?_, h.sorted⟩
    change b.offers = _
    by_cases hany : (distinct Offer.sameStep os).any (fun a => a.sameStep o) = true
    · rw [top_concat_of_any hany, h.offers_eq]
    · obtain ⟨hfull, hle⟩ := (h.refuses_iff hdefined hroom hk ho rfl).1 hrefuses
      rw [top_concat_of_not_any Offer.keyAtLeast_trans Offer.keyAtLeast_total (by simpa using hany),
        ← h.offers_eq]
      have hbehind : ∀ a ∈ b.offers, a.keyAtLeast o = true := by
        intro a ha
        obtain ⟨p, hp, rfl⟩ := List.mem_map.1 ha
        exact hle p hp
      have hlength : b.offers.length = k := by rw [← hfull, offers, List.length_map, size]
      rw [placeRanked_eq_concat hbehind, ← hlength, List.take_left]
  · rw [Beam.push, heq] at hsound ⊢
    refine ⟨hsound, ?_, h.sorted_accept hdefined hroom ho rfl⟩
    have hany : ¬ (distinct Offer.sameStep os).any (fun a => a.sameStep o) = true := by
      intro hany
      rw [h.refuses_of_any_distinct hos hroom hk hholds hany] at hrefuses
      exact Bool.noConfusion hrefuses
    rw [top_concat_of_not_any Offer.keyAtLeast_trans Offer.keyAtLeast_total (by simpa using hany),
      ← h.offers_eq]
    exact h.offers_accept hdefined hroom ho rfl

/-- Whatever is offered to an empty beam, the invariant holds. -/
theorem ranked_ofOffers {os : List (Offer K)} (hos : Offer.Rankable os) {room : Number}
    (hroom : room.whole = .ok k) (hk : 0 < k) : Ranked k os (ofOffers room os) := by
  induction os using List.reverseRecOn with
  | nil => exact ranked_empty k
  | append_singleton os o ih =>
    rw [ofOffers_concat]
    exact (ih (hos.of_subset (List.subset_append_left ..))).push hos hroom hk

/-- An offer is taken just if its step was not held before and its cell is retained afterwards. -/
theorem Ranked.taken_iff (h : Ranked k os b) (hos : ∀ o ∈ os, o.rank.Defined) {room : Number}
    (hroom : room.whole = .ok k) (hk : 0 < k) {rank : Rank K} (hrank : rank.Defined) (c : Cell K) :
    (b.insert room rank c).1 = true ↔
      b.holds c = false ∧ c ∈ (b.insert room rank c).2.cells := by
  rcases insert_cases b room rank c with
    ⟨hholds, heq⟩ | ⟨hholds, hrefuses, heq⟩ | ⟨hholds, hrefuses, heq⟩
  · simp [heq, hholds]
  · have hnot : c ∉ b.cells := by
      intro hmem
      rw [(h.holds_iff c).2 ⟨c, hmem, Cell.sameStep_refl c⟩] at hholds
      exact Bool.noConfusion hholds
    rw [heq]
    exact iff_of_false Bool.false_ne_true fun hand => hnot hand.2
  · rw [heq]
    refine iff_of_true rfl ⟨hholds, ?_⟩
    rw [cells, h.placed_accept hos hroom hrank]
    refine List.mem_map_of_mem (f := Placed.cell) (a := ⟨rank, b.offered, c⟩)
      (mem_take_placeRanked ?_)
    have hsize : b.placed.length ≤ k := h.size_le
    rcases Nat.lt_or_eq_of_le hsize with hlt | hfull
    · exact Or.inl hlt
    · refine Or.inr ⟨hfull, ?_⟩
      by_contra hnone
      rw [← Bool.not_eq_true, h.refuses_iff hos hroom hk hrank rfl] at hrefuses
      refine hrefuses ⟨hfull, fun a ha => ?_⟩
      rw [← Placed.not_before_eq_keyAtLeast (h.defined hos ha) hrank (h.arrival_lt a ha)]
      rw [← Bool.not_eq_false]
      intro hbefore
      exact hnone ⟨a, ha, hbefore⟩

end Beam

end Categorial
