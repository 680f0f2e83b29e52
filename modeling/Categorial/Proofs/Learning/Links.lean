import Categorial.Learning.Templates
import Categorial.Proofs.Learning.Used

/-!
Links between learned entries. An entry that a parse uses is learned with the entries linked to it,
but these are learned without theirs. Main statement: after training, a learned entry without all of
its links is one that was itself learned as a link; and there is none if the links of linked entries
lead back to what they are linked with, as they do for entries that templates propose.
-/

namespace Categorial

namespace Entry

/-- Whether the links of the entries that are linked to an entry lead to this entry or to its own
links. -/
def LinksWithin (e : Entry) : Prop :=
  ∀ x ∈ e.linked, ∀ y ∈ x.linked, e.same y = true ∨ ∃ z ∈ e.linked, z.same y = true

instance (e : Entry) : Decidable e.LinksWithin :=
  inferInstanceAs (Decidable (∀ x ∈ e.linked, ∀ y ∈ x.linked,
    e.same y = true ∨ ∃ z ∈ e.linked, z.same y = true))

end Entry

namespace Lexicon

variable {lexicon : Lexicon} {u e : Entry} {es us : List Entry}

/-- Whether a lexicon has the entries that are linked to an entry. -/
def HasLinks (lexicon : Lexicon) (e : Entry) : Prop := ∀ x ∈ e.linked, lexicon.contains x = true

instance (lexicon : Lexicon) (e : Entry) : Decidable (lexicon.HasLinks e) :=
  inferInstanceAs (Decidable (∀ x ∈ e.linked, lexicon.contains x = true))

/-- Whether an entry was learned as a link of one that a lexicon has with all of its links. -/
def LearnedAsLink (lexicon : Lexicon) (e : Entry) : Prop :=
  ∃ u, lexicon.contains u = true ∧ lexicon.HasLinks u ∧ ∃ x ∈ u.linked, e = x.withOrigin .learned

/-- A lexicon with the lessons of some used entries added. -/
def taught (lexicon : Lexicon) (us : List Entry) : Lexicon :=
  (us.flatMap Entry.lessons).foldl insert lexicon

theorem taught_cons (lexicon : Lexicon) (u : Entry) (us : List Entry) :
    lexicon.taught (u :: us) = (u.lessons.foldl insert lexicon).taught us := by
  rw [taught, List.flatMap_cons, List.foldl_append, taught]

/-- A lexicon has what it had after entries were added. -/
theorem contains_foldl_of_contains (h : lexicon.contains e = true) :
    (es.foldl insert lexicon).contains e = true :=
  (contains_foldl_insert lexicon es e).2 (Or.inl h)

theorem HasLinks.foldl (h : lexicon.HasLinks e) : (es.foldl insert lexicon).HasLinks e :=
  fun x hx => contains_foldl_of_contains (h x hx)

theorem LearnedAsLink.foldl (h : lexicon.LearnedAsLink e) :
    (es.foldl insert lexicon).LearnedAsLink e := by
  obtain ⟨u, hu, hlinks, hx⟩ := h
  exact ⟨u, contains_foldl_of_contains hu, hlinks.foldl, hx⟩

/-- The lessons of an entry that skips no token put it and its links into the lexicon. -/
theorem contains_lessons (lexicon : Lexicon) (horigin : u.origin ≠ .skipping) :
    (u.lessons.foldl insert lexicon).contains u = true ∧
      (u.lessons.foldl insert lexicon).HasLinks u := by
  have hlesson : ∀ x ∈ u :: u.linked, (u.lessons.foldl insert lexicon).contains x = true := by
    intro x hx
    rw [contains_foldl_insert, Entry.lessons, if_neg horigin]
    exact Or.inr ⟨_, List.mem_map_of_mem hx, Entry.same_refl x⟩
  exact ⟨hlesson u List.mem_cons_self, fun x hx => hlesson x (List.mem_cons_of_mem u hx)⟩

/-- What a used entry puts into a lexicon: itself with its links, or one of these. -/
theorem mem_lessons (h : e ∈ (u.lessons.foldl insert lexicon).entries) :
    e ∈ lexicon.entries ∨ u.origin ≠ .skipping ∧
      (e = u.withOrigin .learned ∨ ∃ x ∈ u.linked, e = x.withOrigin .learned) := by
  rcases mem_of_mem_foldl_insert h with h | h
  · exact Or.inl h
  · rw [Entry.lessons] at h
    split at h
    · cases h
    · rename_i horigin
      obtain ⟨x, hx, rfl⟩ := List.mem_map.1 h
      refine Or.inr ⟨horigin, (List.mem_cons.1 hx).imp ?_ fun hx => ⟨x, hx, rfl⟩⟩
      rintro rfl
      rfl

/-- Whether every learned entry of a lexicon is there with its links, or was learned as a link. -/
def Linked (lexicon : Lexicon) : Prop :=
  ∀ e ∈ lexicon.entries, e.origin = .learned → lexicon.HasLinks e ∨ lexicon.LearnedAsLink e

theorem Linked.lessons (h : lexicon.Linked) (u : Entry) :
    (u.lessons.foldl insert lexicon).Linked := by
  intro e he hlearned
  rcases mem_lessons he with he | ⟨horigin, rfl | ⟨x, hx, rfl⟩⟩
  · exact (h e he hlearned).imp HasLinks.foldl LearnedAsLink.foldl
  · exact Or.inl (contains_lessons lexicon horigin).2
  · obtain ⟨hu, hlinks⟩ := contains_lessons lexicon horigin
    exact Or.inr ⟨u, hu, hlinks, x, hx, rfl⟩

theorem Linked.taught (h : lexicon.Linked) (us : List Entry) : (lexicon.taught us).Linked := by
  induction us generalizing lexicon with
  | nil => exact h
  | cons u us ih =>
    rw [taught_cons]
    exact ih (h.lessons u)

/-- Whether a lexicon has the links of every learned entry, and the links of all other ones are such
that learning them needs no further links. -/
structure Closed (lexicon : Lexicon) : Prop where
  learned : ∀ e ∈ lexicon.entries, e.origin = .learned → lexicon.HasLinks e
  others : ∀ e ∈ lexicon.entries, e.origin ≠ .learned → e.LinksWithin

/-- Whether using an entry leaves a lexicon closed: it skips a token, its links lead nowhere else,
or it is there with all of its links. -/
def Settled (lexicon : Lexicon) (u : Entry) : Prop :=
  u.origin = .skipping ∨ u.LinksWithin ∨ lexicon.contains u = true ∧ lexicon.HasLinks u

theorem Settled.foldl (h : lexicon.Settled u) : (es.foldl insert lexicon).Settled u :=
  h.imp_right (Or.imp_right fun ⟨hu, hlinks⟩ => ⟨contains_foldl_of_contains hu, hlinks.foldl⟩)

theorem Closed.lessons (h : lexicon.Closed) (hu : lexicon.Settled u) :
    (u.lessons.foldl insert lexicon).Closed := by
  rcases hu with hskip | hwithin | ⟨hcontains, hlinks⟩
  · rw [Entry.lessons, if_pos hskip]
    exact h
  · refine ⟨fun e he hlearned => ?_, fun e he hother => ?_⟩
    · rcases mem_lessons he with he | ⟨horigin, rfl | ⟨x, hx, rfl⟩⟩
      · exact (h.learned e he hlearned).foldl
      · exact (contains_lessons lexicon horigin).2
      · -- a link of the linked entry is the used entry or another one of its links
        intro y hy
        rw [contains_foldl_insert, Entry.lessons, if_neg horigin]
        rcases hwithin x hx y hy with hsame | ⟨z, hz, hsame⟩
        · exact Or.inr ⟨_, List.mem_map_of_mem List.mem_cons_self, hsame⟩
        · exact Or.inr ⟨_, List.mem_map_of_mem (List.mem_cons_of_mem u hz), hsame⟩
    · rcases mem_lessons he with he | ⟨-, rfl | ⟨x, -, rfl⟩⟩
      · exact h.others e he hother
      · exact absurd rfl hother
      · exact absurd rfl hother
  · rw [foldl_insert_of_contains]
    · exact h
    · intro x hx
      rw [Entry.lessons] at hx
      split at hx
      · cases hx
      · obtain ⟨y, hy, rfl⟩ := List.mem_map.1 hx
        rcases List.mem_cons.1 hy with rfl | hy
        · exact hcontains
        · exact hlinks y hy

theorem Closed.taught (h : lexicon.Closed) (hus : ∀ u ∈ us, lexicon.Settled u) :
    (lexicon.taught us).Closed := by
  induction us generalizing lexicon with
  | nil => exact h
  | cons u us ih =>
    rw [taught_cons]
    exact ih (h.lessons (hus u List.mem_cons_self)) fun x hx =>
      (hus x (List.mem_cons_of_mem u hx)).foldl

end Lexicon

/-! Entries that templates propose. -/

namespace Templates

theorem linked_of_propose {templates : List Template} {tokens : List String} {es : List Entry}
    (h : propose templates tokens = .ok es) {e : Entry} (he : e ∈ es) : e.linked = [] := by
  rw [propose] at h
  generalize templates.filterMap (Template.category? tokens) = categories at h
  induction categories generalizing es with
  | nil =>
    obtain rfl := Except.ok.inj h
    cases he
  | cons c categories ih =>
    rw [List.mapM_cons] at h
    obtain ⟨first, hfirst, h⟩ := bind_eq_ok.1 h
    obtain ⟨rest, hrest, h⟩ := bind_eq_ok.1 h
    obtain rfl := Except.ok.inj h
    rcases List.mem_cons.1 he with rfl | he
    · obtain ⟨-, rfl⟩ := Entry.create_ok_iff.1 hfirst
      rfl
    · exact ih he hrest

/-- The links of proposed entries have no links themselves. -/
theorem linksWithin_of_propose {templates : List Template} {tokens : List String}
    {es : List Entry} (h : propose templates tokens = .ok es) {linked : Bool} {e : Entry}
    (he : e ∈ if linked then linkAll [] es else es) : e.LinksWithin := by
  intro x hx y hy
  have hlinked : x.linked = [] := by
    split at he
    · obtain ⟨start, e', rest, rfl, rfl⟩ := linked_of_mem_linkAll he
      refine linked_of_propose h ?_
      rcases List.mem_append.1 hx with hx | hx
      · exact List.mem_append_left _ hx
      · exact List.mem_append_right _ (List.mem_cons_of_mem _ hx)
    · rw [linked_of_propose h he] at hx
      cases hx
  rw [hlinked] at hy
  cases hy

/-- The links of the entries that templates propose for a sentence lead to each other. -/
theorem linksWithin_of_generate {t : Templates} {tokens : List String} {lexicon : Lexicon}
    (h : t.generate tokens = .ok lexicon) : ∀ e ∈ lexicon.entries, e.LinksWithin := by
  obtain ⟨longest, -, h⟩ := bind_eq_ok.1 h
  have hstart : ∀ e ∈ Lexicon.empty.entries, e.LinksWithin :=
    fun e he => absurd he List.not_mem_nil
  generalize Lexicon.empty = start at h hstart
  generalize t.allSequences longest.toNat tokens = sequences at h
  induction sequences generalizing start with
  | nil =>
    obtain rfl := Except.ok.inj h
    exact hstart
  | cons sequence sequences ih =>
    rw [List.foldlM_cons] at h
    obtain ⟨next, hnext, h⟩ := bind_eq_ok.1 h
    obtain ⟨es, hes, hnext⟩ := bind_eq_ok.1 hnext
    obtain rfl := Except.ok.inj hnext
    refine ih _ (fun e he => ?_) h
    rw [Lexicon.addAll_eq] at he
    rcases Lexicon.mem_of_mem_foldl_insert he with he | he
    · exact hstart e he
    · exact linksWithin_of_propose hes he

end Templates

/-! What a run makes of a property of the lexicon. -/

namespace Training

variable {K α β : Type} {J : Lexicon → Prop}

/-- Whether a step that ends keeps a property of the lexicon. -/
def Preserves (J : Lexicon → Prop) (x : Training K α) : Prop :=
  ∀ s a s', x s = (.ok a, s') → J s.model.lexicon → J s'.model.lexicon

theorem Keeps.preserves {x : Training K α} (hx : x.Keeps) : x.Preserves J := by
  intro s a s' h hJ
  have hkeep := (hx s).1
  rw [h] at hkeep
  rw [hkeep]
  exact hJ

theorem Preserves.bind {x : Training K α} {f : α → Training K β} (hx : x.Preserves J)
    (hf : ∀ a, (f a).Preserves J) : (x >>= f).Preserves J := by
  intro s b s' h hJ
  obtain ⟨a, t, hfirst, hrest⟩ := bind_run_eq_ok.1 h
  exact hf a t b s' hrest (hx s a t hfirst hJ)

theorem preserves_forM {f : α → Training K Unit} {xs : List α}
    (hf : ∀ x ∈ xs, (f x).Preserves J) : (xs.forM f).Preserves J := by
  induction xs with
  | nil => exact (keeps_pure _).preserves
  | cons x xs ih =>
    exact (hf x List.mem_cons_self).bind fun _ =>
      ih fun y hy => hf y (List.mem_cons_of_mem x hy)

theorem preserves_change {f : Session K → Session K}
    (hf : ∀ s, (f s).model.lexicon = s.model.lexicon) : (change f).Preserves J := by
  intro s u s' h hJ
  obtain ⟨-, rfl⟩ := Prod.mk.inj h
  rw [hf]
  exact hJ

end Training

namespace Learner

open Training

variable {K : Type} [Scalar K] {l : Learner K} {s s' : Session K} {J : Lexicon → Prop}

/-- Whether a property of the lexicon survives every look for entries in an item. -/
def Teaches (l : Learner K) (J : Lexicon → Prop) (item : Item) : Prop :=
  ∀ (m : Model K) proposed valid, item.generate = .ok proposed →
    l.validParses m item proposed = .ok valid → J m.lexicon →
      J (m.lexicon.taught ((Parse.top valid).flatMap Parse.entries))

theorem preserves_induce {item : Item} (h : l.Teaches J item) (place : Place) :
    (l.induce place item).Preserves J := by
  intro s u s' hrun hJ
  obtain ⟨proposed, valid, hgenerate, hvalid, hcases⟩ := induce_eq_ok hrun
  rcases hcases with ⟨-, -, hmodel, -⟩ | ⟨-, n, t, t', ht, -, htaught, hmodel, -⟩
  · rw [hmodel]
    exact hJ
  · rw [hmodel, Model.lexicon_addEntries htaught.model, ht]
    exact h s.model proposed valid hgenerate hvalid hJ

/-- Updates leave the lexicon as it is. -/
theorem preserves_update (place : Place) (item : Item) (parses : List (Parse K)) :
    (l.update place item parses).Preserves J := by
  unfold update
  cases l.perceptron with
  | none => exact (keeps_lift _).preserves
  | some p =>
    refine keeps_session.preserves.bind fun s => (keeps_lift _).preserves.bind fun direction => ?_
    cases direction with
    | none => exact (keeps_pure _).preserves
    | some delta =>
      refine (keeps_lift _).preserves.bind fun step => ?_
      refine Preserves.bind (preserves_change ?_) fun _ => Preserves.bind (preserves_change ?_) ?_
      · exact fun _ => rfl
      · exact fun _ => rfl
      · exact fun _ => (keeps_count _).preserves.bind fun _ => (keeps_notify l _).preserves

theorem preserves_trainItem {item : Item} (h : l.Teaches J item) (place : Place) :
    (l.trainItem place item).Preserves J := by
  rw [trainItem_eq]
  refine (keeps_notify l _).preserves.bind fun _ => ?_
  split
  · exact (keeps_count _).preserves.bind fun _ => (keeps_notify l _).preserves
  · refine Preserves.bind ?_ fun _ => (keeps_analyze l item _).preserves.bind fun analysis => ?_
    · split
      · exact preserves_induce h place
      · exact (keeps_pure _).preserves
    · refine (keeps_record _).preserves.bind fun _ => (keeps_notify l _).preserves.bind fun _ => ?_
      refine (preserves_update place item _).bind fun _ => ?_
      exact (keeps_count _).preserves.bind fun _ => (keeps_notify l _).preserves

/-- A property of the lexicon that survives every look for entries survives a run that ends. -/
theorem preserves_train (h : ∀ item ∈ l.items, l.Teaches J item) : l.train.Preserves J := by
  refine (keeps_lift _).preserves.bind fun epochs => preserves_forM fun epoch _ => ?_
  refine (keeps_notify l _).preserves.bind fun _ => Preserves.bind (preserves_forM ?_) fun _ =>
    (keeps_notify l _).preserves
  rintro ⟨item, index⟩ hitem
  exact preserves_trainItem (h item (List.fst_mem_of_mem_zipIdx hitem)) ⟨epoch, index⟩

theorem teaches_linked (l : Learner K) (item : Item) : l.Teaches Lexicon.Linked item :=
  fun _ _ _ _ _ h => h.taught _

theorem teaches_closed {item : Item}
    (h : ∀ proposed, item.generate = .ok proposed → ∀ e ∈ proposed.entries, e.LinksWithin) :
    l.Teaches Lexicon.Closed item := by
  intro m proposed valid hgenerate hvalid hclosed
  refine hclosed.taught fun u hu => ?_
  obtain ⟨q, hq, hu⟩ := List.mem_flatMap.1 hu
  rcases stored_of_used hvalid (Parse.mem_of_mem_top hq) hu with hstored | hproposed | hskip
  · by_cases horigin : u.origin = .learned
    · have hcontains : m.lexicon.contains u = true := by
        rw [Lexicon.contains, List.any_eq_true]
        refine ⟨u, ?_, Entry.same_refl u⟩
        rw [Lexicon.get_eq_filter]
        exact List.mem_filter.2 ⟨hstored, decide_eq_true rfl⟩
      -- a learned entry brings nothing new when it is used again
      exact Or.inr (Or.inr ⟨hcontains, hclosed.learned u hstored horigin⟩)
    · exact Or.inr (Or.inl (hclosed.others u hstored horigin))
  · exact Or.inr (Or.inl (h proposed hgenerate u hproposed))
  · exact Or.inl hskip

/-- After a run that ends, on a model without learned entries, every learned entry of the lexicon is
there with all entries linked to it, or was itself learned as a link of an entry that is there with
all of its links. If the links of linked entries lead nowhere else, for the entries of the model and
for the proposed ones, then every learned entry is there with all of its links. -/
theorem learned_links (h : l.train s = (.ok (), s'))
    (hstart : ∀ e ∈ s.model.lexicon.entries, e.origin ≠ .learned) :
    (∀ e ∈ s'.model.lexicon.entries, e.origin = .learned →
      (∀ x ∈ e.linked, s'.model.lexicon.contains x = true) ∨
        ∃ u, s'.model.lexicon.contains u = true ∧
          (∀ y ∈ u.linked, s'.model.lexicon.contains y = true) ∧
            ∃ x ∈ u.linked, e = x.withOrigin .learned) ∧
    ((∀ e ∈ s.model.lexicon.entries, e.LinksWithin) →
      (∀ item ∈ l.items, ∀ proposed, item.generate = .ok proposed →
        ∀ e ∈ proposed.entries, e.LinksWithin) →
      ∀ e ∈ s'.model.lexicon.entries, e.origin = .learned →
        ∀ x ∈ e.linked, s'.model.lexicon.contains x = true) := by
  constructor
  · have hlinked : s.model.lexicon.Linked := fun e he hlearned => absurd hlearned (hstart e he)
    exact preserves_train (fun item _ => teaches_linked l item) s () s' h hlinked
  · intro hwithin hproposed
    have hclosed : s.model.lexicon.Closed :=
      ⟨fun e he hlearned => absurd hlearned (hstart e he), fun e he _ => hwithin e he⟩
    exact (preserves_train (fun item hitem => teaches_closed (hproposed item hitem)) s () s' h
      hclosed).learned

/-- Templates that give both truth values to the token `a`, linked to each other. -/
def bothTemplates : Templates :=
  ⟨[.fixed ⟨some (.primitive "N"), .bool true⟩, .fixed ⟨some (.primitive "N"), .bool false⟩],
    .int 1, true, []⟩

/-- The sentence `a`, which is to mean that something is true. -/
def bothItem : Item := ⟨["a"], .none, .bool true, some bothTemplates.generate, none⟩

/-- A learner of this sentence. -/
def bothLearner : Learner Rat where
  items := [bothItem]
  analyzer := ⟨.create .empty .default .structural .empty false, none⟩
  config := ⟨.int 2, .int 10, .int 10, true⟩
  perceptron := some ⟨1, 1, 0⟩
  observers := []
  timer := Meter.record

/-- What a run of two epochs leaves. -/
def bothRun : Except Fault Unit × Session Rat :=
  bothLearner.train (bothLearner.start ⟨.empty, [.default], [], [], .empty⟩)

/-- Both entries are learned, the first one with its link to the second. -/
theorem learned_links_templates : ∃ s', bothRun = (.ok (), s') ∧
    (s'.model.lexicon.entries.map fun e => (e.origin, e.linked.length)) =
      [(.learned, 1), (.learned, 0)] ∧
    ∀ e ∈ s'.model.lexicon.entries, ∀ x ∈ e.linked, s'.model.lexicon.contains x = true := by
  have hrun : bothRun.1.toOption = some () := by decide +kernel
  have hentries : (bothRun.2.model.lexicon.entries.map fun e => (e.origin, e.linked.length)) =
      [(.learned, 1), (.learned, 0)] := by decide +kernel
  cases hs' : bothRun with
  | mk outcome s' =>
    rw [hs'] at hrun hentries
    cases outcome with
    | error fault => cases hrun
    | ok u =>
      refine ⟨s', rfl, hentries, fun e he => ?_⟩
      obtain ⟨-, hall⟩ := learned_links hs' fun e he => absurd he List.not_mem_nil
      refine hall (fun e he => absurd he List.not_mem_nil) (fun item hitem proposed h => ?_) e he ?_
      · obtain rfl := List.mem_singleton.1 hitem
        exact Templates.linksWithin_of_generate h
      · have hlearned : ∀ p ∈ [(Origin.learned, 1), (Origin.learned, 0)], p.1 = .learned := by
          decide
        rw [← hentries] at hlearned
        exact hlearned _ (List.mem_map_of_mem he)

/-- An entry for the token `w`, linked to one for `v`, which is linked to one for `u`. -/
def chainEntry : Entry :=
  ⟨["w"], ⟨some (.primitive "N"), .text "x"⟩, .fixed,
    [⟨["v"], ⟨some (.primitive "N"), .text "y"⟩, .fixed,
      [⟨["u"], ⟨some (.primitive "N"), .text "z"⟩, .fixed, []⟩]⟩]⟩

/-- The sentence `w`, for which the first of these entries is proposed. -/
def chainItem : Item :=
  ⟨["w"], .none, .text "x", some fun _ => .ok (.ofList [chainEntry.withOrigin .generated]), none⟩

/-- What a run with this sentence leaves of a model that has the first of these entries. -/
def chainRun : Except Fault Unit × Session Rat :=
  let l := { bothLearner with items := [chainItem] }
  l.train (l.start ⟨.ofList [chainEntry], [.default], [], [], .empty⟩)

/-- The run ends, and has learned the entry for `v` without the one linked to it. -/
theorem chainRun_not_closed : chainRun.1.toOption = some () ∧
    (∀ e ∈ (Lexicon.ofList [chainEntry]).entries, e.origin ≠ .learned) ∧
    ∃ e ∈ chainRun.2.model.lexicon.entries, e.origin = .learned ∧
      ∃ x ∈ e.linked, chainRun.2.model.lexicon.contains x = false := by
  decide +kernel

end Learner

end Categorial
