import Categorial.Proofs.Learning.Updates

/-!
Epochs in which nothing is learned. An item from which nothing is learned finds all that its best
valid parses teach in the lexicon, and no direction to move the weights in. Both depend on the model
alone, so the item teaches nothing as long as the model stays, whatever happens to the statistics
and to the observers. Main statement: after an epoch that adds no entry and makes no update, no
later one does, and the model stays as it is.
-/

namespace Categorial

variable {K : Type}

namespace Session

/-- The changes of the model that the kept events show. -/
def shown (s : Session K) : List (Change K) := s.events.filterMap Event.change?

/-- Whether nothing was learned from a session to another one: the model and the number of updates
stayed, neither entries nor updates were counted for any epoch, and no change was shown. -/
structure Rests (s s' : Session K) : Prop where
  model : s'.model = s.model
  updates : s'.updates = s.updates
  newEntries : ∀ epoch, s'.stats.get .newEntries epoch = s.stats.get .newEntries epoch
  updateCount : ∀ epoch, s'.stats.get .updates epoch = s.stats.get .updates epoch
  shown : s'.shown = s.shown

variable {s s' s'' : Session K}

theorem rests_refl (s : Session K) : s.Rests s := ⟨rfl, rfl, fun _ => rfl, fun _ => rfl, rfl⟩

theorem Rests.trans (h : s.Rests s') (h' : s'.Rests s'') : s.Rests s'' where
  model := h'.model.trans h.model
  updates := h'.updates.trans h.updates
  newEntries epoch := (h'.newEntries epoch).trans (h.newEntries epoch)
  updateCount epoch := (h'.updateCount epoch).trans (h.updateCount epoch)
  shown := h'.shown.trans h.shown

/-- Whether learning went on from a session to another one: the lexicon did not shrink, and the
number of updates did not fall. -/
structure Advances (s s' : Session K) : Prop where
  size : s.model.lexicon.size ≤ s'.model.lexicon.size
  updates : s.updates ≤ s'.updates

/-- Whether no entry was added and no update made from a session to another one. -/
structure Stands (s s' : Session K) : Prop where
  size : s'.model.lexicon.size = s.model.lexicon.size
  updates : s'.updates = s.updates

/-- Steps that learn nothing go on. -/
theorem advances_of_learned (h : s'.learned = s.learned) : s.Advances s' := by
  obtain ⟨hmodel, hupdates⟩ := Prod.mk.inj h
  exact ⟨by rw [hmodel], hupdates.ge⟩

theorem Advances.trans (h : s.Advances s') (h' : s'.Advances s'') : s.Advances s'' :=
  ⟨h.size.trans h'.size, h.updates.trans h'.updates⟩

/-- Where learning went on and came to nothing in the end, it came to nothing on the way. -/
theorem Stands.split (h : s.Stands s'') (hfirst : s.Advances s') (hrest : s'.Advances s'') :
    s.Stands s' ∧ s'.Stands s'' := by
  obtain ⟨hsize, hupdates⟩ := h
  obtain ⟨hsize₁, hupdates₁⟩ := hfirst
  obtain ⟨hsize₂, hupdates₂⟩ := hrest
  exact ⟨⟨by omega, by omega⟩, ⟨by omega, by omega⟩⟩

end Session

namespace Training

variable {α β : Type} {m : Model K}

/-- Whether a step learns nothing from any session with a given model, also where it fails. -/
def RestsAt (m : Model K) (x : Training K α) : Prop :=
  ∀ s : Session K, s.model = m → s.Rests (x s).2

theorem learned_of_run {x : Training K α} (hx : x.Keeps) {s t : Session K}
    {outcome : Except Fault α} (h : x s = (outcome, t)) : t.learned = s.learned := by
  have hkeep := hx.learned s
  rwa [h] at hkeep

theorem restsAt_pure (a : α) : (pure a : Training K α).RestsAt m := fun s _ => s.rests_refl

theorem restsAt_lift (x : Except Fault α) : (lift x : Training K α).RestsAt m :=
  fun s _ => s.rests_refl

/-- Of two steps that learn nothing the second one starts from the same model. -/
theorem RestsAt.bind {x : Training K α} {f : α → Training K β} (hx : x.RestsAt m)
    (hf : ∀ s a t, s.model = m → x s = (.ok a, t) → (f a).RestsAt m) : (x >>= f).RestsAt m := by
  intro s hs
  have hfirst := hx s hs
  cases hrun : x s with
  | mk outcome t =>
    rw [hrun] at hfirst
    cases outcome with
    | error fault =>
      rw [bind_run_error hrun]
      exact hfirst
    | ok a =>
      rw [bind_run_ok hrun]
      exact hfirst.trans (hf s a t hs hrun t (hfirst.model.trans hs))

theorem restsAt_foldlM {f : β → α → Training K β} {as : List α}
    (hf : ∀ b, ∀ a ∈ as, (f b a).RestsAt m) (b : β) : (as.foldlM f b).RestsAt m := by
  induction as generalizing b with
  | nil => exact restsAt_pure b
  | cons a as ih =>
    rw [List.foldlM_cons]
    exact (hf b a List.mem_cons_self).bind fun _ b' _ _ _ =>
      ih (fun b a ha => hf b a (List.mem_cons_of_mem _ ha)) b'

theorem restsAt_forM {f : α → Training K Unit} {as : List α} (hf : ∀ a ∈ as, (f a).RestsAt m) :
    (as.forM f).RestsAt m := by
  induction as with
  | nil => exact restsAt_pure _
  | cons a as ih =>
    exact (hf a List.mem_cons_self).bind fun _ _ _ _ _ =>
      ih fun b hb => hf b (List.mem_cons_of_mem _ hb)

/-- Statistics that do not concern entries and updates. -/
theorem restsAt_record {f : Stats K → Except Fault Unit × Stats K}
    (hf : ∀ st, (f st).2.counts = st.counts) : (record f).RestsAt m := by
  intro s _
  have hcounts : (record f s).2.stats.counts = s.stats.counts := hf s.stats
  refine ⟨rfl, rfl, fun epoch => ?_, fun epoch => ?_, rfl⟩ <;>
    rw [Stats.get, Stats.get, hcounts]

theorem restsAt_count {epoch : Int} {c : Counter} {n : Int} (h : c ≠ .newEntries)
    (h' : c ≠ .updates) : (count fun st : Stats K => st.count epoch c n).RestsAt m := by
  intro s _
  refine ⟨rfl, rfl, fun e => ?_, fun e => ?_, rfl⟩
  · exact (Stats.get_count ..).trans (by simp [h.symm])
  · exact (Stats.get_count ..).trans (by simp [h'.symm])

theorem forM_append_run (f : α → Training K Unit) (as bs : List α) (s : Session K) :
    (as ++ bs).forM f s = (as.forM f >>= fun _ => bs.forM f) s := by
  induction as generalizing s with
  | nil => rfl
  | cons a as ih =>
    have happend : ((a :: as) ++ bs).forM f = f a >>= fun _ => (as ++ bs).forM f := rfl
    have hcons : (a :: as).forM f = f a >>= fun _ => as.forM f := rfl
    rw [happend, hcons]
    cases hrun : f a s with
    | mk outcome t =>
      cases outcome with
      | error fault => rw [bind_run_error hrun, bind_run_error (bind_run_error hrun)]
      | ok u =>
        rw [bind_run_ok hrun, ih]
        simp [bind, hrun]

theorem forM_range_succ {f : Nat → Training K Unit} {n : Nat} {s t : Session K} :
    (List.range (n + 1)).forM f s = (.ok (), t) ↔
      ∃ r, (List.range n).forM f s = (.ok (), r) ∧ f n r = (.ok (), t) := by
  have hlast : ∀ r, [n].forM f r = f n r := fun r => by
    have hcons : [n].forM f r = (f n >>= fun u => pure u) r := rfl
    rw [hcons]
    cases hrun : f n r with
    | mk outcome t =>
      cases outcome with
      | error fault => exact bind_run_error hrun
      | ok u => exact bind_run_ok hrun
  rw [List.range_succ, forM_append_run, bind_run_eq_ok]
  simp only [hlast]
  constructor
  · rintro ⟨_, r, h⟩
    exact ⟨r, h⟩
  · rintro ⟨r, h⟩
    exact ⟨(), r, h⟩

end Training

/-! An item that has nothing left to teach. -/

variable [Scalar K]

namespace Learner

open Training

variable {l : Learner K} {m : Model K} {place : Place} {item : Item} {s s' : Session K}

/-- Whether a model has all that the best valid parses of an item teach. -/
def Knows (l : Learner K) (m : Model K) (item : Item) : Prop :=
  ∀ proposed valid, item.generate = .ok proposed → l.validParses m item proposed = .ok valid →
    ∀ u ∈ (Parse.top valid).flatMap Parse.entries, ∀ e ∈ u.lessons, m.lexicon.contains e = true

/-- Whether the parses of an item give no direction to move the weights of a model in. -/
def Agrees (l : Learner K) (m : Model K) (item : Item) : Prop :=
  ∀ analysis p delta, (l.analyzer.analyze m item.tokens item.state .plain).result = .ok analysis →
    l.perceptron = some p → p.direction? m item analysis.parses ≠ .ok (some delta)

/-- Whether an item teaches a model nothing: it is too long, or all that it teaches is known and
its parses move no weights. -/
def Spent (l : Learner K) (m : Model K) (item : Item) : Prop :=
  l.config.maxTokens.lt (.int item.tokens.length) = false →
    (l.config.learnsEntries = true → l.Knows m item) ∧ l.Agrees m item

/-- An event that reports no change. -/
theorem restsAt_notify (l : Learner K) {event : Event K} (h : event.change? = none) :
    (l.notify event).RestsAt m := by
  intro s _
  obtain ⟨hmodel, hstats, hupdates⟩ := observes_notify l event s
  obtain ⟨n, -, hevents, -⟩ := Observer.events_notify l.observers event s
  have hrun : Observer.notify l.observers event s = l.notify event s := rfl
  refine ⟨hmodel, hupdates, fun _ => by rw [hstats], fun _ => by rw [hstats], ?_⟩
  rw [Session.shown, Session.shown, ← hrun, hevents, List.filterMap_append,
    List.filterMap_replicate_of_none h, List.append_nil]

theorem restsAt_analyze (l : Learner K) (item : Item) (options : ParseOptions) :
    (l.analyze item options).RestsAt m :=
  fun _ _ => ⟨rfl, rfl, fun _ => rfl, fun _ => rfl, rfl⟩

/-- Learning an entry that is known changes nothing. -/
theorem restsAt_learn (linked : Bool) {e : Entry}
    (h : m.lexicon.contains (e.withOrigin .learned) = true) :
    (l.learn place linked e).RestsAt m := by
  rintro s rfl
  rw [learn_run, Model.addEntry_of_contains h]
  exact s.rests_refl

theorem restsAt_learnUsed (n : Int) {u : Entry}
    (h : ∀ e ∈ u.lessons, m.lexicon.contains e = true) : (l.learnUsed place n u).RestsAt m := by
  rw [learnUsed]
  split
  · exact restsAt_pure n
  · rename_i hteaches
    rw [Entry.lessons, if_neg hteaches] at h
    have hknown : ∀ e ∈ u :: u.linked, m.lexicon.contains (e.withOrigin .learned) = true :=
      fun e he => h _ (List.mem_map_of_mem he)
    refine (restsAt_learn false (hknown u List.mem_cons_self)).bind fun _ first _ _ _ =>
      restsAt_foldlM (fun k e he => ?_) _
    exact (restsAt_learn true (hknown e (List.mem_cons_of_mem u he))).bind fun _ _ _ _ _ =>
      restsAt_pure _

/-- A look for entries learns nothing where all is known. -/
theorem restsAt_induce (place : Place) (h : l.Knows m item) :
    (l.induce place item).RestsAt m := by
  refine (restsAt_lift _).bind fun _ proposed _ _ hproposed => ?_
  have hgenerate : item.generate = .ok proposed := (Prod.mk.inj hproposed).1
  split
  · exact restsAt_notify l rfl
  · rename_i hsize
    refine (restsAt_analyze l item _).bind fun s₁ analysis _ hs₁ hanalysis => ?_
    refine (restsAt_record fun _ => rfl).bind fun _ _ _ _ _ => ?_
    refine (restsAt_lift _).bind fun _ valid _ _ hlift => ?_
    have hvalid : l.validParses m item proposed = .ok valid := by
      rw [validParses, if_neg hsize, ← hs₁, analyze_eq_ok (congrArg Prod.fst hanalysis)]
      exact (Prod.mk.inj hlift).1
    have hknown := h proposed valid hgenerate hvalid
    refine (restsAt_notify l rfl).bind fun _ _ _ _ _ => ?_
    have hlearn := restsAt_foldlM (f := l.learnUsed place) (fun n u hu =>
      restsAt_learnUsed n (hknown u hu)) 0
    refine hlearn.bind fun s₂ new s₃ hs₂ hnew => ?_
    -- the entries that were learned are counted, and there are none
    have hgrowth := hlearn s₂ hs₂
    rw [hnew] at hgrowth
    obtain ⟨k, hk, htaught⟩ := taught_of_foldlM hnew
    have hsize := htaught.size
    rw [hgrowth.model] at hsize
    obtain rfl : new = 0 := by omega
    intro s _
    refine ⟨rfl, rfl, fun e => ?_, fun e => ?_, rfl⟩ <;>
      exact (Stats.get_count ..).trans (by simp)

theorem restsAt_update (parses : List (Parse K)) (h : ∀ p delta, l.perceptron = some p →
    p.direction? m item parses ≠ .ok (some delta)) : (l.update place item parses).RestsAt m := by
  rintro s rfl
  cases hp : l.perceptron with
  | none =>
    rw [update, hp]
    exact s.rests_refl
  | some p =>
    have hnone := h p
    rw [update_run hp]
    split
    · exact s.rests_refl
    · rename_i delta _ hdirection _
      exact absurd hdirection (hnone delta hp)
    · exact s.rests_refl
    · exact s.rests_refl

theorem restsAt_practise (h : l.Agrees m item) : (l.practise place item).RestsAt m := by
  refine (restsAt_analyze l item _).bind fun s analysis _ hs hanalysis => ?_
  refine (restsAt_record fun _ => rfl).bind fun _ _ _ _ _ => ?_
  refine (restsAt_notify l rfl).bind fun _ _ _ _ _ => ?_
  refine (restsAt_update _ fun p delta => ?_).bind fun _ _ _ _ _ => ?_
  · exact h analysis p delta (hs ▸ analyze_eq_ok (congrArg Prod.fst hanalysis))
  · exact (restsAt_count (by decide) (by decide)).bind fun _ _ _ _ _ => restsAt_notify l rfl

/-- Nothing is learned from an item that has nothing left to teach. -/
theorem Spent.restsAt (h : l.Spent m item) (place : Place) :
    (l.trainItem place item).RestsAt m := by
  rw [trainItem_eq]
  refine (restsAt_notify l rfl).bind fun _ _ _ _ _ => ?_
  split
  · exact (restsAt_count (by decide) (by decide)).bind fun _ _ _ _ _ => restsAt_notify l rfl
  · rename_i hshort
    obtain ⟨hknows, hagrees⟩ := h (Bool.not_eq_true _ ▸ hshort)
    refine RestsAt.bind ?_ fun _ _ _ _ _ => restsAt_practise hagrees
    split
    · rename_i hlearns
      exact restsAt_induce place (hknows hlearns)
    · exact restsAt_pure _

theorem restsAt_trainEpoch (h : ∀ item ∈ l.items, l.Spent m item) (epoch : Nat) :
    (l.trainEpoch epoch).RestsAt m := by
  refine (restsAt_notify l rfl).bind fun _ _ _ _ _ => RestsAt.bind (restsAt_forM ?_)
    fun _ _ _ _ _ => restsAt_notify l rfl
  rintro ⟨item, index⟩ hitem
  exact (h item (List.fst_mem_of_mem_zipIdx hitem)).restsAt ⟨epoch, index⟩

/-! An item that ends without learning anything has nothing left to teach. -/

theorem advances_update {parses : List (Parse K)}
    (h : l.update place item parses s = (.ok (), s')) : s.Advances s' ∧ (s.Stands s' →
      ∀ p delta, l.perceptron = some p → p.direction? s.model item parses ≠ .ok (some delta)) := by
  cases hp : l.perceptron with
  | none =>
    rw [update, hp] at h
    cases h
  | some p =>
    rw [update_run hp] at h
    split at h
    · rename_i hdirection
      obtain ⟨-, rfl⟩ := Prod.mk.inj h
      refine ⟨Session.advances_of_learned rfl, ?_⟩
      rintro - _ delta ⟨⟩ hsome
      rw [hdirection] at hsome
      cases hsome
    · rename_i delta step _ _
      have hobserves := observes_notify l (.updated place delta step) { s with
        model := s.model.change (.moved step delta)
        updates := s.updates + 1
        stats := s.stats.count place.epoch .updates 1 }
      rw [h] at hobserves
      obtain ⟨hmodel, -, hupdates⟩ := hobserves
      have hmoved : s'.updates = s.updates + 1 := hupdates
      refine ⟨⟨?_, by omega⟩, fun hstands => ?_⟩
      · rw [hmodel]
        exact Nat.le_refl _
      · have := hstands.updates
        omega
    · cases h
    · cases h

theorem advances_practise (h : l.practise place item s = (.ok (), s')) :
    s.Advances s' ∧ (s.Stands s' → l.Agrees s.model item) := by
  obtain ⟨analysis, s₁, hanalysis, h⟩ := bind_run_eq_ok.1 h
  obtain ⟨_, s₂, hrecord, h⟩ := bind_run_eq_ok.1 h
  obtain ⟨_, s₃, hnotify, h⟩ := bind_run_eq_ok.1 h
  obtain ⟨_, s₄, hupdate, hend⟩ := bind_run_eq_ok.1 h
  have hparsed := analyze_eq_ok (congrArg Prod.fst hanalysis)
  have hfirst : s₃.learned = s.learned := by
    rw [learned_of_run (keeps_notify l _) hnotify, learned_of_run (keeps_record _) hrecord,
      learned_of_run (keeps_analyze l _ _) hanalysis]
  have hlast : s'.learned = s₄.learned :=
    learned_of_run ((keeps_count _).bind fun _ => keeps_notify l _) hend
  obtain ⟨hadvances, hmoves⟩ := advances_update hupdate
  rw [(Prod.mk.inj hfirst).1] at hmoves
  have hfirst := Session.advances_of_learned hfirst
  have hrest := hadvances.trans (Session.advances_of_learned hlast)
  refine ⟨hfirst.trans hrest, fun hstands analysis' p delta hanalysis' hp => ?_⟩
  obtain rfl := Except.ok.inj (hparsed.symm.trans hanalysis')
  have hstands := (hstands.split hfirst hrest).2
  exact hmoves (hstands.split hadvances (Session.advances_of_learned hlast)).1 p delta hp

theorem advances_induce (h : l.induce place item s = (.ok (), s')) :
    s.Advances s' ∧ (s.Stands s' → l.Knows s.model item) := by
  -- moves are counted, whatever their step sizes are
  obtain ⟨changes, hleads⟩ := l.logs_induce (p := ⟨0, 0, 0⟩) place item s
  rw [h] at hleads
  have hupdates : s'.updates = s.updates + (Change.moves changes).length := hleads.updates
  obtain ⟨proposed, valid, hgenerate, hvalid, hcases⟩ := induce_eq_ok h
  have hknows : (∀ e ∈ ((Parse.top valid).flatMap Parse.entries).flatMap Entry.lessons,
      s.model.lexicon.contains e = true) → l.Knows s.model item := by
    intro hall proposed' valid' hgenerate' hvalid' u hu e he
    obtain rfl := Except.ok.inj (hgenerate.symm.trans hgenerate')
    obtain rfl := Except.ok.inj (hvalid.symm.trans hvalid')
    exact hall e (List.mem_flatMap.2 ⟨u, hu, he⟩)
  rcases hcases with ⟨-, rfl, hmodel, -⟩ | ⟨-, n, t, t', ht, -, htaught, hmodel, -⟩
  · exact ⟨⟨by rw [hmodel], by omega⟩, fun _ => hknows (by simp [Parse.top])⟩
  · have hlexicon := Model.lexicon_addEntries htaught.model
    rw [ht, ← hmodel] at hlexicon
    refine ⟨⟨?_, by omega⟩, fun hstands => hknows ?_⟩
    · rw [hlexicon]
      exact Lexicon.size_le_foldl_insert _ _
    · exact Lexicon.contains_of_size_foldl_insert (hlexicon ▸ hstands.size)

/-- An item that ends and taught nothing has nothing to teach. -/
theorem advances_trainItem (h : l.trainItem place item s = (.ok (), s')) :
    s.Advances s' ∧ (s.Stands s' → l.Spent s.model item) := by
  rw [trainItem_eq] at h
  obtain ⟨_, s₁, hstart, h⟩ := bind_run_eq_ok.1 h
  have hstarted := learned_of_run (keeps_notify l _) hstart
  have hadvances := Session.advances_of_learned hstarted
  split at h
  · rename_i hlong
    have hskipped := learned_of_run ((keeps_count _).bind fun _ => keeps_notify l _) h
    refine ⟨hadvances.trans (Session.advances_of_learned hskipped), fun _ hshort => ?_⟩
    rw [hlong] at hshort
    cases hshort
  · obtain ⟨_, s₂, hlook, hpractise⟩ := bind_run_eq_ok.1 h
    obtain ⟨hpractised, hagrees⟩ := advances_practise hpractise
    have hlooked : s₁.Advances s₂ ∧ (s₁.Stands s₂ → s₂.model = s₁.model ∧
        (l.config.learnsEntries = true → l.Knows s₁.model item)) := by
      split at hlook
      · obtain ⟨hadvances, hknows⟩ := advances_induce hlook
        refine ⟨hadvances, fun hstands => ⟨?_, fun _ => hknows hstands⟩⟩
        have hrests := restsAt_induce place (hknows hstands) s₁ rfl
        rw [hlook] at hrests
        exact hrests.model
      · rename_i hlearns
        obtain ⟨-, rfl⟩ := Prod.mk.inj hlook
        exact ⟨Session.advances_of_learned rfl, fun _ => ⟨rfl, fun h => absurd h hlearns⟩⟩
    have hrest := hlooked.1.trans hpractised
    refine ⟨hadvances.trans hrest, fun hstands _ => ?_⟩
    obtain ⟨hstands₁, hstands₂⟩ := (hstands.split hadvances hrest).2.split hlooked.1 hpractised
    obtain ⟨hmodel, hknows⟩ := hlooked.2 hstands₁
    have hagrees := hagrees hstands₂
    rw [hmodel, (Prod.mk.inj hstarted).1] at hagrees
    rw [(Prod.mk.inj hstarted).1] at hknows
    exact ⟨hknows, hagrees⟩

theorem advances_trainItems {epoch : Nat} {xs : List (Item × Nat)}
    (h : xs.forM (fun x => l.trainItem ⟨epoch, x.2⟩ x.1) s = (.ok (), s')) :
    s.Advances s' ∧ (s.Stands s' → ∀ x ∈ xs, l.Spent s.model x.1) := by
  induction xs generalizing s with
  | nil =>
    obtain ⟨-, rfl⟩ := Prod.mk.inj h
    exact ⟨Session.advances_of_learned rfl, by simp⟩
  | cons x xs ih =>
    obtain ⟨_, s₁, hrun, hrest⟩ := bind_run_eq_ok.1 h
    have hfirst : l.trainItem ⟨epoch, x.2⟩ x.1 s = (.ok (), s₁) := hrun
    obtain ⟨hadvances, hspent⟩ := advances_trainItem hfirst
    obtain ⟨hadvances', hspent'⟩ := ih hrest
    refine ⟨hadvances.trans hadvances', fun hstands => ?_⟩
    obtain ⟨hstands₁, hstands₂⟩ := hstands.split hadvances hadvances'
    have hrests : s.Rests s₁ := by
      have hitemRests := (hspent hstands₁).restsAt ⟨epoch, x.2⟩ s rfl
      rwa [hfirst] at hitemRests
    have hothers := hspent' hstands₂
    rw [hrests.model] at hothers
    exact List.forall_mem_cons.2 ⟨hspent hstands₁, hothers⟩

/-- After an epoch that ends and in which nothing was learned, no item has anything to teach. -/
theorem spent_of_trainEpoch {epoch : Nat} (h : l.trainEpoch epoch s = (.ok (), s'))
    (hstands : s.Stands s') : ∀ item ∈ l.items, l.Spent s.model item := by
  obtain ⟨_, s₁, hstart, h⟩ := bind_run_eq_ok.1 h
  obtain ⟨_, s₂, hitems, hend⟩ := bind_run_eq_ok.1 h
  have hstarted := learned_of_run (keeps_notify l _) hstart
  have hadvances := Session.advances_of_learned hstarted
  have hended := Session.advances_of_learned (learned_of_run (keeps_notify l _) hend)
  obtain ⟨hadvances', hspent⟩ := advances_trainItems hitems
  have hstands := (hstands.split hadvances (hadvances'.trans hended)).2.split hadvances' hended
  intro item hitem
  obtain ⟨index, hindex⟩ := List.mem_iff_getElem?.1 hitem
  have hmem : (item, index) ∈ l.items.zipIdx := List.mem_zipIdx_iff_getElem?.2 hindex
  have hitem := hspent hstands.1 _ hmem
  rwa [(Prod.mk.inj hstarted).1] at hitem

/-- If an epoch of a run ends and in it no entry was added and no update made, then neither this
epoch nor any later one of the run changes the model or the number of updates, counts an entry or an
update, or shows a change, not even if it is stopped by a fault. -/
theorem idle_epoch_lasts {s₀ r : Session K} {epochs : Int} {e : Nat}
    (hepochs : l.config.epochs.whole = .ok epochs) (he : e < epochs.toNat)
    (hbefore : (List.range e).forM l.trainEpoch s₀ = (.ok (), r))
    (hepoch : l.trainEpoch e r = (.ok (), s))
    (hentries : s.model.lexicon.size = r.model.lexicon.size) (hupdates : s.updates = r.updates) :
    r.Rests s ∧ (∀ n, e < n → s.Rests ((List.range n).forM l.trainEpoch s₀).2) ∧
      s.Rests (l.train s₀).2 := by
  have hspent := spent_of_trainEpoch hepoch ⟨hentries, hupdates⟩
  have hrests : r.Rests s := by
    have hepochRests := restsAt_trainEpoch hspent e r rfl
    rwa [hepoch] at hepochRests
  have hupTo := forM_range_succ.2 ⟨r, hbefore, hepoch⟩
  have hlater : ∀ n, e < n → s.Rests ((List.range n).forM l.trainEpoch s₀).2 := by
    intro n hn
    obtain ⟨k, rfl⟩ := Nat.exists_eq_add_of_le (Nat.succ_le_of_lt hn)
    rw [List.range_add, forM_append_run, bind_run_ok hupTo]
    exact restsAt_forM (fun epoch _ => restsAt_trainEpoch hspent epoch) s hrests.model
  refine ⟨hrests, hlater, ?_⟩
  have hrun : l.train s₀ = (List.range epochs.toNat).forM l.trainEpoch s₀ := by
    rw [train, hepochs]
    exact bind_run_ok (lift_run ..)
  rw [hrun]
  exact hlater _ he

/-- A learner of a sentence with linked entries, which is content when the right parse is ahead. -/
def contentLearner : Learner Rat :=
  { linkedLearner with
    config := ⟨.int 3, .int 10, .int 10, true⟩
    perceptron := some ⟨1, 0, 0⟩ }

/-- What some epochs of this learner leave. -/
def contentRun (epochs : Nat) : Except Fault Unit × Session Rat :=
  (List.range epochs).forM contentLearner.trainEpoch linkedStart

/-- The first epoch adds the entries and makes an update, the second one learns nothing, and so does
the last one. -/
theorem idle_epoch_lasts_content : ∃ s, contentRun 2 = (.ok (), s) ∧ s.updates = 1 ∧
    s.model.lexicon.size = 2 ∧ s.Rests (contentLearner.train linkedStart).2 := by
  have hrun : (contentRun 2).1.toOption = some () := by decide +kernel
  have hlearned : ∀ n ∈ [1, 2],
      (contentRun n).2.model.lexicon.size = 2 ∧ (contentRun n).2.updates = 1 := by decide +kernel
  cases hs : contentRun 2 with
  | mk outcome s =>
    rw [hs] at hrun
    cases outcome with
    | error fault => cases hrun
    | ok u =>
      obtain ⟨r, hr, hepoch⟩ := forM_range_succ.1 hs
      obtain ⟨hsize, hupdates⟩ := hlearned 2 (by decide)
      obtain ⟨hsize', hupdates'⟩ := hlearned 1 (by decide)
      rw [hs] at hsize hupdates
      rw [contentRun, hr] at hsize' hupdates'
      obtain ⟨-, -, hrests⟩ := idle_epoch_lasts (l := contentLearner) rfl
        (by decide) hr hepoch (hsize.trans hsize'.symm) (hupdates.trans hupdates'.symm)
      exact ⟨s, rfl, hupdates, hsize, hrests⟩

end Learner

end Categorial
