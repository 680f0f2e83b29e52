import Categorial.Proofs.Learning.Standstill

/-!
Items that are too long to learn from. Two sessions are alike if they have learned the same,
whatever else was written down in them, and two steps are in step if they take alike sessions to
alike sessions and end in the same way. A step at one place of an epoch is in step with the same
step at another place, and a skipped item is in step with doing nothing. Main statement: a learner
learns the same with its overlong items and without them.
-/

namespace Categorial

variable {K : Type}

/-- Whether two sessions have learned the same: they have the same model and the same number of
updates, have shown the same changes, and count the same in every epoch apart from skipped items.
They have also measured the same times. -/
structure Session.Alike (s t : Session K) : Prop where
  model : s.model = t.model
  updates : s.updates = t.updates
  shown : s.shown = t.shown
  counts : ∀ c, c ≠ .skipped → ∀ epoch, s.stats.get c epoch = t.stats.get c epoch
  modelTime : s.stats.modelTime = t.stats.modelTime
  inductionTime : s.stats.inductionTime = t.stats.inductionTime

namespace Training

variable {α β : Type}

/-- Whether two steps end in the same way and leave alike sessions wherever they start from alike
ones. -/
def InStep (x y : Training K α) : Prop :=
  ∀ s t : Session K, s.Alike t → (x s).1 = (y t).1 ∧ (x s).2.Alike (y t).2

theorem inStep_pure (a : α) : InStep (pure a : Training K α) (pure a) := fun _ _ h => ⟨rfl, h⟩

theorem inStep_lift (x : Except Fault α) : InStep (lift x : Training K α) (lift x) :=
  fun _ _ h => ⟨rfl, h⟩

theorem InStep.bind {x y : Training K α} {f g : α → Training K β} (h : InStep x y)
    (hf : ∀ a, InStep (f a) (g a)) : InStep (x >>= f) (y >>= g) := by
  intro s t hst
  obtain ⟨houtcome, halike⟩ := h s t hst
  cases hx : x s with
  | mk outcome s' =>
    cases hy : y t with
    | mk outcome' t' =>
      rw [hx, hy] at houtcome halike
      obtain rfl : outcome = outcome' := houtcome
      cases outcome with
      | error fault =>
        rw [bind_run_error hx, bind_run_error hy]
        exact ⟨rfl, halike⟩
      | ok a =>
        rw [bind_run_ok hx, bind_run_ok hy]
        exact hf a s' t' halike

/-- Steps that look at the session they start from. -/
theorem inStep_session {f g : Session K → Training K α}
    (h : ∀ s t, s.Alike t → InStep (f s) (g t)) : InStep (session >>= f) (session >>= g) :=
  fun s t hst => h s t hst s t hst

theorem inStep_change {f g : Session K → Session K} (h : ∀ s t, s.Alike t → (f s).Alike (g t)) :
    InStep (change f) (change g) :=
  fun s t hst => ⟨rfl, h s t hst⟩

theorem inStep_foldlM {f g : β → α → Training K β} (h : ∀ b a, InStep (f b a) (g b a))
    (as : List α) (b : β) : InStep (as.foldlM f b) (as.foldlM g b) := by
  induction as generalizing b with
  | nil => exact inStep_pure b
  | cons a as ih =>
    rw [List.foldlM_cons, List.foldlM_cons]
    exact (h b a).bind ih

theorem inStep_forM {f g : α → Training K Unit} (h : ∀ a, InStep (f a) (g a)) (as : List α) :
    InStep (as.forM f) (as.forM g) := by
  induction as with
  | nil => exact inStep_pure _
  | cons a as ih => exact (h a).bind fun _ => ih

/-- Notes are no part of what was learned. -/
theorem inStep_note (n n' : Note) : InStep (note n : Training K Unit) (note n') :=
  fun _ _ h => ⟨rfl, h.model, h.updates, h.shown, h.counts, h.modelTime, h.inductionTime⟩

/-- Counting in the same epoch. -/
theorem inStep_count {f g : Stats K → Stats K} {epoch : Int} {c : Counter} {n : Int}
    (hf : ∀ st, (f st).counts = (st.count epoch c n).counts ∧ (f st).modelTime = st.modelTime ∧
      (f st).inductionTime = st.inductionTime)
    (hg : ∀ st, (g st).counts = (st.count epoch c n).counts ∧ (g st).modelTime = st.modelTime ∧
      (g st).inductionTime = st.inductionTime) : InStep (count f) (count g) := by
  refine inStep_change fun s t h => ?_
  obtain ⟨hcounts, hmodelTime, hinductionTime⟩ := hf s.stats
  obtain ⟨hcounts', hmodelTime', hinductionTime'⟩ := hg t.stats
  refine ⟨h.model, h.updates, h.shown, fun c' hc' e => ?_, ?_, ?_⟩
  · have hget : ∀ {st st' : Stats K}, st.counts = st'.counts → st.get c' e = st'.get c' e := by
      intro st st' heq
      rw [Stats.get, Stats.get, heq]
    rw [hget hcounts, hget hcounts', Stats.get_count, Stats.get_count, h.counts c' hc' e]
  · exact hmodelTime.trans (h.modelTime.trans hmodelTime'.symm)
  · exact hinductionTime.trans (h.inductionTime.trans hinductionTime'.symm)

theorem inStep_recordModel (timer : Timer K) (seconds : K) :
    InStep (record fun st => st.recordModelBy timer seconds)
      (record fun st => st.recordModelBy timer seconds) := by
  intro s t h
  have hrecord := congrArg (timer · seconds) h.modelTime
  exact ⟨(congrArg Prod.fst hrecord :), h.model, h.updates, h.shown, h.counts,
    (congrArg Prod.snd hrecord :), h.inductionTime⟩

theorem inStep_recordInduction (timer : Timer K) (seconds : K) :
    InStep (record fun st => st.recordInductionBy timer seconds)
      (record fun st => st.recordInductionBy timer seconds) := by
  intro s t h
  have hrecord := congrArg (timer · seconds) h.inductionTime
  exact ⟨(congrArg Prod.fst hrecord :), h.model, h.updates, h.shown, h.counts, h.modelTime,
    (congrArg Prod.snd hrecord :)⟩

end Training

/-- An event as it would be at another place. -/
def Event.relocate (place : Place) : Event K → Event K
  | epochStart epoch => .epochStart epoch
  | exampleStart _ item => .exampleStart place item
  | exampleSkipped _ reason => .exampleSkipped place reason
  | induced _ item induction => .induced place item induction
  | entryAdded _ entry linked => .entryAdded place entry linked
  | analyzed _ item analysis => .analyzed place item analysis
  | updated _ delta step => .updated place delta step
  | exampleEnd _ => .exampleEnd place
  | epochEnd epoch => .epochEnd epoch

theorem Event.change?_relocate (place : Place) (event : Event K) :
    (event.relocate place).change? = event.change? := by
  cases event <;> rfl

/-! What observers do with an event does not depend on its place. -/

namespace Observer

open Training

theorem inStep_inform (text text' : String) :
    InStep (inform text : Training K Unit) (inform text') := inStep_note _ _

theorem ends_informAll (texts : List String) (s : Session K) : (informAll texts s).1 = .ok () := by
  induction texts generalizing s with
  | nil => rfl
  | cons text texts ih => exact ih _

theorem inStep_informAll (texts texts' : List String) :
    InStep (informAll texts : Training K Unit) (informAll texts') := by
  intro s t h
  refine ⟨(ends_informAll texts s).trans (ends_informAll texts' t).symm, ?_⟩
  obtain ⟨trace, notes, hs⟩ := writes_informAll texts s
  obtain ⟨trace', notes', ht⟩ := writes_informAll texts' t
  rw [hs, ht]
  exact ⟨h.model, h.updates, h.shown, h.counts, h.modelTime, h.inductionTime⟩

variable [Scalar K]

theorem inStep_keepTrace (place : Place) (event : Event K) :
    InStep (keepTrace event) (keepTrace (event.relocate place)) := by
  have hkeep : ∀ a b : Session K → Trace K,
      InStep (Training.change fun s : Session K => { s with trace := s.trace ++ [a s] })
        (Training.change fun s : Session K => { s with trace := s.trace ++ [b s] }) :=
    fun a b => inStep_change fun s t h =>
      ⟨h.model, h.updates, h.shown, h.counts, h.modelTime, h.inductionTime⟩
  cases event with
  | exampleSkipped => exact hkeep (fun _ => _) fun _ => _
  | induced =>
    exact (inStep_lift _).bind fun _ => (inStep_lift _).bind fun _ => hkeep (fun _ => _) fun _ => _
  | entryAdded => exact hkeep (fun _ => _) fun _ => _
  | analyzed => exact (inStep_lift _).bind fun _ => hkeep (fun _ => _) fun _ => _
  | updated => exact inStep_session fun s t _ => hkeep (fun _ => _) fun _ => _
  | _ => exact inStep_pure _

theorem inStep_describe (p : Parse K) : InStep (describe p) (describe p) := by
  refine inStep_session fun s t h => ?_
  rw [h.model]
  refine (inStep_forM (fun e => ?_) p.entries).bind fun _ => ?_
  · exact (inStep_lift _).bind fun _ => inStep_inform _ _
  · exact (inStep_inform _ _).bind fun _ => (inStep_lift _).bind fun _ => inStep_inform _ _

theorem inStep_reportTeacher (verbose : Bool) (item : Item) (p : Parse K) :
    InStep (reportTeacher verbose item p) (reportTeacher verbose item p) := by
  refine (inStep_lift _).bind fun _ => (inStep_inform _ _).bind fun _ => ?_
  split
  · exact inStep_describe p
  · exact inStep_pure _

theorem inStep_reportInduction (verbose : Bool) (item : Item) (induction : Induction K) :
    InStep (reportInduction verbose item induction) (reportInduction verbose item induction) := by
  refine (inStep_inform _ _).bind fun _ => ?_
  split
  · exact inStep_inform _ _
  · exact (inStep_informAll _ _).bind fun _ => inStep_forM (inStep_reportTeacher verbose item) _

theorem inStep_report (limit : Option Number) (verbose : Bool) (place : Place) (event : Event K) :
    InStep (report limit verbose event) (report limit verbose (event.relocate place)) := by
  cases event with
  | epochStart => exact inStep_informAll _ _
  | exampleStart => exact inStep_informAll _ _
  | exampleSkipped => exact inStep_note _ _
  | induced => exact inStep_reportInduction _ _ _
  | entryAdded => exact inStep_session fun _ _ _ => inStep_inform _ _
  | analyzed =>
    refine (inStep_informAll _ _).bind fun _ => (inStep_lift _).bind fun _ => inStep_forM ?_ _
    exact fun p => (inStep_lift _).bind fun _ => (inStep_lift _).bind fun _ => inStep_inform _ _
  | updated => exact inStep_inform _ _
  | exampleEnd => exact inStep_inform _ _
  | epochEnd => exact inStep_session fun _ _ _ => inStep_inform _ _

/-- Observers end in the same way and show the same change wherever an event is. -/
theorem inStep_notify (observers : List Observer) (place : Place) (event : Event K) :
    InStep (notify observers event) (notify observers (event.relocate place)) := by
  refine inStep_forM (fun observer => ?_) observers
  cases observer with
  | tracing => exact inStep_keepTrace place event
  | recording =>
    refine inStep_change fun s t h =>
      ⟨h.model, h.updates, ?_, h.counts, h.modelTime, h.inductionTime⟩
    have hshown : s.shown ++ event.change?.toList = t.shown ++ event.change?.toList :=
      congrArg (· ++ _) h.shown
    simpa [Session.shown, List.filterMap_append, Event.change?_relocate,
      List.filterMap_cons] using hshown
  | silent => exact inStep_pure _
  | reporting limit verbose => exact inStep_report limit verbose place event

end Observer

variable [Scalar K]

namespace Learner

open Training

variable {l : Learner K} {item : Item}

/-! An item teaches the same at two places of an epoch. -/

section

variable (l : Learner K) (item : Item) (epoch i j : Nat)

theorem inStep_notify (place : Place) (event : Event K) :
    InStep (l.notify event) (l.notify (event.relocate place)) :=
  Observer.inStep_notify l.observers place event

/-- Alike sessions have the same model to parse with. -/
theorem inStep_analyze (options : ParseOptions) :
    InStep (l.analyze item options) (l.analyze item options) := by
  refine inStep_session fun s t h => ?_
  rw [h.model]
  exact fun s t h =>
    ⟨rfl, h.model, h.updates, h.shown, h.counts, h.modelTime, h.inductionTime⟩

theorem inStep_learn (linked : Bool) (e : Entry) :
    InStep (l.learn ⟨epoch, i⟩ linked e) (l.learn ⟨epoch, j⟩ linked e) := by
  intro s t h
  rw [learn_run, learn_run, h.model]
  refine (inStep_lift _).bind (fun new => ?_) _ _
    ⟨rfl, h.updates, h.shown, h.counts, h.modelTime, h.inductionTime⟩
  rw [announce, announce]
  split
  · exact (inStep_notify l ⟨epoch, j⟩ (.entryAdded ⟨epoch, i⟩ _ _)).bind fun _ => inStep_pure _
  · exact inStep_pure _

theorem inStep_learnUsed (n : Int) (u : Entry) :
    InStep (l.learnUsed ⟨epoch, i⟩ n u) (l.learnUsed ⟨epoch, j⟩ n u) := by
  rw [learnUsed, learnUsed]
  split
  · exact inStep_pure n
  · refine (inStep_learn l epoch i j false u).bind fun first => inStep_foldlM (fun k e => ?_) _ _
    exact (inStep_learn l epoch i j true e).bind fun _ => inStep_pure _

theorem inStep_induce : InStep (l.induce ⟨epoch, i⟩ item) (l.induce ⟨epoch, j⟩ item) := by
  refine (inStep_lift _).bind fun proposed => ?_
  split
  · exact inStep_notify l ⟨epoch, j⟩ (.induced ⟨epoch, i⟩ _ _)
  · refine (inStep_analyze l item _).bind fun analysis => ?_
    refine (inStep_recordInduction _ _).bind fun _ => (inStep_lift _).bind fun valid => ?_
    refine (inStep_notify l ⟨epoch, j⟩ (.induced ⟨epoch, i⟩ _ _)).bind fun _ => ?_
    refine (inStep_foldlM (inStep_learnUsed l epoch i j) _ _).bind fun new => ?_
    exact inStep_count (fun _ => ⟨rfl, rfl, rfl⟩) fun _ => ⟨rfl, rfl, rfl⟩

theorem inStep_update (parses : List (Parse K)) :
    InStep (l.update ⟨epoch, i⟩ item parses) (l.update ⟨epoch, j⟩ item parses) := by
  rw [update, update]
  cases l.perceptron with
  | none => exact inStep_lift _
  | some p =>
    refine inStep_session fun s t h => ?_
    rw [h.model, h.updates]
    refine (inStep_lift _).bind fun direction => ?_
    cases direction with
    | none => exact inStep_pure _
    | some delta =>
      refine (inStep_lift _).bind fun step => InStep.bind ?_ fun _ => InStep.bind ?_ fun _ =>
        InStep.bind ?_ fun _ => inStep_notify l ⟨epoch, j⟩ (.updated ⟨epoch, i⟩ _ _)
      · exact inStep_change fun s t h =>
          ⟨by rw [h.model], h.updates, h.shown, h.counts, h.modelTime, h.inductionTime⟩
      · exact inStep_change fun s t h =>
          ⟨h.model, by rw [h.updates], h.shown, h.counts, h.modelTime, h.inductionTime⟩
      · exact inStep_count (fun _ => ⟨rfl, rfl, rfl⟩) fun _ => ⟨rfl, rfl, rfl⟩

theorem inStep_trainItem : InStep (l.trainItem ⟨epoch, i⟩ item) (l.trainItem ⟨epoch, j⟩ item) := by
  rw [trainItem_eq, trainItem_eq]
  refine (inStep_notify l ⟨epoch, j⟩ (.exampleStart ⟨epoch, i⟩ item)).bind fun _ => ?_
  split
  · refine InStep.bind (inStep_count (fun _ => ⟨rfl, rfl, rfl⟩) fun _ => ⟨rfl, rfl, rfl⟩)
      fun _ => inStep_notify l ⟨epoch, j⟩ (.exampleSkipped ⟨epoch, i⟩ _)
  · refine InStep.bind ?_ fun _ => (inStep_analyze l item _).bind fun analysis => ?_
    · split
      · exact inStep_induce l item epoch i j
      · exact inStep_pure _
    · refine (inStep_recordModel _ _).bind fun _ => ?_
      refine (inStep_notify l ⟨epoch, j⟩ (.analyzed ⟨epoch, i⟩ _ _)).bind fun _ => ?_
      refine (inStep_update l item epoch i j _).bind fun _ => ?_
      refine InStep.bind (inStep_count (fun _ => ⟨rfl, rfl, rfl⟩) fun _ => ⟨rfl, rfl, rfl⟩)
        fun _ => inStep_notify l ⟨epoch, j⟩ (.exampleEnd ⟨epoch, i⟩)

end

/-! A skipped item teaches nothing. -/

/-- Whether an item is too long to learn from. -/
def skips (l : Learner K) (item : Item) : Bool := l.config.maxTokens.lt (.int item.tokens.length)

/-- The learner without its overlong items. -/
def withoutOverlong (l : Learner K) : Learner K :=
  { l with items := l.items.filter fun item => !l.skips item }

/-- Showing an event that reports no change, and that no observer fails on, is in step with doing
nothing. -/
theorem inStep_notify_pure (l : Learner K) {event : Event K} (hchange : event.change? = none)
    (hends : ∀ (observer : Observer) (s : Session K), (observer.watch event s).1 = .ok ()) :
    InStep (l.notify event) (pure ()) := by
  have hnotify : ∀ (observers : List Observer) (s : Session K),
      (Observer.notify observers event s).1 = .ok () := by
    intro observers
    induction observers with
    | nil => exact fun _ => rfl
    | cons observer observers ih =>
      intro s
      have hrun : observer.watch event s = (.ok (), (observer.watch event s).2) :=
        Prod.ext (hends observer s) rfl
      exact (congrArg Prod.fst (bind_run_ok hrun)).trans (ih _)
  intro s t h
  obtain ⟨hmodel, hstats, hupdates⟩ := observes_notify l event s
  have hshown := (restsAt_notify l hchange s rfl).shown
  refine ⟨hnotify l.observers s, ?_⟩
  exact ⟨hmodel.trans h.model, hupdates.trans h.updates, hshown.trans h.shown,
    hstats ▸ h.counts, hstats ▸ h.modelTime, hstats ▸ h.inductionTime⟩

/-- A skipped item is in step with doing nothing. -/
theorem inStep_skip (hskips : l.skips item = true) (place : Place) :
    InStep (l.trainItem place item) (pure ()) := by
  have hcount : InStep (count fun st : Stats K => st.count place.epoch .skipped 1) (pure ()) := by
    refine fun s t h =>
      ⟨rfl, h.model, h.updates, h.shown, fun c hc epoch => ?_, h.modelTime, h.inductionTime⟩
    refine (Stats.get_count ..).trans ?_
    rw [if_neg fun hskipped => hc hskipped.2, Int.add_zero]
    exact h.counts c hc epoch
  have hstart : InStep (l.notify (.exampleStart place item)) (pure ()) :=
    inStep_notify_pure l rfl fun observer s => by
      cases observer with
      | reporting => exact Observer.ends_informAll _ s
      | _ => rfl
  have hskipped : ∀ reason, InStep (l.notify (.exampleSkipped place reason)) (pure ()) :=
    fun reason => inStep_notify_pure l rfl fun observer s => by cases observer <;> rfl
  rw [skips] at hskips
  rw [trainItem_eq, if_pos hskips]
  exact hstart.bind (g := fun _ => pure ()) fun _ =>
    hcount.bind (g := fun _ => pure ()) fun _ => hskipped _

/-- The items of an epoch are in step with those of them that are not skipped, wherever these are
numbered. -/
theorem inStep_trainItems (l : Learner K) (epoch : Nat) {xs ys : List (Item × Nat)}
    (h : ys.map Prod.fst = (xs.map Prod.fst).filter fun item => !l.skips item) :
    InStep (xs.forM fun x => l.trainItem ⟨epoch, x.2⟩ x.1)
      (ys.forM fun x => l.trainItem ⟨epoch, x.2⟩ x.1) := by
  induction xs generalizing ys with
  | nil =>
    obtain rfl : ys = [] := List.map_eq_nil_iff.1 h
    exact inStep_pure _
  | cons x xs ih =>
    cases hskips : l.skips x.1 with
    | true =>
      rw [List.map_cons, List.filter_cons_of_neg (by simp [hskips])] at h
      exact (inStep_skip hskips ⟨epoch, x.2⟩).bind fun _ => ih h
    | false =>
      rw [List.map_cons, List.filter_cons_of_pos (by simp [hskips])] at h
      obtain ⟨y, ys, rfl, hy, hys⟩ := List.map_eq_cons_iff.1 h
      obtain ⟨item, i⟩ := x
      obtain ⟨item', j⟩ := y
      obtain rfl : item' = item := hy
      exact (inStep_trainItem l item' epoch i j).bind fun _ => ih hys

theorem inStep_trainEpoch (l : Learner K) (epoch : Nat) :
    InStep (l.trainEpoch epoch) (l.withoutOverlong.trainEpoch epoch) := by
  have hitems : l.withoutOverlong.items.zipIdx.map Prod.fst =
      (l.items.zipIdx.map Prod.fst).filter fun item => !l.skips item := by
    rw [List.zipIdx_map_fst, List.zipIdx_map_fst]
    rfl
  refine (inStep_notify l ⟨epoch, 0⟩ (.epochStart epoch)).bind fun _ => ?_
  exact (inStep_trainItems l epoch hitems).bind fun _ =>
    inStep_notify l ⟨epoch, 0⟩ (.epochEnd epoch)

theorem alike_start (l : Learner K) (m : Model K) :
    (l.start m).Alike (l.withoutOverlong.start m) :=
  ⟨rfl, rfl, rfl, fun _ _ _ => rfl, rfl, rfl⟩

/-- From any model, a learner with overlong items and one without them end in the same way, and with
the same entries, weights and number of updates. Both add the same entries and make the same moves
of the weights, in the same order, as observers that keep events see it, and both count the same in
every epoch, apart from the items that are skipped. -/
theorem overlong_invisible (l : Learner K) (m : Model K) :
    (l.train (l.start m)).1 = (l.withoutOverlong.train (l.withoutOverlong.start m)).1 ∧
      (l.train (l.start m)).2.Alike (l.withoutOverlong.train (l.withoutOverlong.start m)).2 := by
  have hruns : InStep l.train l.withoutOverlong.train :=
    (inStep_lift _).bind fun epochs => inStep_forM (inStep_trainEpoch l) _
  exact hruns _ _ (alike_start l m)

end Learner

end Categorial
