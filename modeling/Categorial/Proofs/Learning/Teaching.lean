import Categorial.Proofs.Learning.Visits
import Categorial.Proofs.Model.Addition

/-!
What a learner learns from the parses of an item. An entry that a parse uses teaches itself and the
entries linked to it, unless it skips tokens. A learner that is stopped on the way has learned a
part of this, and nothing else has changed. Main statement: after a look for entries the model has
just its old entries and those that the best valid parses teach, and their number is counted.
-/

namespace Categorial

/-- The entries that are learned where a parse uses an entry: the entry and those linked to it. An
entry that skips tokens teaches nothing. -/
def Entry.lessons (e : Entry) : List Entry :=
  if e.origin = .skipping then [] else (e :: e.linked).map (·.withOrigin .learned)

variable {K : Type}

namespace Training

variable {α β : Type} {s s' : Session K}

theorem bind_run_eq_ok {x : Training K α} {f : α → Training K β} {b : β} :
    (x >>= f) s = (.ok b, s') ↔ ∃ a t, x s = (.ok a, t) ∧ f a t = (.ok b, s') := by
  cases hrun : x s with
  | mk outcome t =>
    cases outcome with
    | error fault => simp [bind_run_error hrun]
    | ok a =>
      rw [bind_run_ok hrun]
      constructor
      · exact fun h => ⟨a, t, rfl, h⟩
      · rintro ⟨a', t', heq, h⟩
        obtain ⟨ha, rfl⟩ := Prod.mk.inj heq
        rwa [← Except.ok.inj ha] at h

theorem map_run_eq_ok {x : Training K α} {f : α → β} {b : β} :
    (f <$> x) s = (.ok b, s') ↔ ∃ a, x s = (.ok a, s') ∧ f a = b := by
  have hmap : (f <$> x) s = (x >>= fun a => pure (f a)) s := rfl
  rw [hmap, bind_run_eq_ok]
  constructor
  · rintro ⟨a, t, hrun, hpure⟩
    obtain ⟨hb, rfl⟩ := Prod.mk.inj hpure
    exact ⟨a, hrun, Except.ok.inj hb⟩
  · rintro ⟨a, hrun, rfl⟩
    exact ⟨a, s', hrun, rfl⟩

/-- Whether a step only adds learned entries to the model and weights for them, also where it
fails. -/
def Grows (x : Training K α) : Prop := x.Always fun s t => s.model.Grown t.model

theorem Keeps.grows {x : Training K α} (hx : x.Keeps) : x.Grows := by
  intro s
  rw [(hx s).1]
  exact Model.grown_refl s.model

theorem Grows.bind {x : Training K α} {f : α → Training K β} (hx : x.Grows)
    (hf : ∀ a, (f a).Grows) : (x >>= f).Grows :=
  Always.bind (fun h h' => h.trans h') hx hf

theorem grows_foldlM {f : β → α → Training K β} (hf : ∀ b a, (f b a).Grows) (as : List α) (b : β) :
    (as.foldlM f b).Grows := by
  induction as generalizing b with
  | nil => exact (keeps_pure b).grows
  | cons a as ih => exact (hf b a).bind fun b' => ih b'

end Training

variable [Scalar K]

/-- What a session has learned: some entries, of which `n` were new. -/
structure Taught (es : List Entry) (n : Int) (s s' : Session K) : Prop where
  model : s.model.addEntries es = .ok s'.model
  size : (s'.model.lexicon.size : Int) = s.model.lexicon.size + n
  stats : s'.stats = s.stats

theorem taught_nil (s : Session K) : Taught [] 0 s s :=
  ⟨rfl, (Int.add_zero _).symm, rfl⟩

theorem Taught.trans {es es' : List Entry} {n n' : Int} {s s' s'' : Session K}
    (h : Taught es n s s') (h' : Taught es' n' s' s'') :
    Taught (es ++ es') (n + n') s s'' where
  model := by
    rw [Model.addEntries_append, h.model]
    exact h'.model
  size := by
    have := h.size
    have := h'.size
    omega
  stats := h'.stats.trans h.stats

namespace Learner

open Training

variable {l : Learner K} {place : Place} {item : Item} {s s' : Session K}

theorem observes_notify (l : Learner K) (event : Event K) : (l.notify event).Observes :=
  Observer.observes_notify l.observers event

theorem observes_analyze (l : Learner K) (item : Item) (options : ParseOptions) :
    (l.analyze item options).Observes :=
  observes_session.bind fun _ => observes_traced _

/-- What is left to do once an entry was added: it is shown to the observers if it was new. -/
def announce (l : Learner K) (place : Place) (linked : Bool) (e : Entry) (new : Bool) :
    Training K Int := do
  if new then
    l.notify (.entryAdded place e linked)
    return 1
  else return 0

theorem observes_announce (l : Learner K) (place : Place) (linked : Bool) (e : Entry)
    (new : Bool) : (l.announce place linked e new).Observes := by
  rw [announce]
  split
  · exact (observes_notify l _).bind fun _ => observes_pure 1
  · exact observes_pure 0

theorem announce_eq_ok {linked : Bool} {e : Entry} {new : Bool} {n : Int}
    (h : l.announce place linked e new s = (.ok n, s')) : n = if new then 1 else 0 := by
  cases new with
  | true =>
    obtain ⟨u, t, -, hpure⟩ := bind_run_eq_ok.1 h
    exact (Except.ok.inj (Prod.mk.inj hpure).1).symm
  | false => exact (Except.ok.inj (Prod.mk.inj h).1).symm

theorem learn_run (linked : Bool) (e : Entry) :
    l.learn place linked e s =
      (lift (s.model.addEntry (e.withOrigin .learned)).1 >>=
        l.announce place linked (e.withOrigin .learned))
        { s with model := (s.model.addEntry (e.withOrigin .learned)).2 } := rfl

theorem grows_learn (linked : Bool) (e : Entry) : (l.learn place linked e).Grows := by
  intro s
  have hadd : s.model.Grown (s.model.addEntry (e.withOrigin .learned)).2 :=
    Model.grown_addEntry s.model rfl
  have hrest := ((observes_lift (s.model.addEntry (e.withOrigin .learned)).1).bind
    (observes_announce l place linked (e.withOrigin .learned))).keeps
  rw [learn_run, (hrest _).1]
  exact hadd

/-- Learning an entry adds it to the model, and tells whether it was new. -/
theorem taught_of_learn {linked : Bool} {e : Entry} {n : Int}
    (h : l.learn place linked e s = (.ok n, s')) : Taught [e.withOrigin .learned] n s s' := by
  rw [learn_run, bind_run_eq_ok] at h
  obtain ⟨new, t, hlift, hrest⟩ := h
  obtain ⟨houtcome, rfl⟩ := Prod.mk.inj hlift
  have hadd : s.model.addEntry (e.withOrigin .learned) =
      (.ok new, (s.model.addEntry (e.withOrigin .learned)).2) := Prod.ext houtcome rfl
  have hsize := Lexicon.size_insert s.model.lexicon (e.withOrigin .learned)
  rw [← Model.lexicon_addEntry] at hsize
  have hobserves := observes_announce l place linked (e.withOrigin .learned) new
    { s with model := (s.model.addEntry (e.withOrigin .learned)).2 }
  rw [hrest] at hobserves
  obtain ⟨hmodel, hstats, -⟩ := hobserves
  refine ⟨?_, ?_, hstats⟩
  · rw [hmodel]
    exact Model.addEntries_singleton hadd
  · rw [hmodel, hsize, announce_eq_ok hrest, Model.new_of_addEntry houtcome]
    cases s.model.lexicon.contains (e.withOrigin .learned) <;> simp

theorem grows_learnUsed (n : Int) (e : Entry) : (l.learnUsed place n e).Grows := by
  rw [learnUsed]
  split
  · exact (keeps_pure n).grows
  · refine (grows_learn false e).bind fun first => grows_foldlM (fun k x => ?_) _ _
    exact (grows_learn true x).bind fun _ => (keeps_pure _).grows

theorem taught_of_learnLinked {es : List Entry} {n n' : Int}
    (h : es.foldlM (fun n x => (n + ·) <$> l.learn place true x) n s = (.ok n', s')) :
    ∃ k, n' = n + k ∧ Taught (es.map (·.withOrigin .learned)) k s s' := by
  induction es generalizing n s with
  | nil =>
    obtain ⟨hn, rfl⟩ := Prod.mk.inj h
    exact ⟨0, by rw [Int.add_zero, Except.ok.inj hn], taught_nil s⟩
  | cons e es ih =>
    obtain ⟨n₁, t, hfirst, hrest⟩ := bind_run_eq_ok.1 h
    obtain ⟨first, hlearn, rfl⟩ := map_run_eq_ok.1 hfirst
    obtain ⟨k, rfl, hes⟩ := ih hrest
    exact ⟨first + k, by omega, (taught_of_learn hlearn).trans hes⟩

/-- A used entry teaches its lessons. -/
theorem taught_of_learnUsed {e : Entry} {n n' : Int}
    (h : l.learnUsed place n e s = (.ok n', s')) :
    ∃ k, n' = n + k ∧ Taught e.lessons k s s' := by
  rw [learnUsed] at h
  rw [Entry.lessons]
  split at h
  · obtain ⟨hn, rfl⟩ := Prod.mk.inj h
    exact ⟨0, by rw [Int.add_zero, Except.ok.inj hn], by rw [if_pos ‹_›]; exact taught_nil s⟩
  · obtain ⟨first, t, hfirst, hrest⟩ := bind_run_eq_ok.1 h
    obtain ⟨k, rfl, hlinked⟩ := taught_of_learnLinked hrest
    refine ⟨first + k, by omega, ?_⟩
    rw [if_neg ‹_›]
    exact (taught_of_learn hfirst).trans hlinked

theorem taught_of_foldlM {es : List Entry} {n n' : Int}
    (h : es.foldlM (l.learnUsed place) n s = (.ok n', s')) :
    ∃ k, n' = n + k ∧ Taught (es.flatMap Entry.lessons) k s s' := by
  induction es generalizing n s with
  | nil =>
    obtain ⟨hn, rfl⟩ := Prod.mk.inj h
    exact ⟨0, by rw [Int.add_zero, Except.ok.inj hn], taught_nil s⟩
  | cons e es ih =>
    obtain ⟨n₁, t, hfirst, hrest⟩ := bind_run_eq_ok.1 h
    obtain ⟨j, rfl, he⟩ := taught_of_learnUsed hfirst
    obtain ⟨k, rfl, hes⟩ := ih hrest
    exact ⟨j + k, by omega, he.trans hes⟩

/-- The valid parses of an item, with the entries proposed for it. There are none if nothing is
proposed. -/
def validParses (l : Learner K) (m : Model K) (item : Item) (proposed : Lexicon) :
    Except Fault (List (Parse K)) :=
  if proposed.size = 0 then .ok []
  else
    (l.analyzer.analyze m item.tokens item.state
      ⟨some proposed, some l.config.inductionBeam⟩).result.bind fun analysis =>
        analysis.parses.filterM fun p => item.isValid p.result

theorem grows_induce (l : Learner K) (place : Place) (item : Item) :
    (l.induce place item).Grows := by
  refine (keeps_lift _).grows.bind fun proposed => ?_
  split
  · exact (keeps_notify l _).grows
  · refine (keeps_analyze l item _).grows.bind fun analysis => ?_
    refine (keeps_record _).grows.bind fun _ => (keeps_lift _).grows.bind fun valid => ?_
    refine (keeps_notify l _).grows.bind fun _ => Grows.bind ?_ fun _ => (keeps_count _).grows
    exact grows_foldlM (fun n e => grows_learnUsed n e) _ _

/-- A look for entries that is not stopped: nothing was proposed, or the model is taught by the
entries that the best valid parses use. -/
theorem induce_eq_ok (h : l.induce place item s = (.ok (), s')) :
    ∃ proposed valid, item.generate = .ok proposed ∧
      l.validParses s.model item proposed = .ok valid ∧
      (proposed.size = 0 ∧ valid = [] ∧ s'.model = s.model ∧ s'.stats = s.stats ∨
        proposed.size ≠ 0 ∧ ∃ n t t', t.model = s.model ∧ t.stats.counts = s.stats.counts ∧
          Taught (((Parse.top valid).flatMap Parse.entries).flatMap Entry.lessons) n t t' ∧
          s'.model = t'.model ∧
          s'.stats = t'.stats.countEntries place.epoch place.index n) := by
  obtain ⟨proposed, s₁, hgenerate, h⟩ := bind_run_eq_ok.1 h
  obtain ⟨hproposed, rfl⟩ := Prod.mk.inj hgenerate
  by_cases hsize : proposed.size = 0
  · rw [if_pos hsize] at h
    have hobserves := observes_notify l (.induced place item ⟨proposed, none, [], []⟩) s
    rw [h] at hobserves
    exact ⟨proposed, [], hproposed, by rw [validParses, if_pos hsize],
      Or.inl ⟨hsize, rfl, hobserves.1, hobserves.2.1⟩⟩
  · rw [if_neg hsize] at h
    obtain ⟨analysis, s₂, hanalysis, h⟩ := bind_run_eq_ok.1 h
    obtain ⟨u, s₃, hrecord, h⟩ := bind_run_eq_ok.1 h
    obtain ⟨valid, s₄, hlift, h⟩ := bind_run_eq_ok.1 h
    obtain ⟨hvalid, rfl⟩ := Prod.mk.inj hlift
    obtain ⟨u', s₅, hnotify, h⟩ := bind_run_eq_ok.1 h
    obtain ⟨n, s₆, hlearn, hcount⟩ := bind_run_eq_ok.1 h
    obtain ⟨-, rfl⟩ := Prod.mk.inj hcount
    obtain ⟨k, hn, htaught⟩ := taught_of_foldlM hlearn
    obtain rfl : n = k := by omega
    have hparsed := observes_analyze l item ⟨some proposed, some l.config.inductionBeam⟩ s
    rw [hanalysis] at hparsed
    have hresult := analyze_eq_ok (congrArg Prod.fst hanalysis)
    have hrecorded : s₃.model = s₂.model ∧ s₃.stats.counts = s₂.stats.counts := by
      obtain ⟨-, rfl⟩ := Prod.mk.inj hrecord
      exact ⟨rfl, rfl⟩
    have hshown := observes_notify l (.induced place item
      ⟨proposed, some analysis, valid, Parse.top valid⟩) s₃
    rw [hnotify] at hshown
    refine ⟨proposed, valid, hproposed, ?_, Or.inr ⟨hsize, n, s₅, s₆, ?_, ?_, htaught, rfl, rfl⟩⟩
    · rw [validParses, if_neg hsize, hresult]
      exact hvalid
    · exact hshown.1.trans (hrecorded.1.trans hparsed.1)
    · rw [hshown.2.1, hrecorded.2, hparsed.2.1]

/-- An entry proposed for the token `a`, which means a truth value, and is linked to others. -/
def proposedEntry (truth : Bool) (linked : List Entry) : Entry :=
  ⟨["a"], ⟨some (.primitive "N"), .bool truth⟩, .generated, linked⟩

/-- The sentence `a`, which is to mean that something is true; both truth values are proposed for
it, linked to each other. -/
def linkedItem : Item :=
  ⟨["a"], .none, .bool true, some fun _ => .ok (.ofList
    [proposedEntry true [proposedEntry false []], proposedEntry false [proposedEntry true []]]),
    none⟩

/-- A learner for this sentence. -/
def linkedLearner : Learner Rat where
  items := [linkedItem]
  analyzer := ⟨.create .empty .default .structural .empty false, none⟩
  config := ⟨.int 1, .int 10, .int 10, true⟩
  perceptron := none
  observers := [.recording]
  timer := Meter.record

/-- A session with a model without entries. -/
def linkedStart : Session Rat := linkedLearner.start ⟨.empty, [.default], [], [], .empty⟩

end Learner

end Categorial
