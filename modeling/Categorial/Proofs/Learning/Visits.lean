import Categorial.Proofs.Learning.Frame

/-!
What a learner that learns no entries does to the weights. A visit of an item makes one move of the
weights, or none; a run of the learner visits the items one after the other, epoch after epoch, and
may stop early. Main statement: the model and the number of updates after a run are those after the
moves of the items that were visited, which are all of them if nothing failed.
-/

namespace Categorial

variable {K : Type}

/-- The part of a session that learning changes: the model and the number of updates. -/
def Session.learned (s : Session K) : Model K × Nat := (s.model, s.updates)

namespace Training

variable {α : Type} {visit : Model K × Nat → Item → Model K × Nat} {items items' : List Item}
  {s : Session K}

/-- Whether a step visits items one after the other, from a session on: all of them, or the first
ones if it fails. -/
def VisitsFrom (visit : Model K × Nat → Item → Model K × Nat) (items : List Item)
    (x : Training K Unit) (s : Session K) : Prop :=
  ∃ visited, visited <+: items ∧ ((x s).1 = .ok () → visited = items) ∧
    (x s).2.learned = visited.foldl visit s.learned

theorem Keeps.learned {x : Training K α} (hx : x.Keeps) (s : Session K) :
    (x s).2.learned = s.learned :=
  Prod.ext (hx s).1 (hx s).2

theorem Keeps.visitsFrom {x : Training K Unit} (hx : x.Keeps) : VisitsFrom visit [] x s :=
  ⟨[], List.prefix_refl _, fun _ => rfl, hx.learned s⟩

/-- A step that keeps the model visits an item that makes no move. -/
theorem Keeps.visitsFrom_idle {x : Training K Unit} (hx : x.Keeps) {item : Item}
    (hidle : visit s.learned item = s.learned) : VisitsFrom visit [item] x s :=
  ⟨[item], List.prefix_refl _, fun _ => rfl, (hx.learned s).trans hidle.symm⟩

/-- What comes after a step that keeps the model starts from the same model. -/
theorem Keeps.visitsFrom_bind {x : Training K α} {f : α → Training K Unit} (hx : x.Keeps)
    (hf : ∀ a t, (x s).1 = .ok a → t.learned = s.learned → VisitsFrom visit items (f a) t) :
    VisitsFrom visit items (x >>= f) s := by
  have hkeep := hx.learned s
  cases hrun : x s with
  | mk outcome t =>
    rw [hrun] at hkeep hf
    cases outcome with
    | error fault =>
      rw [VisitsFrom, bind_run_error hrun]
      exact ⟨[], List.nil_prefix, by simp, hkeep⟩
    | ok a =>
      rw [VisitsFrom, bind_run_ok hrun, ← hkeep]
      exact hf a t rfl hkeep

/-- Of two steps the second one visits its items after those of the first one. -/
theorem VisitsFrom.bind {x y : Training K Unit} (hx : VisitsFrom visit items x s)
    (hy : ∀ t, VisitsFrom visit items' y t) :
    VisitsFrom visit (items ++ items') (x >>= fun _ => y) s := by
  obtain ⟨visited, hprefix, hall, hlearned⟩ := hx
  cases hrun : x s with
  | mk outcome t =>
    rw [hrun] at hall hlearned
    cases outcome with
    | error fault =>
      rw [VisitsFrom, bind_run_error hrun]
      exact ⟨visited, hprefix.trans (List.prefix_append _ _), by simp, hlearned⟩
    | ok u =>
      obtain rfl := hall rfl
      obtain ⟨visited', hprefix', hall', hlearned'⟩ := hy t
      rw [VisitsFrom, bind_run_ok hrun]
      refine ⟨visited ++ visited', List.prefix_append_right_inj _ |>.2 hprefix', ?_, ?_⟩
      · intro hok
        rw [hall' hok]
      · rw [hlearned', hlearned, List.foldl_append]

theorem visitsFrom_forM {f : α → Training K Unit} {own : α → List Item}
    (hf : ∀ a s, VisitsFrom visit (own a) (f a) s) (xs : List α) (s : Session K) :
    VisitsFrom visit (xs.flatMap own) (xs.forM f) s := by
  induction xs generalizing s with
  | nil => exact (keeps_pure _).visitsFrom
  | cons x xs ih => exact (hf x s).bind ih

end Training

/-- A move of the weights: the weights before it, its direction and its size. -/
structure Move (K : Type) where
  theta : SparseVector K
  delta : SparseVector K
  step : K

variable [Scalar K]

namespace Move

/-- The weights after a move. -/
def after (mv : Move K) : SparseVector K := mv.theta.addTimes mv.step mv.delta

/-- Whether moves follow each other: the first one is from these weights, and any other one from the
weights after the one before it. -/
def Chain (theta : SparseVector K) : List (Move K) → Prop
  | [] => True
  | mv :: moves => mv.theta = theta ∧ Chain mv.after moves

/-- The weights after some moves. -/
def weightsAfter (theta : SparseVector K) : List (Move K) → SparseVector K
  | [] => theta
  | mv :: moves => weightsAfter mv.after moves

end Move

namespace Learner

/-- The move that an item makes, if the model is in this state after so many updates. -/
def move? (l : Learner K) (state : Model K × Nat) (item : Item) : Option (Move K) :=
  if l.config.maxTokens.lt (.int item.tokens.length) then none
  else
    match l.perceptron, (l.analyzer.analyze state.1 item.tokens item.state .plain).result with
    | some p, .ok analysis =>
      match p.direction? state.1 item analysis.parses, p.stepSize state.2 with
      | .ok (some delta), .ok step => some ⟨state.1.theta, delta, step⟩
      | _, _ => none
    | _, _ => none

/-- The model and the number of updates after a visit of an item. -/
def visit (l : Learner K) (state : Model K × Nat) (item : Item) : Model K × Nat :=
  match l.move? state item with
  | some mv => ({ state.1 with theta := mv.after }, state.2 + 1)
  | none => state

/-- The moves that some items make, one after the other. -/
def moves (l : Learner K) : List Item → Model K × Nat → List (Move K)
  | [], _ => []
  | item :: items, state => (l.move? state item).toList ++ l.moves items (l.visit state item)

/-- The items of a run, epoch after epoch. -/
def schedule (l : Learner K) : List Item :=
  match l.config.epochs.whole with
  | .ok epochs => (List.range epochs.toNat).flatMap fun _ => l.items
  | .error _ => []

variable {l : Learner K} {item : Item} {s : Session K}

theorem visit_of_none {state : Model K × Nat} (h : l.move? state item = none) :
    l.visit state item = state := by
  rw [visit, h]

theorem visit_of_some {state : Model K × Nat} {mv : Move K} (h : l.move? state item = some mv) :
    l.visit state item = ({ state.1 with theta := mv.after }, state.2 + 1) := by
  rw [visit, h]

theorem keeps_notify (l : Learner K) (event : Event K) : (l.notify event).Keeps :=
  (Observer.observes_notify l.observers event).keeps

theorem keeps_analyze (l : Learner K) (item : Item) (options : ParseOptions) :
    (l.analyze item options).Keeps :=
  Training.keeps_session.bind fun _ => Training.keeps_traced _

/-- What an analysis finds with the model of the session. -/
theorem analyze_eq_ok {options : ParseOptions} {analysis : Analysis K}
    (h : (l.analyze item options s).1 = .ok analysis) :
    (l.analyzer.analyze s.model item.tokens item.state options).result = .ok analysis := h

/-- The update after the parse of an item is the visit of the item. -/
theorem visitsFrom_update (place : Place)
    (hshort : l.config.maxTokens.lt (.int item.tokens.length) = false) {analysis : Analysis K}
    (hanalysis : (l.analyzer.analyze s.model item.tokens item.state .plain).result =
      .ok analysis) :
    Training.VisitsFrom l.visit [item] (l.update place item analysis.parses) s := by
  unfold update
  cases hp : l.perceptron with
  | none => exact ⟨[], List.nil_prefix, by simp, rfl⟩
  | some p =>
    refine Training.keeps_session.visitsFrom_bind fun s' t hs' ht => ?_
    obtain rfl : s = s' := Except.ok.inj hs'
    refine (Training.keeps_lift _).visitsFrom_bind fun direction t' hok ht' => ?_
    have hdirection : p.direction? s.model item analysis.parses = .ok direction := hok
    cases direction with
    | none =>
      refine (Training.keeps_pure _).visitsFrom_idle ?_
      rw [ht', ht, visit, move?, hshort, if_neg Bool.false_ne_true]
      simp only [Session.learned, hanalysis, hp, hdirection]
    | some delta =>
      refine (Training.keeps_lift _).visitsFrom_bind fun step t'' hok' ht'' => ?_
      have hstep : p.stepSize s.updates = .ok step := hok'
      have hrest : (do
          Training.count fun s => s.count place.epoch .updates 1
          l.notify (.updated place delta step) : Training K Unit).Keeps :=
        (Training.keeps_count _).bind fun _ => keeps_notify l _
      refine ⟨[item], List.prefix_refl _, fun _ => rfl, (hrest.learned _).trans ?_⟩
      have hlearned := ht''.trans (ht'.trans ht)
      obtain ⟨hmodel, hupdates⟩ := Prod.mk.inj hlearned
      rw [List.foldl_cons, List.foldl_nil, hlearned, visit, move?, hshort,
        if_neg Bool.false_ne_true]
      simp only [Session.learned, hanalysis, hp, hdirection, hstep]
      rw [hmodel, hupdates]
      rfl

/-- What is left to do with an item after the look for entries: it is parsed with the model, and the
weights move. -/
def practise (l : Learner K) (place : Place) (item : Item) : Training K Unit := do
  let analysis ← l.analyze item .plain
  Training.record fun s => s.recordModelBy l.timer analysis.seconds
  l.notify (.analyzed place item analysis)
  l.update place item analysis.parses
  Training.count fun s => s.count place.epoch .processed 1
  l.notify (.exampleEnd place)

theorem trainItem_eq (l : Learner K) (place : Place) (item : Item) :
    l.trainItem place item = (do
      l.notify (.exampleStart place item)
      if l.config.maxTokens.lt (.int item.tokens.length) then
        Training.count fun s => s.count place.epoch .skipped 1
        l.notify (.exampleSkipped place (toString item.tokens.length
          ++ " tokens > max_sentence_length=" ++ l.config.maxTokens.text))
      else
        (if l.config.learnsEntries then l.induce place item else pure ()) >>= fun _ =>
          l.practise place item) := by
  rw [trainItem]
  cases l.config.learnsEntries <;> rfl

/-- Learning from an item without learning entries is the visit of the item. -/
theorem visitsFrom_trainItem (hentries : l.config.learnsEntries = false) (place : Place)
    (item : Item) (s : Session K) :
    Training.VisitsFrom l.visit [item] (l.trainItem place item) s := by
  refine (keeps_notify l _).visitsFrom_bind fun _ t _ ht => ?_
  split
  · rename_i hlong
    refine Training.Keeps.visitsFrom_idle
      ((Training.keeps_count _).bind fun _ => keeps_notify l _) ?_
    rw [visit, move?, if_pos hlong]
  · rename_i hshort
    rw [hentries, if_neg Bool.false_ne_true]
    refine (keeps_analyze l _ _).visitsFrom_bind fun analysis u hanalysis hu => ?_
    refine (Training.keeps_record _).visitsFrom_bind fun _ u' _ hu' => ?_
    refine (keeps_notify l _).visitsFrom_bind fun _ u'' _ hu'' => ?_
    have hmodel : u''.model = t.model := congrArg Prod.fst (hu''.trans (hu'.trans hu))
    have hupdate := visitsFrom_update (s := u'') place (Bool.not_eq_true _ ▸ hshort)
      (hmodel ▸ analyze_eq_ok hanalysis)
    refine hupdate.bind fun v => ?_
    exact ((Training.keeps_count _).bind fun _ => keeps_notify l _).visitsFrom

theorem visitsFrom_trainEpoch (hentries : l.config.learnsEntries = false) (epoch : Nat)
    (s : Session K) : Training.VisitsFrom l.visit l.items (l.trainEpoch epoch) s := by
  have hitems : l.items.zipIdx.flatMap (fun x => [x.1]) ++ [] = l.items := by
    rw [List.append_nil, ← List.map_eq_flatMap, List.zipIdx_map_fst]
  rw [← hitems]
  refine (keeps_notify l _).visitsFrom_bind fun _ t _ _ => ?_
  refine Training.VisitsFrom.bind ?_ fun _ => (keeps_notify l _).visitsFrom
  exact Training.visitsFrom_forM (fun x s => visitsFrom_trainItem hentries _ x.1 s) _ t

/-- A run visits the items of its schedule: all of them, or the first ones if it fails. -/
theorem visitsFrom_train (hentries : l.config.learnsEntries = false) (s : Session K) :
    Training.VisitsFrom l.visit l.schedule l.train s := by
  unfold train schedule
  cases l.config.epochs.whole with
  | error fault => exact ⟨[], List.prefix_refl _, by simp, rfl⟩
  | ok epochs =>
    refine (Training.keeps_lift _).visitsFrom_bind fun n t hn _ => ?_
    obtain rfl : epochs = n := Except.ok.inj hn
    exact Training.visitsFrom_forM (fun epoch s => visitsFrom_trainEpoch hentries epoch s) _ t

/-- A move has the direction that the perceptron finds in the parses of the item, the step size
after so many updates, and starts from the weights of the model. -/
theorem parts_of_move? {state : Model K × Nat} {mv : Move K} (h : l.move? state item = some mv) :
    ∃ p analysis, l.perceptron = some p ∧
      (l.analyzer.analyze state.1 item.tokens item.state .plain).result = .ok analysis ∧
      p.direction? state.1 item analysis.parses = .ok (some mv.delta) ∧
      p.stepSize state.2 = .ok mv.step ∧ mv.theta = state.1.theta := by
  rw [move?] at h
  split at h
  · cases h
  · split at h
    · rename_i p analysis hp hanalysis
      split at h
      · rename_i delta step hdirection hstep
        obtain rfl := Option.some.inj h
        exact ⟨p, analysis, hp, hanalysis, hdirection, hstep, rfl⟩
      · cases h
    · cases h

/-- The moves of some items follow each other. -/
theorem chain_moves (l : Learner K) (items : List Item) (state : Model K × Nat) :
    Move.Chain state.1.theta (l.moves items state) := by
  induction items generalizing state with
  | nil => trivial
  | cons item items ih =>
    rw [moves]
    cases hmove : l.move? state item with
    | none =>
      rw [visit_of_none hmove]
      exact ih state
    | some mv =>
      obtain ⟨-, -, -, -, -, -, htheta⟩ := parts_of_move? hmove
      rw [visit_of_some hmove]
      exact ⟨htheta, ih ({ state.1 with theta := mv.after }, state.2 + 1)⟩

/-- Visits change the model by their moves, and count them. -/
theorem foldl_visit (l : Learner K) (items : List Item) (state : Model K × Nat) :
    items.foldl l.visit state =
      ({ state.1 with theta := Move.weightsAfter state.1.theta (l.moves items state) },
        state.2 + (l.moves items state).length) := by
  induction items generalizing state with
  | nil => rfl
  | cons item items ih =>
    rw [List.foldl_cons, ih, moves]
    cases hmove : l.move? state item with
    | none =>
      rw [visit_of_none hmove]
      rfl
    | some mv =>
      rw [visit_of_some hmove, Option.toList_some, List.singleton_append, Move.weightsAfter,
        List.length_cons, Nat.add_comm (List.length _) 1, ← Nat.add_assoc]

end Learner

end Categorial
