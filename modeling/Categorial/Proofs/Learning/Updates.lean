import Mathlib.Algebra.Order.Ring.Rat
import Categorial.Proofs.Learning.Teaching
import Categorial.Proofs.Model.Changes
import Categorial.Proofs.Model.Weights

/-!
The changes that a run of a perceptron makes to the model: entries are added and the weights move,
in whatever order the items bring them. Every step of the run changes the model in these two ways
alone, takes the next step size for each move, and shows each change to the observers once it is
made. Main statement: after a run, every weight is its start with all moves added, each with its
step size.
-/

namespace Categorial

variable {K : Type}

/-- The change that an event reports. -/
def Event.change? : Event K → Option (Change K)
  | entryAdded _ e _ => some (.added e)
  | updated _ delta step => some (.moved step delta)
  | _ => none

namespace Change

/-- The moves among some changes. -/
def moves (changes : List (Change K)) : List (K × SparseVector K) := changes.filterMap move?

theorem moves_append (changes changes' : List (Change K)) :
    moves (changes ++ changes') = moves changes ++ moves changes' := List.filterMap_append

end Change

variable [Scalar K]

namespace Perceptron

/-- Whether moves have the step sizes that follow after `n` updates. -/
def Paces (p : Perceptron K) : Nat → List (K × SparseVector K) → Prop
  | _, [] => True
  | n, move :: moves => p.stepSize n = .ok move.1 ∧ p.Paces (n + 1) moves

theorem Paces.append {p : Perceptron K} {n : Nat} {moves moves' : List (K × SparseVector K)}
    (h : p.Paces n moves) (h' : p.Paces (n + moves.length) moves') :
    p.Paces n (moves ++ moves') := by
  induction moves generalizing n with
  | nil => exact h'
  | cons move moves ih =>
    refine ⟨h.1, ih h.2 ?_⟩
    rwa [List.length_cons, Nat.add_comm moves.length, ← Nat.add_assoc] at h'

/-- The step size over rational numbers. -/
theorem stepSize_rat (p : Perceptron Rat) (n : Nat) :
    p.stepSize n = .ok (p.learningRate / (1 + p.decay * n)) := by
  have hone : (Scalar.ofNat 1 : Rat) = 1 := Nat.cast_one
  simp only [stepSize, Scalar.times_rat, Scalar.plus_rat, hone]
  rfl

/-- What moves with the step sizes that follow after `n` updates have in common with their
directions. -/
theorem Paces.map_eq {β : Type} {p : Perceptron Rat} {n : Nat}
    {moves : List (Rat × SparseVector Rat)} (h : p.Paces n moves)
    (f : Rat × SparseVector Rat → β) :
    moves.map f = (moves.map Prod.snd).mapIdx fun t delta =>
      f (p.learningRate / (1 + p.decay * (n + t : Nat)), delta) := by
  induction moves generalizing n with
  | nil => rfl
  | cons move moves ih =>
    rw [Paces, stepSize_rat, Except.ok.injEq] at h
    obtain ⟨hstep, hrest⟩ := h
    rw [List.map_cons, List.map_cons, List.mapIdx_cons, Nat.add_zero, hstep]
    congr 1
    simpa only [Nat.add_assoc, Nat.add_comm 1] using ih hrest

end Perceptron

/-- Whether some changes lead from a session to another one: they make its model, and the moves
among them are counted and have the step sizes of a perceptron. If just one observer keeps events,
it has seen the changes, apart from at most a last one if a fault came in between. -/
structure Session.Leads (p : Perceptron K) (once ended : Prop) (s s' : Session K)
    (changes : List (Change K)) : Prop where
  model : s'.model = s.model.after changes
  updates : s'.updates = s.updates + (Change.moves changes).length
  paces : p.Paces s.updates (Change.moves changes)
  events : once → ∃ shown last, s'.events = s.events ++ shown ∧
    changes = shown.filterMap Event.change? ++ last ∧ last.length ≤ 1 ∧ (ended → last = [])

namespace Session

variable {p : Perceptron K} {once ended ended' : Prop} {s s' s'' : Session K}
  {changes changes' : List (Change K)}

theorem leads_nil (hmodel : s'.model = s.model) (hupdates : s'.updates = s.updates)
    (hevents : s'.events = s.events) : s.Leads p once ended s' [] :=
  ⟨hmodel, hupdates, trivial, fun _ => ⟨[], [], by rw [hevents, List.append_nil], rfl,
    Nat.zero_le 1, fun _ => rfl⟩⟩

theorem Leads.trans (h : s.Leads p once ended s' changes) (hended : ended)
    (h' : s'.Leads p once ended' s'' changes') :
    s.Leads p once ended' s'' (changes ++ changes') where
  model := by rw [Model.after_append, ← h.model, h'.model]
  updates := by
    rw [Change.moves_append, List.length_append, ← Nat.add_assoc, ← h.updates, h'.updates]
  paces := by
    rw [Change.moves_append]
    exact h.paces.append (h.updates ▸ h'.paces)
  events honce := by
    obtain ⟨shown, last, hevents, hchanges, -, hlast⟩ := h.events honce
    obtain ⟨shown', last', hevents', hchanges', hlength, hlast'⟩ := h'.events honce
    refine ⟨shown ++ shown', last', ?_, ?_, hlength, hlast'⟩
    · rw [hevents', hevents, List.append_assoc]
    · rw [hchanges, hchanges', hlast hended, List.append_nil, List.filterMap_append,
        List.append_assoc]

end Session

namespace Training

variable {α β : Type} {p : Perceptron K} {once : Prop}

/-- Whether a step leads from any session to the one it leaves by some changes, also where it
fails. -/
def Logs (p : Perceptron K) (once : Prop) (x : Training K α) : Prop :=
  ∀ s : Session K, ∃ changes, s.Leads p once (∃ a, (x s).1 = .ok a) (x s).2 changes

theorem Keeps.logs {x : Training K α} (hx : x.Keeps) (hevents : ∀ s, (x s).2.events = s.events) :
    x.Logs p once :=
  fun s => ⟨[], Session.leads_nil (hx s).1 (hx s).2 (hevents s)⟩

theorem logs_pure (a : α) : (pure a : Training K α).Logs p once := (keeps_pure a).logs fun _ => rfl

theorem logs_lift (x : Except Fault α) : (lift x : Training K α).Logs p once :=
  (keeps_lift x).logs fun _ => rfl

theorem logs_count (f : Stats K → Stats K) : (count f).Logs p once :=
  (keeps_count f).logs fun _ => rfl

theorem logs_record (f : Stats K → Except Fault Unit × Stats K) : (record f).Logs p once :=
  (keeps_record f).logs fun _ => rfl

/-- What comes after a step leads on from the session that the step leaves. -/
theorem leads_bind {x : Training K α} {f : α → Training K β} {s s₁ : Session K}
    {changes : List (Change K)}
    (hx : s.Leads p once (∃ a, (x s₁).1 = .ok a) (x s₁).2 changes)
    (hf : ∀ a, (f a).Logs p once) :
    ∃ changes', s.Leads p once (∃ b, ((x >>= f) s₁).1 = .ok b) ((x >>= f) s₁).2 changes' := by
  cases hrun : x s₁ with
  | mk outcome t =>
    rw [hrun] at hx
    cases outcome with
    | error fault =>
      rw [bind_run_error hrun]
      refine ⟨changes, hx.model, hx.updates, hx.paces, fun honce => ?_⟩
      obtain ⟨shown, last, hevents, hchanges, hlength, -⟩ := hx.events honce
      exact ⟨shown, last, hevents, hchanges, hlength, fun ⟨_, h⟩ => by cases h⟩
    | ok a =>
      rw [bind_run_ok hrun]
      obtain ⟨changes', hrest⟩ := hf a t
      exact ⟨changes ++ changes', hx.trans ⟨a, rfl⟩ hrest⟩

theorem Logs.bind {x : Training K α} {f : α → Training K β} (hx : x.Logs p once)
    (hf : ∀ a, (f a).Logs p once) : (x >>= f).Logs p once := by
  intro s
  obtain ⟨changes, hfirst⟩ := hx s
  exact leads_bind hfirst hf

theorem Logs.map {x : Training K α} (hx : x.Logs p once) (f : α → β) : (f <$> x).Logs p once :=
  hx.bind fun a => logs_pure (f a)

theorem logs_foldlM {f : β → α → Training K β} (hf : ∀ b a, (f b a).Logs p once) (as : List α)
    (b : β) : (as.foldlM f b).Logs p once := by
  induction as generalizing b with
  | nil => exact logs_pure b
  | cons a as ih => exact (hf b a).bind fun b' => ih b'

theorem logs_forM {f : α → Training K Unit} (hf : ∀ a, (f a).Logs p once) (as : List α) :
    (as.forM f).Logs p once := by
  induction as with
  | nil => exact logs_pure _
  | cons a as ih => exact (hf a).bind fun _ => ih

end Training

namespace Learner

open Training

variable {l : Learner K} {p : Perceptron K} {s t : Session K}

/-- Whether just one observer of a learner keeps events. -/
def RecordsOnce (l : Learner K) : Prop := l.observers.countP Observer.isRecording = 1

/-- A change that is made, and then shown to the observers. -/
theorem leads_notify (l : Learner K) (event : Event K)
    (hmodel : t.model = s.model.after event.change?.toList)
    (hupdates : t.updates = s.updates + (Change.moves event.change?.toList).length)
    (hpaces : p.Paces s.updates (Change.moves event.change?.toList))
    (hevents : t.events = s.events) :
    s.Leads p l.RecordsOnce (∃ a, (l.notify event t).1 = .ok a) (l.notify event t).2
      event.change?.toList := by
  have hkeeps := observes_notify l event t
  refine ⟨hkeeps.1.trans hmodel, hkeeps.2.2.trans hupdates, hpaces, fun honce => ?_⟩
  obtain ⟨n, hle, hshown, hall⟩ := Observer.events_notify l.observers event t
  rw [honce] at hle hall
  -- the event is kept once, or not at all if an observer failed before the one that keeps it
  refine ⟨List.replicate n event, if n = 0 then event.change?.toList else [], ?_, ?_, ?_, ?_⟩
  · rw [← hevents]
    exact hshown
  · obtain rfl | rfl : n = 0 ∨ n = 1 := by omega
    · rfl
    · cases hchange : event.change? <;> simp [hchange]
  · split
    · cases event.change? <;> simp
    · exact Nat.zero_le 1
  · rintro ⟨⟨⟩, hok⟩
    rw [if_neg (by rw [hall hok]; exact Nat.one_ne_zero)]

/-- An event that reports no change. -/
theorem logs_notify (l : Learner K) {event : Event K} (h : event.change? = none) :
    (l.notify event).Logs p l.RecordsOnce := by
  intro s
  have hnone : event.change?.toList = [] := by rw [h, Option.toList_none]
  refine ⟨_, l.leads_notify event ?_ ?_ ?_ rfl⟩
  · rw [hnone, Model.after_nil]
  · rw [hnone]
    rfl
  · rw [hnone]
    trivial

theorem logs_analyze (l : Learner K) (item : Item) (options : ParseOptions) :
    (l.analyze item options).Logs p l.RecordsOnce :=
  (keeps_session.logs fun _ => rfl).bind fun _ => (keeps_traced _).logs fun _ => rfl

/-- Learning an entry adds it, and shows it if it was new. -/
theorem logs_learn (l : Learner K) (place : Place) (linked : Bool) (e : Entry) :
    (l.learn place linked e).Logs p l.RecordsOnce := by
  intro s
  rw [learn_run]
  cases hadd : s.model.addEntry (e.withOrigin .learned) with
  | mk outcome m =>
    have hmodel : m = s.model.change (.added (e.withOrigin .learned)) := by rw [Model.change, hadd]
    cases outcome with
    | error fault =>
      refine ⟨[.added (e.withOrigin .learned)], hmodel, rfl, trivial, fun _ => ?_⟩
      refine ⟨[], [_], (List.append_nil _).symm, rfl, Nat.le_refl 1, ?_⟩
      rintro ⟨n, hok⟩
      cases hok
    | ok new =>
      cases new with
      | false =>
        have hold : s.model.lexicon.contains (e.withOrigin .learned) = true := by
          simpa using (Model.new_of_addEntry (congrArg Prod.fst hadd)).symm
        have hsame := Model.addEntry_of_contains hold
        rw [hadd] at hsame
        exact ⟨[], Session.leads_nil (Prod.mk.inj hsame).2 rfl rfl⟩
      | true =>
        have hnotify := l.leads_notify (p := p) (s := s) (t := { s with model := m })
          (.entryAdded place (e.withOrigin .learned) linked) hmodel rfl trivial rfl
        have hshown := leads_bind hnotify fun _ => logs_pure (1 : Int)
        exact hshown

theorem logs_learnUsed (l : Learner K) (place : Place) (n : Int) (e : Entry) :
    (l.learnUsed place n e).Logs p l.RecordsOnce := by
  rw [learnUsed]
  split
  · exact logs_pure n
  · refine (l.logs_learn place false e).bind fun first => logs_foldlM (fun k x => ?_) _ _
    exact (l.logs_learn place true x).map _

theorem logs_induce (l : Learner K) (place : Place) (item : Item) :
    (l.induce place item).Logs p l.RecordsOnce := by
  refine (logs_lift _).bind fun proposed => ?_
  split
  · exact l.logs_notify rfl
  · refine (l.logs_analyze item _).bind fun analysis => ?_
    refine (logs_record _).bind fun _ => ?_
    refine (logs_lift _).bind fun valid => (l.logs_notify rfl).bind fun _ => ?_
    refine (logs_foldlM (l.logs_learnUsed place) _ _).bind fun _ => ?_
    exact logs_count _

/-- The update of a perceptron: a move in the direction that it finds, if it finds one, which is
counted and shown. -/
theorem update_run (hp : l.perceptron = some p) (place : Place) (item : Item)
    (parses : List (Parse K)) (s : Session K) :
    l.update place item parses s =
      match p.direction? s.model item parses, p.stepSize s.updates with
      | .ok none, _ => (.ok (), s)
      | .ok (some delta), .ok step =>
        l.notify (.updated place delta step) { s with
          model := s.model.change (.moved step delta)
          updates := s.updates + 1
          stats := s.stats.count place.epoch .updates 1 }
      | .ok (some _), .error fault => (.error fault, s)
      | .error fault, _ => (.error fault, s) := by
  unfold update
  rw [hp]
  change (lift (p.direction? s.model item parses) >>= _) s = _
  cases p.direction? s.model item parses with
  | error fault => rfl
  | ok direction =>
    cases direction with
    | none => rfl
    | some delta =>
      change (lift (p.stepSize s.updates) >>= _) s = _
      cases p.stepSize s.updates <;> rfl

theorem logs_update (hp : l.perceptron = some p) (place : Place) (item : Item)
    (parses : List (Parse K)) : (l.update place item parses).Logs p l.RecordsOnce := by
  intro s
  rw [update_run hp]
  split
  · exact ⟨[], Session.leads_nil rfl rfl rfl⟩
  · rename_i delta step hdirection hstep
    exact ⟨_, l.leads_notify (.updated place delta step) rfl rfl ⟨hstep, trivial⟩ rfl⟩
  · exact ⟨[], Session.leads_nil rfl rfl rfl⟩
  · exact ⟨[], Session.leads_nil rfl rfl rfl⟩

theorem logs_trainItem (hp : l.perceptron = some p) (place : Place) (item : Item) :
    (l.trainItem place item).Logs p l.RecordsOnce := by
  rw [trainItem_eq]
  refine (l.logs_notify rfl).bind fun _ => ?_
  split
  · exact (logs_count _).bind fun _ => l.logs_notify rfl
  · refine Logs.bind ?_ fun _ => (l.logs_analyze item _).bind fun analysis => ?_
    · split
      · exact l.logs_induce place item
      · exact logs_pure _
    · refine (logs_record _).bind fun _ => (l.logs_notify rfl).bind fun _ => ?_
      refine (logs_update hp place item _).bind fun _ => ?_
      exact (logs_count _).bind fun _ => l.logs_notify rfl

/-- A run changes the model by additions and moves alone, which it paces and shows. -/
theorem logs_train (hp : l.perceptron = some p) : l.train.Logs p l.RecordsOnce := by
  refine (logs_lift _).bind fun epochs => logs_forM (fun epoch => ?_) _
  refine (l.logs_notify rfl).bind fun _ => Logs.bind ?_ fun _ => l.logs_notify rfl
  exact logs_forM (fun (x : Item × Nat) => logs_trainItem hp ⟨epoch, x.2⟩ x.1) _

end Learner

namespace Learner

variable {l : Learner Rat} {p : Perceptron Rat}

/-- Whatever a run of a perceptron does, the model it leaves comes from the first one by adding
entries and moving weights; the moves are counted, and the `t`-th one has the step size that follows
after `t` updates; and every weight is its start with all moves added. If just one observer keeps
events, the events report these changes in their order, with the directions and step sizes of the
moves, apart from at most a last change where the run fails. -/
theorem no_update_lost (hp : l.perceptron = some p) (m : Model Rat) {outcome : Except Fault Unit}
    {s : Session Rat} (h : l.train (l.start m) = (outcome, s)) :
    ∃ (changes : List (Change Rat)) (deltas : List (SparseVector Rat)),
      s.model = m.after changes ∧
      Change.moves changes = deltas.mapIdx (fun t delta =>
        (p.learningRate / (1 + p.decay * t), delta)) ∧
      s.updates = deltas.length ∧
      (∀ k, s.model.theta.get k = m.startWeight k changes +
        (deltas.mapIdx fun t delta => p.learningRate / (1 + p.decay * t) * delta.get k).sum) ∧
      (l.RecordsOnce → ∃ last, changes = s.events.filterMap Event.change? ++ last ∧
        last.length ≤ 1 ∧ (outcome = .ok () → last = [])) := by
  obtain ⟨changes, hleads⟩ := logs_train hp (l.start m)
  rw [h] at hleads
  have hstart : (l.start m).updates = 0 := rfl
  have hpaced := hleads.paces.map_eq (β := Rat × SparseVector Rat) id
  have hadded := fun k => hleads.paces.map_eq (Model.moveAt k)
  simp only [hstart, Nat.zero_add, List.map_id, id] at hpaced hadded
  refine ⟨changes, (Change.moves changes).map Prod.snd, hleads.model, hpaced, ?_, fun k => ?_, ?_⟩
  · rw [hleads.updates, hstart, Nat.zero_add, List.length_map]
  · rw [hleads.model, Model.get_after, ← Change.moves, hadded]
    rfl
  · intro honce
    obtain ⟨shown, last, hevents, hchanges, hlength, hlast⟩ := hleads.events honce
    obtain rfl : s.events = shown := hevents
    exact ⟨last, hchanges, hlength, fun hok => hlast ⟨(), hok⟩⟩

/-- A learner of a sentence with linked entries, with a margin that is reached by no update. -/
def pacedLearner : Learner Rat :=
  { linkedLearner with
    config := ⟨.int 3, .int 10, .int 10, true⟩
    perceptron := some ⟨1, 3, 1⟩ }

/-- What a run of three epochs leaves. -/
def pacedRun : Except Fault Unit × Session Rat :=
  pacedLearner.train (pacedLearner.start linkedStart.model)

/-- The run makes an update in each epoch, with step sizes that decay. -/
theorem no_update_lost_paced : ∃ (s : Session Rat) (deltas : List (SparseVector Rat)),
    pacedRun = (.ok (), s) ∧ deltas.length = 3 ∧
    s.model = linkedStart.model.after (s.events.filterMap Event.change?) ∧
    Change.moves (s.events.filterMap Event.change?) =
      deltas.mapIdx fun t delta => (1 / (1 + 1 * (t : Rat)), delta) := by
  have hrun : pacedRun.1.toOption = some () := by decide +kernel
  have hupdates : pacedRun.2.updates = 3 := by decide +kernel
  cases hs : pacedRun with
  | mk outcome s =>
    rw [hs] at hrun hupdates
    cases outcome with
    | error fault => cases hrun
    | ok u =>
      obtain ⟨changes, deltas, hmodel, hmoves, hlength, -, hevents⟩ :=
        no_update_lost (l := pacedLearner) rfl linkedStart.model hs
      obtain ⟨last, hchanges, -, hlast⟩ := hevents rfl
      rw [hlast rfl, List.append_nil] at hchanges
      subst hchanges
      exact ⟨s, deltas, rfl, hlength.symm.trans hupdates, hmodel, hmoves⟩

end Learner

end Categorial
