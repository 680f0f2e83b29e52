import Categorial.Proofs.Learning.Trace

/-!
What a run counts. Events, counters, the size of the lexicon and the number of updates are written
at different places of a run, and agree again after each item. Main statement: the events of a run
that ends are those of its items, epoch after epoch; every counter of an epoch is the number of its
events; and the sums of the counters are the growth of the lexicon and the number of updates.
-/

namespace Categorial

variable {K : Type}

/-- Where an event looks for entries. -/
def Event.look? : Event K → Option Place
  | induced place _ _ | entryAdded place _ _ => some place
  | _ => none

/-- Where some events look for entries. -/
def looks (es : List (Event K)) : List Place := es.filterMap Event.look?

theorem place?_of_look? {event : Event K} {place : Place} (h : event.look? = some place) :
    event.place? = some place := by
  cases event <;> simp_all [Event.look?, Event.place?]

theorem addedAt_eq_zero {es : List (Event K)} {place : Place} (h : place ∉ looks es) :
    addedAt place es = 0 := by
  rw [addedAt, List.countP_eq_zero]
  intro event hevent
  rw [decide_eq_true_eq, not_and]
  intro hcounter hplace
  refine h (List.mem_filterMap.2 ⟨event, hevent, ?_⟩)
  cases event <;> simp_all [Event.look?, Event.place?, Event.counter?]

namespace Session

variable {s s' s'' : Session K} {es es' : List (Event K)}

/-- Whether nothing that is counted changed from a session to another one. -/
structure Quiet (s s' : Session K) : Prop where
  events : s'.events = s.events
  lexicon : s'.model.lexicon = s.model.lexicon
  counts : s'.stats.counts = s.stats.counts
  found : s'.stats.found = s.stats.found
  updates : s'.updates = s.updates

/-- Whether a session counts what some events after another session show. The entries found at a
place are those that were added, if none were looked for there before. -/
structure Tallies (s s' : Session K) (es : List (Event K)) : Prop where
  events : s'.events = s.events ++ es
  counts : ∀ c epoch, s'.stats.get c epoch = s.stats.get c epoch + tallyIn epoch c es
  totals : ∀ c, s'.stats.total c = s.stats.total c + tally c es
  found : ∀ place : Place, (place ∈ looks es → s.stats.entriesOf place.index place.epoch = 0) →
    s'.stats.entriesOf place.index place.epoch =
      s.stats.entriesOf place.index place.epoch + addedAt place es
  size : (s'.model.lexicon.size : Int) = s.model.lexicon.size + tally .newEntries es
  updates : s'.updates = s.updates + tally .updates es

theorem Quiet.tallies (h : s.Quiet s') : s.Tallies s' [] where
  events := by rw [h.events, List.append_nil]
  counts c epoch := by simp [Stats.get, h.counts, tallyIn]
  totals c := by simp [Stats.total, h.counts, tally]
  found place _ := by simp [Stats.entriesOf, h.found, addedAt]
  size := by simp [h.lexicon, tally]
  updates := by simp [h.updates, tally]

/-- What is counted adds up, if entries are not looked for at one place twice. -/
theorem Tallies.trans (h : s.Tallies s' es) (h' : s'.Tallies s'' es')
    (hapart : ∀ place ∈ looks es, place ∉ looks es') : s.Tallies s'' (es ++ es') where
  events := by rw [h'.events, h.events, List.append_assoc]
  counts c epoch := by
    rw [h'.counts, h.counts, tallyIn_append]
    omega
  totals c := by
    rw [h'.totals, h.totals, tally, tally, tally, List.countP_append]
    omega
  found place hnone := by
    rw [looks, List.filterMap_append, List.mem_append] at hnone
    have hfirst := h.found place fun hplace => hnone (Or.inl hplace)
    have hadded : addedAt place (es ++ es') = addedAt place es + addedAt place es' :=
      List.countP_append
    rw [h'.found place ?_, hfirst, hadded]
    · omega
    · intro hplace
      have hzero := addedAt_eq_zero fun hearlier => hapart place hearlier hplace
      rw [hfirst, hzero, hnone (Or.inr hplace)]
      rfl
  size := by
    rw [h'.size, h.size, tally, tally, tally, List.countP_append]
    omega
  updates := by
    rw [h'.updates, h.updates, tally, tally, tally, List.countP_append]
    omega

/-- Steps that count nothing may come first. -/
theorem Quiet.trans (h : s.Quiet s') (h' : s'.Tallies s'' es) : s.Tallies s'' es :=
  h.tallies.trans h' fun _ hplace => absurd hplace List.not_mem_nil

/-- Whether `n` entries were added from a session to another one, and shown at a place. -/
structure Announces (place : Place) (n : Int) (s s' : Session K) (es : List (Event K)) : Prop where
  events : s'.events = s.events ++ es
  own : ∀ event ∈ es, ∃ e linked, event = .entryAdded place e linked
  length : (es.length : Int) = n
  size : (s'.model.lexicon.size : Int) = s.model.lexicon.size + n
  stats : s'.stats = s.stats
  updates : s'.updates = s.updates

theorem announces_nil (place : Place) (s : Session K) : Announces place 0 s s [] :=
  ⟨(List.append_nil _).symm, by simp, rfl, (Int.add_zero _).symm, rfl, rfl⟩

theorem Announces.trans {place : Place} {n n' : Int} (h : Announces place n s s' es)
    (h' : Announces place n' s' s'' es') : Announces place (n + n') s s'' (es ++ es') where
  events := by rw [h'.events, h.events, List.append_assoc]
  own event hevent := (List.mem_append.1 hevent).elim (h.own event) (h'.own event)
  length := by
    rw [List.length_append, Nat.cast_add, h.length, h'.length]
  size := by
    rw [h'.size, h.size]
    omega
  stats := h'.stats.trans h.stats
  updates := h'.updates.trans h.updates

/-- Entries that were added at a place are all of the events, and the only ones that count. -/
theorem Announces.tally_eq {place : Place} {n : Int} (h : Announces place n s s' es) :
    (∀ c, (tally c es : Int) = if c = .newEntries then n else 0) ∧
    (∀ c (epoch : Int), (tallyIn epoch c es : Int) =
      if epoch = place.epoch ∧ c = .newEntries then n else 0) ∧
    (addedAt place es : Int) = n := by
  have hcount : ∀ p : Event K → Bool, ∀ b : Bool,
      (∀ e linked, p (.entryAdded place e linked) = b) →
        (es.countP p : Int) = if b then n else 0 := by
    intro p b hp
    cases b with
    | true =>
      rw [List.countP_eq_length.2 fun event hevent => ?_, h.length, if_pos rfl]
      obtain ⟨e, linked, rfl⟩ := h.own event hevent
      exact hp e linked
    | false =>
      rw [List.countP_eq_zero.2 fun event hevent => ?_, if_neg Bool.false_ne_true, Nat.cast_zero]
      obtain ⟨e, linked, rfl⟩ := h.own event hevent
      rw [hp e linked]
      exact Bool.false_ne_true
  refine ⟨fun c => ?_, fun c epoch => ?_, ?_⟩
  · rw [tally, hcount _ (decide (c = .newEntries)) fun e linked => ?_]
    · simp
    · simp [Event.counter?, eq_comm]
  · rw [tallyIn, hcount _ (decide (epoch = place.epoch ∧ c = .newEntries)) fun e linked => ?_]
    · simp
    · simp [Event.counter?, Event.epoch, eq_comm, and_comm]
  · rw [addedAt, hcount _ true fun e linked => by simp [Event.counter?, Event.place?]]
    simp

/-- An event that looks for entries comes first, then they are added, and then they are counted. -/
theorem Announces.tallies {place : Place} {n : Int} {event : Event K}
    (hnone : event.counter? = none) (hlook : event.look? = some place)
    (hshown : s'.model = s.model ∧ s'.stats = s.stats ∧ s'.updates = s.updates ∧
      s'.events = s.events ++ [event])
    (h : Announces place n s' s'' es) :
    s.Tallies { s'' with stats := s''.stats.countEntries place.epoch place.index n }
      (event :: es) := by
  obtain ⟨hmodel, hstats, hupdates, hevents⟩ := hshown
  obtain ⟨htally, htallyIn, haddedAt⟩ := h.tally_eq
  have hfirst : ∀ c, tally c (event :: es) = tally c es := fun c => by simp [tally, hnone]
  refine ⟨?_, fun c epoch => ?_, fun c => ?_, fun place' hbefore => ?_, ?_, ?_⟩
  · rw [h.events, hevents, List.append_assoc, List.singleton_append]
  · rw [show tallyIn epoch c (event :: es) = tallyIn epoch c es by simp [tallyIn, hnone],
      htallyIn, ← hstats, ← h.stats]
    exact Stats.get_count ..
  · rw [hfirst, htally, ← hstats, ← h.stats]
    exact Stats.total_count ..
  · rw [show addedAt place' (event :: es) = addedAt place' es by simp [addedAt, hnone],
      Stats.entriesOf_countEntries]
    -- The record of the place is new, and those of other places stay.
    by_cases hplace : place' = place
    · subst hplace
      rw [hbefore (List.mem_filterMap.2 ⟨event, List.mem_cons_self, hlook⟩), haddedAt, if_pos rfl,
        Int.zero_add]
    · have hnowhere : place' ∉ looks es := by
        intro hmem
        obtain ⟨event', hevent', heq⟩ := List.mem_filterMap.1 hmem
        obtain ⟨e, linked, rfl⟩ := h.own event' hevent'
        exact hplace (Option.some.inj heq).symm
      have hother : ((place'.epoch : Int), (place'.index : Int)) ≠
          (↑place.epoch, ↑place.index) := by
        intro heq
        obtain ⟨hepoch, hindex⟩ := Prod.mk.inj heq
        refine hplace ?_
        cases place'
        cases place
        exact (Place.mk.injEq ..).mpr ⟨Nat.cast_inj.1 hepoch, Nat.cast_inj.1 hindex⟩
      rw [if_neg hother, addedAt_eq_zero hnowhere, ← hstats, ← h.stats, Nat.cast_zero, Int.add_zero]
  · rw [hfirst, htally, if_pos rfl, h.size, hmodel]
  · have hnothing := htally .updates
    rw [if_neg (by decide)] at hnothing
    rw [hfirst, h.updates, hupdates]
    omega

end Session

open Training Session

/-- A loop that shows what its steps add shows all that it adds up. -/
theorem Session.announces_of_foldlM {α : Type} {f : Int → α → Training K Int} {place : Place}
    (hstep : ∀ {n a s n' s'}, f n a s = (.ok n', s') →
      ∃ k, n' = n + k ∧ ∃ es, Announces place k s s' es)
    (as : List α) {n n' : Int} {s s' : Session K} (h : as.foldlM f n s = (.ok n', s')) :
    ∃ k, n' = n + k ∧ ∃ es, Announces place k s s' es := by
  induction as generalizing n s with
  | nil =>
    obtain ⟨hn, rfl⟩ := Prod.mk.inj h
    exact ⟨0, by rw [Int.add_zero, Except.ok.inj hn], [], announces_nil place s⟩
  | cons a as ih =>
    obtain ⟨m, t, hfirst, hrest⟩ := bind_run_eq_ok.1 h
    obtain ⟨j, rfl, es, hes⟩ := hstep hfirst
    obtain ⟨k, rfl, es', hes'⟩ := ih hrest
    exact ⟨j + k, by omega, es ++ es', hes.trans hes'⟩

section

variable {s s' : Session K}

theorem Session.quiet_of_record {f : Stats K → Except Fault Unit × Stats K}
    (hf : ∀ st, (f st).2.counts = st.counts ∧ (f st).2.found = st.found)
    (h : Training.record f s = (.ok (), s')) : s.Quiet s' := by
  obtain ⟨-, rfl⟩ := Prod.mk.inj h
  exact ⟨rfl, rfl, (hf s.stats).1, (hf s.stats).2, rfl⟩

theorem looks_of_move {es : List (Event K)} {place : Place} (h : Learner.MoveTrace place es) :
    looks es = [] := by
  rcases h with rfl | ⟨delta, step, rfl⟩ <;> rfl

/-- A loop over things that are at places of their own counts what each of them shows. -/
theorem Session.tallies_forM {α : Type} {f : α → Training K Unit} {R : α → List (Event K) → Prop}
    {own : α → Place → Prop}
    (hf : ∀ a s s', f a s = (.ok (), s') → ∃ es, R a es ∧ s.Tallies s' es)
    (hown : ∀ a es, R a es → ∀ event ∈ es, ∀ place, event.place? = some place → own a place)
    {as : List α} (hapart : as.Pairwise fun a b => ∀ place, own a place → ¬ own b place)
    (h : as.forM f s = (.ok (), s')) : ∃ es, Blocks R as es ∧ s.Tallies s' es := by
  induction as generalizing s with
  | nil =>
    obtain ⟨-, rfl⟩ := Prod.mk.inj h
    exact ⟨[], .nil, Quiet.tallies ⟨rfl, rfl, rfl, rfl, rfl⟩⟩
  | cons a as ih =>
    rw [List.pairwise_cons] at hapart
    obtain ⟨_, t, hfirst, hrest⟩ := bind_run_eq_ok.1 h
    obtain ⟨block, hblock, htallies⟩ := hf a s t hfirst
    obtain ⟨rest, hblocks, htallies'⟩ := ih hapart.2 hrest
    refine ⟨block ++ rest, .cons hblock hblocks, htallies.trans htallies' ?_⟩
    intro place hplace hlater
    obtain ⟨event, hevent, hlook⟩ := List.mem_filterMap.1 hplace
    obtain ⟨event', hevent', hlook'⟩ := List.mem_filterMap.1 hlater
    obtain ⟨b, hb, block', hblock', hmem⟩ := hblocks.exists_of_mem hevent'
    exact hapart.1 b hb place (hown a block hblock event hevent place (place?_of_look? hlook))
      (hown b block' hblock' event' hmem place (place?_of_look? hlook'))

end

variable [Scalar K]

namespace Learner

variable {l : Learner K} {place : Place} {item : Item} {s s' t : Session K} {event : Event K}

/-- An event that is shown without a fault is kept once, and nothing else changes. -/
theorem shown_of_notify (honce : l.RecordsOnce) (h : l.notify event s = (.ok (), s')) :
    s'.model = s.model ∧ s'.stats = s.stats ∧ s'.updates = s.updates ∧
      s'.events = s.events ++ [event] := by
  have hobserves := observes_notify l event s
  obtain ⟨n, -, hevents, hall⟩ := Observer.events_notify l.observers event s
  have hrun : Observer.notify l.observers event s = (.ok (), s') := h
  rw [h] at hobserves
  rw [hrun] at hevents hall
  refine ⟨hobserves.1, hobserves.2.1, hobserves.2.2, ?_⟩
  rw [hevents, hall rfl, show l.observers.countP Observer.isRecording = 1 from honce,
    List.replicate_one]

/-- An event that belongs to no counter is shown alone. -/
theorem tallies_notify (honce : l.RecordsOnce) (hnone : event.counter? = none)
    (h : l.notify event s = (.ok (), s')) : s.Tallies s' [event] := by
  obtain ⟨hmodel, hstats, hupdates, hevents⟩ := shown_of_notify honce h
  refine ⟨hevents, ?_, ?_, ?_, ?_, ?_⟩ <;>
    simp [hmodel, hstats, hupdates, tally, tallyIn, addedAt, hnone]

/-- An event is counted and then shown. -/
theorem tallies_counted (honce : l.RecordsOnce) {c : Counter} (hc : event.counter? = some c)
    (hold : c ≠ .newEntries) (h : l.notify event t = (.ok (), s')) (hevents : t.events = s.events)
    (hlexicon : t.model.lexicon = s.model.lexicon)
    (hstats : t.stats = s.stats.count event.epoch c 1)
    (hupdates : t.updates = s.updates + if c = .updates then 1 else 0) :
    s.Tallies s' [event] := by
  obtain ⟨hmodel, hstats', hupdates', hevents'⟩ := shown_of_notify honce h
  refine ⟨by rw [hevents', hevents], fun c' epoch => ?_, fun c' => ?_, fun place _ => ?_, ?_, ?_⟩
  · have hsame : (epoch = event.epoch ∧ c' = c) ↔ (c = c' ∧ (event.epoch : Int) = epoch) := by
      constructor <;> rintro ⟨rfl, rfl⟩ <;> exact ⟨rfl, rfl⟩
    rw [hstats', hstats, Stats.get_count]
    simp [tallyIn, hc, hsame]
  · rw [hstats', hstats, Stats.total_count]
    simp [tally, hc, eq_comm]
  · rw [hstats', hstats]
    simp [Stats.entriesOf, Stats.count, addedAt, hc, hold]
  · rw [hmodel, hlexicon]
    simp [tally, hc, hold]
  · rw [hupdates', hupdates]
    simp [tally, hc]

theorem quiet_of_analyze {options : ParseOptions} {analysis : Analysis K}
    (h : l.analyze item options s = (.ok analysis, s')) : s.Quiet s' := by
  obtain ⟨-, rfl⟩ := Prod.mk.inj h
  exact ⟨rfl, rfl, rfl, rfl, rfl⟩

/-- A learned entry is shown if it is new. -/
theorem announces_of_learn (honce : l.RecordsOnce) {linked : Bool} {e : Entry} {n : Int}
    (h : l.learn place linked e s = (.ok n, s')) : ∃ es, Announces place n s s' es := by
  have htaught := taught_of_learn h
  rw [learn_run, bind_run_eq_ok] at h
  obtain ⟨new, t, hlift, hrest⟩ := h
  obtain ⟨-, rfl⟩ := Prod.mk.inj hlift
  have hn := announce_eq_ok hrest
  cases new with
  | false =>
    obtain ⟨-, rfl⟩ := Prod.mk.inj hrest
    obtain rfl : n = 0 := hn
    exact ⟨[], (List.append_nil _).symm, by simp, rfl, htaught.size, htaught.stats, rfl⟩
  | true =>
    obtain ⟨_, t', hnotify, hpure⟩ := bind_run_eq_ok.1 hrest
    obtain ⟨-, rfl⟩ := Prod.mk.inj hpure
    obtain rfl : n = 1 := hn
    obtain ⟨-, -, hupdates, hevents⟩ := shown_of_notify honce hnotify
    refine ⟨_, hevents, fun event hevent => ?_, rfl, htaught.size, htaught.stats, hupdates⟩
    exact ⟨_, _, List.mem_singleton.1 hevent⟩

theorem announces_of_learnUsed (honce : l.RecordsOnce) {e : Entry} {n n' : Int}
    (h : l.learnUsed place n e s = (.ok n', s')) :
    ∃ k, n' = n + k ∧ ∃ es, Announces place k s s' es := by
  rw [learnUsed] at h
  split at h
  · obtain ⟨hn, rfl⟩ := Prod.mk.inj h
    exact ⟨0, by rw [Int.add_zero, Except.ok.inj hn], [], announces_nil place s⟩
  · obtain ⟨first, t, hfirst, hrest⟩ := bind_run_eq_ok.1 h
    obtain ⟨es, hes⟩ := announces_of_learn honce hfirst
    obtain ⟨k, rfl, es', hes'⟩ := announces_of_foldlM (fun hstep => by
      obtain ⟨k, hlearn, rfl⟩ := map_run_eq_ok.1 hstep
      exact ⟨k, rfl, announces_of_learn honce hlearn⟩) _ hrest
    exact ⟨first + k, by omega, _, hes.trans hes'⟩

/-- A look for entries shows the proposal and the added entries, and then counts the latter. -/
theorem tallies_induce (honce : l.RecordsOnce) (h : l.induce place item s = (.ok (), s')) :
    ∃ induction added, (∀ event ∈ added, ∃ e linked, event = .entryAdded place e linked) ∧
      s.Tallies s' (.induced place item induction :: added) := by
  obtain ⟨proposed, s₁, hgenerate, h⟩ := bind_run_eq_ok.1 h
  obtain ⟨-, rfl⟩ := Prod.mk.inj hgenerate
  by_cases hsize : proposed.size = 0
  · rw [if_pos hsize] at h
    exact ⟨_, [], by simp, tallies_notify honce rfl h⟩
  · rw [if_neg hsize] at h
    obtain ⟨analysis, s₂, hanalysis, h⟩ := bind_run_eq_ok.1 h
    obtain ⟨_, s₃, hrecord, h⟩ := bind_run_eq_ok.1 h
    obtain ⟨valid, s₄, hlift, h⟩ := bind_run_eq_ok.1 h
    obtain ⟨-, rfl⟩ := Prod.mk.inj hlift
    obtain ⟨_, s₅, hnotify, h⟩ := bind_run_eq_ok.1 h
    obtain ⟨n, s₆, hlearn, hcount⟩ := bind_run_eq_ok.1 h
    obtain ⟨-, rfl⟩ := Prod.mk.inj hcount
    obtain ⟨k, hk, added, hadded⟩ := announces_of_foldlM (announces_of_learnUsed honce) _ hlearn
    obtain rfl : n = k := by omega
    exact ⟨_, added, hadded.own, (quiet_of_analyze hanalysis).trans
      ((quiet_of_record (fun _ => ⟨rfl, rfl⟩) hrecord).trans
        (hadded.tallies rfl rfl (shown_of_notify honce hnotify)))⟩

theorem tallies_update {p : Perceptron K} (hp : l.perceptron = some p) (honce : l.RecordsOnce)
    {parses : List (Parse K)} (h : l.update place item parses s = (.ok (), s')) :
    ∃ es, MoveTrace place es ∧ s.Tallies s' es := by
  rw [update_run hp] at h
  split at h
  · obtain ⟨-, rfl⟩ := Prod.mk.inj h
    exact ⟨[], Or.inl rfl, Quiet.tallies ⟨rfl, rfl, rfl, rfl, rfl⟩⟩
  · rename_i delta step _ _
    exact ⟨_, Or.inr ⟨delta, step, rfl⟩,
      tallies_counted honce (c := .updates) rfl (by decide) h rfl rfl rfl rfl⟩
  · cases h
  · cases h

/-- After the look for entries an item shows its parse, its update and its end. -/
theorem tallies_practise {p : Perceptron K} (hp : l.perceptron = some p) (honce : l.RecordsOnce)
    (h : l.practise place item s = (.ok (), s')) : ∃ analysis move, MoveTrace place move ∧
      s.Tallies s' (.analyzed place item analysis :: (move ++ [.exampleEnd place])) := by
  obtain ⟨analysis, s₁, hanalysis, h⟩ := bind_run_eq_ok.1 h
  obtain ⟨_, s₂, hrecord, h⟩ := bind_run_eq_ok.1 h
  obtain ⟨_, s₃, hnotify, h⟩ := bind_run_eq_ok.1 h
  obtain ⟨_, s₄, hupdate, h⟩ := bind_run_eq_ok.1 h
  obtain ⟨_, s₅, hcount, hend⟩ := bind_run_eq_ok.1 h
  obtain ⟨-, rfl⟩ := Prod.mk.inj hcount
  obtain ⟨move, hmove, htallies⟩ := tallies_update hp honce hupdate
  have hended := tallies_counted (s := s₄) honce (c := .processed) rfl (by decide) hend rfl rfl rfl
    rfl
  refine ⟨analysis, move, hmove, (quiet_of_analyze hanalysis).trans
    ((quiet_of_record (fun _ => ⟨rfl, rfl⟩) hrecord).trans ?_)⟩
  refine (tallies_notify honce rfl hnotify).trans (htallies.trans hended ?_) ?_
  · intro place' hplace
    rw [looks_of_move hmove] at hplace
    cases hplace
  · intro place' hplace
    cases hplace

/-- An item shows its events, and counts them. -/
theorem tallies_trainItem {p : Perceptron K} (hp : l.perceptron = some p) (honce : l.RecordsOnce)
    (h : l.trainItem place item s = (.ok (), s')) :
    ∃ es, l.ItemTrace place item es ∧ s.Tallies s' es := by
  rw [trainItem_eq] at h
  obtain ⟨_, s₁, hstart, h⟩ := bind_run_eq_ok.1 h
  have hstarted := tallies_notify honce rfl hstart
  split at h
  · rename_i hlong
    obtain ⟨_, s₂, hcount, hskip⟩ := bind_run_eq_ok.1 h
    obtain ⟨-, rfl⟩ := Prod.mk.inj hcount
    have hskipped := tallies_counted (s := s₁) honce (c := .skipped) rfl (by decide) hskip rfl rfl
      rfl rfl
    exact ⟨_, .skipped _ hlong, hstarted.trans hskipped fun _ hplace => by cases hplace⟩
  · rename_i hshort
    obtain ⟨_, s₂, hlook, hpractise⟩ := bind_run_eq_ok.1 h
    obtain ⟨analysis, move, hmove, hpractised⟩ := tallies_practise hp honce hpractise
    have hlooked : ∃ look, l.LookTrace place item look ∧ s₁.Tallies s₂ look := by
      split at hlook
      · rename_i hlearns
        obtain ⟨induction, added, hadded, htallies⟩ := tallies_induce honce hlook
        exact ⟨_, by rw [LookTrace, if_pos hlearns]; exact ⟨_, _, rfl, hadded⟩, htallies⟩
      · rename_i hlearns
        obtain ⟨-, rfl⟩ := Prod.mk.inj hlook
        exact ⟨[], by rw [LookTrace, if_neg hlearns], Quiet.tallies ⟨rfl, rfl, rfl, rfl, rfl⟩⟩
    obtain ⟨look, htrace, htallies⟩ := hlooked
    refine ⟨_, .seen analysis (Bool.not_eq_true _ ▸ hshort) htrace hmove, ?_⟩
    refine hstarted.trans (htallies.trans hpractised fun place' _ hplace => ?_) fun _ hplace => by
      cases hplace
    rw [← List.singleton_append, looks, List.filterMap_append, List.filterMap_append,
      show move.filterMap Event.look? = [] from looks_of_move hmove] at hplace
    cases hplace

/-- An epoch shows its start, the events of its items and its end, and counts them. -/
theorem tallies_trainEpoch {p : Perceptron K} (hp : l.perceptron = some p) (honce : l.RecordsOnce)
    {epoch : Nat} (h : l.trainEpoch epoch s = (.ok (), s')) :
    ∃ es, l.EpochTrace epoch es ∧ s.Tallies s' es := by
  obtain ⟨_, s₁, hstart, h⟩ := bind_run_eq_ok.1 h
  obtain ⟨_, s₂, hitems, hend⟩ := bind_run_eq_ok.1 h
  -- What is found at a place is recorded, not added up, so no two items may have a place in common.
  have hindexes : l.items.zipIdx.Pairwise fun x y =>
      ∀ place : Place, place = ⟨epoch, x.2⟩ → ¬ place = ⟨epoch, y.2⟩ := by
    have hnodup : (l.items.zipIdx.map Prod.snd).Nodup := by
      rw [List.zipIdx_map_snd]
      exact List.nodup_range'
    refine (List.pairwise_map.1 hnodup).imp ?_
    rintro x y hne place rfl heq
    exact hne (Place.mk.inj heq).2
  obtain ⟨seen, hseen, htallies⟩ := tallies_forM
    (R := fun x : Item × Nat => l.ItemTrace ⟨epoch, x.2⟩ x.1)
    (fun _ _ _ hrun => tallies_trainItem hp honce hrun)
    (fun x es hes event hevent place hplace =>
      Option.some.inj (hplace.symm.trans (hes.place? hevent))) hindexes hitems
  refine ⟨_, ⟨seen, hseen, rfl⟩, (tallies_notify honce rfl hstart).trans
    (htallies.trans (tallies_notify honce rfl hend) ?_) ?_⟩
  · intro place _ hplace
    cases hplace
  · intro place hplace
    cases hplace

/-- A run that ends shows its epochs, and counts what they show. -/
theorem tallies_train {p : Perceptron K} (hp : l.perceptron = some p) (honce : l.RecordsOnce)
    (h : l.train s = (.ok (), s')) : ∃ epochs es, l.config.epochs.whole = .ok epochs ∧
      Blocks l.EpochTrace (List.range epochs.toNat) es ∧ s.Tallies s' es := by
  obtain ⟨epochs, s₁, hlift, h⟩ := bind_run_eq_ok.1 h
  obtain ⟨hepochs, rfl⟩ := Prod.mk.inj hlift
  have hapart : (List.range epochs.toNat).Pairwise fun a b =>
      ∀ place : Place, place.epoch = a → ¬ place.epoch = b := by
    refine List.nodup_range.imp ?_
    rintro a b hne place rfl heq
    exact hne heq
  obtain ⟨es, hblocks, htallies⟩ := tallies_forM (R := l.EpochTrace)
    (fun _ _ _ hrun => tallies_trainEpoch hp honce hrun)
    (fun _ _ hes _ hevent _ hplace => (hes.place? hevent hplace).1) hapart h
  exact ⟨epochs, es, hepochs, hblocks, htallies⟩

/-- The trace of a run that ends and its statistics agree. The events are those of the epochs, in
each of which every item shows its own; a counter of an epoch is the number of its events; every
item of an epoch is processed or skipped; the entries found at the items of an epoch are those that
are counted for it; and over all epochs the new entries are the growth of the lexicon, and the
updates are those of the session. -/
theorem trace_agrees {p : Perceptron K} (hp : l.perceptron = some p) (honce : l.RecordsOnce)
    (m : Model K) (h : l.train (l.start m) = (.ok (), s)) :
    ∃ epochs, l.config.epochs.whole = .ok epochs ∧
      Blocks l.EpochTrace (List.range epochs.toNat) s.events ∧
      (∀ (epoch : Int) (c : Counter), s.stats.get c epoch = tallyIn epoch c s.events) ∧
      (∀ epoch < epochs.toNat,
        s.stats.get .processed epoch + s.stats.get .skipped epoch = l.items.length) ∧
      (∀ place : Place,
        s.stats.entriesOf place.index place.epoch = addedAt place s.events) ∧
      (∀ epoch : Nat, ((List.range l.items.length).map fun (index : Nat) =>
        s.stats.entriesOf index epoch).sum = s.stats.get .newEntries epoch) ∧
      s.stats.total .newEntries = (s.model.lexicon.size : Int) - m.lexicon.size ∧
      s.stats.total .updates = s.updates := by
  obtain ⟨epochs, es, hepochs, hblocks, htallies⟩ := tallies_train hp honce h
  obtain rfl : s.events = es := htallies.events
  have hcounts : ∀ (epoch : Int) (c : Counter), s.stats.get c epoch = tallyIn epoch c s.events :=
    fun epoch c => (htallies.counts c epoch).trans (Int.zero_add _)
  have hfound : ∀ place : Place,
      s.stats.entriesOf place.index place.epoch = addedAt place s.events :=
    fun place => (htallies.found place fun _ => rfl).trans (Int.zero_add _)
  have hplaces : ∀ event ∈ s.events, ∀ place, event.place? = some place →
      place.index < l.items.length := by
    intro event hevent place hplace
    obtain ⟨epoch, -, block, hblock, hmem⟩ := hblocks.exists_of_mem hevent
    exact (hblock.place? hmem hplace).2
  refine ⟨epochs, hepochs, hblocks, hcounts, fun epoch hlt => ?_, hfound, fun epoch => ?_, ?_, ?_⟩
  · rw [hcounts, hcounts, ← doneIn_of_blocks hblocks hlt, doneIn, Nat.cast_add]
  · have hsum : ((List.range l.items.length).map fun index => addedAt ⟨epoch, index⟩ s.events).sum =
        tallyIn epoch .newEntries s.events := sum_addedAt hplaces
    rw [hcounts, ← hsum]
    induction List.range l.items.length with
    | nil => rfl
    | cons index indexes ih =>
      rw [List.map_cons, List.map_cons, List.sum_cons, List.sum_cons, ih, Nat.cast_add]
      exact congrArg (· + _) (hfound ⟨epoch, index⟩)
  · have hsize := htallies.size
    have htotal := htallies.totals .newEntries
    have hstart : (l.start m).stats.total .newEntries = 0 := rfl
    have hmodel : (l.start m).model = m := rfl
    rw [hstart] at htotal
    rw [hmodel] at hsize
    omega
  · have hupdates := htallies.updates
    have htotal := htallies.totals .updates
    have hstart : (l.start m).stats.total .updates = 0 := rfl
    have hnone : (l.start m).updates = 0 := rfl
    rw [hstart] at htotal
    rw [hnone] at hupdates
    omega

/-- The learner that makes an update in each of three epochs shows and counts three of them. -/
theorem trace_agrees_paced : ∃ s : Session Rat, pacedRun = (.ok (), s) ∧
    Blocks pacedLearner.EpochTrace (List.range 3) s.events ∧
    tallyIn 2 .updates s.events = s.stats.get .updates 2 ∧ s.stats.total .updates = 3 ∧
    s.stats.get .processed 2 + s.stats.get .skipped 2 = 1 := by
  have hrun : pacedRun.1.toOption = some () := by decide +kernel
  have hthree : pacedRun.2.updates = 3 := by decide +kernel
  cases hs : pacedRun with
  | mk outcome s =>
    rw [hs] at hrun hthree
    cases outcome with
    | error fault => cases hrun
    | ok u =>
      obtain ⟨epochs, hepochs, hblocks, hcounts, hdone, -, -, -, hupdates⟩ :=
        trace_agrees (l := pacedLearner) rfl rfl linkedStart.model hs
      obtain rfl : 3 = epochs := Except.ok.inj hepochs
      exact ⟨s, rfl, hblocks, (hcounts 2 .updates).symm, hupdates.trans (congrArg _ hthree),
        hdone 2 (by decide)⟩

end Learner

end Categorial
