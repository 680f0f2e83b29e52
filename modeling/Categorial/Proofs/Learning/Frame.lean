import Categorial.Learning.Learner

/-!
What observers leave alone. Main statement: showing an event to observers changes neither the model
nor the statistics nor the number of updates, whether an observer fails or not; and only observers
that keep events add to the events, each of them the one that it is shown.
-/

namespace Categorial

namespace Training

variable {K α β : Type}

/-- Whether a step relates every session to the one that it leaves, also where it fails. -/
def Always (R : Session K → Session K → Prop) (x : Training K α) : Prop :=
  ∀ s, R s (x s).2

theorem Always.bind {R : Session K → Session K → Prop} {x : Training K α} {f : α → Training K β}
    (htrans : ∀ {s t u}, R s t → R t u → R s u) (hx : x.Always R) (hf : ∀ a, (f a).Always R) :
    (x >>= f).Always R := by
  intro s
  have hfirst := hx s
  cases hrun : x s with
  | mk outcome t =>
    rw [hrun] at hfirst
    cases outcome with
    | error fault =>
      rw [bind_run_error hrun]
      exact hfirst
    | ok a =>
      rw [bind_run_ok hrun]
      exact htrans hfirst (hf a t)

/-- Whether a step leaves the model and the number of updates as they are, also where it fails. -/
def Keeps (x : Training K α) : Prop :=
  x.Always fun s t => t.model = s.model ∧ t.updates = s.updates

theorem keeps_pure (a : α) : (pure a : Training K α).Keeps := fun _ => ⟨rfl, rfl⟩

theorem keeps_session : (session : Training K (Session K)).Keeps := fun _ => ⟨rfl, rfl⟩

theorem keeps_lift (x : Except Fault α) : (lift x : Training K α).Keeps := fun _ => ⟨rfl, rfl⟩

theorem keeps_traced (x : Traced α) : (traced x : Training K α).Keeps := fun _ => ⟨rfl, rfl⟩

theorem keeps_count (f : Stats K → Stats K) : (count f).Keeps := fun _ => ⟨rfl, rfl⟩

theorem keeps_record (f : Stats K → Except Fault Unit × Stats K) : (record f).Keeps :=
  fun _ => ⟨rfl, rfl⟩

theorem Keeps.bind {x : Training K α} {f : α → Training K β} (hx : x.Keeps)
    (hf : ∀ a, (f a).Keeps) : (x >>= f).Keeps :=
  Always.bind (fun h h' => ⟨h'.1.trans h.1, h'.2.trans h.2⟩) hx hf

/-- Whether a step only writes things down: it leaves the model, the statistics and the number of
updates as they are, also where it fails. -/
def Observes (x : Training K α) : Prop :=
  x.Always fun s t => t.model = s.model ∧ t.stats = s.stats ∧ t.updates = s.updates

theorem Observes.keeps {x : Training K α} (hx : x.Observes) : x.Keeps :=
  fun s => ⟨(hx s).1, (hx s).2.2⟩

theorem observes_pure (a : α) : (pure a : Training K α).Observes := fun _ => ⟨rfl, rfl, rfl⟩

theorem observes_session : (session : Training K (Session K)).Observes := fun _ => ⟨rfl, rfl, rfl⟩

theorem observes_lift (x : Except Fault α) : (lift x : Training K α).Observes :=
  fun _ => ⟨rfl, rfl, rfl⟩

theorem observes_traced (x : Traced α) : (traced x : Training K α).Observes :=
  fun _ => ⟨rfl, rfl, rfl⟩

theorem Observes.bind {x : Training K α} {f : α → Training K β} (hx : x.Observes)
    (hf : ∀ a, (f a).Observes) : (x >>= f).Observes :=
  Always.bind
    (fun h h' => ⟨h'.1.trans h.1, h'.2.1.trans h.2.1, h'.2.2.trans h.2.2⟩) hx hf

theorem observes_forM {f : α → Training K Unit} (hf : ∀ a, (f a).Observes) (xs : List α) :
    (xs.forM f).Observes := by
  induction xs with
  | nil => exact observes_pure _
  | cons x xs ih => exact (hf x).bind fun _ => ih

/-- Whether a step adds to the trace and the notes alone, also where it fails. -/
def Writes (x : Training K α) : Prop :=
  x.Always fun s t => ∃ trace notes, t = { s with trace := trace, notes := notes }

theorem Writes.observes {x : Training K α} (hx : x.Writes) : x.Observes := by
  intro s
  obtain ⟨trace, notes, h⟩ := hx s
  rw [h]
  exact ⟨rfl, rfl, rfl⟩

theorem Writes.events {x : Training K α} (hx : x.Writes) (s : Session K) :
    (x s).2.events = s.events := by
  obtain ⟨trace, notes, h⟩ := hx s
  rw [h]

theorem writes_pure (a : α) : (pure a : Training K α).Writes := fun _ => ⟨_, _, rfl⟩

theorem writes_session : (session : Training K (Session K)).Writes := fun _ => ⟨_, _, rfl⟩

theorem writes_lift (x : Except Fault α) : (lift x : Training K α).Writes := fun _ => ⟨_, _, rfl⟩

theorem writes_note (n : Note) : (note n : Training K Unit).Writes := fun _ => ⟨_, _, rfl⟩

theorem Writes.bind {x : Training K α} {f : α → Training K β} (hx : x.Writes)
    (hf : ∀ a, (f a).Writes) : (x >>= f).Writes := by
  refine Always.bind ?_ hx hf
  rintro s t u ⟨trace, notes, rfl⟩ ⟨trace', notes', rfl⟩
  exact ⟨trace', notes', rfl⟩

theorem writes_forM {f : α → Training K Unit} (hf : ∀ a, (f a).Writes) (xs : List α) :
    (xs.forM f).Writes := by
  induction xs with
  | nil => exact writes_pure _
  | cons x xs ih => exact (hf x).bind fun _ => ih

end Training

namespace Observer

open Training

variable {K : Type}

theorem writes_inform (text : String) : (inform text : Training K Unit).Writes := writes_note _

theorem writes_informAll (texts : List String) : (informAll texts : Training K Unit).Writes :=
  writes_forM writes_inform texts

variable [Scalar K]

theorem writes_keepTrace (event : Event K) : (keepTrace event).Writes := by
  have hkeep : ∀ t : Trace K,
      (Training.change fun s : Session K => { s with trace := s.trace ++ [t] }).Writes :=
    fun t _ => ⟨_, _, rfl⟩
  unfold keepTrace
  cases event with
  | exampleSkipped => exact hkeep _
  | induced => exact (writes_lift _).bind fun _ => (writes_lift _).bind fun _ => hkeep _
  | entryAdded => exact hkeep _
  | analyzed => exact (writes_lift _).bind fun _ => hkeep _
  | updated => exact writes_session.bind fun _ => hkeep _
  | _ => exact writes_pure _

theorem writes_describe (p : Parse K) : (describe p).Writes := by
  refine writes_session.bind fun s => ?_
  refine (writes_forM (fun e => (writes_lift _).bind fun _ => writes_inform _) _).bind fun _ => ?_
  exact (writes_inform _).bind fun _ => (writes_lift _).bind fun _ => writes_inform _

theorem writes_reportTeacher (verbose : Bool) (item : Item) (p : Parse K) :
    (reportTeacher verbose item p).Writes := by
  refine (writes_lift _).bind fun _ => (writes_inform _).bind fun _ => ?_
  split
  · exact writes_describe p
  · exact writes_pure _

theorem writes_reportInduction (verbose : Bool) (item : Item) (induction : Induction K) :
    (reportInduction verbose item induction).Writes := by
  refine (writes_inform _).bind fun _ => ?_
  split
  · exact writes_inform _
  · exact (writes_informAll _).bind fun _ => writes_forM (writes_reportTeacher verbose item) _

theorem writes_report (limit : Option Number) (verbose : Bool) (event : Event K) :
    (report limit verbose event).Writes := by
  unfold report
  cases event with
  | epochStart => exact writes_informAll _
  | exampleStart => exact writes_informAll _
  | exampleSkipped => exact writes_note _
  | induced => exact writes_reportInduction _ _ _
  | entryAdded => exact writes_session.bind fun _ => writes_inform _
  | analyzed =>
    refine (writes_informAll _).bind fun _ => (writes_lift _).bind fun _ => writes_forM ?_ _
    exact fun p => (writes_lift _).bind fun _ => (writes_lift _).bind fun _ => writes_inform _
  | updated => exact writes_inform _
  | exampleEnd => exact writes_inform _
  | epochEnd => exact writes_session.bind fun _ => writes_inform _

/-- Whether an observer keeps events. -/
def isRecording : Observer → Bool
  | recording => true
  | _ => false

/-- An observer that keeps no events adds to the trace and the notes alone. -/
theorem writes_watch {observer : Observer} (h : observer.isRecording = false) (event : Event K) :
    (watch event observer).Writes := by
  cases observer with
  | tracing => exact writes_keepTrace event
  | recording => cases h
  | silent => exact writes_pure _
  | reporting limit verbose => exact writes_report limit verbose event

/-- Observers change neither the model nor the statistics nor the number of updates. -/
theorem observes_notify (observers : List Observer) (event : Event K) :
    (notify observers event).Observes := by
  refine observes_forM (fun observer => ?_) observers
  cases observer with
  | recording => exact fun _ => ⟨rfl, rfl, rfl⟩
  | _ => exact (writes_watch rfl event).observes

/-- Observers keep an event as often as there are some that keep events, if none fails. -/
theorem events_notify (observers : List Observer) (event : Event K) (s : Session K) :
    ∃ n ≤ observers.countP isRecording,
      (notify observers event s).2.events = s.events ++ List.replicate n event ∧
        ((notify observers event s).1 = .ok () → n = observers.countP isRecording) := by
  induction observers generalizing s with
  | nil => exact ⟨0, Nat.le_refl 0, (List.append_nil _).symm, fun _ => rfl⟩
  | cons observer observers ih =>
    have hcons : notify (observer :: observers) event =
        (watch event observer >>= fun _ => notify observers event) := rfl
    rw [hcons]
    cases hrecording : observer.isRecording with
    | true =>
      obtain rfl : observer = .recording := by cases observer <;> first | rfl | cases hrecording
      obtain ⟨n, hle, hevents, hok⟩ := ih { s with events := s.events ++ [event] }
      rw [List.countP_cons_of_pos hrecording]
      refine ⟨n + 1, Nat.succ_le_succ hle, ?_, fun h => congrArg _ (hok h)⟩
      rw [List.replicate_succ, ← List.singleton_append, ← List.append_assoc]
      exact hevents
    | false =>
      rw [List.countP_cons_of_neg (by rw [hrecording]; exact Bool.false_ne_true)]
      have hfirst := (writes_watch hrecording event).events s
      cases hrun : watch event observer s with
      | mk outcome t =>
        rw [hrun] at hfirst
        cases outcome with
        | error fault =>
          rw [bind_run_error hrun]
          refine ⟨0, Nat.zero_le _, ?_, fun h => by cases h⟩
          rw [hfirst, List.replicate_zero, List.append_nil]
        | ok u =>
          rw [bind_run_ok hrun, ← hfirst]
          exact ih t

end Observer

end Categorial
