import Mathlib.Algebra.BigOperators.Group.List.Basic
import Categorial.Proofs.Learning.Updates

/-!
The events of a run, epoch after epoch and item after item. An item shows its start and then either
that it was skipped, or a look for entries, the parse of the item, an update if there is one, and
its end. Main statements: every item of an epoch is counted once, as processed or as skipped; and
the entries added at the items of an epoch are all that are added in it.
-/

namespace Categorial

/-- Whether a list is put together from pieces, one for each element of another list. -/
inductive Blocks {α β : Type} (R : α → List β → Prop) : List α → List β → Prop
  | nil : Blocks R [] []
  | cons {a : α} {as : List α} {block rest : List β} (hblock : R a block)
      (hrest : Blocks R as rest) : Blocks R (a :: as) (block ++ rest)

namespace Blocks

variable {α β : Type} {R : α → List β → Prop} {as : List α} {bs : List β}

theorem exists_of_mem (h : Blocks R as bs) {b : β} (hb : b ∈ bs) :
    ∃ a ∈ as, ∃ block, R a block ∧ b ∈ block := by
  induction h with
  | nil => cases hb
  | cons hblock hrest ih =>
    rcases List.mem_append.1 hb with hb | hb
    · exact ⟨_, List.mem_cons_self, _, hblock, hb⟩
    · obtain ⟨a, ha, block, hR, hb⟩ := ih hb
      exact ⟨a, List.mem_cons_of_mem _ ha, block, hR, hb⟩

/-- What adds up over pieces is the sum of what it is for each piece. -/
theorem sum_eq {f : List β → Nat} {n : α → Nat} (hnil : f [] = 0)
    (happend : ∀ xs ys, f (xs ++ ys) = f xs + f ys) (h : Blocks R as bs)
    (hblock : ∀ a ∈ as, ∀ block, R a block → f block = n a) : f bs = (as.map n).sum := by
  induction h with
  | nil => exact hnil
  | cons hR hrest ih =>
    obtain ⟨hfirst, hothers⟩ := List.forall_mem_cons.1 hblock
    rw [happend, hfirst _ hR, ih hothers, List.map_cons, List.sum_cons]

end Blocks

variable {K : Type}

namespace Event

/-- The counter that an event belongs to. -/
def counter? : Event K → Option Counter
  | exampleEnd _ => some .processed
  | exampleSkipped _ _ => some .skipped
  | entryAdded _ _ _ => some .newEntries
  | updated _ _ _ => some .updates
  | _ => none

/-- Where an event stands, if it is about an item. -/
def place? : Event K → Option Place
  | epochStart _ | epochEnd _ => none
  | exampleStart place _ | exampleSkipped place _ | induced place _ _ | entryAdded place _ _
  | analyzed place _ _ | updated place _ _ | exampleEnd place => some place

theorem epoch_of_place? {event : Event K} {place : Place} (h : event.place? = some place) :
    event.epoch = place.epoch := by
  cases event <;> simp_all [place?, epoch]

theorem exists_place?_of_counter? {event : Event K} {c : Counter} (h : event.counter? = some c) :
    ∃ place, event.place? = some place := by
  cases event <;> simp_all [place?, counter?]

end Event

/-! How often something is seen among some events. -/

/-- The number of events that belong to a counter. -/
def tally (c : Counter) (es : List (Event K)) : Nat :=
  es.countP fun event => event.counter? = some c

/-- The number of events of an epoch that belong to a counter. -/
def tallyIn (epoch : Int) (c : Counter) (es : List (Event K)) : Nat :=
  es.countP fun event => event.counter? = some c ∧ (event.epoch : Int) = epoch

/-- The number of entries that were added at a place. -/
def addedAt (place : Place) (es : List (Event K)) : Nat :=
  es.countP fun event => event.counter? = some .newEntries ∧ event.place? = some place

theorem tallyIn_append (epoch : Int) (c : Counter) (es es' : List (Event K)) :
    tallyIn epoch c (es ++ es') = tallyIn epoch c es + tallyIn epoch c es' := List.countP_append

theorem sum_range_ite (n i k : Nat) :
    ((List.range n).map fun j => if j = i then k else 0).sum = if i < n then k else 0 := by
  induction n with
  | zero => rfl
  | succ n ih =>
    rw [List.range_succ, List.map_append, List.sum_append, ih, List.map_singleton,
      List.sum_singleton]
    split_ifs <;> omega

/-- The entries that are added at the places of an epoch are all that are added in it. -/
theorem sum_addedAt {epoch n : Nat} {es : List (Event K)}
    (h : ∀ event ∈ es, ∀ place, event.place? = some place → place.index < n) :
    ((List.range n).map fun index => addedAt ⟨epoch, index⟩ es).sum =
      tallyIn epoch .newEntries es := by
  induction es with
  | nil => simp [addedAt, tallyIn]
  | cons event es ih =>
    obtain ⟨hfirst, hrest⟩ := List.forall_mem_cons.1 h
    -- An added entry is counted at the index of its place, which is one of those summed over.
    have hindex : ((List.range n).map fun index =>
        if event.counter? = some .newEntries ∧ event.place? = some ⟨epoch, index⟩ then 1
          else 0).sum =
          if event.counter? = some .newEntries ∧ (event.epoch : Int) = epoch then 1 else 0 := by
      by_cases hadded : event.counter? = some .newEntries
      · obtain ⟨⟨e, i⟩, hplace⟩ := Event.exists_place?_of_counter? hadded
        have hepoch := Event.epoch_of_place? hplace
        have hlt := hfirst _ hplace
        by_cases he : e = epoch
        · have hsum := sum_range_ite n i 1
          rw [if_pos hlt] at hsum
          simpa [hadded, hplace, hepoch, he, eq_comm] using hsum
        · simp [hadded, hplace, hepoch, he]
      · simp [hadded]
    simp only [addedAt, tallyIn] at ih ⊢
    simp only [List.countP_cons, decide_eq_true_eq]
    rw [← ih hrest, ← hindex, ← List.sum_map_add]

namespace Learner

variable {l : Learner K} {place : Place} {item : Item} {es : List (Event K)}

/-- The events of a look for entries: the proposal, and then the entries that are added. Nothing is
seen where no entries are learned. -/
def LookTrace (l : Learner K) (place : Place) (item : Item) (es : List (Event K)) : Prop :=
  if l.config.learnsEntries then
    ∃ induction added, es = .induced place item induction :: added ∧
      ∀ event ∈ added, ∃ e linked, event = .entryAdded place e linked
  else es = []

/-- The events of an update: just one if there is an update. -/
def MoveTrace (place : Place) (es : List (Event K)) : Prop :=
  es = [] ∨ ∃ delta step, es = [.updated place delta step]

/-- The events of an item, which is skipped just if it is too long. -/
inductive ItemTrace (l : Learner K) (place : Place) (item : Item) : List (Event K) → Prop
  | skipped (reason : String)
      (hlong : l.config.maxTokens.lt (.int item.tokens.length) = true) :
      ItemTrace l place item [.exampleStart place item, .exampleSkipped place reason]
  | seen {look move : List (Event K)} (analysis : Analysis K)
      (hshort : l.config.maxTokens.lt (.int item.tokens.length) = false)
      (hlook : l.LookTrace place item look) (hmove : MoveTrace place move) :
      ItemTrace l place item (.exampleStart place item ::
        (look ++ .analyzed place item analysis :: (move ++ [.exampleEnd place])))

/-- The events of an epoch: its start, the events of all items in their order, and its end. -/
def EpochTrace (l : Learner K) (epoch : Nat) (es : List (Event K)) : Prop :=
  ∃ seen, Blocks (fun x => l.ItemTrace ⟨epoch, x.2⟩ x.1) l.items.zipIdx seen ∧
    es = .epochStart epoch :: (seen ++ [.epochEnd epoch])

/-- The events of a look for entries are at the place of the item, and none of them ends it. -/
theorem LookTrace.own (h : l.LookTrace place item es) {event : Event K} (hevent : event ∈ es) :
    event.place? = some place ∧ event.counter? ≠ some .processed ∧
      event.counter? ≠ some .skipped := by
  rw [LookTrace] at h
  split at h
  · obtain ⟨induction, added, rfl, hadded⟩ := h
    rcases List.mem_cons.1 hevent with rfl | hevent
    · simp [Event.place?, Event.counter?]
    · obtain ⟨e, linked, rfl⟩ := hadded event hevent
      simp [Event.place?, Event.counter?]
  · rw [h] at hevent
    cases hevent

theorem MoveTrace.own (h : MoveTrace place es) {event : Event K} (hevent : event ∈ es) :
    event.place? = some place ∧ event.counter? ≠ some .processed ∧
      event.counter? ≠ some .skipped := by
  rcases h with rfl | ⟨delta, step, rfl⟩
  · cases hevent
  · rw [List.mem_singleton.1 hevent]
    simp [Event.place?, Event.counter?]

/-- The events of an item are at its place. -/
theorem ItemTrace.place? (h : l.ItemTrace place item es) {event : Event K} (hevent : event ∈ es) :
    event.place? = some place := by
  cases h with
  | skipped =>
    simp only [List.mem_cons, List.not_mem_nil, or_false] at hevent
    rcases hevent with rfl | rfl <;> rfl
  | seen analysis hshort hlook hmove =>
    simp only [List.mem_cons, List.mem_append, List.not_mem_nil, or_false] at hevent
    rcases hevent with rfl | hevent | rfl | hevent | rfl
    · rfl
    · exact (hlook.own hevent).1
    · rfl
    · exact (hmove.own hevent).1
    · rfl

/-- How many items were done with in an epoch, whether they were processed or skipped. -/
def doneIn (epoch : Int) (es : List (Event K)) : Nat :=
  tallyIn epoch .processed es + tallyIn epoch .skipped es

theorem doneIn_append (epoch : Int) (es es' : List (Event K)) :
    doneIn epoch (es ++ es') = doneIn epoch es + doneIn epoch es' := by
  rw [doneIn, doneIn, doneIn, tallyIn_append, tallyIn_append]
  omega

theorem doneIn_eq_zero {epoch : Int} (h : ∀ event ∈ es,
    event.counter? ≠ some .processed ∧ event.counter? ≠ some .skipped) : doneIn epoch es = 0 := by
  have hnone : ∀ c, c = .processed ∨ c = .skipped → tallyIn epoch c es = 0 := by
    rintro c hc
    rw [tallyIn, List.countP_eq_zero]
    intro event hevent
    obtain ⟨hprocessed, hskipped⟩ := h event hevent
    rcases hc with rfl | rfl <;> simp_all
  rw [doneIn, hnone _ (Or.inl rfl), hnone _ (Or.inr rfl)]

/-- Every item is done with once. -/
theorem ItemTrace.doneIn_eq (h : l.ItemTrace place item es) (epoch : Int) :
    doneIn epoch es = if (place.epoch : Int) = epoch then 1 else 0 := by
  cases h with
  | skipped reason hlong =>
    simp only [doneIn, tallyIn, List.countP_cons, List.countP_nil, Event.counter?, Event.epoch]
    by_cases he : (place.epoch : Int) = epoch <;> simp [he]
  | seen analysis hshort hlook hmove =>
    have hlook : doneIn epoch _ = 0 := doneIn_eq_zero fun event hevent => (hlook.own hevent).2
    have hmove : doneIn epoch _ = 0 := doneIn_eq_zero fun event hevent => (hmove.own hevent).2
    have hstart : doneIn (K := K) epoch [.exampleStart place item] = 0 :=
      doneIn_eq_zero (by simp [Event.counter?])
    have hanalyzed : doneIn epoch [.analyzed place item analysis] = 0 :=
      doneIn_eq_zero (by simp [Event.counter?])
    rw [← List.singleton_append, ← List.singleton_append (x := Event.analyzed ..), doneIn_append,
      doneIn_append, doneIn_append, doneIn_append, hlook, hmove, hstart, hanalyzed]
    simp only [doneIn, tallyIn, List.countP_cons, List.countP_nil, Event.counter?, Event.epoch]
    by_cases he : (place.epoch : Int) = epoch <;> simp [he]

theorem EpochTrace.doneIn_eq {epoch : Nat} (h : l.EpochTrace epoch es) (e : Int) :
    doneIn e es = if (epoch : Int) = e then l.items.length else 0 := by
  obtain ⟨seen, hseen, rfl⟩ := h
  have hstart : doneIn (K := K) e [.epochStart epoch] = 0 :=
    doneIn_eq_zero (by simp [Event.counter?])
  have hend : doneIn (K := K) e [.epochEnd epoch] = 0 := doneIn_eq_zero (by simp [Event.counter?])
  have hitems := hseen.sum_eq (f := doneIn e) rfl (doneIn_append e)
    fun x _ block hblock => hblock.doneIn_eq e
  rw [← List.singleton_append, doneIn_append, doneIn_append, hstart, hend, hitems]
  by_cases he : (epoch : Int) = e <;> simp [he]

/-- In every epoch of a run each item is done with. -/
theorem doneIn_of_blocks {n epoch : Nat} (h : Blocks l.EpochTrace (List.range n) es)
    (hepoch : epoch < n) : doneIn epoch es = l.items.length := by
  have hsum := h.sum_eq (f := doneIn epoch) rfl (doneIn_append epoch)
    fun e _ block hblock => hblock.doneIn_eq epoch
  simp only [Nat.cast_inj] at hsum
  rw [hsum, sum_range_ite, if_pos hepoch]

theorem EpochTrace.place? {epoch : Nat} (h : l.EpochTrace epoch es) {event : Event K}
    (hevent : event ∈ es) {place : Place} (hplace : event.place? = some place) :
    place.epoch = epoch ∧ place.index < l.items.length := by
  obtain ⟨seen, hseen, rfl⟩ := h
  rcases List.mem_cons.1 hevent with rfl | hevent
  · cases hplace
  · rcases List.mem_append.1 hevent with hevent | hevent
    · obtain ⟨x, hx, block, hblock, hevent⟩ := hseen.exists_of_mem hevent
      rw [hblock.place? hevent, Option.some.injEq] at hplace
      subst hplace
      have hindex := List.snd_lt_of_mem_zipIdx hx
      exact ⟨rfl, by simpa using hindex⟩
    · rw [List.mem_singleton.1 hevent] at hplace
      cases hplace

end Learner

end Categorial
