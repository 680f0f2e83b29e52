import Categorial.Scalar
import Categorial.Text.Layout

/-!
Statistics of learning: counters for each epoch, the number of entries learned from each example,
and average parsing times. Main statement: counting is seen at its own counter and epoch alone, and
in the sum of this counter.
-/

namespace Categorial

/-- What is counted in each epoch. -/
inductive Counter where
  | processed | skipped | newEntries | updates
  deriving DecidableEq, Repr

namespace Counter

/-- All counters, in the order of reports. -/
def all : List Counter := [processed, skipped, newEntries, updates]

def name : Counter → String
  | processed => "processed"
  | skipped => "skipped"
  | newEntries => "new_lexical_entries"
  | updates => "parameter_updates"

def ofName (name : String) : Except Fault Counter :=
  match all.find? fun c => c.name == name with
  | some c => .ok c
  | none => .error (.unknownCounter name)

end Counter

abbrev Counts := Counter → Int

/-- Times that were measured: their sum, the sum of their squares, their number and their average,
which is a weight. -/
structure Meter (K : Type) where
  total : K
  squares : K
  count : Nat
  average : K

namespace Meter

variable {K : Type} [Scalar K]

/-- The meter that has recorded nothing. -/
def start : Meter K := ⟨0, 0, 0, 0⟩

/-- Records a time; this is the timer in use. The sums come first, then the average and at last the
mean of the squares; where one of them cannot be found, the meter is left as it is at that point. -/
def record (m : Meter K) (seconds : K) : Except Fault Unit × Meter K :=
  match Scalar.plus m.total seconds with
  | .error fault => (.error fault, m)
  | .ok total =>
    let m := { m with total := total }
    match (Scalar.times seconds seconds).bind (Scalar.plus m.squares) with
    | .error fault => (.error fault, m)
    | .ok squares =>
      let m := { m with squares := squares, count := m.count + 1 }
      match Scalar.dividedBy m.total (Scalar.ofNat m.count) with
      | .error fault => (.error fault, m)
      | .ok average =>
        ((Scalar.dividedBy m.squares (Scalar.ofNat m.count)).map fun _ => (),
          { m with average := average })

/-- The line of a meter in a report, if it has recorded anything. -/
def line? (m : Meter K) (name : String) : Option String :=
  if m.count = 0 then none
  else some ("  " ++ name ++ " = " ++ Text.padStart 4 (Scalar.fixed 6 m.average))

end Meter

/-- How a time is recorded on a meter. -/
abbrev Timer (K : Type) := Meter K → K → Except Fault Unit × Meter K

/-- Statistics of learning. -/
structure Stats (K : Type) where
  epochs : Number
  examples : Number
  /-- The counters of the epochs in which anything was counted. -/
  counts : List (Int × Counts)
  /-- The number of new entries of an epoch and an example. -/
  found : List ((Int × Int) × Int)
  modelTime : Meter K
  inductionTime : Meter K

namespace Stats

-- the zero of sums is the built-in one, whatever else is imported
attribute [local instance (high)] Zero.ofOfNat0

variable {K : Type}

/-- Statistics with nothing counted. -/
def start [Scalar K] (epochs examples : Number) : Stats K :=
  ⟨epochs, examples, [], [], .start, .start⟩

/-- The counters of the epochs with `n` added to one of them. -/
def addCount (epoch : Int) (c : Counter) (n : Int) : List (Int × Counts) → List (Int × Counts)
  | [] => [(epoch, fun c' => if c' = c then n else 0)]
  | (e, counts) :: rows =>
    if e = epoch then (e, fun c' => if c' = c then counts c' + n else counts c') :: rows
    else (e, counts) :: addCount epoch c n rows

/-- The statistics with `n` added to a counter of an epoch. -/
def count (s : Stats K) (epoch : Int) (c : Counter) (n : Int) : Stats K :=
  { s with counts := addCount epoch c n s.counts }

/-- The statistics with the new entries of an example. -/
def countEntries (s : Stats K) (epoch index n : Int) : Stats K :=
  { s.count epoch .newEntries n with found := ((epoch, index), n) :: s.found }

/-- Records the time of a parse with the model by a timer. -/
def recordModelBy (s : Stats K) (timer : Timer K) (seconds : K) : Except Fault Unit × Stats K :=
  let (outcome, meter) := timer s.modelTime seconds
  (outcome, { s with modelTime := meter })

/-- Records the time of a parse with proposed entries by a timer. -/
def recordInductionBy (s : Stats K) (timer : Timer K) (seconds : K) :
    Except Fault Unit × Stats K :=
  let (outcome, meter) := timer s.inductionTime seconds
  (outcome, { s with inductionTime := meter })

/-- Records the time of a parse with the model. -/
def recordModel [Scalar K] (s : Stats K) (seconds : K) : Except Fault Unit × Stats K :=
  s.recordModelBy Meter.record seconds

/-- Records the time of a parse with proposed entries. -/
def recordInduction [Scalar K] (s : Stats K) (seconds : K) : Except Fault Unit × Stats K :=
  s.recordInductionBy Meter.record seconds

/-- A counter of an epoch. -/
def get (s : Stats K) (c : Counter) (epoch : Int) : Int :=
  ((s.counts.lookup epoch).map fun counts => counts c).getD 0

/-- The sum of a counter over all epochs. -/
def total (s : Stats K) (c : Counter) : Int :=
  (s.counts.map fun row => row.2 c).sum

/-- A counter of an epoch, or its sum over all epochs. -/
def read (s : Stats K) (c : Counter) (epoch : Option Int) : Int :=
  match epoch with
  | some epoch => s.get c epoch
  | none => s.total c

/-- The number of new entries of an example in an epoch. -/
def entriesOf (s : Stats K) (index epoch : Int) : Int :=
  (s.found.lookup (epoch, index)).getD 0

def summary [Scalar K] (s : Stats K) : String :=
  let rows := (s.counts.mergeSort fun a b => a.1 ≤ b.1).map fun row =>
    toString row.1 :: Counter.all.map fun c => toString (row.2 c)
  let meters := ((s.inductionTime.line? "generation_parsing_time").toList ++
    (s.modelTime.line? "model_parsing_time").toList)
  "\n".intercalate ([Text.table ("epoch" :: Counter.all.map Counter.name) rows,
      "Examples: " ++ s.examples.text ++ ", epochs: " ++ s.epochs.text ++ "."] ++
    if meters.isEmpty then [] else "Average parsing time (s):" :: meters)

theorem lookup_addCount (epoch e : Int) (c c' : Counter) (n : Int) (rows : List (Int × Counts)) :
    (((addCount epoch c n rows).lookup e).map fun counts => counts c').getD 0 =
      ((rows.lookup e).map fun counts => counts c').getD 0 +
        if e = epoch ∧ c' = c then n else 0 := by
  induction rows with
  | nil =>
    by_cases he : e = epoch
    · by_cases hc : c' = c <;> simp [addCount, he, hc]
    · simp [addCount, he, List.lookup_cons, beq_false_of_ne he]
  | cons row rows ih =>
    obtain ⟨e', counts⟩ := row
    rw [addCount]
    by_cases h : e' = epoch
    · subst h
      by_cases he : e = e'
      · by_cases hc : c' = c <;> simp [he, hc]
      · simp [List.lookup_cons, beq_false_of_ne he, he]
    · rw [if_neg h, List.lookup_cons, List.lookup_cons]
      by_cases he : e = e'
      · subst he
        simp [h]
      · simp [beq_false_of_ne he, ih]

/-- Counting is seen at its own counter and epoch alone. -/
theorem get_count (s : Stats K) (epoch e : Int) (c c' : Counter) (n : Int) :
    (s.count epoch c n).get c' e = s.get c' e + if e = epoch ∧ c' = c then n else 0 :=
  lookup_addCount epoch e c c' n s.counts

theorem sum_addCount (epoch : Int) (c c' : Counter) (n : Int) (rows : List (Int × Counts)) :
    ((addCount epoch c n rows).map fun row => row.2 c').sum =
      (rows.map fun row => row.2 c').sum + if c' = c then n else 0 := by
  induction rows with
  | nil => by_cases hc : c' = c <;> simp [addCount, hc]
  | cons row rows ih =>
    obtain ⟨e, counts⟩ := row
    rw [addCount]
    by_cases h : e = epoch
    · by_cases hc : c' = c
      · simp only [h, hc, if_true, List.map_cons, List.sum_cons]
        omega
      · simp [h, hc]
    · rw [if_neg h, List.map_cons, List.map_cons, List.sum_cons, List.sum_cons, ih]
      omega

/-- Counting is seen in the sum of its own counter alone. -/
theorem total_count (s : Stats K) (epoch : Int) (c c' : Counter) (n : Int) :
    (s.count epoch c n).total c' = s.total c' + if c' = c then n else 0 :=
  sum_addCount epoch c c' n s.counts

theorem entriesOf_countEntries (s : Stats K) (epoch index e i n : Int) :
    (s.countEntries epoch index n).entriesOf i e =
      if (e, i) = (epoch, index) then n else s.entriesOf i e := by
  by_cases heq : (e, i) = (epoch, index)
  · rw [if_pos heq, countEntries, entriesOf, heq, List.lookup_cons_self, Option.getD_some]
  · rw [if_neg heq, countEntries, entriesOf, List.lookup_cons, beq_false_of_ne heq]
    rfl

end Stats

end Categorial
