import Categorial.Scalar

/-!
Sparse vectors: weights under feature keys, in the order in which the keys first came. A missing key
has the value zero. Every operation that makes a vector adds values to keys one by one, so that keys
stay distinct. A score that goes into a vector becomes a weight first. Main statements: setting a
key is seen at that key alone, and keeps the other keys and their order.
-/

namespace Categorial

/-- A feature key; it starts with the name of its feature set. -/
abbrev FeatureKey := List String

def featureText (key : FeatureKey) : String := "#".intercalate key

/-- The pairs with the value of a key replaced, or with a new pair at the end. -/
def setPair {K : Type} (key : FeatureKey) (value : K) :
    List (FeatureKey × K) → List (FeatureKey × K)
  | [] => [(key, value)]
  | pair :: pairs =>
    if key = pair.1 then (pair.1, value) :: pairs else pair :: setPair key value pairs

theorem keys_setPair {K : Type} (key : FeatureKey) (value : K) (pairs : List (FeatureKey × K)) :
    (setPair key value pairs).map (·.1) =
      if key ∈ pairs.map (·.1) then pairs.map (·.1) else pairs.map (·.1) ++ [key] := by
  induction pairs with
  | nil => simp [setPair]
  | cons pair pairs ih =>
    rw [setPair]
    by_cases h : key = pair.1
    · simp [h]
    · rw [if_neg h, List.map_cons, ih]
      by_cases hm : key ∈ pairs.map (·.1)
      · rw [if_pos hm, if_pos (by simp [hm])]
        rfl
      · rw [if_neg hm, if_neg (by simp [h, hm])]
        rfl

theorem nodup_setPair {K : Type} (key : FeatureKey) (value : K) {pairs : List (FeatureKey × K)}
    (h : (pairs.map (·.1)).Nodup) : ((setPair key value pairs).map (·.1)).Nodup := by
  rw [keys_setPair]
  split
  · exact h
  · rename_i hm
    rw [List.nodup_append]
    refine ⟨h, by simp, ?_⟩
    intro a ha b hb hab
    simp only [List.mem_singleton] at hb
    subst hb hab
    exact hm ha

structure SparseVector (K : Type) where
  pairs : List (FeatureKey × K)
  /-- No key occurs twice. -/
  distinct : (pairs.map (·.1)).Nodup

namespace SparseVector

variable {K : Type}

def empty : SparseVector K := ⟨[], List.nodup_nil⟩

/-- The keys, in the order in which they came. -/
def keys (v : SparseVector K) : List FeatureKey := v.pairs.map (·.1)

def size (v : SparseVector K) : Nat := v.pairs.length

/-- The value of a key, if the vector has the key. -/
def get? (v : SparseVector K) (key : FeatureKey) : Option K := v.pairs.lookup key

def contains (v : SparseVector K) (key : FeatureKey) : Bool := (v.get? key).isSome

def set (v : SparseVector K) (key : FeatureKey) (value : K) : SparseVector K :=
  ⟨setPair key value v.pairs, nodup_setPair key value v.distinct⟩

theorem lookup_setPair (key k : FeatureKey) (value : K) (pairs : List (FeatureKey × K)) :
    (setPair key value pairs).lookup k = if k = key then some value else pairs.lookup k := by
  induction pairs with
  | nil =>
    by_cases h : k = key
    · simp [setPair, h]
    · simp [setPair, List.lookup_cons, h, beq_false_of_ne h]
  | cons pair pairs ih =>
    obtain ⟨k', value'⟩ := pair
    rw [setPair]
    by_cases h : key = k'
    · subst h
      by_cases hk : k = key
      · simp [hk]
      · simp [List.lookup_cons, hk, beq_false_of_ne hk]
    · rw [if_neg h, List.lookup_cons, List.lookup_cons, ih]
      by_cases hk : k = k'
      · subst hk
        have hne : k ≠ key := fun e => h e.symm
        simp [hne]
      · simp [beq_false_of_ne hk]

/-- A value that is set is seen at its key alone. -/
@[simp] theorem get?_set (v : SparseVector K) (key k : FeatureKey) (value : K) :
    (v.set key value).get? k = if k = key then some value else v.get? k :=
  lookup_setPair key k value v.pairs

variable [Scalar K]

/-- The value of a key; zero for a missing one. -/
def get (v : SparseVector K) (key : FeatureKey) : K := (v.get? key).getD 0

def addAt (v : SparseVector K) (key : FeatureKey) (value : K) : SparseVector K :=
  v.set key (v.get key + value)

/-- The vector of some pairs; values of equal keys are added up. -/
def ofPairs (pairs : List (FeatureKey × K)) : SparseVector K :=
  pairs.foldl (fun v pair => v.addAt pair.1 pair.2) empty

def ofScores (pairs : List (FeatureKey × K)) : Except Fault (SparseVector K) :=
  (pairs.mapM fun pair => (Scalar.weight pair.2).map fun x => (pair.1, x)).map ofPairs

/-- A score as a factor of the values of a vector; without values there is nothing to multiply. -/
def factor (v : SparseVector K) (x : K) : Except Fault K :=
  if v.pairs.isEmpty then .ok x else Scalar.weight x

/-- The vector plus a multiple of another one. -/
def addTimes (v : SparseVector K) (scale : K) (w : SparseVector K) : SparseVector K :=
  w.pairs.foldl (fun v pair => v.addAt pair.1 (scale * pair.2)) v

/-- The vector made anew from its pairs. -/
def copy (v : SparseVector K) : SparseVector K := ofPairs v.pairs

def scale (v : SparseVector K) (factor : K) : SparseVector K :=
  ofPairs (v.pairs.map fun pair => (pair.1, pair.2 * factor))

/-- The vector without the keys whose values are at most `eps` away from zero. -/
def dropZeros (v : SparseVector K) (eps : K) : SparseVector K :=
  ofPairs (v.pairs.filter fun pair => Scalar.lt eps (Scalar.abs pair.2))

def add (v w : SparseVector K) : SparseVector K := v.copy.addTimes 1 w

def sub (v w : SparseVector K) : SparseVector K := v.copy.addTimes (-1) w

/-- The vector pointing the other way. -/
def neg (v : SparseVector K) : SparseVector K := v.scale (-1)

def sum (vs : List (SparseVector K)) : SparseVector K :=
  vs.foldl (fun acc v => acc.addTimes 1 v) empty

/-- The mean of some vectors; the vector without keys if there are none. -/
def mean (vs : List (SparseVector K)) : SparseVector K :=
  if vs.isEmpty then empty else (sum vs).scale (1 / Scalar.ofNat vs.length)

/-- The sum of the products of the values of `v` with those of `w`, over the keys of `v`. -/
def dotOver (v w : SparseVector K) : K :=
  Scalar.sum (v.pairs.map fun pair => pair.2 * w.get pair.1)

/-- The inner product, computed over the keys of the smaller vector. -/
def dot (v w : SparseVector K) : K :=
  if v.size ≤ w.size then dotOver v w else dotOver w v

/-- Whether every value of `v` is the value of `w` at the same key. -/
def agreesWith (v w : SparseVector K) : Bool :=
  v.pairs.all fun pair => match w.get? pair.1 with
    | some value => Scalar.same pair.2 value
    | none => false

/-- Whether two vectors are the same, zeros apart. -/
def same (v w : SparseVector K) : Bool :=
  let v := v.dropZeros 0
  let w := w.dropZeros 0
  v.size == w.size && v.agreesWith w

/-- The values at some keys, the keys in their order as sequences of texts. -/
def format (v : SparseVector K) (keys : List FeatureKey) : String :=
  let sorted := keys.mergeSort fun a b => !(b < a)
  "\x7b" ++ ", ".intercalate
    (sorted.map fun key => featureText key ++ "=" ++ Scalar.fixed 4 (v.get key)) ++ "\x7d"

/-- All values of a vector. -/
def formatAll (v : SparseVector K) : String := v.format v.keys

def text (v : SparseVector K) : String := "SparseVector" ++ v.formatAll

end SparseVector

end Categorial
