import Categorial.Proofs.SyntaxType.Names

/-!
Types in a mirror: every slash looks to the other side, within arguments and coordinations too. A
slash that stands in the name of a primitive type or of a conjunction is a slash like any other,
since types are compared by their names. Main statement: the name of a mirrored type is the mirrored
name, so mirrored types are the same just if the types are.
-/

namespace Categorial

/-- The other direction. -/
def Direction.flip : Direction → Direction
  | forward => backward
  | backward => forward

@[simp] theorem Direction.flip_flip (d : Direction) : d.flip.flip = d := by cases d <;> rfl

/-- The other slash; every other character is itself. -/
def flipSlash (c : Char) : Char := if c = '/' then '\\' else if c = '\\' then '/' else c

theorem flipSlash_of_ne {c : Char} (h : c ≠ '/') (h' : c ≠ '\\') : flipSlash c = c := by
  rw [flipSlash, if_neg h, if_neg h']

@[simp] theorem flipSlash_flipSlash (c : Char) : flipSlash (flipSlash c) = c := by
  by_cases h : c = '/'
  · subst h
    rfl
  · by_cases h' : c = '\\'
    · subst h'
      rfl
    · rw [flipSlash_of_ne h h', flipSlash_of_ne h h']

theorem Direction.slash_flip (d : Direction) : d.flip.slash = flipSlash d.slash := by
  cases d <;> rfl

/-- The text with every slash turned to the other side. -/
def flipSlashes (s : String) : String := String.ofList (s.toList.map flipSlash)

@[simp] theorem toList_flipSlashes (s : String) :
    (flipSlashes s).toList = s.toList.map flipSlash := by
  simp [flipSlashes]

@[simp] theorem flipSlashes_flipSlashes (s : String) : flipSlashes (flipSlashes s) = s := by
  rw [← String.toList_inj, toList_flipSlashes, toList_flipSlashes, List.map_map]
  simp [Function.comp_def]

theorem flipSlashes_inj {s s' : String} : flipSlashes s = flipSlashes s' ↔ s = s' :=
  (Function.LeftInverse.injective flipSlashes_flipSlashes).eq_iff

theorem flipSlashes_of_plain {s : String} (h : ∀ c ∈ s.toList, c ≠ '/' ∧ c ≠ '\\') :
    flipSlashes s = s := by
  rw [← String.toList_inj, toList_flipSlashes]
  calc s.toList.map flipSlash = s.toList.map id :=
        List.map_congr_left fun c hc => flipSlash_of_ne (h c hc).1 (h c hc).2
    _ = s.toList := List.map_id _

namespace SyntaxType

/-- The type with every slash turned to the other side. -/
def mirror : SyntaxType → SyntaxType
  | primitive n => primitive (flipSlashes n)
  | conj n => conj (flipSlashes n)
  | slash d main sub => slash d.flip main.mirror sub.mirror
  | coordination t => coordination t.mirror

/-- A primitive type without slashes in its name is its own mirrored type. -/
theorem mirror_primitive {n : String} (h : ∀ c ∈ n.toList, c ≠ '/' ∧ c ≠ '\\') :
    (primitive n).mirror = primitive n :=
  congrArg primitive (flipSlashes_of_plain h)

theorem mirror_empty : empty.mirror = empty := by
  refine mirror_primitive fun c hc => ?_
  have hc : c ∈ ['E', 'M', 'P', 'T', 'Y'] := hc
  simp only [List.mem_cons, List.not_mem_nil, or_false] at hc
  rcases hc with rfl | rfl | rfl | rfl | rfl <;> decide

@[simp] theorem mirror_mirror (t : SyntaxType) : t.mirror.mirror = t := by
  induction t <;> simp_all [mirror]

@[simp] theorem isFunction_mirror (t : SyntaxType) : t.mirror.isFunction = t.isFunction := by
  cases t <;> rfl

theorem toList_argumentName_mirror {t : SyntaxType}
    (h : t.mirror.name.toList = t.name.toList.map flipSlash) :
    t.mirror.argumentName.toList = t.argumentName.toList.map flipSlash := by
  have hmirror := isFunction_mirror t
  cases hfunction : t.isFunction with
  | false =>
    rw [hfunction] at hmirror
    rw [argumentName_of_not_isFunction hfunction, argumentName_of_not_isFunction hmirror, h]
  | true =>
    rw [hfunction] at hmirror
    rw [toList_argumentName hfunction, toList_argumentName hmirror, h, List.map_cons,
      List.map_append]
    rfl

/-- The name of a mirrored type is the mirrored name. -/
theorem name_mirror (t : SyntaxType) : t.mirror.name = flipSlashes t.name := by
  rw [← String.toList_inj, toList_flipSlashes]
  induction t with
  | primitive n => exact toList_flipSlashes n
  | conj n => exact toList_flipSlashes n
  | slash d main sub ihmain ihsub =>
    rw [mirror, toList_name_slash, toList_name_slash, ihmain, toList_argumentName_mirror ihsub,
      Direction.slash_flip, List.map_append, List.map_cons]
  | coordination t ih =>
    rw [mirror, toList_name_coordination, toList_name_coordination, ih, List.map_cons,
      List.map_cons, List.map_append]
    rfl

/-- Mirrored types are the same just if the types are. -/
@[simp] theorem mirror_same (a b : SyntaxType) : a.mirror.same b.mirror = a.same b := by
  rw [Bool.eq_iff_iff, same_iff, same_iff, name_mirror, name_mirror, flipSlashes_inj]

end SyntaxType

namespace Typing

/-- The mirrored type; the nameless type is its own. -/
def mirror (t : Typing) : Typing := t.map SyntaxType.mirror

@[simp] theorem mirror_none : mirror none = none := rfl

@[simp] theorem mirror_some (t : SyntaxType) : mirror (some t) = some t.mirror := rfl

@[simp] theorem mirror_mirror (t : Typing) : t.mirror.mirror = t := by
  cases t <;> simp

@[simp] theorem mirror_same (a b : Typing) : a.mirror.same b.mirror = a.same b := by
  rw [Bool.eq_iff_iff, same_iff, same_iff]
  cases a <;> cases b <;> simp [SyntaxType.name_mirror, flipSlashes_inj]

@[simp] theorem isEmpty_mirror (t : Typing) : t.mirror.isEmpty = t.isEmpty := by
  rw [isEmpty, isEmpty, ← mirror_same t, mirror_some, SyntaxType.mirror_empty]

end Typing

end Categorial
