import Categorial.Meaning.Call
import Categorial.Traced

/-!
Services that combine meanings. A service gives a meaning, gives none to refuse, or fails; a rule
that asks a service takes a failure, and a meaning that cannot be a key, for a refusal. Main
statement: what a rule gets from a service can be a key, and is a fault only if the meaning refuses
to be a key with a fault that is not one of a type.
-/

namespace Categorial

/-- By what services are compared. -/
inductive ServiceIdentity where
  /-- Services that call functions are compared by the kinds of fault they take for a refusal. -/
  | calling (rejected : List FaultKind)
  /-- Other services are the same as themselves alone. -/
  | object (number : Nat)
  deriving DecidableEq, Repr

/-- Services that apply and compose meanings. -/
structure Services where
  identity : ServiceIdentity
  apply : Value → Value → Except Fault Value
  compose : Value → Value → Except Fault Value

namespace Services

/-- The kinds of fault that a function may refuse its argument with, if nothing else is said. -/
def usualRejections : List FaultKind := [.type, .value, .missingKey, .index]

/-- Services that call functions. A function refuses an argument by giving no meaning or by a fault
of one of the rejected kinds; any other fault is the service's own. -/
def calling (I : Interpretation) (rejected : List FaultKind) : Services where
  identity := .calling rejected
  apply function argument :=
    if function.isCallable then
      match function.call I argument with
      | .ok v => .ok v
      | .error fault => if fault.kind.coveredBy rejected then .ok .none else .error fault
    else .ok .none
  compose outer inner :=
    .ok (if outer.isCallable && inner.isCallable then .composed outer inner else .none)

/-- Services that leave every operation open. -/
def abstract (number : Nat) : Services where
  identity := .object number
  apply _ _ := .error .unimplemented
  compose _ _ := .error .unimplemented

end Services

/-- Asks a service on behalf of a rule. A failure, and a meaning that cannot be a key, are noted and
count as a refusal. -/
def askService (rule : String) (answer : Except Fault Value) : Traced Value :=
  match answer with
  | .error fault => ⟨[.semanticFailure rule fault], .ok .none⟩
  | .ok v => do
    if ← .ofExcept v.checkKey then pure v
    else ⟨[.unhashableMeaning rule v.className], .ok .none⟩

/-- What a rule gets from a service is no fault exactly if the service fails or its answer refuses
to be a key, if at all, with a fault of a type. -/
theorem askService_ok_iff (rule : String) {answer : Except Fault Value} :
    (∃ v, (askService rule answer).result = .ok v) ↔ ∀ v, answer = .ok v → v.RefusesByType := by
  constructor
  · rintro ⟨w, hw⟩ v rfl
    simp only [askService, Traced.result_bind, Traced.result_ofExcept] at hw
    cases hkey : v.checkKey with
    | ok key => exact Value.refusesByType_of_checkKey hkey
    | error fault => simp [hkey, Except.bind] at hw
  · intro h
    cases answer with
    | error fault => exact ⟨.none, rfl⟩
    | ok v =>
      simp only [askService, Traced.result_bind, Traced.result_ofExcept,
        Value.checkKey_of_refusesByType (h v rfl), Except.bind]
      cases v.hashable with
      | true => exact ⟨v, rfl⟩
      | false => exact ⟨.none, rfl⟩

/-- What a rule gets from a service can be a key. -/
theorem hashable_of_askService {rule : String} {answer : Except Fault Value} {v : Value}
    (h : (askService rule answer).result = .ok v) : v.hashable = true := by
  cases answer with
  | error fault =>
    obtain rfl := Except.ok.inj h
    rfl
  | ok w =>
    simp only [askService, Traced.result_bind, Traced.result_ofExcept] at h
    cases hkey : w.checkKey with
    | error fault => simp [hkey, Except.bind] at h
    | ok key =>
      rw [hkey] at h
      cases key with
      | true =>
        obtain rfl := Except.ok.inj h
        exact Value.hashable_of_checkKey hkey
      | false =>
        obtain rfl := Except.ok.inj h
        rfl

end Categorial
