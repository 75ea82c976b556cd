import System2.Foundation.PyValue

/-!
# Exceptions of the engine

The exception classes that the modelled code raises, with their class tree as
far as an `except` clause looks at it. Every class is an `Exception`.
-/

namespace System2
open Foundation

/-- An exception class. `other` is any class that no handler names. -/
inductive ExcClass
  | builtin (e : PyErr)
  | invalidOrderError
  | noMarketPriceError
  | brokerError
  | transientBrokerError
  | reconcileUnavailableError
  | marketClosedError
  | v20Error
  | other (name : String)
  deriving DecidableEq, Repr

namespace ExcClass

/-- The base class, where it is not `Exception` itself. -/
def base? : ExcClass → Option ExcClass
  | .noMarketPriceError => some .invalidOrderError
  | .transientBrokerError => some .brokerError
  | .reconcileUnavailableError => some .transientBrokerError
  | .marketClosedError => some .brokerError
  | _ => none

/-- `issubclass`, for a class tree of this depth. -/
def isa (c target : ExcClass) : Bool :=
  c = target || (c.base?.any fun b => b = target || (b.base?.any fun b => b = target))

end ExcClass

/-- A raised exception with its message. -/
structure Exc where
  cls : ExcClass
  msg : FString

namespace Exc

def ofErr (e : PyErr) : Exc := ⟨.builtin e, []⟩

/-- A built-in conversion inside the engine's own code. -/
def lift {α : Type} : Except PyErr α → Except Exc α
  | .ok a => .ok a
  | .error e => .error (ofErr e)

/-- Does an `except` clause for a class catch this exception? -/
def isa (e : Exc) (target : ExcClass) : Bool := e.cls.isa target

@[simp] theorem lift_ok {α : Type} (a : α) : lift (.ok a : Except PyErr α) = .ok a := rfl

@[simp] theorem lift_error {α : Type} (e : PyErr) :
    lift (.error e : Except PyErr α) = .error (ofErr e) := rfl

theorem lift_eq_ok_iff {α : Type} {r : Except PyErr α} {a : α} : lift r = .ok a ↔ r = .ok a := by
  cases r with
  | ok b => simp
  | error e => simp

end Exc

end System2
