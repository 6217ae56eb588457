/-! Rules: which calls are risky, where they are, and what makes them safe. A rule is plain data,
so that catalogues can be written, stored and compared.

Messages and corrections have two places: `{0}` is the name of the call, `{1}` the guard as it
would be written there. -/
namespace CallGuard

inductive Category
  | warning | error | suggestion | message
  deriving DecidableEq, Repr

/-- A property, or a method without arguments, and the value that means that all is well. -/
structure Predicate where
  name : String
  safeWhen : Bool
  deriving DecidableEq, Repr

inductive ReceiverRequirement
  /-- Anything, or nothing at all. -/
  | any
  /-- `this`, written or implied. -/
  | this
  /-- Something whose declared type is one of these. -/
  | typed (types : List String)
  /-- Nothing: a bare call or a construction. -/
  | unqualified
  deriving DecidableEq, Repr

inductive Applicability
  | always
  /-- Inside an `async` function. -/
  | asyncFunction
  /-- After an `await` or `yield`, or in a callback that runs later. -/
  | afterSuspension
  /-- In the list called `slot` of a call to one of the containers. -/
  | containerSlot (containers : List String) (slot : String)
  deriving DecidableEq, Repr

inductive GuardSpec
  /-- A test on the receiver. A fix writes the first predicate. -/
  | condition (predicates : List Predicate)
  /-- A call around the risky one. A fix writes the preferred wrapper. -/
  | wrapper (wrappers : List String) (preferred : String)
  deriving DecidableEq, Repr

structure OperationMatcher where
  operations : List String
  receiver : ReceiverRequirement
  applicability : Applicability
  deriving DecidableEq, Repr

structure Rule where
  id : String
  description : String
  message : String
  correction? : Option String
  category : Category
  matcher : OperationMatcher
  guard : GuardSpec
  deriving DecidableEq, Repr

def Category.name : Category → String
  | .warning => "warning"
  | .error => "error"
  | .suggestion => "suggestion"
  | .message => "message"

end CallGuard
