/-! JSON values as far as they could be read. Reading never fails as a whole: where it has to stop,
the value has a hole that says why. Whoever uses the value walks it in the order of the text and
meets either a hole or something of the wrong shape first, and that is what is wrong with the
text. -/
namespace CallGuard

/-- What is wrong with a text that should be JSON of a certain shape. -/
inductive JsonFault
  /-- It is not JSON. -/
  | malformed
  /-- It ends too early. -/
  | cutShort
  /-- It is JSON, but not of the shape that is asked for. -/
  | wrongShape
  deriving DecidableEq, Repr

/-- Why reading stopped. -/
inductive JsonStop
  /-- A character that cannot stand there. -/
  | unexpected
  /-- The text ends in a string, or where a value or a separator should be. -/
  | ended
  /-- The text ends between a comma and the end of the key behind it. -/
  | endedAfterComma
  /-- The text ends in `null`, `true` or `false`. -/
  | endedInWord
  | endedInNumber
  deriving DecidableEq, Repr

/-- What a value or the key of a member may be. A string can be well formed and still name no
text, by an escape that is half of a pair; a number can be too large; a value can be nested too
deeply. Such values can be passed over but not read. -/
inductive Json
  | null
  | bool (b : Bool)
  /-- A number as it is written. -/
  | number (literal : String)
  | string (s : String)
  /-- Items, and why the array does not go on to its end. -/
  | array (items : List Json) (stop? : Option JsonStop)
  /-- Members in order, and why the object does not go on to its end. Keys may repeat. A key that
  cannot be read is nothing. -/
  | object (members : List (Option String × Json)) (stop? : Option JsonStop)
  /-- A value that can only be passed over. -/
  | unreadable (form : Json)
  /-- A hole. -/
  | broken (stop : JsonStop)
  deriving Inhabited, Repr

namespace JsonStop

/-- What is wrong when the value is read. -/
def fault : JsonStop → JsonFault
  | .unexpected => .malformed
  | .ended | .endedAfterComma | .endedInWord | .endedInNumber => .cutShort

/-- What is wrong when the value is passed over: a number is then looked at character by
character, and its end comes as a wrong one. -/
def faultPassing : JsonStop → JsonFault
  | .endedInNumber => .malformed
  | s => s.fault

/-- What is wrong when one of several names is asked for, which only a string or an object can
give. -/
def faultNaming : JsonStop → JsonFault
  | .endedInWord | .endedInNumber => .malformed
  | s => s.fault

/-- The same stop in the place of a key that may stand behind a comma. -/
def behindComma (afterComma : Bool) : JsonStop → JsonStop
  | .ended => if afterComma then .endedAfterComma else .ended
  | s => s

end JsonStop

/-- Goes on only if nothing is wrong. -/
def JsonFault.unless : Option JsonFault → Except JsonFault Unit
  | some f => .error f
  | none => .ok ()

namespace Json

/-- An array without holes of its own. -/
def list (items : List Json) : Json := .array items none

/-- An object without holes of its own. -/
def record (members : List (String × Json)) : Json :=
  .object (members.map fun (key, value) => (some key, value)) none

def ofNat (n : Nat) : Json := .number (toString n)

mutual

/-- The first thing that is wrong with the form of a value, when it is read and when it is passed
over. -/
def formFault? (reading : Bool) : Json → Option JsonFault
  | .unreadable form => if reading then some .malformed else form.formFault? reading
  | .broken stop => some (if reading then stop.fault else stop.faultPassing)
  | .array items stop? => (itemsFault? reading items).or (stop?.map JsonStop.fault)
  | .object members stop? => (membersFault? reading members).or (stop?.map JsonStop.fault)
  | _ => none

def itemsFault? (reading : Bool) : List Json → Option JsonFault
  | [] => none
  | item :: items => (item.formFault? reading).or (itemsFault? reading items)

def membersFault? (reading : Bool) : List (Option String × Json) → Option JsonFault
  | [] => none
  | (key, value) :: members =>
    if reading && key.isNone then some .malformed
    else (value.formFault? reading).or (membersFault? reading members)

end

def text? : Json → Option String
  | .string s => some s
  | _ => none

def flag? : Json → Option Bool
  | .bool b => some b
  | _ => none

def items? : Json → Option (List Json)
  | .array items _ => some items
  | _ => none

def members? : Json → Option (List (Option String × Json))
  | .object members _ => some members
  | _ => none

/-- A name, written as a string or as the key of a lone `null`. -/
def name? : Json → Option String
  | .string s => some s
  | .object [(some s, .null)] _ => some s
  | _ => none

/-- A list of texts. -/
def texts? (j : Json) : Option (List String) := do (← j.items?).mapM text?

/-- The value of a field: in an object by its key, in an array by the place of its key. -/
def field? (keys : List String) (key : String) : Json → Option Json
  | .object members _ => members.lookup (some key)
  | .array items _ => (keys.zip items).lookup key
  | _ => none

end Json

end CallGuard
