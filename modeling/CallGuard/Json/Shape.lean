import CallGuard.Json.Basic

/-! Shapes of JSON values. A check looks at a value in the order of the text and finds the first
thing that is wrong with it, whether a hole or something of another shape; a value that passes can
then be taken apart without regard to order.

A record may be written as an object, or as an array of its fields in their order. One of several
kinds of record is told by its member `kind`, which may stand anywhere, or by the first item of an
array. Since the kind has to be known first, such a record is read as a whole before its fields
are looked at. -/
namespace CallGuard

/-- What to demand of a value. -/
abbrev JsonShape := Json → Except JsonFault Unit

namespace JsonShape

/-- A value of some kind that is known when it has been read. -/
def scalar (accepts : Json → Bool) : JsonShape
  | .broken stop => .error stop.fault
  | .unreadable _ => .error .malformed
  | j => if accepts j then .ok () else .error .wrongShape

def text : JsonShape := scalar fun j => j.text?.isSome

def flag : JsonShape := scalar fun j => j.flag?.isSome

/-- A text, or `null` for none. -/
def optionalText : JsonShape
  | .null => .ok ()
  | j => text j

/-- What follows the one member of an object that names something. -/
def namedAlone (names : List String) :
    List (Option String × Json) → Option JsonStop → Except JsonFault Unit
  | [], stop? => .error ((stop?.map JsonStop.faultNaming).getD .malformed)
  | (none, _) :: _, _ => .error .malformed
  | (some name, value) :: others, stop? => do
    if !names.contains name then throw .wrongShape
    scalar (fun j => j matches .null) value
    if !others.isEmpty || stop? == some .endedAfterComma then throw .malformed
    JsonFault.unless (stop?.map JsonStop.fault)

/-- One of some names, as a string or as the key of a lone `null`. -/
def name (names : List String) : JsonShape
  | .string s => if names.contains s then .ok () else .error .wrongShape
  | .object members stop? => namedAlone names members stop?
  | .broken stop => .error stop.faultNaming
  | _ => .error .malformed

def list (item : JsonShape) : JsonShape
  | .array items stop? => do
    items.forM item
    JsonFault.unless (stop?.map JsonStop.fault)
  | j => scalar (fun _ => false) j

/-- Members with any keys and values of one shape. -/
def dictionaryMembers (value : JsonShape) : List (Option String × Json) → Except JsonFault Unit
  | [] => .ok ()
  | (none, _) :: _ => .error .malformed
  | (some _, j) :: members => do
    value j
    dictionaryMembers value members

def dictionary (value : JsonShape) : JsonShape
  | .object members stop? => do
    dictionaryMembers value members
    JsonFault.unless (stop?.map JsonStop.fault)
  | j => scalar (fun _ => false) j

/-! ### Records -/

/-- The fields of a record with their shapes. -/
structure Fields where
  shapes : List (String × JsonShape)
  /-- The keys of the fields that have to be there. -/
  required : List String
  /-- Whether members with other keys are passed over. -/
  others : Bool

namespace Fields

def keys (f : Fields) : List String := f.shapes.map (·.1)

/-- Checks members in order. No field may be there twice. -/
def checkMembers (f : Fields) : (seen : List String) → List (Option String × Json) →
    Except JsonFault Unit
  | _, [] => .ok ()
  | _, (none, _) :: _ => .error .malformed
  | seen, (some key, value) :: members =>
    match f.shapes.lookup key with
    | some shape =>
      if seen.contains key then .error .wrongShape
      else do
        shape value
        f.checkMembers (key :: seen) members
    | none =>
      if f.others then do
        JsonFault.unless (value.formFault? false)
        f.checkMembers seen members
      else .error .wrongShape

/-- Checks items in the order of the fields. -/
def checkItems : List (String × JsonShape) → List Json → Except JsonFault Unit
  | (_, shape) :: shapes, value :: items => do
    shape value
    checkItems shapes items
  | _, _ => .ok ()

def checkRequired (f : Fields) (keys : List String) : Except JsonFault Unit :=
  if f.required.all keys.contains then .ok () else .error .wrongShape

/-- A record. `surplus` is what is wrong with more items than there are fields. -/
def check (f : Fields) (surplus : JsonFault) : JsonShape
  | .object members stop? => do
    f.checkMembers [] members
    JsonFault.unless (stop?.map JsonStop.fault)
    f.checkRequired (members.filterMap (·.1))
  | .array items stop? => do
    checkItems f.shapes items
    if items.length > f.shapes.length then throw surplus
    JsonFault.unless (stop?.map JsonStop.fault)
    f.checkRequired (f.keys.take items.length)
  | j => scalar (fun _ => false) j

end Fields

/-- A record that is read field by field. -/
def record (f : Fields) : JsonShape := f.check .malformed

/-- A record that was read as a whole before. -/
def storedRecord (f : Fields) : JsonShape := f.check .wrongShape

/-! ### Records of several kinds -/

/-- Kinds of records by their names, each with its fields. -/
abbrev Kinds := List (String × Fields)

namespace Kinds

/-- The fields for the name of a kind. -/
def fieldsOf (kinds : Kinds) (value : Json) : Except JsonFault Fields := do
  text value
  match value.text?.bind fun name => kinds.lookup name with
  | some f => return f
  | none => throw .wrongShape

/-- Reads all members and gives the fields of the kind that one of them tells. -/
def readMembers (kinds : Kinds) : (found? : Option Fields) → List (Option String × Json) →
    Except JsonFault (Option Fields)
  | found?, [] => .ok found?
  | _, (none, _) :: _ => .error .malformed
  | found?, (some key, value) :: members =>
    if key == "kind" then
      if found?.isSome then .error .wrongShape
      else do kinds.readMembers (some (← kinds.fieldsOf value)) members
    else do
      JsonFault.unless (value.formFault? true)
      kinds.readMembers found? members

/-- The fields for the first item of an array, when all of it can be read. -/
def readItems (kinds : Kinds) : List Json → Except JsonFault (Option Fields)
  | [] => .ok none
  | value :: items => do
    let f ← kinds.fieldsOf value
    JsonFault.unless (Json.itemsFault? true items)
    return some f

/-- The fields of the kind that a record says it is of. -/
def read (kinds : Kinds) : Json → Except JsonFault Fields
  | .object members stop? => do
    let found? ← kinds.readMembers none members
    JsonFault.unless (stop?.map JsonStop.fault)
    match found? with
    | some f => return f
    | none => throw .wrongShape
  | .array items stop? => do
    let found? ← kinds.readItems items
    JsonFault.unless (stop?.map JsonStop.fault)
    match found? with
    | some f => return f
    | none => throw .wrongShape
  | j => do
    scalar (fun _ => false) j
    throw .wrongShape

end Kinds

end JsonShape

namespace Json

/-- A record of several kinds without what tells its kind. -/
def content : Json → Json
  | .object members stop? => .object (members.filter fun m => m.1 != some "kind") stop?
  | .array items stop? => .array items.tail stop?
  | j => j

/-- What tells the kind of a record. -/
def kind? : Json → Option String
  | .object members _ => (members.lookup (some "kind")).bind text?
  | .array items _ => items.head?.bind text?
  | _ => none

end Json

namespace JsonShape

/-- A record of one of several kinds. -/
def tagged (kinds : Kinds) : JsonShape := fun j => do
  let f ← kinds.read j
  storedRecord f j.content

end JsonShape

end CallGuard
