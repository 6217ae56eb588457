import CallGuard.Json.Literal
import CallGuard.Json.Number

/-! Reading a text as JSON. -/
namespace CallGuard.Json

namespace Reader

/-- The blanks of JSON, fewer than those of Unicode. -/
def isBlank (c : Char) : Bool := c == ' ' || c == '\n' || c == '\t' || c == '\r'

def skipBlanks (cs : List Char) : List Char := cs.dropWhile isBlank

/-- Arrays and objects can be nested this deeply. -/
def maxDepth : Nat := 127

/-- A part of the text as it was read, with what follows, or nothing when reading stopped. -/
structure Reading (α : Type) where
  value : α
  rest? : Option (List Char)

namespace Reading

def stopped (stop : JsonStop) : Reading Json := ⟨.broken stop, none⟩

def map (f : α → β) (r : Reading α) : Reading β := ⟨f r.value, r.rest?⟩

end Reading

/-- `null`, `true` or `false`, from its second letter on. -/
def word (letters : List Char) (value : Json) (cs : List Char) : Reading Json :=
  match letters, cs with
  | [], cs => ⟨value, some cs⟩
  | _ :: _, [] => .stopped .endedInWord
  | l :: letters, c :: cs => if l == c then word letters value cs else .stopped .unexpected

/-- A number, whose sign has been passed. -/
def number (start cs : List Char) : Reading Json :=
  match NumberParts.read cs with
  | .error s => .stopped s
  | .ok (parts, rest) =>
    let literal := start.take (start.length - rest.length)
    ⟨if parts.isFinite then .number (String.ofList literal) else .unreadable .null, some rest⟩

def stringValue (cs : List Char) : Reading Json :=
  let scan := Literal.string cs
  match scan.chars?, scan.rest with
  | some chars, .ok rest => ⟨.string (String.ofList chars), some rest⟩
  | some _, .error s => .stopped s
  | none, .ok rest => ⟨.unreadable .null, some rest⟩
  | none, .error s => ⟨.unreadable (.broken s), none⟩

/-- Marks a container that is nested too deeply. -/
def bounded (depth : Nat) (container : Json) : Json :=
  if depth < maxDepth then container else .unreadable container

/-- The text behind the colon after a key. -/
def behindColon (cs : List Char) : Except JsonStop (List Char) :=
  match skipBlanks cs with
  | ':' :: rest => .ok rest
  | [] => .error .ended
  | _ => .error .unexpected

/-- Why something other than a quote in the place of a key stops the reading. -/
def keyStop (afterComma : Bool) : List Char → JsonStop
  | [] => JsonStop.ended.behindComma afterComma
  | _ => .unexpected

mutual

/-- Reads one value inside `depth` containers. -/
def valueFrom : (fuel : Nat) → (depth : Nat) → List Char → Reading Json
  | 0, _, _ => .stopped .ended
  | fuel + 1, depth, cs =>
    match skipBlanks cs with
    | [] => .stopped .ended
    | '"' :: rest => stringValue rest
    | '[' :: rest =>
      (itemsFrom fuel depth (skipBlanks rest)).map fun (items, stop?) =>
        bounded depth (.array items stop?)
    | '\x7b' :: rest =>
      (membersFrom fuel depth false (skipBlanks rest)).map fun (members, stop?) =>
        bounded depth (.object members stop?)
    | 'n' :: rest => word "ull".toList .null rest
    | 't' :: rest => word "rue".toList (.bool true) rest
    | 'f' :: rest => word "alse".toList (.bool false) rest
    | '-' :: rest => number ('-' :: rest) rest
    | c :: rest => if isAsciiDigit c then number (c :: rest) (c :: rest) else .stopped .unexpected

/-- Reads the items of an array from where the first one, or the end, should be. -/
def itemsFrom : (fuel : Nat) → (depth : Nat) → List Char → Reading (List Json × Option JsonStop)
  | 0, _, _ => ⟨([], some .ended), none⟩
  | _ + 1, _, [] => ⟨([], some .ended), none⟩
  | _ + 1, _, ']' :: rest => ⟨([], none), some rest⟩
  | fuel + 1, depth, cs => moreItemsFrom fuel depth cs

/-- Reads the items of an array from where an item should be. -/
def moreItemsFrom :
    (fuel : Nat) → (depth : Nat) → List Char → Reading (List Json × Option JsonStop)
  | 0, _, _ => ⟨([], some .ended), none⟩
  | fuel + 1, depth, cs =>
    let item := valueFrom fuel (depth + 1) cs
    match item.rest?.map skipBlanks with
    | none => ⟨([item.value], none), none⟩
    | some [] => ⟨([item.value], some .ended), none⟩
    | some (']' :: rest) => ⟨([item.value], none), some rest⟩
    | some (',' :: rest) =>
      (moreItemsFrom fuel depth rest).map fun (items, stop?) => (item.value :: items, stop?)
    | some _ => ⟨([item.value], some .unexpected), none⟩

/-- Reads the members of an object from where a key should be, or the end unless a comma came
before. -/
def membersFrom : (fuel : Nat) → (depth : Nat) → (afterComma : Bool) → List Char →
    Reading (List (Option String × Json) × Option JsonStop)
  | 0, _, _, _ => ⟨([], some .ended), none⟩
  | fuel + 1, depth, afterComma, '"' :: rest =>
    let key := Literal.string rest
    match key.chars?, key.rest with
    | some _, .error s => ⟨([], some (s.behindComma afterComma)), none⟩
    | none, .error s => ⟨([(none, .broken s)], none), none⟩
    | chars?, .ok rest =>
      let key := chars?.map String.ofList
      match behindColon rest with
      | .error s => ⟨([(key, .broken s)], none), none⟩
      | .ok rest =>
        let value := valueFrom fuel (depth + 1) rest
        match value.rest?.map skipBlanks with
        | none => ⟨([(key, value.value)], none), none⟩
        | some [] => ⟨([(key, value.value)], some .ended), none⟩
        | some ('\x7d' :: rest) => ⟨([(key, value.value)], none), some rest⟩
        | some (',' :: rest) =>
          (membersFrom fuel depth true (skipBlanks rest)).map fun (members, stop?) =>
            ((key, value.value) :: members, stop?)
        | some _ => ⟨([(key, value.value)], some .unexpected), none⟩
  | _ + 1, _, afterComma, cs =>
    match afterComma, cs with
    | false, '\x7d' :: rest => ⟨([], none), some rest⟩
    | _, _ => ⟨([], some (keyStop afterComma cs)), none⟩

end

end Reader

/-- Reads the value at the beginning of a text. The reader takes at most three steps without
passing a character, so the fuel is enough. -/
def ofText (text : List Char) : Reader.Reading Json :=
  Reader.valueFrom (3 * text.length + 3) 0 text

/-- What a whole text says in the eyes of a reader of its value. Only blanks may follow it. -/
def decodeText (decode : Json → Except JsonFault α) (text : List Char) : Except JsonFault α := do
  let r := ofText text
  let a ← decode r.value
  if r.rest?.any fun rest => rest.all Reader.isBlank then return a else throw .malformed

end CallGuard.Json
