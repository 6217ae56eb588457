import CallGuard.Json.Read
import CallGuard.Json.Write

/-! Reading back what was written. Values without numbers and holes come back from any layout: over
several lines, on one line, or with any other blanks between brackets, members and items. -/
namespace CallGuard.Json

open Reader (skipBlanks valueFrom itemsFrom moreItemsFrom membersFrom)

/-! ### Strings -/

namespace Literal

/- The four digits that a control character is written with name its number. -/
theorem controlDigits : ∀ n < 32,
    (['0', '0', hexDigit (n / 16), hexDigit (n % 16)].all isHexDigit = true ∧
      ['0', '0', hexDigit (n / 16), hexDigit (n % 16)].foldl (fun m c => 16 * m + hexDigitValue c) 0 = n) ∧
      isLeadingHalf n = false ∧ isTrailingHalf n = false := by
  decide

theorem controlRead {n : Nat} (control : n < 32) (cs : List Char) :
    fourHexDigits ('0' :: '0' :: hexDigit (n / 16) :: hexDigit (n % 16) :: cs) = .ok (n, cs) := by
  obtain ⟨⟨digits, value⟩, _⟩ := controlDigits n control
  have long : ¬ Text.byteLength ('0' :: '0' :: hexDigit (n / 16) :: hexDigit (n % 16) :: cs) < 4 := by
    have third := (hexDigit (n / 16)).utf8Size_pos
    have fourth := (hexDigit (n % 16)).utf8Size_pos
    have zero : '0'.utf8Size = 1 := rfl
    simp only [Text.byteLength]
    omega
  have taken : ('0' :: '0' :: hexDigit (n / 16) :: hexDigit (n % 16) :: cs).take 4 =
      ['0', '0', hexDigit (n / 16), hexDigit (n % 16)] := rfl
  simp only [fourHexDigits, if_neg long, taken, if_pos digits, value]
  rfl

/- Whatever a character is written as, it is read as that character. -/
theorem quoteCharRead (fuel : Nat) (c : Char) (cs : List Char) :
    stringFrom (fuel + 1) (quoteChar c ++ cs) = (stringFrom fuel cs).cons c := by
  unfold quoteChar
  split
  case h_8 quote slash _ _ _ _ _ =>
    split
    case isTrue control =>
      obtain ⟨_, leading, trailing⟩ := controlDigits c.toNat control
      have same : Char.ofNat c.toNat = c := Char.ofNat_toNat c
      simp only [List.cons_append, List.nil_append, stringFrom, controlRead control, leading, trailing,
        same]
      rfl
    case isFalse plain =>
      rw [List.cons_append, List.nil_append, stringFrom, if_neg plain]
      · exact quote
      · exact fun same _ => slash same
      · exact fun _ same _ => slash same
      · exact fun _ _ same _ => slash same
  all_goals simp [stringFrom, escaped?]

theorem quotedRead (cs rest : List Char) (fuel : Nat) (enough : cs.length < fuel) :
    stringFrom fuel (cs.flatMap quoteChar ++ '"' :: rest) = ⟨some cs, .ok rest⟩ := by
  induction cs generalizing fuel with
  | nil =>
    obtain ⟨fuel, rfl⟩ : ∃ n, fuel = n + 1 := ⟨fuel - 1, by simp at enough; omega⟩
    rfl
  | cons c cs ih =>
    obtain ⟨fuel, rfl⟩ : ∃ n, fuel = n + 1 := ⟨fuel - 1, by simp at enough; omega⟩
    rw [List.flatMap_cons, List.append_assoc, quoteCharRead,
      ih fuel (by simpa using enough)]
    rfl

theorem quoteCharLength (c : Char) : 0 < (quoteChar c).length := by
  unfold quoteChar
  split
  case h_8 => split <;> exact Nat.succ_pos _
  all_goals exact Nat.succ_pos _

theorem quotedLength (cs : List Char) : cs.length ≤ (cs.flatMap quoteChar).length := by
  induction cs with
  | nil => exact Nat.le_refl _
  | cons c cs ih =>
    have one := quoteCharLength c
    simp only [List.flatMap_cons, List.length_append, List.length_cons]
    omega

/- A string is read back from behind its opening quote, whatever follows it. -/
theorem stringRead (s : String) (rest : List Char) :
    string (s.toList.flatMap quoteChar ++ '"' :: rest) = ⟨some s.toList, .ok rest⟩ := by
  have short := quotedLength s.toList
  exact quotedRead _ _ _ (by simp only [List.length_append, List.length_cons]; omega)

end Literal

/-! ### Layouts -/

/-- The blanks that are written between brackets, items and members, and behind colons. -/
structure Layout where
  /-- What begins a line at a level. -/
  line : Nat → List Char
  gap : List Char
  lineBlank : ∀ level, (line level).all Reader.isBlank = true
  gapBlank : gap.all Reader.isBlank = true

namespace Layout

/-- One item or member a line. -/
def pretty : Layout where
  line := lineAt
  gap := [' ']
  lineBlank _ := by simp [lineAt, Reader.isBlank]
  gapBlank := rfl

/-- No blanks at all. -/
def compact : Layout where
  line _ := []
  gap := []
  lineBlank _ := rfl
  gapBlank := rfl

variable (layout : Layout)

/-- Further parts on lines of their own, up to the closing bracket. -/
def following (closing : Char) (level : Nat) : List (List Char) → List Char
  | [] => layout.line level ++ [closing]
  | part :: parts => ',' :: (layout.line (level + 1) ++ (part ++ following closing level parts))

/-- Puts parts on lines of their own between brackets. -/
def enclose (opening closing : Char) (level : Nat) (parts : List (List Char)) : List Char :=
  match parts with
  | [] => [opening, closing]
  | part :: parts => opening :: (layout.line (level + 1) ++ (part ++ layout.following closing level parts))

mutual

/-- The text of a value whose first character stands at a level. -/
def writeAt (level : Nat) : Json → List Char
  | .null => "null".toList
  | .bool b => (toString b).toList
  | .number literal => literal.toList
  | .string s => Literal.quote s
  | .array items _ => layout.enclose '[' ']' level (writeItems (level + 1) items)
  | .object members _ => layout.enclose '\x7b' '\x7d' level (writeMembers (level + 1) members)
  | .unreadable form => writeAt level form
  | .broken _ => []

def writeItems (level : Nat) : List Json → List (List Char)
  | [] => []
  | item :: items => writeAt level item :: writeItems level items

def writeMembers (level : Nat) : List (Option String × Json) → List (List Char)
  | [] => []
  | (key, value) :: members =>
    (keyText key ++ ':' :: (layout.gap ++ writeAt level value)) :: writeMembers level members

end

/-- The text of a value. -/
def write (j : Json) : List Char := layout.writeAt 0 j

/- Putting commas between lines is putting one before each line but the first. -/
theorem prettyFollowing (closing : Char) (level : Nat) (part : List Char) (parts : List (List Char)) :
    (((part :: parts).map (lineAt (level + 1) ++ ·)).intersperse [',']).flatten ++ lineAt level ++ [closing] =
      lineAt (level + 1) ++ (part ++ pretty.following closing level parts) := by
  induction parts generalizing part with
  | nil => simp [following, pretty]
  | cons next parts ih =>
    have rest := ih next
    simp only [List.map_cons, List.intersperse_cons_cons, List.flatten_cons, List.append_assoc,
      following] at rest ⊢
    rw [rest]
    rfl

theorem prettyEnclose (opening closing : Char) (level : Nat) (parts : List (List Char)) :
    pretty.enclose opening closing level parts = Json.enclose opening closing level parts := by
  cases parts with
  | nil => rfl
  | cons part parts => exact congrArg (opening :: ·) (prettyFollowing closing level part parts).symm

mutual

theorem prettyWriteAt (level : Nat) (j : Json) : pretty.writeAt level j = prettyAt level j := by
  cases j with
  | array items stop? => rw [writeAt, prettyAt, prettyWriteItems, prettyEnclose]
  | object members stop? => rw [writeAt, prettyAt, prettyWriteMembers, prettyEnclose]
  | unreadable form => rw [writeAt, prettyAt, prettyWriteAt]
  | _ => rw [writeAt, prettyAt]

theorem prettyWriteItems (level : Nat) (items : List Json) :
    pretty.writeItems level items = prettyItems level items := by
  cases items with
  | nil => rw [writeItems, prettyItems]
  | cons item items => rw [writeItems, prettyItems, prettyWriteAt, prettyWriteItems]

theorem prettyWriteMembers (level : Nat) (members : List (Option String × Json)) :
    pretty.writeMembers level members = prettyMembers level members := by
  cases members with
  | nil => rw [writeMembers, prettyMembers]
  | cons m members =>
    rw [writeMembers, prettyMembers, prettyWriteAt, prettyWriteMembers]
    simp [pretty]

end

/- Writing over several lines is the layout of one item or member a line. -/
theorem prettyWrite (j : Json) : pretty.write j = j.pretty.toList := by
  rw [write, prettyWriteAt, Json.pretty, String.toList_ofList]

end Layout

/-! ### Reading -/

/-- Values of texts, flags and nothing else, with room for so many containers inside each other. -/
inductive Plain : Nat → Json → Prop
  | null {room} : Plain room .null
  | bool {room} (b : Bool) : Plain room (.bool b)
  | string {room} (s : String) : Plain room (.string s)
  | list {room} {items : List Json} (plain : ∀ item ∈ items, Plain room item) :
      Plain (room + 1) (.list items)
  | record {room} {members : List (String × Json)} (plain : ∀ m ∈ members, Plain room m.2) :
      Plain (room + 1) (.record members)

namespace Reader

theorem skipBlanksAppend {blanks : List Char} (blank : blanks.all isBlank = true) (cs : List Char) :
    skipBlanks (blanks ++ cs) = skipBlanks cs := by
  rw [skipBlanks, List.dropWhile_append_of_pos (List.all_eq_true.mp blank), skipBlanks]

theorem skipBlanksCons {c : Char} (solid : isBlank c = false) (cs : List Char) :
    skipBlanks (c :: cs) = c :: cs := by
  rw [skipBlanks, List.dropWhile_cons_of_neg (by simp [solid])]

/- A reader of values looks past blanks before it does anything else. -/
theorem valueSkips {blanks : List Char} (blank : blanks.all isBlank = true) (fuel depth : Nat)
    (cs : List Char) : valueFrom fuel depth (blanks ++ cs) = valueFrom fuel depth cs := by
  cases fuel with
  | zero => simp only [valueFrom]
  | succ fuel => simp only [valueFrom, skipBlanksAppend blank]

end Reader

open Reader (skipBlanksAppend skipBlanksCons valueSkips)

section
variable (layout : Layout)

/- What is written for a value is read as it, whatever follows. Three steps for each character are
enough. -/
def ReadsBack (room : Nat) (j : Json) : Prop :=
  ∀ level depth fuel rest, depth + room ≤ Reader.maxDepth → 3 * (layout.writeAt level j).length ≤ fuel →
    valueFrom fuel depth (layout.writeAt level j ++ rest) = ⟨j, some rest⟩

variable {layout} {room : Nat}

theorem lastItem {fuel depth : Nat} {cs behind rest : List Char} {item : Json}
    (read : valueFrom fuel (depth + 1) cs = ⟨item, some behind⟩) (next : skipBlanks behind = ']' :: rest) :
    moreItemsFrom (fuel + 1) depth cs = ⟨([item], none), some rest⟩ := by
  rw [moreItemsFrom, read]
  simp only [Option.map_some, next]

theorem nextItem {fuel depth : Nat} {cs behind rest : List Char} {item : Json}
    (read : valueFrom fuel (depth + 1) cs = ⟨item, some behind⟩) (next : skipBlanks behind = ',' :: rest) :
    moreItemsFrom (fuel + 1) depth cs =
      (moreItemsFrom fuel depth rest).map fun (items, stop?) => (item :: items, stop?) := by
  rw [moreItemsFrom, read]
  simp only [Option.map_some, next]

/- The items of an array from the line of one of them to the end. -/
theorem itemsReadBack {items : List Json} {item : Json} (level depth fuel : Nat) (rest : List Char)
    (each : ∀ i ∈ item :: items, ReadsBack layout room i) (deep : depth + 1 + room ≤ Reader.maxDepth)
    (enough : 3 * (layout.writeAt (level + 1) item ++
      layout.following ']' level (layout.writeItems (level + 1) items)).length + 1 ≤ fuel) :
    moreItemsFrom fuel depth (layout.line (level + 1) ++ (layout.writeAt (level + 1) item ++
      layout.following ']' level (layout.writeItems (level + 1) items) ++ rest)) =
        ⟨(item :: items, none), some rest⟩ := by
  induction items generalizing item fuel with
  | nil =>
    obtain ⟨fuel, rfl⟩ : ∃ n, fuel = n + 1 := ⟨fuel - 1, by omega⟩
    have read := each item List.mem_cons_self (level + 1) (depth + 1) fuel
      (layout.line level ++ (']' :: rest)) deep (by
        simp only [List.length_append] at enough
        omega)
    rw [← valueSkips (layout.lineBlank (level + 1))] at read
    have next : skipBlanks (layout.line level ++ ']' :: rest) = ']' :: rest := by
      rw [skipBlanksAppend (layout.lineBlank level), skipBlanksCons rfl]
    simpa [Layout.writeItems, Layout.following] using lastItem read next
  | cons second items ih =>
    obtain ⟨fuel, rfl⟩ : ∃ n, fuel = n + 1 := ⟨fuel - 1, by omega⟩
    simp only [Layout.writeItems, Layout.following, List.length_append, List.length_cons] at enough
    have read := each item List.mem_cons_self (level + 1) (depth + 1) fuel
      (layout.following ']' level (layout.writeItems (level + 1) (second :: items)) ++ rest) deep (by omega)
    rw [← valueSkips (layout.lineBlank (level + 1))] at read
    have behind := ih fuel (fun i among => each i (List.mem_cons_of_mem _ among)) (by
      simp only [List.length_append]
      omega)
    have next : skipBlanks (layout.following ']' level (layout.writeItems (level + 1) (second :: items)) ++
        rest) = ',' :: (layout.line (level + 1) ++ (layout.writeAt (level + 1) second ++
          layout.following ']' level (layout.writeItems (level + 1) items) ++ rest)) := by
      simp only [Layout.writeItems, Layout.following, List.cons_append, List.append_assoc]
      exact skipBlanksCons rfl _
    rw [List.append_assoc, nextItem read next, behind]
    rfl

theorem keyColon (key : String) (cs : List Char) :
    keyText (some key) ++ ':' :: cs = '"' :: (key.toList.flatMap Literal.quoteChar ++ '"' :: (':' :: cs)) := by
  simp [keyText, Literal.quote]

theorem behindColonRead (cs : List Char) : Reader.behindColon (':' :: cs) = .ok cs := by
  rw [Reader.behindColon, skipBlanksCons rfl]
  rfl

theorem lastMember {fuel depth : Nat} {afterComma : Bool} {key : String} {cs behind rest : List Char}
    {value : Json} (read : valueFrom fuel (depth + 1) cs = ⟨value, some behind⟩)
    (next : skipBlanks behind = '\x7d' :: rest) :
    membersFrom (fuel + 1) depth afterComma (keyText (some key) ++ ':' :: cs) =
      ⟨([(some key, value)], none), some rest⟩ := by
  rw [keyColon, membersFrom]
  simp only [Literal.stringRead, behindColonRead, read, Option.map_some, next, String.ofList_toList]

theorem nextMember {fuel depth : Nat} {afterComma : Bool} {key : String} {cs behind rest : List Char}
    {value : Json} (read : valueFrom fuel (depth + 1) cs = ⟨value, some behind⟩)
    (next : skipBlanks behind = ',' :: rest) :
    membersFrom (fuel + 1) depth afterComma (keyText (some key) ++ ':' :: cs) =
      (membersFrom fuel depth true (skipBlanks rest)).map fun (members, stop?) =>
        ((some key, value) :: members, stop?) := by
  rw [keyColon, membersFrom]
  simp only [Literal.stringRead, behindColonRead, read, Option.map_some, next, String.ofList_toList]

/- Members whose keys are texts. -/
def keyed (members : List (String × Json)) : List (Option String × Json) :=
  members.map fun (key, value) => (some key, value)

theorem keySolid (key : Option String) (cs : List Char) :
    skipBlanks (keyText key ++ cs) = keyText key ++ cs := skipBlanksCons rfl _

/- The members of an object from the line of one of them to the end. -/
theorem membersReadBack {members : List (String × Json)} {m : String × Json} (level depth fuel : Nat)
    (afterComma : Bool) (rest : List Char) (each : ∀ m' ∈ m :: members, ReadsBack layout room m'.2)
    (deep : depth + 1 + room ≤ Reader.maxDepth)
    (enough : 3 * (layout.writeAt (level + 1) m.2 ++
      layout.following '\x7d' level (layout.writeMembers (level + 1) (keyed members))).length + 1 ≤ fuel) :
    membersFrom fuel depth afterComma (keyText (some m.1) ++ ':' :: (layout.gap ++
      (layout.writeAt (level + 1) m.2 ++
        layout.following '\x7d' level (layout.writeMembers (level + 1) (keyed members)) ++ rest))) =
        ⟨(keyed (m :: members), none), some rest⟩ := by
  induction members generalizing m fuel afterComma with
  | nil =>
    obtain ⟨fuel, rfl⟩ : ∃ n, fuel = n + 1 := ⟨fuel - 1, by omega⟩
    have read := each m List.mem_cons_self (level + 1) (depth + 1) fuel
      (layout.line level ++ ('\x7d' :: rest)) deep (by
        simp only [List.length_append] at enough
        omega)
    rw [← valueSkips layout.gapBlank] at read
    have next : skipBlanks (layout.line level ++ '\x7d' :: rest) = '\x7d' :: rest := by
      rw [skipBlanksAppend (layout.lineBlank level), skipBlanksCons rfl]
    simpa [keyed, Layout.writeMembers, Layout.following] using lastMember read next
  | cons second members ih =>
    obtain ⟨fuel, rfl⟩ : ∃ n, fuel = n + 1 := ⟨fuel - 1, by omega⟩
    simp only [keyed, List.map_cons, Layout.writeMembers, Layout.following, List.length_append,
      List.length_cons] at enough
    have read := each m List.mem_cons_self (level + 1) (depth + 1) fuel
      (layout.following '\x7d' level (layout.writeMembers (level + 1) (keyed (second :: members))) ++ rest)
      deep (by omega)
    rw [← valueSkips layout.gapBlank] at read
    have behind := ih (m := second) fuel true
      (fun i among => each i (List.mem_cons_of_mem _ among)) (by
        simp only [List.length_append, keyed]
        omega)
    have next : skipBlanks (layout.following '\x7d' level
        (layout.writeMembers (level + 1) (keyed (second :: members))) ++ rest) =
        ',' :: (layout.line (level + 1) ++ (keyText (some second.1) ++ ':' :: (layout.gap ++
          (layout.writeAt (level + 1) second.2 ++
            layout.following '\x7d' level (layout.writeMembers (level + 1) (keyed members)) ++ rest)))) := by
      simp only [keyed, List.map_cons, Layout.writeMembers, Layout.following, List.cons_append,
        List.append_assoc]
      exact skipBlanksCons rfl _
    rw [List.append_assoc, nextMember read next, skipBlanksAppend (layout.lineBlank _), keySolid, behind]
    rfl

theorem boundedInside {depth : Nat} (inside : depth + (room + 1) ≤ Reader.maxDepth) (container : Json) :
    Reader.bounded depth container = container := if_pos (by omega)

theorem emptyArray (fuel depth : Nat) (rest : List Char) :
    valueFrom (fuel + 2) depth ('[' :: ']' :: rest) = ⟨Reader.bounded depth (.array [] none), some rest⟩ := by
  rw [valueFrom, skipBlanksCons rfl]
  simp only [skipBlanksCons (c := ']') rfl, itemsFrom]
  rfl

theorem emptyObject (fuel depth : Nat) (rest : List Char) :
    valueFrom (fuel + 2) depth ('\x7b' :: '\x7d' :: rest) =
      ⟨Reader.bounded depth (.object [] none), some rest⟩ := by
  rw [valueFrom, skipBlanksCons rfl]
  simp only [skipBlanksCons (c := '\x7d') rfl, membersFrom]
  rfl

/- What begins an item is neither a blank nor the end of an array. -/
theorem Plain.begins {j : Json} (plain : j.Plain room) (layout : Layout) (level : Nat) :
    ∃ c cs, layout.writeAt level j = c :: cs ∧ Reader.isBlank c = false ∧ c ≠ ']' := by
  cases plain with
  | null => exact ⟨_, _, rfl, by decide⟩
  | bool b => cases b <;> exact ⟨_, _, rfl, by decide⟩
  | string s => exact ⟨_, _, rfl, by decide⟩
  | list =>
    rw [Json.list, Layout.writeAt, Layout.enclose.eq_def]
    split <;> exact ⟨_, _, rfl, by decide⟩
  | record =>
    rw [Json.record, Layout.writeAt, Layout.enclose.eq_def]
    split <;> exact ⟨_, _, rfl, by decide⟩

theorem Plain.fuel {j : Json} (plain : j.Plain room) {level fuel : Nat}
    (enough : 3 * (layout.writeAt level j).length ≤ fuel) : ∃ n, fuel = n + 2 := by
  obtain ⟨c, cs, begins, _⟩ := plain.begins layout level
  rw [begins, List.length_cons] at enough
  exact ⟨fuel - 2, by omega⟩

theorem fullArray {fuel depth : Nat} {blanks rest more : List Char} {c : Char} {items : List Json}
    (blank : blanks.all Reader.isBlank = true) (solid : Reader.isBlank c = false) (goesOn : c ≠ ']')
    (read : moreItemsFrom fuel depth (blanks ++ c :: more) = ⟨(items, none), some rest⟩) :
    valueFrom (fuel + 2) depth ('[' :: (blanks ++ c :: more)) =
      ⟨Reader.bounded depth (.array items none), some rest⟩ := by
  have behind : moreItemsFrom fuel depth (c :: more) = ⟨(items, none), some rest⟩ := by
    cases fuel with
    | zero => simpa only [moreItemsFrom] using read
    | succ fuel => simpa only [moreItemsFrom, valueSkips blank] using read
  rw [valueFrom, skipBlanksCons rfl]
  simp only [skipBlanksAppend blank, skipBlanksCons solid]
  rw [itemsFrom, behind]
  · rfl
  · exact fun none => List.cons_ne_nil _ _ none
  · exact fun _ same => goesOn (List.cons.inj same).1

theorem listReadsBack {items : List Json} (each : ∀ item ∈ items, ReadsBack layout room item)
    (plain : ∀ item ∈ items, Plain room item) : ReadsBack layout (room + 1) (.list items) := by
  intro level depth fuel rest deep enough
  have inside := boundedInside deep
  obtain ⟨fuel, rfl⟩ := (Plain.list plain).fuel enough
  cases items with
  | nil =>
    have read := emptyArray fuel depth rest
    rwa [inside] at read
  | cons item items =>
    obtain ⟨c, cs, begins, solid, goesOn⟩ :=
      (plain item List.mem_cons_self).begins layout (level + 1)
    simp only [list, Layout.writeAt, Layout.writeItems, Layout.enclose] at enough ⊢
    have read := itemsReadBack level depth fuel rest each (by omega) (by
      simp only [List.length_cons, List.length_append] at enough ⊢
      omega)
    simp only [begins, List.cons_append] at read
    have whole := fullArray (layout.lineBlank _) solid goesOn read
    simpa only [begins, List.cons_append, List.append_assoc, inside] using whole

theorem recordReadsBack {members : List (String × Json)} (each : ∀ m ∈ members, ReadsBack layout room m.2)
    (plain : ∀ m ∈ members, Plain room m.2) : ReadsBack layout (room + 1) (.record members) := by
  intro level depth fuel rest deep enough
  have inside := boundedInside deep
  obtain ⟨fuel, rfl⟩ := (Plain.record plain).fuel enough
  cases members with
  | nil =>
    have read := emptyObject fuel depth rest
    rwa [inside] at read
  | cons m members =>
    simp only [record, List.map_cons, Layout.writeAt, Layout.writeMembers, Layout.enclose] at enough ⊢
    have read := membersReadBack level depth (fuel + 1) false rest each (by omega) (by
        simp only [List.length_cons, List.length_append, keyed] at enough ⊢
        omega)
    rw [List.cons_append, valueFrom, skipBlanksCons rfl]
    simp only [List.append_assoc, skipBlanksAppend (layout.lineBlank _), keySolid, List.cons_append]
    simp only [List.append_assoc, keyed] at read
    rw [read]
    simp only [Reader.Reading.map, inside]
    rfl

end

/- Whatever the layout, a plain value is read back. -/
theorem Plain.readsBack (layout : Layout) {room : Nat} {j : Json} (plain : j.Plain room) :
    ReadsBack layout room j := by
  induction plain with
  | null =>
    intro level depth fuel rest _ enough
    obtain ⟨fuel, rfl⟩ := (@Plain.null 0).fuel enough
    simp [Layout.writeAt, valueFrom, skipBlanksCons, Reader.word, Reader.isBlank]
  | bool b =>
    intro level depth fuel rest _ enough
    obtain ⟨fuel, rfl⟩ := (@Plain.bool 0 b).fuel enough
    have spelled : (toString b).toList = if b then "true".toList else "false".toList := by cases b <;> rfl
    rw [Layout.writeAt, spelled]
    cases b <;> simp [valueFrom, skipBlanksCons, Reader.word, Reader.isBlank]
  | string s =>
    intro level depth fuel rest _ enough
    obtain ⟨fuel, rfl⟩ := (@Plain.string 0 s).fuel enough
    have spelled : layout.writeAt level (.string s) ++ rest =
        '"' :: (s.toList.flatMap Literal.quoteChar ++ '"' :: rest) := by
      simp [Layout.writeAt, Literal.quote]
    rw [spelled, valueFrom, skipBlanksCons rfl]
    simp only [Reader.stringValue, Literal.stringRead, String.ofList_toList]
  | list plain ih => exact listReadsBack ih plain
  | record plain ih => exact recordReadsBack ih plain

/- The text of a plain value says that value and nothing else. -/
theorem ofWritten (layout : Layout) {j : Json} (plain : j.Plain Reader.maxDepth) :
    ofText (layout.write j) = ⟨j, some []⟩ := by
  have read := plain.readsBack layout 0 0 (3 * (layout.write j).length + 3) [] (by omega)
    (by rw [Layout.write]; omega)
  rwa [List.append_nil] at read

end CallGuard.Json
