import CallGuard.Proofs.Token.Gap
import CallGuard.Proofs.Token.Row

/-! A piece of a text that is a token. Pieces are described apart from offsets and for the text that
follows them, and the description is shown to be what the scanner reads. -/
namespace CallGuard

/-! ### Quoted bodies -/

namespace Quoted

/- A body is closed at its end and stands for a value, whatever follows it. -/
def Closes (read : Nat → List Char → Quoted) (body value : List Char) : Prop :=
  ∀ offset rest, ∃ stop, read offset (body ++ rest) = ⟨value, stop, rest, true⟩

theorem closesSome {read : Nat → List Char → Quoted} {body value : List Char}
    (unclosed : ∀ offset, (read offset []).closed = false) (closes : Closes read body value) :
    ∃ c cs, body = c :: cs := by
  cases body with
  | nil =>
    obtain ⟨stop, same⟩ := closes 0 []
    have open' := unclosed 0
    rw [show read 0 [] = _ from same] at open'
    cases open'
  | cons c cs => exact ⟨c, cs, rfl⟩

theorem stringPlain {quote c : Char} (other : ¬ (c == quote) = true) (line : ¬ isLineBreak c = true)
    (escape : ¬ (c == '\\') = true) (offset : Nat) (cs : List Char) :
    string quote offset (c :: cs) = (string quote (offset + c.utf8Size) cs).put [c] := by
  rw [string.eq_def quote offset (c :: cs)]
  dsimp only
  rw [if_neg other, if_neg line, if_neg escape]

theorem stringCloses (quote : Char) (offset : Nat) (text : List Char)
    (closed : (string quote offset text).closed = true) :
    ∃ body, text = body ++ (string quote offset text).rest ∧
      Closes (string quote) body (string quote offset text).value := by
  fun_induction string quote offset text with
  | case1 => cases closed
  | case2 offset c cs closes =>
    refine ⟨[c], rfl, fun offset rest => ⟨offset + 1, ?_⟩⟩
    rw [List.singleton_append]
    unfold string
    rw [if_pos closes]
  | case3 => cases closed
  | case4 => cases closed
  | case5 offset c other line escape cs ih =>
    obtain ⟨body, whole, closes⟩ := ih closed
    refine ⟨c :: '\r' :: '\n' :: body, congrArg (fun cs => c :: '\r' :: '\n' :: cs) whole,
      fun offset rest => ?_⟩
    obtain ⟨stop, same⟩ := closes (offset + 3) rest
    refine ⟨stop, ?_⟩
    simp only [List.cons_append]
    rw [string, if_neg other, if_neg line, if_pos escape]
    exact same
  | case6 offset c other line escape e cs plain ih =>
    obtain ⟨body, whole, closes⟩ := ih closed
    refine ⟨c :: e :: body, congrArg (fun cs => c :: e :: cs) whole, fun offset rest => ?_⟩
    obtain ⟨d, ds, rfl⟩ := closesSome (fun _ => rfl) closes
    obtain ⟨stop, same⟩ := closes (offset + 1 + e.utf8Size) rest
    refine ⟨stop, ?_⟩
    simp only [List.cons_append] at same ⊢
    rw [string, if_neg other, if_neg line, if_pos escape, same]
    · rfl
    · intro tail carriage next
      rw [(List.cons.inj next).1] at whole
      exact plain _ carriage whole
  | case7 offset c cs other line escape ih =>
    obtain ⟨body, whole, closes⟩ := ih closed
    refine ⟨c :: body, congrArg (c :: ·) whole, fun offset rest => ?_⟩
    obtain ⟨stop, same⟩ := closes (offset + c.utf8Size) rest
    refine ⟨stop, ?_⟩
    rw [List.cons_append, stringPlain other line escape, same]
    rfl

/- The body of a template from a depth of braces on, up to its closing mark, and what it stands for. -/
inductive Closing : (depth : Nat) → (body value : List Char) → Prop where
  | mark : Closing 0 ['\x60'] []
  | lineEnd {depth body value} (more : Closing depth body value) :
      Closing depth ('\\' :: '\r' :: '\n' :: body) value
  | escape {depth e body value} (single : ¬ (e = '\r' ∧ body.head? = some '\n'))
      (more : Closing depth body value) : Closing depth ('\\' :: e :: body) (cook e ++ value)
  | plain {c body value} (open' : c ≠ '\x60') (solid : c ≠ '\\')
      (flat : ¬ (c = '$' ∧ body.head? = some '\x7b'))
      (more : Closing 0 body value) : Closing 0 (c :: body) (c :: value)
  | enters {body value} (more : Closing 1 body value) : Closing 0 ('$' :: '\x7b' :: body) value
  | opens {depth body value} (more : Closing (depth + 2) body value) :
      Closing (depth + 1) ('\x7b' :: body) value
  | leaves {depth body value} (more : Closing depth body value) : Closing (depth + 1) ('\x7d' :: body) value
  | inside {depth c body value} (solid : c ≠ '\\') (flat : c ≠ '\x7b' ∧ c ≠ '\x7d')
      (more : Closing (depth + 1) body value) : Closing (depth + 1) (c :: body) value

theorem closingSome {depth : Nat} {body value : List Char} (closing : Closing depth body value) :
    ∃ c cs, body = c :: cs := by
  cases closing <;> exact ⟨_, _, rfl⟩

/-! One step of the reader for each of these. -/

section
variable {depth offset : Nat} {c : Char} {cs : List Char}

theorem templateMark : template 0 offset ('\x60' :: cs) = ⟨[], offset + 1, cs, true⟩ := by
  rw [template.eq_def]
  rfl

theorem templateLineEnd :
    template depth offset ('\\' :: '\r' :: '\n' :: cs) = template depth (offset + 3) cs := by
  rw [template.eq_def]
  rfl

theorem templateEscape (single : ¬ (c = '\r' ∧ cs.head? = some '\n')) :
    template depth offset ('\\' :: c :: cs) =
      (template depth (offset + 1 + c.utf8Size) cs).put (cook c) := by
  rw [template.eq_def]
  dsimp only
  rw [if_neg (by simp), if_pos (beq_self_eq_true _)]
  split
  · rename_i none
    cases none
  · rename_i same
    cases same
    exact absurd ⟨rfl, rfl⟩ single
  · rename_i same
    cases same
    rfl

theorem templatePlain (open' : c ≠ '\x60') (solid : c ≠ '\\') (flat : ¬ (c = '$' ∧ cs.head? = some '\x7b')) :
    template 0 offset (c :: cs) = (template 0 (offset + c.utf8Size) cs).put [c] := by
  rw [template.eq_def]
  dsimp only
  rw [if_neg (by simpa using open'), if_neg (by simpa using solid)]
  simp only [beq_self_eq_true, if_true]
  split
  · exact absurd ⟨rfl, rfl⟩ flat
  · rfl

theorem templateEnters : template 0 offset ('$' :: '\x7b' :: cs) = template 1 (offset + 2) cs := by
  rw [template.eq_def]
  rfl

theorem templateOpens : template (depth + 1) offset ('\x7b' :: cs) = template (depth + 2) (offset + 1) cs := by
  rw [template.eq_def]
  rfl

theorem templateLeaves : template (depth + 1) offset ('\x7d' :: cs) = template depth (offset + 1) cs := by
  rw [template.eq_def]
  rfl

theorem templateInside (solid : c ≠ '\\') (flat : c ≠ '\x7b' ∧ c ≠ '\x7d') :
    template (depth + 1) offset (c :: cs) = template (depth + 1) (offset + c.utf8Size) cs := by
  rw [template.eq_def]
  simp [solid, flat]

end

/- What the reader takes for a body is one, whatever follows it. -/
theorem closingCloses {depth : Nat} {body value : List Char} (closing : Closing depth body value) :
    Closes (template depth) body value := by
  induction closing with
  | mark => exact fun offset rest => ⟨offset + 1, templateMark⟩
  | lineEnd _ ih =>
    intro offset rest
    obtain ⟨stop, same⟩ := ih (offset + 3) rest
    exact ⟨stop, templateLineEnd.trans same⟩
  | @escape depth e body value single more ih =>
    intro offset rest
    obtain ⟨stop, same⟩ := ih (offset + 1 + e.utf8Size) rest
    obtain ⟨d, ds, rfl⟩ := closingSome more
    have single : ¬ (e = '\r' ∧ (d :: ds ++ rest).head? = some '\n') := single
    refine ⟨stop, (templateEscape single).trans ?_⟩
    rw [same]
    rfl
  | @plain c body value open' solid flat more ih =>
    intro offset rest
    obtain ⟨stop, same⟩ := ih (offset + c.utf8Size) rest
    obtain ⟨d, ds, rfl⟩ := closingSome more
    have flat : ¬ (c = '$' ∧ (d :: ds ++ rest).head? = some '\x7b') := flat
    refine ⟨stop, (templatePlain open' solid flat).trans ?_⟩
    rw [same]
    rfl
  | enters _ ih =>
    intro offset rest
    obtain ⟨stop, same⟩ := ih (offset + 2) rest
    exact ⟨stop, templateEnters.trans same⟩
  | opens _ ih =>
    intro offset rest
    obtain ⟨stop, same⟩ := ih (offset + 1) rest
    exact ⟨stop, templateOpens.trans same⟩
  | leaves _ ih =>
    intro offset rest
    obtain ⟨stop, same⟩ := ih (offset + 1) rest
    exact ⟨stop, templateLeaves.trans same⟩
  | @inside depth c body value solid flat _ ih =>
    intro offset rest
    obtain ⟨stop, same⟩ := ih (offset + c.utf8Size) rest
    exact ⟨stop, (templateInside solid flat).trans same⟩

/- Nothing else is closed. -/
theorem templateClosing (depth offset : Nat) (text : List Char)
    (closed : (template depth offset text).closed = true) :
    ∃ body, text = body ++ (template depth offset text).rest ∧
      Closing depth body (template depth offset text).value := by
  fun_induction template depth offset text with
  | case1 => cases closed
  | case2 depth offset c cs closes =>
    rw [Bool.and_eq_true, beq_iff_eq, beq_iff_eq] at closes
    obtain ⟨rfl, rfl⟩ := closes
    exact ⟨['\x60'], rfl, .mark⟩
  | case3 => cases closed
  | case4 depth offset c other escape cs ih =>
    obtain ⟨body, whole, closing⟩ := ih closed
    cases beq_iff_eq.mp escape
    exact ⟨_, congrArg (fun cs => '\\' :: '\r' :: '\n' :: cs) whole, .lineEnd closing⟩
  | case5 depth offset c other escape e cs plain ih =>
    obtain ⟨body, whole, closing⟩ := ih closed
    cases beq_iff_eq.mp escape
    refine ⟨_, congrArg (fun cs => '\\' :: e :: cs) whole, .escape ?_ closing⟩
    rintro ⟨carriage, feed⟩
    obtain ⟨ds, rfl⟩ := List.head?_eq_some_iff.mp feed
    exact plain _ carriage whole
  | case6 depth offset zero cs other escape ih =>
    obtain ⟨body, whole, closing⟩ := ih closed
    cases beq_iff_eq.mp zero
    exact ⟨_, congrArg (fun cs => '$' :: '\x7b' :: cs) whole, .enters closing⟩
  | case7 depth offset zero c cs plain other escape ih =>
    obtain ⟨body, whole, closing⟩ := ih closed
    cases beq_iff_eq.mp zero
    refine ⟨_, congrArg (c :: ·) whole, .plain (by simpa using other) (by simpa using escape) ?_ closing⟩
    rintro ⟨dollar, brace⟩
    obtain ⟨ds, rfl⟩ := List.head?_eq_some_iff.mp brace
    exact plain _ dollar whole
  | case8 depth offset c cs other escape deep opens ih =>
    obtain ⟨body, whole, closing⟩ := ih closed
    cases beq_iff_eq.mp opens
    cases depth with
    | zero => exact absurd rfl deep
    | succ depth => exact ⟨_, congrArg ('\x7b' :: ·) whole, .opens closing⟩
  | case9 depth offset c cs other escape deep opens ends ih =>
    obtain ⟨body, whole, closing⟩ := ih closed
    cases beq_iff_eq.mp ends
    cases depth with
    | zero => exact absurd rfl deep
    | succ depth => exact ⟨_, congrArg ('\x7d' :: ·) whole, .leaves closing⟩
  | case10 depth offset c cs other escape deep opens ends ih =>
    obtain ⟨body, whole, closing⟩ := ih closed
    cases depth with
    | zero => exact absurd rfl deep
    | succ depth =>
      refine ⟨_, congrArg (c :: ·) whole, .inside (by simpa using escape) ?_ closing⟩
      simpa using And.intro opens ends

theorem templateCloses (depth offset : Nat) (text : List Char)
    (closed : (template depth offset text).closed = true) :
    ∃ body, text = body ++ (template depth offset text).rest ∧
      Closes (template depth) body (template depth offset text).value := by
  obtain ⟨body, whole, closing⟩ := templateClosing depth offset text closed
  exact ⟨body, whole, closingCloses closing⟩

end Quoted

/-! ### Pieces -/

def wordKind (text : List Char) : TokenKind :=
  match Keyword.ofSpelling? (String.ofList text) with
  | some k => .word k
  | none => .identifier

/- A piece of a text is a token with a kind and a value, where `rest` follows it. -/
inductive Lexed : (piece : List Char) → TokenKind → (value rest : List Char) → Prop where
  | word {c cs rest} (starts : isWordStart c = true)
      (run : Number.takeRun isWordPart (c :: cs ++ rest) = (c :: cs, rest)) :
      Lexed (c :: cs) (wordKind (c :: cs)) (c :: cs) rest
  | number {c cs rest} (begins : Lexeme.startsNumber (c :: cs ++ rest) = true)
      (run : Number.split (c :: cs ++ rest) = (c :: cs, rest)) :
      Lexed (c :: cs) .numericLiteral (c :: cs) rest
  | string {quote body value rest} (quotes : (quote == '"' || quote == '\'') = true)
      (closes : Quoted.Closes (Quoted.string quote) body value) :
      Lexed (quote :: body) .stringLiteral value rest
  | template {body value rest} (closes : Quoted.Closes (Quoted.template 0) body value) :
      Lexed ('\x60' :: body) .templateLiteral value rest
  | punct {p rest} (starts : Punctuator.ofStart? (p.spelling.toList ++ rest) = some p)
      (plain : Lexeme.startsNumber (p.spelling.toList ++ rest) = false)
      (comment : opensComment (p.spelling.toList ++ rest) = false) :
      Lexed p.spelling.toList (.punct p) [] rest

theorem punctStart (p : Punctuator) : ∃ c cs, p.spelling.toList = c :: cs ∧ isWordStart c = false ∧
    isSpace c = false ∧ (c == '"' || c == '\'') = false ∧ (c == '\x60') = false := by
  cases p <;> exact ⟨_, _, rfl, by decide +kernel, by decide +kernel, rfl, rfl⟩

theorem punctWidth (p : Punctuator) {c : Char} {cs : List Char} (spelled : p.spelling.toList = c :: cs) :
    p.width - 1 = cs.length := by
  have long := congrArg List.length spelled
  have wide : p.spelling.toList.length = p.width := by cases p <;> rfl
  rw [wide, List.length_cons] at long
  omega

theorem numberStart {c : Char} {cs : List Char} (begins : Lexeme.startsNumber (c :: cs) = true) :
    isWordStart c = false ∧ isSpace c = false ∧ c ≠ '/' := by
  by_cases point : c = '.'
  · subst point
    decide +kernel
  · have digit : isAsciiDigit c = true := by
      unfold Lexeme.startsNumber at begins
      split at begins <;> simp_all
    obtain ⟨word, space⟩ := digitPlain digit
    refine ⟨word, space, ?_⟩
    rintro rfl
    exact absurd digit (by decide)

theorem quoteStart {quote : Char} (quotes : (quote == '"' || quote == '\'') = true) (cs : List Char) :
    isWordStart quote = false ∧ Lexeme.startsNumber (quote :: cs) = false ∧ isSpace quote = false ∧
      quote ≠ '/' := by
  rcases Bool.or_eq_true_iff.mp quotes with same | same <;> cases beq_iff_eq.mp same <;>
    exact ⟨by decide +kernel, rfl, rfl, by decide⟩

/- The scanner reads the token. -/
theorem lexedRead {piece value rest : List Char} {kind : TokenKind} (lexed : Lexed piece kind value rest) :
    ∃ c cs, piece ++ rest = c :: cs ∧ Solid c cs ∧ ∀ start, ∃ stop,
      Lexeme.read start c cs = ⟨kind, value, stop, rest, none⟩ := by
  cases lexed with
  | @word c cs rest starts run =>
    have other : c ≠ '/' := by
      rintro rfl
      exact absurd starts (by decide +kernel)
    refine ⟨c, cs ++ rest, rfl, ⟨wordStartUnspaced starts, noComment other _⟩,
      fun start => ⟨start + Text.byteLength (c :: cs), ?_⟩⟩
    obtain ⟨taken, left⟩ := Prod.mk.inj run
    rw [List.cons_append] at taken left
    rw [Lexeme.read, if_pos starts, Lexeme.ofWord, taken, left]
    rfl
  | @number c cs rest begins run =>
    rw [List.cons_append] at begins run
    obtain ⟨word, space, other⟩ := numberStart begins
    refine ⟨c, cs ++ rest, rfl, ⟨space, noComment other _⟩,
      fun start => ⟨start + Text.byteLength (c :: cs), ?_⟩⟩
    rw [Lexeme.read, if_neg (by simp [word]), if_pos begins, Lexeme.ofNumber, run]
  | @string quote body value rest quotes closes =>
    obtain ⟨word, number, space, other⟩ := quoteStart quotes (body ++ rest)
    refine ⟨quote, body ++ rest, rfl, ⟨space, noComment other _⟩, fun start => ?_⟩
    obtain ⟨stop, same⟩ := closes (start + 1) rest
    refine ⟨stop, ?_⟩
    rw [Lexeme.read, if_neg (by simp [word]), if_neg (by simp [number]), if_pos quotes,
      Lexeme.ofQuoted, same]
    rfl
  | @template body value rest closes =>
    refine ⟨'\x60', body ++ rest, rfl, ⟨rfl, noComment (by decide) _⟩, fun start => ?_⟩
    obtain ⟨stop, same⟩ := closes (start + 1) rest
    refine ⟨stop, ?_⟩
    have number : Lexeme.startsNumber ('\x60' :: (body ++ rest)) = false := rfl
    rw [Lexeme.read, if_neg (by decide +kernel), if_neg (by simp [number]), if_neg (by decide),
      if_pos (by decide), Lexeme.ofQuoted, same]
    rfl
  | @punct p rest starts plain comment =>
    obtain ⟨c, cs, spelled, word, space, quote, tick⟩ := punctStart p
    rw [spelled, List.cons_append] at starts plain comment
    refine ⟨c, cs ++ rest, congrArg (· ++ rest) spelled, ⟨space, comment⟩,
      fun start => ⟨start + p.width, ?_⟩⟩
    rw [Lexeme.read, if_neg (by simp [word]), if_neg (by simp [plain]), if_neg (by simp [quote]),
      if_neg (by simp [tick]), starts]
    simp [punctWidth p spelled]

theorem lexedKind {piece value rest : List Char} {kind : TokenKind} (lexed : Lexed piece kind value rest) :
    kind ≠ .endOfFile := by
  cases lexed with
  | word => unfold wordKind; split <;> nofun
  | number | string | template | punct => nofun

/- What was read off the front of a text is a token. -/
def Lexeme.Reads (l : Lexeme) (text : List Char) : Prop :=
  ∃ piece, text = piece ++ l.rest ∧ Lexed piece l.kind l.value l.rest

namespace Lexeme

theorem wordReads {c : Char} (starts : isWordStart c = true) (start : Nat) (cs : List Char) :
    (ofWord start (c :: cs)).Reads (c :: cs) := by
  have first := List.takeWhile_cons_of_pos (wordStartPart starts) (l := cs)
  have whole := Number.takeRunAppend isWordPart (c :: cs)
  rw [Number.takeRun, first] at whole
  have same : ofWord start (c :: cs) = ⟨wordKind (c :: cs.takeWhile isWordPart), c :: cs.takeWhile isWordPart,
      start + Text.byteLength (c :: cs.takeWhile isWordPart), (c :: cs).dropWhile isWordPart, none⟩ := by
    rw [ofWord, first]
    rfl
  rw [same]
  exact ⟨_, whole.symm, .word starts (by rw [whole, Number.takeRun, first])⟩

theorem numberReads {text : List Char} (begins : startsNumber text = true) (start : Nat) :
    (ofNumber start text).Reads text := by
  have whole := Number.splitAppend text
  have shorter : (Number.split text).2.length < text.length :=
    @ofNumberShorter start _ begins
  refine ⟨(Number.split text).1, whole.symm, ?_⟩
  simp only [ofNumber]
  cases taken : (Number.split text).1 with
  | nil =>
    rw [taken, List.nil_append] at whole
    rw [whole] at shorter
    exact absurd shorter (Nat.lt_irrefl _)
  | cons c cs =>
    rw [taken] at whole
    exact .number (by rw [whole]; exact begins) (by rw [whole, ← taken])

theorem stringReads {quote : Char} (quotes : (quote == '"' || quote == '\'') = true) {start : Nat}
    {cs : List Char} (closed : (Quoted.string quote (start + 1) cs).closed = true) :
    (ofQuoted .stringLiteral .unterminatedString start (.string quote (start + 1) cs)).Reads
      (quote :: cs) := by
  obtain ⟨body, whole, closes⟩ := Quoted.stringCloses quote (start + 1) cs closed
  exact ⟨quote :: body, congrArg (quote :: ·) whole, .string quotes closes⟩

theorem templateReads {start : Nat} {cs : List Char}
    (closed : (Quoted.template 0 (start + 1) cs).closed = true) :
    (ofQuoted .templateLiteral .unterminatedTemplate start (.template 0 (start + 1) cs)).Reads
      ('\x60' :: cs) := by
  obtain ⟨body, whole, closes⟩ := Quoted.templateCloses 0 (start + 1) cs closed
  exact ⟨'\x60' :: body, congrArg ('\x60' :: ·) whole, .template closes⟩

theorem quotedClosed {kind : TokenKind} {fault : LexicalFault} {start : Nat} {q : Quoted}
    (fine : (ofQuoted kind fault start q).error? = none) : q.closed = true := by
  by_contra unclosed
  simp [ofQuoted, unclosed] at fine

/- What is read without a fault is a token. -/
theorem readReads (start : Nat) {c : Char} {cs : List Char} (solid : Solid c cs) :
    (read start c cs).error? = none → (read start c cs).Reads (c :: cs) := by
  unfold read
  split
  · rename_i starts
    exact fun _ => wordReads starts start cs
  · split
    · rename_i begins
      exact fun _ => numberReads begins start
    · split
      · rename_i quotes
        exact fun fine => stringReads quotes (quotedClosed fine)
      · split
        · rename_i tick
          rw [beq_iff_eq.mp tick]
          exact fun fine => templateReads (quotedClosed fine)
        · split
          · rename_i plain _ _ _ p found
            have whole := p.startDrops found
            refine fun _ => ⟨p.spelling.toList, whole.symm, .punct ?_ ?_ ?_⟩
            · exact (congrArg _ whole).trans found
            · exact (congrArg _ whole).trans (Bool.eq_false_iff.mpr plain)
            · exact (congrArg _ whole).trans solid.comment
          · nofun

end Lexeme

end CallGuard
