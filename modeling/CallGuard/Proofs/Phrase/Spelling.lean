import CallGuard.Analysis.Suspension
import CallGuard.Proofs.Phrase.Rules
import CallGuard.Proofs.Tree.Grows

/-! The tokens that a row of parts is spelled with. A node begins with its first token, and what it
is made of is again a row of parts. Where nothing was reported the rules of the language say what a
node is made of; elsewhere it is only known that its children are among its parts, and that a
suspension has a token in front of them. -/
namespace CallGuard.Phrase

structure Fits (clean : Prop) (c : Category) (n : Node) (row : List Part) : Prop where
  kids : n.kids.Sublist (nodes row)
  own : n.kind.isSuspension = true → ∃ t rest, row = .token t :: rest
  made : clean → Made c n.kind n.payload? row

/- A row of parts stands at the front of the tokens `ahead`, and `after` is left of them. -/
inductive Spelt (t : Tree) (clean : Prop) : List Part → List Token → List Token → Prop where
  | nil (ahead) : Spelt t clean [] ahead ahead
  | token {k row ahead after} (rest : Spelt t clean row ahead after) :
      Spelt t clean (.token k :: row) (k :: ahead) after
  | skipped {k row ahead after} (rest : Spelt t clean row ahead after) :
      Spelt t clean (.skipped k :: row) (k :: ahead) after
  | node {c i n inner row first ahead mid after} (found : t.get? i = some n)
      (place : n.start = first.start) (fits : Fits clean c n inner)
      (inside : Spelt t clean inner (first :: ahead) mid) (rest : Spelt t clean row mid after) :
      Spelt t clean (.node c i :: row) (first :: ahead) after

variable {t t' : Tree} {clean clean' : Prop} {row more : List Part} {ahead mid after : List Token}

theorem Fits.later {c : Category} {n m : Node} (fits : Fits clean c n row) (same : n.Same m)
    (still : clean' → clean) : Fits clean' c m row := by
  refine ⟨same.kids ▸ fits.kids, same.kind ▸ fits.own, fun h => ?_⟩
  rw [same.kind, same.payload]
  exact fits.made (still h)

/- A tree that grows still has the nodes of a row. -/
theorem Spelt.later (spelt : Spelt t clean row ahead after) (grows : t.Grows t')
    (still : clean' → clean) : Spelt t' clean' row ahead after := by
  induction spelt with
  | nil => exact .nil _
  | token _ ih => exact .token ih
  | skipped _ ih => exact .skipped ih
  | node found place fits _ _ inside rest =>
    obtain ⟨m, found', same⟩ := grows _ _ found
    exact .node found' (same.start.trans place) (fits.later same still) inside rest

theorem Spelt.append (first : Spelt t clean row ahead mid) (next : Spelt t clean more mid after) :
    Spelt t clean (row ++ more) ahead after := by
  induction first with
  | nil => exact next
  | token _ ih => exact .token (ih next)
  | skipped _ ih => exact .skipped (ih next)
  | node found place fits inside _ _ ih => exact .node found place fits inside (ih next)

theorem Spelt.passed (t : Tree) (clean : Prop) (ts ahead : List Token) :
    Spelt t clean (ts.map .skipped) (ts ++ ahead) ahead := by
  induction ts with
  | nil => exact .nil _
  | cons k ts ih => exact .skipped ih

/- Tokens are taken off the front. -/
theorem Spelt.taken (spelt : Spelt t clean row ahead after) : after <:+ ahead := by
  induction spelt with
  | nil => exact List.suffix_refl _
  | token _ ih => exact ih.trans (List.suffix_cons _ _)
  | skipped _ ih => exact ih.trans (List.suffix_cons _ _)
  | node _ _ _ _ _ inside rest => exact rest.trans inside

/-! ### Rows that take a token -/

def Category.solid : Category → Bool
  | .hole | .file => false
  | _ => true

def Part.solid : Part → Bool
  | .node c _ => c.solid
  | _ => true

theorem restedSolid {f : Function} (rested : Rested f row) : ∃ x ∈ row, x.solid = true := by
  cases rested with
  | mk _ given _ _ =>
    cases given with
    | mk => exact ⟨_, List.mem_append_right _ (List.mem_append_left _ List.mem_cons_self), rfl⟩

theorem madeSolid {c : Category} {kind : NodeKind} {payload : Option Payload}
    (made : Made c kind payload row) (solid : c.solid = true) : ∃ x ∈ row, x.solid = true := by
  cases made with
  | hole => cases solid
  | file => cases solid
  | type _ filled =>
    obtain ⟨k, ks, rfl⟩ := List.exists_cons_of_ne_nil filled
    exact ⟨_, List.mem_cons_self, rfl⟩
  | function _ rested =>
    obtain ⟨x, own, good⟩ := restedSolid rested
    exact ⟨x, List.mem_append_right _ own, good⟩
  | array _ items | object _ items =>
    cases items
    exact ⟨_, List.mem_cons_self, rfl⟩
  | _ => first
    | exact ⟨_, List.mem_cons_self, rfl⟩
    | exact ⟨_, List.mem_append_right _ List.mem_cons_self, rfl⟩
    | exact ⟨_, List.mem_append_right _ (List.mem_append_right _ List.mem_cons_self), rfl⟩
    | exact ⟨_, List.mem_append_right _ (List.mem_append_right _ (List.mem_append_right _
        List.mem_cons_self)), rfl⟩

/- Whatever holds something solid is spelled with a token at least. -/
theorem Spelt.moves (spelt : Spelt t clean row ahead after) (holds : clean)
    (solid : ∃ x ∈ row, x.solid = true) : after.length < ahead.length := by
  induction spelt with
  | nil =>
    obtain ⟨x, own, _⟩ := solid
    cases own
  | token rest => exact Nat.lt_succ_of_le rest.taken.length_le
  | skipped rest => exact Nat.lt_succ_of_le rest.taken.length_le
  | @node c i n inner row first ahead mid after _ _ fits inside rest ihInside ihRest =>
    obtain ⟨x, own, good⟩ := solid
    rcases List.mem_cons.mp own with rfl | other
    · exact Nat.lt_of_le_of_lt rest.taken.length_le (ihInside (madeSolid (fits.made holds) good))
    · exact Nat.lt_of_lt_of_le (ihRest ⟨x, other, good⟩) inside.taken.length_le

end CallGuard.Phrase
