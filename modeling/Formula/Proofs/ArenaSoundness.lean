import Formula.Proofs.ArenaProductions
import Formula.Proofs.UnknownNames

/-!
What a statement leaves in the arena. Nodes come after their parts, so that there is an end to showing and
compiling them, and only places are assigned to.
-/

namespace Formula

theorem Operator.ne_of_isBinary {op : Operator} (h : op.isBinary = true) :
    op ≠ .not ∧ op ≠ .bitNot ∧ op.isAssignment = false := by
  cases op <;> first | decide | cases h

namespace Arena

theorem Form.isPlace_iff {form : Form} :
    form.isPlace = true ↔
      (∃ name, form = .ident name) ∨ ∃ receiver name, form = .member receiver name := by
  cases form <;> simp [isPlace]

variable {a : Arena}

/-- The program of a node fails for nothing but a name. -/
theorem WellFormed.exists_program (h : a.WellFormed) {id : Nat} (hid : id < a.size) (scope : Scope) :
    ∃ outcome, (∀ depth > 2 * id, a.program scope depth id = .of outcome) ∧
      ∀ e, outcome = .error e → e.fault.code = .unknownVariable ∨ e.fault.code = .unknownType := by
  refine ⟨_, fun depth hdepth => ((h.compiles hid).1 hdepth).1, fun e he => ?_⟩
  have hsettles := Program.ofExpr_settles scope (h.proper_tree hid)
  rw [he] at hsettles
  obtain ⟨ref, -, -, hfault⟩ := hsettles
  exact hfault ▸ ref.code_fault

namespace Parse

/-- In the arena of a statement, the parts of a node come before it, operations have operators of two
operands and what is assigned to is a name or a member. All of it is shown and compiled, unless a name
stands for nothing, with calls nested no deeper than the ids tell; and as long as each node has an id of
its own, the root is the tree of the statement. -/
theorem arena_of_statement {ts : TokenList} {maxHops depth root : Nat} {s : State}
    (hdepth : State.start.enough ts ≤ depth)
    (h : statement ts maxHops depth .start = some (.ok root, s)) :
    root < s.arena.size ∧
    (∀ id node, s.arena.get? id = some node →
      (∀ child ∈ node.form.children, child < id) ∧
      (∀ op left right, node.form = .binary op left right →
        op.isBinary = true ∧ op ≠ .not ∧ op ≠ .bitNot ∧ op.isAssignment = false) ∧
      ∀ target value, node.form = .assign target value →
        ∃ place, s.arena.get? target = some place ∧
          ((∃ name, place.form = .ident name) ∨
            ∃ receiver name, place.form = .member receiver name)) ∧
    (∀ id < s.arena.size,
      (∃ text, ∀ depth > id, s.arena.text depth id = some text) ∧
      ∀ scope, ∃ outcome, (∀ depth > 2 * id, s.arena.program scope depth id = .of outcome) ∧
        ∀ e, outcome = .error e →
          e.fault.code = .unknownVariable ∨ e.fault.code = .unknownType) ∧
    (s.arena.IsSmall →
      Expr.ofTokens maxHops ts = .ok (s.arena.tree root) ∧
      (∀ depth > root, s.arena.text depth root = some (s.arena.tree root).text) ∧
      ∀ scope, ∀ depth > 2 * root,
        s.arena.program scope depth root = .of (Program.ofExpr scope (s.arena.tree root))) := by
  cases (parses_statement maxHops (State.inBounds_start ts)).mono (Nat.le_succ _) with
  | error hends =>
      rw [hends depth hdepth] at h
      cases h
  | ok hends hleads hpost houtcome =>
      rw [hends depth hdepth] at h
      cases h
      have hwell := hleads.wellFormed wellFormed_empty
      refine ⟨hpost.2, fun id node hget => ?_, fun id hid => ?_, fun hsmall => ?_⟩
      · obtain ⟨hchildren, hbinary, hplace⟩ := hwell id node hget
        refine ⟨hchildren, fun op left right hform => ?_, fun target value hform => ?_⟩
        · have hop := hbinary op left right hform
          exact ⟨hop, Operator.ne_of_isBinary hop⟩
        · obtain ⟨place, hget, hisPlace⟩ := hplace target value hform
          exact ⟨place, hget, Form.isPlace_iff.mp hisPlace⟩
      · exact ⟨⟨_, fun depth hdepth => hwell.text_eq hid hdepth⟩, hwell.exists_program hid⟩
      · refine ⟨?_, fun depth hdepth => hwell.text_eq hpost.2 hdepth,
          fun scope depth hdepth => ((hwell.compiles hpost.2).1 hdepth).1⟩
        rw [ofTokens_eq_map]
        exact congrArg (Except.map Prod.fst) (houtcome hsmall)

/-- `x += 1`, of which the target is the left operand as well. -/
theorem arena_of_statement_shared :
    let ts : TokenList :=
      ⟨[⟨.ident "x", ⟨0, 1⟩⟩, ⟨.op .addAssign, ⟨2, 4⟩⟩, ⟨.int 1, ⟨5, 6⟩⟩], 6⟩
    let a : Arena := ⟨#[⟨.ident "x", ⟨0, 1⟩⟩, ⟨.literal (.int 1), ⟨5, 6⟩⟩,
      ⟨.binary .add 0 1, ⟨0, 6⟩⟩, ⟨.assign 0 2, ⟨0, 6⟩⟩]⟩
    State.start.enough ts = 28 ∧
      statement ts 1 28 .start = some (.ok 3, ⟨3, [2, 1, 0], a⟩) ∧ 3 < a.size ∧
      (∀ depth > 3, a.text depth 3 = some "(x = (x + 1))") ∧ Expr.ofTokens 1 ts = .ok (a.tree 3) ∧
      ∀ scope, ∃ outcome, (∀ depth > 6, a.program scope depth 3 = .of outcome) ∧
        ∀ e, outcome = .error e →
          e.fault.code = .unknownVariable ∨ e.fault.code = .unknownType := by
  intro ts a
  have h : statement ts 1 28 .start = some (.ok 3, ⟨3, [2, 1, 0], a⟩) := rfl
  obtain ⟨hroot, -, hall, htree⟩ := arena_of_statement (Nat.le_refl 28) h
  obtain ⟨hparse, htext, -⟩ := htree (by decide : 4 ≤ lastId + 1)
  exact ⟨rfl, h, hroot, htext, hparse, (hall 3 hroot).2⟩

end Parse

end Arena

end Formula
