import Formula.Proofs.ArenaRuns

/-!
What each production leaves in the arena, and how far it moves the cursor.
-/

namespace Formula.Arena.Parse

open Expr.Parse (front? plain)

/-- With each token that is passed, calls may be nested as deep as all the productions on one another. -/
theorem Follows.later {α β : Type} {ts : TokenList} {x : Nat → Parser α} {s s' : State} {level enough : Nat}
    {post : α → State → Prop} {view : State → α → β} {outcome : Except ParseError (β × List Token)}
    (h : Follows ts x (7 * s'.left ts + level) s' post view outcome) (hs : s'.InBounds ts)
    (hlt : s.pos < s'.pos) (hlevel : level ≤ 7 := by decide)
    (henough : 7 * s.left ts ≤ enough := by omega) : Follows ts x enough s' post view outcome := by
  have hleft := State.left_lt hs hlt
  exact h.mono (by omega)

section

variable {ts : TokenList} (maxHops : Nat)

-- The induction is on how many tokens are left, and on the level of the production where none has been
-- passed; these two also tell how deep calls are nested. Trees from before a step are those of the arena
-- after it, which is how the steps fit together.
mutual

theorem parses_assignment {s : State} (hs : s.InBounds ts) :
    Parses ts s.pos (assignment ts maxHops) (7 * s.left ts + 6) s
      (plain (Expr.Parse.assignment ts.stop maxHops (s.rest ts))) := by
  rw [Expr.Parse.plain_assignment]
  refine .deeper ?_ (assignment.eq_2 ts maxHops)
  refine (parses_ternary hs).bind fun target s₁ hleads ⟨hpos, htarget⟩ => ?_
  dsimp only
  refine follows_look hleads.inBounds (fun h => ?_) fun op span h => ?_
  · simp only [h]
    exact follows_pure hleads.inBounds ⟨hpos, htarget⟩
  · simp only [h]
    refine follows_node hleads.inBounds htarget fun n _ hplace => ?_
    rw [hplace]
    cases hisPlace : (s₁.arena.tree target).isPlace with
    | false =>
        simp only [Bool.false_eq_true, if_false]
        exact follows_spanOf hleads.inBounds htarget (follows_throw hleads.inBounds _)
    | true =>
        simp only [if_true]
        refine follows_advance hleads.inBounds h fun hleads₁ => ?_
        have hlt : s.pos < (s₁.moveTo (s₁.pos + 1)).pos := Nat.lt_succ_of_lt hpos
        refine ((parses_assignment hleads₁.inBounds).later hleads₁.inBounds hlt).bind
          fun value s₂ hleads₂ ⟨hpos₂, hvalue⟩ => ?_
        have hleads₂ := hleads₁.trans hleads₂
        rw [← hleads₂.tree_eq htarget] at hisPlace ⊢
        exact parses_allocAssignment hleads₂.inBounds (Nat.lt_trans hlt hpos₂)
          (hleads₂.lt_size htarget) hisPlace hvalue
termination_by (s.left ts, 5)
decreasing_by
  · exact Prod.Lex.right _ (by decide)
  · exact Prod.Lex.left _ _ (State.left_lt hleads₁.inBounds hlt)

theorem parses_ternary {s : State} (hs : s.InBounds ts) :
    Parses ts s.pos (ternary ts maxHops) (7 * s.left ts + 5) s
      (plain (Expr.Parse.ternary ts.stop maxHops (s.rest ts))) := by
  rw [Expr.Parse.plain_ternary]
  refine .deeper ?_ (ternary.eq_2 ts maxHops)
  refine (parses_binary 1 hs).bind fun cond s₁ hleads ⟨hpos, hcond⟩ => ?_
  dsimp only
  refine follows_next hleads.inBounds (fun h => ?_) fun _ span h hleads₁ => ?_
  · simp only [h]
    exact follows_pure hleads.inBounds ⟨hpos, hcond⟩
  · simp only [h]
    have hlt : s.pos < (s₁.moveTo (s₁.pos + 1)).pos := Nat.lt_succ_of_lt hpos
    refine ((parses_assignment hleads₁.inBounds).later hleads₁.inBounds hlt).bind
      fun yes s₂ hleads₂ ⟨hpos₂, hyes⟩ => ?_
    dsimp only
    refine follows_next hleads₂.inBounds (fun h => ?_) fun _ span h hleads₃ => ?_
    · simp only [h]
      exact follows_failWith hleads₂.inBounds _
    · simp only [h]
      have hlt₃ : s.pos < (s₂.moveTo (s₂.pos + 1)).pos := Nat.lt_succ_of_lt (Nat.lt_trans hlt hpos₂)
      refine ((parses_assignment hleads₃.inBounds).later hleads₃.inBounds hlt₃).bind
        fun no s₄ hleads₄ ⟨hpos₄, hno⟩ => ?_
      have hleads₄ := hleads₃.trans hleads₄
      have hleads' := (hleads₁.trans hleads₂).trans hleads₄
      rw [← hleads'.tree_eq hcond, ← hleads₄.tree_eq hyes]
      refine follows_spanOf hleads₄.inBounds (hleads'.lt_size hcond) ?_
      refine follows_spanOf hleads₄.inBounds hno ?_
      refine parses_alloc hleads₄.inBounds (Nat.lt_trans hlt₃ hpos₄) ⟨?_, by simp, by simp⟩ _
      have hcond := hleads'.lt_size hcond
      have hyes := hleads₄.lt_size hyes
      simp [Form.children, hcond, hyes, hno]
termination_by (s.left ts, 4)
decreasing_by
  · exact Prod.Lex.right _ (by decide)
  · exact Prod.Lex.left _ _ (State.left_lt hleads₁.inBounds hlt)
  · exact Prod.Lex.left _ _ (State.left_lt hleads₃.inBounds hlt₃)

theorem parses_binary (least : Nat) {s : State} (hs : s.InBounds ts) :
    Parses ts s.pos (fun depth => binary ts maxHops depth least) (7 * s.left ts + 4) s
      (plain (Expr.Parse.binary ts.stop maxHops least (s.rest ts))) := by
  rw [Expr.Parse.plain_binary]
  refine .deeper ?_ (binary.eq_2 ts maxHops least)
  refine (parses_unary hs).bind fun left s₁ hleads ⟨hpos, hleft⟩ => ?_
  exact (parses_binaryTail least hleads.inBounds hpos hleft).later hleads.inBounds hpos
termination_by (s.left ts, 3)
decreasing_by
  · exact Prod.Lex.right _ (by decide)
  · exact Prod.Lex.left _ _ (State.left_lt hleads.inBounds hpos)

theorem parses_binaryTail (least : Nat) {s : State} (hs : s.InBounds ts) {pos : Nat}
    (hpos : pos < s.pos) {left : Nat} (hleft : left < s.arena.size) :
    Parses ts pos (fun depth => binaryTail ts maxHops depth least left) (7 * s.left ts + 1) s
      (plain (Expr.Parse.binaryTail ts.stop maxHops least (s.arena.tree left) (s.rest ts))) := by
  rw [Expr.Parse.plain_binaryTail]
  refine .deeper ?_ (binaryTail.eq_2 ts maxHops least left)
  refine follows_look hs (fun h => ?_) fun (op, precedence) span h => ?_
  · simp only [h]
    exact follows_pure hs ⟨hpos, hleft⟩
  · simp only [h]
    split
    · exact follows_pure hs ⟨hpos, hleft⟩
    · refine follows_advance hs h fun hleads => ?_
      have hlt : s.pos < (s.moveTo (s.pos + 1)).pos := Nat.lt_succ_self s.pos
      refine ((parses_binary (precedence + 1) hleads.inBounds).later hleads.inBounds hlt).bind
        fun right s₁ hleads₁ ⟨hpos₁, hright⟩ => ?_
      have hlt₁ := Nat.lt_trans hlt hpos₁
      have hleads₁ := hleads.trans hleads₁
      have hleft₁ := hleads₁.lt_size hleft
      rw [← hleads₁.tree_eq hleft]
      refine follows_spanOf hleads₁.inBounds hleft₁ (follows_spanOf hleads₁.inBounds hright ?_)
      have hop := Expr.Parse.isBinary_of_front h
      refine (parses_allocBinary hleads₁.inBounds hlt₁ hop hleft₁ hright _).bind
        (g := fun x => plain (Expr.Parse.binaryTail ts.stop maxHops least x.1 x.2))
        fun operation s₂ hleads₂ ⟨hpos₂, hoperation⟩ => ?_
      exact (parses_binaryTail least hleads₂.inBounds (Nat.lt_trans hpos hpos₂) hoperation).later
        hleads₂.inBounds hpos₂
termination_by (s.left ts, 0)
decreasing_by
  · exact Prod.Lex.left _ _ (State.left_lt hleads.inBounds hlt)
  · exact Prod.Lex.left _ _ (State.left_lt hleads₂.inBounds hpos₂)

theorem parses_unary {s : State} (hs : s.InBounds ts) :
    Parses ts s.pos (unary ts maxHops) (7 * s.left ts + 3) s
      (plain (Expr.Parse.unary ts.stop maxHops (s.rest ts))) := by
  rw [Expr.Parse.plain_unary]
  refine .deeper ?_ (unary.eq_2 ts maxHops)
  refine follows_next hs (fun h => ?_) fun op span h hleads => ?_
  · simp only [h]
    exact parses_postfixed hs
  · simp only [h]
    have hlt : s.pos < (s.moveTo (s.pos + 1)).pos := Nat.lt_succ_self s.pos
    refine ((parses_unary hleads.inBounds).later hleads.inBounds hlt).bind
      fun operand s₁ hleads₁ ⟨hpos, hoperand⟩ => ?_
    exact parses_allocUnary hleads₁.inBounds (Nat.lt_trans hlt hpos) op span hoperand
termination_by (s.left ts, 2)
decreasing_by
  · exact Prod.Lex.right _ (by decide)
  · exact Prod.Lex.left _ _ (State.left_lt hleads.inBounds hlt)

theorem parses_postfixed {s : State} (hs : s.InBounds ts) :
    Parses ts s.pos (postfixed ts maxHops) (7 * s.left ts + 2) s
      (plain (Expr.Parse.postfixed ts.stop maxHops (s.rest ts))) := by
  rw [Expr.Parse.plain_postfixed]
  refine .deeper ?_ (postfixed.eq_2 ts maxHops)
  refine (parses_primary hs).bind fun receiver s₁ hleads ⟨hpos, hreceiver⟩ => ?_
  exact (parses_chain (.new maxHops) hleads.inBounds hpos hreceiver).later hleads.inBounds hpos
termination_by (s.left ts, 1)
decreasing_by
  · exact Prod.Lex.right _ (by decide)
  · exact Prod.Lex.left _ _ (State.left_lt hleads.inBounds hpos)

theorem parses_chain (hops : Guard) {s : State} (hs : s.InBounds ts) {pos : Nat} (hpos : pos < s.pos)
    {receiver : Nat} (hreceiver : receiver < s.arena.size) :
    Parses ts pos (fun depth => chain ts maxHops depth hops receiver) (7 * s.left ts + 1) s
      (plain (Expr.Parse.chain ts.stop maxHops hops (s.arena.tree receiver) (s.rest ts))) := by
  rw [Expr.Parse.plain_chain]
  refine .deeper ?_ (chain.eq_2 ts maxHops hops receiver)
  refine follows_next hs (fun h => ?_) fun _ dot h hleads => ?_
  · simp only [h]
    exact follows_pure hs ⟨hpos, hreceiver⟩
  · simp only [h]
    cases hops.tick? with
    | none => exact follows_spanOf hleads.inBounds hreceiver (follows_throw hleads.inBounds _)
    | some hops' =>
        dsimp only
        refine follows_next hleads.inBounds (fun h => ?_) fun name nameSpan h hleads₁ => ?_
        · simp only [h]
          exact follows_failWith hleads.inBounds _
        · simp only [h]
          obtain ⟨typeArgs?, s₂, hends, hspeculated, -, hopens⟩ := ends_typeArguments hleads₁.inBounds
          have hleft := State.left_lt hleads₁.inBounds (Nat.lt_succ_of_lt (Nat.lt_succ_self s.pos))
          refine Follows.of_run ?_ hspeculated fun depth hdepth => run_bind_of_ok (hends depth (by omega))
          have hleads₂ := (hleads.trans hleads₁).trans hspeculated
          cases hopens with
          | none hpos₂ hopening =>
              have hlt : s.pos < s₂.pos := by
                rw [hpos₂]
                exact Nat.lt_succ_of_lt (Nat.lt_succ_self s.pos)
              rw [hopening, ← State.rest_eq hpos₂]
              refine follows_look hleads₂.inBounds (fun h => ?_) fun _ opened h => ?_
              · simp only [h, Option.map_none]
                exact parses_member hops' hleads₂ hpos hlt hreceiver name nameSpan
              · simp only [h, Option.map_some]
                exact (parses_called hops' hleads₂ hpos hlt hreceiver name [] h).later hleads₂.inBounds hlt
          | some hpos₂ hparen hopening =>
              have hlt : s.pos < s₂.pos :=
                Nat.lt_trans (Nat.lt_succ_of_lt (Nat.lt_succ_self s.pos)) hpos₂
              rw [hopening]
              refine follows_look hleads₂.inBounds (fun h => ?_) fun _ opened h => ?_
              · rw [hparen] at h
                cases h
              · exact (parses_called hops' hleads₂ hpos hlt hreceiver name _ hparen).later
                  hleads₂.inBounds hlt
termination_by (s.left ts, 1)
decreasing_by
  · exact Prod.Lex.right _ (by decide)
  · exact Prod.Lex.left _ _ (State.left_lt hleads₂.inBounds hlt)
  · exact Prod.Lex.left _ _ (State.left_lt hleads₂.inBounds hlt)

/-- The member whose name has been passed, and what follows it. -/
theorem parses_member (hops : Guard) {s s' : State} (hleads : s.Leads ts s') {pos : Nat}
    (hpos : pos < s.pos) (hlt : s.pos < s'.pos) {receiver : Nat} (hreceiver : receiver < s.arena.size)
    (name : String) (nameSpan : Span) :
    Parses ts pos (fun depth => do
      let member ← alloc (.member receiver name) ((← spanOf receiver).merge nameSpan)
      chain ts maxHops depth hops member) (7 * s.left ts) s'
      (plain (Expr.Parse.chain ts.stop maxHops hops
        (.member ((s.arena.tree receiver).span.merge nameSpan) (s.arena.tree receiver) name)
        (s'.rest ts))) := by
  have hreceiver' := hleads.lt_size hreceiver
  rw [← hleads.tree_eq hreceiver]
  refine follows_spanOf hleads.inBounds hreceiver' ?_
  have hfits : s'.arena.Fits s'.arena.size (.member receiver name) :=
    ⟨List.forall_mem_singleton.mpr hreceiver', by simp, by simp⟩
  refine (parses_alloc hleads.inBounds hlt hfits _).bind
    (g := fun x => plain (Expr.Parse.chain ts.stop maxHops hops x.1 x.2))
    fun member s₁ hleads₁ ⟨hpos₁, hmember⟩ => ?_
  exact (parses_chain hops hleads₁.inBounds (Nat.lt_trans hpos hpos₁) hmember).later hleads₁.inBounds
    hpos₁
termination_by (s.left ts, 0)
decreasing_by exact Prod.Lex.left _ _ (State.left_lt hleads₁.inBounds hpos₁)

/-- The call whose parenthesis is at the cursor, and what follows it. -/
theorem parses_called (hops : Guard) {s s' : State} (hleads : s.Leads ts s') {pos : Nat}
    (hpos : pos < s.pos) (hlt : s.pos < s'.pos) {receiver : Nat} (hreceiver : receiver < s.arena.size)
    (name : String) (typeArgs : List TypeArg) {opened : Span}
    (h : front? (Token.Kind.mark? .leftParen) (s'.rest ts) =
      some ((), opened, (s'.moveTo (s'.pos + 1)).rest ts)) :
    Parses ts pos (fun depth => do
      let args ← arguments ts maxHops depth
      let span := (← spanOf receiver).merge (← previousSpan ts)
      let call ← alloc (.call receiver name typeArgs args) span
      chain ts maxHops depth hops call) (7 * s'.left ts + 1) s' (do
      let ((args, closed), r) ← plain (Expr.Parse.arguments ts.stop maxHops opened
        ((s'.moveTo (s'.pos + 1)).rest ts))
      let receiver := s.arena.tree receiver
      plain (Expr.Parse.chain ts.stop maxHops hops
        (.call (receiver.span.merge closed) receiver name typeArgs args) r)) := by
  refine (parses_arguments hleads.inBounds h).bind fun args s₁ hleads₁ ⟨hpos₁, hargs⟩ => ?_
  have hleads₁ := hleads.trans hleads₁
  have hreceiver₁ := hleads₁.lt_size hreceiver
  dsimp only
  rw [← hleads₁.tree_eq hreceiver]
  refine follows_spanOf hleads₁.inBounds hreceiver₁ (follows_previousSpan hleads₁.inBounds ?_)
  have hfits : s₁.arena.Fits s₁.arena.size (.call receiver name typeArgs args) :=
    ⟨List.forall_mem_cons.mpr ⟨hreceiver₁, hargs⟩, by simp, by simp⟩
  refine (parses_alloc hleads₁.inBounds hpos₁ hfits _).bind
    (g := fun x => plain (Expr.Parse.chain ts.stop maxHops hops x.1 x.2))
    fun call s₂ hleads₂ ⟨hpos₂, hcall⟩ => ?_
  exact (parses_chain hops hleads₂.inBounds (Nat.lt_trans hpos (Nat.lt_trans hlt hpos₂)) hcall).later
    hleads₂.inBounds hpos₂
termination_by (s'.left ts, 8)
decreasing_by
  · exact Prod.Lex.right _ (by decide)
  · exact Prod.Lex.left _ _ (State.left_lt hleads₂.inBounds hpos₂)

theorem parses_arguments {s : State} (hs : s.InBounds ts) {opened : Span}
    (h : front? (Token.Kind.mark? .leftParen) (s.rest ts) =
      some ((), opened, (s.moveTo (s.pos + 1)).rest ts)) :
    ParsesAll ts s.pos (arguments ts maxHops) (7 * s.left ts + 1) s
      (plain (Expr.Parse.arguments ts.stop maxHops opened ((s.moveTo (s.pos + 1)).rest ts))) := by
  have hleads := hs.leads_moveTo (Nat.succ_le_of_lt (pos_lt_of_front? h))
  have hlt : s.pos < (s.moveTo (s.pos + 1)).pos := Nat.lt_succ_self s.pos
  rw [Expr.Parse.plain_arguments]
  refine .deeper ?_ (arguments.eq_2 ts maxHops)
  refine Follows.of_run ?_ hleads fun _ _ => run_bind_of_ok (run_opening h)
  refine follows_next hleads.inBounds (fun h => ?_) fun _ span h hleads₁ => ?_
  · simp only [h]
    refine ((parses_someArguments opened hleads.inBounds).later hleads.inBounds hlt).imp
      fun args s₁ hleads₁ ⟨hpos, hargs⟩ => ?_
    exact ⟨Nat.lt_trans hlt hpos, hargs⟩
  · simp only [h]
    rw [← passedSpan_of_front? h]
    exact follows_pure hleads₁.inBounds ⟨Nat.lt_succ_of_lt hlt, List.forall_mem_nil _⟩
termination_by (s.left ts, 7)
decreasing_by exact Prod.Lex.left _ _ (State.left_lt hleads.inBounds hlt)

theorem parses_someArguments (opened : Span) {s : State} (hs : s.InBounds ts) :
    ParsesAll ts s.pos (fun depth => someArguments ts maxHops depth opened) (7 * s.left ts + 7) s
      (plain (Expr.Parse.someArguments ts.stop maxHops opened (s.rest ts))) := by
  rw [Expr.Parse.plain_someArguments]
  refine .deeper ?_ (someArguments.eq_2 ts maxHops opened)
  refine (parses_assignment hs).bind fun arg s₁ hleads ⟨hpos, harg⟩ => ?_
  dsimp only
  refine follows_next hleads.inBounds (fun h => ?_) fun _ span h hleads₁ => ?_
  · simp only [h]
    refine follows_next hleads.inBounds (fun h => ?_) fun _ span h hleads₁ => ?_
    · simp only [h]
      exact follows_failWith hleads.inBounds _
    · simp only [h]
      rw [← passedSpan_of_front? h]
      exact follows_pure hleads₁.inBounds ⟨Nat.lt_succ_of_lt hpos, List.forall_mem_singleton.mpr harg⟩
  · simp only [h]
    have hlt : s.pos < (s₁.moveTo (s₁.pos + 1)).pos := Nat.lt_succ_of_lt hpos
    refine ((parses_someArguments opened hleads₁.inBounds).later hleads₁.inBounds hlt).bind
      fun args s₂ hleads₂ ⟨hpos₂, hargs⟩ => ?_
    dsimp only
    have hleads' := hleads₁.trans hleads₂
    rw [← hleads'.tree_eq harg]
    exact follows_pure hleads₂.inBounds
      ⟨Nat.lt_trans hlt hpos₂, List.forall_mem_cons.mpr ⟨hleads'.lt_size harg, hargs⟩⟩
termination_by (s.left ts, 6)
decreasing_by
  · exact Prod.Lex.right _ (by decide)
  · exact Prod.Lex.left _ _ (State.left_lt hleads₁.inBounds hlt)

theorem parses_primary {s : State} (hs : s.InBounds ts) :
    Parses ts s.pos (primary ts maxHops) (7 * s.left ts + 1) s
      (plain (Expr.Parse.primary ts.stop maxHops (s.rest ts))) := by
  rw [Expr.Parse.plain_primary]
  refine .deeper ?_ (primary.eq_2 ts maxHops)
  have hlt : s.pos < (s.moveTo (s.pos + 1)).pos := Nat.lt_succ_self s.pos
  refine follows_next hs (fun h => ?_) fun value span h hleads => ?_
  · simp only [h]
    refine follows_next hs (fun h => ?_) fun name span h hleads => ?_
    · simp only [h]
      refine follows_next hs (fun h => ?_) fun _ opened h hleads => ?_
      · simp only [h]
        exact follows_failWith hs _
      · simp only [h]
        refine ((parses_assignment hleads.inBounds).later hleads.inBounds hlt).bind
          fun inner s₁ hleads₁ ⟨hpos, hinner⟩ => ?_
        dsimp only
        refine follows_next hleads₁.inBounds (fun h => ?_) fun _ span h hleads₂ => ?_
        · simp only [h]
          exact follows_failWith hleads₁.inBounds _
        · simp only [h]
          exact follows_pure hleads₂.inBounds ⟨Nat.lt_succ_of_lt (Nat.lt_trans hlt hpos), hinner⟩
    · simp only [h]
      exact parses_alloc hleads.inBounds hlt ⟨by simp [Form.children], by simp, by simp⟩ span
  · simp only [h]
    exact parses_allocLiteral hleads.inBounds hlt value span
termination_by (s.left ts, 0)
decreasing_by exact Prod.Lex.left _ _ (State.left_lt hleads.inBounds hlt)

end

/-- The tokens of a statement, of which none is to be left. -/
def wholeOf (ts : TokenList) (us : List Token) : Except ParseError (Expr × List Token) := do
  let (e, rest) ← plain (Expr.Parse.assignment ts.stop maxHops us)
  if rest.isEmpty then .ok (e, rest) else .error (Expr.Parse.notAtEnd ts.stop rest)

theorem ofTokens_eq_map (ts : TokenList) :
    Expr.ofTokens maxHops ts = (wholeOf maxHops ts ts.tokens).map Prod.fst := by
  rw [Expr.ofTokens_eq, wholeOf]
  cases plain (Expr.Parse.assignment ts.stop maxHops ts.tokens) with
  | error e => rfl
  | ok x =>
      simp only [bind, Except.bind]
      split <;> rfl

theorem parses_statement {s : State} (hs : s.InBounds ts) :
    Parses ts s.pos (statement ts maxHops) (7 * s.left ts + 6) s (wholeOf maxHops ts (s.rest ts)) := by
  refine (parses_assignment maxHops hs).bind fun root s' hleads ⟨hpos, hroot⟩ => ?_
  have hempty : (s'.rest ts).isEmpty = decide (ts.tokens.length ≤ s'.pos) := by
    rw [Bool.eq_iff_iff, List.isEmpty_iff, State.rest, List.drop_eq_nil_iff, decide_eq_true_iff]
  refine Follows.of_run ?_ (.refl hleads.inBounds) fun _ _ => run_get _ s'
  dsimp only
  rw [hempty]
  split
  · next h =>
    rw [decide_eq_true h, if_pos rfl]
    exact follows_pure hleads.inBounds ⟨hpos, hroot⟩
  · next h =>
    rw [decide_eq_false h]
    exact follows_failWith hleads.inBounds _

end

/-! ### Progress -/

/-- How deep calls are nested at most. -/
def State.enough (ts : TokenList) (s : State) : Nat := 7 * (s.left ts + 1)

/-- It comes to an end, with the cursor never beyond that of the tokens, and further on if it succeeds. -/
def Advances {α : Type} (ts : TokenList) (x : Nat → Parser α) (s : State) : Prop :=
  ∃ outcome s', Ends x (s.enough ts) s outcome s' ∧ s.visited <:+ s'.visited ∧ s'.InBounds ts ∧
    ∀ a, outcome = .ok a → s.pos < s'.pos

theorem Follows.advances {α β : Type} {ts : TokenList} {x : Nat → Parser α} {s : State} {level : Nat}
    {P : α → State → Prop} {view : State → α → β} {outcome : Except ParseError (β × List Token)}
    (h : Follows ts x (7 * s.left ts + level) s (fun a s' => s.pos < s'.pos ∧ P a s') view outcome)
    (hlevel : level ≤ 7 := by decide) : Advances ts x s := by
  cases h.mono (Nat.add_le_add_left hlevel _) with
  | ok hx hleads hpost => exact ⟨_, _, hx, hleads.visited, hleads.inBounds, fun _ _ => hpost.1⟩
  | error hx hleads => exact ⟨_, _, hx, hleads.visited, hleads.inBounds, fun a h => by cases h⟩

/-- The productions that leave a node. -/
inductive Production where
  | assignment
  | ternary
  | binary (least : Nat)
  | unary
  | postfixed
  | primary

def Production.parser (ts : TokenList) (maxHops : Nat) (p : Production) (depth : Nat) : Parser Nat :=
  match p with
  | assignment => Parse.assignment ts maxHops depth
  | ternary => Parse.ternary ts maxHops depth
  | binary least => Parse.binary ts maxHops depth least
  | unary => Parse.unary ts maxHops depth
  | postfixed => Parse.postfixed ts maxHops depth
  | primary => Parse.primary ts maxHops depth

theorem Production.advances (p : Production) {ts : TokenList} (maxHops : Nat) {s : State}
    (hs : s.InBounds ts) : Advances ts (p.parser ts maxHops) s := by
  cases p with
  | assignment => exact (parses_assignment maxHops hs).advances
  | ternary => exact (parses_ternary maxHops hs).advances
  | binary least => exact (parses_binary maxHops least hs).advances
  | unary => exact (parses_unary maxHops hs).advances
  | postfixed => exact (parses_postfixed maxHops hs).advances
  | primary => exact (parses_primary maxHops hs).advances

theorem State.inBounds_start (ts : TokenList) : State.start.InBounds ts :=
  ⟨Nat.zero_le _, List.forall_mem_nil _⟩

/-- Parsing comes to an end, with calls nested no deeper than the number of tokens tells, and as the parser
of trees does if each node has an id of its own. Each production, wherever it starts, moves the cursor on
if it succeeds, and neither in the end nor in between is the cursor beyond the tokens. Type arguments move
it on as well, or the cursor and the arena are as before. -/
theorem parsing_advances (ts : TokenList) (maxHops : Nat) :
    (∃ outcome s, Ends (statement ts maxHops) (State.start.enough ts) .start outcome s ∧
      s.InBounds ts ∧ (s.arena.IsSmall → Expr.ofTokens maxHops ts = outcome.map s.arena.tree)) ∧
    ∀ s : State, s.InBounds ts →
      (∀ p : Production, Advances ts (p.parser ts maxHops) s) ∧
      (∀ opened rest, front? (Token.Kind.mark? .leftParen) (s.rest ts) = some ((), opened, rest) →
        Advances ts (arguments ts maxHops) s) ∧
      ∃ args? s', Ends (typeArguments? ts) (s.left ts) s (.ok args?) s' ∧
        s.visited <:+ s'.visited ∧ s'.InBounds ts ∧ s'.arena = s.arena ∧
        if args?.isSome then s.pos < s'.pos else s'.pos = s.pos := by
  refine ⟨?_, fun s hs => ⟨fun p => p.advances maxHops hs, fun opened rest h => ?_, ?_⟩⟩
  · rw [ofTokens_eq_map]
    cases (parses_statement maxHops (State.inBounds_start ts)).mono (Nat.le_succ _) with
    | ok hx hleads hpost houtcome =>
        refine ⟨_, _, hx, hleads.inBounds, fun hsmall => ?_⟩
        exact (congrArg (Except.map Prod.fst) (houtcome hsmall))
    | error hx hleads houtcome =>
        refine ⟨_, _, hx, hleads.inBounds, fun hsmall => ?_⟩
        exact (congrArg (Except.map Prod.fst) (houtcome hsmall))
  · obtain rfl := rest_eq_of_front? h
    exact (parses_arguments maxHops hs h).advances
  · obtain ⟨args?, s', hends, hleads, harena, hopens⟩ := ends_typeArguments hs
    refine ⟨args?, s', hends, hleads.visited, hleads.inBounds, harena, ?_⟩
    cases hopens with
    | none hpos => exact hpos
    | some hpos => exact hpos

/-- `a.b(c.d < e)`, from its start, from the parenthesis and from the `<`, where names are read that are no
type arguments. -/
theorem parsing_advances_less :
    let ts : TokenList := ⟨[⟨.ident "a", ⟨0, 1⟩⟩, ⟨.mark .dot, ⟨1, 2⟩⟩, ⟨.ident "b", ⟨2, 3⟩⟩,
      ⟨.mark .leftParen, ⟨3, 4⟩⟩, ⟨.ident "c", ⟨4, 5⟩⟩, ⟨.mark .dot, ⟨5, 6⟩⟩, ⟨.ident "d", ⟨6, 7⟩⟩,
      ⟨.op .less, ⟨8, 9⟩⟩, ⟨.ident "e", ⟨10, 11⟩⟩, ⟨.mark .rightParen, ⟨11, 12⟩⟩], 12⟩
    let atParen : State := ⟨3, [2, 1, 0], ⟨#[⟨.ident "a", ⟨0, 1⟩⟩]⟩⟩
    let atLess : State :=
      ⟨7, [6, 5, 4, 3, 2, 1, 0], ⟨#[⟨.ident "a", ⟨0, 1⟩⟩, ⟨.ident "c", ⟨4, 5⟩⟩]⟩⟩
    (∃ s, Ends (statement ts 1) (State.start.enough ts) .start (.ok 5) s ∧ s.InBounds ts ∧
      s.past = [9, 8, 7, 9, 8, 7, 6, 5, 4, 3, 2, 1, 0]) ∧
      Advances ts (arguments ts 1) atParen ∧
      Advances ts ((Production.binary 1).parser ts 1) atParen ∧
      ∃ s', Ends (typeArguments? ts) (atLess.left ts) atLess (.ok none) s' ∧ s'.pos = 7 ∧
        s'.past = [9, 8, 7, 6, 5, 4, 3, 2, 1, 0] ∧ s'.arena = atLess.arena := by
  intro ts atParen atLess
  obtain ⟨⟨outcome, s, hends, hs, -⟩, hadvances⟩ := parsing_advances ts 1
  obtain ⟨hproduction, harguments, -⟩ := hadvances atParen ⟨by decide, by decide⟩
  obtain ⟨args?, s', hspeculated, -, -, harena, hpos⟩ := (hadvances atLess ⟨by decide, by decide⟩).2.2
  have hrun : (statement ts 1 (State.start.enough ts) .start).map (fun x => (x.1.toOption, x.2.past)) =
      some (some 5, [9, 8, 7, 9, 8, 7, 6, 5, 4, 3, 2, 1, 0]) := by decide +kernel
  have hnone : typeArguments? ts (atLess.left ts) atLess =
      some (.ok none, ⟨7, [9, 8, 7, 6, 5, 4, 3, 2, 1, 0], atLess.arena⟩) := rfl
  rw [hends _ (Nat.le_refl _)] at hrun
  obtain ⟨houtcome, hpast⟩ := Prod.mk.inj (Option.some.inj hrun)
  rw [hspeculated _ (Nat.le_refl _)] at hnone
  obtain ⟨hargs, rfl⟩ := Prod.mk.inj (Option.some.inj hnone)
  obtain rfl := Except.ok.inj hargs
  cases outcome with
  | error e => cases houtcome
  | ok root =>
      obtain rfl := Option.some.inj houtcome
      exact ⟨⟨s, hends, hs, hpast⟩, harguments _ _ rfl, hproduction (.binary 1), _, hspeculated, hpos,
        rfl, harena⟩

end Formula.Arena.Parse
