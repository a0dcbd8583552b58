import Formula.Arena.Parse
import Formula.Proofs.ArenaTrees
import Formula.Proofs.Productions

/-!
How the steps of a parser with a cursor are followed on trees. As long as each node has an id of its own,
such a parser finds in the arena what the grammar finds in the tokens that the cursor has not passed.
-/

namespace Formula

theorem Expr.ofUnary_of_ne {op : Operator} (hsub : op ≠ .sub) (hnot : op ≠ .not) (opSpan : Span)
    (operand : Expr) :
    ofUnary op opSpan operand =
      binary (opSpan.merge operand.span) .xor operand (literal opSpan (.int (-1))) := by
  cases op <;> first | rfl | contradiction

namespace Arena

/-- Each node has an id of its own. -/
def IsSmall (a : Arena) : Prop := a.size ≤ lastId + 1

theorem IsSmall.of_extends {a b : Arena} (h : b.IsSmall) (hextends : b.Extends a) : a.IsSmall :=
  Nat.le_trans hextends.size_le h

theorem nextId_lt (a : Arena) (node : Node) : a.nextId < (a.push node).size := by
  rw [nextId, size_push]
  omega

theorem nextId_eq {a : Arena} {node : Node} (h : (a.push node).IsSmall) : a.nextId = a.size := by
  rw [IsSmall, size_push] at h
  rw [nextId]
  omega

namespace Parse

open Expr.Parse (front?)

section

variable (ts : TokenList)

/-- The cursor has never been beyond the end. -/
structure State.InBounds (s : State) : Prop where
  pos_le : s.pos ≤ ts.tokens.length
  past_le : ∀ pos ∈ s.past, pos ≤ ts.tokens.length

/-- Where the cursor is and where it has been, the latest position first. -/
def State.visited (s : State) : List Nat := s.pos :: s.past

/-- What parsing may make of a state. -/
structure State.Leads (s s' : State) : Prop where
  inBounds : s'.InBounds ts
  visited : s.visited <:+ s'.visited
  extends' : s'.arena.Extends s.arena
  wellFormed : s.arena.WellFormed → s'.arena.WellFormed

/-- The tokens that the cursor has not passed. -/
def State.rest (s : State) : List Token := ts.tokens.drop s.pos

/-- The span of the token that has been passed last. -/
def State.passedSpan (s : State) : Span :=
  if s.pos = 0 then .point 0
  else
    match ts.tokens[s.pos - 1]? with
    | some t => t.span
    | none => .point ts.stop

/-- How many tokens the cursor has not passed. -/
def State.left (s : State) : Nat := ts.tokens.length - s.pos

/-- From the state, the parser comes to this end, as soon as calls may be nested deep enough. -/
def Ends {α : Type} (x : Nat → Parser α) (enough : Nat) (s : State) (outcome : Except ParseError α)
    (s' : State) : Prop :=
  ∀ depth ≥ enough, x depth s = some (outcome, s')

/-- From the state, the parser comes to an end. Its result is as it should be, and as long as each node has
an id of its own, `outcome` is what it amounts to. -/
inductive Follows {α β : Type} (x : Nat → Parser α) (enough : Nat) (s : State)
    (post : α → State → Prop) (view : State → α → β)
    (outcome : Except ParseError (β × List Token)) : Prop
  | ok {a : α} {s' : State} : Ends x enough s (.ok a) s' → s.Leads ts s' → post a s' →
      (s'.arena.IsSmall → outcome = .ok (view s' a, s'.rest ts)) →
      Follows x enough s post view outcome
  | error {e : ParseError} {s' : State} : Ends x enough s (.error e) s' → s.Leads ts s' →
      (s'.arena.IsSmall → outcome = .error e) → Follows x enough s post view outcome

end

variable {ts : TokenList} {s s' s'' : State}

namespace State

theorem Leads.refl (h : s.InBounds ts) : s.Leads ts s := ⟨h, List.suffix_refl _, .refl _, id⟩

theorem Leads.trans (h : s.Leads ts s') (h' : s'.Leads ts s'') : s.Leads ts s'' where
  inBounds := h'.inBounds
  visited := h.visited.trans h'.visited
  extends' := h.extends'.trans h'.extends'
  wellFormed hs := h'.wellFormed (h.wellFormed hs)

/-- What is left depends on the cursor only. -/
theorem rest_eq (h : s'.pos = s.pos) : s'.rest ts = s.rest ts := by rw [rest, rest, h]

theorem InBounds.moveTo (h : s.InBounds ts) {pos : Nat} (hpos : pos ≤ ts.tokens.length) :
    (s.moveTo pos).InBounds ts :=
  ⟨hpos, List.forall_mem_cons.mpr ⟨h.pos_le, h.past_le⟩⟩

theorem InBounds.leads_moveTo (h : s.InBounds ts) {pos : Nat} (hpos : pos ≤ ts.tokens.length) :
    s.Leads ts (s.moveTo pos) :=
  ⟨h.moveTo hpos, List.suffix_cons pos s.visited, .refl _, id⟩

theorem InBounds.leads_push (h : s.InBounds ts) {node : Node}
    (hnode : s.arena.Fits s.arena.size node.form) : s.Leads ts (s.push node) where
  inBounds := ⟨h.pos_le, h.past_le⟩
  visited := List.suffix_refl _
  extends' := extends_push s.arena node
  wellFormed hs := hs.push hnode

theorem Leads.lt_size (h : s.Leads ts s') {id : Nat} (hid : id < s.arena.size) :
    id < s'.arena.size :=
  Nat.lt_of_lt_of_le hid h.extends'.size_le

theorem Leads.tree_eq (h : s.Leads ts s') {id : Nat} (hid : id < s.arena.size) :
    s'.arena.tree id = s.arena.tree id :=
  h.extends'.tree_eq hid

theorem left_lt (hs : s'.InBounds ts) (h : s.pos < s'.pos) : s'.left ts < s.left ts := by
  have hle := hs.pos_le
  rw [left, left]
  omega

end State

/-! ### Steps -/

/-- What calls something goes one deeper. -/
theorem Ends.deeper {α : Type} {x y : Nat → Parser α} {enough : Nat} {outcome : Except ParseError α}
    (heq : ∀ depth, y (depth + 1) = x depth) (h : Ends x enough s outcome s') :
    Ends y (enough + 1) s outcome s' := by
  intro depth hdepth
  obtain ⟨depth, rfl⟩ := Nat.exists_eq_succ_of_ne_zero (Nat.ne_zero_of_lt hdepth)
  rw [Nat.succ_eq_add_one, heq]
  exact h depth (Nat.le_of_succ_le_succ hdepth)

section

variable {α β : Type} {x : Parser α} {f : α → Parser β} {a : α} {e : ParseError}

theorem run_bind_of_ok (h : x s = some (.ok a, s')) : (x >>= f) s = f a s' := by
  change (x s).bind _ = _
  rw [h]
  rfl

theorem run_bind_of_error (h : x s = some (.error e, s')) : (x >>= f) s = some (.error e, s') := by
  change (x s).bind _ = _
  rw [h]
  rfl

end

theorem run_get {α : Type} (f : State → Parser α) (s : State) : (get >>= f) s = f s s := rfl

section

variable {α β : Type} {pick : Token.Kind → Option α} {a : α} {span : Span} {rest : List Token}

/-- The first of the tokens that are left stands at the cursor. -/
theorem front?_rest (pick : Token.Kind → Option α) (s : State) :
    front? pick (s.rest ts) =
      (ts.tokens[s.pos]?.bind fun t => (pick t.kind).map (·, t.span)).map fun (a, span) =>
        (a, span, (s.moveTo (s.pos + 1)).rest ts) := by
  rw [State.rest, State.rest, State.moveTo]
  cases h : ts.tokens[s.pos]? with
  | none => simp [List.drop_eq_nil_of_le (List.getElem?_eq_none_iff.mp h)]
  | some t =>
      obtain ⟨hlt, rfl⟩ := List.getElem?_eq_some_iff.mp h
      rw [List.drop_eq_getElem_cons hlt, Expr.Parse.front?_cons, Option.bind_some, Option.map_map]
      rfl

theorem rest_eq_of_front? (h : front? pick (s.rest ts) = some (a, span, rest)) :
    rest = (s.moveTo (s.pos + 1)).rest ts := by
  rw [front?_rest] at h
  obtain ⟨⟨b, span'⟩, -, heq⟩ := Option.map_eq_some_iff.mp h
  simp only [Prod.mk.injEq] at heq
  exact heq.2.2.symm

theorem pos_lt_of_front? (h : front? pick (s.rest ts) = some (a, span, rest)) :
    s.pos < ts.tokens.length := by
  have hlength := Expr.Parse.length_front h
  rw [State.rest, List.length_drop] at hlength
  omega

theorem run_lookAhead (n : Nat) (pick : Token.Kind → Option α) (s : State)
    (k : Option (α × Span) → Parser β) :
    (look? ts n pick >>= k) s =
      k ((front? pick ((s.moveTo (s.pos + n)).rest ts)).map fun (a, span, _) => (a, span)) s := by
  rw [front?_rest, Option.map_map]
  refine (run_bind_of_ok rfl).trans (congrArg (k · s) ?_)
  simp [Function.comp_def, State.moveTo]

theorem run_look (pick : Token.Kind → Option α) (s : State) (k : Option (α × Span) → Parser β) :
    (look? ts 0 pick >>= k) s = k ((front? pick (s.rest ts)).map fun (a, span, _) => (a, span)) s :=
  run_lookAhead 0 pick s k

theorem run_advance (h : s.pos < ts.tokens.length) :
    advance ts s = some (.ok (), s.moveTo (s.pos + 1)) := by
  change some (Except.ok (), if s.pos < ts.tokens.length then s.moveTo (s.pos + 1) else s) = _
  rw [if_pos h]

theorem run_setPosition {pos : Nat} (h : pos ≤ ts.tokens.length) :
    setPosition ts pos s = some (.ok (), s.moveTo pos) := by
  rw [setPosition, if_pos h]
  rfl

theorem run_next_of_none (h : front? pick (s.rest ts) = none) (k : Option (α × Span) → Parser β) :
    (next? ts pick >>= k) s = k none s := by
  refine run_bind_of_ok ?_
  rw [next?, run_look, h]
  rfl

theorem run_next_of_some (h : front? pick (s.rest ts) = some (a, span, rest))
    (k : Option (α × Span) → Parser β) :
    (next? ts pick >>= k) s = k (some (a, span)) (s.moveTo (s.pos + 1)) := by
  refine run_bind_of_ok ?_
  rw [next?, run_look, h]
  exact run_bind_of_ok (run_advance (pos_lt_of_front? h))

theorem run_opening {span : Span} {rest : List Token}
    (h : front? (Token.Kind.mark? .leftParen) (s.rest ts) = some ((), span, rest)) :
    opening ts s = some (.ok span, s.moveTo (s.pos + 1)) := by
  rw [opening, run_next_of_some h]
  rfl

theorem run_node {id : Nat} (hid : id < s.arena.size) :
    ∃ n, s.arena.get? id = some n ∧ node id s = some (.ok n, s) := by
  obtain ⟨n, hget⟩ := exists_get? hid
  refine ⟨n, hget, ?_⟩
  rw [node, run_get, hget]
  rfl

theorem run_spanOf {id : Nat} (hid : id < s.arena.size) :
    spanOf id s = some (.ok (s.arena.tree id).span, s) := by
  obtain ⟨n, hget, hrun⟩ := run_node hid
  rw [spanOf, run_bind_of_ok hrun, span_tree hget]
  rfl

theorem run_previousSpan (s : State) : previousSpan ts s = some (.ok (s.passedSpan ts), s) := by
  rw [previousSpan, run_get, State.passedSpan]
  split
  · rfl
  · cases ts.tokens[s.pos - 1]? <;> rfl

theorem passedSpan_of_front? (h : front? pick (s.rest ts) = some (a, span, rest)) :
    (s.moveTo (s.pos + 1)).passedSpan ts = span := by
  rw [front?_rest] at h
  obtain ⟨⟨b, span'⟩, hb, heq⟩ := Option.map_eq_some_iff.mp h
  obtain ⟨t, ht, hb⟩ := Option.bind_eq_some_iff.mp hb
  obtain ⟨c, -, hc⟩ := Option.map_eq_some_iff.mp hb
  simp only [Prod.mk.injEq] at hc heq
  rw [State.passedSpan, State.moveTo, if_neg (Nat.succ_ne_zero s.pos), Nat.add_sub_cancel, ht]
  exact hc.2.trans heq.2.1

end

/-! ### Type arguments -/

theorem pos_lt_of_rest_length (h : (s'.rest ts).length < (s.rest ts).length) : s.pos < s'.pos := by
  rw [State.rest, State.rest, List.length_drop, List.length_drop] at h
  omega

theorem ends_typeNames (s : State) (hs : s.InBounds ts) :
    ∃ names? s', Ends (typeNames? ts) (s.left ts + 1) s (.ok names?) s' ∧ s.Leads ts s' ∧
      s'.arena = s.arena ∧ Expr.Parse.typeNames (s.rest ts) = names?.map (·, s'.rest ts) := by
  rw [Expr.Parse.typeNames_eq]
  cases hn : front? Token.Kind.ident? (s.rest ts) with
  | none =>
      exact ⟨none, s, .deeper (typeNames?.eq_2 ts) fun depth _ => run_next_of_none hn _, .refl hs, rfl, rfl⟩
  | some found =>
      obtain ⟨name, span, rest⟩ := found
      obtain rfl := rest_eq_of_front? hn
      have hlt := pos_lt_of_front? hn
      have hleads := hs.leads_moveTo (Nat.succ_le_of_lt hlt)
      dsimp only
      cases hc : front? (Token.Kind.mark? .comma) ((s.moveTo (s.pos + 1)).rest ts) with
      | none =>
          refine ⟨some [⟨name, span⟩], _, .deeper (typeNames?.eq_2 ts) fun depth _ => ?_, hleads, rfl, rfl⟩
          exact (run_next_of_some hn _).trans (run_next_of_none hc _)
      | some found =>
          obtain ⟨_, _, rest⟩ := found
          obtain rfl := rest_eq_of_front? hc
          have hleads' := hleads.inBounds.leads_moveTo (Nat.succ_le_of_lt (pos_lt_of_front? hc))
          have hlt' : s.pos < ((s.moveTo (s.pos + 1)).moveTo (s.pos + 1 + 1)).pos :=
            Nat.lt_succ_of_lt (Nat.lt_succ_self s.pos)
          obtain ⟨names?, s', hends, hnames, harena, heq⟩ := ends_typeNames _ hleads'.inBounds
          refine ⟨names?.map (⟨name, span⟩ :: ·), s', .deeper (typeNames?.eq_2 ts) fun depth hdepth => ?_,
            (hleads.trans hleads').trans hnames, harena, ?_⟩
          · refine (run_next_of_some hn _).trans ((run_next_of_some hc _).trans ?_)
            exact run_bind_of_ok (hends depth (Nat.le_trans (State.left_lt hleads'.inBounds hlt') hdepth))
          · dsimp only
            rw [heq, Option.map_map, Option.map_map]
            rfl
termination_by s.left ts
decreasing_by exact State.left_lt hleads'.inBounds hlt'

/-- Either the cursor is where it has been, and there are no type arguments that open a call, or it is at
the parenthesis behind them. -/
inductive Opens (ts : TokenList) (s : State) : Option (List TypeArg) → State → Prop
  | none {s' : State} : s'.pos = s.pos →
      Expr.Parse.callOpening? (s.rest ts) =
        (front? (Token.Kind.mark? .leftParen) (s.rest ts)).map (([], ·.2)) →
      Opens ts s none s'
  | some {args : List TypeArg} {s' : State} {opened : Span} : s.pos < s'.pos →
      front? (Token.Kind.mark? .leftParen) (s'.rest ts) =
        some ((), opened, (s'.moveTo (s'.pos + 1)).rest ts) →
      Expr.Parse.callOpening? (s.rest ts) = some (args, opened, (s'.moveTo (s'.pos + 1)).rest ts) →
      Opens ts s (some args) s'

theorem callOpening?_of_less {us rest : List Token} {span : Span}
    (h : front? (Token.Kind.op? .less) us = some ((), span, rest)) :
    front? (Token.Kind.mark? .leftParen) us = none ∧
      Expr.Parse.callOpening? us = (Expr.Parse.typeNames rest).bind fun (args, afterNames) =>
        (front? (Token.Kind.op? .greater) afterNames).bind fun (_, _, afterGreater) =>
          (front? (Token.Kind.mark? .leftParen) afterGreater).map fun (_, opened, rest) =>
            (args, opened, rest) := by
  have hparen : front? (Token.Kind.mark? .leftParen) us = none := by
    obtain ⟨t, rfl, ht, -⟩ := Expr.Parse.front?_op_eq_some.mp h
    simp [ht, Token.Kind.mark?]
  exact ⟨hparen, by rw [Expr.Parse.callOpening?, hparen, h]; rfl⟩

/-- Where a `<` opens no type arguments, the cursor goes back to it. -/
theorem run_giveUp {span : Span} {rest : List Token}
    (hless : front? (Token.Kind.op? .less) (s.rest ts) = some ((), span, rest)) (hs : s.InBounds ts)
    (hleads : s.Leads ts s') (harena : s'.arena = s.arena)
    (hnone : Expr.Parse.callOpening? (s.rest ts) = none) :
    ∃ args? s'', (setPosition ts s.pos >>= fun _ => pure none : Parser (Option (List TypeArg))) s' =
      some (.ok args?, s'') ∧ s.Leads ts s'' ∧ s''.arena = s.arena ∧ Opens ts s args? s'' := by
  refine ⟨none, s'.moveTo s.pos, run_bind_of_ok (run_setPosition hs.pos_le),
    hleads.trans (hleads.inBounds.leads_moveTo hs.pos_le), harena, .none rfl ?_⟩
  rw [hnone, (callOpening?_of_less hless).1, Option.map_none]

theorem run_closed {span : Span} {names? : Option (List TypeArg)}
    (hless : front? (Token.Kind.op? .less) (s.rest ts) =
      some ((), span, (s.moveTo (s.pos + 1)).rest ts))
    (hs : s.InBounds ts) (hleads : s.Leads ts s') (harena : s'.arena = s.arena)
    (hnames : Expr.Parse.typeNames ((s.moveTo (s.pos + 1)).rest ts) = names?.map (·, s'.rest ts)) :
    ∃ args? s'', closed? ts s.pos names? s' = some (.ok args?, s'') ∧ s.Leads ts s'' ∧
      s''.arena = s.arena ∧ Opens ts s args? s'' := by
  obtain ⟨-, hopening⟩ := callOpening?_of_less hless
  cases names? with
  | none => exact run_giveUp hless hs hleads harena (by rw [hopening, hnames]; rfl)
  | some args =>
      rw [Option.map_some] at hnames
      have hlt : s.pos + 1 < s'.pos := pos_lt_of_rest_length (Expr.Parse.length_typeNames hnames)
      rw [hnames, Option.bind_some] at hopening
      dsimp only at hopening
      rw [closed?, run_look, run_lookAhead]
      cases hgreater : front? (Token.Kind.op? .greater) (s'.rest ts) with
      | none => exact run_giveUp hless hs hleads harena (by rw [hopening, hgreater]; rfl)
      | some found =>
          obtain ⟨_, _, afterGreater⟩ := found
          obtain rfl := rest_eq_of_front? hgreater
          have hleads' := hleads.inBounds.leads_moveTo (Nat.succ_le_of_lt (pos_lt_of_front? hgreater))
          rw [hgreater, Option.bind_some] at hopening
          dsimp only at hopening
          cases hparen : front? (Token.Kind.mark? .leftParen) ((s'.moveTo (s'.pos + 1)).rest ts) with
          | none => exact run_giveUp hless hs hleads harena (by rw [hopening, hparen]; rfl)
          | some found =>
              obtain ⟨_, opened, afterParen⟩ := found
              obtain rfl := rest_eq_of_front? hparen
              rw [hparen] at hopening
              refine ⟨some args, _, run_bind_of_ok (run_advance (pos_lt_of_front? hgreater)),
                hleads.trans hleads', harena, .some ?_ hparen hopening⟩
              simp only [State.moveTo]
              omega

theorem ends_typeArguments (hs : s.InBounds ts) :
    ∃ args? s', Ends (typeArguments? ts) (s.left ts) s (.ok args?) s' ∧ s.Leads ts s' ∧
      s'.arena = s.arena ∧ Opens ts s args? s' := by
  cases hless : front? (Token.Kind.op? .less) (s.rest ts) with
  | none =>
      refine ⟨none, s, fun depth _ => ?_, .refl hs, rfl, .none rfl ?_⟩
      · rw [typeArguments?, run_look, hless]
        rfl
      · rw [Expr.Parse.callOpening?, hless]
        cases front? (Token.Kind.mark? .leftParen) (s.rest ts) <;> rfl
  | some found =>
      obtain ⟨_, span, rest⟩ := found
      obtain rfl := rest_eq_of_front? hless
      have hlt := pos_lt_of_front? hless
      have hleads := hs.leads_moveTo (Nat.succ_le_of_lt hlt)
      have hleft := State.left_lt hleads.inBounds (Nat.lt_succ_self s.pos)
      obtain ⟨names?, s₁, hends, hnames, harena, heq⟩ := ends_typeNames _ hleads.inBounds
      obtain ⟨args?, s', hrun, hclosed⟩ := run_closed hless hs (hleads.trans hnames) harena heq
      refine ⟨args?, s', fun depth hdepth => ?_, hclosed⟩
      rw [typeArguments?, run_look, hless]
      dsimp only [Option.map_some]
      rw [run_get, run_bind_of_ok (run_advance hlt)]
      exact (run_bind_of_ok (hends depth (Nat.le_trans hleft hdepth))).trans hrun

/-! ### Following on trees -/

section

variable {α β γ δ : Type} {x y : Nat → Parser α} {enough enough' : Nat} {post : α → State → Prop}
  {view : State → α → γ} {outcome : Except ParseError (γ × List Token)}

theorem Follows.deeper (h : Follows ts x enough s post view outcome)
    (heq : ∀ depth, y (depth + 1) = x depth) : Follows ts y (enough + 1) s post view outcome := by
  cases h with
  | ok hx hleads hpost houtcome => exact .ok (hx.deeper heq) hleads hpost houtcome
  | error hx hleads houtcome => exact .error (hx.deeper heq) hleads houtcome

theorem Follows.mono (h : Follows ts x enough s post view outcome) (hle : enough ≤ enough') :
    Follows ts x enough' s post view outcome := by
  cases h with
  | ok hx hleads hpost houtcome =>
      exact .ok (fun depth hdepth => hx depth (Nat.le_trans hle hdepth)) hleads hpost houtcome
  | error hx hleads houtcome =>
      exact .error (fun depth hdepth => hx depth (Nat.le_trans hle hdepth)) hleads houtcome

/-- What goes on in another state is followed from there. -/
theorem Follows.of_run (h : Follows ts y enough s' post view outcome) (hleads : s.Leads ts s')
    (hrun : ∀ depth ≥ enough, x depth s = y depth s') : Follows ts x enough s post view outcome := by
  cases h with
  | ok hy hleads' hpost houtcome =>
      exact .ok (fun depth hdepth => (hrun depth hdepth).trans (hy depth hdepth)) (hleads.trans hleads')
        hpost houtcome
  | error hy hleads' houtcome =>
      exact .error (fun depth hdepth => (hrun depth hdepth).trans (hy depth hdepth))
        (hleads.trans hleads') houtcome

theorem Follows.imp {post' : α → State → Prop} (h : Follows ts x enough s post view outcome)
    (hpost : ∀ a s', s.Leads ts s' → post a s' → post' a s') :
    Follows ts x enough s post' view outcome := by
  cases h with
  | ok hx hleads h houtcome => exact .ok hx hleads (hpost _ _ hleads h) houtcome
  | error hx hleads houtcome => exact .error hx hleads houtcome

theorem Follows.bind {f : Nat → α → Parser β} {post' : β → State → Prop} {view' : State → β → δ}
    {g : γ × List Token → Except ParseError (δ × List Token)}
    (hx : Follows ts x enough s post view outcome)
    (hf : ∀ a s', s.Leads ts s' → post a s' →
      Follows ts (fun depth => f depth a) enough s' post' view' (g (view s' a, s'.rest ts))) :
    Follows ts (fun depth => x depth >>= f depth) enough s post' view' (outcome >>= g) := by
  cases hx with
  | @ok a s' hx hleads hpost houtcome =>
      have hrun (depth) (hdepth : depth ≥ enough) : (x depth >>= f depth) s = f depth a s' :=
        run_bind_of_ok (hx depth hdepth)
      cases hf a s' hleads hpost with
      | ok hf hleads' hpost' houtcome' =>
          refine .ok (fun depth hdepth => (hrun depth hdepth).trans (hf depth hdepth))
            (hleads.trans hleads') hpost' fun hsmall => ?_
          rw [houtcome (hsmall.of_extends hleads'.extends')]
          exact houtcome' hsmall
      | error hf hleads' houtcome' =>
          refine .error (fun depth hdepth => (hrun depth hdepth).trans (hf depth hdepth))
            (hleads.trans hleads') fun hsmall => ?_
          rw [houtcome (hsmall.of_extends hleads'.extends')]
          exact houtcome' hsmall
  | error hx hleads houtcome =>
      refine .error (fun depth hdepth => run_bind_of_error (hx depth hdepth)) hleads fun hsmall => ?_
      rw [houtcome hsmall]
      rfl

theorem follows_pure (hs : s.InBounds ts) {a : α} (hpost : post a s) :
    Follows ts (fun _ => pure a) enough s post view (.ok (view s a, s.rest ts)) :=
  .ok (fun _ _ => rfl) (.refl hs) hpost fun _ => rfl

theorem follows_throw (hs : s.InBounds ts) (e : ParseError) :
    Follows ts (fun _ => throw e) enough s post view (.error e) :=
  .error (fun _ _ => rfl) (.refl hs) fun _ => rfl

theorem follows_failWith (hs : s.InBounds ts) (error : Nat → List Token → ParseError) :
    Follows ts (fun _ => failWith ts error) enough s post view (.error (error ts.stop (s.rest ts))) :=
  .error (fun _ _ => rfl) (.refl hs) fun _ => rfl

theorem follows_next {pick : Token.Kind → Option β} {k : Nat → Option (β × Span) → Parser α}
    (hs : s.InBounds ts)
    (hnone : front? pick (s.rest ts) = none →
      Follows ts (fun depth => k depth none) enough s post view outcome)
    (hsome : ∀ a span, front? pick (s.rest ts) = some (a, span, (s.moveTo (s.pos + 1)).rest ts) →
      s.Leads ts (s.moveTo (s.pos + 1)) →
      Follows ts (fun depth => k depth (some (a, span))) enough (s.moveTo (s.pos + 1)) post view outcome) :
    Follows ts (fun depth => next? ts pick >>= k depth) enough s post view outcome := by
  cases h : front? pick (s.rest ts) with
  | none => exact (hnone h).of_run (.refl hs) fun depth _ => run_next_of_none h (k depth)
  | some found =>
      obtain ⟨a, span, rest⟩ := found
      obtain rfl := rest_eq_of_front? h
      have hleads := hs.leads_moveTo (Nat.succ_le_of_lt (pos_lt_of_front? h))
      exact (hsome a span h hleads).of_run hleads fun depth _ => run_next_of_some h (k depth)

theorem follows_look {pick : Token.Kind → Option β} {k : Nat → Option (β × Span) → Parser α}
    (hs : s.InBounds ts)
    (hnone : front? pick (s.rest ts) = none →
      Follows ts (fun depth => k depth none) enough s post view outcome)
    (hsome : ∀ a span, front? pick (s.rest ts) = some (a, span, (s.moveTo (s.pos + 1)).rest ts) →
      Follows ts (fun depth => k depth (some (a, span))) enough s post view outcome) :
    Follows ts (fun depth => look? ts 0 pick >>= k depth) enough s post view outcome := by
  cases h : front? pick (s.rest ts) with
  | none =>
      refine (hnone h).of_run (.refl hs) fun depth _ => ?_
      rw [run_look, h, Option.map_none]
  | some found =>
      obtain ⟨a, span, rest⟩ := found
      obtain rfl := rest_eq_of_front? h
      refine (hsome a span h).of_run (.refl hs) fun depth _ => ?_
      rw [run_look, h, Option.map_some]

theorem follows_advance {pick : Token.Kind → Option β} {a : β} {span : Span} {rest : List Token}
    (hs : s.InBounds ts) (h : front? pick (s.rest ts) = some (a, span, rest)) {k : Nat → Unit → Parser α}
    (hk : s.Leads ts (s.moveTo (s.pos + 1)) →
      Follows ts (fun depth => k depth ()) enough (s.moveTo (s.pos + 1)) post view outcome) :
    Follows ts (fun depth => advance ts >>= k depth) enough s post view outcome := by
  have hlt := pos_lt_of_front? h
  have hleads := hs.leads_moveTo (Nat.succ_le_of_lt hlt)
  exact (hk hleads).of_run hleads fun depth _ => run_bind_of_ok (run_advance hlt)

theorem follows_spanOf (hs : s.InBounds ts) {id : Nat} (hid : id < s.arena.size)
    {k : Nat → Span → Parser α}
    (hk : Follows ts (fun depth => k depth (s.arena.tree id).span) enough s post view outcome) :
    Follows ts (fun depth => spanOf id >>= k depth) enough s post view outcome :=
  hk.of_run (.refl hs) fun _ _ => run_bind_of_ok (run_spanOf hid)

theorem follows_previousSpan (hs : s.InBounds ts) {k : Nat → Span → Parser α}
    (hk : Follows ts (fun depth => k depth (s.passedSpan ts)) enough s post view outcome) :
    Follows ts (fun depth => previousSpan ts >>= k depth) enough s post view outcome :=
  hk.of_run (.refl hs) fun _ _ => run_bind_of_ok (run_previousSpan s)

theorem follows_node (hs : s.InBounds ts) {id : Nat} (hid : id < s.arena.size)
    {k : Nat → Node → Parser α}
    (hk : ∀ n, s.arena.get? id = some n → n.form.isPlace = (s.arena.tree id).isPlace →
      Follows ts (fun depth => k depth n) enough s post view outcome) :
    Follows ts (fun depth => node id >>= k depth) enough s post view outcome := by
  obtain ⟨n, hget, hrun⟩ := run_node hid
  exact (hk n hget (isPlace_tree hget).symm).of_run (.refl hs) fun _ _ => run_bind_of_ok hrun

end

/-- What leaves a node and moves beyond a position. -/
abbrev Parses (ts : TokenList) (pos : Nat) (x : Nat → Parser Nat) (enough : Nat) (s : State)
    (outcome : Except ParseError (Expr × List Token)) : Prop :=
  Follows ts x enough s (fun id s' => pos < s'.pos ∧ id < s'.arena.size)
    (fun s' id => s'.arena.tree id) outcome

/-- What leaves arguments and moves beyond a position, with the span of the token at the end. -/
abbrev ParsesAll (ts : TokenList) (pos : Nat) (x : Nat → Parser (List Nat)) (enough : Nat) (s : State)
    (outcome : Except ParseError ((List Expr × Span) × List Token)) : Prop :=
  Follows ts x enough s (fun ids s' => pos < s'.pos ∧ ∀ id ∈ ids, id < s'.arena.size)
    (fun s' ids => (ids.map s'.arena.tree, s'.passedSpan ts)) outcome

section

variable {pos enough : Nat} (hs : s.InBounds ts) (hpos : pos < s.pos)

include hs hpos

theorem parses_alloc {form : Form} (hform : s.arena.Fits s.arena.size form) (span : Span) :
    Parses ts pos (fun _ => alloc form span) enough s (.ok (form.tree span s.arena.tree, s.rest ts)) := by
  refine .ok (fun _ _ => rfl) (hs.leads_push hform) ⟨hpos, nextId_lt s.arena _⟩ fun hsmall => ?_
  have htree := tree_push_size s.arena ⟨form, span⟩
  rw [← nextId_eq hsmall] at htree
  exact congrArg (fun e => Except.ok (e, s.rest ts)) htree.symm

theorem parses_allocBinary {op : Operator} (hop : op.isBinary = true) {left right : Nat}
    (hleft : left < s.arena.size) (hright : right < s.arena.size) (span : Span) :
    Parses ts pos (fun _ => alloc (.binary op left right) span) enough s
      (.ok (.binary span op (s.arena.tree left) (s.arena.tree right), s.rest ts)) := by
  refine parses_alloc hs hpos ⟨?_, ?_, ?_⟩ span
  · simp [Form.children, hleft, hright]
  · intro op' left' right' h
    cases h
    exact hop
  · intro target value h
    cases h

theorem parses_allocAssign {target value : Nat} (htarget : target < s.arena.size)
    (hplace : (s.arena.tree target).isPlace = true) (hvalue : value < s.arena.size) (span : Span) :
    Parses ts pos (fun _ => alloc (.assign target value) span) enough s
      (.ok (.assign span (s.arena.tree target) (s.arena.tree value), s.rest ts)) := by
  refine parses_alloc hs hpos ⟨?_, ?_, ?_⟩ span
  · simp [Form.children, htarget, hvalue]
  · intro op left right h
    cases h
  · intro target' value' h
    cases h
    obtain ⟨n, hget⟩ := exists_get? htarget
    exact ⟨n, hget, (isPlace_tree hget).symm.trans hplace⟩

theorem parses_allocLiteral (value : Literal) (span : Span) :
    Parses ts pos (fun _ => alloc (.literal value) span) enough s (.ok (.literal span value, s.rest ts)) :=
  parses_alloc hs hpos ⟨by simp [Form.children], by simp, by simp⟩ span

theorem parses_allocUnary (op : Operator) (opSpan : Span) {operand : Nat}
    (hoperand : operand < s.arena.size) :
    Parses ts pos (fun _ => allocUnary op opSpan operand) enough s
      (.ok (Expr.ofUnary op opSpan (s.arena.tree operand), s.rest ts)) := by
  have hliteral (value : Literal) : Parses ts pos (fun _ => alloc (.literal value) opSpan) enough s
      (.ok (.literal opSpan value, s.rest ts)) := parses_allocLiteral hs hpos value opSpan
  rw [allocUnary]
  refine follows_spanOf hs hoperand ?_
  dsimp only
  split
  · refine (hliteral (.int (-1))).bind
      (g := fun x => .ok (Expr.binary _ .mul x.1 _, x.2))
      fun one s' hleads hone => ?_
    rw [← hleads.tree_eq hoperand]
    exact parses_allocBinary hleads.inBounds hone.1 rfl hone.2 (hleads.lt_size hoperand) _
  · refine (hliteral (.bool false)).bind
      (g := fun x => .ok (Expr.binary _ .equal _ x.1, x.2))
      fun no s' hleads hno => ?_
    rw [← hleads.tree_eq hoperand]
    exact parses_allocBinary hleads.inBounds hno.1 rfl (hleads.lt_size hoperand) hno.2 _
  · next hsub hnot =>
    rw [Expr.ofUnary_of_ne hsub hnot]
    refine (hliteral (.int (-1))).bind
      (g := fun x => .ok (Expr.binary _ .xor _ x.1, x.2))
      fun ones s' hleads hones => ?_
    rw [← hleads.tree_eq hoperand]
    exact parses_allocBinary hleads.inBounds hones.1 rfl (hleads.lt_size hoperand) hones.2 _

theorem parses_allocAssignment {op : Operator} {target value : Nat} (htarget : target < s.arena.size)
    (hplace : (s.arena.tree target).isPlace = true) (hvalue : value < s.arena.size) :
    Parses ts pos (fun _ => allocAssignment op target value) enough s
      (.ok (Expr.ofAssignment op (s.arena.tree target) (s.arena.tree value), s.rest ts)) := by
  rw [allocAssignment, Expr.ofAssignment]
  refine follows_spanOf hs htarget (follows_spanOf hs hvalue ?_)
  dsimp only
  cases hbase : op.compoundBase? with
  | none => exact parses_allocAssign hs hpos htarget hplace hvalue _
  | some base =>
      have hop := Operator.isBinary_of_compoundBase? hbase
      refine (parses_allocBinary hs hpos hop htarget hvalue _).bind
        (g := fun x => .ok (Expr.assign _ _ x.1, x.2))
        fun operation s' hleads hoperation => ?_
      rw [← hleads.tree_eq htarget] at hplace ⊢
      exact parses_allocAssign hleads.inBounds hoperation.1 (hleads.lt_size htarget) hplace hoperation.2 _

end

end Parse

end Arena

end Formula
