import Formula.Proofs.Lookahead
import Formula.Proofs.Rendering

/-!
How long chains get. The parser counts hops anew behind each group, and a group leaves no node in the
tree, so that the limit holds for what stands between groups and not for the chain in the tree.
-/

namespace Formula.Expr

mutual

/-- The expression and all that it is made of. -/
def parts : Expr → List Expr
  | literal s value => [literal s value]
  | ident s name => [ident s name]
  | binary s op left right => binary s op left right :: (left.parts ++ right.parts)
  | assign s target value => assign s target value :: (target.parts ++ value.parts)
  | ternary s cond yes no => ternary s cond yes no :: (cond.parts ++ (yes.parts ++ no.parts))
  | member s receiver name => member s receiver name :: receiver.parts
  | call s receiver method typeArgs args =>
    call s receiver method typeArgs args :: (receiver.parts ++ allParts args)

def allParts : List Expr → List Expr
  | [] => []
  | e :: es => e.parts ++ allParts es

end

/-- The expression and its receivers, up to the one at which the chain begins. -/
def spine : Expr → List Expr
  | member s receiver name => member s receiver name :: receiver.spine
  | call s receiver method typeArgs args => call s receiver method typeArgs args :: receiver.spine
  | e => [e]

theorem mem_spine_self (e : Expr) : e ∈ e.spine := by cases e <;> simp [spine]

theorem hops_le_of_mem_spine {e x : Expr} (h : x ∈ e.spine) : x.hops ≤ e.hops := by
  cases e with
  | literal | ident | binary | assign | ternary => simp_all [spine]
  | member s receiver name | call s receiver method typeArgs args =>
      rcases List.mem_cons.mp h with rfl | h
      · exact Nat.le_refl _
      · exact Nat.le_succ_of_le (hops_le_of_mem_spine h)

theorem mem_parts_ofUnary {op : Operator} {span : Span} {operand x : Expr}
    (h : x ∈ (ofUnary op span operand).parts) : x.hops = 0 ∨ x ∈ operand.parts := by
  rw [ofUnary.eq_def] at h
  split at h <;> simp only [parts, List.mem_cons, List.mem_append, List.not_mem_nil, or_false] at h
  · obtain rfl | rfl | h := h
    exacts [.inl rfl, .inl rfl, .inr h]
  · obtain rfl | h | rfl := h
    exacts [.inl rfl, .inr h, .inl rfl]
  · obtain rfl | h | rfl := h
    exacts [.inl rfl, .inr h, .inl rfl]

theorem mem_parts_ofAssignment {op : Operator} {target value x : Expr}
    (h : x ∈ (ofAssignment op target value).parts) :
    x.hops = 0 ∨ x ∈ target.parts ∨ x ∈ value.parts := by
  rw [ofAssignment] at h
  split at h <;> simp only [parts, List.mem_cons, List.mem_append] at h
  · obtain rfl | h | rfl | h | h := h
    exacts [.inl rfl, .inr (.inl h), .inl rfl, .inr (.inl h), .inr (.inr h)]
  · obtain rfl | h | h := h
    exacts [.inl rfl, .inr (.inl h), .inr (.inr h)]

theorem hops_ofUnary (op : Operator) (span : Span) (operand : Expr) :
    (ofUnary op span operand).hops = 0 := by
  cases op <;> rfl

theorem hops_ofAssignment (op : Operator) (target value : Expr) :
    (ofAssignment op target value).hops = 0 := by
  rw [ofAssignment]
  cases op.compoundBase? <;> rfl

namespace Parse

/-- How many groups begin where the tokens do. -/
def groups : List Token → Nat
  | [] => 0
  | t :: ts =>
    match t.kind with
    | .mark .leftParen => groups ts + 1
    | _ => 0

theorem groups_cons {t : Token} (ht : t.kind = .mark .leftParen) (ts : List Token) :
    groups (t :: ts) = groups ts + 1 := by
  rw [groups, ht]

/-- The expression stands in a chain that is read somewhere in the tokens. -/
def OnChain (stop maxHops : Nat) (ts : List Token) (x : Expr) : Prop :=
  ∃ us e rest, us <:+ ts ∧ plain (postfixed stop maxHops us) = .ok (e, rest) ∧ x ∈ e.spine

theorem OnChain.mono {stop maxHops : Nat} {ts us : List Token} {x : Expr}
    (h : OnChain stop maxHops us x) (hsuffix : us <:+ ts) : OnChain stop maxHops ts x := by
  obtain ⟨vs, e, rest, hvs, he, hx⟩ := h
  exact ⟨vs, e, rest, hvs.trans hsuffix, he, hx⟩

/-- All that has receivers stands in a chain that is read. -/
def Chains (stop maxHops : Nat) (ts : List Token) (xs : List Expr) : Prop :=
  ∀ x ∈ xs, 0 < x.hops → OnChain stop maxHops ts x

/-- What has receivers is a receiver of the expression, or stands in a chain that is read. -/
def Unfinished (stop maxHops : Nat) (ts : List Token) (e : Expr) : Prop :=
  ∀ x ∈ e.parts, x ∈ e.spine ∨ (0 < x.hops → OnChain stop maxHops ts x)

section

variable {stop maxHops : Nat}

theorem Chains.mono {ts us : List Token} {xs : List Expr} (h : Chains stop maxHops us xs)
    (hsuffix : us <:+ ts) : Chains stop maxHops ts xs :=
  fun x hx hpos => (h x hx hpos).mono hsuffix

theorem Chains.append {ts : List Token} {xs ys : List Expr} (hx : Chains stop maxHops ts xs)
    (hy : Chains stop maxHops ts ys) : Chains stop maxHops ts (xs ++ ys) :=
  List.forall_mem_append.mpr ⟨hx, hy⟩

theorem Chains.cons {ts : List Token} {x : Expr} {xs : List Expr} (hx : x.hops = 0)
    (h : Chains stop maxHops ts xs) : Chains stop maxHops ts (x :: xs) :=
  List.forall_mem_cons.mpr ⟨fun hpos => absurd hx (Nat.ne_of_gt hpos), h⟩

theorem Chains.ofAssignment {ts : List Token} {target value : Expr}
    (ht : Chains stop maxHops ts target.parts) (hv : Chains stop maxHops ts value.parts)
    (op : Operator) : Chains stop maxHops ts (ofAssignment op target value).parts := by
  intro x hx hpos
  obtain h0 | hx | hx := mem_parts_ofAssignment hx
  · exact absurd h0 (Nat.ne_of_gt hpos)
  · exact ht x hx hpos
  · exact hv x hx hpos

theorem Chains.ofUnary {ts : List Token} {operand : Expr}
    (h : Chains stop maxHops ts operand.parts) (op : Operator) (span : Span) :
    Chains stop maxHops ts (ofUnary op span operand).parts := by
  intro x hx hpos
  obtain h0 | hx := mem_parts_ofUnary hx
  · exact absurd h0 (Nat.ne_of_gt hpos)
  · exact h x hx hpos

theorem Unfinished.member {ts : List Token} {receiver : Expr} (h : Unfinished stop maxHops ts receiver)
    (s : Span) (name : String) : Unfinished stop maxHops ts (.member s receiver name) := by
  intro x hx
  obtain rfl | hx := List.mem_cons.mp hx
  · exact .inl (mem_spine_self _)
  · exact (h x hx).imp_left (List.mem_cons_of_mem _)

theorem Unfinished.call {ts : List Token} {receiver : Expr} {args : List Expr}
    (h : Unfinished stop maxHops ts receiver) (hargs : Chains stop maxHops ts (allParts args))
    (s : Span) (method : String) (typeArgs : List TypeArg) :
    Unfinished stop maxHops ts (.call s receiver method typeArgs args) := by
  intro x hx
  obtain rfl | hx := List.mem_cons.mp hx
  · exact .inl (mem_spine_self _)
  · obtain hx | hx := List.mem_append.mp hx
    · exact (h x hx).imp_left (List.mem_cons_of_mem _)
    · exact .inr (hargs x hx)

mutual

theorem chains_of_assignment {ts rest : List Token} {e : Expr}
    (h : plain (assignment stop maxHops ts) = .ok (e, rest)) :
    e.hops ≤ maxHops * (groups ts + 1) ∧ Chains stop maxHops ts e.parts := by
  rw [plain_assignment] at h
  obtain ⟨⟨target, r⟩, ht, h⟩ := bind_eq_ok.mp h
  obtain ⟨hhops, htarget⟩ := chains_of_ternary ht
  cases ho : front? Token.Kind.assignment? r with
  | none =>
      simp only [ho] at h
      obtain ⟨rfl, rfl⟩ := Prod.mk.inj (Except.ok.inj h)
      exact ⟨hhops, htarget⟩
  | some found =>
      obtain ⟨op, span, afterOp⟩ := found
      simp only [ho] at h
      split at h
      · obtain ⟨⟨value, r'⟩, hv, h⟩ := bind_eq_ok.mp h
        obtain ⟨rfl, rfl⟩ := Prod.mk.inj (Except.ok.inj h)
        have := left_of_plain ht
        have := length_front ho
        have hsuffix := (suffix_of_front? ho).trans (suffix_of_ternary ht)
        have hvalue := (chains_of_assignment hv).2.mono hsuffix
        exact ⟨by simp [hops_ofAssignment], htarget.ofAssignment hvalue op⟩
      · cases h
termination_by (ts.length, 5)

theorem chains_of_ternary {ts rest : List Token} {e : Expr}
    (h : plain (ternary stop maxHops ts) = .ok (e, rest)) :
    e.hops ≤ maxHops * (groups ts + 1) ∧ Chains stop maxHops ts e.parts := by
  rw [plain_ternary] at h
  obtain ⟨⟨cond, r⟩, hc, h⟩ := bind_eq_ok.mp h
  obtain ⟨hhops, hcond⟩ := chains_of_binary hc
  cases hq : front? (Token.Kind.mark? .question) r with
  | none =>
      simp only [hq] at h
      obtain ⟨rfl, rfl⟩ := Prod.mk.inj (Except.ok.inj h)
      exact ⟨hhops, hcond⟩
  | some found =>
      obtain ⟨_, _, afterQuestion⟩ := found
      simp only [hq] at h
      obtain ⟨⟨yes, r'⟩, hy, h⟩ := bind_eq_ok.mp h
      cases hm : front? (Token.Kind.mark? .colon) r' with
      | none => simp [hm] at h
      | some found =>
          obtain ⟨_, _, afterColon⟩ := found
          simp only [hm] at h
          obtain ⟨⟨no, r''⟩, hn, h⟩ := bind_eq_ok.mp h
          obtain ⟨rfl, rfl⟩ := Prod.mk.inj (Except.ok.inj h)
          have := left_of_plain hc
          have := left_of_plain hy
          have := length_front hq
          have := length_front hm
          have hquestion := (suffix_of_front? hq).trans (suffix_of_binary hc)
          have hcolon := (suffix_of_front? hm).trans (suffix_of_assignment hy)
          have hyes := (chains_of_assignment hy).2.mono hquestion
          have hno := (chains_of_assignment hn).2.mono (hcolon.trans hquestion)
          exact ⟨by simp [hops], (hcond.append (hyes.append hno)).cons rfl⟩
termination_by (ts.length, 4)

theorem chains_of_binary {least : Nat} {ts rest : List Token} {e : Expr}
    (h : plain (binary stop maxHops least ts) = .ok (e, rest)) :
    e.hops ≤ maxHops * (groups ts + 1) ∧ Chains stop maxHops ts e.parts := by
  rw [plain_binary] at h
  obtain ⟨⟨left, r⟩, hl, h⟩ := bind_eq_ok.mp h
  have := left_of_plain hl
  obtain ⟨hhops, hleft⟩ := chains_of_unary hl
  obtain ⟨hle, hchains⟩ := chains_of_binaryTail (suffix_of_unary hl) hleft h
  exact ⟨Nat.le_trans hle hhops, hchains⟩
termination_by (ts.length, 3)

theorem chains_of_binaryTail {least : Nat} {left : Expr} {start ts rest : List Token} {e : Expr}
    (hstart : ts <:+ start) (hleft : Chains stop maxHops start left.parts)
    (h : plain (binaryTail stop maxHops least left ts) = .ok (e, rest)) :
    e.hops ≤ left.hops ∧ Chains stop maxHops start e.parts := by
  rw [plain_binaryTail] at h
  cases ho : front? Token.Kind.binary? ts with
  | none =>
      simp only [ho] at h
      obtain ⟨rfl, rfl⟩ := Prod.mk.inj (Except.ok.inj h)
      exact ⟨Nat.le_refl _, hleft⟩
  | some found =>
      obtain ⟨⟨op, precedence⟩, span, afterOp⟩ := found
      simp only [ho] at h
      split at h
      · obtain ⟨rfl, rfl⟩ := Prod.mk.inj (Except.ok.inj h)
        exact ⟨Nat.le_refl _, hleft⟩
      · obtain ⟨⟨right, r⟩, hr, h⟩ := bind_eq_ok.mp h
        have := length_front ho
        have := left_of_plain hr
        have hsuffix := (suffix_of_front? ho).trans hstart
        have hright := (chains_of_binary hr).2.mono hsuffix
        have hoperation : Chains stop maxHops start
            (Expr.binary (left.span.merge right.span) op left right).parts :=
          (hleft.append hright).cons rfl
        obtain ⟨hle, hchains⟩ :=
          chains_of_binaryTail ((suffix_of_binary hr).trans hsuffix) hoperation h
        exact ⟨Nat.le_trans hle (Nat.zero_le _), hchains⟩
termination_by (ts.length, 0)

theorem chains_of_unary {ts rest : List Token} {e : Expr}
    (h : plain (unary stop maxHops ts) = .ok (e, rest)) :
    e.hops ≤ maxHops * (groups ts + 1) ∧ Chains stop maxHops ts e.parts := by
  rw [plain_unary] at h
  cases ho : front? Token.Kind.unary? ts with
  | none =>
      simp only [ho] at h
      exact chains_of_postfixed h
  | some found =>
      obtain ⟨op, span, afterOp⟩ := found
      simp only [ho] at h
      obtain ⟨⟨operand, r⟩, hu, h⟩ := bind_eq_ok.mp h
      obtain ⟨rfl, rfl⟩ := Prod.mk.inj (Except.ok.inj h)
      have := length_front ho
      have hoperand := (chains_of_unary hu).2.mono (suffix_of_front? ho)
      exact ⟨by simp [hops_ofUnary], hoperand.ofUnary op span⟩
termination_by (ts.length, 2)

theorem chains_of_postfixed {ts rest : List Token} {e : Expr}
    (h : plain (postfixed stop maxHops ts) = .ok (e, rest)) :
    e.hops ≤ maxHops * (groups ts + 1) ∧ Chains stop maxHops ts e.parts := by
  have hwhole := h
  rw [plain_postfixed] at h
  obtain ⟨⟨receiver, r⟩, hp, h⟩ := bind_eq_ok.mp h
  have := left_of_plain hp
  obtain ⟨hhops, hreceiver⟩ := chains_of_primary hp
  obtain ⟨hle, hparts⟩ := chains_of_chain (suffix_of_primary hp) rfl
    (Nat.zero_le maxHops) (fun x hx => .inr (hreceiver x hx)) h
  refine ⟨?_, fun x hx hpos => ?_⟩
  · have hzero : (Guard.new maxHops).count = 0 := rfl
    rw [Nat.mul_succ]
    omega
  · obtain hspine | honchain := hparts x hx
    · exact ⟨ts, e, rest, List.suffix_rfl, hwhole, hspine⟩
    · exact honchain hpos
termination_by (ts.length, 1)

theorem chains_of_chain {hops : Guard} {receiver e : Expr} {start ts rest : List Token}
    (hstart : ts <:+ start) (hlimit : hops.limit = maxHops) (hcount : hops.count ≤ maxHops)
    (hreceiver : Unfinished stop maxHops start receiver)
    (h : plain (chain stop maxHops hops receiver ts) = .ok (e, rest)) :
    e.hops + hops.count ≤ receiver.hops + maxHops ∧ Unfinished stop maxHops start e := by
  rw [plain_chain] at h
  cases hd : front? (Token.Kind.mark? .dot) ts with
  | none =>
      simp only [hd] at h
      obtain ⟨rfl, rfl⟩ := Prod.mk.inj (Except.ok.inj h)
      exact ⟨by omega, hreceiver⟩
  | some found =>
      obtain ⟨_, dot, afterDot⟩ := found
      simp only [hd] at h
      cases ht : hops.tick? with
      | none => simp [ht] at h
      | some hops' =>
          simp only [ht] at h
          cases hn : front? Token.Kind.ident? afterDot with
          | none => simp [hn] at h
          | some found =>
              obtain ⟨name, nameSpan, afterName⟩ := found
              simp only [hn] at h
              have := length_front hd
              have := length_front hn
              have hname := ((suffix_of_front? hn).trans (suffix_of_front? hd)).trans hstart
              obtain ⟨hlt, hticked⟩ := Guard.tick?_eq_some_iff.mp ht
              have hlimit' : hops'.limit = maxHops := by rw [hticked, hlimit]
              have hcount' : hops'.count = hops.count + 1 := by rw [hticked]
              have hle : hops'.count ≤ maxHops := by omega
              cases hc : callOpening? afterName with
              | none =>
                  simp only [hc] at h
                  have hmember := hreceiver.member (receiver.span.merge nameSpan) name
                  obtain ⟨hle, hparts⟩ := chains_of_chain hname hlimit' hle hmember h
                  refine ⟨?_, hparts⟩
                  simp only [Expr.hops] at hle
                  omega
              | some found =>
                  obtain ⟨typeArgs, opened, afterParen⟩ := found
                  simp only [hc] at h
                  obtain ⟨⟨⟨args, closed⟩, r⟩, ha, h⟩ := bind_eq_ok.mp h
                  have := length_callOpening hc
                  have := left_of_plain ha
                  have hopens := (suffix_of_callOpening? hc).trans hname
                  have hr := (suffix_of_arguments ha).trans hopens
                  have hcall := hreceiver.call ((chains_of_arguments ha).mono hopens)
                    (receiver.span.merge closed) name typeArgs
                  obtain ⟨hle, hparts⟩ := chains_of_chain hr hlimit' hle hcall h
                  refine ⟨?_, hparts⟩
                  simp only [Expr.hops] at hle
                  omega
termination_by (ts.length, 0)

theorem chains_of_arguments {opened closed : Span} {ts rest : List Token} {es : List Expr}
    (h : plain (arguments stop maxHops opened ts) = .ok ((es, closed), rest)) :
    Chains stop maxHops ts (allParts es) := by
  rw [plain_arguments] at h
  cases hp : front? (Token.Kind.mark? .rightParen) ts with
  | none =>
      simp only [hp] at h
      exact chains_of_someArguments h
  | some found =>
      simp only [hp] at h
      obtain ⟨hes, -⟩ := Prod.mk.inj (Except.ok.inj h)
      obtain ⟨rfl, -⟩ := Prod.mk.inj hes
      exact fun x hx => absurd hx List.not_mem_nil
termination_by (ts.length, 7)

theorem chains_of_someArguments {opened closed : Span} {ts rest : List Token} {es : List Expr}
    (h : plain (someArguments stop maxHops opened ts) = .ok ((es, closed), rest)) :
    Chains stop maxHops ts (allParts es) := by
  rw [plain_someArguments] at h
  obtain ⟨⟨arg, r⟩, ha, h⟩ := bind_eq_ok.mp h
  have := left_of_plain ha
  have harg := (chains_of_assignment ha).2
  cases hc : front? (Token.Kind.mark? .comma) r with
  | some found =>
      obtain ⟨_, _, afterComma⟩ := found
      simp only [hc] at h
      obtain ⟨⟨⟨args, closed'⟩, r'⟩, hs, h⟩ := bind_eq_ok.mp h
      obtain ⟨hes, -⟩ := Prod.mk.inj (Except.ok.inj h)
      obtain ⟨rfl, -⟩ := Prod.mk.inj hes
      have := length_front hc
      have hsuffix := (suffix_of_front? hc).trans (suffix_of_assignment ha)
      exact harg.append ((chains_of_someArguments hs).mono hsuffix)
  | none =>
      simp only [hc] at h
      cases hp : front? (Token.Kind.mark? .rightParen) r with
      | none => simp [hp] at h
      | some found =>
          simp only [hp] at h
          obtain ⟨hes, -⟩ := Prod.mk.inj (Except.ok.inj h)
          obtain ⟨rfl, -⟩ := Prod.mk.inj hes
          exact harg.append fun x hx => absurd hx List.not_mem_nil
termination_by (ts.length, 6)

theorem chains_of_primary {ts rest : List Token} {e : Expr}
    (h : plain (primary stop maxHops ts) = .ok (e, rest)) :
    e.hops ≤ maxHops * groups ts ∧ Chains stop maxHops ts e.parts := by
  rw [plain_primary] at h
  cases hl : front? Token.Kind.literal? ts with
  | some found =>
      obtain ⟨value, span, afterLiteral⟩ := found
      simp only [hl] at h
      obtain ⟨rfl, rfl⟩ := Prod.mk.inj (Except.ok.inj h)
      exact ⟨by simp [hops], Chains.cons rfl fun x hx => absurd hx List.not_mem_nil⟩
  | none =>
      simp only [hl] at h
      cases hi : front? Token.Kind.ident? ts with
      | some found =>
          obtain ⟨name, span, afterName⟩ := found
          simp only [hi] at h
          obtain ⟨rfl, rfl⟩ := Prod.mk.inj (Except.ok.inj h)
          exact ⟨by simp [hops], Chains.cons rfl fun x hx => absurd hx List.not_mem_nil⟩
      | none =>
          simp only [hi] at h
          cases ho : front? (Token.Kind.mark? .leftParen) ts with
          | none => simp [ho] at h
          | some found =>
              obtain ⟨_, opened, afterParen⟩ := found
              simp only [ho] at h
              obtain ⟨⟨inner, r⟩, hg, h⟩ := bind_eq_ok.mp h
              have := length_front ho
              obtain ⟨hhops, hinner⟩ := chains_of_assignment hg
              cases hp : front? (Token.Kind.mark? .rightParen) r with
              | none => simp [hp] at h
              | some found =>
                  obtain ⟨_, closed, afterGroup⟩ := found
                  simp only [hp] at h
                  obtain ⟨rfl, rfl⟩ := Prod.mk.inj (Except.ok.inj h)
                  refine ⟨?_, hinner.mono (suffix_of_front? ho)⟩
                  obtain ⟨opening, rfl, hopening, -⟩ := front?_mark_eq_some.mp ho
                  rw [groups_cons hopening]
                  exact hhops
termination_by (ts.length, 0)

end

end

end Parse

end Formula.Expr
