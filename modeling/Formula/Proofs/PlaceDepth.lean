import Formula.Proofs.ComputedOwner
import Formula.Proofs.ReceiverChains
import Formula.Proofs.RoundTrip

/-!
How deep the places of a program are. A place is followed member by member, whether it is read or
written to, and it is no longer than a chain of the formula.
-/

namespace Formula

/-- No place is longer than the longest of the chains. -/
def Place.Within (places : List Place) (chains : List Expr) : Prop :=
  ∀ place ∈ places, ∃ x ∈ chains, place.hops ≤ x.hops

namespace Place

variable {places places' : List Place} {xs ys : List Expr}

theorem Within.mono (h : Within places xs) (hsub : xs ⊆ ys) : Within places ys := by
  intro place hplace
  obtain ⟨x, hx, hle⟩ := h place hplace
  exact ⟨x, hsub hx, hle⟩

theorem Within.append (h : Within places xs) (h' : Within places' ys) :
    Within (places ++ places') (xs ++ ys) :=
  List.forall_mem_append.mpr
    ⟨h.mono (List.subset_append_left xs ys), h'.mono (List.subset_append_right xs ys)⟩

theorem within_nil (xs : List Expr) : Within [] xs := fun _ h => absurd h List.not_mem_nil

theorem Within.cons {x : Expr} (h : Within places xs) : Within places (x :: xs) :=
  h.mono (List.subset_cons_self x xs)

end Place

theorem Expr.mem_parts_self (e : Expr) : e ∈ e.parts := by cases e <;> simp [parts]

@[simp]
theorem Program.targets_append (p q : Program) : targets (p ++ q) = targets p ++ targets q := by
  induction p with
  | nil => rfl
  | cons i is ih => rw [List.cons_append, targets, targets, ih, List.append_assoc]

section

variable {scope : Scope}

mutual

theorem Program.within_of_ofExpr {e : Expr} {p : Program} (h : Program.ofExpr scope e = .ok p) :
    Place.Within (Program.targets p) e.parts := by
  cases e with
  | literal s value =>
      rw [Program.ofExpr] at h
      obtain rfl := Except.ok.inj h
      exact Place.within_nil _
  | ident s name =>
      rw [Program.ofExpr, Scope.variableOr] at h
      split at h
      · obtain rfl := Except.ok.inj h
        exact Place.within_nil _
      · cases h
  | binary s op left right =>
      rw [Program.ofExpr] at h
      obtain ⟨l, hl, h⟩ := bind_eq_ok.mp h
      obtain ⟨r, hr, h⟩ := bind_eq_ok.mp h
      obtain rfl := Except.ok.inj h
      simpa [Program.targets, Instr.targets, Expr.parts] using
        ((Program.within_of_ofExpr hl).append (Program.within_of_ofExpr hr)).cons
  | assign s target value =>
      rw [Program.ofExpr] at h
      obtain ⟨place, hp, h⟩ := bind_eq_ok.mp h
      obtain ⟨v, hv, h⟩ := bind_eq_ok.mp h
      obtain rfl := Except.ok.inj h
      obtain ⟨hle, htargets⟩ := Place.within_of_ofTarget hp
      have hplace : Place.Within (place :: place.targets) target.parts :=
        List.forall_mem_cons.mpr ⟨⟨target, target.mem_parts_self, hle⟩, htargets⟩
      simpa [Program.targets, Instr.targets, Expr.parts] using
        (hplace.append (Program.within_of_ofExpr hv)).cons
  | ternary s cond yes no =>
      rw [Program.ofExpr] at h
      obtain ⟨c, hc, h⟩ := bind_eq_ok.mp h
      obtain ⟨y, hy, h⟩ := bind_eq_ok.mp h
      obtain ⟨n, hn, h⟩ := bind_eq_ok.mp h
      obtain rfl := Except.ok.inj h
      simpa [Program.targets, Instr.targets, Expr.parts] using
        ((Program.within_of_ofExpr hc).append
          ((Program.within_of_ofExpr hy).append (Program.within_of_ofExpr hn))).cons
  | member s receiver name =>
      rw [Program.ofExpr] at h
      obtain ⟨r, hr, h⟩ := bind_eq_ok.mp h
      obtain rfl := Except.ok.inj h
      simpa [Program.targets, Instr.targets, Expr.parts] using (Program.within_of_ofReceiver hr).cons
  | call s receiver method typeArgs args =>
      rw [Program.ofExpr] at h
      obtain ⟨r, hr, h⟩ := bind_eq_ok.mp h
      obtain ⟨tags, -, h⟩ := bind_eq_ok.mp h
      obtain ⟨as, has, h⟩ := bind_eq_ok.mp h
      obtain rfl := Except.ok.inj h
      simpa [Program.targets, Instr.targets, Expr.parts] using
        ((Program.within_of_ofReceiver hr).append (Program.within_of_ofArguments has)).cons
termination_by (sizeOf e, 0)

theorem Program.within_of_ofReceiver {e : Expr} {p : Program}
    (h : Program.ofReceiver scope e = .ok p) : Place.Within (Program.targets p) e.parts := by
  rw [Program.ofReceiver] at h
  split at h
  · obtain ⟨tag, -, h⟩ := bind_eq_ok.mp h
    obtain rfl := Except.ok.inj h
    exact Place.within_nil _
  · exact Program.within_of_ofExpr h
termination_by (sizeOf e, 1)

theorem Program.within_of_ofArguments {es : List Expr} {ps : List Program}
    (h : Program.ofArguments scope es = .ok ps) :
    Place.Within (Program.allTargets ps) (Expr.allParts es) := by
  cases es with
  | nil =>
      rw [Program.ofArguments] at h
      obtain rfl := Except.ok.inj h
      exact Place.within_nil _
  | cons e es =>
      rw [Program.ofArguments] at h
      obtain ⟨p, hp, h⟩ := bind_eq_ok.mp h
      obtain ⟨ps, hps, h⟩ := bind_eq_ok.mp h
      obtain rfl := Except.ok.inj h
      exact (Program.within_of_ofExpr hp).append (Program.within_of_ofArguments hps)
termination_by (sizeOf es, 0)

theorem Place.within_of_ofTarget {e : Expr} {place : Place}
    (h : Place.ofTarget scope e = .ok place) :
    place.hops ≤ e.hops ∧ Place.Within place.targets e.parts := by
  cases e with
  | ident s name =>
      rw [Place.ofTarget, Scope.variableOr] at h
      split at h
      · obtain rfl := Except.ok.inj h
        exact ⟨Nat.le_refl _, Place.within_nil _⟩
      · cases h
  | member s receiver name =>
      rw [Place.ofTarget] at h
      obtain ⟨owner, ho, h⟩ := bind_eq_ok.mp h
      obtain rfl := Except.ok.inj h
      obtain ⟨hle, htargets⟩ := Place.within_of_ofOwner ho
      exact ⟨Nat.succ_le_succ hle, htargets.cons⟩
  | literal | binary | assign | ternary | call => simp [Place.ofTarget] at h
termination_by (sizeOf e, 0)

theorem Place.within_of_ofOwner {e : Expr} {place : Place}
    (h : Place.ofOwner scope e = .ok place) :
    place.hops ≤ e.hops ∧ Place.Within place.targets e.parts := by
  rw [Place.ofOwner] at h
  split at h
  · obtain ⟨tag, -, h⟩ := bind_eq_ok.mp h
    obtain rfl := Except.ok.inj h
    exact ⟨Nat.zero_le _, Place.within_nil _⟩
  · split at h
    · exact Place.within_of_ofTarget h
    · obtain ⟨p, hp, h⟩ := bind_eq_ok.mp h
      obtain rfl := Except.ok.inj h
      exact ⟨Nat.zero_le _, Program.within_of_ofExpr hp⟩
termination_by (sizeOf e, 1)

end

end

namespace Task

variable {H : Host} {r : Registry H} {t t' : Task} {past : List Task} {w w' : World H}

/-- The place that a task follows, member by member. -/
def followed? : Task → Option Place
  | read place | writeBack place _ => some place
  | step _ _ | run _ _ | runAll _ | assign _ _ => none

/-- A place is followed from its outermost member on, or else from the owner of what is written to. -/
theorem Calls.hops_lt (h : t.Calls r w past t' w') {place : Place} (hplace : place ∈ t'.followed?) :
    (∃ outer ∈ t.followed?, place.hops < outer.hops) ∨ ∃ target ∈ t.targets, place.hops < target.hops := by
  cases h with
  | readOwner | readAgain | writeOwner =>
      obtain rfl := Option.some.inj hplace
      exact .inl ⟨_, rfl, Nat.lt_succ_self _⟩
  | assignOwner | updateOwner =>
      obtain rfl := Option.some.inj hplace
      exact .inr ⟨_, List.mem_cons_self .., Nat.lt_succ_self _⟩
  | head | tail | arguments | condition | yes | no | value | store | argument | nextArguments
  | compute => cases hplace

theorem Occurs.hops_lt (h : t.Occurs r w t' w') {place : Place} (hplace : place ∈ t'.followed?) :
    (∃ outer ∈ t.followed?, place.hops ≤ outer.hops) ∨ ∃ target ∈ t.targets, place.hops < target.hops := by
  induction h with
  | here => exact .inl ⟨place, hplace, Nat.le_refl _⟩
  | call hcall _ _ ih =>
      obtain ⟨outer, houter, hle⟩ | ⟨target, htarget, hlt⟩ := ih hplace
      · obtain ⟨outer', houter', hlt⟩ | ⟨target, htarget, hlt⟩ := hcall.hops_lt houter
        · exact .inl ⟨outer', houter', Nat.le_trans hle (Nat.le_of_lt hlt)⟩
        · exact .inr ⟨target, htarget, Nat.lt_of_le_of_lt hle hlt⟩
      · exact .inr ⟨target, hcall.targets_subset htarget, hlt⟩

end Task

namespace Expr

open Parse

/-- Between groups no chain exceeds the limit, and each group in front of a chain lets it grow by as much
again. No place that is read or written to is as long as the longest chain. -/
theorem chains_of_ofTokens {maxHops : Nat} {ts : TokenList} {e : Expr}
    (h : ofTokens maxHops ts = .ok e) :
    (∀ x ∈ e.parts, 0 < x.hops → ∃ us e' rest, us <:+ ts.tokens ∧
      plain (postfixed ts.stop maxHops us) = .ok (e', rest) ∧ x ∈ e'.spine ∧
        x.hops ≤ maxHops * (groups us + 1)) ∧
      ∀ scope p, Program.ofExpr scope e = .ok p →
        ∀ {H : Host} (r : Registry H) (w : World H) (t : Task) (w' : World H),
          (Task.run [] p).Occurs r w t w' → ∀ place ∈ t.followed?, ∃ x ∈ e.parts, place.hops < x.hops := by
  refine ⟨fun x hx hpos => ?_, fun scope p hp H r w t w' hoccurs place hplace => ?_⟩
  · obtain ⟨us, e', rest, hus, he', hspine⟩ := (chains_of_assignment (ofTokens_eq_ok_iff.mp h)).2 x hx hpos
    have hle := Nat.le_trans (hops_le_of_mem_spine hspine) (chains_of_postfixed he').1
    exact ⟨us, e', rest, hus, he', hspine, hle⟩
  · obtain ⟨outer, houter, -⟩ | ⟨target, htarget, hlt⟩ := hoccurs.hops_lt hplace
    · cases houter
    · obtain ⟨x, hx, hle⟩ := Program.within_of_ofExpr hp target htarget
      exact ⟨x, hx, Nat.lt_of_lt_of_le hlt hle⟩

/-- `((a.b).c).d = 1`. -/
def groupedTokens : List Token :=
  [.mark .leftParen, .mark .leftParen, .ident "a", .mark .dot, .ident "b", .mark .rightParen, .mark .dot,
    .ident "c", .mark .rightParen, .mark .dot, .ident "d", .op .assign, .int 1].map .ofKind

def groupedTree : Expr :=
  .assign default
    (.member default (.member default (.member default (.ident default "a") "b") "c") "d")
    (.literal default (.int 1))

theorem chains_of_ofTokens_grouped :
    ofTokens 1 ⟨groupedTokens, 0⟩ = .ok groupedTree ∧
      (∀ x ∈ groupedTree.parts, 0 < x.hops → ∃ us e' rest, us <:+ groupedTokens ∧
        plain (postfixed 0 1 us) = .ok (e', rest) ∧ x ∈ e'.spine ∧ x.hops ≤ 1 * (groups us + 1)) ∧
      ∀ scope p, Program.ofExpr scope groupedTree = .ok p →
        ∀ {H : Host} (r : Registry H) (w : World H) (t : Task) (w' : World H),
          (Task.run [] p).Occurs r w t w' →
            ∀ place ∈ t.followed?, ∃ x ∈ groupedTree.parts, place.hops < x.hops := by
  have h : ofTokens 1 ⟨groupedTokens, 0⟩ = .ok groupedTree := by cbv
  exact ⟨h, chains_of_ofTokens h⟩

/-- The same chain is accepted with its beginning in parentheses and rejected without them. -/
theorem ofSource_grouped_chain :
    Expr.ofSource 1 "(a.b).c" ⟨0, 7⟩ =
        .ok (.member ⟨1, 7⟩ (.member ⟨1, 4⟩ (.ident ⟨1, 2⟩ "a") "b") "c") ∧
      (Expr.member ⟨1, 7⟩ (.member ⟨1, 4⟩ (.ident ⟨1, 2⟩ "a") "b") "c").hops = 2 ∧
      ofTokens 1 ⟨[.ident "a", .mark .dot, .ident "b", .mark .dot, .ident "c"].map .ofKind, 0⟩ =
        .error ⟨default, .chainTooLong 1⟩ :=
  ⟨by cbv, rfl, by cbv⟩

/-- `.m` as often as is said. -/
def dots : Nat → List Token
  | 0 => []
  | n + 1 => .ofKind (.mark .dot) :: .ofKind (.ident "m") :: dots n

theorem groups_append {closing : Token} (hclosing : closing.kind = .mark .rightParen)
    (ts us : List Token) : groups (ts ++ closing :: us) = groups ts := by
  induction ts with
  | nil => simp [groups, hclosing]
  | cons t ts ih => simp only [List.cons_append, groups, ih]

theorem callOpening?_dots (n : Nat) : callOpening? (dots n) = none := by
  cases n with
  | zero => rfl
  | succ n => exact callOpening?_dot rfl _

theorem chain_dots (stop : Nat) {maxHops n count : Nat} (hle : count + n ≤ maxHops) (receiver : Expr) :
    ∃ e, plain (chain stop maxHops ⟨maxHops, count⟩ receiver (dots n)) = .ok (e, []) ∧
      e.hops = receiver.hops + n := by
  induction n generalizing count receiver with
  | zero => exact ⟨receiver, plain_chain_of_not_dot _ _ rfl, rfl⟩
  | succ n ih =>
      have hle' : count + 1 + n ≤ maxHops := by omega
      obtain ⟨e, he, hhops⟩ := ih hle' (.member (receiver.span.merge default) receiver "m")
      refine ⟨e, ?_, ?_⟩
      · rw [dots, plain_chain_member rfl rfl (by omega) _ (callOpening?_dots n)]
        exact he
      · rw [hhops, hops]
        omega

theorem exists_unary_hops (maxHops k : Nat) :
    ∃ ts e, groups ts = k ∧ plain (unary 0 maxHops ts) = .ok (e, []) ∧ e.hops = maxHops * (k + 1) := by
  induction k with
  | zero =>
      obtain ⟨e, he, hhops⟩ := chain_dots 0 (Nat.le_of_eq (Nat.zero_add maxHops)) (.ident default "x")
      refine ⟨.ofKind (.ident "x") :: dots maxHops, e, rfl, ?_, ?_⟩
      · rw [plain_unary_of_not_sign rfl, plain_postfixed, primary_of_ident rfl]
        exact he
      · rw [hhops, Nat.zero_add, Nat.mul_one]
        exact Nat.zero_add maxHops
  | succ k ih =>
      obtain ⟨ts, inner, hgroups, hinner, hhops⟩ := ih
      obtain ⟨e, he, hhops'⟩ := chain_dots 0 (Nat.le_of_eq (Nat.zero_add maxHops)) inner
      have hends : EndsAssignment (.ofKind (.mark .rightParen) :: dots maxHops) :=
        endsAssignment_mark rfl (.inl rfl) _
      have hinner' : plain (unary 0 maxHops (ts ++ .ofKind (.mark .rightParen) :: dots maxHops)) =
          .ok (inner, .ofKind (.mark .rightParen) :: dots maxHops) :=
        unary_append hends.toEndsUnary hinner fun _ => rfl
      refine ⟨.ofKind (.mark .leftParen) :: (ts ++ .ofKind (.mark .rightParen) :: dots maxHops), e,
        ?_, ?_, ?_⟩
      · rw [groups_cons rfl, groups_append rfl, hgroups]
      · rw [plain_unary_of_not_sign rfl, plain_postfixed,
          primary_of_group rfl rfl (assignment_of_unary hinner' hends)]
        exact he
      · rw [hhops', hhops, ← Nat.mul_succ]

/-- The bound is met: with any number of groups, whatever the limit is. -/
theorem exists_hops_eq (maxHops k : Nat) :
    ∃ ts e, ofTokens maxHops ⟨ts, 0⟩ = .ok e ∧ groups ts = k ∧ e.hops = maxHops * (k + 1) := by
  obtain ⟨ts, e, hgroups, hunary, hhops⟩ := exists_unary_hops maxHops k
  exact ⟨ts, e, ofTokens_eq_ok_iff.mpr (assignment_of_unary hunary endsAssignment_nil), hgroups, hhops⟩

end Expr

end Formula
