import Formula.Proofs.Isolation
import Formula.Proofs.Makeup
import Formula.Proofs.Vocabulary

/-!
Where the nodes of a tree are: between characters of their statement, each around its children, and none
of them begins in front of a gap.
-/

namespace Formula

/-- Between two characters of the text, or at one of its ends. -/
def Text.IsBoundary (cs : List Char) (n : Nat) : Prop := ∃ a b, cs = a ++ b ∧ n = bytes a

namespace Span

def Inside (s t : Span) : Prop := t.start ≤ s.start ∧ s.stop ≤ t.stop

/-- From one place in the text `body` behind `before` to another. What follows the first place is no
gap. -/
structure Stands (before body : List Char) (s : Span) : Prop where
  start : ∃ a b, body = a ++ b ∧ s.start = Text.bytes before + Text.bytes a ∧
    ∀ c, b.head? = some c → Token.isGap c = false
  stop : ∃ a b, body = a ++ b ∧ s.stop = Text.bytes before + Text.bytes a
  le : s.start ≤ s.stop

variable {before body : List Char}

theorem mergeClosed_stands : MergeClosed (Stands before body) := by
  intro s t hs ht
  refine ⟨?_, ?_, ?_⟩
  · rcases Nat.le_total s.start t.start with h | h
    · simpa only [merge, Nat.min_eq_left h] using hs.start
    · simpa only [merge, Nat.min_eq_right h] using ht.start
  · rcases Nat.le_total s.stop t.stop with h | h
    · simpa only [merge, Nat.max_eq_right h] using ht.stop
    · simpa only [merge, Nat.max_eq_left h] using hs.stop
  · have hs' := hs.le
    simp only [merge]
    omega

/-- The end of a statement is a place in it. -/
theorem stands_point (before body : List Char) :
    Stands before body (.point (Text.bytes before + Text.bytes body)) :=
  ⟨⟨body, [], by simp, rfl, by simp⟩, ⟨body, [], by simp, rfl⟩, Nat.le_refl _⟩

theorem Stands.inside {s : Span} (h : Stands before body s) : s.Inside (behind before body) := by
  obtain ⟨a, b, -, hstart, -⟩ := h.start
  obtain ⟨a', b', rfl, hstop⟩ := h.stop
  simp only [Inside, behind, Text.bytes_append]
  omega

theorem Stands.isBoundary {source : String} {s : Span} (h : Stands before body s)
    (hbody : before ++ body <+: source.toList) :
    Text.IsBoundary source.toList s.start ∧ Text.IsBoundary source.toList s.stop := by
  obtain ⟨after, hafter⟩ := hbody
  obtain ⟨a, b, hab, hstart, -⟩ := h.start
  obtain ⟨a', b', hab', hstop⟩ := h.stop
  constructor
  · exact ⟨before ++ a, b ++ after, by simp [← hafter, hab], by rw [hstart, Text.bytes_append]⟩
  · exact ⟨before ++ a', b' ++ after, by simp [← hafter, hab'], by rw [hstop, Text.bytes_append]⟩

end Span

namespace Token

/-- Each token ends before the next one begins. -/
def Ordered (ts : List Token) : Prop := ts.Pairwise fun t u => t.span.stop ≤ u.span.start

/-- The tokens that begin at or behind `pos` stand in a text in order, or the error of scanning it
does. -/
def Placed (before body : List Char) (pos : Nat) : Except ScanError (List Token) → Prop
  | .ok ts => (∀ t ∈ ts, t.span.Stands before body ∧ pos ≤ t.span.start) ∧ Ordered ts
  | .error e => e.span.Stands before body

theorem stands_taken {before front cs : List Char} {c : Char} {pos : Nat}
    (hpos : pos = Text.bytes before + Text.bytes front) (hc : isGap c = false) (n : Nat) :
    Span.Stands before (front ++ c :: cs) ⟨pos, pos + Text.bytes ((c :: cs).take n)⟩ where
  start := ⟨front, c :: cs, rfl, hpos, by simpa using hc⟩
  stop := ⟨front ++ (c :: cs).take n, (c :: cs).drop n, by rw [List.append_assoc, List.take_append_drop],
    by rw [hpos, Text.bytes_append, Nat.add_assoc]⟩
  le := Nat.le_add_right ..

theorem placed_scanFrom {before cs : List Char} {pos : Nat} (front : List Char)
    (hpos : pos = Text.bytes before + Text.bytes front) :
    Placed before (front ++ cs) pos (scanFrom pos cs) := by
  fun_induction scanFrom pos cs generalizing front with
  | case1 => exact ⟨by simp, .nil⟩
  | case2 pos c cs hgap ih =>
      have h := ih (front ++ [c]) (by simp [hpos, Nat.add_assoc])
      rw [List.append_assoc, List.singleton_append] at h
      cases hr : scanFrom (pos + c.utf8Size) cs with
      | error e => rwa [hr] at h
      | ok ts =>
          rw [hr] at h
          exact ⟨fun t ht => (h.1 t ht).imp_right fun hle => by omega, h.2⟩
  | case3 pos c cs hgap => exact stands_taken hpos (by simpa using hgap) _
  | case4 pos c cs hgap taken stop kind hkind e he =>
      rename_i ih
      have h := ih (front ++ taken) (by simp [stop, hpos, Nat.add_assoc])
      rw [he, List.append_assoc, List.take_append_drop] at h
      exact h
  | case5 pos c cs hgap taken stop kind hkind ts hts =>
      rename_i ih
      have h := ih (front ++ taken) (by simp [stop, hpos, Nat.add_assoc])
      rw [hts, List.append_assoc, List.take_append_drop] at h
      have hfirst : Span.Stands before (front ++ c :: cs) ⟨pos, stop⟩ :=
        stands_taken hpos (by simpa using hgap) _
      have hle : pos ≤ stop := hfirst.le
      refine ⟨List.forall_mem_cons.mpr ⟨⟨hfirst, Nat.le_refl _⟩, fun t ht => ?_⟩, ?_⟩
      · exact (h.1 t ht).imp_right fun h => by omega
      · exact List.pairwise_cons.mpr ⟨fun t ht => (h.1 t ht).2, h.2⟩

end Token

namespace Expr

mutual

/-- Each node contains the places of its children. -/
def Nested : Expr → Prop
  | literal _ _ | ident _ _ => True
  | binary s _ left right => (left.span.Inside s ∧ left.Nested) ∧ right.span.Inside s ∧ right.Nested
  | assign s target value => (target.span.Inside s ∧ target.Nested) ∧ value.span.Inside s ∧ value.Nested
  | ternary s cond yes no =>
    (cond.span.Inside s ∧ cond.Nested) ∧ (yes.span.Inside s ∧ yes.Nested) ∧ no.span.Inside s ∧ no.Nested
  | member s receiver _ => receiver.span.Inside s ∧ receiver.Nested
  | call s receiver _ typeArgs args =>
    (receiver.span.Inside s ∧ receiver.Nested) ∧ (∀ a ∈ typeArgs, a.span.Inside s) ∧ AllNested s args

/-- The same of arguments in a call with the place `s`. -/
def AllNested (s : Span) : List Expr → Prop
  | [] => True
  | e :: es => (e.span.Inside s ∧ e.Nested) ∧ AllNested s es

end

/-- The arguments of a call are nested in whatever they begin in and their closing parenthesis is in. -/
def Phrase.Nested (ts : List Token) : Phrase → Prop
  | expr e => e.Nested
  | arguments es closed =>
    ∀ s : Span, (∀ t ∈ ts, s.start ≤ t.span.start) → closed.stop ≤ s.stop → AllNested s es

theorem inside_merge_left (s t : Span) : s.Inside (s.merge t) := by
  simp only [Span.Inside, Span.merge]
  omega

theorem inside_merge_right (s t : Span) : t.Inside (s.merge t) := by
  simp only [Span.Inside, Span.merge]
  omega

theorem inside_merge_of_between {s t u : Span} (hst : s.stop ≤ t.start) (htu : t.stop ≤ u.start)
    (hs : s.start ≤ s.stop) (hu : u.start ≤ u.stop) : t.Inside (s.merge u) := by
  simp only [Span.Inside, Span.merge]
  omega

theorem Nested.ofUnary {operand : Expr} (h : operand.Nested) (op : Operator) (s : Span) :
    (ofUnary op s operand).Nested := by
  have hleft := inside_merge_left s operand.span
  have hright := inside_merge_right s operand.span
  rw [Expr.ofUnary.eq_def]
  split
  · exact ⟨⟨hleft, trivial⟩, hright, h⟩
  · exact ⟨⟨hright, h⟩, hleft, trivial⟩
  · exact ⟨⟨hright, h⟩, hleft, trivial⟩

theorem Nested.ofAssignment {target value : Expr} (ht : target.Nested) (hv : value.Nested)
    (op : Operator) : (ofAssignment op target value).Nested := by
  have hleft := inside_merge_left target.span value.span
  have hright := inside_merge_right target.span value.span
  rw [Expr.ofAssignment]
  split
  · exact ⟨⟨hleft, ht⟩, ⟨Nat.le_refl _, Nat.le_refl _⟩, ⟨hleft, ht⟩, hright, hv⟩
  · exact ⟨⟨hleft, ht⟩, hright, hv⟩

namespace Makes

variable {ts us : List Token} {p q : Phrase}

theorem le_start {n : Nat} (h : Makes ts p) (hts : ∀ t ∈ ts, n ≤ t.span.start) :
    ∀ s ∈ p.spans, n ≤ s.start :=
  h.forall_spans (fun _ _ hs ht => Nat.le_min.mpr ⟨hs, ht⟩) hts

theorem stop_le {n : Nat} (h : Makes ts p) (hts : ∀ t ∈ ts, t.span.stop ≤ n) :
    ∀ s ∈ p.spans, s.stop ≤ n :=
  h.forall_spans (fun _ _ hs ht => Nat.max_le.mpr ⟨hs, ht⟩) hts

theorem start_le_stop (h : Makes ts p) (hts : ∀ t ∈ ts, t.span.start ≤ t.span.stop) :
    ∀ s ∈ p.spans, s.start ≤ s.stop := by
  refine h.forall_spans (fun s t hs ht => ?_) hts
  simp only [Span.merge]
  omega

/-- The places in one phrase are in front of those in another one if its tokens are. -/
theorem stop_le_start (hp : Makes ts p) (hq : Makes us q)
    (h : ∀ t ∈ ts, ∀ u ∈ us, t.span.stop ≤ u.span.start) :
    ∀ s ∈ p.spans, ∀ s' ∈ q.spans, s.stop ≤ s'.start :=
  fun s hs => hq.le_start fun u hu => hp.stop_le (fun t ht => h t ht u hu) s hs

/-- What ordered tokens make up is nested. -/
theorem nested (h : Makes ts p) (hordered : Token.Ordered ts)
    (hts : ∀ t ∈ ts, t.span.start ≤ t.span.stop) : p.Nested ts := by
  induction h with
  | literal | ident => trivial
  | group _ ih =>
      simp only [Token.Ordered, List.pairwise_cons, List.pairwise_append] at hordered
      exact ih hordered.2.1 fun t ht => hts t (by simp [ht])
  | member _ _ _ ih =>
      have hreceiver := ih (List.pairwise_append.mp hordered).1 fun t ht => hts t (by simp [ht])
      exact ⟨inside_merge_left _ _, hreceiver⟩
  | @call dot t ts os us receiver method typeArgs args closed _ _ hreceiver htypes hargs ih ihargs =>
      simp only [Token.Ordered, List.pairwise_append, List.pairwise_cons, List.mem_append,
        List.mem_cons] at hordered
      obtain ⟨hordered, ⟨-, -, -, horderedArgs, hacross⟩, hcross⟩ := hordered
      have hle := hreceiver.start_le_stop (fun t ht => hts t (by simp [ht])) _ receiver.span_mem_spans
      have hbefore : ∀ u, u ∈ os ∨ u ∈ us → receiver.span.stop ≤ u.span.start := fun u hu =>
        hreceiver.stop_le (fun t ht => hcross t ht u (.inr (.inr hu))) _ receiver.span_mem_spans
      have hclosed := hargs.start_le_stop (fun u hu => hts u (by simp [hu])) closed
        (List.mem_cons_self ..)
      refine ⟨⟨inside_merge_left _ _, ih hordered fun t ht => hts t (by simp [ht])⟩, ?_, ?_⟩
      · intro a ha
        obtain ⟨u, hu, -, heq⟩ := htypes a ha
        have hbehind := hargs.le_start (fun v hv => hacross u hu v hv) closed (List.mem_cons_self ..)
        exact heq ▸ inside_merge_of_between (hbefore u (.inl hu)) hbehind hle hclosed
      · refine ihargs horderedArgs (fun u hu => hts u (by simp [hu])) _ (fun u hu => ?_)
          (Nat.le_max_right ..)
        exact (Nat.min_le_left ..).trans (hle.trans (hbefore u (.inr hu)))
  | unary _ _ _ ih =>
      have hoperand := ih (List.pairwise_cons.mp hordered).2 fun t ht => hts t (by simp [ht])
      exact hoperand.ofUnary _ _
  | binary _ _ _ ihl ihr =>
      simp only [Token.Ordered, List.pairwise_append, List.pairwise_cons] at hordered
      have hleft := ihl hordered.1 fun t ht => hts t (by simp [ht])
      have hright := ihr hordered.2.1.2 fun t ht => hts t (by simp [ht])
      exact ⟨⟨inside_merge_left _ _, hleft⟩, inside_merge_right _ _, hright⟩
  | @ternary question colon ts us vs cond yes no _ hcond hyes hno ihc ihy ihn =>
      simp only [Token.Ordered, List.pairwise_append, List.pairwise_cons, List.mem_append,
        List.mem_cons] at hordered
      obtain ⟨horderedCond, ⟨-, horderedYes, ⟨-, horderedNo⟩, hacross⟩, hcross⟩ := hordered
      have hbefore := hcond.stop_le_start hyes (fun t ht u hu => hcross t ht u (.inr (.inl hu)))
        _ cond.span_mem_spans _ yes.span_mem_spans
      have hbehind := hyes.stop_le_start hno (fun t ht u hu => hacross t ht u (.inr hu))
        _ yes.span_mem_spans _ no.span_mem_spans
      have hcondLe := hcond.start_le_stop (fun t ht => hts t (by simp [ht])) _ cond.span_mem_spans
      have hnoLe := hno.start_le_stop (fun t ht => hts t (by simp [ht])) _ no.span_mem_spans
      exact ⟨⟨inside_merge_left _ _, ihc horderedCond fun t ht => hts t (by simp [ht])⟩,
        ⟨inside_merge_of_between hbefore hbehind hcondLe hnoLe,
          ihy horderedYes fun t ht => hts t (by simp [ht])⟩,
        inside_merge_right _ _, ihn horderedNo fun t ht => hts t (by simp [ht])⟩
  | assignment _ _ _ _ iht ihv =>
      simp only [Token.Ordered, List.pairwise_append, List.pairwise_cons] at hordered
      have htarget := iht hordered.1 fun t ht => hts t (by simp [ht])
      have hvalue := ihv hordered.2.1.2 fun t ht => hts t (by simp [ht])
      exact htarget.ofAssignment hvalue _
  | noArguments => exact fun _ _ _ => trivial
  | @lastArgument closing ts e he ih =>
      simp only [Token.Ordered, List.pairwise_append, List.mem_singleton] at hordered
      intro s hstart hstop
      have hbefore := he.stop_le (fun t ht => hordered.2.2 t ht closing rfl) _ e.span_mem_spans
      have hclosing := hts closing (by simp)
      refine ⟨⟨⟨?_, by omega⟩, ih hordered.1 fun t ht => hts t (by simp [ht])⟩, trivial⟩
      exact he.le_start (fun t ht => hstart t (by simp [ht])) _ e.span_mem_spans
  | @argument comma ts us e es closed he hes ih ihs =>
      simp only [Token.Ordered, List.pairwise_append, List.pairwise_cons, List.mem_cons] at hordered
      obtain ⟨hordered, ⟨-, horderedArgs⟩, hcross⟩ := hordered
      intro s hstart hstop
      have hbefore := he.stop_le_start hes (fun t ht u hu => hcross t ht u (.inr hu))
        _ e.span_mem_spans closed (List.mem_cons_self ..)
      have hclosed := hes.start_le_stop (fun u hu => hts u (by simp [hu])) closed
        (List.mem_cons_self ..)
      refine ⟨⟨⟨?_, by omega⟩, ih hordered fun t ht => hts t (by simp [ht])⟩, ?_⟩
      · exact he.le_start (fun t ht => hstart t (by simp [ht])) _ e.span_mem_spans
      · exact ihs horderedArgs (fun u hu => hts u (by simp [hu])) s
          (fun u hu => hstart u (by simp [hu])) hstop

end Makes

end Expr

section

variable {maxHops : Nat} {source : String} {before body : List Char}
  (hbody : before ++ body <+: source.toList)

include hbody

theorem TokenList.placed_of_scan {ts : TokenList}
    (h : TokenList.scan source (.behind before body) = .ok ts) :
    (∀ t ∈ ts.tokens, t.span.Stands before body) ∧ Token.Ordered ts.tokens ∧
      Expr.Parse.Region (Span.Stands before body) ts.stop := by
  have hplaced : Token.Placed before body _ (Token.scanFrom (Text.bytes before) body) :=
    Token.placed_scanFrom [] rfl
  rw [TokenList.scan_behind hbody] at h
  cases htokens : Token.scanFrom (Text.bytes before) body with
  | error e => simp [htokens, Except.map] at h
  | ok tokens =>
      rw [htokens] at hplaced h
      obtain rfl := Except.ok.inj h
      exact ⟨fun t ht => (hplaced.1 t ht).1, hplaced.2, Span.mergeClosed_stands,
        Span.stands_point before body⟩

/-- The nodes of a parsed statement stand in it, each around its children. -/
theorem Expr.stands_of_ofSource {e : Expr}
    (h : Expr.ofSource maxHops source (.behind before body) = .ok e) :
    (∀ s ∈ e.spans, s.Stands before body) ∧ e.Nested := by
  obtain ⟨ts, hts, hmakes⟩ := makes_of_ofSource h
  obtain ⟨hstands, hordered, -⟩ := TokenList.placed_of_scan hbody hts
  exact ⟨hmakes.forall_spans Span.mergeClosed_stands hstands,
    hmakes.nested hordered fun t ht => (hstands t ht).le⟩

end

end Formula
