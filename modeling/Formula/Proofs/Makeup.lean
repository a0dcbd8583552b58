import Formula.Proofs.Productions

/-!
What the tokens of a statement make up: a tree whose names and places are those of the tokens, or an
error that is about places of theirs.
-/

namespace Formula

/-- What is true of two spans is true of what is from the one to the other. -/
def MergeClosed (P : Span → Prop) : Prop := ∀ s t, P s → P t → P (s.merge t)

namespace Expr

/-- A tree, or the arguments of a call with the place where they end. -/
inductive Phrase where
  | expr (e : Expr)
  | arguments (es : List Expr) (closed : Span)

/-- The type arguments are names among the tokens. -/
def TypesFrom (ts : List Token) (args : List TypeArg) : Prop :=
  ∀ a ∈ args, ∃ t ∈ ts, t.kind = .ident a.name ∧ t.span = a.span

/-- The tokens make up the phrase. Of what stands between its parts, the dots, the operators and the
question marks are told. -/
inductive Makes : List Token → Phrase → Prop
  | literal {t : Token} {value : Literal} :
      t.kind.literal? = some value → Makes [t] (.expr (.literal t.span value))
  | ident {t : Token} {name : String} :
      t.kind = .ident name → Makes [t] (.expr (.ident t.span name))
  | group {opening closing : Token} {ts : List Token} {e : Expr} :
      Makes ts (.expr e) → Makes (opening :: (ts ++ [closing])) (.expr e)
  | member {dot t : Token} {ts : List Token} {receiver : Expr} {name : String} :
      dot.kind = .mark .dot → t.kind = .ident name → Makes ts (.expr receiver) →
      Makes (ts ++ [dot, t]) (.expr (.member (receiver.span.merge t.span) receiver name))
  | call {dot t : Token} {ts os us : List Token} {receiver : Expr} {method : String}
      {typeArgs : List TypeArg} {args : List Expr} {closed : Span} :
      dot.kind = .mark .dot → t.kind = .ident method → Makes ts (.expr receiver) →
      TypesFrom os typeArgs → Makes us (.arguments args closed) →
      Makes (ts ++ dot :: t :: (os ++ us))
        (.expr (.call (receiver.span.merge closed) receiver method typeArgs args))
  | unary {t : Token} {ts : List Token} {op : Operator} {operand : Expr} :
      t.kind = .op op → op = .sub ∨ op = .not ∨ op = .bitNot → Makes ts (.expr operand) →
      Makes (t :: ts) (.expr (ofUnary op t.span operand))
  | binary {t : Token} {ts us : List Token} {op : Operator} {left right : Expr} :
      t.kind = .op op → Makes ts (.expr left) → Makes us (.expr right) →
      Makes (ts ++ t :: us) (.expr (.binary (left.span.merge right.span) op left right))
  | ternary {question colon : Token} {ts us vs : List Token} {cond yes no : Expr} :
      question.kind = .mark .question → Makes ts (.expr cond) → Makes us (.expr yes) →
      Makes vs (.expr no) → Makes (ts ++ question :: (us ++ colon :: vs))
        (.expr (.ternary (cond.span.merge no.span) cond yes no))
  | assignment {t : Token} {ts us : List Token} {op : Operator} {target value : Expr} :
      t.kind = .op op → op.isAssignment = true → Makes ts (.expr target) → Makes us (.expr value) →
      Makes (ts ++ t :: us) (.expr (ofAssignment op target value))
  | noArguments {closing : Token} : Makes [closing] (.arguments [] closing.span)
  | lastArgument {closing : Token} {ts : List Token} {e : Expr} :
      Makes ts (.expr e) → Makes (ts ++ [closing]) (.arguments [e] closing.span)
  | argument {comma : Token} {ts us : List Token} {e : Expr} {es : List Expr} {closed : Span} :
      Makes ts (.expr e) → Makes us (.arguments es closed) →
      Makes (ts ++ comma :: us) (.arguments (e :: es) closed)

mutual

/-- The places of all nodes and type arguments. -/
def spans : Expr → List Span
  | literal s _ | ident s _ => [s]
  | binary s _ left right => s :: (left.spans ++ right.spans)
  | assign s target value => s :: (target.spans ++ value.spans)
  | ternary s cond yes no => s :: (cond.spans ++ (yes.spans ++ no.spans))
  | member s receiver _ => s :: receiver.spans
  | call s receiver _ typeArgs args =>
    s :: (receiver.spans ++ (typeArgs.map (·.span) ++ allSpans args))

def allSpans : List Expr → List Span
  | [] => []
  | e :: es => e.spans ++ allSpans es

end

mutual

/-- The names that stand for variables or types. -/
def names : Expr → List String
  | literal _ _ => []
  | ident _ name => [name]
  | binary _ _ left right => left.names ++ right.names
  | assign _ target value => target.names ++ value.names
  | ternary _ cond yes no => cond.names ++ (yes.names ++ no.names)
  | member _ receiver _ => receiver.names
  | call _ receiver _ typeArgs args => receiver.names ++ (typeArgs.map (·.name) ++ allNames args)

def allNames : List Expr → List String
  | [] => []
  | e :: es => e.names ++ allNames es

end

theorem span_mem_spans (e : Expr) : e.span ∈ e.spans := by
  cases e <;> simp [span, spans]

def Phrase.spans : Phrase → List Span
  | expr e => e.spans
  | arguments es closed => closed :: allSpans es

def Phrase.names : Phrase → List String
  | expr e => e.names
  | arguments es _ => allNames es

theorem forall_mem_spans_ofUnary {P : Span → Prop} (hP : MergeClosed P) (op : Operator) {span : Span}
    {operand : Expr} (hspan : P span) (h : ∀ s ∈ operand.spans, P s) :
    ∀ s ∈ (ofUnary op span operand).spans, P s := by
  have hwhole := hP _ _ hspan (h _ operand.span_mem_spans)
  rw [ofUnary.eq_def]
  split <;> simpa [spans, hwhole, hspan, or_imp, forall_and] using h

theorem forall_mem_spans_ofAssignment {P : Span → Prop} (hP : MergeClosed P) (op : Operator)
    {target value : Expr} (ht : ∀ s ∈ target.spans, P s) (hv : ∀ s ∈ value.spans, P s) :
    ∀ s ∈ (ofAssignment op target value).spans, P s := by
  have hwhole := hP _ _ (ht _ target.span_mem_spans) (hv _ value.span_mem_spans)
  rw [ofAssignment]
  split <;> simpa [spans, hwhole, or_imp, forall_and] using ⟨ht, hv⟩

/-- What is true of the places of the tokens is true of the places in what they make up. -/
theorem Makes.forall_spans {P : Span → Prop} (hP : MergeClosed P) {ts : List Token} {p : Phrase}
    (h : Makes ts p) (hts : ∀ t ∈ ts, P t.span) : ∀ s ∈ p.spans, P s := by
  have whole {e : Expr} (he : ∀ s ∈ (Phrase.expr e).spans, P s) : P e.span := he _ e.span_mem_spans
  induction h with
  | literal | ident => simpa [Phrase.spans, spans] using hts
  | group _ ih => exact ih fun t ht => hts t (by simp [ht])
  | @member dot t ts receiver name _ _ _ ih =>
      have hreceiver := ih fun u hu => hts u (by simp [hu])
      have hspan := hP _ _ (whole hreceiver) (hts t (by simp))
      exact List.forall_mem_cons.mpr ⟨hspan, hreceiver⟩
  | @call dot t ts os us receiver method typeArgs args closed _ _ _ htypes _ ih ihargs =>
      have hreceiver := ih fun u hu => hts u (by simp [hu])
      have hargs := ihargs fun u hu => hts u (by simp [hu])
      have hspan := hP _ _ (whole hreceiver) (hargs closed (by simp [Phrase.spans]))
      have htypeArgs : ∀ s ∈ typeArgs.map (·.span), P s := by
        intro s hs
        obtain ⟨a, ha, rfl⟩ := List.mem_map.mp hs
        obtain ⟨u, hu, -, heq⟩ := htypes a ha
        exact heq ▸ hts u (by simp [hu])
      have hall : ∀ s ∈ allSpans args, P s := fun s hs => hargs s (List.mem_cons_of_mem _ hs)
      simp only [Phrase.spans, spans, List.forall_mem_cons, List.forall_mem_append]
      exact ⟨hspan, hreceiver, htypeArgs, hall⟩
  | @unary t ts op operand _ _ _ ih =>
      exact forall_mem_spans_ofUnary hP op (hts t (by simp)) (ih fun u hu => hts u (by simp [hu]))
  | binary _ _ _ ihl ihr =>
      have hleft := ihl fun u hu => hts u (by simp [hu])
      have hright := ihr fun u hu => hts u (by simp [hu])
      simp only [Phrase.spans, spans, List.forall_mem_cons, List.forall_mem_append]
      exact ⟨hP _ _ (whole hleft) (whole hright), hleft, hright⟩
  | ternary _ _ _ _ ihc ihy ihn =>
      have hcond := ihc fun u hu => hts u (by simp [hu])
      have hyes := ihy fun u hu => hts u (by simp [hu])
      have hno := ihn fun u hu => hts u (by simp [hu])
      simp only [Phrase.spans, spans, List.forall_mem_cons, List.forall_mem_append]
      exact ⟨hP _ _ (whole hcond) (whole hno), hcond, hyes, hno⟩
  | assignment _ _ _ _ iht ihv =>
      exact forall_mem_spans_ofAssignment hP _ (iht fun u hu => hts u (by simp [hu]))
        (ihv fun u hu => hts u (by simp [hu]))
  | noArguments => simpa [Phrase.spans, allSpans] using hts
  | @lastArgument closing ts e _ ih =>
      have he := ih fun u hu => hts u (by simp [hu])
      simp only [Phrase.spans, allSpans, List.append_nil, List.forall_mem_cons]
      exact ⟨hts closing (by simp), he⟩
  | argument _ _ ih ihs =>
      have he := ih fun u hu => hts u (by simp [hu])
      have hes := ihs fun u hu => hts u (by simp [hu])
      simp only [Phrase.spans, allSpans, List.forall_mem_cons, List.forall_mem_append] at hes ⊢
      exact ⟨hes.1, he, hes.2⟩

theorem names_ofUnary (op : Operator) (span : Span) (operand : Expr) :
    (ofUnary op span operand).names = operand.names := by
  cases op <;> simp [ofUnary, names]

theorem mem_names_ofAssignment {op : Operator} {target value : Expr} {name : String}
    (h : name ∈ (ofAssignment op target value).names) : name ∈ target.names ∨ name ∈ value.names := by
  rw [ofAssignment] at h
  split at h
  · simpa [names] using h
  · simpa [names] using h

/-- What is made up has no names that are not among the tokens. -/
theorem Makes.exists_token {ts : List Token} {p : Phrase} (h : Makes ts p) :
    ∀ name ∈ p.names, ∃ t ∈ ts, t.kind = .ident name := by
  have widen {us vs : List Token} {name : String} (hsub : us ⊆ vs)
      (h : ∃ t ∈ us, t.kind = .ident name) : ∃ t ∈ vs, t.kind = .ident name :=
    h.imp fun _ ht => ⟨hsub ht.1, ht.2⟩
  induction h with
  | literal | noArguments => simp [Phrase.names, names, allNames]
  | ident ht => simpa [Phrase.names, names] using ht
  | group _ ih => exact fun name hn => widen (by simp) (ih name hn)
  | member _ _ _ ih => exact fun name hn => widen (by simp) (ih name hn)
  | @call dot t ts os us receiver method typeArgs args closed _ _ _ htypes _ ih ihargs =>
      intro name hn
      simp only [Phrase.names, names, List.mem_append, List.mem_map] at hn
      rcases hn with hn | ⟨a, ha, rfl⟩ | hn
      · exact widen (by simp) (ih name hn)
      · obtain ⟨u, hu, hkind, -⟩ := htypes a ha
        exact ⟨u, by simp [hu], hkind⟩
      · exact widen (fun u hu => by simp [hu]) (ihargs name hn)
  | unary _ _ _ ih =>
      intro name hn
      rw [Phrase.names, names_ofUnary] at hn
      exact widen (by simp) (ih name hn)
  | binary _ _ _ ihl ihr =>
      intro name hn
      rcases List.mem_append.mp hn with hn | hn
      · exact widen (by simp) (ihl name hn)
      · exact widen (fun u hu => by simp [hu]) (ihr name hn)
  | ternary _ _ _ _ ihc ihy ihn =>
      intro name hn
      simp only [Phrase.names, names, List.mem_append] at hn
      rcases hn with hn | hn | hn
      · exact widen (by simp) (ihc name hn)
      · exact widen (fun u hu => by simp [hu]) (ihy name hn)
      · exact widen (fun u hu => by simp [hu]) (ihn name hn)
  | assignment _ _ _ _ iht ihv =>
      intro name hn
      rcases mem_names_ofAssignment hn with hn | hn
      · exact widen (by simp) (iht name hn)
      · exact widen (fun u hu => by simp [hu]) (ihv name hn)
  | lastArgument _ ih =>
      intro name hn
      rw [Phrase.names, allNames, allNames, List.append_nil] at hn
      exact widen (by simp) (ih name hn)
  | argument _ _ ih ihs =>
      intro name hn
      rcases List.mem_append.mp hn with hn | hn
      · exact widen (by simp) (ih name hn)
      · exact widen (fun u hu => by simp [hu]) (ihs name hn)

namespace Parse

/-- The places that an error is about. -/
def places (e : ParseError) : List Span :=
  match e.fault with
  | .unclosedParen opened _ => [e.span, opened]
  | _ => [e.span]

/-- What a production makes is `good`, with what it leaves, or `P` is true of the places of its error. -/
def Meets {α : Type} (P : Span → Prop) (good : α → List Token → Prop) :
    Except ParseError (α × List Token) → Prop
  | .ok (a, rest) => good a rest
  | .error e => ∀ s ∈ places e, P s

theorem Meets.bind {α β : Type} {P : Span → Prop} {good : α → List Token → Prop}
    {good' : β → List Token → Prop} {x : Except ParseError (α × List Token)}
    {f : α × List Token → Except ParseError (β × List Token)} (hx : Meets P good x)
    (hf : ∀ a rest, x = .ok (a, rest) → good a rest → Meets P good' (f (a, rest))) :
    Meets P good' (x >>= f) := by
  cases x with
  | error e => exact hx
  | ok y => exact hf y.1 y.2 rfl hx

/-- The tokens in front of `rest` make up the phrase. -/
def Reads (ts : List Token) (p : Phrase) (rest : List Token) : Prop :=
  ∃ used, ts = used ++ rest ∧ Makes used p

theorem typesFrom_of_typeNames {ts rest : List Token} {args : List TypeArg}
    (h : typeNames ts = some (args, rest)) : ∃ used, ts = used ++ rest ∧ TypesFrom used args := by
  fun_induction typeNames ts generalizing args with
  | case1 => cases h
  | case2 ts name span rest' hn hc =>
      obtain ⟨rfl, rfl⟩ := Prod.mk.inj (Option.some.inj h)
      obtain ⟨t, rfl, ht, rfl⟩ := front?_ident_eq_some.mp hn
      exact ⟨[t], rfl, by simpa [TypesFrom] using ht⟩
  | case3 ts name span rest' hn _ _ more hc ih =>
      obtain ⟨⟨as, r⟩, hr, heq⟩ := Option.map_eq_some_iff.mp h
      obtain ⟨rfl, rfl⟩ := Prod.mk.inj heq
      obtain ⟨t, rfl, ht, rfl⟩ := front?_ident_eq_some.mp hn
      obtain ⟨comma, rfl, -, rfl⟩ := front?_mark_eq_some.mp hc
      obtain ⟨used, rfl, hused⟩ := ih hr
      refine ⟨t :: comma :: used, rfl, List.forall_mem_cons.mpr ⟨⟨t, by simp, ht, rfl⟩, ?_⟩⟩
      exact fun a ha => (hused a ha).imp fun u hu => ⟨by simp [hu.1], hu.2⟩

theorem typesFrom_of_callOpening? {ts rest : List Token} {args : List TypeArg} {opened : Span}
    (h : callOpening? ts = some (args, opened, rest)) :
    ∃ used, ts = used ++ rest ∧ TypesFrom used args ∧ ∃ t ∈ used, t.span = opened := by
  rw [callOpening?] at h
  split at h
  · next hp =>
    obtain ⟨rfl, rfl, rfl⟩ : [] = args ∧ _ = opened ∧ _ = rest := by simpa using h
    obtain ⟨paren, rfl, -, rfl⟩ := front?_mark_eq_some.mp hp
    exact ⟨[paren], rfl, by simp [TypesFrom], paren, by simp, rfl⟩
  · obtain ⟨⟨_, _, afterLess⟩, hl, h⟩ := Option.bind_eq_some_iff.mp h
    obtain ⟨⟨as, afterNames⟩, hn, h⟩ := Option.bind_eq_some_iff.mp h
    obtain ⟨⟨_, _, afterGreater⟩, hg, h⟩ := Option.bind_eq_some_iff.mp h
    obtain ⟨⟨_, _, r⟩, hp, h⟩ := Option.map_eq_some_iff.mp h
    obtain ⟨rfl, rfl, rfl⟩ : as = args ∧ _ = opened ∧ r = rest := by simpa using h
    obtain ⟨less, rfl, -, rfl⟩ := front?_op_eq_some.mp hl
    obtain ⟨greater, rfl, -, rfl⟩ := front?_op_eq_some.mp hg
    obtain ⟨paren, rfl, -, rfl⟩ := front?_mark_eq_some.mp hp
    obtain ⟨used, rfl, hused⟩ := typesFrom_of_typeNames hn
    refine ⟨less :: (used ++ [greater, paren]), by simp, ?_, paren, by simp, rfl⟩
    exact fun a ha => (hused a ha).imp fun u hu => ⟨by simp [hu.1], hu.2⟩

/-- A part of the source up to `stop`, by what is true of the places in it. -/
structure Region (P : Span → Prop) (stop : Nat) : Prop where
  merge : MergeClosed P
  point : P (.point stop)

section

variable {P : Span → Prop} {stop maxHops : Nat}

theorem found_span (hP : Region P stop) {ts : List Token} (hts : ∀ t ∈ ts, P t.span) :
    P (found stop ts).2 := by
  cases ts with
  | nil => exact hP.point
  | cons t ts => exact hts t (List.mem_cons_self ..)

theorem failAt_places (hP : Region P stop) {ts : List Token} (hts : ∀ t ∈ ts, P t.span)
    {fault : String → ParseFault} (hfault : ∀ s opened found, fault s ≠ .unclosedParen opened found) :
    ∀ s ∈ places (failAt stop ts fault), P s := by
  intro s hs
  rw [failAt, places] at hs
  split at hs
  · next h => exact absurd h (hfault _ _ _)
  · obtain rfl := List.mem_singleton.mp hs
    exact found_span hP hts

theorem failAt_unclosed_places (hP : Region P stop) {ts : List Token} (hts : ∀ t ∈ ts, P t.span)
    {opened : Span} (hopened : P opened) :
    ∀ s ∈ places (failAt stop ts (.unclosedParen opened)), P s := by
  simpa [failAt, places, hopened] using found_span hP hts

theorem notAnOperand_places (hP : Region P stop) {ts : List Token} (hts : ∀ t ∈ ts, P t.span) :
    ∀ s ∈ places (notAnOperand stop ts), P s := by
  cases ts with
  | nil => exact failAt_places hP hts (by simp)
  | cons t ts =>
      rw [notAnOperand]
      split
      · simpa [places] using hts t (List.mem_cons_self ..)
      · exact failAt_places hP hts (by simp)
      · exact failAt_places hP hts (by simp)

theorem notAtEnd_places (hP : Region P stop) {ts : List Token} (hts : ∀ t ∈ ts, P t.span) :
    ∀ s ∈ places (notAtEnd stop ts), P s := by
  rw [notAtEnd]
  split
  · next h =>
    obtain ⟨t, rfl, -, rfl⟩ := front?_mark_eq_some.mp h
    simpa [places] using hts t (List.mem_cons_self ..)
  · exact failAt_places hP hts (by simp)

mutual

theorem assignment_meets (hP : Region P stop) (ts : List Token) (hts : ∀ t ∈ ts, P t.span) :
    Meets P (fun e => Reads ts (.expr e)) (plain (assignment stop maxHops ts)) := by
  rw [plain_assignment]
  refine (ternary_meets hP ts hts).bind ?_
  rintro target r hr ⟨used, rfl, hused⟩
  have htarget := hused.forall_spans hP.merge fun t ht => hts t (by simp [ht])
  dsimp only
  split
  · exact ⟨used, rfl, hused⟩
  · next op span afterOp ho =>
    obtain ⟨t, rfl, ht, -⟩ := front?_eq_some.mp ho
    obtain ⟨hkind, hop⟩ := Token.Kind.assignment?_eq_some.mp ht
    split
    · have := left_of_plain hr
      refine (assignment_meets hP afterOp fun t ht => hts t (by simp [ht])).bind ?_
      rintro value rest - ⟨used', rfl, hused'⟩
      exact ⟨used ++ t :: used', by simp, .assignment hkind hop hused hused'⟩
    · simpa [Meets, places] using htarget _ target.span_mem_spans
termination_by (ts.length, 5)

theorem ternary_meets (hP : Region P stop) (ts : List Token) (hts : ∀ t ∈ ts, P t.span) :
    Meets P (fun e => Reads ts (.expr e)) (plain (ternary stop maxHops ts)) := by
  rw [plain_ternary]
  refine (binary_meets hP 1 ts hts).bind ?_
  rintro cond r hr ⟨used, rfl, hused⟩
  dsimp only
  split
  · exact ⟨used, rfl, hused⟩
  · next span afterQuestion hq =>
    obtain ⟨question, rfl, hquestion, -⟩ := front?_mark_eq_some.mp hq
    have := left_of_plain hr
    refine (assignment_meets hP afterQuestion fun t ht => hts t (by simp [ht])).bind ?_
    rintro yes r' hr' ⟨used', rfl, hused'⟩
    dsimp only
    split
    · exact failAt_places hP (fun t ht => hts t (by simp [ht])) (by simp)
    · next span afterColon hc =>
      obtain ⟨colon, rfl, -, -⟩ := front?_mark_eq_some.mp hc
      have := left_of_plain hr'
      refine (assignment_meets hP afterColon fun t ht => hts t (by simp [ht])).bind ?_
      rintro no rest - ⟨used'', rfl, hused''⟩
      exact ⟨used ++ question :: (used' ++ colon :: used''), by simp,
        .ternary hquestion hused hused' hused''⟩
termination_by (ts.length, 4)

theorem binary_meets (hP : Region P stop) (least : Nat) (ts : List Token) (hts : ∀ t ∈ ts, P t.span) :
    Meets P (fun e => Reads ts (.expr e)) (plain (binary stop maxHops least ts)) := by
  rw [plain_binary]
  refine (unary_meets hP ts hts).bind ?_
  rintro left r hr ⟨used, rfl, hused⟩
  have := left_of_plain hr
  exact binaryTail_meets hP least hused r hts
termination_by (ts.length, 3)

/-- The operations go on from a left side that the tokens `start` make up. -/
theorem binaryTail_meets (hP : Region P stop) (least : Nat) {start : List Token} {left : Expr}
    (hstart : Makes start (.expr left)) (ts : List Token) (hts : ∀ t ∈ start ++ ts, P t.span) :
    Meets P (fun e => Reads (start ++ ts) (.expr e))
      (plain (binaryTail stop maxHops least left ts)) := by
  rw [plain_binaryTail]
  split
  · exact ⟨start, rfl, hstart⟩
  · next op precedence span afterOp ho =>
    obtain ⟨t, rfl, ht, -⟩ := front?_eq_some.mp ho
    split
    · exact ⟨start, rfl, hstart⟩
    · refine (binary_meets hP (precedence + 1) afterOp fun u hu => hts u (by simp [hu])).bind ?_
      rintro right r hr ⟨used, rfl, hused⟩
      have := left_of_plain hr
      have hnext : start ++ t :: (used ++ r) = start ++ t :: used ++ r := by simp
      rw [hnext] at hts ⊢
      have hkind := (Token.Kind.binary?_eq_some.mp ht).1
      exact binaryTail_meets hP least (.binary hkind hstart hused) r hts
termination_by (ts.length, 0)

theorem unary_meets (hP : Region P stop) (ts : List Token) (hts : ∀ t ∈ ts, P t.span) :
    Meets P (fun e => Reads ts (.expr e)) (plain (unary stop maxHops ts)) := by
  rw [plain_unary]
  split
  · exact postfixed_meets hP ts hts
  · next op opSpan afterOp ho =>
    obtain ⟨t, rfl, ht, rfl⟩ := front?_eq_some.mp ho
    obtain ⟨hkind, hop⟩ := Token.Kind.unary?_eq_some.mp ht
    refine (unary_meets hP afterOp fun u hu => hts u (by simp [hu])).bind ?_
    rintro operand rest - ⟨used, rfl, hused⟩
    exact ⟨t :: used, rfl, .unary hkind hop hused⟩
termination_by (ts.length, 2)

theorem postfixed_meets (hP : Region P stop) (ts : List Token) (hts : ∀ t ∈ ts, P t.span) :
    Meets P (fun e => Reads ts (.expr e)) (plain (postfixed stop maxHops ts)) := by
  rw [plain_postfixed]
  refine (primary_meets hP ts hts).bind ?_
  rintro receiver r hr ⟨used, rfl, hused⟩
  have := left_of_plain hr
  exact chain_meets hP (.new maxHops) hused r hts
termination_by (ts.length, 1)

/-- The chain goes on from a receiver that the tokens `start` make up. -/
theorem chain_meets (hP : Region P stop) (hops : Guard) {start : List Token} {receiver : Expr}
    (hstart : Makes start (.expr receiver)) (ts : List Token) (hts : ∀ t ∈ start ++ ts, P t.span) :
    Meets P (fun e => Reads (start ++ ts) (.expr e)) (plain (chain stop maxHops hops receiver ts)) := by
  rw [plain_chain]
  split
  · exact ⟨start, rfl, hstart⟩
  · next dotSpan afterDot hd =>
    obtain ⟨dot, rfl, hdot, rfl⟩ := front?_mark_eq_some.mp hd
    split
    · have hreceiver := hstart.forall_spans hP.merge fun t ht => hts t (by simp [ht])
      simpa [Meets, places] using
        hP.merge _ _ (hreceiver _ receiver.span_mem_spans) (hts dot (by simp))
    · next hops' _ =>
      split
      · exact failAt_places hP (fun t ht => hts t (by simp [ht])) (by simp)
      · next name nameSpan afterName hn =>
        obtain ⟨t, rfl, ht, rfl⟩ := front?_ident_eq_some.mp hn
        split
        · have hnext : start ++ dot :: t :: afterName = start ++ [dot, t] ++ afterName := by simp
          rw [hnext] at hts ⊢
          exact chain_meets hP hops' (.member hdot ht hstart) afterName hts
        · next typeArgs opened afterParen hc =>
          have := length_callOpening hc
          obtain ⟨os, rfl, htypes, paren, hparen, rfl⟩ := typesFrom_of_callOpening? hc
          refine (arguments_meets hP (hts paren (by simp [hparen])) afterParen
            fun u hu => hts u (by simp [hu])).bind ?_
          rintro ⟨args, closed⟩ r hr ⟨used, rfl, hused⟩
          have := left_of_plain hr
          have hnext : start ++ dot :: t :: (os ++ (used ++ r)) =
              start ++ dot :: t :: (os ++ used) ++ r := by simp
          rw [hnext] at hts ⊢
          exact chain_meets hP hops' (.call hdot ht hstart htypes hused) r hts
termination_by (ts.length, 0)

theorem arguments_meets (hP : Region P stop) {opened : Span} (hopened : P opened) (ts : List Token)
    (hts : ∀ t ∈ ts, P t.span) :
    Meets P (fun a => Reads ts (.arguments a.1 a.2)) (plain (arguments stop maxHops opened ts)) := by
  rw [plain_arguments]
  split
  · next closed rest hp =>
    obtain ⟨closing, rfl, -, rfl⟩ := front?_mark_eq_some.mp hp
    exact ⟨[closing], rfl, .noArguments⟩
  · exact someArguments_meets hP hopened ts hts
termination_by (ts.length, 7)

theorem someArguments_meets (hP : Region P stop) {opened : Span} (hopened : P opened) (ts : List Token)
    (hts : ∀ t ∈ ts, P t.span) :
    Meets P (fun a => Reads ts (.arguments a.1 a.2))
      (plain (someArguments stop maxHops opened ts)) := by
  rw [plain_someArguments]
  refine (assignment_meets hP ts hts).bind ?_
  rintro arg r hr ⟨used, rfl, hused⟩
  have := left_of_plain hr
  dsimp only
  split
  · next afterComma hc =>
    obtain ⟨comma, rfl, -, -⟩ := front?_mark_eq_some.mp hc
    refine (someArguments_meets hP hopened afterComma fun u hu => hts u (by simp [hu])).bind ?_
    rintro ⟨args, closed⟩ rest - ⟨used', rfl, hused'⟩
    exact ⟨used ++ comma :: used', by simp, .argument hused hused'⟩
  · split
    · next closed rest hp =>
      obtain ⟨closing, rfl, -, rfl⟩ := front?_mark_eq_some.mp hp
      exact ⟨used ++ [closing], by simp, .lastArgument hused⟩
    · exact failAt_unclosed_places hP (fun u hu => hts u (by simp [hu])) hopened
termination_by (ts.length, 6)

theorem primary_meets (hP : Region P stop) (ts : List Token) (hts : ∀ t ∈ ts, P t.span) :
    Meets P (fun e => Reads ts (.expr e)) (plain (primary stop maxHops ts)) := by
  rw [plain_primary]
  split
  · next value span rest hl =>
    obtain ⟨t, rfl, ht, rfl⟩ := front?_eq_some.mp hl
    exact ⟨[t], rfl, .literal ht⟩
  · split
    · next name span rest hi =>
      obtain ⟨t, rfl, ht, rfl⟩ := front?_ident_eq_some.mp hi
      exact ⟨[t], rfl, .ident ht⟩
    · split
      · exact notAnOperand_places hP hts
      · next opened afterParen ho =>
        obtain ⟨opening, rfl, -, rfl⟩ := front?_mark_eq_some.mp ho
        refine (assignment_meets hP afterParen fun u hu => hts u (by simp [hu])).bind ?_
        rintro inner r hr ⟨used, rfl, hused⟩
        dsimp only
        split
        · exact failAt_unclosed_places hP (fun u hu => hts u (by simp [hu])) (hts opening (by simp))
        · next rest hp =>
          obtain ⟨closing, rfl, -, -⟩ := front?_mark_eq_some.mp hp
          exact ⟨opening :: (used ++ [closing]), by simp, .group hused⟩
termination_by (ts.length, 0)

end

end

end Parse

section

variable {P : Span → Prop} {maxHops : Nat} {ts : TokenList}

theorem makes_of_ofTokens {e : Expr} (h : ofTokens maxHops ts = .ok e) : Makes ts.tokens (.expr e) := by
  have hregion : Parse.Region (fun _ => True) ts.stop := ⟨fun _ _ _ _ => trivial, trivial⟩
  have hmeets : Parse.Meets _ _ (Parse.plain (Parse.assignment ts.stop maxHops ts.tokens)) :=
    Parse.assignment_meets hregion ts.tokens fun _ _ => trivial
  rw [ofTokens_eq_ok_iff.mp h] at hmeets
  obtain ⟨used, hused, hmakes⟩ := hmeets
  rwa [hused, List.append_nil]

theorem places_of_ofTokens (hP : Parse.Region P ts.stop) (hts : ∀ t ∈ ts.tokens, P t.span)
    {e : ParseError} (h : ofTokens maxHops ts = .error e) : ∀ s ∈ Parse.places e, P s := by
  have hmeets : Parse.Meets P _ (Parse.plain (Parse.assignment ts.stop maxHops ts.tokens)) :=
    Parse.assignment_meets hP ts.tokens hts
  rw [ofTokens_eq] at h
  cases hx : Parse.plain (Parse.assignment ts.stop maxHops ts.tokens) with
  | error e' =>
      rw [hx] at h hmeets
      exact Except.error.inj h ▸ hmeets
  | ok x =>
      rw [hx] at h hmeets
      obtain ⟨used, hused, -⟩ := hmeets
      simp only [bind, Except.bind] at h
      split at h
      · cases h
      · rw [← Except.error.inj h]
        exact Parse.notAtEnd_places hP fun t ht => hts t (by simp [hused, ht])

end

end Expr

end Formula
