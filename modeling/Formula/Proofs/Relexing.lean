import Formula.Proofs.Lexemes

/-!
The token at the front of a text stays the same when gaps are put into what follows it.
-/

namespace Formula

/-- Two texts of one length that a third one begins with are the same. -/
theorem Text.eq_of_prefix {a b cs : List Char} (ha : a <+: cs) (hb : b <+: cs)
    (h : a.length = b.length) : a = b :=
  (List.prefix_of_prefix_length_le ha hb (Nat.le_of_eq h)).eq_of_length h

namespace Operator

theorem symbol_inj {op op' : Operator} (h : op.symbol.toList = op'.symbol.toList) : op = op' := by
  have hop := ofSymbol?_symbol op
  rw [String.toList_inj.mp h, ofSymbol?_symbol] at hop
  exact (Option.some.inj hop).symm

theorem length_symbol (op : Operator) :
    op.symbol.toList.length = 3 ∨ op.symbol.toList.length = 2 ∨ op.symbol.toList.length = 1 := by
  cases op <;> decide

/-- The operator whose spelling the first `n` characters of a text are. -/
def spelledBy? (n : Nat) (cs : List Char) : Option Operator := ofSymbol? (String.ofList (cs.take n))

theorem spelledBy?_eq_some {n : Nat} {cs : List Char} {op : Operator}
    (h : spelledBy? n cs = some op) : op.symbol.toList = cs.take n := by
  rw [symbol_eq_of_ofSymbol? h, String.toList_ofList]

theorem spelledBy?_length {cs : List Char} {op : Operator} (h : op.symbol.toList <+: cs) :
    spelledBy? op.symbol.toList.length cs = some op := by
  rw [spelledBy?, ← List.prefix_iff_eq_take.mp h, String.ofList_toList, ofSymbol?_symbol]

theorem longestAt?_eq (cs : List Char) :
    longestAt? cs = (spelledBy? 3 cs).or ((spelledBy? 2 cs).or (spelledBy? 1 cs)) := by
  simp only [longestAt?, List.findSome?, spelledBy?]
  cases ofSymbol? (String.ofList (cs.take 3)) <;> cases ofSymbol? (String.ofList (cs.take 2)) <;>
    cases ofSymbol? (String.ofList (cs.take 1)) <;> rfl

theorem prefix_of_longestAt? {cs : List Char} {op : Operator} (h : longestAt? cs = some op) :
    op.symbol.toList <+: cs := by
  obtain ⟨n, -, hn⟩ := List.exists_of_findSome?_eq_some h
  exact spelledBy?_eq_some hn ▸ List.take_prefix n cs

/-- A text does not begin with a longer operator than the one that is taken. -/
theorem length_le_of_longestAt? {cs : List Char} {op op' : Operator} (h : longestAt? cs = some op)
    (h' : op'.symbol.toList <+: cs) : op'.symbol.toList.length ≤ op.symbol.toList.length := by
  have hfound := spelledBy?_length h'
  have hle := h'.length_le
  have hlength {n : Nat} (hn : spelledBy? n cs = some op) :
      op.symbol.toList.length = min n cs.length := by
    rw [spelledBy?_eq_some hn, List.length_take]
  rw [longestAt?_eq, Option.or_eq_some_iff, Option.or_eq_some_iff] at h
  rcases length_symbol op' with hn | hn | hn <;> rw [hn] at hfound hle ⊢ <;>
    rcases h with h | ⟨h3, h | ⟨h2, h⟩⟩
  all_goals first | simp [hfound] at h3 | simp [hfound] at h2 | skip
  all_goals have := hlength h; omega

/-- An operator that a text begins with is taken if the text begins with no longer one. -/
theorem longestAt?_eq_some {cs : List Char} {op : Operator} (h : op.symbol.toList <+: cs)
    (hlongest : ∀ op' : Operator, op'.symbol.toList <+: cs →
      op'.symbol.toList.length ≤ op.symbol.toList.length) : longestAt? cs = some op := by
  cases ho : longestAt? cs with
  | none =>
      have hfound := spelledBy?_length h
      simp only [longestAt?_eq, Option.or_eq_none_iff] at ho
      rcases length_symbol op with hn | hn | hn <;> simp [hn, ho] at hfound
  | some op' =>
      have hprefix := prefix_of_longestAt? ho
      have hlength := Nat.le_antisymm (hlongest op' hprefix) (length_le_of_longestAt? ho h)
      exact congrArg some (symbol_inj (Text.eq_of_prefix hprefix h hlength))

end Operator

namespace Token

/-- The second text goes on as the first one does up to a gap or to its end. -/
inductive Follows : List Char → List Char → Prop
  | stop (cs : List Char) : Follows cs []
  | gap (cs : List Char) {g : Char} (ds : List Char) (hg : isGap g = true) : Follows cs (g :: ds)
  | step (c : Char) {cs ds : List Char} (h : Follows cs ds) : Follows (c :: cs) (c :: ds)

namespace Follows

variable {cs ds : List Char}

theorem append (a : List Char) (h : Follows cs ds) : Follows (a ++ cs) (a ++ ds) := by
  induction a with
  | nil => exact h
  | cons c a ih => exact .step c ih

/-- What the second text begins with before its first gap, the first one begins with as well. -/
theorem prefix_of_solid {s : List Char} (h : Follows cs ds) (hs : s <+: ds)
    (hgap : ∀ c ∈ s, isGap c = false) : s <+: cs := by
  induction h generalizing s with
  | stop cs => exact List.prefix_nil.mp hs ▸ List.nil_prefix
  | gap cs ds hg =>
      cases s with
      | nil => exact List.nil_prefix
      | cons c s =>
          obtain ⟨rfl, -⟩ := List.cons_prefix_cons.mp hs
          simp [hgap c (List.mem_cons_self ..)] at hg
  | step c _ ih =>
      cases s with
      | nil => exact List.nil_prefix
      | cons d s =>
          obtain ⟨rfl, htail⟩ := List.cons_prefix_cons.mp hs
          exact List.cons_prefix_cons.mpr
            ⟨rfl, ih htail fun c hc => hgap c (List.mem_cons_of_mem _ hc)⟩

theorem takeWhile_eq_nil {p : Char → Bool} (hp : ∀ c, isGap c = true → p c = false)
    (h : Follows cs ds) (hcs : cs.takeWhile p = []) : ds.takeWhile p = [] := by
  cases h with
  | stop => rfl
  | gap _ _ hg => simp [hp _ hg]
  | step c _ => simpa [List.takeWhile_cons] using hcs

end Follows

theorem not_isNameChar_of_isGap {c : Char} (h : isGap c = true) : Text.isNameChar c = false := by
  simp only [isGap, Bool.or_eq_true, beq_iff_eq] at h
  rcases h with ((rfl | rfl) | rfl) | rfl <;> decide

theorem not_isDigit_of_isGap {c : Char} (h : isGap c = true) : c.isDigit = false ∧ c ≠ '.' := by
  simp only [isGap, Bool.or_eq_true, beq_iff_eq] at h
  rcases h with ((rfl | rfl) | rfl) | rfl <;> decide

/-- Whether a number takes the character in front of a text. -/
def carriesNumber (c : Char) (cs : List Char) : Bool :=
  c.isDigit || (c == '.' && (cs.head?.map Char.isDigit).getD false)

theorem numberRun_cons (c : Char) (cs : List Char) :
    numberRun (c :: cs) = if carriesNumber c cs then c :: numberRun cs else [] := rfl

theorem prefix_numberRun (cs : List Char) : numberRun cs <+: cs := by
  induction cs with
  | nil => exact List.nil_prefix
  | cons c cs ih =>
      rw [numberRun_cons]
      split
      · exact List.cons_prefix_cons.mpr ⟨rfl, ih⟩
      · exact List.nil_prefix

/-- The last character that a number takes is a digit. -/
theorem isDigit_of_carriesNumber {c : Char} {cs : List Char} (hcs : numberRun cs = [])
    (hc : carriesNumber c cs = true) : c.isDigit = true := by
  cases cs with
  | nil => simpa [carriesNumber] using hc
  | cons d cs =>
      have hd : d.isDigit = false := by
        rw [Bool.eq_false_iff]
        intro hd
        simp [numberRun, hd] at hcs
      simpa [carriesNumber, hd] using hc

section

variable {cs ds : List Char} (h : Follows cs ds)

include h

theorem carriesNumber_of_follows {c : Char} (hc : carriesNumber c ds = true) :
    carriesNumber c cs = true := by
  cases h with
  | stop => simp_all [carriesNumber]
  | gap _ _ hg => simp_all [carriesNumber, not_isDigit_of_isGap hg]
  | step d _ => exact hc

theorem numberRun_eq_nil_of_follows (hcs : numberRun cs = []) : numberRun ds = [] := by
  cases h with
  | stop => rfl
  | gap _ _ hg =>
      obtain ⟨hdigit, hpoint⟩ := not_isDigit_of_isGap hg
      simp [numberRun, hdigit, hpoint]
  | step c h =>
      rw [numberRun_cons] at hcs ⊢
      rw [if_neg]
      intro hc
      rw [if_pos (carriesNumber_of_follows h hc)] at hcs
      cases hcs

/-- A number ends in front of the second text if it ends in front of the first one. -/
theorem numberRun_of_follows {a : List Char} (ha : numberRun (a ++ cs) = a) :
    numberRun (a ++ ds) = a := by
  induction a with
  | nil => exact numberRun_eq_nil_of_follows h ha
  | cons c a ih =>
      rw [List.cons_append, numberRun_cons] at ha ⊢
      split at ha
      · next hc =>
        have htail := (List.cons.inj ha).2
        have hc' : carriesNumber c (a ++ ds) = true := by
          cases a with
          | nil => simp [carriesNumber, isDigit_of_carriesNumber htail hc]
          | cons d a => exact hc
        rw [if_pos hc', ih htail]
      · cases ha

end

theorem takeWhile_append_eq_left {p : Char → Bool} {a cs : List Char}
    (h : ((a ++ cs).takeWhile p).length = a.length) :
    (a ++ cs).takeWhile p = a ∧ (∀ c ∈ a, p c = true) ∧ cs.takeWhile p = [] := by
  have hword : (a ++ cs).takeWhile p = a :=
    Text.eq_of_prefix (List.takeWhile_prefix p) (List.prefix_append a cs) h
  have ha : ∀ c ∈ a, p c = true := List.all_eq_true.mp (hword ▸ List.all_takeWhile)
  refine ⟨hword, ha, ?_⟩
  rw [List.takeWhile_append_of_pos ha] at hword
  exact List.append_right_eq_self.mp hword

/-- What stands in front of a closing quote. -/
theorem exists_of_contains {q : Char} {cs : List Char} (h : cs.contains q = true) :
    ∃ body rest, cs = body ++ q :: rest ∧ cs.takeWhile (· != q) = body ∧ q ∉ body := by
  obtain ⟨body, rest, rfl, hbody⟩ := List.eq_append_cons_of_mem (List.contains_iff_mem.mp h)
  exact ⟨body, rest, rfl, takeWhile_quoted hbody rest, hbody⟩

theorem quoted_eq {q : Char} {a cs : List Char} (h : (a ++ cs).contains q = true)
    (hlength : ((a ++ cs).takeWhile (· != q)).length + 1 = a.length) :
    ∃ body, a = body ++ [q] ∧ q ∉ body := by
  obtain ⟨body, rest, hsplit, hquoted, hbody⟩ := exists_of_contains h
  rw [hquoted] at hlength
  have hprefix : body ++ [q] <+: a ++ cs := hsplit ▸ ⟨rest, by simp⟩
  exact ⟨body, Text.eq_of_prefix (List.prefix_append a cs) hprefix (by simpa using hlength.symm), hbody⟩

theorem spells_of_lexeme {c : Char} {a rest : List Char} {k : Kind}
    (h : lexeme c (a ++ rest) = ⟨.ok k, (c :: a).length⟩) : Spells c a rest k := by
  simp only [lexeme, ← List.cons_append] at h
  split at h
  · next hname =>
    obtain ⟨hkind, hlength⟩ := Lexeme.mk.inj h
    obtain ⟨hword, -, -⟩ := takeWhile_append_eq_left hlength
    rw [hword] at hkind
    exact Except.ok.inj hkind ▸ .word hname hword
  split at h
  · next hdigit =>
    obtain ⟨hkind, hlength⟩ := Lexeme.mk.inj h
    have hrun := Text.eq_of_prefix (prefix_numberRun _) (List.prefix_append (c :: a) rest) hlength
    rw [hrun] at hkind
    exact .number hdigit hrun hkind
  split at h
  · next hquote =>
    split at h
    · next hclosed =>
      obtain ⟨hkind, hlength⟩ := Lexeme.mk.inj h
      obtain ⟨body, rfl, hbody⟩ := quoted_eq hclosed (by simpa using hlength)
      rw [List.append_assoc, List.singleton_append, takeWhile_quoted hbody] at hkind
      exact Except.ok.inj hkind ▸ .string hquote rfl hbody
    · cases (Lexeme.mk.inj h).1
  · split at h
    · next m hm =>
      obtain ⟨hkind, hlength⟩ := Lexeme.mk.inj h
      exact Except.ok.inj hkind ▸
        .mark (by simpa using List.find?_some hm) (by simpa using hlength.symm)
    · split at h
      · next o ho =>
        obtain ⟨hkind, hlength⟩ := Lexeme.mk.inj h
        have hsymbol := Text.eq_of_prefix (Operator.prefix_of_longestAt? ho)
          (List.prefix_append (c :: a) rest) (String.length_toList.trans hlength)
        exact Except.ok.inj hkind ▸ .operator hsymbol ho
      · cases (Lexeme.mk.inj h).1

section

variable {c : Char} {a cs ds : List Char} {k : Kind} (h : Follows cs ds)

include h

theorem Spells.of_follows (hc : Spells c a cs k) : Spells c a ds k := by
  cases hc with
  | word hname hrun =>
      obtain ⟨-, hall, hcs⟩ := takeWhile_append_eq_left (congrArg List.length hrun)
      have hds := h.takeWhile_eq_nil (fun _ => not_isNameChar_of_isGap) hcs
      exact .word hname (by rw [List.takeWhile_append_of_pos hall, hds, List.append_nil])
  | number hdigit hrun hkind => exact .number hdigit (numberRun_of_follows h hrun) hkind
  | string hquote ha hbody => exact .string hquote ha hbody
  | mark hm ha => exact .mark hm ha
  | @operator o hsymbol ho =>
      refine .operator hsymbol (Operator.longestAt?_eq_some ?_ fun o' ho' => ?_)
      · exact hsymbol ▸ List.prefix_append _ _
      · refine Operator.length_le_of_longestAt? ho ((h.append (c :: a)).prefix_of_solid ho' ?_)
        exact fun d hd => (only_operator_of_mem_chars (Operator.mem_chars_of_mem_symbol o' hd)).1

/-- What a token takes in front of one text, it takes in front of each that follows it up to a gap. -/
theorem lexeme_of_follows (hc : lexeme c (a ++ cs) = ⟨.ok k, (c :: a).length⟩) :
    lexeme c (a ++ ds) = ⟨.ok k, (c :: a).length⟩ :=
  lexeme_of_spells ((spells_of_lexeme hc).of_follows h)

end

theorem length_lexeme_le (c : Char) (cs : List Char) : (lexeme c cs).length ≤ (c :: cs).length := by
  rw [lexeme]
  split
  · exact (List.takeWhile_prefix _).length_le
  split
  · exact (prefix_numberRun _).length_le
  split
  · split
    · next hclosed =>
      obtain ⟨body, rest, rfl, hquoted, -⟩ := exists_of_contains hclosed
      rw [hquoted]
      simp only [List.length_append, List.length_cons]
      omega
    · simp
  · split
    · simp
    · split
      · next o ho =>
        exact String.length_toList ▸ (Operator.prefix_of_longestAt? ho).length_le
      · simp

/-- A token and what it leaves make up the text. -/
theorem exists_of_lexeme (c : Char) (cs : List Char) :
    ∃ a rest, cs = a ++ rest ∧ (lexeme c cs).length = (c :: a).length := by
  have hpos := lexeme_length_pos c cs
  have hle := length_lexeme_le c cs
  refine ⟨cs.take ((lexeme c cs).length - 1), cs.drop ((lexeme c cs).length - 1),
    (List.take_append_drop _ cs).symm, ?_⟩
  simp only [List.length_cons, List.length_take] at hle ⊢
  omega

/-- The tokens of a text that begins at offset `pos`, and the gaps between them. -/
inductive Lexes : Nat → List Char → List Token → Prop
  | nil (pos : Nat) : Lexes pos [] []
  | gap {pos : Nat} {c : Char} {cs : List Char} {ts : List Token} (hc : isGap c = true)
      (h : Lexes (pos + c.utf8Size) cs ts) : Lexes pos (c :: cs) ts
  | token {pos : Nat} {c : Char} {a rest : List Char} {kind : Kind} {ts : List Token}
      (hc : isGap c = false) (hspells : Spells c a rest kind)
      (h : Lexes (pos + Text.bytes (c :: a)) rest ts) :
      Lexes pos (c :: a ++ rest) (⟨kind, ⟨pos, pos + Text.bytes (c :: a)⟩⟩ :: ts)

theorem lexes_of_scanFrom {pos : Nat} {cs : List Char} {ts : List Token}
    (h : scanFrom pos cs = .ok ts) : Lexes pos cs ts := by
  fun_induction scanFrom pos cs generalizing ts with
  | case1 => cases h; exact .nil _
  | case2 pos c cs hc ih => exact .gap hc (ih h)
  | case3 => cases h
  | case4 => cases h
  | case5 pos c cs hc taken stop kind hkind tail =>
      rename_i htail ih
      cases h
      obtain ⟨a, rest, rfl, hlength⟩ := exists_of_lexeme c cs
      have htaken : taken = c :: a := by
        simp only [taken, hlength, ← List.cons_append, List.take_left]
      have hrest : (c :: (a ++ rest)).drop (lexeme c (a ++ rest)).length = rest := by
        rw [hlength, ← List.cons_append, List.drop_left]
      rw [hrest] at htail ih
      simp only [stop, htaken] at htail ih ⊢
      exact .token (by simpa using hc) (spells_of_lexeme (by rw [← hkind, ← hlength])) (ih htail)

theorem scanFrom_of_lexes {pos : Nat} {cs : List Char} {ts : List Token} (h : Lexes pos cs ts) :
    scanFrom pos cs = .ok ts := by
  induction h with
  | nil => rw [scanFrom]
  | gap hc _ ih => rw [scanFrom, if_pos hc, ih]
  | token hc hspells _ ih =>
      have hlexeme := lexeme_of_spells hspells
      rw [List.cons_append, scanFrom, if_neg (by simp [hc])]
      simp only [hlexeme, ← List.cons_append, List.take_left, List.drop_left, ih]

end Token

end Formula
