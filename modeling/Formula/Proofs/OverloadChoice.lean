import Formula.Proofs.Contract
import Formula.Proofs.FaultCodes
import Formula.Proofs.Outcomes
import Formula.Sample

/-!
The choice of an overload. It is the first that takes the arguments. Those that were tried before leave
no trace in the arguments, and neither does a choice that fails.
-/

namespace Formula

namespace ParamType

/-- What a parameter takes an argument for: the argument itself if it has the very type, and for a text the
variant that it names, which `Accepts` leaves open. -/
inductive Takes (types : Directory) : ParamType → Value → Value → Prop
  | any (v : Value) : Takes types .any v v
  | exact (v : Value) : Takes types (.exact v.typeTag) v v
  | named {enumName s : String} {e : EnumValue} : types.variant enumName s = .ok e →
      Takes types (.exact (.enum enumName)) (.string s) (.enum e)

/-- As many parameters as arguments, each of which takes its argument. -/
inductive TakesAll (types : Directory) : List ParamType → List Value → List Value → Prop
  | nil : TakesAll types [] [] []
  | cons {p : ParamType} {v w : Value} {ps : List ParamType} {vs ws : List Value} :
      p.Takes types v w → TakesAll types ps vs ws → TakesAll types (p :: ps) (v :: vs) (w :: ws)

variable {types : Directory} {p : ParamType} {ps qs : List ParamType} {v w : Value}
  {us vs ws us' vs' : List Value}

theorem accept_eq_some_iff : p.accept types v = .ok (some w) ↔ p.Takes types v w := by
  constructor
  · intro h
    rw [accept.eq_def] at h
    cases p with
    | any =>
        obtain rfl : v = w := by simpa using h
        exact .any v
    | exact tag =>
        simp only at h
        split at h
        · next htag =>
          obtain rfl : v = w := by simpa using h
          exact htag ▸ .exact v
        · split at h
          · next enumName s _ =>
            cases hvariant : types.variant enumName s with
            | error f => simp [hvariant, Except.map] at h
            | ok e =>
                obtain rfl : Value.enum e = w := by simpa [hvariant, Except.map] using h
                exact .named hvariant
          · simp at h
  · intro h
    cases h with
    | any => rfl
    | exact => simp [accept]
    | named hvariant => simp [accept, Value.typeTag, hvariant, Except.map]

theorem acceptAll_eq_some_iff : acceptAll types ps vs = .ok (some ws) ↔ TakesAll types ps vs ws := by
  induction ps generalizing vs ws with
  | nil =>
      cases vs with
      | nil =>
          constructor
          · intro h
            obtain rfl : [] = ws := by simpa [acceptAll] using h
            exact .nil
          · rintro ⟨⟩
            rfl
      | cons v vs =>
          constructor
          · intro h
            simp [acceptAll] at h
          · rintro ⟨⟩
  | cons p ps ih =>
      cases vs with
      | nil =>
          constructor
          · intro h
            simp [acceptAll] at h
          · rintro ⟨⟩
      | cons v vs =>
          constructor
          · intro h
            rw [acceptAll] at h
            obtain ⟨w?, hw, h⟩ := bind_eq_ok.mp h
            cases w? with
            | none => simp at h
            | some w =>
                obtain ⟨us?, hus, h⟩ := bind_eq_ok.mp h
                obtain ⟨us, rfl, rfl⟩ := Option.map_eq_some_iff.mp (Except.ok.inj h)
                exact .cons (accept_eq_some_iff.mp hw) (ih.mp hus)
          · rintro (_ | ⟨hw, hws⟩)
            simp [acceptAll, accept_eq_some_iff.mpr hw, ih.mpr hws, bind, Except.bind]

theorem TakesAll.length_eq (h : TakesAll types ps vs ws) :
    ps.length = vs.length ∧ ws.length = vs.length := by
  induction h with
  | nil => exact ⟨rfl, rfl⟩
  | cons _ _ ih => simp [ih.1, ih.2]

theorem accept_of_named (enumName s : String) :
    (ParamType.exact (.enum enumName)).accept types (.string s) =
      (types.variant enumName s).map fun e => some (.enum e) := by
  simp [accept, Value.typeTag]

theorem acceptAll_cons_of_some (h : p.accept types v = .ok (some w)) :
    acceptAll types (p :: ps) (v :: vs) = (acceptAll types ps vs).map (Option.map (w :: ·)) := by
  rw [acceptAll, h]
  cases acceptAll types ps vs <;> rfl

/-- The arguments that parameters change, by their positions from `i` on, with what they become, if each
parameter takes its argument. -/
def changes (types : Directory) : Nat → List ParamType → List Value →
    Except Fault (Option (List (Nat × Value)))
  | i, p :: ps, v :: vs =>
    if p = .any ∨ p = .exact v.typeTag then changes types (i + 1) ps vs
    else
      match p, v with
      | .exact (.enum enumName), .string s => do
        let e ← types.variant enumName s
        return (← changes types (i + 1) ps vs).map ((i, .enum e) :: ·)
      | _, _ => .ok none
  | _, _, _ => .ok (some [])

/-- Writes what has changed into the arguments. -/
def applyChanges (cs : List (Nat × Value)) (args : List Value) : List Value :=
  cs.foldl (fun args c => args.set c.1 c.2) args

theorem applyChanges_cons (before vs : List Value) (v w : Value) (cs : List (Nat × Value)) :
    applyChanges ((before.length, w) :: cs) (before ++ v :: vs) = applyChanges cs (before ++ w :: vs) := by
  simp [applyChanges]

/-- Writing the changes into the arguments makes of them what the parameters accept. -/
theorem applyChanges_changes {i : Nat} (hlength : ps.length = vs.length) {before : List Value}
    (hi : before.length = i) :
    (changes types i ps vs).map (Option.map (applyChanges · (before ++ vs))) =
      (acceptAll types ps vs).map (Option.map (before ++ ·)) := by
  -- What is behind the first argument, once that has become `w`.
  have tail {i : Nat} {ps : List ParamType} {vs before : List Value} (w : Value)
      (h : (changes types (i + 1) ps vs).map (Option.map (applyChanges · (before ++ [w] ++ vs))) =
        (acceptAll types ps vs).map (Option.map (before ++ [w] ++ ·))) :
      (changes types (i + 1) ps vs).map (Option.map (applyChanges · (before ++ w :: vs))) =
        ((acceptAll types ps vs).map (Option.map (w :: ·))).map (Option.map (before ++ ·)) := by
    simp only [List.append_assoc, List.singleton_append] at h
    rw [h]
    cases acceptAll types ps vs with
    | error => rfl
    | ok ws? => cases ws? <;> rfl
  fun_induction changes types i ps vs generalizing before with
  | case1 i p ps v vs hsame ih =>
      have haccept : p.accept types v = .ok (some v) := by
        rcases hsame with rfl | rfl
        · exact accept_eq_some_iff.mpr (.any v)
        · exact accept_eq_some_iff.mpr (.exact v)
      rw [acceptAll_cons_of_some haccept]
      exact tail v (ih (Nat.succ.inj hlength) (by simp [hi]))
  | case2 i ps vs enumName s _ ih =>
      cases hvariant : types.variant enumName s with
      | error f =>
          rw [acceptAll, accept_of_named, hvariant]
          rfl
      | ok e =>
          rw [acceptAll_cons_of_some (accept_eq_some_iff.mpr (.named hvariant)),
            ← tail (.enum e) (ih (Nat.succ.inj hlength) (by simp [hi])), ← hi]
          cases changes types (before.length + 1) ps vs with
          | error => rfl
          | ok cs? =>
              cases cs? with
              | none => rfl
              | some cs =>
                  exact congrArg (fun ws => Except.ok (some ws)) (applyChanges_cons before vs _ _ cs)
  | case3 i p ps v vs hother hnamed =>
      have haccept : p.accept types v = .ok none := by
        rw [accept.eq_def]
        cases p with
        | any => simp at hother
        | exact tag =>
            have htag : tag ≠ v.typeTag := by simpa using hother
            simp only [if_neg htag]
            split
            · next enumName s _ => exact (hnamed _ _ rfl rfl).elim
            · rfl
      rw [acceptAll, haccept]
      rfl
  | case4 ps i vs hnone =>
      obtain rfl : ps = [] := by
        obtain _ | ⟨p, ps⟩ := ps
        · rfl
        · obtain _ | ⟨v, vs⟩ := vs
          · simp at hlength
          · exact (hnone p ps v vs rfl rfl).elim
      obtain rfl := List.eq_nil_of_length_eq_zero hlength.symm
      rfl

/-- What parameters make of arguments is what becomes of these when the changes are written. -/
theorem acceptAll_eq_changes (hlength : ps.length = vs.length) :
    acceptAll types ps vs = (changes types 0 ps vs).map (Option.map (applyChanges · vs)) := by
  have h : (changes types 0 ps vs).map (Option.map (applyChanges · ([] ++ vs))) =
      (acceptAll types ps vs).map (Option.map ([] ++ ·)) := applyChanges_changes hlength rfl
  simp only [List.nil_append] at h
  rw [h]
  cases acceptAll types ps vs with
  | error => rfl
  | ok ws? => cases ws? <;> rfl

end ParamType

namespace Method

variable {H : Host}

/-- The overload has as many type parameters as there are type arguments, and its parameters take the
arguments for `ws`. -/
structure Takes (types : Directory) (args : List Value) (typeArgs : List TypeTag) (f : Method H)
    (ws : List Value) : Prop where
  generics : f.generics = typeArgs.length
  params : ParamType.TakesAll types f.params args ws

variable {types : Directory} {args ws : List Value} {typeArgs : List TypeTag} {f g : Method H}
  {fs : List (Method H)} {fault? : Option Fault}

theorem takes_iff :
    f.Takes types args typeArgs ws ↔
      f.fits args typeArgs = true ∧ ParamType.acceptAll types f.params args = .ok (some ws) := by
  rw [ParamType.acceptAll_eq_some_iff, fits, Bool.and_eq_true, beq_iff_eq, beq_iff_eq]
  constructor
  · intro h
    exact ⟨⟨h.params.length_eq.1, h.generics⟩, h.params⟩
  · rintro ⟨⟨-, hgenerics⟩, hparams⟩
    exact ⟨hgenerics, hparams⟩

theorem firstAccepting_cons_of_takes (h : f.Takes types args typeArgs ws) :
    firstAccepting types args typeArgs fault? (f :: fs) = .ok (f, ws) := by
  obtain ⟨hfits, haccept⟩ := takes_iff.mp h
  rw [firstAccepting, if_pos hfits, haccept]

/-- An overload that does not take the arguments is passed over, whatever is wrong with it. -/
theorem firstAccepting_cons_of_not_takes (h : ∀ ws, ¬f.Takes types args typeArgs ws)
    (fault? : Option Fault) (fs : List (Method H)) :
    ∃ later?, firstAccepting types args typeArgs fault? (f :: fs) =
      firstAccepting types args typeArgs later? fs := by
  rw [firstAccepting]
  split
  · next hfits =>
    cases haccept : ParamType.acceptAll types f.params args with
    | error fault => exact ⟨_, rfl⟩
    | ok ws? =>
        cases ws? with
        | none => exact ⟨_, rfl⟩
        | some ws => exact absurd (takes_iff.mpr ⟨hfits, haccept⟩) (h ws)
  · exact ⟨_, rfl⟩

/-- The overload takes the arguments for `ws`, and none in front of it takes them. -/
def IsFirst (types : Directory) (args : List Value) (typeArgs : List TypeTag) (fs : List (Method H))
    (f : Method H) (ws : List Value) : Prop :=
  ∃ before after, fs = before ++ f :: after ∧ (∀ g ∈ before, ∀ us, ¬g.Takes types args typeArgs us) ∧
    f.Takes types args typeArgs ws

theorem firstAccepting_eq_ok_iff :
    firstAccepting types args typeArgs fault? fs = .ok (f, ws) ↔
      IsFirst types args typeArgs fs f ws := by
  induction fs generalizing fault? with
  | nil => simp [firstAccepting, IsFirst]
  | cons g fs ih =>
      by_cases hg : ∃ us, g.Takes types args typeArgs us
      · obtain ⟨us, hus⟩ := hg
        rw [firstAccepting_cons_of_takes hus]
        constructor
        · intro h
          obtain ⟨rfl, rfl⟩ := Prod.mk.inj (Except.ok.inj h)
          exact ⟨[], fs, rfl, by simp, hus⟩
        · rintro ⟨before, after, hfs, hbefore, hf⟩
          obtain _ | ⟨g', before⟩ := before
          · obtain ⟨rfl, rfl⟩ := List.cons.inj hfs
            have haccept := (takes_iff.mp hus).2.symm.trans (takes_iff.mp hf).2
            rw [Option.some.inj (Except.ok.inj haccept)]
          · obtain ⟨rfl, -⟩ := List.cons.inj hfs
            exact absurd hus (hbefore g (List.mem_cons_self ..) us)
      · have hg' : ∀ us, ¬g.Takes types args typeArgs us := not_exists.mp hg
        obtain ⟨later?, hlater⟩ := firstAccepting_cons_of_not_takes hg' fault? fs
        rw [hlater, ih]
        constructor
        · rintro ⟨before, after, rfl, hbefore, hf⟩
          exact ⟨g :: before, after, rfl, List.forall_mem_cons.mpr ⟨hg', hbefore⟩, hf⟩
        · rintro ⟨before, after, hfs, hbefore, hf⟩
          obtain _ | ⟨g', before⟩ := before
          · obtain ⟨rfl, -⟩ := List.cons.inj hfs
            exact absurd hf (hg' ws)
          · obtain ⟨-, rfl⟩ := List.cons.inj hfs
            exact ⟨before, after, rfl, (List.forall_mem_cons.mp hbefore).2, hf⟩

/-- There is a first one if there is one at all. -/
theorem exists_isFirst_iff :
    (∃ f ws, IsFirst types args typeArgs fs f ws) ↔ ∃ f ∈ fs, ∃ ws, f.Takes types args typeArgs ws := by
  constructor
  · rintro ⟨f, ws, before, after, rfl, -, hf⟩
    exact ⟨f, by simp, ws, hf⟩
  · rintro ⟨f, hmem, hf⟩
    classical
    let taking (f : Method H) : Bool := decide (∃ ws, f.Takes types args typeArgs ws)
    have hsome : (fs.find? taking).isSome := List.find?_isSome.mpr ⟨f, hmem, decide_eq_true hf⟩
    obtain ⟨g, hg⟩ := Option.isSome_iff_exists.mp hsome
    obtain ⟨htakes, before, after, rfl, hbefore⟩ := List.find?_eq_some_iff_append.mp hg
    obtain ⟨ws, hws⟩ := of_decide_eq_true htakes
    refine ⟨g, ws, before, after, rfl, fun g' hg' us hus => ?_, hws⟩
    have hnot := hbefore g' hg'
    simp only [taking, Bool.not_eq_eq_eq_not, Bool.not_true, decide_eq_false_iff_not] at hnot
    exact hnot ⟨us, hus⟩

/-- Tries the overloads on arguments that it may change, with the first fault so far. The first overload
that takes them all makes its changes. -/
def chooseInPlace (types : Directory) (typeArgs : List TypeTag) :
    Option Fault → List (Method H) → EStateM (Option Fault) (List Value) (Method H)
  | fault?, [] => throw fault?
  | fault?, f :: fs => do
    let args ← get
    if f.fits args typeArgs then
      match ParamType.changes types 0 f.params args with
      | .ok (some cs) =>
        set (ParamType.applyChanges cs args)
        return f
      | .ok none => chooseInPlace types typeArgs fault? fs
      | .error fault => chooseInPlace types typeArgs (fault?.or (some fault)) fs
    else chooseInPlace types typeArgs fault? fs

/-- The choice of an overload on arguments that it may change. -/
def selectInPlace (types : Directory) (owner name : String) (overloads? : Option (List (Method H)))
    (typeArgs : List TypeTag) : EStateM Fault (List Value) (Method H) :=
  match overloads? with
  | none => throw (.unknownMethod name owner)
  | some fs => fun args =>
    match chooseInPlace types typeArgs none fs args with
    | .ok f args => .ok f args
    | .error (some fault) args => .error fault args
    | .error none args =>
      .error (.noOverload name owner (", ".intercalate (args.map (·.typeName)))) args

/-- The arguments as the overload gets them, or as they were. -/
def inPlace {ε : Type} (args : List Value) :
    Except ε (Method H × List Value) → EStateM.Result ε (List Value) (Method H)
  | .ok (f, ws) => .ok f ws
  | .error e => .error e args

theorem inPlace_eq_ok_iff {ε : Type} {x : Except ε (Method H × List Value)} :
    inPlace args x = .ok f ws ↔ x = .ok (f, ws) := by
  obtain _ | ⟨g, us⟩ := x <;> simp [inPlace]

theorem inPlace_eq_error_iff {ε : Type} {x : Except ε (Method H × List Value)} {e : ε} :
    inPlace args x = .error e ws ↔ x = .error e ∧ ws = args := by
  obtain _ | ⟨g, us⟩ := x <;> simp [inPlace, eq_comm]

theorem chooseInPlace_eq (fault? : Option Fault) (fs : List (Method H)) (args : List Value) :
    chooseInPlace types typeArgs fault? fs args =
      inPlace args (firstAccepting types args typeArgs fault? fs) := by
  induction fs generalizing fault? with
  | nil => rfl
  | cons f fs ih =>
      have hget : (get : EStateM (Option Fault) (List Value) _) args = .ok args args := rfl
      rw [chooseInPlace, run_bind_of_ok hget, firstAccepting]
      split
      · next hfits =>
        have hlength : f.params.length = args.length := by
          simp only [fits, Bool.and_eq_true, beq_iff_eq] at hfits
          exact hfits.1
        rw [ParamType.acceptAll_eq_changes hlength]
        cases ParamType.changes types 0 f.params args with
        | error fault => exact ih (fault?.or (some fault))
        | ok cs? =>
            cases cs? with
            | none => exact ih fault?
            | some cs => rfl
      · exact ih fault?

theorem selectInPlace_eq (types : Directory) (owner name : String)
    (overloads? : Option (List (Method H))) (args : List Value) (typeArgs : List TypeTag) :
    selectInPlace types owner name overloads? typeArgs args =
      inPlace args (select types owner name overloads? args typeArgs) := by
  rw [selectInPlace.eq_def, select.eq_def]
  cases overloads? with
  | none => rfl
  | some fs =>
      simp only [chooseInPlace_eq]
      cases firstAccepting types args typeArgs none fs with
      | ok chosen => rfl
      | error fault? => cases fault? <;> rfl

theorem select_some_eq_ok_iff (owner name : String) :
    select types owner name (some fs) args typeArgs = .ok (f, ws) ↔
      IsFirst types args typeArgs fs f ws := by
  refine .trans ?_
    (firstAccepting_eq_ok_iff : firstAccepting types args typeArgs none fs = .ok (f, ws) ↔ _)
  rw [select]
  cases firstAccepting types args typeArgs none fs with
  | ok chosen => simp
  | error fault? => cases fault? <;> simp

theorem text_code_of_select_some {owner name : String} {fault : Fault}
    (h : select types owner name (some fs) args typeArgs = .error fault) :
    fault.code.text ≠ "E2004" := by
  rw [select] at h
  split at h
  · cases h
  · next fault' hfault =>
    obtain rfl := Except.error.inj h
    have hcode := code_of_firstAccepting hfault (by simp)
    simp only [List.mem_cons, List.not_mem_nil, or_false] at hcode
    rcases hcode with hcode | hcode <;> rw [hcode] <;> decide
  · obtain rfl := Except.error.inj h
    exact (by decide : "E6004" ≠ "E2004")

/-- The choice of an overload succeeds exactly if there is an overload that takes the arguments. It is
then the first of these, and the arguments become what its parameters take them for. A choice that fails
leaves the arguments as they were, and there is no method of the name exactly if the fault says so. -/
theorem selectInPlace_first (types : Directory) (owner name : String)
    (overloads? : Option (List (Method H))) (args : List Value) (typeArgs : List TypeTag) :
    let chosen := selectInPlace types owner name overloads? typeArgs args
    ((∃ f ws, chosen = .ok f ws) ↔
        ∃ fs, overloads? = some fs ∧ ∃ f ∈ fs, ∃ ws, f.Takes types args typeArgs ws) ∧
      (∀ f ws, chosen = .ok f ws ↔
        ∃ fs, overloads? = some fs ∧ IsFirst types args typeArgs fs f ws) ∧
      (∀ fault args', chosen = .error fault args' →
        args' = args ∧ (fault.code.text = "E2004" ↔ overloads? = none)) ∧
      chosen = inPlace args (select types owner name overloads? args typeArgs) := by
  intro chosen
  have hchosen : chosen = inPlace args (select types owner name overloads? args typeArgs) :=
    selectInPlace_eq types owner name overloads? args typeArgs
  have hok (f : Method H) (ws : List Value) : chosen = .ok f ws ↔
      ∃ fs, overloads? = some fs ∧ IsFirst types args typeArgs fs f ws := by
    rw [hchosen, inPlace_eq_ok_iff]
    cases overloads? with
    | none => simp [select]
    | some fs => simp [select_some_eq_ok_iff]
  refine ⟨?_, hok, fun fault args' h => ?_, hchosen⟩
  · simp only [hok, ← exists_isFirst_iff]
    constructor
    · rintro ⟨f, ws, fs, hfs, hfirst⟩
      exact ⟨fs, hfs, f, ws, hfirst⟩
    · rintro ⟨fs, hfs, f, ws, hfirst⟩
      exact ⟨f, ws, fs, hfs, hfirst⟩
  · obtain ⟨hselect, rfl⟩ := inPlace_eq_error_iff.mp (hchosen.symm.trans h)
    refine ⟨rfl, ?_⟩
    cases overloads? with
    | none =>
        obtain rfl := Except.error.inj hselect
        exact ⟨fun _ => rfl, fun _ => rfl⟩
    | some fs => exact ⟨fun hcode => absurd hcode (text_code_of_select_some hselect), nofun⟩

/-- A text that names no mode may name an axis, and if it does not the fault is about modes. -/
theorem selectInPlace_first_axis :
    let types := Sample.registry.directory
    let overloads? := Sample.Counter.typeDef.toHostType.methods? "Pick"
    let chosen args := selectInPlace types "Counter" "Pick" overloads? [] args
    let fault : Fault := .unknownVariant "Mode" "W"
    (∃ f fs, overloads? = some fs ∧ f.params = [.exact (.enum "Axis")] ∧
        IsFirst types [.string "Y"] [] fs f [.enum ⟨"Axis", "Y", 1⟩]) ∧
      ∃ args', chosen [.string "W"] = .error fault args' ∧ args' = [.string "W"] ∧
        (fault.code.text = "E2004" ↔ overloads? = none) := by
  intro types overloads? chosen fault
  have hfirst (args : List Value) := selectInPlace_first types "Counter" "Pick" overloads? args []
  constructor
  · let pickAxis : Method Sample.host :=
      ⟨"Pick", [.exact (.enum "Axis")], 0, false, fun _ => return .string "axis"⟩
    have hok : chosen [.string "Y"] = .ok pickAxis [.enum ⟨"Axis", "Y", 1⟩] := rfl
    obtain ⟨fs, hfs, h⟩ := ((hfirst _).2.1 pickAxis _).mp hok
    exact ⟨pickAxis, fs, hfs, rfl, h⟩
  · have herror : chosen [.string "W"] = .error fault [.string "W"] := rfl
    exact ⟨[.string "W"], herror, (hfirst _).2.2.1 fault _ herror⟩

end Method

end Formula
