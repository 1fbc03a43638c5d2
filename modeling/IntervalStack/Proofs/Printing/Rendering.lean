import IntervalStack.Proofs.ErrorHandlers
import Mathlib.Data.List.Forall2

/-! Formatted output as a whole: it prints all that the format asks for, or faults and prints nothing. -/

namespace IntervalStack

namespace Format

variable {readText : UInt32 → Except Fault String} {p : Piece} {ps : List Piece} {v : Value}
  {vs : List Value} {text text' : String}

inductive Shown (readText : UInt32 → Except Fault String) : Piece → Value → String → Prop
  | int (n : Int32) : Shown readText .int (.int n) (toString n.toInt)
  | general (x : Double) : Shown readText .general (.float x) x.general
  | char (n : Int32) :
      Shown readText .char (.int n) (String.singleton (Char.ofNat (n.toUInt32.toNat % 256)))
  | str {n : Int32} {text : String} (h : readText n.toUInt32 = .ok text) :
      Shown readText .str (.int n) text

/-- The texts of a format and those of the arguments, one for each directive, in the order of the
format. -/
inductive Renders (readText : UInt32 → Except Fault String) :
    List Piece → List Value → String → Prop
  | nil : Renders readText [] [] ""
  | text {ps : List Piece} {vs : List Value} {rest : String} (s : String)
      (h : Renders readText ps vs rest) : Renders readText (.text s :: ps) vs (s ++ rest)
  | argument {p : Piece} {ps : List Piece} {v : Value} {vs : List Value} {first rest : String}
      (hfirst : Shown readText p v first) (h : Renders readText ps vs rest) :
      Renders readText (p :: ps) (v :: vs) (first ++ rest)

theorem Shown.takesArgument (h : Shown readText p v text) : p.takesArgument = true := by
  cases h <;> rfl

theorem renderArgument_eq_ok : renderArgument readText p v = .ok text ↔ Shown readText p v text := by
  constructor
  · intro h
    unfold renderArgument at h
    split at h
    · obtain rfl := Except.ok.inj h
      exact .int _
    · obtain rfl := Except.ok.inj h
      exact .general _
    · obtain rfl := Except.ok.inj h
      exact .char _
    · exact .str h
    · cases h
  · intro h
    cases h with
    | int | general | char => rfl
    | str h => exact h

@[simp] theorem argumentCount_nil : argumentCount [] = 0 := rfl

@[simp] theorem argumentCount_text (s : String) : argumentCount (.text s :: ps) = argumentCount ps := by
  simp [argumentCount, Piece.takesArgument]

theorem argumentCount_cons (hp : p.takesArgument = true) :
    argumentCount (p :: ps) = argumentCount ps + 1 := by
  simp [argumentCount, hp]

theorem render_cons (hp : p.takesArgument = true) :
    render readText (p :: ps) (v :: vs) = do
      let first ← renderArgument readText p v
      let rest ← render readText ps vs
      return first ++ rest := by
  cases p with
  | text => cases hp
  | _ => rfl

theorem Renders.render (h : Renders readText ps vs text) : render readText ps vs = .ok text := by
  induction h with
  | nil => rfl
  | text s _ ih =>
    rw [Format.render, ih]
    rfl
  | argument hfirst _ ih =>
    rw [render_cons hfirst.takesArgument, renderArgument_eq_ok.2 hfirst, ih]
    rfl

theorem renders_of_render (hcount : vs.length = argumentCount ps)
    (h : render readText ps vs = .ok text) : Renders readText ps vs text := by
  induction ps generalizing vs text with
  | nil =>
    obtain rfl := List.length_eq_zero_iff.1 hcount
    obtain rfl := Except.ok.inj h
    exact .nil
  | cons p ps ih =>
    by_cases hp : p.takesArgument = true
    · rw [argumentCount_cons hp] at hcount
      obtain ⟨v, vs, rfl⟩ := List.exists_cons_of_length_eq_add_one hcount
      rw [render_cons hp] at h
      simp only [bind, Except.bind, pure, Except.pure] at h
      split at h
      · cases h
      · next first hfirst =>
        split at h
        · cases h
        · next rest hrest =>
          obtain rfl := Except.ok.inj h
          exact .argument (renderArgument_eq_ok.1 hfirst) (ih (Nat.succ.inj hcount) hrest)
    · cases p with
      | text s =>
        rw [argumentCount_text] at hcount
        simp only [render, bind, Except.bind, pure, Except.pure] at h
        split at h
        · cases h
        · next rest hrest =>
          obtain rfl := Except.ok.inj h
          exact .text s (ih hcount hrest)
      | _ => exact absurd rfl hp

theorem Renders.unique (h : Renders readText ps vs text) (h' : Renders readText ps vs text') :
    text = text' :=
  Except.ok.inj (h.render.symm.trans h'.render)

/-- The arguments go with the directives one by one: numbers with those for numbers, and with the
ones for texts the addresses of texts that can be read. -/
def Matches (readText : UInt32 → Except Fault String) (ps : List Piece) (vs : List Value) : Prop :=
  List.Forall₂ (fun p v => ∃ text, Shown readText p v text) (ps.filter Piece.takesArgument) vs

theorem Matches.length_eq (h : Matches readText ps vs) : vs.length = argumentCount ps := by
  rw [argumentCount, List.countP_eq_length_filter, List.Forall₂.length_eq h]

theorem Renders.matches (h : Renders readText ps vs text) : Matches readText ps vs := by
  induction h with
  | nil => exact .nil
  | text s _ ih => exact ih
  | argument hfirst _ ih =>
    rw [Matches, List.filter_cons_of_pos hfirst.takesArgument]
    exact .cons ⟨_, hfirst⟩ ih

theorem Matches.renders (h : Matches readText ps vs) : ∃ text, Renders readText ps vs text := by
  induction ps generalizing vs with
  | nil =>
    cases h
    exact ⟨"", .nil⟩
  | cons p ps ih =>
    by_cases hp : p.takesArgument = true
    · rw [Matches, List.filter_cons_of_pos hp] at h
      obtain ⟨v, vs, ⟨first, hfirst⟩, hrest, rfl⟩ := List.forall₂_cons_left_iff.1 h
      obtain ⟨rest, hrest⟩ := ih hrest
      exact ⟨_, .argument hfirst hrest⟩
    · rw [Matches, List.filter_cons_of_neg hp] at h
      obtain ⟨rest, hrest⟩ := ih h
      cases p with
      | text s => exact ⟨_, .text s hrest⟩
      | _ => exact absurd rfl hp

end Format

namespace Machine

variable {m : Machine} {limit : Nat} {pieces : List Piece} {args below : List Value}

/-- On top of the stack lies the address of a format, and under it what the format asks for, the
argument of the first directive deepest. -/
def Offers (m : Machine) (pieces : List Piece) (args below : List Value) : Prop :=
  ∃ (n : Int32) (format : String), m.stack = .int n :: (args.reverse ++ below) ∧
    m.readText n.toUInt32 = .ok format ∧ Format.parse format = .ok pieces ∧
    Format.Matches m.readText pieces args

theorem Offers.printf_run (h : m.Offers pieces args below) (pc : Nat) :
    ∃ text, Format.Renders m.readText pieces args text ∧
      (printf pc).run m = .ok () { m with stack := below, output := m.output ++ text } := by
  obtain ⟨n, format, hstack, hformat, hparse, hmatches⟩ := h
  obtain ⟨text, hrenders⟩ := hmatches.renders
  have hcount : Format.argumentCount pieces = args.reverse.length := by
    rw [List.length_reverse, hmatches.length_eq]
  refine ⟨text, hrenders, ?_⟩
  have hrender : Format.render m.readText pieces
      ((args.reverse ++ below).take (Format.argumentCount pieces)).reverse = .ok text := by
    rw [hcount, List.take_left, List.reverse_reverse]
    exact hrenders.render
  have henough : Format.argumentCount pieces ≤ (args.reverse ++ below).length := by
    rw [hcount, List.length_append]
    omega
  rw [Machine.printf_run _ hstack hformat hparse henough hrender, hcount, List.drop_left]

/-- Formatted output that does not fault had its operands offered; if it faults, it has popped some
of them and done nothing else. -/
theorem printf_cases (m : Machine) (pc : Nat) :
    (∃ pieces args below, m.Offers pieces args below) ∨
      ∃ e stack, (printf pc).run m = .error e { m with stack } := by
  have hread (stack : List Value) : Machine.readText { m with stack } = m.readText := rfl
  cases hstack : m.stack with
  | nil =>
    have hsame : { m with stack := [] } = m := by rw [← hstack]
    refine .inr ⟨.stackUnderflow pc, [], ?_⟩
    rw [hsame]
    simp only [printf, popInt, pop, EStateM.run_bind, EStateM.run_get, hstack]
    rfl
  | cons v rest =>
    cases v with
    | float x =>
      refine .inr ⟨.typeMismatch pc .integer (.float x), rest, ?_⟩
      simp only [printf, popInt, pop, EStateM.run_bind, EStateM.run_get, EStateM.run_modify,
        EStateM.run_pure, hstack]
      rfl
    | int n =>
      have hpop : (popInt pc).run m = .ok n { m with stack := rest } := popInt_run hstack
      cases hformat : m.readText n.toUInt32 with
      | error e =>
        refine .inr ⟨e, rest, ?_⟩
        simp only [printf, EStateM.run_bind, hpop, EStateM.run_get, hread, hformat]
        rfl
      | ok format =>
        cases hparse : Format.parse format with
        | error e =>
          refine .inr ⟨.badFormat e, rest, ?_⟩
          simp only [printf, EStateM.run_bind, hpop, EStateM.run_get, hread, hformat, hparse]
          rfl
        | ok pieces =>
          by_cases hcount : rest.length < Format.argumentCount pieces
          · refine .inr ⟨.stackUnderflow pc, rest, ?_⟩
            simp only [printf, EStateM.run_bind, hpop, EStateM.run_get, hread, hformat, hparse,
              if_pos hcount]
            rfl
          · cases hrender : Format.render m.readText pieces
                (rest.take (Format.argumentCount pieces)).reverse with
            | error e =>
              refine .inr ⟨e, rest.drop (Format.argumentCount pieces), ?_⟩
              simp only [printf, EStateM.run_bind, hpop, EStateM.run_get, EStateM.run_modify, hread,
                hformat, hparse, if_neg hcount, hrender]
              rfl
            | ok text =>
              refine .inl ⟨pieces, _, rest.drop (Format.argumentCount pieces), n, format, ?_, hformat,
                hparse, (Format.renders_of_render ?_ hrender).matches⟩
              · rw [List.reverse_reverse, List.take_append_drop, hstack]
              · rw [List.length_reverse, List.length_take, Nat.min_eq_left (Nat.not_lt.1 hcount)]

/-- A step of formatted output. If the operands go with the format, exactly the address of the format
and the operands it asks for leave the stack, and the output grows by what they render to. In all
other cases the step faults, and the output, the memory and the heap are as before. -/
theorem printf_all_or_nothing (hlimit : m.steps < limit) (hi : m.image.code[m.pc]? = some .printf) :
    (∀ pieces args below, m.Offers pieces args below →
      ∃ text, Format.Renders m.readText pieces args text ∧
        (step limit).run m = .ok () { m with
          steps := m.steps + 1, pc := m.pc + 1, stack := below, output := m.output ++ text }) ∧
    ((¬ ∃ pieces args below, m.Offers pieces args below) →
      ∃ e m', (step limit).run m = .error e m' ∧
        m'.output = m.output ∧ m'.memory = m.memory ∧ m'.heap = m.heap) := by
  have hstep : (step limit).run m
      = (printf m.pc).run { m with steps := m.steps + 1, pc := m.pc + 1 } := by
    rw [step_run m hlimit, hi]
    rfl
  refine ⟨fun pieces args below hoffers => ?_, fun hnone => ?_⟩
  · obtain ⟨text, hrenders, hrun⟩ := Offers.printf_run
      (m := { m with steps := m.steps + 1, pc := m.pc + 1 }) hoffers m.pc
    exact ⟨text, hrenders, hstep.trans hrun⟩
  · rcases printf_cases { m with steps := m.steps + 1, pc := m.pc + 1 } m.pc with
      hoffers | ⟨e, stack, hrun⟩
    · exact absurd hoffers hnone
    · exact ⟨e, _, hstep.trans hrun, rfl, rfl, rfl⟩

/-- Two texts in memory, a format and an argument for it. -/
def priceListing : Code := [.dataS "%c:%d%% %s", .dataS "€", .printf]

theorem printf_all_or_nothing_price :
    ∃ m m' e m'', load priceListing ⟨64, 0, 0⟩ = .ok m ∧
      (step 1).run { m with stack := [.int 0, .int 11, .int (-7), .int 65, .int 3] } = .ok () m' ∧
      m'.output = "A:-7% €" ∧ m'.stack = [.int 3] ∧
      (step 1).run { m with stack := [.int 0, .int 11, .int (-7)] } = .error e m'' ∧
      m''.output = "" := by
  obtain ⟨m, h⟩ := (load_iff priceListing ⟨64, 0, 0⟩).2 (by decide +kernel)
  have hloaded := load_loaded h
  have hformat : m.readText 0 = .ok "%c:%d%% %s" := load_readText [] h rfl (by decide)
  have hsign : m.readText 11 = .ok "€" :=
    load_readText [.dataS "%c:%d%% %s"] h rfl (by decide)
  obtain ⟨l, -, -, -, hm⟩ := load_ok h
  have hlimit : m.steps < 1 := by
    rw [hm]
    exact Nat.zero_lt_one
  have houtput : m.output = "" := by rw [hm]
  have hcode : m.image.code[m.pc]? = some .printf := by
    rw [← Array.getElem?_toList, hloaded.code, hm]
    rfl
  have hparse : Format.parse "%c:%d%% %s" = .ok [.char, .text ":", .int, .text "% ", .str] := by
    decide +kernel
  have hmatches : Format.Matches m.readText [.char, .text ":", .int, .text "% ", .str]
      [.int 65, .int (-7), .int 11] :=
    .cons ⟨_, .char 65⟩ (.cons ⟨_, .int (-7)⟩ (.cons ⟨_, .str hsign⟩ .nil))
  have hprice : Format.Renders m.readText [.char, .text ":", .int, .text "% ", .str]
      [.int 65, .int (-7), .int 11] "A:-7% €" :=
    .argument (.char 65) (.text ":" (.argument (.int (-7)) (.text "% " (.argument (.str hsign) .nil))))
  obtain ⟨hprints, -⟩ := printf_all_or_nothing
    (m := { m with stack := [.int 0, .int 11, .int (-7), .int 65, .int 3] }) hlimit hcode
  obtain ⟨text, hrenders, hrun⟩ := hprints _ _ [.int 3] ⟨0, _, rfl, hformat, hparse, hmatches⟩
  obtain ⟨-, hfaults⟩ := printf_all_or_nothing
    (m := { m with stack := [.int 0, .int 11, .int (-7)] }) hlimit hcode
  have hshort : ¬ ∃ pieces args below,
      Offers { m with stack := [.int 0, .int 11, .int (-7)] } pieces args below := by
    rintro ⟨pieces, args, below, n, format, hstack, hread, hparse', hmatches'⟩
    obtain ⟨hn, hrest⟩ := List.cons.inj hstack
    obtain rfl := Value.int.inj hn
    obtain rfl := Except.ok.inj (hread.symm.trans hformat)
    obtain rfl := Except.ok.inj (hparse'.symm.trans hparse)
    have hcount : args.length = 3 := hmatches'.length_eq
    have hlength := congrArg List.length hrest
    rw [List.length_append, List.length_reverse, hcount] at hlength
    simp only [List.length_cons, List.length_nil] at hlength
    omega
  obtain ⟨e, m'', hfault, hsilent, -⟩ := hfaults hshort
  refine ⟨m, _, e, m'', h, hrun, ?_, rfl, hfault, hsilent.trans houtput⟩
  show m.output ++ text = _
  rw [houtput, hrenders.unique hprice]
  rfl

end Machine
end IntervalStack
