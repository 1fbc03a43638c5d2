import IntervalStack.Proofs.ErrorHandlers
import IntervalStack.Proofs.Evaluation.Places

/-! Scalar expressions evaluate as their tree says. The code of an expression, wherever it stands and
whatever is on the stack, pushes the value and changes nothing else, or control gets to the handler of
divisions by zero. -/

namespace IntervalStack

namespace Machine

variable {m : Machine} {c : Code}

/-- The handlers of run-time errors stand in the program, and what they print on a division by zero
stands in memory. -/
structure ReportsDivisions (m : Machine) : Prop where
  handlers : ∃ p, Placed m.image p Environment.errorHandlers
  size : m.memory.size ≤ UInt32.size
  format : m.Shows Environment.errorFormat "Runtime error: %s\n"
  message : m.Shows Environment.divideByZeroMessage "division by zero"

theorem ReportsDivisions.label (h : m.ReportsDivisions) :
    (m.image.label? Environment.divideByZero).isSome := by
  obtain ⟨p, hp⟩ := h.handlers
  rw [hp.label (Environment.errorHandlers.take 4) Environment.divideByZero
    (Environment.errorHandlers.drop 5) rfl]
  rfl

/-- What comes of running the code at the program counter: it pushes the value and changes nothing
else. Without a value, control gets to the handler of divisions by zero, which reports one and
halts. -/
def RunsTo (m : Machine) (c : Code) : Option Value → Prop
  | some v => ∃ steps,
      m.Reaches { m with pc := m.pc + c.executable.length, stack := v :: m.stack, steps }
  | none => ∃ m₁ m', m.Reaches m₁ ∧ m₁.image.label? Environment.divideByZero = some m₁.pc ∧
      m₁.memory = m.memory ∧ m₁.heap = m.heap ∧ m₁.output = m.output ∧
      m₁.Reports m' "division by zero"

theorem Produces.runsTo {r : Option Value} (h : m.Produces c [] r) (hrunning : m.halted = false)
    (hreports : m.ReportsDivisions) (hplaced : Placed m.image m.pc c) : m.RunsTo c r := by
  cases r with
  | some v =>
    obtain ⟨steps, hreaches⟩ := reaches_of_goes hrunning (h m.pc m.stack hplaced)
    rw [View.machine, ← hrunning] at hreaches
    exact ⟨steps, hreaches⟩
  | none =>
    obtain ⟨t, stack', ht, hgoes⟩ := h m.pc m.stack hplaced
    obtain ⟨steps, hreaches⟩ := reaches_of_goes hrunning hgoes
    obtain ⟨q, hq⟩ := hreports.handlers
    obtain ⟨m', hm'⟩ := division_reports
      (m := View.machine ⟨t, stack', m.memory, m.heap⟩ m.image m.output steps) hq ht rfl
      hreports.size hreports.format hreports.message
    exact ⟨_, m', hreaches, ht, rfl, rfl, rfl, hm'⟩

end Machine

namespace Generator

variable {p : Typing} {ctx : Context} {e : Expr} {c : Code} {i : Instr} {s : State}

/-! The code of binary operators, given the code of the operands. -/

variable {op : BinOp} {lhs rhs : Expr} {s₁ s₂ : State} {left right : Code}

theorem expr_logical (ty : Ty) (span : Span) (hop : op.isLogical) (hty : lhs.ty = .bool)
    (hleft : (expr ctx lhs >>= valueOf lhs) s = .ok (left, s₁))
    (hright : (expr ctx rhs >>= valueOf rhs) s₁.next = .ok (right, s₂)) :
    ∃ done, expr ctx ⟨.binary op lhs rhs, ty, span⟩ s
      = .ok (value (logicalCode op left right done), s₂) := by
  obtain ⟨f, s₃, hf, hleft⟩ := bind_ok.1 hleft
  obtain ⟨g, s₄, hg, hright⟩ := bind_ok.1 hright
  refine ⟨s₁.label (if op = .and then "and" else "or"), ?_⟩
  simp only [expr, exprKind, bind_ok, require_ok, hop, if_true, fresh_ok, pure_ok,
    decide_eq_true_eq]
  exact ⟨(), s, ⟨by rw [hty]; rfl, rfl⟩, f, s₃, hf, left, s₁, hleft, (), s₁, ⟨hty, rfl⟩, _, _,
    ⟨rfl, rfl⟩, g, s₄, hg, right, s₂, hright, rfl, rfl⟩

theorem expr_arithmetic (ty : Ty) (span : Span) (hlogical : op.isLogical = false)
    (hcompare : op.isComparison = false)
    (hty : !lhs.ty.isHeap && lhs.ty ≠ .void) (hbool : lhs.ty ≠ .bool)
    (hleft : (expr ctx lhs >>= valueOf lhs) s = .ok (left, s₁))
    (hright : (expr ctx rhs >>= valueOf rhs) s₁ = .ok (right, s₂))
    (hc : arithmetic? op lhs.ty.isFloat = some c) :
    expr ctx ⟨.binary op lhs rhs, ty, span⟩ s = .ok (value (left ++ right ++ c), s₂) := by
  obtain ⟨f, s₃, hf, hleft⟩ := bind_ok.1 hleft
  obtain ⟨g, s₄, hg, hright⟩ := bind_ok.1 hright
  simp only [expr, exprKind, bind_ok, require_ok, hlogical, hcompare, Bool.false_eq_true, if_false,
    hc, pure_ok, decide_eq_true_eq]
  exact ⟨(), s, ⟨hty, rfl⟩, f, s₃, hf, left, s₁, hleft, g, s₄, hg, right, s₂, hright, (), s₂,
    ⟨hbool, rfl⟩, rfl, rfl⟩

def Evaluates (ctx : Context) (e : Expr) : Prop :=
  ∀ s, ∃ c s', (expr ctx e >>= valueOf e) s = .ok (c, s') ∧ ∀ m : Machine,
    (m.image.label? Environment.divideByZero).isSome → m.addressable ctx.selfSlot e →
      m.Produces c [] (m.eval ctx.selfSlot e)

def Typed (ctx : Context) (e : Expr) : Prop :=
  ∀ (m : Machine) v, m.eval ctx.selfSlot e = some v → e.ty.Operands [v]

variable {ty : Ty} {span : Span} {kind : ExprKind}

theorem Typed.binary (hop : op.takes lhs.ty) (hty : rhs.ty = lhs.ty) (hl : Typed ctx lhs)
    (hr : Typed ctx rhs) : Typed ctx ⟨.binary op lhs rhs, op.result lhs.ty, span⟩ := by
  intro m v h
  obtain ⟨a, ha, h⟩ := Option.bind_eq_some_iff.1 h
  split at h
  · next hdecided =>
    cases h
    exact BinOp.operands_decided hdecided
  · obtain ⟨b, hb, h⟩ := Option.bind_eq_some_iff.1 h
    exact BinOp.operands_apply hop (hl m a ha) (hty ▸ hr m b hb) h

theorem Typed.unary {op : UnaryOp} (hop : op.takes e.ty) (h : Typed ctx e) :
    Typed ctx ⟨.unary op e, op.result e.ty, span⟩ := by
  intro m v hv
  obtain ⟨u, hu, hv⟩ := Option.bind_eq_some_iff.1 hv
  cases hv
  exact UnaryOp.operands_apply hop (h m u hu)

theorem Typed.place (hs : kind.isPath && ty.isScalar)
    (heval : ∀ m : Machine, m.eval ctx.selfSlot ⟨kind, ty, span⟩
      = some (m.memory.value ty (m.locateKind ctx.selfSlot kind))) :
    Typed ctx ⟨kind, ty, span⟩ := by
  intro m v hv
  rw [heval] at hv
  cases hv
  obtain ⟨k, rfl⟩ := Ty.eq_of_isScalar (Bool.and_eq_true_iff.1 hs).2
  cases k <;> exact ⟨_, rfl⟩

namespace Evaluates

theorem literal {v : Value} (hcode : ∀ s, expr ctx e s = .ok (value [i], s))
    (heval : ∀ m : Machine, m.eval ctx.selfSlot e = some v)
    (hproduces : ∀ m : Machine, m.Produces [i] [] (some v)) : Evaluates ctx e := by
  refine fun s => ⟨[i], s, bind_ok.2 ⟨_, _, hcode s, rfl⟩, fun m _ _ => ?_⟩
  rw [heval]
  exact hproduces m

theorem logical (hop : op.isLogical) (hty : lhs.ty = .bool) (htyped : Typed ctx lhs)
    (hl : Evaluates ctx lhs) (hr : Evaluates ctx rhs) :
    Evaluates ctx ⟨.binary op lhs rhs, ty, span⟩ := by
  intro s
  obtain ⟨left, s₁, hleft, hlruns⟩ := hl s
  obtain ⟨right, s₂, hright, hrruns⟩ := hr s₁.next
  obtain ⟨done, hcode⟩ := expr_logical ty span hop hty hleft hright
  refine ⟨_, s₂, bind_ok.2 ⟨_, _, hcode, rfl⟩, fun m htrap hm => ?_⟩
  have hm := Bool.and_eq_true_iff.1 hm
  refine logical_produces hop (hlruns m htrap hm.1) (fun v hv => ?_) (hrruns m htrap hm.2)
  obtain ⟨n, hn⟩ := hty ▸ htyped m v hv
  exact ⟨n, List.singleton_inj.1 hn⟩

theorem strict (hlogical : op.isLogical = false) (hlt : Typed ctx lhs) (hrt : Typed ctx rhs)
    (hty : rhs.ty = lhs.ty) (hl : Evaluates ctx lhs) (hr : Evaluates ctx rhs)
    (hop : ∀ {s left s₁ right s₂}, (expr ctx lhs >>= valueOf lhs) s = .ok (left, s₁) →
      (expr ctx rhs >>= valueOf rhs) s₁ = .ok (right, s₂) →
        ∃ c s', expr ctx ⟨.binary op lhs rhs, ty, span⟩ s
            = .ok (value (left ++ right ++ c), s') ∧
          ∀ (m : Machine) (a b : Value), (m.image.label? Environment.divideByZero).isSome →
            lhs.ty.Operands [a] → lhs.ty.Operands [b] → m.Produces c [b, a] (op.apply a b)) :
    Evaluates ctx ⟨.binary op lhs rhs, ty, span⟩ := by
  intro s
  obtain ⟨left, s₁, hleft, hlruns⟩ := hl s
  obtain ⟨right, s₂, hright, hrruns⟩ := hr s₁
  obtain ⟨c, s', hcode, hruns⟩ := hop hleft hright
  refine ⟨_, s', bind_ok.2 ⟨_, _, hcode, rfl⟩, fun m htrap hm => ?_⟩
  -- No left operand decides alone.
  have heval : m.eval ctx.selfSlot ⟨.binary op lhs rhs, ty, span⟩
      = (m.eval ctx.selfSlot lhs).bind fun a => (m.eval ctx.selfSlot rhs).bind (op.apply a) := by
    refine congrArg (Option.bind _) (funext fun a => ?_)
    rw [BinOp.decidedBy_eq_false hlogical]
    rfl
  rw [heval]
  have hm := Bool.and_eq_true_iff.1 hm
  show m.Produces (left ++ right ++ c) _ _
  rw [List.append_assoc]
  exact (hlruns m htrap hm.1).append fun a ha => (hrruns m htrap hm.2).append fun b hb =>
    hruns m a b htrap (hlt m a ha) (hty ▸ hrt m b hb)

theorem binary (hop : op.takes lhs.ty) (hty : rhs.ty = lhs.ty) (hlt : Typed ctx lhs)
    (hrt : Typed ctx rhs) (hl : Evaluates ctx lhs) (hr : Evaluates ctx rhs) :
    Evaluates ctx ⟨.binary op lhs rhs, ty, span⟩ := by
  cases hlogical : op.isLogical with
  | true =>
    rw [BinOp.takes, if_pos hlogical, decide_eq_true_eq] at hop
    exact logical hlogical hop hlt hl hr
  | false =>
    rw [BinOp.takes, hlogical, if_neg Bool.false_ne_true, Bool.and_eq_true] at hop
    have hplain := Ty.plain_of_isScalar hop.1
    cases hcompare : op.isComparison with
    | true =>
      exact strict hlogical hlt hrt hty hl hr fun hleft hright =>
        ⟨_, _, expr_comparison ty span hcompare hplain hleft hright, fun m a b _ ha hb =>
          comparison_produces hcompare ha hb⟩
    | false =>
      have hbool : lhs.ty ≠ .bool := by simpa [hcompare] using hop.2
      -- Only the four arithmetic operators are left.
      obtain ⟨c, hc⟩ : ∃ c, arithmetic? op lhs.ty.isFloat = some c := by
        cases op <;> cases hlogical <;> cases hcompare <;> cases lhs.ty.isFloat <;> exact ⟨_, rfl⟩
      exact strict hlogical hlt hrt hty hl hr fun hleft hright =>
        ⟨c, _, expr_arithmetic ty span hlogical hcompare hplain hbool hleft hright hc,
          fun m a b htrap ha hb => arithmetic_produces hc htrap ha hb⟩

theorem unary {op : UnaryOp} (hop : op.takes e.ty) (htyped : Typed ctx e) (h : Evaluates ctx e) :
    Evaluates ctx ⟨.unary op e, ty, span⟩ := by
  intro s
  obtain ⟨c, s₁, hc, hruns⟩ := h s
  obtain ⟨f, s₂, hf, hc⟩ := bind_ok.1 hc
  obtain ⟨c', s', hc', hop'⟩ := unaryCode_produces hop span s₁
  have hplain := Ty.plain_of_isScalar (UnaryOp.isScalar_of_takes hop)
  have hcode : expr ctx ⟨.unary op e, ty, span⟩ s = .ok (value (c ++ c'), s') := by
    simp only [expr, exprKind, bind_ok, require_ok, pure_ok]
    exact ⟨(), s, ⟨hplain, rfl⟩, f, s₂, hf, c, s₁, hc, c', s', hc', rfl, rfl⟩
  refine ⟨_, s', bind_ok.2 ⟨_, _, hcode, rfl⟩, fun m htrap hm => ?_⟩
  exact (hruns m htrap hm).append fun v hv => hop' m v (htyped m v hv)

theorem place (hself : p.self.isSome → ctx.selfSlot.isSome) (hty : p.kindOk ty kind)
    (hs : kind.isPath && ty.isScalar) (haddress : ∀ m : Machine,
      m.addressable ctx.selfSlot ⟨kind, ty, span⟩ = (m.leadsKind ctx.selfSlot kind &&
        m.readable (m.locateKind ctx.selfSlot kind) ty.size.toNat))
    (heval : ∀ m : Machine, m.eval ctx.selfSlot ⟨kind, ty, span⟩
      = some (m.memory.value ty (m.locateKind ctx.selfSlot kind))) :
    Evaluates ctx ⟨kind, ty, span⟩ := by
  intro s
  obtain ⟨hpath, hscalar⟩ := Bool.and_eq_true_iff.1 hs
  obtain ⟨c, hc, hruns⟩ := pathKind_produces hself ty span kind hty hpath
  obtain ⟨i, hi⟩ : ∃ i, Instr.load? ty = some i := by
    obtain ⟨k, rfl⟩ := Ty.eq_of_isScalar hscalar
    cases k <;> exact ⟨_, rfl⟩
  refine ⟨c ++ [i], s, bind_ok.2 ⟨_, _, hc s, valueOf_address hi⟩, fun m _ hm => ?_⟩
  rw [haddress, Bool.and_eq_true] at hm
  rw [heval]
  exact (hruns m hm.1).followed (.load hi hm.2)

end Evaluates

mutual

theorem scalar_evaluates (hself : p.self.isSome → ctx.selfSlot.isSome) : (e : Expr) →
    p.exprOk e → e.isScalar → Typed ctx e ∧ Evaluates ctx e
  | ⟨kind, ty, span⟩, hty, hs => scalarKind_evaluates hself ty span kind hty hs

theorem scalarKind_evaluates (hself : p.self.isSome → ctx.selfSlot.isSome) (ty : Ty)
    (span : Span) : (kind : ExprKind) → p.kindOk ty kind → kind.isScalar ty →
      Typed ctx ⟨kind, ty, span⟩ ∧ Evaluates ctx ⟨kind, ty, span⟩
  | .bool _, hty, _ | .char _, hty, _ | .int _, hty, _ | .float _, hty, _ => by
    obtain rfl := of_decide_eq_true hty
    refine ⟨fun m v hv => ?_, .literal (fun _ => rfl) (fun _ => rfl) fun _ => .act rfl fun _ => rfl⟩
    cases hv
    exact ⟨_, rfl⟩
  | .binary op l r, hty, hs => by
    simp only [Typing.kindOk, Bool.and_eq_true, decide_eq_true_eq] at hty
    simp only [ExprKind.isScalar, Bool.and_eq_true] at hs
    obtain ⟨⟨⟨hl, hr⟩, hrty⟩, rfl⟩ := hty
    obtain ⟨⟨hls, hrs⟩, hop⟩ := hs
    obtain ⟨hlt, hle⟩ := scalar_evaluates hself l hl hls
    obtain ⟨hrt, hre⟩ := scalar_evaluates hself r hr hrs
    exact ⟨.binary hop hrty hlt hrt, .binary hop hrty hlt hrt hle hre⟩
  | .unary op e, hty, hs => by
    simp only [Typing.kindOk, Bool.and_eq_true, decide_eq_true_eq] at hty
    obtain ⟨hes, hop⟩ := Bool.and_eq_true_iff.1 hs
    obtain ⟨he, rfl⟩ := hty
    obtain ⟨het, hee⟩ := scalar_evaluates hself e he hes
    exact ⟨.unary hop het, .unary hop het hee⟩
  | .ident _, hty, hs | .self, hty, hs | .bound .., hty, hs | .field .., hty, hs =>
    ⟨.place hs fun _ => rfl, .place hself hty hs (fun _ => rfl) fun _ => rfl⟩
  | .interval .., _, h | .methodCall .., _, h | .call .., _, h | .new _, _, h => by cases h

end

/-- The code of a well-typed scalar expression, in any context, evaluates as its tree says. -/
theorem scalar_runsTo_eval (hty : p.exprOk e) (hs : e.isScalar)
    (hself : p.self.isSome → ctx.selfSlot.isSome) (s : State) :
    ∃ c s', (expr ctx e >>= valueOf e) s = .ok (c, s') ∧ ∀ m : Machine, m.halted = false →
      m.ReportsDivisions → Placed m.image m.pc c → m.addressable ctx.selfSlot e →
        m.RunsTo c (m.eval ctx.selfSlot e) := by
  obtain ⟨c, s', hc, hruns⟩ := (scalar_evaluates hself e hty hs).2 s
  exact ⟨c, s', hc, fun m hrunning hreports hplaced hm =>
    (hruns m hreports.label hm).runsTo hrunning hreports hplaced⟩

/-! A variable with a struct whose member is the interval from 3 to -7, laid out with the program. -/

def boxSpan : Binding := ⟨"span", .interval .int, .member 16⟩

def boxed : Typing :=
  ⟨⟨4, [⟨0, "Box", [boxSpan], 4, 0, .empty, [], none, .none⟩], [], .empty⟩, none, none⟩

def boxBound (b : Bound) : Expr :=
  ⟨.bound ⟨.field (.ident ⟨"box", .struct 0, .global 0⟩) boxSpan, .interval .int, .none⟩ b, .int,
    .none⟩

/-- The right operand of the disjunction would divide by zero. -/
def skippedDivision : Expr :=
  .binary .and (.binary .eq (.binary .div (boxBound .high) (.int 2)) (.int (-3)))
    (.binary .or (.bool true) (.binary .eq (.binary .div (.int 1) (.int 0)) (.int 1)))

def vanishingDivisor : Expr := .binary .div (boxBound .low) (.binary .add (boxBound .high) (.int 7))

def boxCode (e : Expr) : Code :=
  match (expr bare e >>= valueOf e) ⟨.none, false, false, []⟩ with
  | .ok (c, _) => c
  | .error _ => []

def boxListing (e : Expr) : Code :=
  boxCode e ++ (Environment.errorHandlers
    ++ ([Instr.dataZ 4, .dLabel Frame.globalBlock, .dataI 8, .dataZ 12, .dataI 8, .dataI 28,
      .dataZ 12, .dataI 3, .dataI (-7)]
    ++ (Environment.dataString Environment.errorFormat "Runtime error: %s\n"
    ++ Environment.dataString Environment.divideByZeroMessage "division by zero")))

/-- A machine in front of the code, in the middle of something else. -/
def boxMachine (m₀ : Machine) : Machine :=
  View.machine ⟨0, [.int 42], m₀.memory, m₀.heap⟩ m₀.image "before" 0

def boxEvaluates (e : Expr) (r : Option Value) : Bool :=
  match Machine.load (boxListing e) ⟨4096, 1024, 1000⟩ with
  | .ok m₀ => (boxMachine m₀).addressable bare.selfSlot e && decide ((boxMachine m₀).eval bare.selfSlot e = r)
  | .error _ => false

theorem boxMachine_ready {r : Option Value} (h : boxEvaluates e r) :
    ∃ m₀, Machine.load (boxListing e) ⟨4096, 1024, 1000⟩ = .ok m₀ ∧
      (boxMachine m₀).ReportsDivisions ∧ Placed (boxMachine m₀).image (boxMachine m₀).pc (boxCode e) ∧
      (boxMachine m₀).addressable bare.selfSlot e ∧ (boxMachine m₀).eval bare.selfSlot e = r := by
  unfold boxEvaluates at h
  split at h
  case h_2 => cases h
  next m₀ hm =>
  rw [Bool.and_eq_true, decide_eq_true_eq] at h
  have hl := Machine.load_loaded hm
  have hformat : m₀.Shows Environment.errorFormat "Runtime error: %s\n" := by
    refine Machine.load_shows hm (.trans ?_ (List.suffix_append _ _).isInfix)
    exact (List.infix_append' _ _ _).trans (List.suffix_append _ _).isInfix
  have hmessage : m₀.Shows Environment.divideByZeroMessage "division by zero" := by
    refine Machine.load_shows hm (List.IsSuffix.isInfix ?_)
    simp only [boxListing, ← List.append_assoc]
    exact List.suffix_append _ _
  refine ⟨m₀, hm, ⟨⟨_, hl.placed (show boxListing e = boxCode e ++ Environment.errorHandlers ++ _ by
    rw [boxListing, ← List.append_assoc])⟩, ?_, hformat, hmessage⟩,
    hl.placed (show boxListing e = [] ++ boxCode e ++ _ from rfl), h⟩
  show m₀.memory.size ≤ _
  rw [hl.size]
  decide

theorem scalar_runsTo_eval_boxed :
    (∃ m₀ steps, Machine.load (boxListing skippedDivision) ⟨4096, 1024, 1000⟩ = .ok m₀ ∧
      (boxMachine m₀).Reaches { boxMachine m₀ with
        pc := (boxCode skippedDivision).executable.length, stack := [.int 1, .int 42], steps }) ∧
    ∃ m₀ m', Machine.load (boxListing vanishingDivisor) ⟨4096, 1024, 1000⟩ = .ok m₀ ∧
      (boxMachine m₀).Reports m' "division by zero" := by
  have hbox {e : Expr} {r : Option Value} (hty : boxed.exprOk e) (hs : e.isScalar)
      (h : boxEvaluates e r) : ∃ m₀, Machine.load (boxListing e) ⟨4096, 1024, 1000⟩ = .ok m₀ ∧
        (boxMachine m₀).RunsTo (boxCode e) r := by
    obtain ⟨c, s', hc, hruns⟩ := @scalar_runsTo_eval boxed bare e hty hs (fun h => nomatch h)
      ⟨.none, false, false, []⟩
    obtain ⟨m₀, hm, hreports, hplaced, haddressable, rfl⟩ := boxMachine_ready h
    rw [show boxCode e = c by rw [boxCode, hc]] at hplaced ⊢
    exact ⟨m₀, hm, hruns _ rfl hreports hplaced haddressable⟩
  obtain ⟨m₀, hm, steps, hreaches⟩ := hbox (show boxed.exprOk skippedDivision by decide +kernel)
    (by decide +kernel) (show boxEvaluates skippedDivision (some (.int 1)) by decide +kernel)
  obtain ⟨m₁, hm₁, m₂, m', hreaches', -, hmemory, hheap, houtput, hreports⟩ :=
    hbox (show boxed.exprOk vanishingDivisor by decide +kernel) (by decide +kernel)
      (show boxEvaluates vanishingDivisor none by decide +kernel)
  rw [show (boxMachine m₀).pc = 0 from rfl, Nat.zero_add] at hreaches
  exact ⟨⟨m₀, steps, hm, hreaches⟩, m₁, m', hm₁, hreports.after hreaches' houtput hmemory hheap⟩

end Generator
end IntervalStack
