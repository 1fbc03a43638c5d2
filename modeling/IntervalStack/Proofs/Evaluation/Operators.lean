import IntervalStack.Proofs.Evaluation.Reference

/-! The code of operators. Wherever it stands, it takes its operands off the stack and leaves what
the operator yields, or it leads to the handler of divisions by zero. -/

namespace IntervalStack

theorem Memory.operands_eq_value {ty : Ty} {i : Instr} (hi : Instr.load? ty = some i)
    (memory : Memory) (a : Int32) : memory.operands ty a.toInt.toNat = [memory.value ty a] := by
  cases ty <;> first | rfl | cases hi

namespace Machine

/-- The code, wherever it stands, replaces the operands by the value and changes nothing else.
Without a value, it leads to the handler of divisions by zero. -/
def Produces (m : Machine) (c : Code) (vs : List Value) : Option Value → Prop
  | some v => ∀ p stack, Placed m.image p c →
      Goes m.image ⟨p, vs ++ stack, m.memory, m.heap⟩
        ⟨p + c.executable.length, v :: stack, m.memory, m.heap⟩
  | none => ∀ p stack, Placed m.image p c →
      ∃ t stack', m.image.label? Environment.divideByZero = some t ∧
        Goes m.image ⟨p, vs ++ stack, m.memory, m.heap⟩ ⟨t, stack', m.memory, m.heap⟩

variable {m : Machine} {c c' : Code} {vs ws : List Value} {v u w : Value} {r : Option Value}

theorem check_of_readable {a : Int32} {width : Nat} (h : m.readable a width) :
    m.check a.toInt width = .ok a.toInt.toNat := by
  rw [readable] at h
  unfold Machine.check at h ⊢
  split at h
  · cases h
  · dsimp only at h ⊢
    split at h
    · split at h
      · simp_all
      · cases h
    · simp_all

namespace Produces

theorem append {f : Value → Option Value} (h : m.Produces c vs r)
    (h' : ∀ v, r = some v → m.Produces c' (v :: ws) (f v)) :
    m.Produces (c ++ c') (vs ++ ws) (r.bind f) := by
  cases r with
  | none =>
    -- The code behind is not reached.
    intro p stack hp
    rw [List.append_assoc]
    exact h p _ hp.left
  | some v =>
    have hrest := h' v rfl
    rw [Option.bind_some]
    cases hf : f v with
    | none =>
      rw [hf] at hrest
      intro p stack hp
      obtain ⟨t, stack', ht, hrest⟩ := hrest _ stack hp.right
      rw [List.append_assoc]
      exact ⟨t, stack', ht, (h p _ hp.left).trans hrest⟩
    | some w =>
      rw [hf] at hrest
      intro p stack hp
      rw [Code.executable_append, List.length_append, ← Nat.add_assoc, List.append_assoc]
      exact (h p _ hp.left).trans (hrest _ stack hp.right)

theorem followed (h : m.Produces c vs (some v)) (h' : m.Produces c' (v :: ws) r) :
    m.Produces (c ++ c') (vs ++ ws) r :=
  h.append (f := fun _ => r) fun _ hv => Option.some.inj hv ▸ h'

theorem act (hc : c.executable = c)
    (h : ∀ stack, c.act m.image m.heap m.memory (vs ++ stack) = some (v :: stack, m.memory)) :
    m.Produces c vs (some v) := by
  intro p stack hp
  rw [hc]
  exact hp.act 0 c (by rw [hc]; exact List.prefix_refl c) (h stack)

theorem load {ty : Ty} {i : Instr} {a : Int32} (hi : Instr.load? ty = some i)
    (ha : m.readable a ty.size.toNat) : m.Produces [i] [.int a] (some (m.memory.value ty a)) := by
  have hc : Code.executable [i] = [i] := by
    cases ty <;> cases hi <;> rfl
  intro p stack hp
  have hstep : View.Step m.image ⟨p, .int a :: stack, m.memory, m.heap⟩
      ⟨p + 1, m.memory.operands ty a.toInt.toNat ++ stack, m.memory, m.heap⟩ :=
    ⟨i, hp.code 0 i (by rw [hc]; rfl), fun output steps => execute_load
      (m := View.machine ⟨p + 1, .int a :: stack, m.memory, m.heap⟩ m.image output steps) hi rfl
      (check_of_readable ha)⟩
  rw [Memory.operands_eq_value hi] at hstep
  rw [hc]
  exact .one hstep

theorem guarded {jump op : Instr} {zero : Bool}
    (hc : Code.executable [.duplicate, jump, op] = [.duplicate, jump, op])
    (htrap : (m.image.label? Environment.divideByZero).isSome)
    (hjump : ∀ {p t stack}, m.image.code[p]? = some jump →
      m.image.label? Environment.divideByZero = some t →
        View.Step m.image ⟨p, v :: stack, m.memory, m.heap⟩
          ⟨if zero then t else p + 1, stack, m.memory, m.heap⟩)
    (hop : zero = false → ∀ stack,
      op.act m.image m.heap m.memory (v :: u :: stack) = some (w :: stack, m.memory)) :
    m.Produces [.duplicate, jump, op] [v, u] (if zero then none else some w) := by
  obtain ⟨t, ht⟩ := Option.isSome_iff_exists.1 htrap
  have htest {p : Nat} {stack : List Value} (hp : Placed m.image p [.duplicate, jump, op]) :
      Goes m.image ⟨p, v :: u :: stack, m.memory, m.heap⟩
        ⟨if zero then t else p + 2, v :: u :: stack, m.memory, m.heap⟩ :=
    .trans (.one (.act (hp.code 0 _ (by rw [hc]; rfl)) rfl))
      (.one (hjump (hp.code 1 _ (by rw [hc]; rfl)) ht))
  cases zero with
  | true => exact fun p stack hp => ⟨t, _, ht, htest hp⟩
  | false =>
    intro p stack hp
    rw [hc]
    exact (htest hp).trans (.one (.act (hp.code 2 _ (by rw [hc]; rfl)) (hop rfl stack)))

end Produces

end Machine

/-! The operators of the reference in terms of the operations of the machine, and the types of what
they yield. -/

namespace Ty

variable {ty : Ty} {a b : Value}

theorem eq_of_isScalar (h : ty.isScalar) : ∃ k : ScalarKind, ty = k.ty := by
  cases ty with
  | bool => exact ⟨.bool, rfl⟩
  | char => exact ⟨.char, rfl⟩
  | int => exact ⟨.int, rfl⟩
  | float => exact ⟨.float, rfl⟩
  | _ => cases h

theorem plain_of_isScalar (h : ty.isScalar) : !ty.isHeap && ty ≠ .void := by
  obtain ⟨k, rfl⟩ := eq_of_isScalar h
  cases k <;> rfl

theorem Operands.pair (ha : ty.Operands [a]) (hb : ty.Operands [b]) :
    (ty.isFloat = true ∧ ∃ x y, a = .float x ∧ b = .float y) ∨
      ty.isFloat = false ∧ ∃ n k, a = .int n ∧ b = .int k := by
  cases ty with
  | void => cases ha
  | float =>
    obtain ⟨x, hx⟩ := ha
    obtain ⟨y, hy⟩ := hb
    exact .inl ⟨rfl, x, y, List.singleton_inj.1 hx, List.singleton_inj.1 hy⟩
  | _ =>
    obtain ⟨n, hn⟩ := ha
    obtain ⟨k, hk⟩ := hb
    exact .inr ⟨rfl, n, k, List.singleton_inj.1 hn, List.singleton_inj.1 hk⟩

theorem Operands.word {n : Int32} (h : ty.Operands [.int n]) (k : Int32) : ty.Operands [.int k] := by
  cases ty with
  | void => cases h
  | float => exact absurd h (by simp [Operands])
  | _ => exact ⟨k, rfl⟩

theorem Operands.double {x : Double} (h : ty.Operands [.float x]) (y : Double) :
    ty.Operands [.float y] := by
  cases ty with
  | float => exact ⟨y, rfl⟩
  | void => cases h
  | _ => exact absurd h (by simp [Operands])

end Ty

namespace BinOp

variable {op : BinOp} {ty : Ty} {a b v : Value}

theorem onWords_eq (op : BinOp) (a b : Int32) :
    op.onWords a b = match op with
      | .add => some (.int (a + b))
      | .sub => some (.int (a - b))
      | .mul => some (.int (a * b))
      | .div => if b = 0 then none else some (.int (a / b))
      | .and | .or => some (.int b)
      | _ => some (.ofBool (op.holds (a - b).toInt 0)) := by
  have hsub : Int32.ofInt (a.toInt - b.toInt) = a - b := by
    rw [Int32.ofInt_sub, Int32.ofInt_toInt, Int32.ofInt_toInt]
  have hdiv : Int32.ofInt (a.toInt.tdiv b.toInt) = a / b := by
    rw [← Int32.toInt_inj, Int32.toInt_ofInt, Int32.toInt_div]
  cases op <;>
    simp only [onWords, hsub, hdiv, Int32.ofInt_add, Int32.ofInt_mul, Int32.ofInt_toInt]

def jumpsFloat : BinOp → Double → Bool
  | .less, x | .greaterEq, x => x.belowZero
  | .greater, x | .lessEq, x => x.positive
  | _, x => x.isZero

theorem onFloats_eq (hop : op.isComparison) (x y : Double) :
    op.onFloats x y
      = some (.ofBool (op.jumpsFloat (x.subtract y) == Generator.holdsWhenTaken op true)) := by
  cases htaken : Generator.holdsWhenTaken op true <;> cases op <;> cases hop <;> cases htaken <;>
    simp [onFloats, jumpsFloat]

theorem decidedBy_eq_false (hop : op.isLogical = false) : op.decidedBy a = false := by
  cases op <;> cases hop <;> rfl

theorem apply_logical (hop : op.isLogical) (a b : Value) : op.apply a b = some b := by
  cases op <;> cases hop <;> cases a <;> cases b <;> rfl

theorem operands_onWords {n k : Int32} (hn : ty.Operands [.int n]) (h : op.onWords n k = some v) :
    (op.result ty).Operands [v] := by
  rw [onWords_eq] at h
  cases op with
  | add | sub | mul =>
    cases h
    exact hn.word _
  | div =>
    obtain ⟨-, h⟩ := Option.ite_none_left_eq_some.1 h
    cases h
    exact hn.word _
  | _ =>
    cases h
    exact ⟨_, rfl⟩

theorem operands_onFloats {x y : Double} (hop : op.isLogical = false) (hx : ty.Operands [.float x])
    (h : op.onFloats x y = some v) : (op.result ty).Operands [v] := by
  cases op with
  | add | sub | mul =>
    cases h
    exact hx.double _
  | div =>
    obtain ⟨-, h⟩ := Option.ite_none_left_eq_some.1 h
    cases h
    exact hx.double _
  | and | or => cases hop
  | _ =>
    cases h
    exact ⟨_, rfl⟩

theorem operands_apply (hop : op.takes ty) (ha : ty.Operands [a]) (hb : ty.Operands [b])
    (h : op.apply a b = some v) : (op.result ty).Operands [v] := by
  rcases ha.pair hb with ⟨hfloat, x, y, rfl, rfl⟩ | ⟨-, n, k, rfl, rfl⟩
  · refine operands_onFloats (Bool.eq_false_iff.2 fun hlogical => ?_) ha h
    rw [takes, if_pos hlogical, decide_eq_true_eq] at hop
    subst hop
    cases hfloat
  · exact operands_onWords ha h

theorem operands_decided (h : op.decidedBy v) : (op.result ty).Operands [v] := by
  cases op <;> cases v <;> first | exact ⟨_, rfl⟩ | cases h

end BinOp

theorem Value.ofBool_ne_zero (n : Int32) :
    Value.ofBool (n ≠ 0) = .int (if (if n = 0 then (1 : Int32) else 0) = 0 then 1 else 0) := by
  by_cases h : n = 0 <;> simp [Value.ofBool, h]

namespace UnaryOp

theorem isScalar_of_takes {op : UnaryOp} {ty : Ty} (h : op.takes ty) : ty.isScalar := by
  cases op with
  | not =>
    obtain rfl := of_decide_eq_true h
    rfl
  | negate => exact (Bool.and_eq_true_iff.1 h).1
  | _ => exact h

theorem apply_not (ty : Ty) (n : Int32) :
    UnaryOp.not.apply ty (.int n) = .int (if n = 0 then 1 else 0) := by
  simp [apply, Value.ofBool]

theorem apply_negate (ty : Ty) (n : Int32) : UnaryOp.negate.apply ty (.int n) = .int (-n) := by
  rw [apply, Int32.ofInt_neg, Int32.ofInt_toInt]

theorem operands_apply {op : UnaryOp} {ty : Ty} {v : Value} (hop : op.takes ty)
    (hv : ty.Operands [v]) : (op.result ty).Operands [op.apply ty v] := by
  obtain ⟨k, rfl⟩ := Ty.eq_of_isScalar (isScalar_of_takes hop)
  cases op <;> cases k <;> first | cases hop; done | (obtain ⟨n, hn⟩ := hv; cases hn; exact ⟨_, rfl⟩)

end UnaryOp

namespace Generator

variable {m : Machine} {op : BinOp} {ty : Ty} {a b : Value} {c : Code} {group : String}

theorem comparison_produces (hop : op.isComparison) (ha : ty.Operands [a]) (hb : ty.Operands [b]) :
    m.Produces ([if ty.isFloat then Instr.fSubtract else .subtract] ++ compareCode op ty.isFloat group)
      [b, a] (op.apply a b) := by
  rcases ha.pair hb with ⟨hfloat, x, y, rfl, rfl⟩ | ⟨hfloat, n, k, rfl, rfl⟩
  · rw [hfloat, show op.apply (.float x) (.float y) = _ from BinOp.onFloats_eq hop x y]
    have hsub : m.Produces [.fSubtract] [.float y, .float x] (some (.float (x.subtract y))) :=
      .act rfl fun _ => rfl
    have hlength : (Code.executable (compareCode op true group)).length = 4 := by cases op <;> rfl
    refine hsub.followed fun p stack hp => ?_
    rw [hlength]
    exact choice_goes (by cases op <;> rfl) hp fun t hi hl =>
      .branchFloat hi (by cases op <;> cases hop <;> rfl) hl (x.subtract y)
  · have hvalue : op.apply (.int n) (.int k) = some (.ofBool (op.holds (n - k).toInt 0)) := by
      rw [show op.apply (.int n) (.int k) = op.onWords n k from rfl, BinOp.onWords_eq]
      cases op <;> cases hop <;> rfl
    rw [hfloat, hvalue]
    intro p stack hp
    have hlength : (Code.executable ([.subtract] ++ compareCode op false group)).length = 5 := by
      rw [executable_comparison]
      rfl
    rw [if_neg Bool.false_ne_true] at hp ⊢
    rw [hlength]
    exact compare_goes hop hp n k

theorem arithmetic_produces (hc : arithmetic? op ty.isFloat = some c)
    (htrap : (m.image.label? Environment.divideByZero).isSome) (ha : ty.Operands [a])
    (hb : ty.Operands [b]) : m.Produces c [b, a] (op.apply a b) := by
  rcases ha.pair hb with ⟨hfloat, x, y, rfl, rfl⟩ | ⟨hfloat, n, k, rfl, rfl⟩
  · rw [hfloat] at hc
    cases op with
    | add | sub | mul =>
      cases hc
      exact .act rfl fun _ => rfl
    | div =>
      cases hc
      exact .guarded rfl htrap (fun hi hl => .branchFloat hi rfl hl y) fun _ _ => rfl
    | _ => cases hc
  · rw [hfloat] at hc
    rw [show op.apply (.int n) (.int k) = op.onWords n k from rfl, BinOp.onWords_eq]
    cases op with
    | add | sub | mul =>
      cases hc
      exact .act rfl fun _ => rfl
    | div =>
      cases hc
      have hproduces : m.Produces [.duplicate, .jumpFalse Environment.divideByZero, .divide]
          [.int k, .int n] (if decide (k = 0) then none else some (.int (n / k))) :=
        .guarded rfl htrap (fun hi hl => .branch hi rfl hl k) fun hk _ =>
          if_pos (of_decide_eq_false hk)
      simpa only [decide_eq_true_eq] using hproduces
    | _ => cases hc

def decidingCode (op : BinOp) (done : String) : Code :=
  [.duplicate, if op = .and then .jumpFalse done else .jumpTrue done, .pop]

theorem logicalCode_eq (op : BinOp) (left right : Code) (done : String) :
    logicalCode op left right done = left ++ (decidingCode op done ++ right ++ [.label done]) := by
  simp [logicalCode, decidingCode]

/-- The right operand of a logical operator is skipped if the left one decides. Else the left one is
dropped. -/
theorem logical_skips {right : Code} {done : String} {p : Nat} (stack : List Value) (n : Int32)
    (hop : op.isLogical) (hp : Placed m.image p (decidingCode op done ++ right ++ [.label done])) :
    Goes m.image ⟨p, .int n :: stack, m.memory, m.heap⟩
      (if op.decidedBy (.int n) then
        ⟨p + (Code.executable (decidingCode op done ++ right ++ [.label done])).length,
          .int n :: stack, m.memory, m.heap⟩
      else ⟨p + (decidingCode op done).executable.length, stack, m.memory, m.heap⟩) := by
  obtain ⟨jump, hc, hexecutable, hstep⟩ : ∃ jump, decidingCode op done = [.duplicate, jump, .pop] ∧
      Code.executable [.duplicate, jump, .pop] = [.duplicate, jump, .pop] ∧
      ∀ {p t stack}, m.image.code[p]? = some jump → m.image.label? done = some t →
        View.Step m.image ⟨p, .int n :: stack, m.memory, m.heap⟩
          ⟨if op.decidedBy (.int n) then t else p + 1, stack, m.memory, m.heap⟩ := by
    cases op with
    | and => exact ⟨_, rfl, rfl, fun hi hl => .branch hi rfl hl n⟩
    | or => exact ⟨_, rfl, rfl, fun hi hl => .branch hi rfl hl n⟩
    | _ => cases hop
  rw [hc] at hp ⊢
  -- The label stands where the code ends, so both ways lead there.
  have hlabel : m.image.label? done = some
      (p + (Code.executable ([.duplicate, jump, .pop] ++ right ++ [.label done])).length) := by
    rw [Code.executable_append, List.length_append]
    exact hp.right.head
  have hdouble : Goes m.image ⟨p, .int n :: stack, m.memory, m.heap⟩
      ⟨p + 1, .int n :: .int n :: stack, m.memory, m.heap⟩ :=
    .one (.act (hp.left.left.code 0 _ (by rw [hexecutable]; rfl)) rfl)
  have htest := hdouble.trans (.one (hstep (hp.left.left.code 1 _ (by rw [hexecutable]; rfl)) hlabel))
  cases hdecided : op.decidedBy (.int n) with
  | true =>
    rw [hdecided] at htest
    exact htest
  | false =>
    rw [hdecided] at htest
    rw [hexecutable]
    exact htest.trans (.one (.act (hp.left.left.code 2 _ (by rw [hexecutable]; rfl)) rfl))

theorem logical_produces {left right : Code} {done : String} {r r' : Option Value}
    (hop : op.isLogical) (hleft : m.Produces left [] r) (hword : ∀ v, r = some v → ∃ n, v = .int n)
    (hright : m.Produces right [] r') :
    m.Produces (logicalCode op left right done) []
      (r.bind fun a => if op.decidedBy a then some a else r'.bind (op.apply a)) := by
  rw [logicalCode_eq]
  refine hleft.append fun v hv => ?_
  obtain ⟨n, rfl⟩ := hword v hv
  have hneeded : r'.bind (op.apply (.int n)) = r' := by
    rw [show op.apply (.int n) = some from funext (BinOp.apply_logical hop _), Option.bind_fun_some]
  rw [hneeded]
  have hskips {p : Nat} (stack : List Value)
      (hp : Placed m.image p (decidingCode op done ++ right ++ [.label done])) :=
    logical_skips stack n hop hp
  cases hdecided : op.decidedBy (.int n) with
  | true =>
    rw [hdecided] at hskips
    exact fun p stack hp => hskips stack hp
  | false =>
    rw [hdecided] at hskips
    cases r' with
    | none =>
      intro p stack hp
      obtain ⟨t, stack', ht, hrest⟩ := hright _ stack hp.left.right
      exact ⟨t, stack', ht, (hskips stack hp).trans hrest⟩
    | some w =>
      intro p stack hp
      have hrest := (hskips stack hp).trans (hright _ stack hp.left.right)
      rw [Nat.add_assoc, ← List.length_append, ← Code.executable_append] at hrest
      rw [Code.executable_append, List.length_append]
      exact hrest

theorem unaryCode_produces {op : UnaryOp} (hop : op.takes ty) (span : Span) (s : State) :
    ∃ c s', unaryCode op ty span s = .ok (c, s') ∧
      ∀ (m : Machine) (v : Value), ty.Operands [v] → m.Produces c [v] (some (op.apply ty v)) := by
  obtain ⟨k, rfl⟩ := Ty.eq_of_isScalar (UnaryOp.isScalar_of_takes hop)
  cases op with
  | not =>
    cases k <;> cases hop
    refine ⟨_, _, rfl, fun m v hv => ?_⟩
    obtain ⟨n, hn⟩ := hv
    cases hn
    exact .act rfl fun _ => by rw [UnaryOp.apply_not]; rfl
  | negate =>
    cases k <;> cases hop
    all_goals
      refine ⟨_, _, rfl, fun m v hv => ?_⟩
      obtain ⟨n, hn⟩ := hv
      cases hn
      exact .act rfl fun _ => by first | rfl | rw [UnaryOp.apply_negate]; rfl
  | toFloat | toInt | toChar =>
    cases k
    all_goals
      refine ⟨_, _, rfl, fun m v hv => ?_⟩
      obtain ⟨n, hn⟩ := hv
      cases hn
      exact .act rfl fun _ => rfl
  | toBool =>
    cases k with
    | float =>
      refine ⟨_, _, rfl, fun m v hv => ?_⟩
      obtain ⟨x, hx⟩ := hv
      cases hx
      have hvalue : UnaryOp.toBool.apply .float (.float x) = .ofBool (x.isZero == false) := by
        rw [beq_false]
        rfl
      rw [show ScalarKind.float.ty = .float from rfl, hvalue]
      exact fun p stack hp => choice_goes (b := false) rfl hp fun t hi hl => .branchFloat hi rfl hl x
    | bool =>
      refine ⟨_, _, rfl, fun m v hv => ?_⟩
      exact .act rfl fun _ => rfl
    | _ =>
      refine ⟨_, _, rfl, fun m v hv => ?_⟩
      obtain ⟨n, hn⟩ := hv
      cases hn
      exact .act rfl fun stack =>
        congrArg (fun v => some (v :: stack, m.memory)) (Value.ofBool_ne_zero n).symm

end Generator
end IntervalStack
