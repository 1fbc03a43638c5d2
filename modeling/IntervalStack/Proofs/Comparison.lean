import IntervalStack.Proofs.Generation
import IntervalStack.Proofs.Running

/-! Comparisons of integers. They are decided from the sign of the wrapped difference, so that an
order comes out right just where the difference fits its word. -/

namespace IntervalStack

namespace BinOp

def holds (op : BinOp) (a b : Int) : Bool :=
  match op with
  | .less => a < b
  | .lessEq => a ≤ b
  | .greater => b < a
  | .greaterEq => b ≤ a
  | .eq => a = b
  | .notEq => a ≠ b
  | _ => false

def isOrder : BinOp → Bool
  | .less | .lessEq | .greater | .greaterEq => true
  | _ => false

/-- Whether an order is to be decided of operands whose difference does not fit its word. -/
def misjudges (op : BinOp) (a b : Int32) : Bool :=
  op.isOrder && !Word.fitsSigned (a.toInt - b.toInt)

def jumps : BinOp → Int32 → Bool
  | .less, n | .greaterEq, n => n < 0
  | .greater, n | .lessEq, n => 0 < n
  | .eq, n => n = 0
  | _, n => n ≠ 0

/-- What holds of the wrapped difference and zero, against what holds of the operands: where the
difference does not fit, its sign is the wrong one. -/
theorem holds_sub (op : BinOp) (a b : Int32) :
    op.holds (a - b).toInt 0 = (op.holds a.toInt b.toInt != op.misjudges a b) := by
  have ha := a.toInt_lt
  have ha' := a.le_toInt
  have hb := b.toInt_lt
  have hb' := b.le_toInt
  -- a difference that does not fit wraps to the other side of zero
  have hwrap : (a - b).toInt = a.toInt - b.toInt ∧ Word.fitsSigned (a.toInt - b.toInt) = true ∨
      Word.fitsSigned (a.toInt - b.toInt) = false ∧
        (a.toInt < b.toInt ∧ 0 < (a - b).toInt ∨ b.toInt < a.toInt ∧ (a - b).toInt < 0) := by
    simp only [Word.fitsSigned, Bool.and_eq_true, Bool.and_eq_false_iff, decide_eq_true_eq,
      decide_eq_false_iff_not, Int32.toInt_sub, Int.bmod_def]
    omega
  rcases hwrap with ⟨hsub, hfits⟩ | ⟨hfits, hsign⟩
  · cases op <;> simp only [holds, misjudges, hfits, hsub, Bool.not_true, Bool.and_false,
      Bool.bne_false, decide_eq_decide] <;> omega
  · cases op <;> simp only [holds, misjudges, isOrder, hfits, Bool.not_false, Bool.and_self,
      Bool.bne_true, Bool.false_and, Bool.bne_false] <;> grind

theorem jumps_eq_holds {op : BinOp} (hop : op.isComparison) (n : Int32) :
    (op.jumps n == Generator.holdsWhenTaken op false) = op.holds n.toInt 0 := by
  have htaken : Generator.holdsWhenTaken op false = !(op == .lessEq || op == .greaterEq) := by
    simp [Generator.holdsWhenTaken]
  have hzero : n = 0 ↔ n.toInt = 0 := by rw [← Int32.toInt_inj, Int32.toInt_zero]
  rw [htaken]
  cases op <;> cases hop <;>
    simp only [jumps, holds, hzero, Int32.lt_iff_toInt_lt, Int32.toInt_zero] <;> grind

end BinOp

namespace Machine

/-- The machine runs through the code at its program counter, which leaves the values on the
stack. -/
structure Leaves (m : Machine) (c : Code) (vs : List Value) (m' : Machine) : Prop where
  reaches : Reaches m m'
  running : m'.halted = false
  pc : m'.pc = m.pc + c.executable.length
  stack : m'.stack = vs ++ m.stack

end Machine

namespace Generator

variable {op : BinOp} {image : Image} {p : Nat} {group : String} {stack : List Value}
  {memory : Memory} {heap : Heap}

theorem executable_comparison (op : BinOp) (group : String) :
    Code.executable ([Instr.subtract] ++ compareCode op false group)
      = [.subtract, comparisonJump op false (Labels.part group "taken"),
        truth !holdsWhenTaken op false, .jump (Labels.part group "join"),
        truth (holdsWhenTaken op false)] := by
  cases op <;> rfl

/-- Two ways to a truth value: a jump on the operand leads to one, and the way past it to the
other. -/
theorem choice_goes {jump : Instr} {target join : String} {v : Value} {taken b : Bool}
    (hjump : Code.executable [jump] = [jump])
    (h : Placed image p [jump, truth !b, .jump join, .label target, truth b, .label join])
    (hstep : ∀ t, image.code[p]? = some jump → image.label? target = some t →
      View.Step image ⟨p, v :: stack, memory, heap⟩
        ⟨if taken then t else p + 1, stack, memory, heap⟩) :
    Goes image ⟨p, v :: stack, memory, heap⟩
      ⟨p + 4, .int (if taken == b then 1 else 0) :: stack, memory, heap⟩ := by
  have hcode : Code.executable [jump, truth !b, .jump join, .label target, truth b, .label join]
      = [jump, truth !b, .jump join, truth b] := by
    rw [← List.singleton_append, Code.executable_append, hjump]
    rfl
  have htarget : image.label? target = some (p + 3) := by
    rw [h.label [_, _, _] _ _ rfl, ← List.singleton_append, Code.executable_append, hjump]
    rfl
  have hjoin : image.label? join = some (p + 4) := by
    rw [h.label [_, _, _, _, _] _ _ rfl, ← List.singleton_append, Code.executable_append, hjump]
    rfl
  refine (Goes.one (hstep _ (h.code 0 _ (by rw [hcode]; rfl)) htarget)).trans ?_
  cases taken with
  | true =>
    have hvalue : Goes image ⟨p + 3, stack, memory, heap⟩ _ :=
      h.act 3 [truth b] (by rw [hcode]; simp) rfl
    cases b <;> exact hvalue
  | false =>
    have hvalue : Goes image ⟨p + 1, stack, memory, heap⟩ _ :=
      h.act 1 [truth !b] (by rw [hcode]; simp) rfl
    cases b <;> exact hvalue.trans (.one (.jump (h.code 2 _ (by rw [hcode]; rfl)) hjoin))

theorem compare_goes (hop : op.isComparison)
    (h : Placed image p ([Instr.subtract] ++ compareCode op false group)) (a b : Int32) :
    Goes image ⟨p, .int b :: .int a :: stack, memory, heap⟩
      ⟨p + 5, .int (if op.holds (a - b).toInt 0 then 1 else 0) :: stack, memory, heap⟩ := by
  have hsub : Goes image ⟨p, .int b :: .int a :: stack, memory, heap⟩
      ⟨p + 1, .int (a - b) :: stack, memory, heap⟩ := h.left.act 0 [.subtract] (by decide) rfl
  rw [← BinOp.jumps_eq_holds hop]
  exact hsub.trans (choice_goes (by cases op <;> rfl) h.right fun t hi hl =>
    .branch hi (by cases op <;> cases hop <;> rfl) hl (a - b))

variable {ctx : Context} {lhs rhs : Expr} {s s₁ s₂ : State} {left right : Code}

theorem expr_comparison (ty : Ty) (span : Span) (hop : op.isComparison)
    (hty : !lhs.ty.isHeap && lhs.ty ≠ .void)
    (hleft : (expr ctx lhs >>= valueOf lhs) s = .ok (left, s₁))
    (hright : (expr ctx rhs >>= valueOf rhs) s₁ = .ok (right, s₂)) :
    expr ctx ⟨.binary op lhs rhs, ty, span⟩ s = .ok (value (left ++ right ++
      ([if lhs.ty.isFloat then Instr.fSubtract else .subtract]
        ++ compareCode op lhs.ty.isFloat (s₂.label "compare"))), s₂.next) := by
  obtain ⟨f, s₃, hf, hleft⟩ := bind_ok.1 hleft
  obtain ⟨g, s₄, hg, hright⟩ := bind_ok.1 hright
  have hlogical : op.isLogical = false := by cases op <;> cases hop <;> rfl
  simp only [expr, exprKind, bind_ok, require_ok, hlogical, Bool.false_eq_true, if_false, hop,
    if_true, fresh_ok, pure_ok]
  refine ⟨(), s, ⟨hty, rfl⟩, f, s₃, hf, left, s₁, hleft, g, s₄, hg, right, s₂, hright,
    _, _, ⟨rfl, rfl⟩, ?_, rfl⟩
  rw [List.append_assoc _ _ (compareCode _ _ _)]

/-- The code of a comparison leaves the truth value, except that an order comes out the other way
round where the difference of the operands does not fit its word. -/
theorem comparison_decides_order (ty : Ty) (span : Span) (hop : op.isComparison)
    (hty : lhs.ty = .int) (hleft : (expr ctx lhs >>= valueOf lhs) s = .ok (left, s₁))
    (hright : (expr ctx rhs >>= valueOf rhs) s₁ = .ok (right, s₂)) :
    ∃ f s', expr ctx ⟨.binary op lhs rhs, ty, span⟩ s = .ok (f, s') ∧ f.shape = .value ∧
      (left ++ right) <+: f.code ∧ ∀ (m m₁ m₂ : Machine) (a b : Int32),
        Placed m.image m.pc f.code → m.Leaves left [.int a] m₁ → m₁.Leaves right [.int b] m₂ →
        ∃ m', m.Leaves f.code
            [.int (if op.holds a.toInt b.toInt != op.misjudges a b then 1 else 0)] m' ∧
          m'.memory = m₂.memory ∧ m'.heap = m₂.heap ∧ m'.output = m₂.output := by
  have hexpr : expr ctx ⟨.binary op lhs rhs, ty, span⟩ s = .ok (value (left ++ right ++
      ([Instr.subtract] ++ compareCode op false (s₂.label "compare"))), s₂.next) := by
    have h := expr_comparison ty span hop (by rw [hty]; rfl) hleft hright
    rw [hty] at h
    exact h
  refine ⟨_, _, hexpr, rfl, List.prefix_append _ _, fun m m₁ m₂ a b hplaced hl hr => ?_⟩
  have hpc : m₂.pc = m.pc + (Code.executable (left ++ right)).length := by
    rw [hr.pc, hl.pc, Code.executable_append, List.length_append, Nat.add_assoc]
  have hstack : m₂.stack = .int b :: .int a :: m.stack := by rw [hr.stack, hl.stack]; rfl
  have himage : m₂.image = m.image := (hl.reaches.trans hr.reaches).continues.image
  have hgoes : Goes m.image ⟨_, .int b :: .int a :: m.stack, m₂.memory, m₂.heap⟩ _ :=
    compare_goes hop hplaced.right a b
  rw [← hpc, ← hstack, ← himage] at hgoes
  obtain ⟨steps, hreaches⟩ := Machine.reaches_of_goes hr.running hgoes
  rw [BinOp.holds_sub] at hreaches
  refine ⟨_, ⟨hl.reaches.trans (hr.reaches.trans hreaches), rfl, ?_, rfl⟩, rfl, rfl, rfl⟩
  show m₂.pc + 5 = m.pc + (Code.executable ((left ++ right) ++ _)).length
  rw [hpc, Code.executable_append (left ++ right), List.length_append, executable_comparison,
    Nat.add_assoc]
  rfl

def bare : Context := ⟨⟨0, [], [], .empty⟩, ⟨[]⟩, none, none, none, []⟩

/-- The code of a comparison whose difference is the lowest that fits. -/
def lowestDifference : Code :=
  [Instr.pushI (-1), .pushI 2147483647]
    ++ ([Instr.subtract] ++ compareCode .greaterEq false "-compare-1")

theorem comparison_decides_order_lowestDifference :
    (∃ s', expr bare (.binary .greaterEq (.int (-1)) (.int 2147483647)) ⟨.none, false, false, []⟩
      = .ok (value lowestDifference, s')) ∧
    ∃ m₀ m', Machine.load lowestDifference ⟨4096, 1024, 1000⟩ = .ok m₀ ∧
      (View.machine ⟨0, [], m₀.memory, m₀.heap⟩ m₀.image "" 0).Leaves lowestDifference [.int 0]
        m' := by
  have hleft : (expr bare (.int (-1)) >>= valueOf (.int (-1))) ⟨.none, false, false, []⟩
      = .ok ([.pushI (-1)], ⟨.none, false, false, []⟩) := rfl
  have hright : (expr bare (.int 2147483647) >>= valueOf (.int 2147483647))
      ⟨.none, false, false, []⟩ = .ok ([.pushI 2147483647], ⟨.none, false, false, []⟩) := rfl
  have hcompares : BinOp.greaterEq.isComparison := rfl
  obtain ⟨f, s', hf, -, -, hruns⟩ :=
    comparison_decides_order .bool .none hcompares rfl hleft hright
  obtain rfl : f = value lowestDifference :=
    congrArg Prod.fst (Except.ok.inj (hf.symm.trans (show _ = Except.ok (_, _) from rfl)))
  have hok : (Machine.load lowestDifference ⟨4096, 1024, 1000⟩).toBool = true := by decide +kernel
  cases hm : Machine.load lowestDifference ⟨4096, 1024, 1000⟩ with
  | error => simp [hm, Except.toBool] at hok
  | ok m₀ =>
    have hplaced : Placed m₀.image 0 lowestDifference :=
      (Machine.load_loaded hm).placed (show _ = [] ++ lowestDifference ++ [] by simp)
    obtain ⟨n, hl⟩ := Machine.reaches_of_goes
      (m := View.machine ⟨0, [], m₀.memory, m₀.heap⟩ m₀.image "" 0) rfl
      (hplaced.act 0 [.pushI (-1)] (by decide) rfl)
    obtain ⟨n', hr⟩ := Machine.reaches_of_goes
      (m := View.machine ⟨1, [.int (-1)], m₀.memory, m₀.heap⟩ m₀.image "" n) rfl
      (hplaced.act 1 [.pushI 2147483647] (by decide) rfl)
    obtain ⟨m', hm', -⟩ := hruns _ _ _ _ _ hplaced ⟨hl, rfl, rfl, rfl⟩ ⟨hr, rfl, rfl, rfl⟩
    exact ⟨⟨s', hf⟩, m₀, m', rfl, hm'⟩

/-- A program that compares the lowest integer with one. -/
def lowestLess : Program :=
  ⟨0, [], [], ⟨.empty, [⟨.print [.binary .less (.int (-2147483648)) (.int 1)] false true, .none⟩]⟩⟩

/-- The lowest integer is not found to be less than one. -/
theorem lowest_not_less :
    (-2147483648 : Int32).toInt < (1 : Int32).toInt ∧
      (generate lowestLess 1).toOption.map (fun code =>
        (Machine.executeCode code ⟨4096, 1024, 1000⟩).toOption.map (·.output)) =
          some (some "false\n") := by
  decide +kernel

end Generator
end IntervalStack
