import IntervalStack.Proofs.Bounds.ReadOut
import IntervalStack.Proofs.Evaluation.Places

/-! The code of a value that gets an owner, taken apart. What a place holds is counted when it is
read, and what no place holds has its count already. -/

namespace IntervalStack

def ExprKind.part? (ty : Ty) : ExprKind → Option (Expr × Int32)
  | .bound i which => some (i, Layout.boundOffset ty which)
  | .field object m => some (object, m.storage.offset)
  | _ => none

def ExprKind.isDirect : ExprKind → Bool
  | .bool _ | .char _ | .int _ | .float _ => true
  | kind => kind.isPath

namespace Generator

/-- The code is that of the expression as a value that gets an owner. -/
def OwnedCode (ctx : Context) (e : Expr) (c : Code) : Prop :=
  ∃ s s', (expr ctx e >>= ownedValueOf e) s = .ok (c, s')

variable {p : Typing} {ctx : Context} {e object low high lhs rhs : Expr} {f g : Fragment} {c c' : Code}
  {s s' s₁ : State} {ty sub : Ty} {span span' : Span} {which : Bound} {o : Int32} {kind : ExprKind}

theorem OwnedCode.of_valueOf (he : expr ctx e s = .ok (f, s₁)) (hv : valueOf e f s₁ = .ok (c, s'))
    (hf : (e.ty.isHeap && f.isAddress) = false) : OwnedCode ctx e c := by
  refine ⟨s, s', bind_ok.2 ⟨f, s₁, he, bind_ok.2 ⟨c, s', hv, ?_⟩⟩⟩
  rw [hf]
  rfl

theorem OwnedCode.of_operand (he : expr ctx e s = .ok (f, s₁)) (hv : valueOf e f s₁ = .ok (c, s'))
    (hty : isOperand e.ty = true) : OwnedCode ctx e c := by
  have hheap : e.ty.isHeap = false := by simpa using (Bool.and_eq_true_iff.1 hty).1
  exact .of_valueOf he hv (by rw [hheap]; rfl)

theorem eq_of_ownedValueOf (h : ownedValueOf e (value c') s = .ok (c, s')) : c = c' := by
  obtain ⟨c₁, hc₁, -, hc⟩ := ownedValueOf_ok h
  cases hc₁
  rwa [show (value c').isAddress = false from rfl, Bool.and_false, if_neg Bool.false_ne_true] at hc

theorem exists_intervalCode (h : expr ctx ⟨.interval low high, .interval sub, span⟩ s = .ok (f, s')) :
    ∃ store c₁ c₂, Instr.store? sub = some store ∧ OwnedCode ctx low c₁ ∧ OwnedCode ctx high c₂ ∧
      f = value (intervalCode sub (Layout.kindCode sub) store c₁ c₂) := by
  simp only [expr, exprKind, bind_ok] at h
  obtain ⟨store, s₁, hstore, g, s₂, hlow, c₁, s₃, hlow', g', s₄, hhigh, c₂, s₅, hhigh', hf⟩ := h
  exact ⟨store, c₁, c₂, storeOf_ok.1 (shaped_ok.1 hstore).1, ⟨s₁, s₃, bind_ok.2 ⟨g, s₂, hlow, hlow'⟩⟩,
    ⟨s₃, s₅, bind_ok.2 ⟨g', s₄, hhigh, hhigh'⟩⟩, (pure_ok.1 hf).1⟩

theorem exists_unaryCode {op : UnaryOp} (h : OwnedCode ctx ⟨.unary op e, ty, span⟩ c) :
    ∃ c₁ c₂, OwnedCode ctx e c₁ ∧ op.takes e.ty = true ∧ c = c₁ ++ c₂ ∧ ∀ (m : Machine) v,
      e.ty.Operands [v] → m.Produces c₂ [v] (some (op.apply e.ty v)) := by
  obtain ⟨s, s', h⟩ := h
  obtain ⟨f, s₁, hf, hc⟩ := bind_ok.1 h
  simp only [expr, exprKind, bind_ok, require_ok, pure_ok] at hf
  obtain ⟨-, s₂, ⟨hoperand, rfl⟩, g, s₃, hg, c₁, s₄, hc₁, c₂, s₅, hc₂, rfl, rfl⟩ := hf
  have htakes : op.takes e.ty = true := by
    generalize e.ty = operand at hoperand hc₂
    cases operand <;> cases op <;> first | rfl | (cases hc₂; done) | cases hoperand
  obtain ⟨c₃, s₆, hc₃, hruns⟩ := unaryCode_produces htakes span s₄
  cases hc₂.symm.trans hc₃
  exact ⟨c₁, c₂, .of_operand hg hc₁ hoperand, htakes, eq_of_ownedValueOf hc, hruns⟩

theorem exists_binaryCode {op : BinOp} (h : OwnedCode ctx ⟨.binary op lhs rhs, ty, span⟩ c)
    (hty : rhs.ty = lhs.ty) :
    ∃ c₁ c₂, OwnedCode ctx lhs c₁ ∧ OwnedCode ctx rhs c₂ ∧ op.takes lhs.ty = true ∧
      ((op.isLogical = true ∧ ∃ done, c = logicalCode op c₁ c₂ done) ∨
        op.isLogical = false ∧ ∃ c₃, c = c₁ ++ c₂ ++ c₃ ∧ ∀ (m : Machine) a b,
          (m.image.label? Environment.divideByZero).isSome → lhs.ty.Operands [a] →
            lhs.ty.Operands [b] → m.Produces c₃ [b, a] (op.apply a b)) := by
  obtain ⟨s, s', h⟩ := h
  obtain ⟨f, s₁, hf, hc⟩ := bind_ok.1 h
  simp only [expr, exprKind, bind_ok, require_ok] at hf
  obtain ⟨-, s₂, ⟨hoperand, rfl⟩, g, s₃, hg, c₁, s₄, hc₁, hf⟩ := hf
  have hscalar : lhs.ty.isScalar = true := by
    cases hlhs : lhs.ty <;> rw [hlhs] at hoperand <;> first | rfl | cases hoperand
  have hl : OwnedCode ctx lhs c₁ := .of_operand hg hc₁ hoperand
  cases hlogical : op.isLogical with
  | true =>
    simp only [hlogical, if_true, bind_ok, require_ok, pure_ok] at hf
    obtain ⟨-, s₅, ⟨hbool, rfl⟩, done, s₆, -, g', s₇, hg', c₂, s₈, hc₂, rfl, rfl⟩ := hf
    exact ⟨c₁, c₂, hl, .of_operand hg' hc₂ (hty ▸ hoperand), by rwa [BinOp.takes, if_pos hlogical],
      .inl ⟨rfl, done, eq_of_ownedValueOf hc⟩⟩
  | false =>
    simp only [hlogical, Bool.false_eq_true, if_false, bind_ok] at hf
    obtain ⟨g', s₅, hg', c₂, s₆, hc₂, hf⟩ := hf
    have hr : OwnedCode ctx rhs c₂ := .of_operand hg' hc₂ (hty ▸ hoperand)
    have htakes (h : (op.isComparison || decide (lhs.ty ≠ .bool)) = true) :
        op.takes lhs.ty = true := by
      rw [BinOp.takes, hlogical, if_neg Bool.false_ne_true, hscalar]
      exact h
    cases hcompare : op.isComparison with
    | true =>
      simp only [hcompare, if_true, bind_ok, pure_ok] at hf
      obtain ⟨group, s₇, -, rfl, rfl⟩ := hf
      refine ⟨c₁, c₂, hl, hr, htakes (by rw [hcompare]; rfl), .inr ⟨rfl,
        [if lhs.ty.isFloat then Instr.fSubtract else .subtract] ++ compareCode op lhs.ty.isFloat group,
        ?_, fun m a b _ ha hb => comparison_produces hcompare ha hb⟩⟩
      rw [eq_of_ownedValueOf hc, List.append_assoc]
    | false =>
      simp only [hcompare, Bool.false_eq_true, if_false, bind_ok, require_ok] at hf
      obtain ⟨-, s₇, ⟨hbool, rfl⟩, hf⟩ := hf
      cases harithmetic : arithmetic? op lhs.ty.isFloat with
      | none =>
        rw [harithmetic] at hf
        cases hf
      | some c₃ =>
        rw [harithmetic, pure_ok] at hf
        obtain ⟨rfl, rfl⟩ := hf
        exact ⟨c₁, c₂, hl, hr, htakes (by rw [hcompare]; exact hbool), .inr ⟨rfl, c₃,
          eq_of_ownedValueOf hc, fun m a b htrap ha hb => arithmetic_produces harithmetic htrap ha hb⟩⟩

theorem memberOf_ok (hheap : object.ty.isHeap = true) (he : expr ctx object s = .ok (f, s₁))
    (h : memberOf object f o ty span s₁ = .ok (g, s')) : g.isAddress = f.isAddress ∧
      (f.isAddress = false → ∃ c₁ load, OwnedCode ctx object c₁ ∧ Instr.load? ty = some load ∧
        g = value (c₁ ++ Drain.readOutCode o ty load)) := by
  obtain ⟨c₁, s₂, hc₁, h⟩ := bind_ok.1 h
  cases hf : f.isAddress with
  | true =>
    rw [show isFresh f object.ty = false by rw [isFresh, hf, Bool.not_true, Bool.and_false],
      if_neg Bool.false_ne_true, pure_ok] at h
    exact ⟨h.1 ▸ rfl, fun hf => absurd hf.symm Bool.false_ne_true⟩
  | false =>
    rw [show isFresh f object.ty = true by rw [isFresh, hf, hheap]; rfl, if_pos rfl] at h
    simp only [bind_ok, shaped_ok, loadOf_ok, pure_ok] at h
    obtain ⟨load, s₃, ⟨hload, -⟩, -, s₄, -, rfl, -⟩ := h
    refine ⟨rfl, fun _ => ⟨c₁, load, .of_valueOf he hc₁ (by rw [hf, Bool.and_false]), hload, ?_⟩⟩
    simp only [Drain.readOutCode, countIfHeap, List.append_assoc, List.cons_append, List.nil_append]

theorem exists_memberOf (hok : p.kindOk ty kind) (hpart : kind.part? ty = some (object, o))
    (h : expr ctx ⟨kind, ty, span⟩ s = .ok (g, s')) : p.exprOk object ∧ object.ty.isHeap = true ∧
      ∃ f s₁, expr ctx object s = .ok (f, s₁) ∧ memberOf object f o ty span s₁ = .ok (g, s') := by
  cases kind with
  | bound i which =>
    cases hpart
    obtain ⟨hi, hty⟩ := Bool.and_eq_true_iff.1 hok
    have hty : object.ty = .interval ty := of_decide_eq_true hty
    simp only [expr, exprKind, hty, bind_ok] at h
    exact ⟨hi, by rw [hty]; rfl, h⟩
  | field object m =>
    cases hpart
    rw [Typing.kindOk, Bool.and_eq_true, Bool.and_eq_true, decide_eq_true_eq] at hok
    obtain ⟨⟨hobject, hmember⟩, rfl⟩ := hok
    have hheap : object.ty.isHeap = true := by
      cases hty : object.ty <;> rw [hty] at hmember <;> first | rfl | cases hmember
    cases hm : m.storage with
    | member offset =>
      simp only [expr, exprKind, hm, bind_ok] at h
      exact ⟨hobject, hheap, h⟩
    | _ =>
      simp only [expr, exprKind, hm] at h
      cases h
  | _ => cases hpart

theorem isMember_of_ok {b : Binding}
    (h : expr ctx ⟨.field object b, ty, span⟩ s = .ok (g, s')) : b.storage.isMember = true := by
  cases hb : b.storage with
  | member _ => rfl
  | _ =>
    simp only [expr, exprKind, hb] at h
    cases h

mutual

theorem isPath_of_isAddress : (e : Expr) → p.exprOk e → ∀ {s f s'}, expr ctx e s = .ok (f, s') →
    f.isAddress = true → e.isPath = true
  | ⟨kind, ty, span⟩, hok, _, _, _, h, hf => isPathKind_of_isAddress ty span kind hok h hf

theorem isPathKind_of_isAddress (ty : Ty) (span : Span) : (kind : ExprKind) → p.kindOk ty kind →
    ∀ {s f s'}, expr ctx ⟨kind, ty, span⟩ s = .ok (f, s') → f.isAddress = true → kind.isPath = true
  | .ident _, _, _, _, _, _, _ | .self, _, _, _, _, _, _ => rfl
  | .bound i which, hok, s, f, s', h, hf => by
    obtain ⟨hi, hheap, g, s₁, hg, h⟩ := exists_memberOf hok rfl h
    rw [(memberOf_ok hheap hg h).1] at hf
    exact isPath_of_isAddress i hi hg hf
  | .field object m, hok, s, f, s', h, hf => by
    have hmember := isMember_of_ok h
    obtain ⟨hobject, hheap, g, s₁, hg, h⟩ := exists_memberOf hok rfl h
    rw [(memberOf_ok hheap hg h).1] at hf
    exact Bool.and_eq_true_iff.2 ⟨isPath_of_isAddress object hobject hg hf, hmember⟩
  | .bool _, _, _, f, _, h, hf | .char _, _, _, f, _, h, hf | .int _, _, _, f, _, h, hf
  | .float _, _, _, f, _, h, hf | .binary .., _, _, f, _, h, hf | .unary .., _, _, f, _, h, hf
  | .interval .., _, _, f, _, h, hf | .methodCall .., _, _, f, _, h, hf | .call .., _, _, f, _, h, hf
  | .new _, _, _, f, _, h, hf => by
    obtain ⟨o, ho, -⟩ := exprKind_outlined ctx ty span _ h
    have hshape : f.shape = .address := of_decide_eq_true hf
    generalize f.shape = shape at ho hshape
    cases ho <;> first | cases hshape | (unfold resultShape at hshape; split at hshape <;> cases hshape)

end

theorem exists_readOutCode (hok : p.kindOk ty kind) (hpart : kind.part? ty = some (object, o))
    (hpath : kind.isPath = false) (h : OwnedCode ctx ⟨kind, ty, span⟩ c) :
    object.ty.isHeap = true ∧ ∃ c₁ load, OwnedCode ctx object c₁ ∧ Instr.load? ty = some load ∧
      c = c₁ ++ Drain.readOutCode o ty load := by
  obtain ⟨s, s', h⟩ := h
  obtain ⟨g, s₁, hg, hc⟩ := bind_ok.1 h
  obtain ⟨-, hheap, f, s₂, hf, hmember⟩ := exists_memberOf hok hpart hg
  obtain ⟨haddress, hfresh⟩ := memberOf_ok hheap hf hmember
  have hnew : f.isAddress = false := by
    refine Bool.eq_false_iff.2 fun hf => ?_
    rw [isPathKind_of_isAddress ty span kind hok hg (haddress.trans hf)] at hpath
    cases hpath
  obtain ⟨c₁, load, hc₁, hload, rfl⟩ := hfresh hnew
  exact ⟨hheap, c₁, load, hc₁, hload, eq_of_ownedValueOf hc⟩

theorem exists_directCode (hself : p.self.isSome → ctx.selfSlot.isSome) (hok : p.kindOk ty kind)
    (hdirect : kind.isDirect) (h : OwnedCode ctx ⟨kind, ty, span⟩ c) :
    ∃ cv, c = cv ++ countIfHeap ty ∧ ∀ (m : Machine) v, m.addressableKind ctx.selfSlot ty kind →
      m.evalKind ctx.selfSlot ty kind = some v → ty.Operands [v] ∧ m.Produces cv [] (some v) := by
  obtain ⟨s, s', h⟩ := h
  cases hpath : kind.isPath with
  | true =>
    obtain ⟨c₀, hc₀, hruns⟩ := pathKind_produces hself ty span kind hok hpath
    obtain ⟨f, s₁, hf, hc⟩ := bind_ok.1 h
    rw [expr, hc₀ s] at hf
    cases hf
    obtain ⟨cv, hcv, -, rfl⟩ := ownedValueOf_ok hc
    obtain ⟨-, ⟨hshape, -⟩ | ⟨-, load, hload, rfl⟩⟩ := valueOf_ok hcv
    · cases hshape
    have heval (m : Machine) : m.evalKind ctx.selfSlot ty kind
        = some (m.memory.value ty (m.locateKind ctx.selfSlot kind)) := by
      cases kind <;> first | rfl | cases hpath
    have haddress (m : Machine) : m.addressableKind ctx.selfSlot ty kind
        = (m.leadsKind ctx.selfSlot kind &&
          m.readable (m.locateKind ctx.selfSlot kind) ty.size.toNat) := by
      cases kind <;> first | rfl | cases hpath
    refine ⟨c₀ ++ [load], ?_, fun m v hm hv => ?_⟩
    · rw [show (address c₀).isAddress = true from rfl, Bool.and_true, countIfHeap]
      split
      · rfl
      · exact (List.append_nil _).symm
    · rw [heval] at hv
      cases hv
      rw [haddress, Bool.and_eq_true] at hm
      refine ⟨?_, (hruns m hm.1).followed (.load hload hm.2)⟩
      rw [← Memory.operands_eq_value hload]
      exact Drain.operands_read _ _ _
  | false =>
    cases kind with
    | bool | char | int | float =>
      obtain rfl := of_decide_eq_true hok
      cases h
      refine ⟨_, (List.append_nil _).symm, fun m v _ hv => ?_⟩
      cases hv
      exact ⟨⟨_, rfl⟩, .act rfl fun _ => rfl⟩
    | _ => cases hpath.symm.trans hdirect

end Generator
end IntervalStack
