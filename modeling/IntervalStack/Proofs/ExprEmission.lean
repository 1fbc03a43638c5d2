import IntervalStack.Proofs.Generation
import IntervalStack.Proofs.Outline

/-! The code of expressions as a relation, one rule for each way in which the generator composes
code. The relation gives the outline of the code, and what the generator emits for an expression
has an outline. -/

namespace IntervalStack.Generator
open Outline (plain wrap)

inductive Job
  | expr (e : Expr) (shape : Shape)
  | kind (kind : ExprKind) (ty : Ty) (span : Span) (shape : Shape)
  | value (e : Expr) (shape : Shape)
  | owned (e : Expr)
  /-- The place at an offset of the record that `object` yields, or what that place holds. -/
  | member (object : Expr) (offset : Int32) (ty : Ty) (shape : Shape)
  | args (params : List Ty) (es : List Expr)

def resultShape (ty : Ty) : Shape := if ty = .void then .void else .value

def releaseReceiver (result : Ty) : Code :=
  if result = .void then [RefCounter.push] else [.exchange, RefCounter.push]

def countIfHeap (ty : Ty) : Code := if ty.isHeap then [.duplicate, RefCounter.increment] else []

def isOperand (ty : Ty) : Bool := !ty.isHeap && ty ≠ .void

def decidingJump (op : BinOp) (done : String) : Instr :=
  if op = .and then .jumpFalse done else .jumpTrue done

def logicalStem (op : BinOp) : String := if op = .and then "and" else "or"

inductive Emits (ctx : Context) : Job → State → Outline → State → Prop
  | expr {kind ty span shape s o s'} (h : Emits ctx (.kind kind ty span shape) s o s') :
    Emits ctx (.expr ⟨kind, ty, span⟩ shape) s (wrap (.expr ⟨kind, ty, span⟩ shape) o) s'
  | bool {b ty span s} :
    Emits ctx (.kind (.bool b) ty span .value) s (plain [truth b]) s
  | char {c ty span s} :
    Emits ctx (.kind (.char c) ty span .value) s (plain [.pushI c.val.toInt32]) s
  | int {n ty span s} :
    Emits ctx (.kind (.int n) ty span .value) s (plain [.pushI n]) s
  | float {x ty span s} :
    Emits ctx (.kind (.float x) ty span .value) s (plain [.pushF x]) s
  | ident {b ty span s c} (h : Frame.storageAddress? cells b.storage ctx.selfSlot = some c) :
    Emits ctx (.kind (.ident b) ty span .address) s (plain c) s
  | self {slot ty span s} (h : ctx.selfSlot = some slot) :
    Emits ctx (.kind .self ty span .address) s (plain (cells.loadFrame ++ [.pushI slot, .add])) s
  | logical {op l r ty span a b s s₁ s₂ o₁ o₂} (hop : op.isLogical) (hty : l.ty = .bool)
    (hl : Emits ctx (.value l a) s o₁ s₁) (hr : Emits ctx (.value r b) s₁.next o₂ s₂) :
    Emits ctx (.kind (.binary op l r) ty span .value) s
      (o₁ ++ plain [.duplicate, decidingJump op (s₁.label (logicalStem op)), .pop]
        ++ o₂ ++ plain [.label (s₁.label (logicalStem op))]) s₂
  | compare {op l r ty span a b s s₁ s₂ o₁ o₂} (hop : op.isComparison) (hty : isOperand l.ty)
    (hl : Emits ctx (.value l a) s o₁ s₁) (hr : Emits ctx (.value r b) s₁ o₂ s₂) :
    Emits ctx (.kind (.binary op l r) ty span .value) s
      (o₁ ++ o₂ ++ plain ([if l.ty.isFloat then .fSubtract else .subtract]
        ++ compareCode op l.ty.isFloat (s₂.label "compare"))) s₂.next
  | arithmetic {op l r ty span a b s s₁ s₂ o₁ o₂ c} (hty : isOperand l.ty) (hb : l.ty ≠ .bool)
    (hc : arithmetic? op l.ty.isFloat = some c)
    (hl : Emits ctx (.value l a) s o₁ s₁) (hr : Emits ctx (.value r b) s₁ o₂ s₂) :
    Emits ctx (.kind (.binary op l r) ty span .value) s (o₁ ++ o₂ ++ plain c) s₂
  | unary {op e ty span a s s₁ s₂ o c} (hty : isOperand e.ty)
    (he : Emits ctx (.value e a) s o s₁) (hc : unaryCode op e.ty span s₁ = .ok (c, s₂)) :
    Emits ctx (.kind (.unary op e) ty span .value) s (o ++ plain c) s₂
  | interval {low high sub span s s₁ s₂ o₁ o₂ store} (hs : Instr.store? sub = some store)
    (hl : Emits ctx (.owned low) s o₁ s₁) (hh : Emits ctx (.owned high) s₁ o₂ s₂) :
    Emits ctx (.kind (.interval low high) (.interval sub) span .value) s
      (plain (allocateRecord (Layout.intervalSize sub)
          (if sub.isHeap then Layout.nestedIntervalCode else Layout.flatIntervalCode)
        ++ [.duplicate, .pushI Layout.subtypeSizeOffset, .add, .pushI sub.size.toInt32, .storeC]
        ++ [.duplicate, .pushI (Layout.boundOffset sub .low), .add])
        ++ o₁ ++ plain [store, .duplicate, .pushI (Layout.boundOffset sub .high), .add]
        ++ o₂ ++ plain [store]) s₂
  | bound {i b sub ty span shape s o s'} (hty : i.ty = .interval sub)
    (h : Emits ctx (.member i (Layout.boundOffset sub b) ty shape) s o s') :
    Emits ctx (.kind (.bound i b) ty span shape) s o s'
  | field {object m offset ty span shape s o s'} (hm : m.storage = .member offset)
    (h : Emits ctx (.member object offset m.ty shape) s o s') :
    Emits ctx (.kind (.field object m) ty span shape) s o s'
  | methodCall {object method args ty span id d f l s s₁ s₂ o₁ o₂} (hty : object.ty = .struct id)
    (hd : ctx.program.struct? id = some d) (hf : d.method? method = some f)
    (hl : ctx.structs.get? id = some l) (hn : args.length = f.params.length)
    (ho : Emits ctx (.owned object) s o₁ s₁)
    (ha : Emits ctx (.args (f.params.map (·.ty)) args) s₁ o₂ s₂) :
    Emits ctx (.kind (.methodCall object method args) ty span (resultShape f.returnType)) s
      (o₁ ++ plain ([.duplicate] ++ Frame.pushArgument cells .int) ++ o₂
        ++ plain ([.call (methodLabel l.typeCode method)] ++ Frame.fetchResult cells f.returnType
          ++ releaseReceiver f.returnType)) (s₂.noting true)
  | call {name args ty span f s s' o} (hf : ctx.program.function? name = some f)
    (hn : args.length = f.params.length)
    (ha : Emits ctx (.args (f.params.map (·.ty)) args) s o s') :
    Emits ctx (.kind (.call name args) ty span (resultShape f.returnType)) s
      (o ++ plain ([.call (functionLabel name)] ++ Frame.fetchResult cells f.returnType)) s'
  | new {id ty span l s} (hl : ctx.structs.get? id = some l) :
    Emits ctx (.kind (.new id) ty span .value) s (plain (newStructCode l)) s
  | used {e s o s'} (h : Emits ctx (.expr e .value) s o s') :
    Emits ctx (.value e .value) s o s'
  | loaded {e s o s' load} (hl : Instr.load? e.ty = some load)
    (h : Emits ctx (.expr e .address) s o s') :
    Emits ctx (.value e .address) s (o ++ plain [load]) s'
  | moved {e shape s o s'} (hn : (e.ty.isHeap && shape = .address) = false)
    (h : Emits ctx (.value e shape) s o s') : Emits ctx (.owned e) s o s'
  | counted {e s o s'} (hh : e.ty.isHeap) (h : Emits ctx (.value e .address) s o s') :
    Emits ctx (.owned e) s (o ++ plain [.duplicate, RefCounter.increment]) s'
  | stored {object offset ty shape s o s'} (hn : (object.ty.isHeap && shape ≠ .address) = false)
    (h : Emits ctx (.value object shape) s o s') :
    Emits ctx (.member object offset ty .address) s
      (wrap (.record object) o ++ plain [.pushI offset, .add]) s'
  | readOut {object offset ty load s o s'} (hh : object.ty.isHeap)
    (hl : Instr.load? ty = some load) (h : Emits ctx (.value object .value) s o s') :
    Emits ctx (.member object offset ty .value) s
      (wrap (.record object) o ++ plain ([.duplicate, .pushI offset, .add, load] ++ countIfHeap ty
        ++ [.exchange, RefCounter.push])) (s'.noting true)
  | noArgs {s} : Emits ctx (.args [] []) s .nil s
  | arg {ty tys e es s s₁ s₂ o₁ o₂} (he : Emits ctx (.owned e) s o₁ s₁)
    (hs : Emits ctx (.args tys es) s₁ o₂ s₂) :
    Emits ctx (.args (ty :: tys) (e :: es)) s
      (o₁ ++ plain (Frame.pushArgument cells ty) ++ o₂) s₂

theorem unaryCode_ok {op : UnaryOp} {ty : Ty} {span : Span} {s s' : State} {c : Code}
    (h : unaryCode op ty span s = .ok (c, s')) :
    s' = s ∧ c ∈ [[], [.bNegate], [.bNegate, .bNegate], [.negate], [.fNegate], [.convertF],
      [.convertI], [.pushI 127, .btAnd], [.convertI, .pushI 127, .btAnd]] ∨
    op = .toBool ∧ ty = .float ∧ s' = s.next ∧ c = floatToBool (s.label "to-bool") := by
  cases op <;> cases ty <;>
    simp only [unaryCode, refuse_ok, bind_ok, fresh_ok, pure_ok] at h <;>
    first
    | exact .inl ⟨h.2, by simp [h.1]⟩
    | (obtain ⟨_, _, ⟨rfl, rfl⟩, rfl, rfl⟩ := h
       exact .inr ⟨rfl, rfl, rfl, rfl⟩)

structure State.Grows (s s' : State) : Prop where
  count : s.labels.count ≤ s'.labels.count
  pushed : s.pushed = true → s'.pushed = true
  exitPushed : s.exitPushed = true → s'.exitPushed = true

theorem State.Grows.refl (s : State) : s.Grows s := ⟨Nat.le_refl _, id, id⟩

theorem State.Grows.trans {s s₁ s₂ : State} (h₁ : s.Grows s₁) (h₂ : s₁.Grows s₂) : s.Grows s₂ :=
  ⟨Nat.le_trans h₁.count h₂.count, h₂.pushed ∘ h₁.pushed, h₂.exitPushed ∘ h₁.exitPushed⟩

theorem State.Grows.next (s : State) : s.Grows s.next := ⟨Nat.le_succ _, id, id⟩

theorem State.Grows.noting (s : State) (b : Bool) : s.Grows (s.noting b) :=
  ⟨Nat.le_refl _, fun h => by simp [h], id⟩

theorem State.Grows.printing (s : State) (k : ScalarKind) : s.Grows (s.printing k) :=
  ⟨Nat.le_refl _, id, id⟩

theorem unaryCode_grows {op : UnaryOp} {ty : Ty} {span : Span} {s s' : State} {c : Code}
    (h : unaryCode op ty span s = .ok (c, s')) : s.Grows s' := by
  rcases unaryCode_ok h with ⟨rfl, -⟩ | ⟨-, -, rfl, -⟩
  · exact .refl _
  · exact .next _

theorem Emits.grows {ctx : Context} {job : Job} {s s' : State} {o : Outline}
    (h : Emits ctx job s o s') : s.Grows s' := by
  induction h with
  | expr _ ih | bound _ _ ih | field _ _ ih | used _ ih | loaded _ _ ih | moved _ _ ih
  | counted _ _ ih | stored _ _ ih | call _ _ _ ih => exact ih
  | bool | char | int | float | ident | self | new | noArgs => exact .refl _
  | logical _ _ _ _ ih₁ ih₂ => exact ih₁.trans ((State.Grows.next _).trans ih₂)
  | compare _ _ _ _ ih₁ ih₂ => exact ih₁.trans (ih₂.trans (.next _))
  | arithmetic _ _ _ _ _ ih₁ ih₂ | interval _ _ _ ih₁ ih₂ | arg _ _ ih₁ ih₂ => exact ih₁.trans ih₂
  | unary _ _ hc ih => exact ih.trans (unaryCode_grows hc)
  | methodCall _ _ _ _ _ _ _ ih₁ ih₂ => exact ih₁.trans (ih₂.trans (.noting _ _))
  | readOut _ _ _ ih => exact ih.trans (.noting _ _)

def Outlined (ctx : Context) (job : Job) (s : State) (c : Code) (s' : State) : Prop :=
  ∃ o, Emits ctx job s o s' ∧ o.code = c

theorem Outlined.value {ctx : Context} {e : Expr} {f : Fragment} {s s₁ s' : State} {c : Code}
    (he : Outlined ctx (.expr e f.shape) s f.code s₁) (hc : valueOf e f s₁ = .ok (c, s')) :
    s' = s₁ ∧ Outlined ctx (.value e f.shape) s c s' := by
  obtain ⟨rfl, hv⟩ := valueOf_ok hc
  obtain ⟨o, ho, hcode⟩ := he
  refine ⟨rfl, ?_⟩
  rcases hv with ⟨hs, rfl⟩ | ⟨hs, load, hl, rfl⟩
  · rw [hs] at ho ⊢
    exact ⟨o, .used ho, hcode⟩
  · rw [hs] at ho ⊢
    exact ⟨o ++ plain [load], .loaded hl ho, by simp [hcode]⟩

theorem Outlined.owned {ctx : Context} {e : Expr} {f : Fragment} {s s₁ s' : State} {c : Code}
    (he : Outlined ctx (.expr e f.shape) s f.code s₁) (hc : ownedValueOf e f s₁ = .ok (c, s')) :
    s' = s₁ ∧ Outlined ctx (.owned e) s c s' := by
  obtain ⟨c', hv, rfl, rfl⟩ := ownedValueOf_ok hc
  obtain ⟨-, o, ho, rfl⟩ := he.value hv
  refine ⟨rfl, ?_⟩
  split
  · next h =>
    obtain ⟨hh, ha⟩ := Bool.and_eq_true_iff.1 h
    rw [of_decide_eq_true ha] at ho
    exact ⟨_, .counted hh ho, by simp⟩
  · next h => exact ⟨o, .moved (by simpa [Fragment.isAddress] using h) ho, rfl⟩

theorem memberOf_outlined {ctx : Context} {object : Expr} {f r : Fragment} {offset : Int32}
    {ty : Ty} {span : Span} {s s₁ s' : State}
    (ho : Outlined ctx (.expr object f.shape) s f.code s₁)
    (h : memberOf object f offset ty span s₁ = .ok (r, s')) :
    Outlined ctx (.member object offset ty r.shape) s r.code s' := by
  simp only [memberOf, bind_ok] at h
  obtain ⟨c, s₂, hc, h⟩ := h
  obtain ⟨rfl, o, hv, rfl⟩ := ho.value hc
  by_cases hf : isFresh f object.ty = true
  · simp only [hf, if_true, bind_ok, shaped_ok, notePush_ok, pure_ok, loadOf_ok] at h
    obtain ⟨load, _, ⟨hl, rfl⟩, _, _, rfl, rfl, rfl⟩ := h
    simp only [isFresh, Bool.and_eq_true, Bool.not_eq_true', Fragment.isAddress,
      decide_eq_false_iff_not] at hf
    have hs : f.shape = .value := by
      rcases (valueOf_ok hc).2 with ⟨hs, -⟩ | ⟨hs, -⟩
      · exact hs
      · exact absurd hs hf.2
    rw [hs] at hv
    exact ⟨_, .readOut hf.1 hl hv, by simp [value, countIfHeap]⟩
  · simp only [hf, if_false, pure_ok, Bool.false_eq_true] at h
    obtain ⟨rfl, rfl⟩ := h
    exact ⟨_, .stored (by simpa [isFresh, Fragment.isAddress] using hf) hv, by simp [address]⟩

theorem resultFragment_shape (ty : Ty) (c : Code) :
    (resultFragment ty c).shape = resultShape ty ∧ (resultFragment ty c).code = c := by
  unfold resultFragment resultShape
  split <;> exact ⟨rfl, rfl⟩

def Outlines (ctx : Context) (e : Expr) : Prop :=
  ∀ ⦃s s' : State⦄ ⦃f : Fragment⦄, expr ctx e s = .ok (f, s') →
    Outlined ctx (.expr e f.shape) s f.code s'

def OutlinesAll (ctx : Context) (es : List Expr) : Prop :=
  ∀ ⦃tys : List Ty⦄, es.length = tys.length → ∀ ⦃s s' : State⦄ ⦃c : Code⦄,
    arguments ctx tys es s = .ok (c, s') → Outlined ctx (.args tys es) s c s'

section
variable {ctx : Context} {ty : Ty} {span : Span} {s s' : State} {f : Fragment}

theorem literal_outlined {kind : ExprKind} {c : Code}
    (hkind : exprKind ctx ty span kind = pure (value c))
    (hemits : Emits ctx (.kind kind ty span .value) s (plain c) s)
    (h : exprKind ctx ty span kind s = .ok (f, s')) :
    Outlined ctx (.kind kind ty span f.shape) s f.code s' := by
  rw [hkind, pure_ok] at h
  obtain ⟨rfl, rfl⟩ := h
  exact ⟨_, hemits, Outline.code_plain c⟩

theorem binary_outlined {op : BinOp} {l r : Expr} (hl : Outlines ctx l) (hr : Outlines ctx r)
    (h : exprKind ctx ty span (.binary op l r) s = .ok (f, s')) :
    Outlined ctx (.kind (.binary op l r) ty span f.shape) s f.code s' := by
  simp only [exprKind, bind_ok, require_ok] at h
  obtain ⟨_, _, ⟨hty, rfl⟩, fl, s₁, hleft, c₁, _, hv, h⟩ := h
  obtain ⟨rfl, o₁, ho₁, rfl⟩ := (hl hleft).value hv
  by_cases hop : op.isLogical = true
  · simp only [hop, if_true, bind_ok, require_ok, fresh_ok, pure_ok, decide_eq_true_eq] at h
    obtain ⟨_, _, ⟨hb, rfl⟩, _, _, ⟨rfl, rfl⟩, fr, s₂, hright, c₂, _, hv₂, rfl, rfl⟩ := h
    obtain ⟨rfl, o₂, ho₂, rfl⟩ := (hr hright).value hv₂
    exact ⟨_, .logical hop hb ho₁ ho₂, by simp [value, logicalCode, decidingJump, logicalStem]⟩
  · simp only [hop, if_false, bind_ok, Bool.false_eq_true] at h
    obtain ⟨fr, s₂, hright, c₂, _, hv₂, h⟩ := h
    obtain ⟨rfl, o₂, ho₂, rfl⟩ := (hr hright).value hv₂
    by_cases hcmp : op.isComparison = true
    · simp only [hcmp, if_true, bind_ok, fresh_ok, pure_ok] at h
      obtain ⟨_, _, ⟨rfl, rfl⟩, rfl, rfl⟩ := h
      exact ⟨_, .compare hcmp hty ho₁ ho₂, by simp [value]⟩
    · simp only [hcmp, if_false, bind_ok, require_ok, Bool.false_eq_true, decide_eq_true_eq] at h
      obtain ⟨_, _, ⟨hb, rfl⟩, h⟩ := h
      cases hc : arithmetic? op l.ty.isFloat with
      | none => simp [hc] at h
      | some c =>
        simp only [hc, pure_ok] at h
        obtain ⟨rfl, rfl⟩ := h
        exact ⟨_, .arithmetic hty hb hc ho₁ ho₂, by simp [value]⟩

theorem interval_outlined {low high : Expr} (hlow : Outlines ctx low) (hhigh : Outlines ctx high)
    (h : exprKind ctx ty span (.interval low high) s = .ok (f, s')) :
    Outlined ctx (.kind (.interval low high) ty span f.shape) s f.code s' := by
  cases ty with
  | interval sub =>
    simp only [exprKind, bind_ok, shaped_ok, storeOf_ok, pure_ok] at h
    obtain ⟨store, _, ⟨hs, rfl⟩, fl, s₁, hl, c₁, _, hv₁, fh, s₂, hh, c₂, _, hv₂, rfl, rfl⟩ := h
    obtain ⟨rfl, o₁, ho₁, rfl⟩ := (hlow hl).owned hv₁
    obtain ⟨rfl, o₂, ho₂, rfl⟩ := (hhigh hh).owned hv₂
    exact ⟨_, .interval hs ho₁ ho₂, by simp [value, intervalCode]⟩
  | _ => simp [exprKind] at h

theorem bound_outlined {i : Expr} {b : Bound} (hi : Outlines ctx i)
    (h : exprKind ctx ty span (.bound i b) s = .ok (f, s')) :
    Outlined ctx (.kind (.bound i b) ty span f.shape) s f.code s' := by
  rw [exprKind] at h
  cases hty : i.ty with
  | interval sub =>
    simp only [hty, bind_ok] at h
    obtain ⟨fi, s₁, hfi, h⟩ := h
    obtain ⟨o, ho, hc⟩ := memberOf_outlined (hi hfi) h
    exact ⟨o, .bound hty ho, hc⟩
  | _ => simp [hty] at h

theorem field_outlined {object : Expr} {m : Binding} (hobject : Outlines ctx object)
    (h : exprKind ctx ty span (.field object m) s = .ok (f, s')) :
    Outlined ctx (.kind (.field object m) ty span f.shape) s f.code s' := by
  rw [exprKind] at h
  cases hm : m.storage with
  | member offset =>
    simp only [hm, bind_ok] at h
    obtain ⟨fo, s₁, hfo, h⟩ := h
    obtain ⟨o, ho, hc⟩ := memberOf_outlined (hobject hfo) h
    exact ⟨o, .field hm ho, hc⟩
  | _ => simp [hm] at h

theorem methodCall_outlined {object : Expr} {method : String} {args : List Expr}
    (hobject : Outlines ctx object) (hargs : OutlinesAll ctx args)
    (h : exprKind ctx ty span (.methodCall object method args) s = .ok (f, s')) :
    Outlined ctx (.kind (.methodCall object method args) ty span f.shape) s f.code s' := by
  simp only [exprKind, bind_ok, checkArity_ok] at h
  obtain ⟨fo, s₁, hfo, c, _, hv, ⟨callee, typeCode⟩, _, hm, _, _, ⟨hn, rfl⟩, ca, s₂, ha, h⟩ := h
  obtain ⟨id, d, l, hty, hd, hf, hl, rfl, rfl⟩ := methodOf_ok hm
  obtain ⟨rfl, o₁, ho₁, rfl⟩ := (hobject hfo).value hv
  obtain ⟨o₂, ho₂, rfl⟩ := hargs (by rw [hn, List.length_map]) ha
  simp only [methodCode, bind_ok, notePush_ok, pure_ok] at h
  obtain ⟨_, _, rfl, rfl, rfl⟩ := h
  rw [(resultFragment_shape _ _).1, (resultFragment_shape _ _).2]
  have hheap : object.ty.isHeap = true := by rw [hty]; rfl
  by_cases hsh : fo.shape = .address
  · rw [hsh] at ho₁
    exact ⟨_, .methodCall hty hd hf hl hn (.counted hheap ho₁) ho₂,
      by simp [isFresh, hheap, Fragment.isAddress, hsh, releaseReceiver]⟩
  · exact ⟨_, .methodCall hty hd hf hl hn (.moved (by simp [hsh]) ho₁) ho₂,
      by simp [isFresh, hheap, Fragment.isAddress, hsh, releaseReceiver]⟩

theorem call_outlined {name : String} {args : List Expr} (hargs : OutlinesAll ctx args)
    (h : exprKind ctx ty span (.call name args) s = .ok (f, s')) :
    Outlined ctx (.kind (.call name args) ty span f.shape) s f.code s' := by
  simp only [exprKind, bind_ok, checkArity_ok, functionOf_ok, pure_ok] at h
  obtain ⟨callee, _, ⟨hf, rfl⟩, _, _, ⟨hn, rfl⟩, ca, s₁, ha, rfl, rfl⟩ := h
  obtain ⟨o, ho, rfl⟩ := hargs (by rw [hn, List.length_map]) ha
  rw [callCode, (resultFragment_shape _ _).1, (resultFragment_shape _ _).2]
  exact ⟨_, .call hf hn ho, by simp⟩

end

mutual

theorem expr_outlined (ctx : Context) : (e : Expr) → Outlines ctx e
  | ⟨kind, ty, span⟩, s, s', f, h => by
    rw [expr] at h
    obtain ⟨o, ho, hc⟩ := exprKind_outlined ctx ty span kind h
    exact ⟨_, .expr ho, by rw [Outline.code_wrap, hc]⟩

theorem exprKind_outlined (ctx : Context) (ty : Ty) (span : Span) : (kind : ExprKind) →
    {s s' : State} → {f : Fragment} → exprKind ctx ty span kind s = .ok (f, s') →
      Outlined ctx (.kind kind ty span f.shape) s f.code s'
  | .bool _, _, _, _, h => literal_outlined (by rw [exprKind]) .bool h
  | .char _, _, _, _, h => literal_outlined (by rw [exprKind]) .char h
  | .int _, _, _, _, h => literal_outlined (by rw [exprKind]) .int h
  | .float _, _, _, _, h => literal_outlined (by rw [exprKind]) .float h
  | .ident b, s, s', f, h => by
    simp only [exprKind, bind_ok, bindingAddress_ok, pure_ok] at h
    obtain ⟨c, _, ⟨hc, rfl⟩, rfl, rfl⟩ := h
    exact ⟨_, .ident hc, Outline.code_plain c⟩
  | .self, s, s', f, h => by
    obtain ⟨slot, hslot, rfl, rfl⟩ := self_ok.1 h
    exact ⟨_, .self hslot, Outline.code_plain _⟩
  | .binary _ l r, _, _, _, h => binary_outlined (expr_outlined ctx l) (expr_outlined ctx r) h
  | .unary op e, s, s', f, h => by
    simp only [exprKind, bind_ok, require_ok, pure_ok] at h
    obtain ⟨_, _, ⟨hty, rfl⟩, fe, s₁, he, c, _, hv, cu, _, hu, rfl, rfl⟩ := h
    obtain ⟨rfl, o, ho, rfl⟩ := (expr_outlined ctx e he).value hv
    exact ⟨_, .unary hty ho hu, by simp [value]⟩
  | .interval low high, _, _, _, h =>
    interval_outlined (expr_outlined ctx low) (expr_outlined ctx high) h
  | .bound i _, _, _, _, h => bound_outlined (expr_outlined ctx i) h
  | .field object _, _, _, _, h => field_outlined (expr_outlined ctx object) h
  | .methodCall object _ args, _, _, _, h =>
    methodCall_outlined (expr_outlined ctx object) (arguments_outlined ctx args) h
  | .call _ args, _, _, _, h => call_outlined (arguments_outlined ctx args) h
  | .new id, s, s', f, h => by
    simp only [exprKind, bind_ok, layoutOf_ok, pure_ok] at h
    obtain ⟨l, _, ⟨hl, rfl⟩, rfl, rfl⟩ := h
    exact ⟨_, .new hl, Outline.code_plain _⟩

theorem arguments_outlined (ctx : Context) : (es : List Expr) → OutlinesAll ctx es
  | [], [], _, s, s', c, h => by
    rw [arguments, pure_ok] at h
    obtain ⟨rfl, rfl⟩ := h
    exact ⟨_, .noArgs, rfl⟩
  | e :: es, ty :: tys, hn, s, s', c, h => by
    simp only [arguments, bind_ok, pure_ok] at h
    obtain ⟨f, s₁, he, c₁, _, hv, c₂, s₂, hs, rfl, rfl⟩ := h
    obtain ⟨rfl, o₁, ho₁, rfl⟩ := (expr_outlined ctx e he).owned hv
    obtain ⟨o₂, ho₂, rfl⟩ := arguments_outlined ctx es (Nat.succ.inj hn) hs
    exact ⟨_, .arg ho₁ ho₂, by simp⟩

end

end IntervalStack.Generator
