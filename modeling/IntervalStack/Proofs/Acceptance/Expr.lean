import IntervalStack.Proofs.Evaluation.Operators
import IntervalStack.Proofs.Linking.Names
import IntervalStack.Proofs.Totality.Steps

/-! Rules for expressions under which none is refused. They hold the types against each other, ask for
what is called to be there, and keep the record at work to the routines that have one. -/

namespace IntervalStack

/-- Where a piece of the tree stands, and what it may use there. -/
structure Surroundings where
  program : Program
  hasSelf : Bool
  returns : Option Ty
  inLoop : Bool
  voids : Bool

namespace Surroundings

def reaches (p : Surroundings) (b : Binding) : Bool := !b.storage.isMember || p.hasSelf

def defines (p : Surroundings) (id : StructId) : Bool := (p.program.struct? id).isSome

def isValue (p : Surroundings) (ty : Ty) : Bool := p.voids || ty ≠ .void

def method? (p : Surroundings) (receiver : Ty) (name : String) : Option Function :=
  match receiver with
  | .struct id => (p.program.struct? id).bind (·.method? name)
  | _ => none

mutual

/-- The expression is in order, and of the type that it says. -/
def exprFits (p : Surroundings) : Expr → Bool
  | ⟨kind, ty, _⟩ => p.kindFits ty kind

def kindFits (p : Surroundings) (ty : Ty) : ExprKind → Bool
  | .bool _ => ty = .bool
  | .char _ => ty = .char
  | .int _ => ty = .int
  | .float _ => ty = .float
  | .ident b => ty = b.ty && p.reaches b
  | .self => p.hasSelf
  | .binary op l r =>
    p.exprFits l && p.exprFits r && r.ty = l.ty && op.takes l.ty && ty = op.result l.ty
  | .unary op e => p.exprFits e && op.takes e.ty && ty = op.result e.ty
  | .interval low high =>
    p.exprFits low && p.exprFits high && high.ty = low.ty && low.ty ≠ .void && ty = .interval low.ty
  | .bound i _ => p.exprFits i && i.ty = .interval ty && p.isValue ty
  | .field object m =>
    p.exprFits object && object.ty.isHeap && m.storage.isMember && ty = m.ty && p.isValue ty
  | .methodCall object method args =>
    p.exprFits object && p.exprsFit args &&
      Typing.accepts (p.method? object.ty method) (args.map (·.ty)) ty
  | .call name args =>
    p.exprsFit args && Typing.accepts (p.program.function? name) (args.map (·.ty)) ty
  | .new id => ty = .struct id && p.defines id

def exprsFit (p : Surroundings) : List Expr → Bool
  | [] => true
  | e :: es => p.exprFits e && p.isValue e.ty && p.exprsFit es

end
end Surroundings

namespace Generator

/-- A step that succeeds from every state, with a result that has the property. -/
def Yields {α : Type} (P : α → Prop) (a : Gen α) : Prop := ∀ s, ∃ r s', a s = .ok (r, s') ∧ P r

abbrev Succeeds {α : Type} (a : Gen α) : Prop := Yields (fun _ => True) a

namespace Yields

variable {α β : Type} {P : α → Prop} {Q : β → Prop} {a : Gen α} {r : α}

theorem pure (h : P r) : Yields P (pure r : Gen α) := fun s => ⟨r, s, rfl, h⟩

theorem bind {f : α → Gen β} (ha : Yields P a) (hf : ∀ r, P r → Yields Q (f r)) :
    Yields Q (a >>= f) := by
  intro s
  obtain ⟨r, s₁, hr, hP⟩ := ha s
  obtain ⟨r', s', hr', hQ⟩ := hf r hP s₁
  exact ⟨r', s', bind_ok.2 ⟨r, s₁, hr, hr'⟩, hQ⟩

theorem map {g : α → β} (ha : Yields P a) (hg : ∀ r, P r → Q (g r)) :
    Yields Q (a >>= fun r => Pure.pure (g r)) := ha.bind fun r hr => .pure (hg r hr)

theorem get : Succeeds (get : Gen State) := fun s => ⟨s, s, rfl, trivial⟩

theorem modify (f : State → State) : Succeeds (modify f : Gen Unit) := fun s => ⟨(), f s, rfl, trivial⟩

theorem fresh (stem : String) : Succeeds (fresh stem) :=
  fun _ => ⟨_, _, fresh_ok.2 ⟨rfl, rfl⟩, trivial⟩

theorem require {c : Bool} {e : GenerationError} {span : Span} (h : c = true) :
    Succeeds (require c e span) := fun s => ⟨(), s, require_ok.2 ⟨h, rfl⟩, trivial⟩

theorem shaped {x : Except FragmentError α} {span : Span} (h : ∃ r, x = .ok r) :
    Succeeds (shaped x span) := by
  obtain ⟨r, rfl⟩ := h
  exact fun s => ⟨r, s, rfl, trivial⟩

end Yields

theorem notePush_succeeds : Succeeds notePush := .modify _

/-- A context that offers what expressions may use, where void is no type of values. -/
structure Hosts (ctx : Context) (p : Surroundings) : Prop where
  program : ctx.program = p.program
  layouts : ∀ d ∈ p.program.structs, ∃ l, ctx.structs.get? d.id = some l
  self : p.hasSelf = true → ∃ slot, ctx.selfSlot = some slot
  voids : p.voids = false

structure Suits (e : Expr) (f : Fragment) : Prop where
  address : f.isAddress = e.isPath
  shape : e.ty ≠ .void → f.shape ≠ .void

variable {ctx : Context} {p : Surroundings} {span : Span} {e : Expr} {f : Fragment} {b : Binding}
  {id : StructId} {ty : Ty}

theorem Hosts.ne_void (h : Hosts ctx p) (hty : p.isValue ty = true) : ty ≠ .void := by
  simpa [Surroundings.isValue, h.voids] using hty

theorem exists_loadOf (h : ty ≠ .void) : ∃ i, Fragment.loadOf ty = .ok i := by
  cases ty <;> first | exact ⟨_, rfl⟩ | exact absurd rfl h

theorem exists_storeOf (h : ty ≠ .void) : ∃ i, Fragment.storeOf ty = .ok i := by
  cases ty <;> first | exact ⟨_, rfl⟩ | exact absurd rfl h

theorem bindingAddress_succeeds (h : b.storage.isMember = true → ∃ slot, ctx.selfSlot = some slot) :
    Succeeds (bindingAddress ctx b span) := by
  have haddress : ∃ code, Frame.storageAddress? cells b.storage ctx.selfSlot = some code := by
    cases hs : b.storage with
    | member offset =>
      obtain ⟨slot, hslot⟩ := h (by rw [hs]; rfl)
      rw [hslot]
      exact ⟨_, rfl⟩
    | _ => exact ⟨_, rfl⟩
  obtain ⟨code, hcode⟩ := haddress
  rw [bindingAddress, hcode]
  exact .pure trivial

theorem Hosts.bindingAddress (h : Hosts ctx p) (hb : p.reaches b = true) :
    Succeeds (bindingAddress ctx b span) := by
  refine bindingAddress_succeeds fun hm => h.self ?_
  simpa [Surroundings.reaches, hm] using hb

theorem Hosts.structOf (h : Hosts ctx p) {d : StructDef} (hd : p.program.struct? id = some d) :
    Yields (· = d) (structOf ctx id span) := by
  rw [Generator.structOf, h.program, hd]
  exact .pure rfl

theorem Hosts.layoutOf (h : Hosts ctx p) (hid : p.defines id = true) :
    Succeeds (layoutOf ctx id span) := by
  obtain ⟨d, hd⟩ := Option.isSome_iff_exists.1 hid
  obtain ⟨l, hl⟩ := h.layouts d (List.mem_of_find?_eq_some hd)
  have hsame : d.id = id := by simpa using List.find?_some hd
  rw [Generator.layoutOf, ← hsame, hl]
  exact .pure trivial

theorem Hosts.functionOf (h : Hosts ctx p) {name : String} {callee : Function}
    (hf : p.program.function? name = some callee) :
    Yields (· = callee) (functionOf ctx name span) := by
  rw [Generator.functionOf, h.program, hf]
  exact .pure rfl

theorem Hosts.methodOf (h : Hosts ctx p) {receiver : Ty} {name : String} {callee : Function}
    (hf : p.method? receiver name = some callee) :
    Yields (·.1 = callee) (methodOf ctx receiver name span) := by
  cases receiver with
  | struct id =>
    obtain ⟨d, hd, hm⟩ := Option.bind_eq_some_iff.1 hf
    rw [Generator.methodOf]
    refine (h.structOf hd).bind fun d' hd' => ?_
    rw [hd', hm]
    have hid : p.defines id = true := by rw [Surroundings.defines, hd]; rfl
    exact (h.layoutOf hid).map fun _ _ => rfl
  | _ => cases hf

theorem accepts_iff {f : Option Function} {args : List Ty} :
    Typing.accepts f args ty = true ↔
      ∃ callee, f = some callee ∧ args = callee.params.map (·.ty) ∧ ty = callee.returnType := by
  cases f <;> simp [Typing.accepts]

theorem checkArity_succeeds {name : String} {params : List Binding} {args : List Expr}
    (h : args.map (·.ty) = params.map (·.ty)) : Succeeds (checkArity name params args span) := by
  refine .require ?_
  simpa using congrArg List.length h

/-! The values of expressions. -/

theorem Suits.valueOf (h : Suits e f) (hty : e.ty ≠ .void) : Succeeds (valueOf e f) := by
  refine .shaped ?_
  obtain ⟨i, hi⟩ := exists_loadOf hty
  have hshape := h.shape hty
  rcases f with ⟨_ | _ | _, code⟩
  · exact ⟨_, by rw [Fragment.toValue, hi]; rfl⟩
  · exact ⟨_, rfl⟩
  · exact absurd rfl hshape

theorem Suits.ownedValueOf (h : Suits e f) (hty : e.ty ≠ .void) : Succeeds (ownedValueOf e f) :=
  (h.valueOf hty).map fun _ _ => trivial

theorem suits_value {kind : ExprKind} (hpath : kind.isPath = false) (code : Code) :
    Suits ⟨kind, ty, span⟩ (value code) :=
  ⟨hpath.symm, fun _ => nofun⟩

theorem suits_resultFragment {kind : ExprKind} (hpath : kind.isPath = false) (code : Code) :
    Suits ⟨kind, ty, span⟩ (resultFragment ty code) := by
  rw [resultFragment]
  split
  · next h => exact ⟨hpath.symm, fun hne => absurd h hne⟩
  · exact suits_value hpath code

theorem memberOf_suits {kind : ExprKind} (offset : Int32) (h : Suits e f) (hheap : e.ty.isHeap = true)
    (hpath : kind.isPath = e.isPath) (hty : ty ≠ .void) :
    Yields (Suits ⟨kind, ty, span⟩) (memberOf e f offset ty span) := by
  have hne : e.ty ≠ .void := by rintro hv; rw [hv] at hheap; cases hheap
  refine (h.valueOf hne).bind fun code _ => ?_
  have hfresh : isFresh f e.ty = !kind.isPath := by
    rw [isFresh, hheap, h.address, hpath]
    rfl
  cases hk : kind.isPath with
  | true =>
    rw [hfresh, hk]
    exact .pure ⟨hk.symm, fun _ h => by cases h⟩
  | false =>
    rw [hfresh, hk]
    refine (Yields.shaped (exists_loadOf hty)).bind fun load _ => ?_
    exact notePush_succeeds.map fun _ _ => suits_value hk _

theorem methodCode_suits {kind : ExprKind} (receiver : Code) (fresh : Bool) (label : String)
    (args : Code) (hpath : kind.isPath = false) :
    Yields (Suits ⟨kind, ty, span⟩) (methodCode receiver fresh label ty args) :=
  notePush_succeeds.map fun _ _ => suits_resultFragment hpath _

/-! Operators. -/

theorem ne_void_of_isScalar (h : ty.isScalar = true) : ty ≠ .void := by
  rintro rfl
  cases h

theorem isScalar_of_takes {op : BinOp} (h : op.takes ty = true) : ty.isScalar = true := by
  rw [BinOp.takes] at h
  split at h
  · rw [of_decide_eq_true h]
    rfl
  · exact (Bool.and_eq_true_iff.1 h).1

theorem unaryCode_succeeds {op : UnaryOp} (h : op.takes ty = true) :
    Succeeds (unaryCode op ty span) := by
  obtain ⟨k, rfl⟩ := Ty.eq_of_isScalar (UnaryOp.isScalar_of_takes h)
  cases k <;> cases op <;>
    first | exact .pure trivial | exact (Yields.fresh _).map fun _ _ => trivial | cases h

theorem exists_arithmetic {op : BinOp} (float : Bool) (hl : op.isLogical = false)
    (hc : op.isComparison = false) : ∃ code, arithmetic? op float = some code := by
  cases op <;> first | (cases hl; done) | (cases hc; done) | (cases float <;> exact ⟨_, rfl⟩)

theorem binary_suits {op : BinOp} {l r : Expr} (hl : Yields (Suits l) (expr ctx l))
    (hr : Yields (Suits r) (expr ctx r)) (hsame : r.ty = l.ty) (htakes : op.takes l.ty = true) :
    Yields (Suits ⟨.binary op l r, ty, span⟩) (exprKind ctx ty span (.binary op l r)) := by
  have hscalar := isScalar_of_takes htakes
  have hvoid := ne_void_of_isScalar hscalar
  rw [exprKind]
  refine (Yields.require (Ty.plain_of_isScalar hscalar)).bind fun _ _ => ?_
  refine hl.bind fun f hf => (hf.valueOf hvoid).bind fun left _ => ?_
  rw [BinOp.takes] at htakes
  split
  · next hlogical =>
    rw [if_pos hlogical] at htakes
    refine (Yields.require htakes).bind fun _ _ => (Yields.fresh _).bind fun _ _ => ?_
    refine hr.bind fun f hf => ?_
    exact (hf.valueOf (hsame ▸ hvoid)).map fun _ _ => suits_value rfl _
  · next hlogical =>
    rw [if_neg hlogical, Bool.and_eq_true] at htakes
    refine hr.bind fun f hf => (hf.valueOf (hsame ▸ hvoid)).bind fun _ _ => ?_
    split
    · exact (Yields.fresh _).map fun _ _ => suits_value rfl _
    · next hcomparison =>
      have hnumber : decide (l.ty ≠ .bool) = true := by simpa [hcomparison] using htakes.2
      refine (Yields.require hnumber).bind fun _ _ => ?_
      obtain ⟨code, hcode⟩ := exists_arithmetic l.ty.isFloat (by simpa using hlogical)
        (by simpa using hcomparison)
      rw [hcode]
      exact .pure (suits_value rfl _)

mutual

theorem expr_suits (h : Hosts ctx p) :
    (e : Expr) → p.exprFits e = true → Yields (Suits e) (expr ctx e)
  | ⟨kind, ty, span⟩ => by
    rw [expr, Surroundings.exprFits]
    exact exprKind_suits h ty span kind

theorem exprKind_suits (h : Hosts ctx p) (ty : Ty) (span : Span) : (kind : ExprKind) →
    p.kindFits ty kind = true → Yields (Suits ⟨kind, ty, span⟩) (exprKind ctx ty span kind)
  | .bool _ | .char _ | .int _ | .float _ => fun _ => by
    rw [exprKind]
    exact .pure (suits_value rfl _)
  | .ident b => fun hk => by
    simp only [Surroundings.kindFits, Bool.and_eq_true] at hk
    rw [exprKind]
    exact (h.bindingAddress hk.2).map fun _ _ => ⟨rfl, fun _ => nofun⟩
  | .self => fun hk => by
    obtain ⟨slot, hslot⟩ := h.self hk
    rw [exprKind, hslot]
    exact .pure ⟨rfl, fun _ => nofun⟩
  | .binary op l r => fun hk => by
    simp only [Surroundings.kindFits, Bool.and_eq_true, decide_eq_true_eq] at hk
    obtain ⟨⟨⟨⟨hl, hr⟩, hsame⟩, htakes⟩, -⟩ := hk
    exact binary_suits (expr_suits h l hl) (expr_suits h r hr) hsame htakes
  | .unary op e => fun hk => by
    simp only [Surroundings.kindFits, Bool.and_eq_true, decide_eq_true_eq] at hk
    obtain ⟨⟨he, htakes⟩, -⟩ := hk
    have hscalar := UnaryOp.isScalar_of_takes htakes
    rw [exprKind]
    refine (Yields.require (Ty.plain_of_isScalar hscalar)).bind fun _ _ => ?_
    refine (expr_suits h e he).bind fun f hf => ?_
    refine (hf.valueOf (ne_void_of_isScalar hscalar)).bind fun _ _ => ?_
    exact (unaryCode_succeeds htakes).map fun _ _ => suits_value rfl _
  | .interval low high => fun hk => by
    simp only [Surroundings.kindFits, Bool.and_eq_true, decide_eq_true_eq] at hk
    obtain ⟨⟨⟨⟨hl, hh⟩, hsame⟩, hvoid⟩, rfl⟩ := hk
    rw [exprKind]
    refine (Yields.shaped (exists_storeOf hvoid)).bind fun store _ => ?_
    refine (expr_suits h low hl).bind fun f hf => (hf.ownedValueOf hvoid).bind fun _ _ => ?_
    refine (expr_suits h high hh).bind fun f hf => ?_
    exact (hf.ownedValueOf (hsame ▸ hvoid)).map fun _ _ => suits_value rfl _
  | .bound i b => fun hk => by
    simp only [Surroundings.kindFits, Bool.and_eq_true, decide_eq_true_eq] at hk
    obtain ⟨⟨hi, hty⟩, hvalue⟩ := hk
    rw [exprKind, hty]
    refine (expr_suits h i hi).bind fun f hf => ?_
    exact memberOf_suits _ hf (by rw [hty]; rfl) rfl (h.ne_void hvalue)
  | .field object m => fun hk => by
    simp only [Surroundings.kindFits, Bool.and_eq_true, decide_eq_true_eq] at hk
    obtain ⟨⟨⟨⟨ho, hheap⟩, hm⟩, rfl⟩, hvalue⟩ := hk
    have hpath : (ExprKind.field object m).isPath = object.isPath := by
      rw [ExprKind.isPath, hm, Bool.and_true]
    rw [exprKind]
    split
    · refine (expr_suits h object ho).bind fun f hf => ?_
      exact memberOf_suits _ hf hheap hpath (h.ne_void hvalue)
    · next hother =>
      cases hs : m.storage with
      | member offset => exact absurd hs (hother offset)
      | _ =>
        rw [hs] at hm
        cases hm
  | .methodCall object method args => fun hk => by
    simp only [Surroundings.kindFits, Bool.and_eq_true] at hk
    obtain ⟨⟨ho, hargs⟩, haccepts⟩ := hk
    obtain ⟨callee, hcallee, htypes, rfl⟩ := accepts_iff.1 haccepts
    have hvoid : object.ty ≠ .void := by
      rintro hv
      rw [hv] at hcallee
      cases hcallee
    rw [exprKind]
    refine (expr_suits h object ho).bind fun f hf => (hf.valueOf hvoid).bind fun _ _ => ?_
    refine (h.methodOf hcallee).bind ?_
    rintro ⟨_, typeCode⟩ rfl
    refine (checkArity_succeeds htypes).bind fun _ _ => ?_
    refine (arguments_succeed h _ args hargs).bind fun _ _ => ?_
    exact methodCode_suits _ _ _ _ rfl
  | .call function args => fun hk => by
    simp only [Surroundings.kindFits, Bool.and_eq_true] at hk
    obtain ⟨hargs, haccepts⟩ := hk
    obtain ⟨callee, hcallee, htypes, rfl⟩ := accepts_iff.1 haccepts
    rw [exprKind]
    refine (h.functionOf hcallee).bind fun r hr => ?_
    rw [hr]
    refine (checkArity_succeeds htypes).bind fun _ _ => ?_
    exact (arguments_succeed h _ args hargs).map fun _ _ => suits_resultFragment rfl _
  | .new id => fun hk => by
    simp only [Surroundings.kindFits, Bool.and_eq_true] at hk
    rw [exprKind]
    exact (h.layoutOf hk.2).map fun _ _ => suits_value rfl _

theorem arguments_succeed (h : Hosts ctx p) : (params : List Ty) → (es : List Expr) →
    p.exprsFit es = true → Succeeds (arguments ctx params es)
  | _, [] => fun _ => by
    rw [arguments]
    exact .pure trivial
  | [], _ :: _ => fun _ => by
    rw [arguments]
    exact .pure trivial
  | _ :: tys, e :: es => fun hes => by
    simp only [Surroundings.exprsFit, Bool.and_eq_true] at hes
    obtain ⟨⟨he, hvalue⟩, hes⟩ := hes
    rw [arguments]
    refine (expr_suits h e he).bind fun f hf => ?_
    refine (hf.ownedValueOf (h.ne_void hvalue)).bind fun _ _ => ?_
    exact (arguments_succeed h tys es hes).map fun _ _ => trivial

end

end Generator
end IntervalStack
