import IntervalStack.Proofs.HandOver.Fields

/-! A program that is written and read again is the same program, if its doubles are read as they
were and its text nests no deeper than a reader allows. -/

namespace IntervalStack

open Json (record ofString ofInt Written)

/-! The doubles of a tree. -/

mutual

def Expr.doubles : Expr → List Double
  | ⟨kind, _, _⟩ => kind.doubles

def ExprKind.doubles : ExprKind → List Double
  | .float x => [x]
  | .binary _ l r | .interval l r => l.doubles ++ r.doubles
  | .unary _ e | .bound e _ | .field e _ => e.doubles
  | .methodCall e _ args => e.doubles ++ Expr.doublesOf args
  | .call _ args => Expr.doublesOf args
  | .bool _ | .char _ | .int _ | .ident _ | .self | .new _ => []

def Expr.doublesOf : List Expr → List Double
  | [] => []
  | e :: es => e.doubles ++ Expr.doublesOf es

end

mutual

def Block.doubles : Block → List Double
  | ⟨_, body⟩ => LocatedStmt.doublesOf body

def LocatedStmt.doublesOf : List LocatedStmt → List Double
  | [] => []
  | s :: ss => s.doubles ++ LocatedStmt.doublesOf ss

def LocatedStmt.doubles : LocatedStmt → List Double
  | ⟨node, _⟩ => node.doubles

def Stmt.doubles : Stmt → List Double
  | .declaration _ e | .ret (some e) | .call e => e.doubles
  | .update target e => target.doubles ++ e.doubles
  | .print items _ _ => Expr.doublesOf items
  | .ifElse cond yes none => cond.doubles ++ yes.doubles
  | .ifElse cond yes (some no) => cond.doubles ++ (yes.doubles ++ no.doubles)
  | .loop cond body => cond.doubles ++ body.doubles
  | .leave | .ret none => []
  | .block b => b.doubles

end

def Function.doubles (f : Function) : List Double := f.body.doubles

def StructDef.doubles (d : StructDef) : List Double :=
  d.initializer.doubles ++ d.methods.flatMap Function.doubles

def Program.doubles (p : Program) : List Double :=
  p.structs.flatMap StructDef.doubles ++ (p.functions.flatMap Function.doubles ++ p.main.doubles)

/-- What is read for the text of a double is a number equal to it. -/
def Double.Survives (x : Double) : Prop :=
  x.isFinite ∧ ∃ y, (Numeral.ofDouble x).toDouble? = some y ∧ x.equals y

namespace Double

variable {x : Double}

instance : Decidable x.Survives :=
  decidable_of_iff (x.isFinite ∧ (Numeral.ofDouble x).toDouble?.any x.equals) <| by
    rw [Survives, Option.any_eq_true]

theorem eq_of_isZero (hx : x.isZero) : x = ⟨0⟩ ∨ x = ⟨0x8000000000000000⟩ := by
  rw [isZero, Bool.and_eq_true] at hx
  have hexponent : x.bits.toNat / 0x10000000000000 % 0x800 = 0 := of_decide_eq_true hx.1
  have hfraction : x.bits.toNat % 0x10000000000000 = 0 := of_decide_eq_true hx.2
  have hlt := x.bits.toNat_lt
  have hbits : x.bits.toNat = 0 ∨ x.bits.toNat = 0x8000000000000000 := by omega
  obtain ⟨bits⟩ := x
  exact hbits.imp (fun h => congrArg mk (UInt64.toNat_inj.1 h))
    fun h => congrArg mk (UInt64.toNat_inj.1 h)

theorem Survives.toDouble?_ofDouble (hx : x.Survives) :
    (Numeral.ofDouble x).toDouble? = some x := by
  obtain ⟨-, y, hy, heq⟩ := hx
  by_cases hzero : x.isZero
  · rcases eq_of_isZero hzero with rfl | rfl <;> decide +kernel
  · have hbits : x.bits = y.bits := by
      rw [equals, Bool.eq_false_iff.2 hzero, Bool.false_and, Bool.or_false, Bool.and_eq_true] at heq
      exact eq_of_beq heq.2
    rw [hy, show x = y from congrArg mk hbits]

end Double

/-! Expressions. -/

theorem exprsToJson_eq_map (float : Double → Json) (es : List Expr) :
    exprsToJson float es = es.map (Expr.toJson float) := by
  induction es with
  | nil => rfl
  | cons e es ih => rw [exprsToJson, ih, List.map_cons]

theorem carries_exprs {float : Double → Json} {es : List Expr}
    (h : ∀ e ∈ es, Carries Decode.expr? (e.toJson float) e) :
    Carries Decode.exprs? (.arr (exprsToJson float es)) es := by
  rw [exprsToJson_eq_map]
  refine (Carries.list h).map fun depth hlist => ?_
  cases depth with
  | zero => cases hlist
  | succ depth => exact hlist

theorem carries_compound {name : String} {body : Json} {kind : ExprKind}
    (h : Carries (Decode.compound? · name) body kind)
    (hname : name ∉ ["This", "Bool", "Char", "Int", "Float", "Identifier", "New"]) :
    Carries Decode.exprKind? (.tagged name body) kind := by
  refine .tagged h fun depth hbody => ?_
  simp only [List.mem_cons, not_or, List.not_mem_nil, not_false_eq_true, and_true] at hname
  simp [Decode.exprKind?, Json.tagged, record, hname, hbody]

mutual

theorem Expr.carries : (e : Expr) → (∀ x ∈ e.doubles, x.Survives) →
    Carries Decode.expr? (e.toJson Double.toJson) e
  | ⟨kind, ty, span⟩, hx => by
    have hkind := kind.carries hx
    rw [Expr.toJson]
    refine .record ?_ fun depth hdepth => ?_
    · simp [hkind.written, ty.carries.written, span.carries.written]
    · simp only [List.forall_mem_cons] at hdepth
      rw [Decode.expr?, Decode.fields?_record rfl (by decide)]
      simp [Decode.defaulted?, hkind.decodes hdepth.1, ty.carries.decodes hdepth.2.1,
        span.carries.decodes hdepth.2.2.1]

theorem ExprKind.carries : (kind : ExprKind) → (∀ x ∈ kind.doubles, x.Survives) →
    Carries Decode.exprKind? (kind.toJson Double.toJson) kind
  | .bool b, _ => by
    rw [ExprKind.toJson]
    refine .record (by simp [Written.bool]) fun depth _ => ?_
    simp [Decode.exprKind?, record, Decode.bool?]
  | .char c, _ => by
    rw [ExprKind.toJson]
    refine .record (by simp [Written.str]) fun depth _ => ?_
    simp [Decode.exprKind?, record, Decode.char?_singleton]
  | .int n, _ => by
    rw [ExprKind.toJson]
    refine .record (by simp [Json.written_ofInt]) fun depth _ => ?_
    simp [Decode.exprKind?, record, Decode.int32?_ofInt]
  | .float x, hx => by
    have hsurvives := hx x (by simp [ExprKind.doubles])
    have hjson : x.toJson = .num (.ofDouble x) := if_pos hsurvives.1
    rw [ExprKind.toJson, hjson]
    refine .record (by simp [Written.num (Numeral.proper_ofDouble x)]) fun depth _ => ?_
    simp [Decode.exprKind?, record, Decode.double?, hsurvives.toDouble?_ofDouble]
  | .ident b, _ => by
    rw [ExprKind.toJson]
    refine .tagged b.carries fun depth h => ?_
    simp [Decode.exprKind?, Json.tagged, record, h]
  | .self, _ => by
    rw [ExprKind.toJson]
    refine ⟨.str _, fun {depth} _ => ?_⟩
    simp [Decode.exprKind?, ofString]
  | .new id, _ => by
    rw [ExprKind.toJson]
    refine .record (by simp [Json.written_ofUInt32]) fun depth _ => ?_
    simp [Decode.exprKind?, record, Decode.uint32?_ofUInt32]
  | .binary op l r, hx => by
    rw [ExprKind.doubles, List.forall_mem_append] at hx
    have hl := l.carries hx.1
    have hr := r.carries hx.2
    rw [ExprKind.toJson]
    refine carries_compound (.record ?_ fun depth hdepth => ?_) (by decide)
    · simp [Written.str, hl.written, hr.written]
    · simp only [List.forall_mem_cons] at hdepth
      rw [Decode.compound?, Decode.fields?_record rfl (by decide)]
      simp [Decode.binOp?, Decode.name?, ofString, op.ofName?_name, hl.decodes hdepth.2.1,
        hr.decodes hdepth.2.2.1]
  | .unary op e, hx => by
    have he := e.carries hx
    rw [ExprKind.toJson]
    refine carries_compound (.record ?_ fun depth hdepth => ?_) (by decide)
    · simp [Written.str, he.written]
    · simp only [List.forall_mem_cons] at hdepth
      rw [Decode.compound?, Decode.fields?_record rfl (by decide)]
      simp [Decode.unaryOp?, Decode.name?, ofString, op.ofName?_name, he.decodes hdepth.2.1]
  | .interval low high, hx => by
    rw [ExprKind.doubles, List.forall_mem_append] at hx
    have hlow := low.carries hx.1
    have hhigh := high.carries hx.2
    rw [ExprKind.toJson]
    refine carries_compound (.record ?_ fun depth hdepth => ?_) (by decide)
    · simp [hlow.written, hhigh.written]
    · simp only [List.forall_mem_cons] at hdepth
      rw [Decode.compound?, Decode.fields?_record rfl (by decide)]
      simp [hlow.decodes hdepth.1, hhigh.decodes hdepth.2.1]
  | .bound interval b, hx => by
    have hinterval := interval.carries hx
    rw [ExprKind.toJson]
    refine carries_compound (.record ?_ fun depth hdepth => ?_) (by decide)
    · simp [Written.str, hinterval.written]
    · simp only [List.forall_mem_cons] at hdepth
      rw [Decode.compound?, Decode.fields?_record rfl (by decide)]
      simp [Decode.bound?, Decode.name?, ofString, b.ofName?_name, hinterval.decodes hdepth.1]
  | .field object member, hx => by
    have hobject := object.carries hx
    rw [ExprKind.toJson]
    refine carries_compound (.record ?_ fun depth hdepth => ?_) (by decide)
    · simp [hobject.written, member.carries.written]
    · simp only [List.forall_mem_cons] at hdepth
      rw [Decode.compound?, Decode.fields?_record rfl (by decide)]
      simp [hobject.decodes hdepth.1, member.carries.decodes hdepth.2.1]
  | .methodCall object method args, hx => by
    rw [ExprKind.doubles, List.forall_mem_append] at hx
    have hobject := object.carries hx.1
    have hargs := carries_exprs (Expr.carriesAll args hx.2)
    rw [ExprKind.toJson]
    refine carries_compound (.record ?_ fun depth hdepth => ?_) (by decide)
    · simp [Written.str, hobject.written, hargs.written]
    · simp only [List.forall_mem_cons] at hdepth
      rw [Decode.compound?, Decode.fields?_record rfl (by decide)]
      simp [Decode.text?, ofString, hobject.decodes hdepth.1, hargs.decodes hdepth.2.2.1]
  | .call function args, hx => by
    have hargs := carries_exprs (Expr.carriesAll args hx)
    rw [ExprKind.toJson]
    refine carries_compound (.record ?_ fun depth hdepth => ?_) (by decide)
    · simp [Written.str, hargs.written]
    · simp only [List.forall_mem_cons] at hdepth
      rw [Decode.compound?, Decode.fields?_record rfl (by decide)]
      simp [Decode.text?, ofString, hargs.decodes hdepth.2.1]

theorem Expr.carriesAll : (es : List Expr) → (∀ x ∈ Expr.doublesOf es, x.Survives) →
    ∀ e ∈ es, Carries Decode.expr? (e.toJson Double.toJson) e
  | [], _ => nofun
  | e :: es, hx => by
    rw [Expr.doublesOf, List.forall_mem_append] at hx
    exact List.forall_mem_cons.2 ⟨e.carries hx.1, Expr.carriesAll es hx.2⟩

end

/-! Statements. -/

theorem stmtsToJson_eq_map (float : Double → Json) (ss : List LocatedStmt) :
    stmtsToJson float ss = ss.map (LocatedStmt.toJson float) := by
  induction ss with
  | nil => rfl
  | cons s ss ih => rw [stmtsToJson, ih, List.map_cons]

theorem carries_stmts {float : Double → Json} {ss : List LocatedStmt}
    (h : ∀ s ∈ ss, Carries Decode.locatedStmt? (s.toJson float) s) :
    Carries Decode.stmts? (.arr (stmtsToJson float ss)) ss := by
  rw [stmtsToJson_eq_map]
  refine (Carries.list h).map fun depth hlist => ?_
  cases depth with
  | zero => cases hlist
  | succ depth => exact hlist

theorem carries_compoundStmt {name : String} {body : Json} {s : Stmt}
    (h : Carries (Decode.compoundStmt? · name) body s)
    (hname : name ∉ ["Break", "Return", "Call", "Block"]) :
    Carries Decode.stmt? (.tagged name body) s := by
  refine .tagged h fun depth hbody => ?_
  simp only [List.mem_cons, not_or, List.not_mem_nil, not_false_eq_true, and_true] at hname
  simp [Decode.stmt?, Json.tagged, record, hname, hbody]

theorem Expr.carries_optional {e : Expr} {float : Double → Json}
    (he : Carries Decode.expr? (e.toJson float) e) :
    Carries (fun depth => Decode.optional? (Decode.expr? depth)) (e.toJson float) (some e) := by
  refine he.map fun depth h => ?_
  obtain ⟨kind, ty, span⟩ := e
  rw [Expr.toJson] at h ⊢
  exact congrArg (Option.map some) h

theorem Block.carries_optional {b : Block} {float : Double → Json}
    (hb : Carries Decode.block? (b.toJson float) b) :
    Carries (fun depth => Decode.optional? (Decode.block? depth)) (b.toJson float) (some b) := by
  refine hb.map fun depth h => ?_
  obtain ⟨scope, stmts⟩ := b
  rw [Block.toJson] at h ⊢
  exact congrArg (Option.map some) h

mutual

theorem Block.carries : (b : Block) → (∀ x ∈ b.doubles, x.Survives) →
    Carries Decode.block? (b.toJson Double.toJson) b
  | ⟨scope, body⟩, hx => by
    have hbody := carries_stmts (LocatedStmt.carriesAll body hx)
    rw [Block.toJson]
    refine .record ?_ fun depth hdepth => ?_
    · simp [scope.carries.written, hbody.written]
    · simp only [List.forall_mem_cons] at hdepth
      rw [Decode.block?, Decode.fields?_record rfl (by decide)]
      simp [scope.carries.decodes hdepth.1, hbody.decodes hdepth.2.1]

theorem LocatedStmt.carriesAll : (ss : List LocatedStmt) →
    (∀ x ∈ LocatedStmt.doublesOf ss, x.Survives) →
    ∀ s ∈ ss, Carries Decode.locatedStmt? (s.toJson Double.toJson) s
  | [], _ => nofun
  | s :: ss, hx => by
    rw [LocatedStmt.doublesOf, List.forall_mem_append] at hx
    exact List.forall_mem_cons.2 ⟨s.carries hx.1, LocatedStmt.carriesAll ss hx.2⟩

theorem LocatedStmt.carries : (s : LocatedStmt) → (∀ x ∈ s.doubles, x.Survives) →
    Carries Decode.locatedStmt? (s.toJson Double.toJson) s
  | ⟨node, span⟩, hx => by
    have hnode := node.carries hx
    rw [LocatedStmt.toJson]
    refine .record ?_ fun depth hdepth => ?_
    · simp [hnode.written, span.carries.written]
    · simp only [List.forall_mem_cons] at hdepth
      rw [Decode.locatedStmt?, Decode.fields?_record rfl (by decide)]
      simp [Decode.defaulted?, hnode.decodes hdepth.1, span.carries.decodes hdepth.2.1]

theorem Stmt.carries : (s : Stmt) → (∀ x ∈ s.doubles, x.Survives) →
    Carries Decode.stmt? (s.toJson Double.toJson) s
  | .declaration target value, hx => by
    have hvalue := value.carries hx
    rw [Stmt.toJson]
    refine carries_compoundStmt (.record ?_ fun depth hdepth => ?_) (by decide)
    · simp [target.carries.written, hvalue.written]
    · simp only [List.forall_mem_cons] at hdepth
      rw [Decode.compoundStmt?, Decode.fields?_record rfl (by decide)]
      simp [target.carries.decodes hdepth.1, hvalue.decodes hdepth.2.1]
  | .update target value, hx => by
    rw [Stmt.doubles, List.forall_mem_append] at hx
    have htarget := target.carries hx.1
    have hvalue := value.carries hx.2
    rw [Stmt.toJson]
    refine carries_compoundStmt (.record ?_ fun depth hdepth => ?_) (by decide)
    · simp [htarget.written, hvalue.written]
    · simp only [List.forall_mem_cons] at hdepth
      rw [Decode.compoundStmt?, Decode.fields?_record rfl (by decide)]
      simp [htarget.decodes hdepth.1, hvalue.decodes hdepth.2.1]
  | .print items spaces newline, hx => by
    have hitems := carries_exprs (Expr.carriesAll items hx)
    rw [Stmt.toJson]
    refine carries_compoundStmt (.record ?_ fun depth hdepth => ?_) (by decide)
    · simp [Written.bool, hitems.written]
    · simp only [List.forall_mem_cons] at hdepth
      rw [Decode.compoundStmt?, Decode.fields?_record rfl (by decide)]
      simp [Decode.bool?, hitems.decodes hdepth.1]
  | .ifElse cond yes none, hx => by
    rw [Stmt.doubles, List.forall_mem_append] at hx
    have hcond := cond.carries hx.1
    have hyes := yes.carries hx.2
    rw [Stmt.toJson]
    refine carries_compoundStmt (.record ?_ fun depth hdepth => ?_) (by decide)
    · simp [Written.null, hcond.written, hyes.written]
    · simp only [List.forall_mem_cons] at hdepth
      rw [Decode.compoundStmt?, Decode.fields?_record rfl (by decide)]
      simp [Decode.optional?, hcond.decodes hdepth.1, hyes.decodes hdepth.2.1]
  | .ifElse cond yes (some no), hx => by
    rw [Stmt.doubles, List.forall_mem_append, List.forall_mem_append] at hx
    have hcond := cond.carries hx.1
    have hyes := yes.carries hx.2.1
    have hno := Block.carries_optional (no.carries hx.2.2)
    rw [Stmt.toJson]
    refine carries_compoundStmt (.record ?_ fun depth hdepth => ?_) (by decide)
    · simp [hcond.written, hyes.written, hno.written]
    · simp only [List.forall_mem_cons] at hdepth
      rw [Decode.compoundStmt?, Decode.fields?_record rfl (by decide)]
      simp [hcond.decodes hdepth.1, hyes.decodes hdepth.2.1, hno.decodes hdepth.2.2.1]
  | .loop cond body, hx => by
    rw [Stmt.doubles, List.forall_mem_append] at hx
    have hcond := cond.carries hx.1
    have hbody := body.carries hx.2
    rw [Stmt.toJson]
    refine carries_compoundStmt (.record ?_ fun depth hdepth => ?_) (by decide)
    · simp [hcond.written, hbody.written]
    · simp only [List.forall_mem_cons] at hdepth
      rw [Decode.compoundStmt?, Decode.fields?_record rfl (by decide)]
      simp [hcond.decodes hdepth.1, hbody.decodes hdepth.2.1]
  | .leave, _ => by
    rw [Stmt.toJson]
    refine ⟨.str _, fun {depth} _ => ?_⟩
    simp [Decode.stmt?, ofString]
  | .ret none, _ => by
    rw [Stmt.toJson]
    refine .record (by simp [Written.null]) fun depth _ => ?_
    simp [Decode.stmt?, record, Decode.optional?]
  | .ret (some value), hx => by
    rw [Stmt.toJson]
    refine .tagged (Expr.carries_optional (value.carries hx)) fun depth h => ?_
    simp [Decode.stmt?, Json.tagged, record, h]
  | .call e, hx => by
    rw [Stmt.toJson]
    refine .tagged (e.carries hx) fun depth h => ?_
    simp [Decode.stmt?, Json.tagged, record, h]
  | .block b, hx => by
    rw [Stmt.toJson]
    refine .tagged (b.carries hx) fun depth h => ?_
    simp [Decode.stmt?, Json.tagged, record, h]

end

/-! Programs. -/

theorem Function.carries (f : Function) (hx : ∀ x ∈ f.doubles, x.Survives) :
    Carries Decode.function? (f.toJson Double.toJson) f := by
  have hparams := Carries.list fun b (_ : b ∈ f.params) => b.carries
  have hbody := f.body.carries hx
  refine .record ?_ fun depth hdepth => ?_
  · simp [Written.str, Json.written_ofUInt32, hparams.written, f.returnType.carries.written,
      hbody.written, f.span.carries.written]
  · simp only [List.forall_mem_cons] at hdepth
    obtain ⟨-, hdparams, hdresult, -, hdbody, hdspan, -⟩ := hdepth
    rw [Decode.function?, Decode.fields?_record rfl (by decide)]
    simp [Decode.text?, ofString, Decode.defaulted?, Decode.uint32?_ofUInt32,
      hparams.decodes hdparams, f.returnType.carries.decodes hdresult, hbody.decodes hdbody,
      f.span.carries.decodes hdspan]

theorem StructDef.carries (d : StructDef) (hx : ∀ x ∈ d.doubles, x.Survives) :
    Carries Decode.structDef? (d.toJson Double.toJson) d := by
  rw [StructDef.doubles, List.forall_mem_append] at hx
  have hmembers := Carries.list fun b (_ : b ∈ d.members) => b.carries
  have hinitializer := d.initializer.carries hx.1
  have hmethods := Carries.list fun f (hf : f ∈ d.methods) =>
    f.carries fun x hmem => hx.2 x (List.mem_flatMap.2 ⟨f, hf, hmem⟩)
  refine .record ?_ fun depth hdepth => ?_
  · cases d.printer <;>
      simp [Written.str, Written.null, Json.written_ofUInt32, hmembers.written,
        hinitializer.written, hmethods.written, d.span.carries.written]
  · simp only [List.forall_mem_cons] at hdepth
    obtain ⟨-, -, hdmembers, -, -, hdinitializer, hdmethods, -, hdspan, -⟩ := hdepth
    rw [Decode.structDef?, Decode.fields?_record rfl (by decide)]
    obtain ⟨id, name, members, area, locals, initializer, methods, printer, span⟩ := d
    -- with this many fields, each is put in before what depends on it is looked at
    simp only [↓Option.bind_eq_bind, ↓Option.bind_some, List.map_cons, List.map_nil]
    dsimp only [↓Option.bind_some, Decode.defaulted?]
    rw [Decode.uint32?_ofUInt32, Decode.uint32?_ofUInt32, Decode.uint32?_ofUInt32,
      hmembers.decodes hdmembers, hinitializer.decodes hdinitializer, hmethods.decodes hdmethods,
      span.carries.decodes hdspan]
    cases printer <;> rfl

theorem Program.carries (p : Program) (hx : ∀ x ∈ p.doubles, x.Survives) :
    Carries Decode.program? (p.toJson Double.toJson) p := by
  rw [Program.doubles, List.forall_mem_append, List.forall_mem_append] at hx
  have hstructs := Carries.list fun d (hd : d ∈ p.structs) =>
    d.carries fun x hmem => hx.1 x (List.mem_flatMap.2 ⟨d, hd, hmem⟩)
  have hfunctions := Carries.list fun f (hf : f ∈ p.functions) =>
    f.carries fun x hmem => hx.2.1 x (List.mem_flatMap.2 ⟨f, hf, hmem⟩)
  have hmain := p.main.carries hx.2.2
  refine .record ?_ fun depth hdepth => ?_
  · simp [Json.written_ofUInt32, hstructs.written, hfunctions.written, hmain.written]
  · simp only [List.forall_mem_cons] at hdepth
    obtain ⟨-, hdstructs, hdfunctions, hdmain, -⟩ := hdepth
    rw [Decode.program?, Decode.fields?_record rfl (by decide)]
    simp [Decode.uint32?_ofUInt32, hstructs.decodes hdstructs, hfunctions.decodes hdfunctions,
      hmain.decodes hdmain]

namespace Program

/-- A program handed over as a text is read as it was, bit by bit, if its doubles survive and its
text does not nest too deeply. -/
theorem ofText?_toText (p : Program) (hdoubles : ∀ x ∈ p.doubles, x.Survives)
    (hdepth : (p.toJson Double.toJson).depth ≤ Decode.maxDepth) : ofText? p.toText = some p := by
  have hp := p.carries hdoubles
  rw [ofText?, toText, hp.written.read_pretty]
  exact hp.decodes hdepth

/-- A struct that prints itself, a function and a main block, with names that have to be escaped,
both zeros and a double that is no binary fraction. -/
def handedOver : Program :=
  let x : Binding := ⟨"\"\\ñ\n\x01", .interval .float, .belowFrame (-16)⟩
  let float (bits : UInt64) : Expr := ⟨.float ⟨bits⟩, .float, ⟨1, 2, 3⟩⟩
  let method : Function := ⟨"print", [], .void, 8, ⟨⟨8, [x]⟩,
    [⟨.declaration x ⟨.interval (float 0) (float 0x8000000000000000), x.ty, .none⟩, .none⟩]⟩, .none⟩
  { globalSize := 4294967295
    structs := [⟨0, "point", [⟨"n", .int, .member 16⟩], 4, 0,
      ⟨.empty, [⟨.ret none, ⟨65535, 0, 4294967295⟩⟩]⟩, [method], some "print", .none⟩]
    functions := [⟨"", [⟨"p", .struct 0, .aboveFrame 0⟩], .bool, 0, ⟨.empty,
      [⟨.ifElse ⟨.bool true, .bool, .none⟩ ⟨.empty, [⟨.leave, .none⟩]⟩ none, .none⟩,
        ⟨.ret (some (float 0x3FB999999999999A)), .none⟩]⟩, .none⟩]
    main := ⟨.empty, [⟨.print [⟨.int (-2147483648), .int, .none⟩, ⟨.char '\x7f', .char, .none⟩]
      true false, .none⟩]⟩ }

theorem ofText?_toText_handedOver : ofText? handedOver.toText = some handedOver :=
  ofText?_toText handedOver
    (by decide +kernel)
    (by decide +kernel)

end Program
end IntervalStack
