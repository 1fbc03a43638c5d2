import IntervalStack.Proofs.Generation
import Mathlib.Algebra.Order.Ring.Nat

/-! The steps of the generator below routines: expressions, statements and printers fail by refusals
only, and need no more labels than their trees have nodes. -/

namespace IntervalStack

/-! Nodes of trees. -/

mutual

def Expr.nodes : Expr → Nat
  | ⟨kind, _, _⟩ => kind.nodes

def ExprKind.nodes : ExprKind → Nat
  | .binary _ l r | .interval l r => l.nodes + r.nodes + 1
  | .unary _ e | .bound e _ | .field e _ => e.nodes + 1
  | .methodCall e _ args => e.nodes + Expr.nodesOf args + 1
  | .call _ args => Expr.nodesOf args + 1
  | _ => 1

def Expr.nodesOf : List Expr → Nat
  | [] => 0
  | e :: es => e.nodes + Expr.nodesOf es

end

mutual

def Block.nodes : Block → Nat
  | ⟨_, body⟩ => LocatedStmt.nodesOf body

def LocatedStmt.nodesOf : List LocatedStmt → Nat
  | [] => 0
  | s :: ss => s.nodes + LocatedStmt.nodesOf ss

def LocatedStmt.nodes : LocatedStmt → Nat
  | ⟨node, _⟩ => node.nodes

/-- An item that is printed is a node above its expression. -/
def Stmt.nodes : Stmt → Nat
  | .declaration _ e | .ret (some e) | .call e => e.nodes + 1
  | .update target e => target.nodes + e.nodes + 1
  | .print items _ _ => Expr.nodesOf items + items.length + 1
  | .ifElse cond yes none => cond.nodes + yes.nodes + 1
  | .ifElse cond yes (some no) => cond.nodes + yes.nodes + no.nodes + 1
  | .loop cond body => cond.nodes + body.nodes + 1
  | .leave | .ret none => 1
  | .block b => b.nodes + 1

end

def Function.nodes (f : Function) : Nat := f.body.nodes + 1

def StructDef.nodes (d : StructDef) : Nat :=
  d.initializer.nodes + 1 + (d.methods.map (·.nodes)).sum

def Program.nodes (p : Program) : Nat :=
  p.main.nodes + (p.functions.map (·.nodes)).sum + (p.structs.map (·.nodes)).sum

namespace Generator

structure Bounded {α : Type} (n : Nat) (a : Gen α) : Prop where
  refused : ∀ {s e}, a s = .error e → ∃ error span, e = .refused error span
  labels : ∀ {s r s'}, a s = .ok (r, s') → s'.labels.count ≤ s.labels.count + n

namespace Bounded

variable {α β : Type} {m n : Nat} {a : Gen α}

theorem le (h : Bounded m a) (hmn : m ≤ n) : Bounded n a :=
  ⟨h.refused, fun hr => Nat.le_trans (h.labels hr) (Nat.add_le_add_left hmn _)⟩

theorem pure (r : α) : Bounded n (pure r : Gen α) := by
  refine ⟨nofun, fun h => ?_⟩
  obtain ⟨-, rfl⟩ := pure_ok.1 h
  exact Nat.le_add_right _ _

theorem refuse (error : GenerationError) (span : Span) : Bounded n (refuse error span : Gen α) := by
  refine ⟨fun h => ?_, nofun⟩
  cases h
  exact ⟨error, span, rfl⟩

theorem bind {f : α → Gen β} (ha : Bounded m a) (hf : ∀ r, Bounded n (f r)) :
    Bounded (m + n) (a >>= f) := by
  refine ⟨fun {s e} h => ?_, fun {s r s'} h => ?_⟩
  · cases hr : a s with
    | error e' =>
      simp only [Bind.bind, StateT.bind, hr, Except.bind] at h
      cases h
      exact ha.refused hr
    | ok p =>
      simp only [Bind.bind, StateT.bind, hr, Except.bind] at h
      exact (hf p.1).refused h
  · obtain ⟨r', s₁, hr, h⟩ := bind_ok.1 h
    have h₁ := ha.labels hr
    have h₂ := (hf r').labels h
    omega

theorem free {f : α → Gen β} (ha : Bounded 0 a) (hf : ∀ r, Bounded n (f r)) :
    Bounded n (a >>= f) := (ha.bind hf).le (by omega)

theorem map {g : α → β} (ha : Bounded n a) : Bounded n (a >>= fun r => Pure.pure (g r)) :=
  ha.bind fun _ => pure (n := 0) _

theorem modify {f : State → State} (hf : ∀ s, (f s).labels = s.labels) :
    Bounded n (modify f : Gen Unit) := by
  refine ⟨nofun, fun h => ?_⟩
  rw [modify_ok.1 h, hf]
  exact Nat.le_add_right _ _

theorem get : Bounded n (get : Gen State) := by
  refine ⟨nofun, fun h => ?_⟩
  rw [(get_ok.1 h).2]
  exact Nat.le_add_right _ _

theorem fresh (stem : String) : Bounded 1 (fresh stem) := by
  refine ⟨nofun, fun h => ?_⟩
  rw [(fresh_ok.1 h).2]
  exact Nat.le_refl _

end Bounded

/-! The steps that pieces of code share need no labels. -/

variable {ctx : Context} {span : Span}

theorem require_bounded (c : Bool) (e : GenerationError) : Bounded 0 (require c e span) := by
  cases c
  · exact .refuse e span
  · exact .pure ()

theorem shaped_bounded {α : Type} (r : Except FragmentError α) : Bounded 0 (shaped r span) := by
  cases r with
  | error e => exact .refuse _ span
  | ok a => exact .pure a

theorem notePush_bounded : Bounded 0 notePush := .modify fun _ => rfl

theorem bindingAddress_bounded (b : Binding) : Bounded 0 (bindingAddress ctx b span) := by
  unfold bindingAddress
  split
  · exact .pure _
  · exact .refuse _ span

theorem layoutOf_bounded (id : StructId) : Bounded 0 (layoutOf ctx id span) := by
  unfold layoutOf
  split
  · exact .pure _
  · exact .refuse _ span

theorem structOf_bounded (id : StructId) : Bounded 0 (structOf ctx id span) := by
  unfold structOf
  split
  · exact .pure _
  · exact .refuse _ span

theorem functionOf_bounded (name : String) : Bounded 0 (functionOf ctx name span) := by
  unfold functionOf
  split
  · exact .pure _
  · exact .refuse _ span

theorem methodOf_bounded (receiver : Ty) (name : String) :
    Bounded 0 (methodOf ctx receiver name span) := by
  unfold methodOf
  split
  · refine (structOf_bounded _).free fun d => ?_
    split
    · exact (layoutOf_bounded _).map
    · exact .refuse _ span
  · exact .refuse _ span

theorem clearReferences_bounded (bs : List Binding) : Bounded 0 (clearReferences ctx span bs) := by
  induction bs with
  | nil => exact .pure _
  | cons b bs ih => exact (bindingAddress_bounded b).free fun _ => ih.map

theorem releaseBindings_bounded (bs : List Binding) : Bounded 0 (releaseBindings ctx span bs) := by
  induction bs with
  | nil => exact .pure _
  | cons b bs ih => exact (bindingAddress_bounded b).free fun _ => notePush_bounded.free fun _ => ih.map

theorem releaseScopes_bounded (ss : List OpenScope) : Bounded 0 (releaseScopes ctx span ss) := by
  induction ss with
  | nil => exact .pure _
  | cons s ss ih => exact (releaseBindings_bounded _).free fun _ => ih.map

theorem releaseDownTo_bounded (depth : Nat) : Bounded 0 (releaseDownTo ctx depth span) :=
  Bounded.get.free fun _ => (releaseScopes_bounded _).map

theorem valueOf_bounded (e : Expr) (f : Fragment) : Bounded 0 (valueOf e f) := shaped_bounded _

theorem ownedValueOf_bounded (e : Expr) (f : Fragment) : Bounded 0 (ownedValueOf e f) :=
  (valueOf_bounded e f).map

theorem discard_bounded (f : Fragment) (ty : Ty) : Bounded 0 (discard f ty) := by
  unfold discard
  split
  · exact .pure _
  · exact .pure _
  · split
    · exact notePush_bounded.map
    · exact .pure _

/-! Expressions. -/

theorem unaryCode_bounded (op : UnaryOp) (ty : Ty) : Bounded 1 (unaryCode op ty span) := by
  unfold unaryCode
  split
  all_goals first | exact .pure _ | exact .refuse _ span | exact (Bounded.fresh _).map

theorem memberOf_bounded (object : Expr) (f : Fragment) (offset : Int32) (ty : Ty) :
    Bounded 0 (memberOf object f offset ty span) := by
  refine (valueOf_bounded object f).free fun _ => ?_
  split
  · exact (shaped_bounded _).free fun _ => notePush_bounded.map
  · exact .pure _

theorem methodCode_bounded (receiver : Code) (fresh : Bool) (label : String) (result : Ty)
    (args : Code) : Bounded 0 (methodCode receiver fresh label result args) := notePush_bounded.map

mutual

theorem expr_bounded (ctx : Context) : (e : Expr) → Bounded e.nodes (expr ctx e)
  | ⟨kind, ty, span⟩ => by
    rw [expr, Expr.nodes]
    exact exprKind_bounded ctx ty span kind

theorem exprKind_bounded (ctx : Context) (ty : Ty) (span : Span) : (kind : ExprKind) →
    Bounded kind.nodes (exprKind ctx ty span kind)
  | .bool _ | .char _ | .int _ | .float _ => by
    rw [exprKind]
    exact .pure _
  | .ident b => by
    rw [exprKind]
    exact (bindingAddress_bounded b).map.le (Nat.zero_le _)
  | .self => by
    rw [exprKind]
    split
    · exact .pure _
    · exact .refuse _ span
  | .binary op l r => by
    rw [exprKind, ExprKind.nodes]
    have hl := expr_bounded ctx l
    have hr := expr_bounded ctx r
    refine (require_bounded _ _).free fun _ => ?_
    rw [Nat.add_assoc]
    refine hl.bind fun f => (valueOf_bounded l f).free fun _ => ?_
    split
    · refine (require_bounded _ _).free fun _ => ?_
      rw [Nat.add_comm]
      exact (Bounded.fresh _).bind fun _ => hr.bind fun f => (valueOf_bounded r f).map
    · refine hr.bind fun f => (valueOf_bounded r f).free fun _ => ?_
      split
      · exact (Bounded.fresh _).map
      · refine (require_bounded _ _).free fun _ => ?_
        split
        · exact .pure _
        · exact .refuse _ span
  | .unary op e => by
    rw [exprKind, ExprKind.nodes]
    refine (require_bounded _ _).free fun _ => (expr_bounded ctx e).bind fun f => ?_
    exact (valueOf_bounded e f).free fun _ => (unaryCode_bounded op e.ty).map
  | .interval low high => by
    cases ty with
    | interval sub =>
      rw [exprKind, ExprKind.nodes]
      refine (shaped_bounded _).free fun _ => ?_
      have hl := expr_bounded ctx low
      have hh := expr_bounded ctx high
      rw [Nat.add_assoc]
      refine hl.bind fun f => (ownedValueOf_bounded low f).free fun _ => ?_
      exact hh.bind fun f => (ownedValueOf_bounded high f).map.le (Nat.zero_le _)
    | _ =>
      rw [exprKind]
      · exact .refuse _ span
      · exact nofun
  | .bound i b => by
    rw [exprKind, ExprKind.nodes]
    split
    · exact (expr_bounded ctx i).bind fun f => (memberOf_bounded i f _ _).le (by omega)
    · exact .refuse _ span
  | .field object member => by
    rw [exprKind, ExprKind.nodes]
    split
    · exact (expr_bounded ctx object).bind fun f => (memberOf_bounded object f _ _).le (by omega)
    · exact .refuse _ span
  | .methodCall object method args => by
    rw [exprKind, ExprKind.nodes, Nat.add_assoc]
    refine (expr_bounded ctx object).bind fun f => (valueOf_bounded object f).free fun _ => ?_
    refine (methodOf_bounded _ _).free fun callee => (require_bounded _ _).free fun _ => ?_
    exact (arguments_bounded ctx _ args).bind fun _ => (methodCode_bounded _ _ _ _ _).le (by omega)
  | .call function args => by
    rw [exprKind, ExprKind.nodes]
    refine (functionOf_bounded _).free fun callee => (require_bounded _ _).free fun _ => ?_
    exact (arguments_bounded ctx _ args).map.le (by omega)
  | .new id => by
    rw [exprKind]
    exact (layoutOf_bounded id).map.le (Nat.zero_le _)

theorem arguments_bounded (ctx : Context) : (params : List Ty) → (es : List Expr) →
    Bounded (Expr.nodesOf es) (arguments ctx params es)
  | _, [] => by
    rw [arguments]
    exact .pure _
  | [], _ :: _ => by
    rw [arguments]
    exact .pure _
  | _ :: tys, e :: es => by
    rw [arguments, Expr.nodesOf]
    refine (expr_bounded ctx e).bind fun f => (ownedValueOf_bounded e f).free fun _ => ?_
    exact (arguments_bounded ctx tys es).map

end

/-! Printing. -/

theorem printScalar_bounded (k : ScalarKind) : Bounded 1 (printScalar k) := by
  cases k with
  | bool => exact (Bounded.fresh _).map
  | char | int | float => exact .pure _

theorem printInterval_bounded (code : Code) (fresh : Bool) (k : ScalarKind) :
    Bounded 0 (printInterval code fresh k) := by
  have hnote : Bounded 0 (notePrinter k) := .modify fun _ => rfl
  refine hnote.free fun _ => ?_
  split
  · exact notePush_bounded.map
  · exact .pure _

theorem printStruct_bounded (code : Code) (fresh : Bool) (id : StructId) :
    Bounded 0 (printStruct ctx code fresh id span) := by
  refine (structOf_bounded id).free fun d => ?_
  split
  · refine (methodOf_bounded _ _).free fun callee => (require_bounded _ _).free fun _ => ?_
    exact (methodCode_bounded _ _ _ _ _).free fun f => discard_bounded f _
  · refine (layoutOf_bounded id).free fun s => ?_
    split
    · exact notePush_bounded.map
    · exact .pure _

theorem printItem_bounded (e : Expr) : Bounded (e.nodes + 1) (printItem ctx e) := by
  have he := expr_bounded ctx e
  unfold printItem
  split
  · exact he.bind fun f => (valueOf_bounded e f).free fun _ => (printScalar_bounded _).map
  · refine he.bind fun f => (valueOf_bounded e f).free fun _ => ?_
    split
    · split
      · exact (printInterval_bounded _ _ _).le (Nat.zero_le _)
      · exact .refuse _ _
    · exact (printStruct_bounded _ _ _).le (Nat.zero_le _)
    · exact .refuse _ _

theorem printSpaced_bounded (space : Code) (es : List Expr) :
    Bounded (Expr.nodesOf es + es.length) (printSpaced ctx space es) := by
  induction es with
  | nil => exact .pure _
  | cons e es ih =>
    refine ((printItem_bounded e).bind fun _ => ih.map).le ?_
    rw [Expr.nodesOf, List.length_cons]
    omega

theorem print_bounded (es : List Expr) (spaces newline : Bool) :
    Bounded (Expr.nodesOf es + es.length) (print ctx es spaces newline) := by
  refine Bounded.map ?_
  cases es with
  | nil => exact .pure _
  | cons e es =>
    refine ((printItem_bounded e).bind fun _ => (printSpaced_bounded _ es).map).le ?_
    rw [Expr.nodesOf, List.length_cons]
    omega

theorem intervalPrinter_bounded (k : ScalarKind) : Bounded 3 (intervalPrinter k) := by
  have hscalar := printScalar_bounded k
  exact ((Bounded.fresh _).bind fun _ => hscalar.bind fun _ => hscalar.map).le (by omega)

theorem intervalPrinters_bounded (ks : List ScalarKind) :
    Bounded (3 * ks.length) (intervalPrinters ks) := by
  induction ks with
  | nil => exact .pure _
  | cons k ks ih =>
    refine ((intervalPrinter_bounded k).bind fun _ => ih.map).le ?_
    rw [List.length_cons]
    omega

/-! Statements. -/

theorem returnValue_bounded (routine : Routine) :
    (value : Option Expr) → Bounded (Stmt.ret value).nodes (returnValue ctx routine value span)
  | some e => by
    rw [returnValue, Stmt.nodes]
    split
    · exact .refuse _ span
    · exact (expr_bounded ctx e).bind fun f => (ownedValueOf_bounded e f).le (Nat.zero_le _)
  | none => by
    rw [returnValue]
    split
    · exact .pure _
    · exact .refuse _ span

theorem leaveRoutine_bounded (value : Option Expr) :
    Bounded (Stmt.ret value).nodes (leaveRoutine ctx value span) := by
  unfold leaveRoutine
  split
  · exact .refuse _ span
  · refine (returnValue_bounded _ value).bind (n := 0) fun _ => ?_
    exact (releaseDownTo_bounded 0).free fun _ => Bounded.map (.modify fun _ => rfl)

theorem leaveLoop_bounded : Bounded 0 (leaveLoop ctx span) := by
  unfold leaveLoop
  split
  · exact .refuse _ span
  · exact (releaseDownTo_bounded _).map

theorem loopCondition_bounded (cond : Expr) : Bounded cond.nodes (loopCondition ctx cond) := by
  refine Bounded.get.free fun _ => .free (.modify fun _ => rfl) fun _ => ?_
  refine (expr_bounded ctx cond).bind (n := 0) fun f => (valueOf_bounded cond f).free fun _ => ?_
  exact Bounded.get.free fun _ => .map (.modify fun _ => rfl)

theorem declare_bounded (target : Binding) (e : Expr) :
    Bounded e.nodes (declare ctx target e span) := by
  refine (shaped_bounded _).free fun _ => (bindingAddress_bounded target).free fun _ => ?_
  exact (expr_bounded ctx e).bind fun f => (ownedValueOf_bounded e f).map

theorem update_bounded (target e : Expr) :
    Bounded (target.nodes + e.nodes) (update ctx target e span) := by
  refine (shaped_bounded _).free fun _ => ?_
  rw [Nat.add_comm]
  refine (expr_bounded ctx e).bind fun f => (ownedValueOf_bounded e f).free fun _ => ?_
  refine (expr_bounded ctx target).bind (n := 0) fun f => (require_bounded _ _).free fun _ => ?_
  refine (shaped_bounded _).free fun _ => ?_
  split
  · exact notePush_bounded.map
  · exact .pure _

mutual

theorem block_bounded (ctx : Context) (force : Bool) :
    (b : Block) → Bounded b.nodes (block ctx force b)
  | ⟨scope, body⟩ => by
    rw [block, Block.nodes]
    refine (clearReferences_bounded _).free fun _ => Bounded.get.free fun s => ?_
    refine .free (.modify fun _ => rfl) fun _ => ?_
    refine (stmts_bounded (ctx.enter scope s.pushed) body).bind (n := 0) fun _ => ?_
    refine (releaseBindings_bounded _).free fun _ => Bounded.get.free fun _ => ?_
    exact .map (.modify fun _ => rfl)

theorem stmts_bounded (ctx : Context) :
    (ss : List LocatedStmt) → Bounded (LocatedStmt.nodesOf ss) (stmts ctx ss)
  | [] => by
    rw [stmts]
    exact .pure _
  | s :: rest => by
    rw [stmts, LocatedStmt.nodesOf]
    exact (locatedStmt_bounded ctx s).bind fun _ => (stmts_bounded ctx rest).map

theorem locatedStmt_bounded (ctx : Context) :
    (s : LocatedStmt) → Bounded s.nodes (locatedStmt ctx s)
  | ⟨node, span⟩ => by
    rw [locatedStmt, LocatedStmt.nodes]
    exact stmt_bounded ctx span node

theorem stmt_bounded (ctx : Context) (span : Span) :
    (node : Stmt) → Bounded node.nodes (stmt ctx span node)
  | .declaration target e => by
    rw [stmt, Stmt.nodes]
    exact (declare_bounded target e).le (by omega)
  | .update target e => by
    rw [stmt, Stmt.nodes]
    exact (update_bounded target e).le (by omega)
  | .print items spaces newline => by
    rw [stmt, Stmt.nodes]
    exact (print_bounded items spaces newline).le (by omega)
  | .ifElse cond yes none => by
    rw [stmt, Stmt.nodes, Nat.add_comm]
    refine (Bounded.fresh _).bind fun _ => (expr_bounded ctx cond).bind fun f => ?_
    exact (valueOf_bounded cond f).free fun _ => (block_bounded ctx false yes).map
  | .ifElse cond yes (some no) => by
    rw [stmt, Stmt.nodes, Nat.add_comm, Nat.add_assoc]
    refine (Bounded.fresh _).bind fun _ => (expr_bounded ctx cond).bind fun f => ?_
    refine (valueOf_bounded cond f).free fun _ => (block_bounded ctx false yes).bind fun _ => ?_
    exact (block_bounded ctx false no).map
  | .loop cond body => by
    rw [stmt, Stmt.nodes, Nat.add_comm]
    refine (Bounded.fresh _).bind fun _ => (loopCondition_bounded cond).bind fun r => ?_
    exact (block_bounded _ r.2 body).map
  | .leave => by
    rw [stmt]
    exact leaveLoop_bounded.le (Nat.zero_le _)
  | .ret value => by
    rw [stmt]
    exact leaveRoutine_bounded value
  | .call e => by
    rw [stmt, Stmt.nodes]
    exact (expr_bounded ctx e).bind fun f => (discard_bounded f e.ty).le (Nat.zero_le _)
  | .block b => by
    rw [stmt, Stmt.nodes]
    exact (block_bounded ctx false b).le (by omega)

end

end Generator
end IntervalStack
