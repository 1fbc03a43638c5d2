import IntervalStack.Proofs.Neutral.Expr
import IntervalStack.Proofs.Totality.Sizes

/-! Statements and programs that mention no heap type. Their code does not call the reference counter,
whatever is scheduled around them. A break or a return is the exception: it releases the scopes that
it leaves, so it is as neutral as these are. -/

namespace IntervalStack

mutual

def Block.heapFree : Block → Bool
  | ⟨scope, ss⟩ => scope.bindings.all (!·.ty.isHeap) && stmtsHeapFree ss

def stmtsHeapFree : List LocatedStmt → Bool
  | [] => true
  | ⟨node, _⟩ :: rest => node.heapFree && stmtsHeapFree rest

/-- No binding and no expression in the statement has a heap type. -/
def Stmt.heapFree : Stmt → Bool
  | .declaration b e => !b.ty.isHeap && e.heapFree
  | .update target e => target.heapFree && e.heapFree
  | .print items _ _ => exprsHeapFree items
  | .ifElse cond yes none => cond.heapFree && yes.heapFree
  | .ifElse cond yes (some no) => cond.heapFree && yes.heapFree && no.heapFree
  | .loop cond body => cond.heapFree && body.heapFree
  | .leave | .ret none => true
  | .ret (some e) => e.heapFree
  | .call e => e.heapFree
  | .block b => b.heapFree

end

mutual

def Block.stays : Block → Bool
  | ⟨_, ss⟩ => stmtsStay ss

def stmtsStay : List LocatedStmt → Bool
  | [] => true
  | ⟨node, _⟩ :: rest => node.stays && stmtsStay rest

def Stmt.stays : Stmt → Bool
  | .leave | .ret _ => false
  | .ifElse _ yes none => yes.stays
  | .ifElse _ yes (some no) => yes.stays && no.stays
  | .loop _ body => body.stays
  | .block b => b.stays
  | .declaration .. | .update .. | .print .. | .call _ => true

end

mutual

def Block.statements : Block → List Stmt
  | ⟨_, ss⟩ => statementsOf ss

def statementsOf : List LocatedStmt → List Stmt
  | [] => []
  | ⟨node, _⟩ :: rest => node :: node.inner ++ statementsOf rest

def Stmt.inner : Stmt → List Stmt
  | .ifElse _ yes none => yes.statements
  | .ifElse _ yes (some no) => yes.statements ++ no.statements
  | .loop _ body => body.statements
  | .block b => b.statements
  | .declaration .. | .update .. | .print .. | .leave | .ret _ | .call _ => []

end

def Function.heapFree (f : Function) : Bool := f.params.all (!·.ty.isHeap) && f.body.heapFree

namespace Program

def heapFree (p : Program) : Bool :=
  p.main.heapFree && p.functions.all Function.heapFree &&
    p.structs.all fun d => d.initializer.heapFree && d.methods.all Function.heapFree

def statements (p : Program) : List Stmt :=
  p.main.statements ++ p.functions.flatMap (·.body.statements) ++
    p.structs.flatMap fun d => d.initializer.statements ++ d.methods.flatMap (·.body.statements)

end Program

theorem Scope.owned_eq_nil {s : Scope} (h : s.bindings.all (!·.ty.isHeap) = true) : s.owned = [] := by
  refine List.filter_eq_nil_iff.2 fun b hb => ?_
  have hty := List.all_eq_true.1 h b hb
  simp only [Bool.not_eq_true'] at hty
  simp [Binding.isOwned, hty]

namespace Outline

def parts : Outline → List (Part × Code)
  | .nil => []
  | .instr _ rest => rest.parts
  | .part p body rest => (p, body.code) :: body.parts ++ rest.parts

@[simp] theorem parts_nil : parts .nil = [] := rfl

@[simp] theorem parts_instr (i : Instr) (rest : Outline) : parts (.instr i rest) = rest.parts := rfl

@[simp] theorem parts_append (o o' : Outline) : (o ++ o').parts = o.parts ++ o'.parts := by
  induction o with
  | nil => rfl
  | instr i rest ih => exact ih
  | part p body rest _ ih =>
    rw [part_append, parts, ih, parts, ← List.append_assoc, List.cons_append]

@[simp] theorem parts_plain (c : Code) : (plain c).parts = [] := by
  induction c with
  | nil => rfl
  | cons i c ih => exact ih

@[simp] theorem parts_wrap (p : Part) (o : Outline) : (wrap p o).parts = (p, o.code) :: o.parts := by
  rw [wrap, parts, parts, List.append_nil]

theorem infix_of_mem_parts {o : Outline} {p : Part} {c : Code} (h : (p, c) ∈ o.parts) :
    c <:+: o.code := by
  induction o with
  | nil => cases h
  | instr i rest ih => exact (ih h).trans (List.suffix_cons i rest.code).isInfix
  | part p' body rest ih₁ ih₂ =>
    rcases List.mem_append.1 h with h | h
    · have hbody : c <:+: body.code := by
        rcases List.mem_cons.1 h with heq | h
        · exact (Prod.mk.inj heq).2 ▸ List.infix_rfl
        · exact ih₁ h
      exact hbody.trans (List.prefix_append _ _).isInfix
    · exact (ih₂ h).trans (List.suffix_append _ _).isInfix

end Outline

namespace Generator
open Outline (plain wrap)
open Environment (printString)

variable {ctx : Context} {task : Task} {s s' : State} {o : Outline} {c : Code}

def Task.heapFree : Task → Bool
  | .item e => e.heapFree
  | .spaced space es => decide space.Neutral && exprsHeapFree es
  | .stmt _ node => node.heapFree
  | .stmts ss => stmtsHeapFree ss
  | .block force b => !force && b.heapFree

def Task.stays : Task → Bool
  | .item _ | .spaced .. => true
  | .stmt _ node => node.stays
  | .stmts ss => stmtsStay ss
  | .block _ b => b.stays

def Task.statements : Task → List Stmt
  | .item _ | .spaced .. => []
  | .stmt _ node => node.inner
  | .stmts ss => statementsOf ss
  | .block _ b => b.statements

theorem printScalar_silent {k : ScalarKind} (h : printScalar k s = .ok (c, s')) :
    Silent s (plain c) s' := by
  rcases printScalar_ok h with ⟨-, rfl, rfl⟩ | ⟨-, rfl, rfl⟩ | ⟨-, rfl, rfl⟩ | ⟨-, rfl, rfl⟩
  · exact .next (Code.neutral_of_no_calls rfl) _
  all_goals exact .plain (Code.neutral_of_no_calls rfl) _

theorem State.leaving_false (s : State) : s.leaving false = s := by
  rw [State.leaving, Bool.or_false]

theorem Clears.eq_nil {selfSlot : Option Int32} (h : Clears selfSlot [] c) : c = [] := by
  cases h
  rfl

theorem Releases.eq_nil {selfSlot : Option Int32} (h : Releases selfSlot [] o) : o = .nil := by
  cases h
  rfl

namespace Context

def Calm (ctx : Context) (pushed : Bool) : Prop := duePending (ctx.openScopes pushed) = false

theorem Calm.enter {pushed : Bool} {scope : Scope} (h : ctx.Calm pushed) (hs : scope.owned = []) :
    (ctx.enter scope pushed).Calm false := by
  rw [Calm, openScopes_enter]
  show (!scope.owned.isEmpty || duePending (ctx.openScopes pushed)) = false
  rw [hs, show duePending _ = false from h]
  rfl

theorem Calm.leaves {depth : Nat} (h : ctx.Calm s.pushed)
    (hr : Releases ctx.selfSlot (leftBindings (ctx.leftScopes depth s.pushed)) o) :
    o = .nil ∧ duePending (ctx.leftScopes depth s.pushed) = false ∧
      s.noting (!(leftBindings (ctx.leftScopes depth s.pushed)).isEmpty) = s := by
  have hall : ∀ open' ∈ ctx.leftScopes depth s.pushed,
      (open'.pushed || !open'.scope.owned.isEmpty) = false := fun open' hmem => by
    have hdue := List.any_eq_false.1 h open' (List.mem_of_mem_take hmem)
    simpa using hdue
  have hnone : leftBindings (ctx.leftScopes depth s.pushed) = [] := by
    refine List.flatMap_eq_nil_iff.2 fun open' hmem => ?_
    have hquiet := hall open' hmem
    simp only [Bool.or_eq_false_iff, Bool.not_eq_false', List.isEmpty_iff] at hquiet
    exact hquiet.2
  rw [hnone] at hr ⊢
  refine ⟨hr.eq_nil, List.any_eq_false.2 fun open' hmem => ?_, by simp⟩
  rw [hall open' hmem]
  exact Bool.false_ne_true

end Context

theorem neutral_dropCode {ty : Ty} (h : ty.isHeap = false) (shape : Shape) :
    (dropCode ty shape).Neutral := by
  cases shape with
  | value =>
    rw [dropCode, h]
    exact Code.neutral_of_isLocal rfl
  | void | address => exact Code.neutral_of_isLocal rfl

/-- What is emitted for a task without heap types, where it is not left or where leaving it releases
nothing. -/
theorem Performs.silent (h : Performs ctx task s o s') (hf : task.heapFree = true)
    (hway : task.stays = true ∨ ctx.Calm s.pushed) : Silent s o s' := by
  have htext (b : Bool) (text : String) : Code.Neutral (if b then printString text else []) := by
    cases b <;> exact Code.neutral_of_no_calls rfl
  induction h with
  | scalar _ he hp => exact (he.silent hf).append (printScalar_silent hp)
  | freshInterval hty | storedInterval hty | printerMethod hty | structName hty =>
    have hheap := Expr.isHeap_of_heapFree hf
    rw [hty] at hheap
    cases hheap
  | noItems | noStmts => exact .plain .nil _
  | items _ _ ih₁ ih₂ =>
    simp only [Task.heapFree, exprsHeapFree, Bool.and_eq_true, decide_eq_true_eq] at hf
    exact ((Silent.plain hf.1 _).append (ih₁ hf.2.1 (.inl rfl))).append
      (ih₂ (by simp [Task.heapFree, hf.1, hf.2.2]) (.inl rfl))
  | printNone => exact .plain (htext _ _) _
  | print _ _ ih₁ ih₂ =>
    simp only [Task.heapFree, Stmt.heapFree, exprsHeapFree, Bool.and_eq_true] at hf
    exact ((ih₁ hf.1 (.inl rfl)).append (ih₂ (by simp [Task.heapFree, htext, hf.2]) (.inl rfl))).append
      (.plain (htext _ _) _)
  | declaration hs ha he =>
    simp only [Task.heapFree, Stmt.heapFree, Bool.and_eq_true] at hf
    exact ((Silent.plain (Code.neutral_of_isLocal (storageAddress_local ha)) _).append
      (he.silent hf.2)).append (.plain (Code.neutral_of_isLocal (by simp [store_local hs])) _)
  | @update _ _ _ _ store _ _ _ _ _ hs he ht =>
    simp only [Task.heapFree, Stmt.heapFree, Bool.and_eq_true] at hf
    have hty := Expr.isHeap_of_heapFree hf.1
    have hstore : Code.Neutral [.exchange, store] := by
      refine Code.neutral_of_isLocal ?_
      rw [List.all_cons, List.all_cons, store_local hs]
      rfl
    rw [hty, State.noting_false, releaseOld, hty]
    exact ((he.silent hf.2).append (ht.silent hf.1)).append (.plain hstore _)
  | ifThen hc _ ih =>
    simp only [Task.heapFree, Stmt.heapFree, Bool.and_eq_true] at hf
    have htest := (hc.silent hf.1).of_next
    have hyes := ih (by simp [Task.heapFree, hf.2]) (htest.pushed ▸ hway)
    exact ((htest.append (.plain (Code.neutral_of_no_calls rfl) _)).append hyes).append
      (.plain (Code.neutral_of_no_calls rfl) _)
  | ifElse hc _ _ ih₁ ih₂ =>
    simp only [Task.heapFree, Stmt.heapFree, Task.stays, Stmt.stays, Bool.and_eq_true] at hf hway
    have htest := (hc.silent hf.1.1).of_next
    have hyes := ih₁ (by simp [Task.heapFree, hf.1.2]) (hway.imp And.left (htest.pushed ▸ ·))
    have hno := ih₂ (by simp [Task.heapFree, hf.2])
      (hway.imp And.right (hyes.pushed.trans htest.pushed ▸ ·))
    exact ((((htest.append (.plain (Code.neutral_of_no_calls rfl) _)).append hyes).append
      (.plain (Code.neutral_of_no_calls rfl) _)).append hno).append
        (.plain (Code.neutral_of_no_calls rfl) _)
  | @loop ctx _ _ _ _ s s₁ s₂ o₁ o₂ hc hb ih =>
    simp only [Task.heapFree, Stmt.heapFree, Bool.and_eq_true] at hf
    have htest := hc.silent hf.1
    have hquiet : s₁.pushed = false := htest.pushed
    have hsame : (s₁.noting s.pushed).pushed = s.pushed := by simp [hquiet]
    have hbody := ih (by simp [Task.heapFree, hquiet, hf.2]) (hway.imp id fun h => hsame.symm ▸ h)
    refine ⟨?_, hbody.pushed.trans hsame, hbody.exitPushed.trans htest.exitPushed⟩
    simp only [Outline.code_append, Code.neutral_append, Outline.code_plain]
    exact ⟨⟨⟨⟨Code.neutral_of_no_calls rfl, htest.neutral⟩, Code.neutral_of_no_calls rfl⟩,
      hbody.neutral⟩, Code.neutral_of_no_calls rfl⟩
  | leave _ hr =>
    obtain ⟨rfl, hdue, hsame⟩ := (hway.resolve_left Bool.false_ne_true).leaves hr
    rw [hdue, hsame]
    exact .plain (Code.neutral_of_no_calls rfl) _
  | retNone _ _ hr =>
    obtain ⟨rfl, hdue, hsame⟩ := (hway.resolve_left Bool.false_ne_true).leaves hr
    rw [hdue, hsame, State.leaving_false]
    exact .plain (Code.neutral_of_no_calls rfl) _
  | ret _ _ he hr =>
    simp only [Task.heapFree, Stmt.heapFree] at hf
    have hvalue := he.silent hf
    obtain ⟨rfl, hdue, hsame⟩ := Context.Calm.leaves (hvalue.pushed ▸ hway.resolve_left Bool.false_ne_true) hr
    rw [hdue, hsame, State.leaving_false]
    exact (hvalue.append (.plain .nil _)).append (.plain (Code.neutral_of_no_calls rfl) _)
  | @call _ _ e shape s s' o he =>
    simp only [Task.heapFree, Stmt.heapFree] at hf
    have hty := Expr.isHeap_of_heapFree hf
    rw [hty, Bool.and_false, State.noting_false]
    exact (he.silent hf).append (.plain (neutral_dropCode hty _) _)
  | nested _ ih =>
    exact ih (by simpa [Task.heapFree, Stmt.heapFree] using hf) hway
  | stmts _ _ ih₁ ih₂ =>
    simp only [Task.heapFree, stmtsHeapFree, Task.stays, stmtsStay, Bool.and_eq_true] at hf hway
    have hfirst := ih₁ hf.1 (hway.imp And.left id)
    exact (hfirst.wrap _).append (ih₂ hf.2 (hway.imp And.right (hfirst.pushed ▸ ·)))
  | @block ctx force scope body s s₁ c o₁ o₂ hc _ hr ih =>
    simp only [Task.heapFree, Block.heapFree, Bool.and_eq_true, Bool.not_eq_true'] at hf
    obtain ⟨rfl, hscope, hbody⟩ := hf
    have howned := Scope.owned_eq_nil hscope
    rw [howned] at hc hr ⊢
    rw [hc.eq_nil, hr.eq_nil]
    have hstmts := ih hbody (hway.imp id (·.enter howned))
    have hquiet : s₁.pushed = false := hstmts.pushed
    rw [hquiet]
    refine ⟨?_, rfl, hstmts.exitPushed⟩
    simpa [drainIf] using hstmts.neutral

theorem Emits.no_stmt {job : Job} {scopes : List Scope} {node : Stmt}
    (h : Emits ctx job s o s') : (.stmt scopes node, c) ∉ o.parts := by
  induction h with
  | noArgs => exact List.not_mem_nil
  | _ => simp_all

theorem Releases.no_stmt {selfSlot : Option Int32} {bs : List Binding} {scopes : List Scope}
    {node : Stmt} (h : Releases selfSlot bs o) : (.stmt scopes node, c) ∉ o.parts := by
  induction h with
  | nil => exact List.not_mem_nil
  | cons _ _ ih => simpa using ih

theorem Performs.of_mem_parts {scopes : List Scope} {node : Stmt} (h : Performs ctx task s o s')
    (hmem : (.stmt scopes node, c) ∈ o.parts) :
    ∃ ctx' span s₁ s₂, Performed ctx' (.stmt span node) s₁ c s₂ := by
  induction h with
  | noItems | noStmts => cases hmem
  | scalar _ he | freshInterval _ _ he | storedInterval _ _ he | printerMethod _ _ _ _ _ _ he
  | structName _ _ _ _ he | declaration _ _ he | call he => simp [he.no_stmt] at hmem
  | update _ he ht => simp [he.no_stmt, ht.no_stmt] at hmem
  | printNone => simp at hmem
  | items _ _ ih₁ ih₂ | print _ _ ih₁ ih₂ =>
    simp only [Outline.parts_append, Outline.parts_plain, List.nil_append, List.append_nil,
      List.mem_append] at hmem
    exact hmem.elim ih₁ ih₂
  | ifThen hc _ ih | loop hc _ ih =>
    simp only [Outline.parts_append, Outline.parts_plain, List.nil_append, List.append_nil,
      List.mem_append, hc.no_stmt, false_or] at hmem
    exact ih hmem
  | ifElse hc _ _ ih₁ ih₂ =>
    simp only [Outline.parts_append, Outline.parts_plain, List.append_nil, List.mem_append,
      hc.no_stmt, false_or] at hmem
    exact hmem.elim ih₁ ih₂
  | leave _ hr | retNone _ _ hr => simp [hr.no_stmt] at hmem
  | ret _ _ he hr => simp [he.no_stmt, hr.no_stmt] at hmem
  | nested _ ih => exact ih hmem
  | stmts h _ ih₁ ih₂ =>
    simp only [Outline.parts_append, Outline.parts_wrap, List.mem_append, List.mem_cons,
      Prod.mk.injEq, Part.stmt.injEq] at hmem
    rcases hmem with (⟨⟨-, rfl⟩, rfl⟩ | hmem) | hmem
    · exact ⟨_, _, _, _, _, h, rfl⟩
    · exact ih₁ hmem
    · exact ih₂ hmem
  | block _ _ hr ih =>
    simp only [Outline.parts_append, Outline.parts_plain, List.nil_append, List.append_nil,
      List.mem_append, hr.no_stmt, or_false] at hmem
    exact ih hmem

theorem Performs.marks (h : Performs ctx task s o s') {node : Stmt} (hn : node ∈ task.statements) :
    ∃ scopes c, (.stmt scopes node, c) ∈ o.parts := by
  induction h with
  | ifThen _ _ ih | loop _ _ ih =>
    obtain ⟨scopes, c, hmem⟩ := ih (by simpa [Task.statements, Stmt.inner] using hn)
    exact ⟨scopes, c, by simp [hmem]⟩
  | ifElse _ _ _ ih₁ ih₂ =>
    simp only [Task.statements, Stmt.inner, List.mem_append] at hn
    rcases hn with hn | hn
    · obtain ⟨scopes, c, hmem⟩ := ih₁ hn
      exact ⟨scopes, c, by simp [hmem]⟩
    · obtain ⟨scopes, c, hmem⟩ := ih₂ hn
      exact ⟨scopes, c, by simp [hmem]⟩
  | nested _ ih => exact ih (by simpa [Task.statements, Stmt.inner] using hn)
  | @stmts ctx node' _ _ _ _ _ o₁ _ _ _ ih₁ ih₂ =>
    simp only [Task.statements, statementsOf, List.cons_append, List.mem_cons, List.mem_append] at hn
    rcases hn with rfl | hn | hn
    · exact ⟨ctx.scopes, o₁.code, by simp⟩
    · obtain ⟨scopes, c, hmem⟩ := ih₁ hn
      exact ⟨scopes, c, by simp [hmem]⟩
    · obtain ⟨scopes, c, hmem⟩ := ih₂ hn
      exact ⟨scopes, c, by simp [hmem]⟩
  | block _ _ _ ih =>
    obtain ⟨scopes, c, hmem⟩ := ih (by simpa [Task.statements, Block.statements] using hn)
    exact ⟨scopes, c, by simp [hmem]⟩
  | noStmts => cases hn
  | _ => simp [Task.statements, Stmt.inner] at hn

variable {program : Program} {structs : StructTable} {capacity : UInt32}

def RoutineSpec.heapFree (spec : RoutineSpec) : Bool :=
  spec.params.all (!·.ty.isHeap) && spec.body.heapFree

theorem RoutineSpec.owned_eq_nil {spec : RoutineSpec} (h : spec.heapFree = true) :
    spec.owned = [] := by
  simp only [heapFree, Bool.and_eq_true] at h
  refine List.filter_eq_nil_iff.2 fun b hb => ?_
  have hty := List.all_eq_true.1 h.1 b hb
  simpa using hty

theorem calm_of_no_scopes (hscope : ctx.scope = none) (houter : ctx.outer = []) (pushed : Bool) :
    ctx.Calm pushed := by
  rw [Context.Calm, Context.openScopes, hscope, houter]
  rfl

theorem RoutineEmits.neutral {spec : RoutineSpec} (h : RoutineEmits program structs spec s o s')
    (hf : spec.heapFree = true) : o.code.Neutral := by
  have howned := RoutineSpec.owned_eq_nil hf
  simp only [RoutineSpec.heapFree, Bool.and_eq_true] at hf
  cases h with
  | @mk prologue epilogue o r s' hp hb hr he =>
    have hbody := hb.silent (by simpa [Task.heapFree] using hf.2) (.inr (calm_of_no_scopes rfl rfl _))
    have hexit : s'.exitPushed = false := by
      rw [hbody.exitPushed, State.exitPushed_entering, howned]
      rfl
    rw [howned] at hr
    obtain ⟨epilogue, rfl, hlocal⟩ := epilogue_local he
    rw [hr.eq_nil, hexit]
    simp only [Outline.code_wrap, Outline.code_append, Outline.code_plain, Code.neutral_append]
    refine ⟨⟨⟨⟨⟨?_, hbody.neutral⟩, Code.neutral_of_no_calls rfl⟩, .nil⟩, .nil⟩,
      Code.neutral_of_isLocal hlocal, Code.neutral_of_no_calls rfl⟩
    exact Code.neutral_append (c := [.label spec.label]).2
      ⟨Code.neutral_of_no_calls rfl, Code.neutral_of_isLocal (prologue_local hp)⟩

theorem Routines.neutral {specs : List RoutineSpec} (h : Routines program structs specs s o s')
    (hf : ∀ spec ∈ specs, spec.heapFree = true) : o.code.Neutral := by
  induction h with
  | nil => exact .nil
  | cons h _ ih =>
    rw [List.forall_mem_cons] at hf
    rw [Outline.code_append]
    exact Code.neutral_append.2 ⟨h.neutral hf.1, ih hf.2⟩

theorem Declared.heapFree {spec : RoutineSpec} (h : Declared program structs spec)
    (hf : program.heapFree = true) : spec.heapFree = true := by
  simp only [Program.heapFree, Bool.and_eq_true, List.all_eq_true] at hf
  cases h with
  | function hmem h =>
    obtain ⟨n, -, h⟩ := Word.bind_eq_ok_iff.1 h
    cases h
    exact hf.1.2 _ hmem
  | initializer hd => exact (hf.2 _ hd).1
  | method hd _ hmem h =>
    obtain ⟨n, -, h⟩ := Word.bind_eq_ok_iff.1 h
    obtain ⟨size, -, h⟩ := Word.bind_eq_ok_iff.1 h
    cases h
    exact (hf.2 _ hd).2 _ hmem

theorem neutral_printerCode {k : ScalarKind} {group : String} {low high : Code} (hlow : low.Neutral)
    (hhigh : high.Neutral) : (printerCode k group low high).Neutral := by
  intro r hr hmem
  have hload : Instr.call r ≠ (Instr.load? k.ty).getD .loadI := by cases k <;> nofun
  have hprinter : Instr.call r ≠ .call k.printer := fun heq =>
    neutral_call_append k.ty.text (by decide) (by decide) r hr (List.mem_singleton.2 heq)
  simp only [printerCode, printString, List.mem_append, List.mem_cons, List.not_mem_nil,
    reduceCtorEq, hload, hprinter, hlow r hr, hhigh r hr, or_false] at hmem

theorem neutral_intervalPrinters {ks : List ScalarKind} (h : intervalPrinters ks s = .ok (c, s')) :
    c.Neutral := by
  induction ks generalizing s c with
  | nil =>
    rw [intervalPrinters, pure_ok] at h
    rw [h.1]
    exact .nil
  | cons k ks ih =>
    simp only [intervalPrinters, bind_ok, pure_ok] at h
    obtain ⟨c₁, s₁, h₁, c₂, s₂, h₂, rfl, rfl⟩ := h
    obtain ⟨low, s₃, high, hlow, hhigh, rfl⟩ := intervalPrinter_ok h₁
    have hl := (printScalar_silent hlow).neutral
    have hh := (printScalar_silent hhigh).neutral
    rw [Outline.code_plain] at hl hh
    exact Code.neutral_append.2 ⟨neutral_printerCode hl hh, ih h₂⟩

theorem Assembled.neutral {code : Code} (h : Assembled program capacity code)
    (hf : program.heapFree = true) : ∃ counter structs before behind,
      RefCounter.ofCapacity? capacity = some counter ∧ StructTable.ofProgram program = .ok structs ∧
      code = before ++ counter.subroutines structs ++ behind ∧ before.Neutral ∧ behind.Neutral := by
  cases h with
  | @mk counter structs specs main routines printers s₁ s₂ s₃ hc hs hm hr hl hd hp =>
    have hmain := hm.silent (by simp only [Program.heapFree, Bool.and_eq_true] at hf; exact hf.1.1)
      (.inr (calm_of_no_scopes rfl rfl _))
    have hroutines := hr.neutral fun spec hspec => ((hd spec).1 hspec).heapFree hf
    have hnames : (structNames structs).Neutral := by
      intro r _ hmem
      obtain ⟨l, -, hmem⟩ := List.mem_flatMap.1 hmem
      simp [Environment.dataString] at hmem
    refine ⟨counter, structs,
      Environment.opening cells program.globalSize ++ counter.data ++ structNames structs,
      .label Environment.mainLabel :: (Frame.entry cells ++ RefCounter.reset) ++ main.code ++ [.halt]
        ++ routines.code ++ printers ++ Environment.errorHandlers, hc, hs, ?_, ?_, ?_⟩
    · simp only [runtime, List.append_assoc]
    · simp only [Code.neutral_append]
      exact ⟨⟨Code.neutral_of_no_calls rfl, Code.neutral_of_no_calls rfl⟩, hnames⟩
    · simp only [Code.neutral_append]
      exact ⟨⟨⟨⟨⟨Code.neutral_of_no_calls rfl, hmain.neutral⟩, Code.neutral_of_no_calls rfl⟩,
        hroutines⟩, neutral_intervalPrinters hp⟩, Code.neutral_of_no_calls rfl⟩

theorem RoutineEmits.of_mem_parts {spec : RoutineSpec} {scopes : List Scope} {node : Stmt}
    (h : RoutineEmits program structs spec s o s') (hmem : (.stmt scopes node, c) ∈ o.parts) :
    ∃ ctx span s₁ s₂, Performed ctx (.stmt span node) s₁ c s₂ := by
  cases h with
  | mk _ hb hr _ =>
    simp only [Outline.parts_wrap, Outline.parts_append, Outline.parts_plain, List.nil_append,
      List.append_nil, List.mem_append, List.mem_cons, Prod.mk.injEq, reduceCtorEq, false_and,
      List.not_mem_nil, or_false, false_or, hr.no_stmt] at hmem
    exact hb.of_mem_parts hmem

theorem Routines.of_mem_parts {specs : List RoutineSpec} {scopes : List Scope} {node : Stmt}
    (h : Routines program structs specs s o s') (hmem : (.stmt scopes node, c) ∈ o.parts) :
    ∃ ctx span s₁ s₂, Performed ctx (.stmt span node) s₁ c s₂ := by
  induction h with
  | nil => cases hmem
  | cons h _ ih =>
    rw [Outline.parts_append, List.mem_append] at hmem
    exact hmem.elim h.of_mem_parts ih

theorem Listing.of_mem_parts {scopes : List Scope} {node : Stmt} (h : Listing program capacity o)
    (hmem : (.stmt scopes node, c) ∈ o.parts) :
    ∃ ctx span s₁ s₂, Performed ctx (.stmt span node) s₁ c s₂ := by
  cases h with
  | mk _ _ hm hr _ _ =>
    simp only [Outline.parts_wrap, Outline.parts_append, Outline.parts_plain, List.nil_append,
      List.append_nil, List.mem_append, List.mem_cons, Prod.mk.injEq, reduceCtorEq, false_and,
      false_or] at hmem
    exact hmem.elim hm.of_mem_parts hr.of_mem_parts

theorem Routines.marks {specs : List RoutineSpec} (h : Routines program structs specs s o s')
    {spec : RoutineSpec} (hspec : spec ∈ specs) {node : Stmt} (hn : node ∈ spec.body.statements) :
    ∃ scopes c, (.stmt scopes node, c) ∈ o.parts := by
  induction h with
  | nil => cases hspec
  | cons h _ ih =>
    rcases List.mem_cons.1 hspec with rfl | hspec
    · cases h with
      | mk _ hb _ _ =>
        obtain ⟨scopes, c, hmem⟩ := hb.marks hn
        exact ⟨scopes, c, by simp [hmem]⟩
    · obtain ⟨scopes, c, hmem⟩ := ih hspec
      exact ⟨scopes, c, by simp [hmem]⟩

theorem Listing.marks (h : Listing program capacity o) (hfits : program.SizesFit) {node : Stmt}
    (hn : node ∈ program.statements) : ∃ scopes c, (.stmt scopes node, c) ∈ o.parts := by
  cases h with
  | @mk counter structs specs main routines printers s₁ s₂ s₃ hc hs hm hr hd hp =>
    have hroutine {spec : RoutineSpec} (hspec : Declared program structs spec)
        (hn : node ∈ spec.body.statements) : ∃ scopes c, (.stmt scopes node, c) ∈ routines.parts :=
      hr.marks ((hd spec).2 hspec) hn
    have hparts : (∃ scopes c, (.stmt scopes node, c) ∈ main.parts) ∨
        ∃ scopes c, (.stmt scopes node, c) ∈ routines.parts := by
      simp only [Program.statements, List.mem_append, List.mem_flatMap] at hn
      rcases hn with (hn | ⟨f, hf, hn⟩) | ⟨d, hd, hn | ⟨f, hf, hn⟩⟩
      · exact .inl (hm.marks hn)
      · obtain ⟨spec, hspec, -⟩ := (functionSpec_fits_iff f).2 (hfits.functions f hf)
        exact .inr (hroutine (.function hf hspec) (body_functionSpec hspec ▸ hn))
      · obtain ⟨l, hl⟩ := StructTable.ofProgram_get? hs hd
        exact .inr (hroutine (.initializer hd hl) hn)
      · obtain ⟨l, hl⟩ := StructTable.ofProgram_get? hs hd
        obtain ⟨spec, hspec, -⟩ := (methodSpec_fits_iff l.typeCode f).2 (hfits.methods d hd f hf)
        exact .inr (hroutine (.method hd hl hf hspec) (body_methodSpec hspec ▸ hn))
    rcases hparts with ⟨scopes, c, hmem⟩ | ⟨scopes, c, hmem⟩
    all_goals exact ⟨scopes, c, by simp [hmem]⟩

/-- A statement that mentions no heap type and is not left by a break or a return has code that does
not call the reference counter, wherever it stands; and if nothing in a program mentions a heap type,
then nothing but the reference counter itself calls its routines. -/
theorem scalar_code_is_neutral {code : Code} (h : generate program capacity = .ok code) :
    (∃ o, Listing program capacity o ∧ o.code = code) ∧
    (∀ o, Listing program capacity o → o.code = code →
      (∀ node ∈ program.statements, ∃ scopes c, (.stmt scopes node, c) ∈ o.parts) ∧
      ∀ scopes node c, (.stmt scopes node, c) ∈ o.parts → c <:+: code ∧
        (node.heapFree = true → node.stays = true → c.Neutral)) ∧
    (program.heapFree = true → ∃ counter structs before behind,
      RefCounter.ofCapacity? capacity = some counter ∧ StructTable.ofProgram program = .ok structs ∧
      code = before ++ counter.subroutines structs ++ behind ∧ before.Neutral ∧ behind.Neutral) := by
  obtain ⟨counter, structs, s', -, hs, hw⟩ := generate_ok h
  have hfits := wholeProgram_fits hs hw
  refine ⟨generate_listing h, fun o ho hcode => ⟨fun node hn => ho.marks hfits hn, ?_⟩,
    (generate_assembled h).neutral⟩
  intro scopes node c hmem
  refine ⟨hcode ▸ Outline.infix_of_mem_parts hmem, fun hf hs => ?_⟩
  obtain ⟨ctx, span, s₁, s₂, o', ho', rfl⟩ := ho.of_mem_parts hmem
  exact (ho'.silent hf (.inl hs)).neutral

/-- A loop over integers, which a break ends in its first turn if `leaves`. -/
def countdown (leaves : Bool) : Stmt :=
  let n : Binding := ⟨"n", .int, .belowFrame (-8)⟩
  .loop (.binary .less (.int 0) (.ident n)) ⟨⟨4, [⟨"k", .int, .belowFrame (-12)⟩]⟩,
    [⟨.update (.ident n) (.binary .sub (.ident n) (.int 1)), .none⟩,
      ⟨.print [.ident n] false true, .none⟩] ++ if leaves then [⟨.leave, .none⟩] else []⟩

/-- A function that runs the loop in a scope with a variable of the given type. -/
def counting (leaves : Bool) (ty : Ty) (value : Expr) : Program :=
  ⟨0, [], [⟨"f", [], .void, 12, ⟨⟨8, [⟨"x", ty, .belowFrame (-4)⟩, ⟨"n", .int, .belowFrame (-8)⟩]⟩,
    [⟨.declaration ⟨"x", ty, .belowFrame (-4)⟩ value, .none⟩, ⟨countdown leaves, .none⟩,
      ⟨.ret none, .none⟩]⟩, .none⟩], .empty⟩

/-- The loop is neutral also where a reference is released around it; with a break in it, where there
is none. -/
theorem scalar_code_is_neutral_counting :
    (∃ code, generate (counting false (.interval .int) (.interval (.int 1) (.int 2))) 4 = .ok code ∧
      ∀ o, Listing (counting false (.interval .int) (.interval (.int 1) (.int 2))) 4 o →
        o.code = code → ∃ scopes c, (.stmt scopes (countdown false), c) ∈ o.parts ∧ c.Neutral) ∧
    ∃ code, generate (counting true .int (.int 1)) 4 = .ok code ∧
      ∃ counter structs before behind, RefCounter.ofCapacity? 4 = some counter ∧
        StructTable.ofProgram (counting true .int (.int 1)) = .ok structs ∧
        code = before ++ counter.subroutines structs ++ behind ∧ before.Neutral ∧
        behind.Neutral := by
  constructor
  · have h : generate (counting false (.interval .int) (.interval (.int 1) (.int 2))) 4 = .ok _ := rfl
    refine ⟨_, h, fun o ho hcode => ?_⟩
    obtain ⟨hmarks, hneutral⟩ := (scalar_code_is_neutral h).2.1 o ho hcode
    obtain ⟨scopes, c, hmem⟩ := hmarks (countdown false)
      (by simp [counting, Program.statements, statementsOf, Block.statements])
    exact ⟨scopes, c, hmem, (hneutral scopes _ c hmem).2 rfl rfl⟩
  · have h : generate (counting true .int (.int 1)) 4 = .ok _ := rfl
    exact ⟨_, h, (scalar_code_is_neutral h).2.2 rfl⟩

end Generator
end IntervalStack
