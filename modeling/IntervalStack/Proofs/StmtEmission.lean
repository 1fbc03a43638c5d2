import IntervalStack.Proofs.ExprEmission

/-! The code of statements and blocks as a relation, in the manner of the one for expressions. -/

namespace IntervalStack.Generator
open Outline (plain wrap)
open Environment (printString)

namespace State

def opened (s : State) : State := { s with pushed := false }

def closed (s : State) (outer : Bool) : State := { s with pushed := outer }

def leaving (s : State) (pending : Bool) : State :=
  { s with exitPushed := s.exitPushed || pending }

@[simp] theorem labels_opened (s : State) : s.opened.labels = s.labels := rfl

@[simp] theorem pushed_opened (s : State) : s.opened.pushed = false := rfl

@[simp] theorem exitPushed_opened (s : State) : s.opened.exitPushed = s.exitPushed := rfl

@[simp] theorem labels_closed (s : State) (b : Bool) : (s.closed b).labels = s.labels := rfl

@[simp] theorem pushed_closed (s : State) (b : Bool) : (s.closed b).pushed = b := rfl

@[simp] theorem exitPushed_closed (s : State) (b : Bool) :
    (s.closed b).exitPushed = s.exitPushed := rfl

@[simp] theorem labels_leaving (s : State) (b : Bool) : (s.leaving b).labels = s.labels := rfl

@[simp] theorem pushed_leaving (s : State) (b : Bool) : (s.leaving b).pushed = s.pushed := rfl

@[simp] theorem exitPushed_leaving (s : State) (b : Bool) :
    (s.leaving b).exitPushed = (s.exitPushed || b) := rfl

end State

def Context.scopes (ctx : Context) : List Scope := (ctx.openScopes false).map (·.scope)

def Context.leftScopes (ctx : Context) (depth : Nat) (pushed : Bool) : List OpenScope :=
  (ctx.openScopes pushed).take ((ctx.openScopes pushed).length - depth)

namespace Context

theorem length_openScopes (ctx : Context) (pushed : Bool) :
    (ctx.openScopes pushed).length = ctx.depth := by
  unfold openScopes depth
  cases ctx.scope <;> simp

theorem openScopes_enter (ctx : Context) (scope : Scope) (before pushed : Bool) :
    (ctx.enter scope before).openScopes pushed = ⟨scope, pushed⟩ :: ctx.openScopes before := by
  unfold openScopes enter
  cases ctx.scope <;> rfl

theorem depth_enter (ctx : Context) (scope : Scope) (before : Bool) :
    (ctx.enter scope before).depth = ctx.depth + 1 := by
  rw [← length_openScopes _ false, openScopes_enter, List.length_cons, length_openScopes]

theorem leftScopes_enter {ctx : Context} {depth : Nat} (h : depth ≤ ctx.depth) (scope : Scope)
    (before pushed : Bool) :
    (ctx.enter scope before).leftScopes depth pushed
      = ⟨scope, pushed⟩ :: ctx.leftScopes depth before := by
  unfold leftScopes
  rw [length_openScopes, openScopes_enter, depth_enter, length_openScopes,
    show ctx.depth + 1 - depth = ctx.depth - depth + 1 by omega, List.take_succ_cons]

theorem map_openScopes (ctx : Context) (pushed : Bool) :
    (ctx.openScopes pushed).map (·.scope) = ctx.scopes := by
  unfold scopes openScopes
  cases ctx.scope <;> rfl

theorem scopes_enter (ctx : Context) (scope : Scope) (before : Bool) :
    (ctx.enter scope before).scopes = scope :: ctx.scopes := by
  rw [scopes, openScopes_enter, List.map_cons, map_openScopes]

theorem length_scopes (ctx : Context) : ctx.scopes.length = ctx.depth := by
  rw [scopes, List.length_map, length_openScopes]

end Context

def duePending (left : List OpenScope) : Bool :=
  left.any fun s => s.pushed || !s.scope.owned.isEmpty

def leftBindings (left : List OpenScope) : List Binding := left.flatMap (·.scope.owned)

def drainIf (b : Bool) : Code := if b then [RefCounter.drain] else []

def dropCode (ty : Ty) : Shape → Code
  | .void => []
  | .address => [.pop]
  | .value => if ty.isHeap then [RefCounter.push] else [.pop]

def releaseOld (ty : Ty) : Code :=
  if ty.isHeap then [.duplicate, .loadI, RefCounter.push] else []

def nameCode (l : StructLayout) : Code :=
  .pushD (Environment.structName l.typeCode) :: printString Environment.stringFormat

inductive Clears (selfSlot : Option Int32) : List Binding → Code → Prop
  | nil : Clears selfSlot [] []
  | cons {b bs c cs} (h : Frame.storageAddress? cells b.storage selfSlot = some c)
    (hs : Clears selfSlot bs cs) : Clears selfSlot (b :: bs) (c ++ [.pushI 0, .storeI] ++ cs)

inductive Releases (selfSlot : Option Int32) : List Binding → Outline → Prop
  | nil : Releases selfSlot [] .nil
  | cons {b bs c o} (h : Frame.storageAddress? cells b.storage selfSlot = some c)
    (hs : Releases selfSlot bs o) : Releases selfSlot (b :: bs)
      (wrap (.release b) (plain (c ++ [.loadI, RefCounter.push])) ++ o)

inductive Task
  | item (e : Expr)
  | spaced (space : Code) (es : List Expr)
  | stmt (span : Span) (s : Stmt)
  | stmts (ss : List LocatedStmt)
  | block (force : Bool) (b : Block)

def Task.isSimple : Task → Bool
  | .item _ | .spaced .. => true
  | .stmt _ (.declaration ..) | .stmt _ (.update ..) | .stmt _ (.print ..) | .stmt _ (.call _) => true
  | _ => false

inductive Performs : Context → Task → State → Outline → State → Prop
  | scalar {ctx e k a s s₁ s₂ o c} (hk : ScalarKind.of? e.ty = some k)
    (he : Emits ctx (.value e a) s o s₁) (hp : printScalar k s₁ = .ok (c, s₂)) :
    Performs ctx (.item e) s (o ++ plain c) s₂
  | freshInterval {ctx e sub k s s' o} (hty : e.ty = .interval sub)
    (hk : ScalarKind.of? e.ty.base = some k) (he : Emits ctx (.value e .value) s o s') :
    Performs ctx (.item e) s
      (wrap (.record e) o ++ plain [.duplicate, .call k.printer, RefCounter.push])
      ((s'.printing k).noting true)
  | storedInterval {ctx e sub k s s' o} (hty : e.ty = .interval sub)
    (hk : ScalarKind.of? e.ty.base = some k) (he : Emits ctx (.value e .address) s o s') :
    Performs ctx (.item e) s (wrap (.record e) o ++ plain [.call k.printer]) (s'.printing k)
  | printerMethod {ctx e id d method f l s s' o} (hty : e.ty = .struct id)
    (hd : ctx.program.struct? id = some d) (hp : d.printer = some method)
    (hf : d.method? method = some f) (hl : ctx.structs.get? id = some l) (hn : f.params = [])
    (he : Emits ctx (.owned e) s o s') :
    Performs ctx (.item e) s
      (o ++ plain ([.duplicate] ++ Frame.pushArgument cells .int
        ++ [.call (methodLabel l.typeCode method)] ++ Frame.fetchResult cells f.returnType
        ++ releaseReceiver f.returnType
        ++ dropCode f.returnType (resultShape f.returnType))) (s'.noting true)
  | structName {ctx e id d l shape s s' o} (hty : e.ty = .struct id)
    (hd : ctx.program.struct? id = some d) (hp : d.printer = none)
    (hl : ctx.structs.get? id = some l) (he : Emits ctx (.value e shape) s o s') :
    Performs ctx (.item e) s (o ++ plain (dropCode e.ty shape ++ nameCode l))
      (s'.noting (shape ≠ .address))
  | noItems {ctx space s} : Performs ctx (.spaced space []) s .nil s
  | items {ctx space e es s s₁ s₂ o₁ o₂} (he : Performs ctx (.item e) s o₁ s₁)
    (hs : Performs ctx (.spaced space es) s₁ o₂ s₂) :
    Performs ctx (.spaced space (e :: es)) s (plain space ++ o₁ ++ o₂) s₂
  | printNone {ctx span spaces newline s} :
    Performs ctx (.stmt span (.print [] spaces newline)) s
      (plain (if newline then printString Environment.newlineString else [])) s
  | print {ctx span e es spaces newline s s₁ s₂ o₁ o₂} (he : Performs ctx (.item e) s o₁ s₁)
    (hs : Performs ctx
      (.spaced (if spaces then printString Environment.spaceString else []) es) s₁ o₂ s₂) :
    Performs ctx (.stmt span (.print (e :: es) spaces newline)) s
      (o₁ ++ o₂ ++ plain (if newline then printString Environment.newlineString else [])) s₂
  | declaration {ctx span b e store c s s' o} (hs : Instr.store? b.ty = some store)
    (ha : Frame.storageAddress? cells b.storage ctx.selfSlot = some c)
    (he : Emits ctx (.owned e) s o s') :
    Performs ctx (.stmt span (.declaration b e)) s (plain c ++ o ++ plain [store]) s'
  | update {ctx span target e store s s₁ s₂ o₁ o₂} (hs : Instr.store? target.ty = some store)
    (he : Emits ctx (.owned e) s o₁ s₁) (ht : Emits ctx (.expr target .address) s₁ o₂ s₂) :
    Performs ctx (.stmt span (.update target e)) s
      (o₁ ++ o₂ ++ plain (releaseOld target.ty ++ [.exchange, store])) (s₂.noting target.ty.isHeap)
  | ifThen {ctx span cond yes a s s₁ s₂ o₁ o₂} (hc : Emits ctx (.value cond a) s.next o₁ s₁)
    (hy : Performs ctx (.block false yes) s₁ o₂ s₂) :
    Performs ctx (.stmt span (.ifElse cond yes none)) s
      (o₁ ++ plain [.jumpFalse (Labels.part (s.label "if") "end")] ++ o₂
        ++ plain [.label (Labels.part (s.label "if") "end")]) s₂
  | ifElse {ctx span cond yes no a s s₁ s₂ s₃ o₁ o₂ o₃}
    (hc : Emits ctx (.value cond a) s.next o₁ s₁) (hy : Performs ctx (.block false yes) s₁ o₂ s₂)
    (hn : Performs ctx (.block false no) s₂ o₃ s₃) :
    Performs ctx (.stmt span (.ifElse cond yes (some no))) s
      (o₁ ++ plain [.jumpFalse (Labels.part (s.label "if") "else")] ++ o₂
        ++ plain [.jump (Labels.part (s.label "if") "end"),
          .label (Labels.part (s.label "if") "else")] ++ o₃
        ++ plain [.label (Labels.part (s.label "if") "end")]) s₃
  | loop {ctx span cond body a s s₁ s₂ o₁ o₂}
    (hc : Emits ctx (.value cond a) s.next.opened o₁ s₁)
    (hb : Performs { ctx with loop := some ⟨Labels.part (s.label "while") "end", ctx.depth⟩ }
      (.block s₁.pushed body) (s₁.noting s.pushed) o₂ s₂) :
    Performs ctx (.stmt span (.loop cond body)) s
      (plain [.label (Labels.part (s.label "while") "test")] ++ o₁
        ++ plain [.jumpFalse (Labels.part (s.label "while") "end")] ++ o₂
        ++ plain [.jump (Labels.part (s.label "while") "test"),
          .label (Labels.part (s.label "while") "end")]) s₂
  | leave {ctx span loop s o} (hl : ctx.loop = some loop)
    (hr : Releases ctx.selfSlot (leftBindings (ctx.leftScopes loop.depth s.pushed)) o) :
    Performs ctx (.stmt span .leave) s
      (o ++ plain (drainIf (duePending (ctx.leftScopes loop.depth s.pushed))
        ++ [.jump loop.endLabel]))
      (s.noting !(leftBindings (ctx.leftScopes loop.depth s.pushed)).isEmpty)
  | retNone {ctx span routine s o} (hr : ctx.routine = some routine)
    (hv : routine.returnType = .void)
    (hs : Releases ctx.selfSlot (leftBindings (ctx.leftScopes 0 s.pushed)) o) :
    Performs ctx (.stmt span (.ret none)) s (o ++ plain [.jump routine.exitLabel])
      ((s.noting !(leftBindings (ctx.leftScopes 0 s.pushed)).isEmpty).leaving
        (duePending (ctx.leftScopes 0 s.pushed)))
  | ret {ctx span routine e s s₁ o₁ o₂} (hr : ctx.routine = some routine)
    (hv : routine.returnType ≠ .void) (he : Emits ctx (.owned e) s o₁ s₁)
    (hs : Releases ctx.selfSlot (leftBindings (ctx.leftScopes 0 s₁.pushed)) o₂) :
    Performs ctx (.stmt span (.ret (some e))) s (o₁ ++ o₂ ++ plain [.jump routine.exitLabel])
      ((s₁.noting !(leftBindings (ctx.leftScopes 0 s₁.pushed)).isEmpty).leaving
        (duePending (ctx.leftScopes 0 s₁.pushed)))
  | call {ctx span e shape s s' o} (he : Emits ctx (.expr e shape) s o s') :
    Performs ctx (.stmt span (.call e)) s (o ++ plain (dropCode e.ty shape))
      (s'.noting (shape = .value && e.ty.isHeap))
  | nested {ctx span b s s' o} (hb : Performs ctx (.block false b) s o s') :
    Performs ctx (.stmt span (.block b)) s o s'
  | noStmts {ctx s} : Performs ctx (.stmts []) s .nil s
  | stmts {ctx node span rest s s₁ s₂ o₁ o₂} (h : Performs ctx (.stmt span node) s o₁ s₁)
    (hs : Performs ctx (.stmts rest) s₁ o₂ s₂) :
    Performs ctx (.stmts (⟨node, span⟩ :: rest)) s (wrap (.stmt ctx.scopes node) o₁ ++ o₂) s₂
  | block {ctx force scope body s s₁ c o₁ o₂} (hc : Clears ctx.selfSlot scope.owned c)
    (hb : Performs (ctx.enter scope s.pushed) (.stmts body) s.opened o₁ s₁)
    (hr : Releases ctx.selfSlot scope.owned o₂) :
    Performs ctx (.block force ⟨scope, body⟩) s
      (plain c ++ o₁ ++ o₂ ++ plain (drainIf (s₁.pushed || !scope.owned.isEmpty || force)))
      (s₁.closed s.pushed)

theorem printScalar_ok {k : ScalarKind} {s s' : State} {c : Code}
    (h : printScalar k s = .ok (c, s')) :
    k = .bool ∧ s' = s.next ∧ c = printBoolCode (s.label "print-bool") ∨
    k = .char ∧ s' = s ∧ c = printString Environment.characterFormat ∨
    k = .int ∧ s' = s ∧ c = printString Environment.integerFormat ∨
    k = .float ∧ s' = s ∧ c = printString Environment.floatFormat := by
  cases k with
  | bool =>
    simp only [printScalar, bind_ok, fresh_ok, pure_ok] at h
    obtain ⟨_, _, ⟨rfl, rfl⟩, rfl, rfl⟩ := h
    exact .inl ⟨rfl, rfl, rfl⟩
  | char =>
    rw [printScalar, pure_ok] at h
    exact .inr (.inl ⟨rfl, h.2, h.1⟩)
  | int =>
    rw [printScalar, pure_ok] at h
    exact .inr (.inr (.inl ⟨rfl, h.2, h.1⟩))
  | float =>
    rw [printScalar, pure_ok] at h
    exact .inr (.inr (.inr ⟨rfl, h.2, h.1⟩))

theorem printScalar_grows {k : ScalarKind} {s s' : State} {c : Code}
    (h : printScalar k s = .ok (c, s')) : s.Grows s' := by
  rcases printScalar_ok h with ⟨-, rfl, -⟩ | ⟨-, rfl, -⟩ | ⟨-, rfl, -⟩ | ⟨-, rfl, -⟩
  · exact .next _
  all_goals exact .refl _

theorem Performs.pushed_block {ctx : Context} {force : Bool} {b : Block} {s s' : State}
    {o : Outline} (h : Performs ctx (.block force b) s o s') : s'.pushed = s.pushed := by
  cases h
  rfl

theorem Performs.grows {ctx : Context} {task : Task} {s s' : State} {o : Outline}
    (h : Performs ctx task s o s') : s.Grows s' := by
  induction h with
  | scalar _ he hp => exact he.grows.trans (printScalar_grows hp)
  | freshInterval _ _ he => exact he.grows.trans ((State.Grows.printing _ _).trans (.noting _ _))
  | storedInterval _ _ he => exact he.grows.trans (.printing _ _)
  | printerMethod _ _ _ _ _ _ he | structName _ _ _ _ he | call he =>
    exact he.grows.trans (.noting _ _)
  | noItems | printNone | noStmts => exact .refl _
  | items _ _ ih₁ ih₂ | print _ _ ih₁ ih₂ | stmts _ _ ih₁ ih₂ => exact ih₁.trans ih₂
  | declaration _ _ he => exact he.grows
  | update _ he ht => exact he.grows.trans (ht.grows.trans (.noting _ _))
  | ifThen hc _ ih => exact (State.Grows.next _).trans (hc.grows.trans ih)
  | ifElse hc _ _ ih₁ ih₂ => exact (State.Grows.next _).trans (hc.grows.trans (ih₁.trans ih₂))
  | loop hc _ ih =>
    refine ⟨?_, fun h => ih.pushed (by simp [h]), fun h => ih.exitPushed (hc.grows.exitPushed h)⟩
    exact Nat.le_trans (Nat.le_succ _) (Nat.le_trans hc.grows.count ih.count)
  | leave => exact .noting _ _
  | retNone => exact ⟨Nat.le_refl _, fun h => by simp [h], fun h => by simp [h]⟩
  | ret _ _ he =>
    exact he.grows.trans ⟨Nat.le_refl _, fun h => by simp [h], fun h => by simp [h]⟩
  | nested _ ih => exact ih
  | block _ _ _ ih => exact ⟨ih.count, id, ih.exitPushed⟩

def Performed (ctx : Context) (task : Task) (s : State) (c : Code) (s' : State) : Prop :=
  ∃ o, Performs ctx task s o s' ∧ o.code = c

variable {ctx : Context} {s s' : State} {c : Code}

theorem clearReferences_clears {span : Span} {bs : List Binding}
    (h : clearReferences ctx span bs s = .ok (c, s')) : Clears ctx.selfSlot bs c ∧ s' = s := by
  induction bs generalizing c with
  | nil =>
    rw [clearReferences, pure_ok] at h
    obtain ⟨rfl, rfl⟩ := h
    exact ⟨.nil, rfl⟩
  | cons b bs ih =>
    simp only [clearReferences, bind_ok, bindingAddress_ok, pure_ok] at h
    obtain ⟨a, _, ⟨ha, rfl⟩, rest, s₁, hr, rfl, rfl⟩ := h
    obtain ⟨hc, rfl⟩ := ih hr
    exact ⟨.cons ha hc, rfl⟩

theorem releaseBindings_releases {span : Span} {bs : List Binding}
    (h : releaseBindings ctx span bs s = .ok (c, s')) :
    (∃ o, Releases ctx.selfSlot bs o ∧ o.code = c) ∧ s' = s.noting !bs.isEmpty := by
  induction bs generalizing c s with
  | nil =>
    rw [releaseBindings, pure_ok] at h
    obtain ⟨rfl, rfl⟩ := h
    exact ⟨⟨_, .nil, rfl⟩, by simp⟩
  | cons b bs ih =>
    simp only [releaseBindings, bind_ok, bindingAddress_ok, notePush_ok, pure_ok] at h
    obtain ⟨a, _, ⟨ha, rfl⟩, _, _, rfl, rest, s₁, hr, rfl, rfl⟩ := h
    obtain ⟨⟨o, ho, rfl⟩, rfl⟩ := ih hr
    exact ⟨⟨_, .cons ha ho, by simp⟩, by simp [State.noting_noting]⟩

theorem Releases.append {selfSlot : Option Int32} {bs bs' : List Binding} {o o' : Outline}
    (h : Releases selfSlot bs o) (h' : Releases selfSlot bs' o') :
    Releases selfSlot (bs ++ bs') (o ++ o') := by
  induction h with
  | nil => exact h'
  | cons ha _ ih =>
    rw [List.cons_append, Outline.append_assoc]
    exact .cons ha ih

theorem releaseScopes_releases {span : Span} {left : List OpenScope}
    (h : releaseScopes ctx span left s = .ok (c, s')) :
    (∃ o, Releases ctx.selfSlot (leftBindings left) o ∧ o.code = c) ∧
      s' = s.noting !(leftBindings left).isEmpty := by
  induction left generalizing c s with
  | nil =>
    rw [releaseScopes, pure_ok] at h
    obtain ⟨rfl, rfl⟩ := h
    exact ⟨⟨_, .nil, rfl⟩, by simp [leftBindings]⟩
  | cons open' left ih =>
    simp only [releaseScopes, bind_ok, pure_ok] at h
    obtain ⟨c₁, s₁, h₁, c₂, s₂, h₂, rfl, rfl⟩ := h
    obtain ⟨⟨o₁, ho₁, rfl⟩, rfl⟩ := releaseBindings_releases h₁
    obtain ⟨⟨o₂, ho₂, rfl⟩, rfl⟩ := ih h₂
    refine ⟨⟨_, ho₁.append ho₂, by simp⟩, ?_⟩
    rw [State.noting_noting]
    cases hb : open'.scope.owned with
    | nil => simp [leftBindings, hb]
    | cons b bs => simp [leftBindings, hb]

theorem releaseDownTo_releases {depth : Nat} {span : Span} {pending : Bool}
    (h : releaseDownTo ctx depth span s = .ok ((c, pending), s')) :
    (∃ o, Releases ctx.selfSlot (leftBindings (ctx.leftScopes depth s.pushed)) o ∧ o.code = c) ∧
      pending = duePending (ctx.leftScopes depth s.pushed) ∧
      s' = s.noting !(leftBindings (ctx.leftScopes depth s.pushed)).isEmpty := by
  simp only [releaseDownTo, bind_ok, get_ok, pure_ok, Prod.mk.injEq] at h
  obtain ⟨_, _, ⟨rfl, rfl⟩, c', s₁, hr, ⟨rfl, rfl⟩, rfl⟩ := h
  obtain ⟨ho, rfl⟩ := releaseScopes_releases hr
  exact ⟨ho, rfl, rfl⟩

theorem isFresh_eq (f : Fragment) {ty : Ty} (h : ty.isHeap) :
    isFresh f ty = decide (f.shape ≠ .address) := by
  simp [isFresh, h, Fragment.isAddress]

theorem shape_of_valueOf {e : Expr} {f : Fragment} (h : valueOf e f s = .ok (c, s')) :
    f.shape = .value ∨ f.shape = .address := (valueOf_ok h).2.imp And.left And.left

theorem discard_drops {f : Fragment} {ty : Ty} (h : discard f ty s = .ok (c, s')) :
    c = f.code ++ dropCode ty f.shape ∧ s' = s.noting (f.shape = .value && ty.isHeap) := by
  unfold discard at h
  cases hs : f.shape with
  | void =>
    simp only [hs, pure_ok] at h
    simpa [dropCode] using h
  | address =>
    simp only [hs, pure_ok] at h
    simpa [dropCode] using h
  | value =>
    simp only [hs] at h
    cases ht : ty.isHeap with
    | true =>
      simp only [ht, if_true, bind_ok, notePush_ok, pure_ok] at h
      obtain ⟨_, _, rfl, rfl, rfl⟩ := h
      simp [dropCode, ht]
    | false =>
      simp only [ht, Bool.false_eq_true, if_false, pure_ok] at h
      simpa [dropCode, ht] using h

theorem printStruct_performed {e : Expr} {id : StructId} {f : Fragment} {s₀ : State} {c' : Code}
    {span : Span} (hty : e.ty = .struct id) (he : Outlined ctx (.expr e f.shape) s₀ f.code s)
    (hv : valueOf e f s = .ok (c', s))
    (h : printStruct ctx c' (isFresh f e.ty) id span s = .ok (c, s')) :
    Performed ctx (.item e) s₀ c s' := by
  have hheap : e.ty.isHeap = true := by rw [hty]; rfl
  obtain ⟨-, o, ho, rfl⟩ := he.value hv
  simp only [printStruct, bind_ok, structOf_ok] at h
  obtain ⟨d, _, ⟨hd, rfl⟩, h⟩ := h
  cases hp : d.printer with
  | some method =>
    simp only [hp, bind_ok, checkArity_ok] at h
    obtain ⟨⟨callee, typeCode⟩, _, hm, _, _, ⟨hn, rfl⟩, r, s₁, hc, h⟩ := h
    obtain ⟨id', d', l, hid, hd', hf, hl, rfl, rfl⟩ := methodOf_ok hm
    obtain rfl := Ty.struct.inj hid
    obtain rfl : d = d' := Option.some.inj (hd.symm.trans hd')
    simp only [methodCode, bind_ok, notePush_ok, pure_ok] at hc
    obtain ⟨_, _, rfl, rfl, rfl⟩ := hc
    obtain ⟨rfl, rfl⟩ := discard_drops h
    simp only [hf, Option.map_some, Option.getD_some, (resultFragment_shape _ _).1,
      (resultFragment_shape _ _).2, State.noting_noting, Bool.true_or]
    have hparams : callee.params = [] := List.length_eq_zero_iff.1 hn.symm
    by_cases hsh : f.shape = .address
    · rw [hsh] at ho
      exact ⟨_, .printerMethod hty hd hp hf hl hparams (.counted hheap ho),
        by simp [isFresh_eq f hheap, hsh, releaseReceiver]⟩
    · exact ⟨_, .printerMethod hty hd hp hf hl hparams (.moved (by simp [hsh]) ho),
        by simp [isFresh_eq f hheap, hsh, releaseReceiver]⟩
  | none =>
    simp only [hp, bind_ok, layoutOf_ok] at h
    obtain ⟨l, _, ⟨hl, rfl⟩, h⟩ := h
    rcases shape_of_valueOf hv with hsh | hsh
    · simp only [isFresh_eq f hheap, hsh, ne_eq, reduceCtorEq, not_false_eq_true, decide_true,
        if_true, bind_ok, notePush_ok, pure_ok] at h
      obtain ⟨_, _, rfl, rfl, rfl⟩ := h
      rw [hsh] at ho
      exact ⟨_, .structName hty hd hp hl ho, by simp [dropCode, hheap, nameCode]⟩
    · simp only [isFresh_eq f hheap, hsh, ne_eq, not_true_eq_false, decide_false,
        Bool.false_eq_true, if_false, pure_ok] at h
      obtain ⟨rfl, rfl⟩ := h
      rw [hsh] at ho
      have hi := Performs.structName hty hd hp hl ho
      simp only [ne_eq, not_true_eq_false, decide_false, State.noting_false] at hi
      exact ⟨_, hi, by simp [dropCode, nameCode]⟩

theorem printInterval_performed {e : Expr} {sub : Ty} {k : ScalarKind} {f : Fragment}
    {s₀ : State} {c' : Code} (hty : e.ty = .interval sub) (hk : ScalarKind.of? e.ty.base = some k)
    (he : Outlined ctx (.expr e f.shape) s₀ f.code s) (hv : valueOf e f s = .ok (c', s))
    (h : printInterval c' (isFresh f e.ty) k s = .ok (c, s')) :
    Performed ctx (.item e) s₀ c s' := by
  have hheap : e.ty.isHeap = true := by rw [hty]; rfl
  obtain ⟨-, o, ho, rfl⟩ := he.value hv
  simp only [printInterval, bind_ok, notePrinter_ok] at h
  obtain ⟨_, _, rfl, h⟩ := h
  rcases shape_of_valueOf hv with hsh | hsh
  · rw [hsh] at ho
    simp only [isFresh_eq f hheap, hsh, ne_eq, reduceCtorEq, not_false_eq_true, decide_true,
      if_true, bind_ok, notePush_ok, pure_ok] at h
    obtain ⟨_, _, rfl, rfl, rfl⟩ := h
    exact ⟨_, .freshInterval hty hk ho, by simp⟩
  · rw [hsh] at ho
    simp only [isFresh_eq f hheap, hsh, ne_eq, not_true_eq_false, decide_false,
      Bool.false_eq_true, if_false, pure_ok] at h
    obtain ⟨rfl, rfl⟩ := h
    exact ⟨_, .storedInterval hty hk ho, by simp⟩

theorem printItem_performed {e : Expr} (h : printItem ctx e s = .ok (c, s')) :
    Performed ctx (.item e) s c s' := by
  unfold printItem at h
  cases hk : ScalarKind.of? e.ty with
  | some k =>
    simp only [hk, bind_ok, pure_ok] at h
    obtain ⟨f, s₁, he, c₁, _, hv, c₂, s₂, hp, rfl, rfl⟩ := h
    obtain ⟨rfl, o, ho, rfl⟩ := (expr_outlined ctx e he).value hv
    exact ⟨_, .scalar hk ho hp, by simp⟩
  | none =>
    simp only [hk, bind_ok] at h
    obtain ⟨f, s₁, he, c', _, hv, h⟩ := h
    have ho := expr_outlined ctx e he
    obtain ⟨rfl, -⟩ := ho.value hv
    cases hty : e.ty with
    | interval sub =>
      simp only [hty] at h
      cases hb : ScalarKind.of? (Ty.interval sub).base with
      | none => simp [hb] at h
      | some k =>
        simp only [hb] at h
        exact printInterval_performed hty (by rw [hty, hb]) ho hv (by rw [hty]; exact h)
    | struct id =>
      simp only [hty] at h
      exact printStruct_performed hty ho hv (by rw [hty]; exact h)
    | _ => simp [hty] at h

theorem printSpaced_performed {space : Code} {es : List Expr}
    (h : printSpaced ctx space es s = .ok (c, s')) : Performed ctx (.spaced space es) s c s' := by
  induction es generalizing s c with
  | nil =>
    rw [printSpaced, pure_ok] at h
    obtain ⟨rfl, rfl⟩ := h
    exact ⟨_, .noItems, rfl⟩
  | cons e es ih =>
    simp only [printSpaced, bind_ok, pure_ok] at h
    obtain ⟨c₁, s₁, h₁, c₂, s₂, h₂, rfl, rfl⟩ := h
    obtain ⟨o₁, ho₁, rfl⟩ := printItem_performed h₁
    obtain ⟨o₂, ho₂, rfl⟩ := ih h₂
    exact ⟨_, .items ho₁ ho₂, by simp⟩

theorem print_performed {items : List Expr} {spaces newline : Bool} {span : Span}
    (h : print ctx items spaces newline s = .ok (c, s')) :
    Performed ctx (.stmt span (.print items spaces newline)) s c s' := by
  cases items with
  | nil =>
    simp only [print, printItems, bind_ok, pure_ok] at h
    obtain ⟨_, _, ⟨rfl, rfl⟩, rfl, rfl⟩ := h
    exact ⟨_, .printNone, by simp⟩
  | cons e es =>
    simp only [print, printItems, bind_ok, pure_ok] at h
    obtain ⟨_, _, ⟨c₁, s₁, h₁, c₂, s₂, h₂, rfl, rfl⟩, rfl, rfl⟩ := h
    obtain ⟨o₁, ho₁, rfl⟩ := printItem_performed h₁
    obtain ⟨o₂, ho₂, rfl⟩ := printSpaced_performed h₂
    exact ⟨_, .print ho₁ ho₂, by simp⟩

theorem declare_performed {b : Binding} {e : Expr} {span : Span}
    (h : declare ctx b e span s = .ok (c, s')) :
    Performed ctx (.stmt span (.declaration b e)) s c s' := by
  simp only [declare, bind_ok, shaped_ok, storeOf_ok, bindingAddress_ok, pure_ok] at h
  obtain ⟨store, _, ⟨hs, rfl⟩, a, _, ⟨ha, rfl⟩, f, s₁, he, c₁, _, hv, rfl, rfl⟩ := h
  obtain ⟨rfl, o, ho, rfl⟩ := (expr_outlined ctx e he).owned hv
  exact ⟨_, .declaration hs ha ho, by simp⟩

theorem update_performed {target e : Expr} {span : Span}
    (h : update ctx target e span s = .ok (c, s')) :
    Performed ctx (.stmt span (.update target e)) s c s' := by
  simp only [update, bind_ok, shaped_ok, storeOf_ok, require_ok] at h
  obtain ⟨store, _, ⟨hs, rfl⟩, f, s₁, he, c₁, _, hv, ft, s₂, ht, _, _, ⟨-, rfl⟩, place, _,
    ⟨hp, rfl⟩, h⟩ := h
  obtain ⟨rfl, o₁, ho₁, rfl⟩ := (expr_outlined ctx e he).owned hv
  obtain ⟨o₂, ho₂, hc₂⟩ := expr_outlined ctx target ht
  unfold Fragment.toAddress at hp
  split at hp
  · next hsh =>
    obtain rfl := Except.ok.inj hp
    rw [hsh] at ho₂
    have hu : Performs ctx (.stmt span (.update target e)) _ _ _ := .update hs ho₁ ho₂
    cases hh : target.ty.isHeap with
    | true =>
      simp only [hh, if_true, bind_ok, notePush_ok, pure_ok] at h
      obtain ⟨_, _, rfl, rfl, rfl⟩ := h
      exact ⟨_, hh ▸ hu, by simp [hc₂, releaseOld, hh]⟩
    | false =>
      simp only [hh, Bool.false_eq_true, if_false, pure_ok] at h
      obtain ⟨rfl, rfl⟩ := h
      rw [hh, State.noting_false] at hu
      exact ⟨_, hu, by simp [hc₂, releaseOld, hh]⟩
  · cases hp

theorem leaveLoop_performed {span : Span} (h : leaveLoop ctx span s = .ok (c, s')) :
    Performed ctx (.stmt span .leave) s c s' := by
  unfold leaveLoop at h
  cases hl : ctx.loop with
  | none => simp [hl] at h
  | some loop =>
    simp only [hl, bind_ok, pure_ok] at h
    obtain ⟨⟨release, pending⟩, s₁, hr, rfl, rfl⟩ := h
    obtain ⟨⟨o, ho, rfl⟩, rfl, rfl⟩ := releaseDownTo_releases hr
    exact ⟨_, .leave hl ho, by simp [drainIf]⟩

theorem leaveRoutine_performed {value : Option Expr} {span : Span}
    (h : leaveRoutine ctx value span s = .ok (c, s')) :
    Performed ctx (.stmt span (.ret value)) s c s' := by
  unfold leaveRoutine at h
  cases hr : ctx.routine with
  | none => simp [hr] at h
  | some routine =>
    simp only [hr, bind_ok, modify_ok, pure_ok] at h
    obtain ⟨c₁, s₁, hv, ⟨release, pending⟩, s₂, hd, _, _, rfl, rfl, rfl⟩ := h
    obtain ⟨⟨o, ho, rfl⟩, rfl, rfl⟩ := releaseDownTo_releases hd
    unfold returnValue at hv
    by_cases hty : routine.returnType = .void
    · cases value with
      | some e => simp [hty] at hv
      | none =>
        simp only [hty, if_true, pure_ok] at hv
        obtain ⟨rfl, rfl⟩ := hv
        exact ⟨_, .retNone hr hty ho, by simp⟩
    · cases value with
      | none => simp [hty] at hv
      | some e =>
        simp only [hty, if_false, bind_ok] at hv
        obtain ⟨f, s₀, he, hv⟩ := hv
        obtain ⟨rfl, o₁, ho₁, rfl⟩ := (expr_outlined ctx e he).owned hv
        exact ⟨_, .ret hr hty ho₁ ho, by simp⟩

theorem loopCondition_outlined {cond : Expr} {pushed : Bool}
    (h : loopCondition ctx cond s = .ok ((c, pushed), s')) :
    ∃ a s₁, Outlined ctx (.value cond a) s.opened c s₁ ∧ pushed = s₁.pushed ∧
      s' = s₁.noting s.pushed := by
  simp only [loopCondition, bind_ok, get_ok, modify_ok, pure_ok, Prod.mk.injEq] at h
  obtain ⟨_, _, ⟨rfl, rfl⟩, _, _, rfl, f, s₁, he, code, _, hv, _, _, ⟨rfl, rfl⟩, _, _, rfl,
    ⟨rfl, rfl⟩, rfl⟩ := h
  obtain ⟨rfl, ho⟩ := (expr_outlined ctx cond he).value hv
  exact ⟨f.shape, _, ho, rfl, rfl⟩

mutual

theorem block_performed (ctx : Context) (force : Bool) : (b : Block) → {s s' : State} →
    {c : Code} → block ctx force b s = .ok (c, s') → Performed ctx (.block force b) s c s'
  | ⟨scope, body⟩, s, s', c, h => by
    simp only [block, bind_ok, get_ok, modify_ok, pure_ok] at h
    obtain ⟨clear, _, hc, _, _, ⟨rfl, rfl⟩, _, _, rfl, code, s₁, hb, release, s₂, hr, _, _,
      ⟨rfl, rfl⟩, _, _, rfl, rfl, rfl⟩ := h
    obtain ⟨hclear, rfl⟩ := clearReferences_clears hc
    obtain ⟨o₁, ho₁, rfl⟩ := stmts_performed _ body hb
    obtain ⟨⟨o₂, ho₂, rfl⟩, rfl⟩ := releaseBindings_releases hr
    have hp : Performs ctx (.block force ⟨scope, body⟩) _ _ _ := .block hclear ho₁ ho₂
    exact ⟨_, hp, by simp [drainIf]⟩

theorem stmts_performed (ctx : Context) : (ss : List LocatedStmt) → {s s' : State} →
    {c : Code} → stmts ctx ss s = .ok (c, s') → Performed ctx (.stmts ss) s c s'
  | [], s, s', c, h => by
    rw [stmts, pure_ok] at h
    obtain ⟨rfl, rfl⟩ := h
    exact ⟨_, .noStmts, rfl⟩
  | ⟨node, span⟩ :: rest, s, s', c, h => by
    simp only [stmts, locatedStmt, bind_ok, pure_ok] at h
    obtain ⟨c₁, s₁, h₁, c₂, s₂, h₂, rfl, rfl⟩ := h
    obtain ⟨o₁, ho₁, rfl⟩ := stmt_performed ctx span node h₁
    obtain ⟨o₂, ho₂, rfl⟩ := stmts_performed ctx rest h₂
    exact ⟨_, .stmts ho₁ ho₂, by simp⟩

theorem stmt_performed (ctx : Context) (span : Span) : (node : Stmt) → {s s' : State} →
    {c : Code} → stmt ctx span node s = .ok (c, s') → Performed ctx (.stmt span node) s c s'
  | .declaration target e, s, s', c, h => declare_performed (by rwa [stmt] at h)
  | .update target e, s, s', c, h => update_performed (by rwa [stmt] at h)
  | .print items spaces newline, s, s', c, h => print_performed (by rwa [stmt] at h)
  | .ifElse cond yes none, s, s', c, h => by
    simp only [stmt, bind_ok, fresh_ok, pure_ok] at h
    obtain ⟨_, _, ⟨rfl, rfl⟩, f, s₁, he, c₁, _, hv, c₂, s₂, hy, rfl, rfl⟩ := h
    obtain ⟨rfl, o₁, ho₁, rfl⟩ := (expr_outlined ctx cond he).value hv
    obtain ⟨o₂, ho₂, rfl⟩ := block_performed ctx false yes hy
    exact ⟨_, .ifThen ho₁ ho₂, by simp⟩
  | .ifElse cond yes (some no), s, s', c, h => by
    simp only [stmt, bind_ok, fresh_ok, pure_ok] at h
    obtain ⟨_, _, ⟨rfl, rfl⟩, f, s₁, he, c₁, _, hv, c₂, s₂, hy, c₃, s₃, hn, rfl, rfl⟩ := h
    obtain ⟨rfl, o₁, ho₁, rfl⟩ := (expr_outlined ctx cond he).value hv
    obtain ⟨o₂, ho₂, rfl⟩ := block_performed ctx false yes hy
    obtain ⟨o₃, ho₃, rfl⟩ := block_performed ctx false no hn
    exact ⟨_, .ifElse ho₁ ho₂ ho₃, by simp⟩
  | .loop cond body, s, s', c, h => by
    simp only [stmt, bind_ok, fresh_ok, pure_ok] at h
    obtain ⟨_, _, ⟨rfl, rfl⟩, ⟨c₁, pushed⟩, s₁, hc, c₂, s₂, hb, rfl, rfl⟩ := h
    obtain ⟨a, s₃, ⟨o₁, ho₁, rfl⟩, rfl, rfl⟩ := loopCondition_outlined hc
    obtain ⟨o₂, ho₂, rfl⟩ := block_performed _ _ body hb
    exact ⟨_, .loop ho₁ ho₂, by simp⟩
  | .leave, s, s', c, h => leaveLoop_performed (by rwa [stmt] at h)
  | .ret value, s, s', c, h => leaveRoutine_performed (by rwa [stmt] at h)
  | .call e, s, s', c, h => by
    simp only [stmt, bind_ok] at h
    obtain ⟨f, s₁, he, hd⟩ := h
    obtain ⟨o, ho, hc⟩ := expr_outlined ctx e he
    obtain ⟨rfl, rfl⟩ := discard_drops hd
    exact ⟨_, .call ho, by simp [hc]⟩
  | .block b, s, s', c, h => by
    rw [stmt] at h
    obtain ⟨o, ho, hc⟩ := block_performed ctx false b h
    exact ⟨o, .nested ho, hc⟩

end

end IntervalStack.Generator
