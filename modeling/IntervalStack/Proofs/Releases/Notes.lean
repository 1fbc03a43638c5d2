import IntervalStack.Proofs.ProgramEmission

/-! Listings with notes about the references that scopes hold. A scope takes charge of its references
where its code starts, and lets go of them one by one: at its end, or where a break or a return
leaves it. The notes say which instructions do so, and for which scope. -/

namespace IntervalStack

structure Debt where
  scope : Nat
  index : Nat
deriving DecidableEq

structure Holder where
  start : Nat
  refs : List Binding

namespace Holder

def owed (w : Holder) : List (Debt × Binding) :=
  w.refs.zipIdx.map fun r => (⟨w.start, r.2⟩, r.1)

def debts (w : Holder) : List Debt := w.owed.map (·.1)

end Holder

def owed (ws : List Holder) : List (Debt × Binding) := ws.flatMap Holder.owed

structure Extent extends Holder where
  stop : Nat

def Extent.Covers (w : Extent) (i : Nat) : Prop := w.start ≤ i ∧ i < w.stop

structure Noted where
  instr : Instr
  opens : List Debt
  releases : Option Debt

namespace Noted

def code (m : List Noted) : Code := m.map (·.instr)

def quiet (c : Code) : List Noted := c.map (⟨·, [], none⟩)

def opening (ds : List Debt) : Code → List Noted
  | [] => []
  | i :: c => ⟨i, ds, none⟩ :: quiet c

@[simp] theorem code_cons (n : Noted) (m : List Noted) : code (n :: m) = n.instr :: code m := rfl

@[simp] theorem code_append (m m' : List Noted) : code (m ++ m') = code m ++ code m' :=
  List.map_append

@[simp] theorem code_quiet (c : Code) : code (quiet c) = c := by
  simp [code, quiet, Function.comp_def]

@[simp] theorem code_opening (ds : List Debt) (c : Code) : code (opening ds c) = c := by
  cases c with
  | nil => rfl
  | cons i c => exact congrArg (i :: ·) (code_quiet c)

@[simp] theorem length_code (m : List Noted) : (code m).length = m.length := List.length_map _

@[simp] theorem length_quiet (c : Code) : (quiet c).length = c.length := List.length_map _

@[simp] theorem length_opening (ds : List Debt) (c : Code) : (opening ds c).length = c.length := by
  rw [← length_code, code_opening]

end Noted

namespace Generator
open Noted (quiet opening)

inductive LetsGo (selfSlot : Option Int32) : List (Debt × Binding) → List Noted → Prop
  | nil : LetsGo selfSlot [] []
  | cons {d b rest c m} (h : Frame.storageAddress? cells b.storage selfSlot = some c)
    (hs : LetsGo selfSlot rest m) :
    LetsGo selfSlot ((d, b) :: rest)
      (quiet (c ++ [.loadI]) ++ [⟨RefCounter.push, [], some d⟩] ++ m)

/-- The code of a task that starts at `pos` in scopes `ws`, the innermost first, with notes, and the
extents of the blocks in it, those of inner blocks first. -/
inductive Notes : Context → List Holder → Nat → Task → State → List Noted → List Extent → State → Prop
  | simple {ctx ws pos span node s o s'} (hn : (Task.stmt span node).isSimple = true)
    (h : Performs ctx (.stmt span node) s o s') :
    Notes ctx ws pos (.stmt span node) s (quiet o.code) [] s'
  | ifThen {ctx ws pos span cond yes a s s₁ s₂ o m bs}
    (hc : Emits ctx (.value cond a) s.next o s₁)
    (hy : Notes ctx ws (pos + o.code.length + 1) (.block false yes) s₁ m bs s₂) :
    Notes ctx ws pos (.stmt span (.ifElse cond yes none)) s
      (quiet (o.code ++ [.jumpFalse (Labels.part (s.label "if") "end")]) ++ m
        ++ quiet [.label (Labels.part (s.label "if") "end")]) bs s₂
  | ifElse {ctx ws pos span cond yes no a s s₁ s₂ s₃ o m m' bs bs'}
    (hc : Emits ctx (.value cond a) s.next o s₁)
    (hy : Notes ctx ws (pos + o.code.length + 1) (.block false yes) s₁ m bs s₂)
    (hn : Notes ctx ws (pos + o.code.length + 1 + m.length + 2) (.block false no) s₂ m' bs' s₃) :
    Notes ctx ws pos (.stmt span (.ifElse cond yes (some no))) s
      (quiet (o.code ++ [.jumpFalse (Labels.part (s.label "if") "else")]) ++ m
        ++ quiet [.jump (Labels.part (s.label "if") "end"),
          .label (Labels.part (s.label "if") "else")] ++ m'
        ++ quiet [.label (Labels.part (s.label "if") "end")]) (bs ++ bs') s₃
  | loop {ctx ws pos span cond body a s s₁ s₂ o m bs}
    (hc : Emits ctx (.value cond a) s.next.opened o s₁)
    (hb : Notes { ctx with loop := some ⟨Labels.part (s.label "while") "end", ctx.depth⟩ } ws
      (pos + o.code.length + 2) (.block s₁.pushed body) (s₁.noting s.pushed) m bs s₂) :
    Notes ctx ws pos (.stmt span (.loop cond body)) s
      (quiet (.label (Labels.part (s.label "while") "test") :: o.code
          ++ [.jumpFalse (Labels.part (s.label "while") "end")]) ++ m
        ++ quiet [.jump (Labels.part (s.label "while") "test"),
          .label (Labels.part (s.label "while") "end")]) bs s₂
  | leave {ctx ws pos span loop s m} (hl : ctx.loop = some loop)
    (hr : LetsGo ctx.selfSlot (owed (ws.take (ws.length - loop.depth))) m) :
    Notes ctx ws pos (.stmt span .leave) s
      (m ++ quiet (drainIf (duePending (ctx.leftScopes loop.depth s.pushed))
        ++ [.jump loop.endLabel])) []
      (s.noting !(leftBindings (ctx.leftScopes loop.depth s.pushed)).isEmpty)
  | retNone {ctx ws pos span routine s m} (hr : ctx.routine = some routine)
    (hv : routine.returnType = .void) (hs : LetsGo ctx.selfSlot (owed ws) m) :
    Notes ctx ws pos (.stmt span (.ret none)) s (m ++ quiet [.jump routine.exitLabel]) []
      ((s.noting !(leftBindings (ctx.leftScopes 0 s.pushed)).isEmpty).leaving
        (duePending (ctx.leftScopes 0 s.pushed)))
  | ret {ctx ws pos span routine e s s₁ o m} (hr : ctx.routine = some routine)
    (hv : routine.returnType ≠ .void) (he : Emits ctx (.owned e) s o s₁)
    (hs : LetsGo ctx.selfSlot (owed ws) m) :
    Notes ctx ws pos (.stmt span (.ret (some e))) s
      (quiet o.code ++ m ++ quiet [.jump routine.exitLabel]) []
      ((s₁.noting !(leftBindings (ctx.leftScopes 0 s₁.pushed)).isEmpty).leaving
        (duePending (ctx.leftScopes 0 s₁.pushed)))
  | nested {ctx ws pos span b s m bs s'} (hb : Notes ctx ws pos (.block false b) s m bs s') :
    Notes ctx ws pos (.stmt span (.block b)) s m bs s'
  | noStmts {ctx ws pos s} : Notes ctx ws pos (.stmts []) s [] [] s
  | stmts {ctx ws pos node span rest s s₁ s₂ m m' bs bs'}
    (h : Notes ctx ws pos (.stmt span node) s m bs s₁)
    (hs : Notes ctx ws (pos + m.length) (.stmts rest) s₁ m' bs' s₂) :
    Notes ctx ws pos (.stmts (⟨node, span⟩ :: rest)) s (m ++ m') (bs ++ bs') s₂
  | block {ctx ws pos force scope body s s₁ c m m' bs} (hc : Clears ctx.selfSlot scope.owned c)
    (hb : Notes (ctx.enter scope s.pushed) (⟨pos, scope.owned⟩ :: ws) (pos + c.length)
      (.stmts body) s.opened m bs s₁)
    (hr : LetsGo ctx.selfSlot (Holder.owed ⟨pos, scope.owned⟩) m') :
    Notes ctx ws pos (.block force ⟨scope, body⟩) s
      (opening (Holder.debts ⟨pos, scope.owned⟩) c ++ m ++ m'
        ++ quiet (drainIf (s₁.pushed || !scope.owned.isEmpty || force)))
      (bs ++ [⟨⟨pos, scope.owned⟩, pos + c.length + m.length + m'.length
        + (drainIf (s₁.pushed || !scope.owned.isEmpty || force)).length⟩]) (s₁.closed s.pushed)

theorem Releases.letsGo {selfSlot : Option Int32} {bs : List Binding} {o : Outline}
    (h : Releases selfSlot bs o) {ds : List (Debt × Binding)} (hd : ds.map (·.2) = bs) :
    ∃ m, LetsGo selfSlot ds m ∧ Noted.code m = o.code := by
  induction h generalizing ds with
  | nil =>
    obtain rfl := List.map_eq_nil_iff.1 hd
    exact ⟨[], .nil, rfl⟩
  | @cons b bs c o hc _ ih =>
    cases ds with
    | nil => cases hd
    | cons p ds =>
      obtain ⟨d, b'⟩ := p
      simp only [List.map_cons, List.cons.injEq] at hd
      obtain ⟨rfl, hd⟩ := hd
      obtain ⟨m, hm, hcode⟩ := ih hd
      exact ⟨_, .cons hc hm, by simp [hcode]⟩

theorem map_owed (w : Holder) : w.owed.map (·.2) = w.refs := by
  simp [Holder.owed, Function.comp_def]

def Context.Holds (ctx : Context) (ws : List Holder) : Prop :=
  ws.map (·.refs) = ctx.scopes.map (·.owned)

theorem Context.Holds.enter {ctx : Context} {ws : List Holder} (h : ctx.Holds ws) (scope : Scope)
    (pos : Nat) (pushed : Bool) : (ctx.enter scope pushed).Holds (⟨pos, scope.owned⟩ :: ws) := by
  rw [Holds, scopes_enter, List.map_cons, List.map_cons, h]

theorem Context.Holds.left {ctx : Context} {ws : List Holder} (h : ctx.Holds ws) (depth : Nat)
    (pushed : Bool) :
    (owed (ws.take (ws.length - depth))).map (·.2) = leftBindings (ctx.leftScopes depth pushed) := by
  have hlen : ws.length = (ctx.openScopes pushed).length := by
    have hmap := congrArg List.length h
    rwa [List.length_map, List.length_map, ctx.length_scopes, ← ctx.length_openScopes pushed] at hmap
  have hrefs : (ws.take (ws.length - depth)).map (·.refs)
      = (ctx.leftScopes depth pushed).map (·.scope.owned) := by
    rw [List.map_take, h, ← ctx.map_openScopes pushed, List.map_map, ← List.map_take, hlen]
    rfl
  calc (owed (ws.take (ws.length - depth))).map (·.2)
      = ((ws.take (ws.length - depth)).map (·.refs)).flatten := by
        rw [owed, List.map_flatMap, List.flatMap_def]
        simp only [map_owed]
    _ = leftBindings (ctx.leftScopes depth pushed) := by
        rw [hrefs, leftBindings, List.flatMap_def]

def Task.isCode : Task → Bool
  | .item _ | .spaced .. => false
  | _ => true

theorem Performs.notes {ctx : Context} {task : Task} {s s' : State} {o : Outline}
    (h : Performs ctx task s o s') (ht : task.isCode = true) (ws : List Holder)
    (hw : ctx.Holds ws) (pos : Nat) :
    ∃ m bs, Notes ctx ws pos task s m bs s' ∧ Noted.code m = o.code := by
  induction h generalizing ws pos with
  | scalar | freshInterval | storedInterval | printerMethod | structName | noItems | items =>
    cases ht
  | printNone => exact ⟨_, _, .simple rfl .printNone, by simp⟩
  | print he hs => exact ⟨_, _, .simple rfl (.print he hs), by simp⟩
  | declaration hs ha he => exact ⟨_, _, .simple rfl (.declaration hs ha he), by simp⟩
  | update hs he h => exact ⟨_, _, .simple rfl (.update hs he h), by simp⟩
  | call he => exact ⟨_, _, .simple rfl (.call he), by simp⟩
  | ifThen hc _ ih =>
    obtain ⟨m, bs, hm, hcode⟩ := ih rfl ws hw _
    exact ⟨_, _, .ifThen hc hm, by simp [hcode]⟩
  | ifElse hc _ _ ih₁ ih₂ =>
    obtain ⟨m, bs, hm, hcode⟩ := ih₁ rfl ws hw _
    obtain ⟨m', bs', hm', hcode'⟩ := ih₂ rfl ws hw _
    exact ⟨_, _, .ifElse hc hm hm', by simp [hcode, hcode']⟩
  | loop hc _ ih =>
    obtain ⟨m, bs, hm, hcode⟩ := ih rfl ws hw _
    exact ⟨_, _, .loop hc hm, by simp [hcode]⟩
  | leave hl hr =>
    obtain ⟨m, hm, hcode⟩ := hr.letsGo (hw.left _ _)
    exact ⟨_, _, .leave hl hm, by simp [hcode]⟩
  | retNone hr hv hs =>
    obtain ⟨m, hm, hcode⟩ := hs.letsGo (hw.left _ _)
    rw [Nat.sub_zero, List.take_length] at hm
    exact ⟨_, _, .retNone hr hv hm, by simp [hcode]⟩
  | ret hr hv he hs =>
    obtain ⟨m, hm, hcode⟩ := hs.letsGo (hw.left _ _)
    rw [Nat.sub_zero, List.take_length] at hm
    exact ⟨_, _, .ret hr hv he hm, by simp [hcode]⟩
  | nested _ ih =>
    obtain ⟨m, bs, hm, hcode⟩ := ih rfl ws hw pos
    exact ⟨_, _, .nested hm, hcode⟩
  | noStmts => exact ⟨_, _, .noStmts, rfl⟩
  | stmts _ _ ih₁ ih₂ =>
    obtain ⟨m, bs, hm, hcode⟩ := ih₁ rfl ws hw pos
    obtain ⟨m', bs', hm', hcode'⟩ := ih₂ rfl ws hw _
    exact ⟨_, _, .stmts hm hm', by simp [hcode, hcode']⟩
  | @block ctx force scope body s s₁ c o₁ o₂ hc _ hr ih =>
    obtain ⟨m, bs, hm, hcode⟩ := ih rfl _ (hw.enter scope pos s.pushed) (pos + c.length)
    obtain ⟨m', hm', hcode'⟩ := hr.letsGo (map_owed ⟨pos, scope.owned⟩)
    exact ⟨_, _, .block hc hm hm', by simp [hcode, hcode']⟩

/-- The code of a routine at `pos` with notes. The routine takes charge of its parameters behind its
label, and lets go of them behind the label at which all returns meet. -/
inductive RoutineNotes (program : Program) (structs : StructTable) (spec : RoutineSpec) (pos : Nat)
    (s : State) : List Noted → List Extent → Extent → State → Prop
  | mk {prologue epilogue m bs m' s'} (hp : Frame.prologue cells spec.localsSize = .ok prologue)
    (hb : Notes (routineContext program structs spec (s.label "exit")) []
      (pos + 1 + prologue.length) (.block false spec.body) (s.entering spec) m bs s')
    (hr : LetsGo spec.selfSlot (Holder.owed ⟨pos + 1, spec.owned⟩) m')
    (he : Frame.epilogue cells spec.localsSize spec.paramsSize spec.returnType = .ok epilogue) :
    RoutineNotes program structs spec pos s
      (quiet [.label spec.label] ++ (opening (Holder.debts ⟨pos + 1, spec.owned⟩) prologue
        ++ (m ++ quiet [.label (s.label "exit")] ++ m' ++ quiet (drainIf s'.exitPushed ++ epilogue))))
      bs
      ⟨⟨pos + 1, spec.owned⟩, pos + 1 + prologue.length + m.length + 1 + m'.length
        + (drainIf s'.exitPushed ++ epilogue).length⟩
      (s'.noting !spec.owned.isEmpty)

inductive RoutinesNotes (program : Program) (structs : StructTable) :
    List RoutineSpec → Nat → State → List Noted → List Extent → List Extent → State → Prop
  | nil {pos s} : RoutinesNotes program structs [] pos s [] [] [] s
  | cons {spec specs pos s s₁ s₂ m m' bs bs' r rs}
    (h : RoutineNotes program structs spec pos s m bs r s₁)
    (hs : RoutinesNotes program structs specs (pos + m.length) s₁ m' bs' rs s₂) :
    RoutinesNotes program structs (spec :: specs) pos s (m ++ m') (bs ++ bs') (r :: rs) s₂

end Generator

structure Annotated where
  notes : List Noted
  blocks : List Extent
  routines : List Extent

def Annotated.code (a : Annotated) : Code := Noted.code a.notes

namespace Generator
open Noted (quiet opening)

def preamble (counter : RefCounter) (program : Program) (structs : StructTable) : Code :=
  runtime counter program structs
    ++ .label Environment.mainLabel :: (Frame.entry cells ++ RefCounter.reset)

inductive Annotates (program : Program) (capacity : UInt32) : Annotated → Prop
  | mk {counter structs specs m bs m' bs' rs printers s₁ s₂ s₃}
    (hc : RefCounter.ofCapacity? capacity = some counter)
    (hs : StructTable.ofProgram program = .ok structs)
    (hm : Notes (mainContext program structs) [] (preamble counter program structs).length
      (.block false program.main) .initial m bs s₁)
    (hr : RoutinesNotes program structs specs
      ((preamble counter program structs).length + m.length + 1) s₁ m' bs' rs s₂)
    (hd : ∀ spec, spec ∈ specs ↔ Declared program structs spec)
    (hp : intervalPrinters (ScalarKind.all.filter (s₂.printers.contains ·)) s₂
      = .ok (printers, s₃)) :
    Annotates program capacity
      ⟨quiet (preamble counter program structs) ++ m ++ quiet [.halt] ++ m'
        ++ quiet (printers ++ Environment.errorHandlers), bs ++ bs', rs⟩

variable {program : Program} {structs : StructTable} {s s' : State}

theorem RoutineEmits.notes {spec : RoutineSpec} {o : Outline}
    (h : RoutineEmits program structs spec s o s') (pos : Nat) :
    ∃ m bs r, RoutineNotes program structs spec pos s m bs r s' ∧ Noted.code m = o.code := by
  cases h with
  | mk hp hb hr he =>
    obtain ⟨m, bs, hm, hcode⟩ := hb.notes rfl [] rfl (pos + 1 + _)
    obtain ⟨m', hm', hcode'⟩ := hr.letsGo (map_owed ⟨pos + 1, spec.owned⟩)
    exact ⟨_, _, _, .mk hp hm hm' he, by simp [hcode, hcode']⟩

theorem Routines.notes {specs : List RoutineSpec} {o : Outline}
    (h : Routines program structs specs s o s') (pos : Nat) :
    ∃ m bs rs, RoutinesNotes program structs specs pos s m bs rs s' ∧ Noted.code m = o.code := by
  induction h generalizing pos with
  | nil => exact ⟨_, _, _, .nil, rfl⟩
  | cons h _ ih =>
    obtain ⟨m, bs, r, hm, hcode⟩ := h.notes pos
    obtain ⟨m', bs', rs, hm', hcode'⟩ := ih (pos + m.length)
    exact ⟨_, _, _, .cons hm hm', by simp [hcode, hcode']⟩

theorem generate_annotates {capacity : UInt32} {code : Code}
    (h : generate program capacity = .ok code) : ∃ a, Annotates program capacity a ∧ a.code = code := by
  cases generate_assembled h with
  | mk hc hs hm hr _ hd hp =>
    obtain ⟨m, bs, hm, hcode⟩ := hm.notes rfl [] rfl _
    obtain ⟨m', bs', rs, hm', hcode'⟩ := hr.notes _
    refine ⟨_, .mk hc hs hm hm' hd hp, ?_⟩
    simp [Annotated.code, preamble, hcode, hcode']

end Generator
end IntervalStack
