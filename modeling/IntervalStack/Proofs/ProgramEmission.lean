import IntervalStack.Proofs.StmtEmission

/-! The listing of a whole program as an outline: the runtime, the main program, and the routines in
the order in which they are declared. -/

namespace IntervalStack.Generator
open Outline (plain wrap)

def routineContext (program : Program) (structs : StructTable) (spec : RoutineSpec)
    (exit : String) : Context :=
  ⟨program, structs, some ⟨exit, spec.returnType, spec.selfSlot⟩, none, none, []⟩

def RoutineSpec.owned (spec : RoutineSpec) : List Binding := spec.params.filter (·.ty.isHeap)

def State.entering (s : State) (spec : RoutineSpec) : State :=
  { s.next with exitPushed := !spec.owned.isEmpty }

@[simp] theorem State.count_entering (s : State) (spec : RoutineSpec) :
    (s.entering spec).labels.count = s.labels.count + 1 := rfl

@[simp] theorem State.pushed_entering (s : State) (spec : RoutineSpec) :
    (s.entering spec).pushed = s.pushed := rfl

@[simp] theorem State.exitPushed_entering (s : State) (spec : RoutineSpec) :
    (s.entering spec).exitPushed = !spec.owned.isEmpty := rfl

inductive RoutineEmits (program : Program) (structs : StructTable) (spec : RoutineSpec)
    (s : State) : Outline → State → Prop
  | mk {prologue epilogue o r s'} (hp : Frame.prologue cells spec.localsSize = .ok prologue)
    (hb : Performs (routineContext program structs spec (s.label "exit"))
      (.block false spec.body) (s.entering spec) o s')
    (hr : Releases spec.selfSlot spec.owned r)
    (he : Frame.epilogue cells spec.localsSize spec.paramsSize spec.returnType = .ok epilogue) :
    RoutineEmits program structs spec s
      (wrap (.routine spec) (plain (.label spec.label :: prologue) ++ o
        ++ plain [.label (s.label "exit")] ++ r ++ plain (drainIf s'.exitPushed)
        ++ wrap (.epilogue spec.returnType) (plain epilogue)))
      (s'.noting !spec.owned.isEmpty)

inductive Routines (program : Program) (structs : StructTable) :
    List RoutineSpec → State → Outline → State → Prop
  | nil {s} : Routines program structs [] s .nil s
  | cons {spec specs s s₁ s₂ o₁ o₂} (h : RoutineEmits program structs spec s o₁ s₁)
    (hs : Routines program structs specs s₁ o₂ s₂) :
    Routines program structs (spec :: specs) s (o₁ ++ o₂) s₂

inductive Declared (program : Program) (structs : StructTable) : RoutineSpec → Prop
  | function {f spec} (hf : f ∈ program.functions) (h : functionSpec f = .ok spec) :
    Declared program structs spec
  | initializer {d l} (hd : d ∈ program.structs) (hl : structs.get? d.id = some l) :
    Declared program structs (initializerSpec l.typeCode d)
  | method {d l f spec} (hd : d ∈ program.structs) (hl : structs.get? d.id = some l)
    (hf : f ∈ d.methods) (h : methodSpec l.typeCode f = .ok spec) :
    Declared program structs spec

def mainContext (program : Program) (structs : StructTable) : Context :=
  ⟨program, structs, none, none, none, []⟩

def State.initial : State := ⟨.none, false, false, []⟩

def runtime (counter : RefCounter) (program : Program) (structs : StructTable) : Code :=
  Environment.opening cells program.globalSize ++ counter.data ++ structNames structs
    ++ counter.subroutines structs

inductive Listing (program : Program) (capacity : UInt32) : Outline → Prop
  | mk {counter structs specs main routines printers s₁ s₂ s₃}
    (hc : RefCounter.ofCapacity? capacity = some counter)
    (hs : StructTable.ofProgram program = .ok structs)
    (hm : Performs (mainContext program structs) (.block false program.main) .initial main s₁)
    (hr : Routines program structs specs s₁ routines s₂)
    (hd : ∀ spec, spec ∈ specs ↔ Declared program structs spec)
    (hp : intervalPrinters (ScalarKind.all.filter (s₂.printers.contains ·)) s₂
      = .ok (printers, s₃)) :
    Listing program capacity
      (plain (runtime counter program structs)
        ++ wrap .main (plain (.label Environment.mainLabel :: (Frame.entry cells
          ++ RefCounter.reset)) ++ main ++ plain [.halt])
        ++ routines ++ plain printers ++ plain Environment.errorHandlers)

variable {program : Program} {structs : StructTable} {s s' : State} {c : Code}

theorem RoutineEmits.grows {spec : RoutineSpec} {o : Outline}
    (h : RoutineEmits program structs spec s o s') : s.labels.count ≤ s'.labels.count := by
  cases h with
  | mk _ hb _ _ => exact Nat.le_trans (Nat.le_succ _) hb.grows.count

theorem Routines.grows {specs : List RoutineSpec} {o : Outline}
    (h : Routines program structs specs s o s') : s.labels.count ≤ s'.labels.count := by
  induction h with
  | nil => exact Nat.le_refl _
  | cons h _ ih => exact Nat.le_trans h.grows ih

theorem routine_emits {spec : RoutineSpec}
    (h : routine program structs spec s = .ok (c, s')) :
    ∃ o, RoutineEmits program structs spec s o s' ∧ o.code = c := by
  simp only [routine, bind_ok, fresh_ok, modify_ok, sized_ok, get_ok, pure_ok] at h
  obtain ⟨_, _, ⟨rfl, rfl⟩, _, _, rfl, prologue, _, ⟨hp, rfl⟩, body, s₁, hb, release, s₂, hr, _, _,
    ⟨rfl, rfl⟩, epilogue, _, ⟨he, rfl⟩, rfl, rfl⟩ := h
  obtain ⟨o, ho, rfl⟩ := block_performed _ _ _ hb
  obtain ⟨⟨r, hr', rfl⟩, rfl⟩ := releaseBindings_releases hr
  have hrel : Releases spec.selfSlot spec.owned r := hr'
  refine ⟨_, .mk hp ho hrel he, ?_⟩
  simp only [Outline.code_wrap, Outline.code_append, Outline.code_plain, List.append_assoc,
    List.cons_append, List.nil_append]
  rfl

theorem Routines.append {specs specs' : List RoutineSpec} {s₁ : State} {o o' : Outline}
    (h : Routines program structs specs s o s₁) (h' : Routines program structs specs' s₁ o' s') :
    Routines program structs (specs ++ specs') s (o ++ o') s' := by
  induction h with
  | nil => exact h'
  | cons hr _ ih =>
    rw [List.cons_append, Outline.append_assoc]
    exact .cons hr (ih h')

theorem label_functionSpec {f : Function} {spec : RoutineSpec} (h : functionSpec f = .ok spec) :
    spec.label = functionLabel f.name := by
  simp only [functionSpec, bind, Except.bind] at h
  split at h
  · cases h
  · cases h
    rfl

theorem label_methodSpec {typeCode : Int32} {f : Function} {spec : RoutineSpec}
    (h : methodSpec typeCode f = .ok spec) : spec.label = methodLabel typeCode f.name := by
  simp only [methodSpec, bind, Except.bind] at h
  split at h
  · cases h
  · split at h
    · cases h
    · cases h
      rfl

def structLabels (structs : StructTable) (d : StructDef) : List String :=
  match structs.get? d.id with
  | some l => initializerLabel l.typeCode :: d.methods.map (methodLabel l.typeCode ·.name)
  | none => []

def routineLabels (program : Program) (structs : StructTable) : List String :=
  program.functions.map (functionLabel ·.name) ++ program.structs.flatMap (structLabels structs)

theorem functions_emit {fs : List Function} (h : functions program structs fs s = .ok (c, s')) :
    ∃ specs o, Routines program structs specs s o s' ∧ o.code = c ∧
      specs.map (·.label) = fs.map (functionLabel ·.name) ∧
      ∀ spec, spec ∈ specs ↔ ∃ f ∈ fs, functionSpec f = .ok spec := by
  induction fs generalizing s c with
  | nil =>
    rw [functions, pure_ok] at h
    obtain ⟨rfl, rfl⟩ := h
    exact ⟨[], _, .nil, rfl, rfl, by simp⟩
  | cons f fs ih =>
    simp only [functions, bind_ok, sized_ok, pure_ok] at h
    obtain ⟨spec, _, ⟨hf, rfl⟩, c₁, s₁, h₁, c₂, s₂, h₂, rfl, rfl⟩ := h
    obtain ⟨o₁, ho₁, rfl⟩ := routine_emits h₁
    obtain ⟨specs, o₂, ho₂, rfl, hlabels, hspecs⟩ := ih h₂
    refine ⟨spec :: specs, _, .cons ho₁ ho₂, by simp, ?_, fun spec' => ?_⟩
    · simp only [List.map_cons, hlabels, label_functionSpec hf]
    · simp [hspecs, hf, eq_comm]

theorem methods_emit {typeCode : Int32} {fs : List Function}
    (h : methods program structs typeCode fs s = .ok (c, s')) :
    ∃ specs o, Routines program structs specs s o s' ∧ o.code = c ∧
      specs.map (·.label) = fs.map (methodLabel typeCode ·.name) ∧
      ∀ spec, spec ∈ specs ↔ ∃ f ∈ fs, methodSpec typeCode f = .ok spec := by
  induction fs generalizing s c with
  | nil =>
    rw [methods, pure_ok] at h
    obtain ⟨rfl, rfl⟩ := h
    exact ⟨[], _, .nil, rfl, rfl, by simp⟩
  | cons f fs ih =>
    simp only [methods, bind_ok, sized_ok, pure_ok] at h
    obtain ⟨spec, _, ⟨hf, rfl⟩, c₁, s₁, h₁, c₂, s₂, h₂, rfl, rfl⟩ := h
    obtain ⟨o₁, ho₁, rfl⟩ := routine_emits h₁
    obtain ⟨specs, o₂, ho₂, rfl, hlabels, hspecs⟩ := ih h₂
    refine ⟨spec :: specs, _, .cons ho₁ ho₂, by simp, ?_, fun spec' => ?_⟩
    · simp only [List.map_cons, hlabels, label_methodSpec hf]
    · simp [hspecs, hf, eq_comm]

theorem structRoutines_emit {ds : List StructDef}
    (h : structRoutines program structs ds s = .ok (c, s')) :
    ∃ specs o, Routines program structs specs s o s' ∧ o.code = c ∧
      specs.map (·.label) = ds.flatMap (structLabels structs) ∧
      ∀ spec, spec ∈ specs ↔ ∃ d ∈ ds, ∃ l, structs.get? d.id = some l ∧
        (spec = initializerSpec l.typeCode d ∨
          ∃ f ∈ d.methods, methodSpec l.typeCode f = .ok spec) := by
  induction ds generalizing s c with
  | nil =>
    rw [structRoutines, pure_ok] at h
    obtain ⟨rfl, rfl⟩ := h
    exact ⟨[], _, .nil, rfl, rfl, by simp⟩
  | cons d ds ih =>
    simp only [structRoutines, bind_ok, layoutOf_ok, pure_ok] at h
    obtain ⟨l, _, ⟨hl, rfl⟩, c₁, s₁, h₁, c₂, s₂, h₂, c₃, s₃, h₃, rfl, rfl⟩ := h
    obtain ⟨o₁, ho₁, rfl⟩ := routine_emits h₁
    obtain ⟨specs₂, o₂, ho₂, rfl, hlabels₂, hspecs₂⟩ := methods_emit h₂
    obtain ⟨specs₃, o₃, ho₃, rfl, hlabels₃, hspecs₃⟩ := ih h₃
    refine ⟨_, _, .cons ho₁ (ho₂.append ho₃), by simp, ?_, fun spec => ?_⟩
    · rw [List.map_cons, List.map_append, hlabels₂, hlabels₃, List.flatMap_cons, structLabels, hl]
      rfl
    · simp only [List.mem_cons, List.mem_append, hspecs₂, hspecs₃, exists_eq_or_imp]
      rw [hl]
      simp only [Option.some.injEq, exists_eq_left', or_assoc]

inductive Assembled (program : Program) (capacity : UInt32) : Code → Prop
  | mk {counter structs specs main routines printers s₁ s₂ s₃}
    (hc : RefCounter.ofCapacity? capacity = some counter)
    (hs : StructTable.ofProgram program = .ok structs)
    (hm : Performs (mainContext program structs) (.block false program.main) .initial main s₁)
    (hr : Routines program structs specs s₁ routines s₂)
    (hl : specs.map (·.label) = routineLabels program structs)
    (hd : ∀ spec, spec ∈ specs ↔ Declared program structs spec)
    (hp : intervalPrinters (ScalarKind.all.filter (s₂.printers.contains ·)) s₂
      = .ok (printers, s₃)) :
    Assembled program capacity (runtime counter program structs
      ++ (.label Environment.mainLabel :: (Frame.entry cells ++ RefCounter.reset)
        ++ main.code ++ [.halt])
      ++ routines.code ++ printers ++ Environment.errorHandlers)

theorem Assembled.listing {capacity : UInt32} (h : Assembled program capacity c) :
    ∃ o, Listing program capacity o ∧ o.code = c := by
  cases h with
  | mk hc hs hm hr _ hd hp => exact ⟨_, .mk hc hs hm hr hd hp, by simp⟩

theorem wholeProgram_assembled {counter : RefCounter} {capacity : UInt32}
    (hc : RefCounter.ofCapacity? capacity = some counter)
    (hs : StructTable.ofProgram program = .ok structs)
    (h : wholeProgram counter program structs .initial = .ok (c, s')) :
    Assembled program capacity c := by
  simp only [wholeProgram, bind_ok, get_ok, pure_ok] at h
  obtain ⟨c₁, s₁, h₁, c₂, s₂, h₂, c₃, s₃, h₃, _, _, ⟨rfl, rfl⟩, printers, s₄, hp, rfl, rfl⟩ := h
  obtain ⟨main, hmain, rfl⟩ := block_performed _ _ _ h₁
  obtain ⟨specs₂, o₂, ho₂, rfl, hlabels₂, hspecs₂⟩ := functions_emit h₂
  obtain ⟨specs₃, o₃, ho₃, rfl, hlabels₃, hspecs₃⟩ := structRoutines_emit h₃
  have hlabels : (specs₂ ++ specs₃).map (·.label) = routineLabels program structs := by
    rw [List.map_append, hlabels₂, hlabels₃, routineLabels]
  have hdeclared : ∀ spec, spec ∈ specs₂ ++ specs₃ ↔ Declared program structs spec := by
    intro spec
    rw [List.mem_append, hspecs₂, hspecs₃]
    constructor
    · rintro (⟨f, hf, h⟩ | ⟨d, hd, l, hl, rfl | ⟨f, hf, h⟩⟩)
      · exact .function hf h
      · exact .initializer hd hl
      · exact .method hd hl hf h
    · intro h
      cases h with
      | function hf h => exact .inl ⟨_, hf, h⟩
      | initializer hd hl => exact .inr ⟨_, hd, _, hl, .inl rfl⟩
      | method hd hl hf h => exact .inr ⟨_, hd, _, hl, .inr ⟨_, hf, h⟩⟩
  have hmk := Assembled.mk hc hs hmain (ho₂.append ho₃) hlabels hdeclared hp
  simpa [runtime] using hmk

theorem generate_eq {capacity : UInt32} {counter : RefCounter}
    (hc : RefCounter.ofCapacity? capacity = some counter)
    (hs : StructTable.ofProgram program = .ok structs) :
    generate program capacity = (wholeProgram counter program structs .initial).map (·.1) := by
  simp only [generate, hc, hs, StateT.run, bind, Except.bind]
  rw [← State.initial]
  cases wholeProgram counter program structs State.initial <;> rfl

theorem generate_ok {capacity : UInt32} (h : generate program capacity = .ok c) :
    ∃ counter structs s', RefCounter.ofCapacity? capacity = some counter ∧
      StructTable.ofProgram program = .ok structs ∧
      wholeProgram counter program structs .initial = .ok (c, s') := by
  cases hc : RefCounter.ofCapacity? capacity with
  | none => simp [generate, hc, throw, throwThe, MonadExceptOf.throw] at h
  | some counter =>
    cases hs : StructTable.ofProgram program with
    | error o => simp [generate, hc, hs, throw, throwThe, MonadExceptOf.throw] at h
    | ok structs =>
      rw [generate_eq hc hs] at h
      cases hw : wholeProgram counter program structs State.initial with
      | error e =>
        rw [hw] at h
        cases h
      | ok r =>
        rw [hw] at h
        obtain rfl := Except.ok.inj h
        exact ⟨counter, structs, r.2, rfl, rfl, hw⟩

theorem generate_assembled {capacity : UInt32} (h : generate program capacity = .ok c) :
    Assembled program capacity c := by
  obtain ⟨counter, structs, s', hc, hs, hw⟩ := generate_ok h
  exact wholeProgram_assembled hc hs hw

theorem generate_listing {capacity : UInt32} (h : generate program capacity = .ok c) :
    ∃ o, Listing program capacity o ∧ o.code = c := (generate_assembled h).listing

end IntervalStack.Generator
