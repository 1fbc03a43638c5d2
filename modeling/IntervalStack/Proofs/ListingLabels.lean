import IntervalStack.Proofs.LabelNumber
import IntervalStack.Proofs.ProgramEmission

/-! The labels that stand in a listing outside of the code of statements: those of the runtime, of
the routines, and of the interval printers. -/

namespace IntervalStack.Generator

structure IsFixed (l : String) : Prop where
  number : number? l = none
  notDivide : l ≠ Environment.divideByZero
  notGeneral : l ≠ Environment.generalError

theorem IsFixed.of_start {l rest : String} {start : List Char}
    (hl : l.toList = start ++ rest.toList) (hd : start.head? = some '-')
    (hn : start.all notDigit = true)
    (hs : stems.all (fun stem => !start.isPrefixOf ("-" ++ stem ++ "-").toList) = true) :
    IsFixed l := by
  have hhead : l.toList.head? = some '-' := by
    rw [hl, List.head?_append, hd]
    rfl
  refine ⟨number?_eq_none hl hn hs, ?_, ?_⟩
  · rintro rfl
    cases hhead
  · rintro rfl
    cases hhead

theorem isFixed_functionLabel (name : String) : IsFixed (functionLabel name) :=
  .of_start String.toList_append rfl (by decide) (by decide)

theorem isFixed_methodLabel (typeCode : Int32) (name : String) :
    IsFixed (methodLabel typeCode name) := by
  have hl : (methodLabel typeCode name).toList = "-method-".toList
      ++ (toString typeCode.toInt ++ ("-" ++ name)).toList := by
    simp [methodLabel, String.toList_append]
  exact .of_start hl rfl (by decide) (by decide)

theorem isFixed_initializerLabel (typeCode : Int32) : IsFixed (initializerLabel typeCode) :=
  .of_start String.toList_append rfl (by decide) (by decide)

theorem isFixed_structRelease (typeCode : Int32) : IsFixed (RefCounter.structRelease typeCode) :=
  .of_start String.toList_append rfl (by decide) (by decide)

theorem isFixed_printer (k : ScalarKind) : IsFixed k.printer := by
  cases k <;> exact ⟨by decide, by decide, by decide⟩

theorem isFixed_main : IsFixed Environment.mainLabel := ⟨by decide, by decide, by decide⟩

variable {program : Program} {structs : StructTable}

inductive IsRoutineLabel : String → Prop
  | function (name : String) : IsRoutineLabel (functionLabel name)
  | initializer (typeCode : Int32) : IsRoutineLabel (initializerLabel typeCode)
  | method (typeCode : Int32) (name : String) : IsRoutineLabel (methodLabel typeCode name)

theorem Declared.isRoutineLabel {spec : RoutineSpec} (h : Declared program structs spec) :
    IsRoutineLabel spec.label := by
  cases h with
  | function _ h =>
    simp only [functionSpec, bind, Except.bind] at h
    split at h
    · cases h
    · cases h
      exact .function _
  | initializer => exact .initializer _
  | method _ _ _ h =>
    simp only [methodSpec, bind, Except.bind] at h
    split at h
    · cases h
    · split at h
      · cases h
      · cases h
        exact .method _ _

theorem IsRoutineLabel.isFixed {l : String} (h : IsRoutineLabel l) : IsFixed l := by
  cases h with
  | function name => exact isFixed_functionLabel name
  | initializer code => exact isFixed_initializerLabel code
  | method code name => exact isFixed_methodLabel code name

theorem isFixed_of_mem_runtime {counter : RefCounter} {l : String}
    (h : .label l ∈ runtime counter program structs) : IsFixed l := by
  simp only [runtime, Environment.opening, Environment.dataString, RefCounter.data, structNames,
    RefCounter.subroutines, RefCounter.incrementCode, RefCounter.pushCode, RefCounter.drainCode,
    RefCounter.pushChild, RefCounter.loadIndex, RefCounter.slotAddress, RefCounter.bumpIndex,
    Cells.declare, RefCounter.push, List.mem_append, List.mem_cons, List.mem_flatMap,
    List.mem_filter, List.not_mem_nil, reduceCtorEq, Instr.label.injEq, or_false, false_or,
    and_false, exists_false, or_assoc] at h
  rcases h with h | h | h | h | h | h | h | h | ⟨a, -, h⟩ | h | h | h | h
  all_goals subst h
  all_goals first | exact isFixed_structRelease _ | exact ⟨by decide, by decide, by decide⟩

def printerCode (k : ScalarKind) (group : String) (low high : Code) : Code :=
  let load := (Instr.load? k.ty).getD .loadI
  let child (offset : Int32) : Code :=
    [.duplicate, .pushI offset, .add, .loadI, .call k.printer]
  [Instr.label k.printer, .exchange] ++ Environment.printString Environment.openBracketString
    ++ [Instr.duplicate, .pushI Layout.typeCodeOffset, .add, .loadI,
      .pushI Layout.nestedIntervalCode, .subtract, .jumpFalse (Labels.part group "nested")]
    ++ [Instr.duplicate, .pushI Layout.payloadOffset, .add, load] ++ low
    ++ Environment.printString Environment.separatorString
    ++ [Instr.duplicate, .duplicate, .pushI Layout.subtypeSizeOffset, .add, .loadC,
      .pushI Layout.payloadOffset, .add, .add, load] ++ high
    ++ [Instr.jump (Labels.part group "close")]
    ++ [Instr.label (Labels.part group "nested")]
    ++ child Layout.payloadOffset ++ Environment.printString Environment.separatorString
    ++ child (Layout.payloadOffset + Layout.pointerSize.toInt32)
    ++ [Instr.label (Labels.part group "close"), .pop]
    ++ Environment.printString Environment.closeBracketString ++ [Instr.ret]

theorem intervalPrinter_ok {k : ScalarKind} {s s' : State} {c : Code}
    (h : intervalPrinter k s = .ok (c, s')) :
    ∃ low s₁ high, printScalar k s.next = .ok (low, s₁) ∧ printScalar k s₁ = .ok (high, s') ∧
      c = printerCode k (s.label "interval-printer") low high := by
  simp only [intervalPrinter, bind_ok, fresh_ok, pure_ok] at h
  obtain ⟨_, _, ⟨rfl, rfl⟩, low, s₁, hl, high, s₂, hh, rfl, rfl⟩ := h
  exact ⟨low, s₁, high, hl, hh, rfl⟩

theorem printScalar_labels {k : ScalarKind} {s s' : State} {c : Code} {l : String}
    (h : printScalar k s = .ok (c, s')) (hl : .label l ∈ c) : IsBetween s.labels.count s'.labels.count l := by
  rcases printScalar_ok h with ⟨-, rfl, rfl⟩ | ⟨-, rfl, rfl⟩ | ⟨-, rfl, rfl⟩ | ⟨-, rfl, rfl⟩
  · simp only [printBoolCode, Environment.printString, List.mem_append, List.mem_cons,
      List.not_mem_nil, reduceCtorEq, Instr.label.injEq, or_false, false_or] at hl
    rcases hl with rfl | rfl
    · exact isBetween_part s _ (by decide)
    · exact isBetween_part s _ (by decide)
  all_goals simp [Environment.printString] at hl

theorem intervalPrinter_labels {k : ScalarKind} {s s' : State} {c : Code} {l : String}
    (h : intervalPrinter k s = .ok (c, s')) (hl : .label l ∈ c) :
    IsBetween s.labels.count s'.labels.count l ∨ IsFixed l := by
  obtain ⟨low, s₁, high, hlow, hhigh, rfl⟩ := intervalPrinter_ok h
  have hg₁ := (printScalar_grows hlow).count
  have hg₂ := (printScalar_grows hhigh).count
  have hcount : s.next.labels.count = s.labels.count + 1 := rfl
  have hload : ∀ l, Instr.label l ≠ (Instr.load? k.ty).getD .loadI := by
    cases k <;> simp [ScalarKind.ty, Instr.load?]
  simp only [printerCode, Environment.printString, List.mem_append, List.mem_cons,
    List.not_mem_nil, reduceCtorEq, Instr.label.injEq, or_false, hload, or_assoc] at hl
  have hbetween : ∀ part, IsBetween _ _ (Labels.part (s.label "interval-printer") part) :=
    fun part => isBetween_part s part (by decide)
  rcases hl with rfl | hl | hl | rfl | rfl
  · exact .inr (isFixed_printer k)
  · exact .inl ((printScalar_labels hlow hl).mono (by omega) (by omega))
  · exact .inl ((printScalar_labels hhigh hl).mono (by omega) (by omega))
  · exact .inl ((hbetween _).mono (Nat.le_refl _) (by omega))
  · exact .inl ((hbetween _).mono (Nat.le_refl _) (by omega))

theorem intervalPrinter_grows {k : ScalarKind} {s s' : State} {c : Code}
    (h : intervalPrinter k s = .ok (c, s')) : s.Grows s' := by
  obtain ⟨low, s₁, high, hlow, hhigh, -⟩ := intervalPrinter_ok h
  exact (State.Grows.next s).trans ((printScalar_grows hlow).trans (printScalar_grows hhigh))

theorem intervalPrinters_grows {ks : List ScalarKind} {s s' : State} {c : Code}
    (h : intervalPrinters ks s = .ok (c, s')) : s.Grows s' := by
  induction ks generalizing s c with
  | nil =>
    rw [intervalPrinters, pure_ok] at h
    obtain ⟨rfl, rfl⟩ := h
    exact .refl _
  | cons k ks ih =>
    simp only [intervalPrinters, bind_ok, pure_ok] at h
    obtain ⟨c₁, s₁, h₁, c₂, s₂, h₂, rfl, rfl⟩ := h
    exact (intervalPrinter_grows h₁).trans (ih h₂)

theorem intervalPrinters_labels {ks : List ScalarKind} {s s' : State} {c : Code} {l : String}
    (h : intervalPrinters ks s = .ok (c, s')) (hl : .label l ∈ c) :
    IsBetween s.labels.count s'.labels.count l ∨ IsFixed l := by
  induction ks generalizing s c with
  | nil =>
    rw [intervalPrinters, pure_ok] at h
    rw [h.1] at hl
    cases hl
  | cons k ks ih =>
    simp only [intervalPrinters, bind_ok, pure_ok] at h
    obtain ⟨c₁, s₁, h₁, c₂, s₂, h₂, rfl, rfl⟩ := h
    rcases List.mem_append.1 hl with hl | hl
    · exact (intervalPrinter_labels h₁ hl).imp_left
        fun hb => hb.mono (Nat.le_refl _) (intervalPrinters_grows h₂).count
    · exact (ih h₂ hl).imp_left fun hb => hb.mono (intervalPrinter_grows h₁).count (Nat.le_refl _)

end IntervalStack.Generator
