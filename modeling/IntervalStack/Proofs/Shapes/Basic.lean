import IntervalStack.Machine.Format
import IntervalStack.Proofs.Flow
import IntervalStack.Proofs.LocalCode
import IntervalStack.Proofs.WellTyped

/-! The shape of the operand stack at the positions of a listing: which of its values are integers
and which are floats, counted from where the routine at work was entered.

A position that control does not reach has no shape. -/

namespace IntervalStack

inductive Tag
  | int
  | float
deriving DecidableEq

/-- How values of a type are held on the operand stack. -/
def Ty.tag (t : Ty) : Tag := if t.isFloat then .float else .int

def Shape.tags (ty : Ty) : Shape → List Tag
  | .address => [.int]
  | .value => [ty.tag]
  | .void => []

namespace Instr

def pops : Instr → List Tag
  | .loadC | .loadI | .loadF | .negate | .bNegate | .convertF
  | .jumpTrue _ | .jumpFalse _ | .jumpPos _ | .jumpNeg _ => [.int]
  | .storeC | .storeI | .add | .subtract | .multiply | .divide | .btAnd | .btOr => [.int, .int]
  | .storeF => [.float, .int]
  | .fNegate | .convertI | .jumpFZero _ | .jumpFPos _ | .jumpFNeg _ => [.float]
  | .fAdd | .fSubtract | .fMultiply | .fDivide => [.float, .float]
  | _ => []

def pushes : Instr → List Tag
  | .pushI _ | .pushD _ | .memtop | .loadC | .loadI | .negate | .bNegate | .convertI
  | .add | .subtract | .multiply | .divide | .btAnd | .btOr => [.int]
  | .pushF _ | .loadF | .convertF | .fNegate | .fAdd | .fSubtract | .fMultiply | .fDivide =>
    [.float]
  | _ => []

end Instr

def Piece.tag? : Piece → Option Tag
  | .text _ => none
  | .general => some .float
  | .int | .char | .str => some .int

namespace Code

def textAt? (l : String) : Code → Option String
  | .dLabel l' :: .dataS t :: c => if l' = l then some t else textAt? l c
  | _ :: c => textAt? l c
  | [] => none

theorem textAt?_append {l t : String} {c : Code} (h : c.textAt? l = some t) (d : Code) :
    (c ++ d).textAt? l = some t := by
  fun_induction textAt? l c with
  | case1 t' c =>
    cases h
    simp [textAt?]
  | case2 l' t' c hne ih => simpa [textAt?, hne] using ih h
  | case3 i c hi ih =>
    have hc : c ≠ [] := by
      rintro rfl
      cases h
    obtain ⟨j, c, rfl⟩ := List.exists_cons_of_ne_nil hc
    rw [List.cons_append, textAt?]
    · exact ih h
    · rintro l' t' c' rfl hcons
      simp only [List.cons_append, List.cons.injEq] at hcons
      exact hi l' t' c rfl (by rw [hcons.1])
  | case4 => cases h

def formatTags? (format : String) : Option (List Tag) :=
  match Format.parse format with
  | .ok pieces => some (pieces.filterMap Piece.tag?).reverse
  | .error _ => none

def pushedFormat? (pre : Code) : Option (List Tag) :=
  match pre.getLast? with
  | some (.pushD l) => (pre.textAt? l).bind formatTags?
  | _ => none

def printedTexts : List (String × String) :=
  [(Environment.integerFormat, "%d"), (Environment.floatFormat, "%g"),
    (Environment.characterFormat, "%c"), (Environment.stringFormat, "%s"),
    (Environment.newlineString, "\n"), (Environment.spaceString, " "),
    (Environment.openBracketString, "["), (Environment.closeBracketString, "]"),
    (Environment.separatorString, ", "), (Environment.errorFormat, "Runtime error: %s\n")]

def HasTexts (pre : Code) : Prop := ∀ p ∈ printedTexts, pre.textAt? p.1 = some p.2

theorem HasTexts.append {pre : Code} (h : pre.HasTexts) (c : Code) : (pre ++ c).HasTexts :=
  fun p hp => textAt?_append (h p hp) c

end Code

def exchangeTop (xs ys st : List Tag) : Option (List Tag) :=
  if xs.isPrefixOf st then some (ys ++ st.drop xs.length) else none

theorem exchangeTop_append (xs ys st : List Tag) :
    exchangeTop xs ys (xs ++ st) = some (ys ++ st) := by
  rw [exchangeTop, if_pos (List.isPrefixOf_iff_prefix.2 (List.prefix_append _ _)), List.drop_left]

/-- What the part is to do with the stack. A statement that control does not leave by its end has
nothing to say about the stack behind it. -/
def Part.Turns (st : List Tag) (y : Option (List Tag)) : Part → Prop
  | .expr e shape => y = some (shape.tags e.ty ++ st)
  | .record _ => y = some (.int :: st)
  | .stmt _ s => st = [] ∧ (s.completes = true → y = some [])
  | .release _ => y = some st
  | .main => st = []
  | .routine _ => st = [.int]
  | .epilogue result => st = (Generator.resultShape result).tags result

namespace Shapes
open Generator (number?)

def takesRecord : List String :=
  [RefCounter.incrementRoutine, RefCounter.pushRoutine, Environment.allocateEntry,
    Environment.deallocateEntry] ++ ScalarKind.all.map ScalarKind.printer

def calleeTakes (l : String) : List Tag := if l ∈ takesRecord then [.int] else []

def calleeLeaves (l : String) : List Tag := if l = Environment.allocateEntry then [.int] else []

/-- What an instruction behind `pre` makes of the stack. A call is stepped over, and a return finds
the return address alone. -/
def effect (pre : Code) (i : Instr) (st : List Tag) : Option (List Tag) :=
  match i, st with
  | .duplicate, t :: st => some (t :: t :: st)
  | .exchange, t :: u :: st => some (u :: t :: st)
  | .pop, _ :: st => some st
  | .duplicate, [] | .exchange, _ | .pop, [] => none
  | .ret, st => if st = [.int] then some [] else none
  | .call l, st => exchangeTop (calleeTakes l) (calleeLeaves l) st
  | .printf, st => pre.pushedFormat?.bind fun ts => exchangeTop (.int :: ts) [] st
  | i, st => exchangeTop i.pops i.pushes st

def fatalHandlers : List String := [Environment.divideByZero, RefCounter.overflowHandler]

def innerShapes : List (String × List Tag) :=
  [(Environment.mainLabel, []), (Environment.divideByZero, []), (RefCounter.overflowHandler, []),
    (Environment.generalError, [.int]), ("-rctr-increment-null", [.int, .int]),
    ("-rctr-push-null", [.int, .int]), ("-rctr-push-room", [.int, .int]),
    ("-rctr-drain-loop", [.int]), ("-rctr-drain-done", [.int]),
    ("-rctr-drain-still-live", [.int, .int]), ("-rctr-drain-free", [.int, .int]),
    ("-rctr-release-nested", [.int, .int, .int])]

def structReleaseStart : List Char := "-rctr-release-struct-".toList

def innerShape? (l : String) : Option (List Tag) :=
  if structReleaseStart.isPrefixOf l.toList then some [.int, .int, .int] else innerShapes.lookup l

def isEntry (l : String) : Bool := (number? l).isNone && (innerShape? l).isNone

def fixedShape (l : String) : List Tag := (innerShape? l).getD (.int :: calleeTakes l)

theorem fixedShape_of_isEntry {l : String} (h : isEntry l = true) :
    number? l = none ∧ fixedShape l = .int :: calleeTakes l := by
  simp only [isEntry, Bool.and_eq_true, Option.isNone_iff_eq_none] at h
  exact ⟨h.1, by rw [fixedShape, h.2]; rfl⟩

def shapeFlow : Flow (Option (List Tag)) where
  le := Eq
  refl _ := rfl
  trans := Eq.trans
  check pre i x := ∀ st, x = some st →
    (effect pre i st).isSome ∧ ∀ l, i = .call l → isEntry l = true
  step pre i l x y := ∀ st, x = some st → (∀ t, l = some t → t ∉ fatalHandlers) →
    y = effect pre i st
  step_le h hz := hz ▸ h
  part p _ x y := ∀ st, x = some st → p.Turns st y
  part_le h hx hy := hx ▸ hy ▸ h

def isStraight : Instr → Bool
  | .call l => isEntry l
  | i => i.isLocal

def routineStarts : List (List Char) :=
  ["-function-".toList, "-struct-init-".toList, "-method-".toList]

theorem routineStarts_known : (innerShapes.map (·.1) ++ takesRecord).all
    (fun k => routineStarts.all fun start => !start.isPrefixOf k.toList) = true := by
  decide +kernel

theorem routineStarts_release : routineStarts.all (fun start =>
    start.length ≤ structReleaseStart.length && !start.isPrefixOf structReleaseStart) = true := by
  decide +kernel

def runtimeCalls : List Instr :=
  [RefCounter.push, RefCounter.increment, RefCounter.drain, .call Environment.allocateEntry,
    .call Environment.deallocateEntry]

theorem isStraight_runtimeCalls : runtimeCalls.all isStraight = true := by decide +kernel

def effects (pre : Code) : Code → List Tag → Option (List Tag)
  | [], st => some st
  | i :: c, st => (effect pre i st).bind (effects (pre ++ [i]) c)

section
variable {Γ : String → Option (List Tag)} {pre c : Code} {i : Instr} {st st' : List Tag}
  {rest : Outline} {x y z : Option (List Tag)} {l : String}

theorem fits_straight (hi : isStraight i = true) (he : effect pre i st = some st')
    (h : shapeFlow.Fits Γ (pre ++ [i]) (some st') rest y) :
    shapeFlow.Fits Γ pre (some st) (.instr i rest) y := by
  refine .instr ⟨?_, ?_, ?_, ?_⟩ h
  · rintro l rfl
    cases hi
  · rintro _ ⟨⟩
    refine ⟨by rw [he]; rfl, ?_⟩
    rintro l rfl
    exact hi
  · intro l hl
    cases i <;> first | (cases hl; done) | cases hi
  · rintro _ _ ⟨⟩ _
    exact he.symm

theorem fits_label (hl : Γ l = x) (h : shapeFlow.Fits Γ (pre ++ [.label l]) x rest y) :
    shapeFlow.Fits Γ pre x (.instr (.label l) rest) y := by
  refine .instr ⟨?_, ?_, ?_, ?_⟩ h
  · rintro _ ⟨⟩
    exact hl
  · intro st _
    exact ⟨rfl, fun _ hc => nomatch hc⟩
  · intro _ ht
    cases ht
  · rintro _ st rfl _
    rfl

theorem fits_branch (ht : i.jumpTarget? = some l) (hf : i.fallsThrough = true)
    (he : effect pre i st = some st') (hl : l ∈ fatalHandlers ∨ Γ l = some st')
    (h : shapeFlow.Fits Γ (pre ++ [i]) (some st') rest y) :
    shapeFlow.Fits Γ pre (some st) (.instr i rest) y := by
  refine .instr ⟨?_, ?_, ?_, ?_⟩ h
  · rintro _ rfl
    cases ht
  · rintro _ ⟨⟩
    refine ⟨by rw [he]; rfl, ?_⟩
    rintro _ rfl
    cases ht
  · rintro l' hl' _ ⟨⟩ hfatal
    obtain rfl : l = l' := Option.some.inj (ht.symm.trans hl')
    exact (hl.resolve_left (hfatal l rfl)).trans he.symm
  · rintro _ _ ⟨⟩ _
    exact he.symm

theorem fits_jump (hl : ∀ st, x = some st → l ∈ fatalHandlers ∨ Γ l = some st)
    (h : shapeFlow.Fits Γ (pre ++ [.jump l]) z rest y) :
    shapeFlow.Fits Γ pre x (.instr (.jump l) rest) y := by
  refine .instr (z := z) ⟨?_, ?_, ?_, ?_⟩ h
  · intro _ hc
    cases hc
  · rintro st rfl
    exact ⟨rfl, fun _ hc => nomatch hc⟩
  · rintro _ ⟨⟩ st rfl hfatal
    rw [(hl st rfl).resolve_left (hfatal l rfl)]
    rfl
  · intro hf
    cases hf

theorem fits_end (hi : i = .ret ∧ st = [.int] ∨ i = .halt)
    (h : shapeFlow.Fits Γ (pre ++ [i]) z rest y) :
    shapeFlow.Fits Γ pre (some st) (.instr i rest) y := by
  refine .instr (z := z) ⟨?_, ?_, ?_, ?_⟩ h
  · rintro _ rfl
    rcases hi with ⟨hi, -⟩ | hi <;> cases hi
  · rintro _ ⟨⟩
    rcases hi with ⟨rfl, rfl⟩ | rfl
    · exact ⟨rfl, fun _ hc => nomatch hc⟩
    · exact ⟨rfl, fun _ hc => nomatch hc⟩
  · intro l hl
    rcases hi with ⟨rfl, -⟩ | rfl <;> cases hl
  · intro hf
    rcases hi with ⟨rfl, -⟩ | rfl <;> cases hf

theorem fits_plain (hc : c.all isStraight = true) (he : effects pre c st = some st') :
    shapeFlow.Fits Γ pre (some st) (.plain c) (some st') := by
  induction c generalizing pre st with
  | nil => exact he
  | cons i c ih =>
    rw [List.all_cons, Bool.and_eq_true] at hc
    rw [effects, Option.bind_eq_some_iff] at he
    obtain ⟨st₁, hi, he⟩ := he
    exact fits_straight hc.1 hi (ih hc.2 he)

theorem fits_empty {o : Outline} (ho : o.code = []) : shapeFlow.Fits Γ pre x o x := by
  induction o generalizing pre with
  | nil => exact rfl
  | instr i rest => simp at ho
  | part p body rest ih₁ ih₂ =>
    simp only [Outline.code_part, List.append_eq_nil_iff] at ho
    exact ⟨x, x, rfl, ih₁ ho.1, fun hne => absurd ho.1 hne, ih₂ ho.2⟩

theorem fits_dead {o : Outline} (hl : ∀ l, .label l ∈ o.code → Γ l = none)
    (hy : o.code = [] → y = none) : shapeFlow.Fits Γ pre none o y := by
  induction o generalizing pre y with
  | nil => exact (hy rfl).symm
  | instr i rest ih =>
    have hat : ∀ z, shapeFlow.At Γ pre i none z :=
      fun z => ⟨fun l h => hl l (by simp [h]), fun _ h => (nomatch h),
        fun _ _ _ h => (nomatch h), fun _ _ h => (nomatch h)⟩
    by_cases hrest : rest.code = []
    · exact .instr (hat y) (fits_empty hrest)
    · exact .instr (hat none)
        (ih (fun l h => hl l (by simp [h])) fun h => absurd h hrest)
  | part p body rest ih₁ ih₂ =>
    have hl₁ : ∀ l, .label l ∈ body.code → Γ l = none := fun l h => hl l (by simp [h])
    have hl₂ : ∀ l, .label l ∈ rest.code → Γ l = none := fun l h => hl l (by simp [h])
    by_cases hrest : rest.code = []
    · exact ⟨none, y, rfl, ih₁ hl₁ fun h => hy (by simp [h, hrest]), fun _ _ h => (nomatch h),
        fits_empty hrest⟩
    · exact ⟨none, none, rfl, ih₁ hl₁ fun _ => rfl, fun _ _ h => (nomatch h),
        ih₂ hl₂ fun h => absurd h hrest⟩

end

end Shapes
end IntervalStack
