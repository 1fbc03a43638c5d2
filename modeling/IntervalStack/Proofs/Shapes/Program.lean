import IntervalStack.Proofs.Shapes.Machine
import IntervalStack.Proofs.Shapes.Runtime

/-! The operand stack of whole programs has one shape at every position that control can reach. -/

namespace IntervalStack

namespace Shapes
open Generator Outline
open IntervalStack.Flow (Assignable)

theorem turns_prologue {size : UInt32} {c : Code} (h : Frame.prologue cells size = .ok c) :
    Turns c [.int] [] := by
  refine .local (prologue_local h) fun pre st _ => ?_
  simp only [Frame.prologue, bind, Except.bind] at h
  split at h
  · cases h
  split at h
  · cases h
  cases h
  rfl

theorem turns_epilogue {locals params : UInt32} {ty : Ty} {c : Code}
    (h : Frame.epilogue cells locals params ty = .ok c) :
    ∃ c', c = c' ++ [.ret] ∧ Turns c' ((resultShape ty).tags ty) [.int] := by
  simp only [Frame.epilogue, bind, Except.bind] at h
  split at h
  · cases h
  split at h
  · cases h
  cases ty <;> simp only [Instr.store?] at h
  case void =>
    cases h
    exact ⟨_, rfl, .local rfl fun _ _ _ => rfl⟩
  all_goals
    split at h
    · cases h
    · cases h
      rw [List.append_cons _ _ [_, _], List.append_cons _ _ [_]]
      exact ⟨_, rfl, .local rfl fun _ _ _ => rfl⟩

section
variable {program : Program} {structs : StructTable} {spec : RoutineSpec} {s s' : State}
  {o : Outline}

structure SpecOk (program : Program) (spec : RoutineSpec) : Prop where
  typed : ∃ self, Typing.blockOk ⟨program, self, some spec.returnType⟩ spec.body = true
  returns : spec.body.completes = true → spec.returnType = .void

theorem specOk_of_declared (ht : program.wellTyped = true) (hr : program.returns = true)
    (h : Declared program structs spec) : SpecOk program spec := by
  simp only [Program.wellTyped, Bool.and_eq_true, List.all_eq_true] at ht
  simp only [Program.returns, Function.returns, Bool.and_eq_true, Bool.or_eq_true,
    List.all_eq_true, decide_eq_true_eq, Bool.not_eq_true'] at hr
  cases h with
  | @function f _ hf h =>
    simp only [functionSpec, bind, Except.bind] at h
    split at h
    · cases h
    cases h
    refine ⟨⟨none, ht.1.2 f hf⟩, fun hc => ?_⟩
    rcases hr.1 f hf with h | h
    · exact h
    · exact absurd (hc.symm.trans h) (by decide)
  | @initializer d _ hd =>
    exact ⟨⟨some d.id, (ht.2 d hd).1⟩, fun _ => rfl⟩
  | @method d _ f _ hd _ hf h =>
    simp only [methodSpec, bind, Except.bind] at h
    split at h
    · cases h
    split at h
    · cases h
    cases h
    refine ⟨⟨some d.id, (ht.2 d hd).2 f hf⟩, fun hc => ?_⟩
    rcases hr.2 d hd f hf with h | h
    · exact h
    · exact absurd (hc.symm.trans h) (by decide)

theorem fits_routine (h : RoutineEmits program structs spec s o s') (hspec : SpecOk program spec)
    {pre : Code} (hpre : Code.HasTexts pre) (y : Option (List Tag)) :
    Assignable s.labels.count s'.labels.count fun Γ =>
      Γ spec.label = some [.int] → shapeFlow.Fits Γ pre (some [.int]) o y := by
  cases h with
  | @mk prologue epilogue o r s' hp hb hr he =>
    obtain ⟨self, htyped⟩ := hspec.typed
    obtain ⟨c, rfl, hc⟩ := turns_epilogue he
    let exit := s.label "exit"
    let result := (resultShape spec.returnType).tags spec.returnType
    let p₁ := pre ++ [.label spec.label] ++ prologue
    let p₂ := p₁ ++ o.code ++ [.label exit]
    have hp₁ : Code.HasTexts p₁ := (hpre.append _).append _
    have hp₂ : Code.HasTexts p₂ := (hp₁.append _).append _
    have hbody : Proceeds (routineContext program structs spec exit) _ _ spec.body.completes o :=
      performs_runs hb ⟨rfl, rfl⟩ htyped
    have hend : spec.body.completes = true → some result = some [] := by
      intro hcompletes
      simp only [result, hspec.returns hcompletes]
      rfl
    have hrelease : Converts s'.labels.count s'.labels.count result result
        (r ++ plain (drainIf s'.exitPushed)) := by
      simpa using ((converts_releases hr).append (.straight (turns_drainIf _))).frame result
    refine ((Assignable.choose s.labels.count fun _ => some result).and
      ((hbody.fits p₁ _ hp₁ hend).and (hrelease.fits p₂ [] hp₂) hb.grows.count (Nat.le_refl _))
        (Nat.le_succ _) hb.grows.count).mono ?_
    rintro Γ ⟨hΓ, hrun, hrel⟩ hlabel
    have hexit : Γ exit = some result := hΓ _ (number?_label s (by decide))
    have haround : Around Γ (routineContext program structs spec exit) := by
      refine ⟨fun _ h => (nomatch h), ?_⟩
      rintro _ ⟨⟩
      exact hexit
    have hepilogue : ∀ pre, Code.HasTexts pre → shapeFlow.Fits Γ pre (some result)
        (wrap (.epilogue spec.returnType) (plain (c ++ [.ret]))) y := by
      intro pre hpre
      refine Flow.Fits.wrap ?_ ?_
      · have hrun := fits_turns (Γ := Γ) (d := [.ret]) (r := []) (y := y) hc hpre
          (fits_end (.inl ⟨rfl, rfl⟩) rfl)
        rwa [List.append_nil] at hrun
      · rintro _ ⟨⟩
        rfl
    rw [List.append_nil] at hrel
    refine Flow.Fits.wrap ?_ (by rintro _ ⟨⟩; rfl)
    simp only [Outline.append_assoc, plain_cons, instr_append]
    refine fits_label hlabel ?_
    have hstart := turns_prologue hp
    refine (fits_plain hstart.straight (hstart.effects _ [] (hpre.append _))).append ?_
    rw [code_plain]
    have htail := hrel.append (hepilogue _ (hp₂.append _))
    rw [Outline.append_assoc] at htail
    exact (hrun haround).append (fits_label hexit htail)

theorem fits_routines {specs : List RoutineSpec} (h : Routines program structs specs s o s')
    (hspecs : ∀ spec ∈ specs, SpecOk program spec) (y : Option (List Tag)) :
    ∃ x, ∀ pre, Code.HasTexts pre → Assignable s.labels.count s'.labels.count fun Γ =>
      (∀ spec ∈ specs, Γ spec.label = some [.int]) → shapeFlow.Fits Γ pre x o y := by
  induction h with
  | nil => exact ⟨y, fun _ _ => .of_forall fun _ _ => rfl⟩
  | @cons spec specs s s₁ s₂ o₁ o₂ h hs ih =>
    obtain ⟨x, hx⟩ := ih fun spec' h' => hspecs spec' (List.mem_cons_of_mem _ h')
    refine ⟨some [.int], fun pre hpre => ?_⟩
    refine ((fits_routine h (hspecs _ List.mem_cons_self) hpre x).and
      (hx (pre ++ o₁.code) (hpre.append _)) h.grows hs.grows).mono ?_
    rintro Γ ⟨hΓ₁, hΓ₂⟩ hlabels
    exact (hΓ₁ (hlabels _ List.mem_cons_self)).append
      (hΓ₂ fun spec' h' => hlabels spec' (List.mem_cons_of_mem _ h'))

end

theorem hasTexts_opening (size : UInt32) : (Environment.opening cells size).HasTexts := by
  intro p hp
  simp only [Code.printedTexts, List.mem_cons, List.not_mem_nil, or_false] at hp
  rcases hp with rfl | rfl | rfl | rfl | rfl | rfl | rfl | rfl | rfl | rfl <;> rfl

theorem isRoutine_of_isRoutineLabel {l : String} (h : IsRoutineLabel l) : IsRoutine l := by
  cases h with
  | function name => exact isRoutine_functionLabel name
  | initializer code => exact isRoutine_initializerLabel code
  | method code name => exact isRoutine_methodLabel code name

theorem fits_data {Γ : String → Option (List Tag)} (hΓ : IsFixing Γ) (size : UInt32)
    (counter : RefCounter) (structs : StructTable) (y : Option (List Tag)) :
    shapeFlow.Fits Γ [] (some [])
      (plain (Environment.opening cells size ++ counter.data ++ structNames structs)) y := by
  have hmain : Γ Environment.mainLabel = some [] := hΓ _ (by decide)
  have hnames : ∀ l, .label l ∉ structNames structs := by
    intro l hl
    simp [structNames, Environment.dataString] at hl
  have hcode : Environment.opening cells size ++ counter.data ++ structNames structs =
      .jump Environment.mainLabel :: ((Environment.opening cells size).tail ++ counter.data
        ++ structNames structs) := rfl
  rw [hcode]
  refine fits_jump (z := none) ?_ (fits_dead (fun l hl => ?_) fun h => ?_)
  · rintro _ ⟨⟩
    exact .inr hmain
  · simp only [code_plain, List.mem_append, hnames, or_false] at hl
    simp [Environment.opening, Environment.dataString, RefCounter.data, Cells.declare] at hl
  · simp [Environment.opening] at h

theorem IsFixing.routine {Γ : String → Option (List Tag)} (hΓ : IsFixing Γ) {l : String}
    (h : IsRoutineLabel l) : Γ l = some [.int] := by
  have hl := isRoutine_of_isRoutineLabel h
  obtain ⟨hn, hshape⟩ := fixedShape_of_isEntry hl.entry
  rw [hΓ l hn, hshape, hl.takes]

theorem listing_fits {program : Program} {capacity : UInt32} {o : Outline}
    (h : Listing program capacity o) (ht : program.wellTyped = true)
    (hr : program.returns = true) :
    ∃ Γ, IsFixing Γ ∧ shapeFlow.Fits Γ [] (some []) o none := by
  cases h with
  | @mk counter structs specs main routines printers s₁ s₂ s₃ hc hs hm hrs hd hp =>
    obtain ⟨xp, hprinters⟩ := fits_intervalPrinters hp (some [.int])
    obtain ⟨xr, hroutines⟩ := fits_routines hrs
      (fun spec hspec => specOk_of_declared ht hr ((hd spec).1 hspec)) xp
    let start := runtime counter program structs
    let p₁ := start ++ [.label Environment.mainLabel] ++ (Frame.entry cells ++ RefCounter.reset)
    let p₂ := p₁ ++ main.code ++ [.halt]
    let p₃ := p₂ ++ routines.code
    have hstart : Code.HasTexts start := by
      simp only [start, runtime, List.append_assoc]
      exact (hasTexts_opening _).append _
    have hp₁ : Code.HasTexts p₁ := (hstart.append _).append _
    have hp₂ : Code.HasTexts p₂ := (hp₁.append _).append _
    have hp₃ : Code.HasTexts p₃ := hp₂.append _
    have htyped : Typing.blockOk ⟨program, none, none⟩ program.main = true := by
      simp only [Program.wellTyped, Bool.and_eq_true] at ht
      exact ht.1.1
    have hmain : Proceeds (mainContext program structs) _ _ program.main.completes main :=
      performs_runs hm ⟨rfl, rfl⟩ htyped
    have hall := ((hmain.fits p₁ (if program.main.completes then some [] else none) hp₁
      fun h => if_pos h).and (hroutines p₂ hp₂) hm.grows.count hrs.grows).and (hprinters p₃ hp₃)
        (Nat.le_trans hm.grows.count hrs.grows) (intervalPrinters_grows hp).count
    obtain ⟨Γ, hΓ, ⟨hΓ₁, hΓ₂⟩, hΓ₃⟩ := hall.labels fun l => some (fixedShape l)
    have hlabel : Γ Environment.mainLabel = some [] := hΓ _ (by decide)
    have hspecs : ∀ spec ∈ specs, Γ spec.label = some [.int] := by
      intro spec hspec
      exact IsFixing.routine hΓ ((hd spec).1 hspec).isRoutineLabel
    have hprinter : ∀ k : ScalarKind, Γ k.printer = some [.int, .int] := by
      intro k
      cases k <;> exact hΓ _ (by decide)
    have hruntime : shapeFlow.Fits Γ [] (some []) (plain start) (some []) := by
      simp only [start, runtime]
      rw [plain_append]
      refine (fits_data hΓ _ counter structs (some [.int, .int])).append ?_
      rw [code_plain, List.nil_append, List.append_assoc]
      exact fits_subroutines hΓ ((hasTexts_opening _).append _) counter structs (some [])
    have hhalt : shapeFlow.Fits Γ (p₁ ++ main.code)
        (if program.main.completes then some [] else none) (plain [.halt]) xr := by
      split
      · exact fits_end (.inr rfl) rfl
      · exact fits_dead (fun l hl => by simp at hl) fun h => by simp at h
    have haround : Around Γ (mainContext program structs) := ⟨by rintro _ ⟨⟩, by rintro _ ⟨⟩⟩
    have hmainPart : shapeFlow.Fits Γ start (some []) (wrap .main (plain
        (.label Environment.mainLabel :: (Frame.entry cells ++ RefCounter.reset)) ++ main
          ++ plain [.halt])) xr := by
      refine Flow.Fits.wrap ?_ (by rintro _ ⟨⟩; rfl)
      simp only [Outline.append_assoc, plain_cons, instr_append]
      refine fits_label hlabel ?_
      refine (fits_plain rfl rfl).append ((hΓ₁ haround).append hhalt)
    have hhandlers : shapeFlow.Fits Γ (p₃ ++ printers) (some [.int])
        (plain Environment.errorHandlers) none :=
      fits_errorHandlers hΓ (hp₃.append _) none
    refine ⟨Γ, hΓ, ?_⟩
    simp only [Outline.append_assoc]
    refine hruntime.append ?_
    rw [code_plain, List.nil_append]
    have hbehind : start ++ (wrap .main (plain (.label Environment.mainLabel :: (Frame.entry cells
        ++ RefCounter.reset)) ++ main ++ plain [.halt])).code = p₂ := by simp [p₂, p₁]
    simp only [Outline.append_assoc] at hmainPart hbehind
    refine hmainPart.append ?_
    rw [hbehind]
    refine (hΓ₂ hspecs).append ((hΓ₃ hprinter).append ?_)
    rw [code_plain]
    exact hhandlers

end Shapes

/-- Control can reach the position from the main program or from the start of a routine. A call
leads to the label that it calls, and comes back. -/
inductive Code.Reached (code : Code) : Nat → Prop
  | main {i} (h : code[i]? = some (.label Environment.mainLabel)) : Reached code i
  | routine {i l} (h : code[i]? = some (.label l)) (hl : Generator.IsRoutineLabel l) :
    Reached code i
  | edge {i j} (h : Reached code i) (he : code.Edge i j) : Reached code j
  | call {i j l} (h : Reached code i) (hc : code[i]? = some (.call l))
    (hl : code[j]? = some (.label l)) : Reached code j

open Shapes in
/-- `A` gives the positions of a listing shapes of the operand stack that fit together, counted from
where the routine at work was entered. -/
structure Outline.HasShapes (o : Outline) (A : Nat → Option (List Tag)) : Prop where
  main : ∀ i, o.code[i]? = some (.label Environment.mainLabel) → A i = some []
  routine : ∀ i l, o.code[i]? = some (.label l) → Generator.IsRoutineLabel l → A i = some [.int]
  callee : ∀ i j l, o.code[i]? = some (.call l) → (A i).isSome → o.code[j]? = some (.label l) →
    A j = some (.int :: calleeTakes l)
  handler : ∀ i l, o.code[i]? = some (.label l) → l ∈ fatalHandlers → A i = some []
  operands : ∀ i x st, o.code[i]? = some x → A i = some st → (effect (o.code.take i) x st).isSome
  fall : ∀ i x st, o.code[i]? = some x → x.fallsThrough = true → A i = some st →
    A (i + 1) = effect (o.code.take i) x st
  jump : ∀ i j x l st, o.code[i]? = some x → x.jumpTarget? = some l →
    o.code[j]? = some (.label l) → l ∉ fatalHandlers → A i = some st →
      A j = effect (o.code.take i) x st
  part : ∀ p a c st, (p, a, c) ∈ o.spans 0 → A a = some st → p.Turns st (A (a + c.length))

namespace Outline.HasShapes
open Shapes

variable {o : Outline} {A : Nat → Option (List Tag)}

theorem reached (h : o.HasShapes A) {i : Nat} (hi : o.code.Reached i) : (A i).isSome = true := by
  induction hi with
  | main hi => rw [h.main _ hi]; rfl
  | routine hi hl => rw [h.routine _ _ hi hl]; rfl
  | call _ hc hl ih => rw [h.callee _ _ _ hc ih hl]; rfl
  | @edge i j _ he ih =>
    obtain ⟨st, hst⟩ := Option.isSome_iff_exists.1 ih
    cases he with
    | fall hx hf =>
      rw [h.fall i _ st hx hf hst]
      exact h.operands i _ st hx hst
    | @jump _ x l hx ht hl =>
      by_cases hfatal : l ∈ fatalHandlers
      · rw [h.handler j l hl hfatal]
        rfl
      · rw [h.jump i j x l st hx ht hl hfatal hst]
        exact h.operands i x st hx hst

end Outline.HasShapes

namespace Shapes
open Generator Outline

theorem listing_hasShapes {program : Program} {capacity : UInt32} {o : Outline}
    (h : Listing program capacity o) (ht : program.wellTyped = true)
    (hr : program.returns = true) : ∃ A, o.HasShapes A := by
  obtain ⟨Γ, hΓ, hfits⟩ := listing_fits h ht hr
  obtain ⟨A, -, -, hA, hparts⟩ := hfits.solution
  have hat : ∀ {i : Nat} {x : Instr}, o.code[i]? = some x →
      shapeFlow.At Γ (o.code.take i) x (A i) (A (i + 1)) := by
    intro i x hi
    have h := hA.at hi
    simpa only [List.nil_append, List.length_nil, Nat.zero_add] using h
  have hlabel : ∀ {i : Nat} {l : String}, o.code[i]? = some (.label l) → A i = Γ l :=
    fun hi => ((hat hi).label _ rfl).symm
  refine ⟨A, ?_, ?_, ?_, ?_, ?_, ?_, ?_, fun p a c st hspan hst => hparts p a c hspan st hst⟩
  · intro i hi
    rw [hlabel hi]
    exact hΓ _ (by decide)
  · intro i l hi hl
    rw [hlabel hi, hΓ.routine hl]
  · intro i j l hc hi hl
    obtain ⟨st, hst⟩ := Option.isSome_iff_exists.1 hi
    obtain ⟨hn, hshape⟩ := fixedShape_of_isEntry (((hat hc).check st hst).2 l rfl)
    rw [hlabel hl, hΓ l hn, hshape]
  · intro i l hi hl
    rw [hlabel hi]
    simp only [fatalHandlers, List.mem_cons, List.not_mem_nil, or_false] at hl
    rcases hl with rfl | rfl <;> exact hΓ _ (by decide)
  · intro i x st hx hst
    exact ((hat hx).check st hst).1
  · intro i x st hx hf hst
    exact (hat hx).fall hf st hst fun _ h => nomatch h
  · intro i j x l st hx ht hl hfatal hst
    rw [hlabel hl]
    refine (hat hx).jump l ht st hst ?_
    rintro _ ⟨⟩
    exact hfatal

/-- The operand stack of generated code has one shape at every position that can be reached, however
control comes there. A machine that finds the shapes of a position finds the operands of its
instruction; the arguments of a print are told by the text that the listing has for its format. -/
theorem shapes_agree_on_all_paths {program : Program} {capacity : UInt32} {code : Code}
    (h : generate program capacity = .ok code) (ht : program.wellTyped = true)
    (hr : program.returns = true) :
    (∃ o, Listing program capacity o ∧ o.code = code) ∧
      ∀ o, Listing program capacity o → o.code = code →
        ∃ A, o.HasShapes A ∧ (∀ i, code.Reached i → (A i).isSome = true) ∧
          ∀ i x st, code[i]? = some x → x ≠ .printf → A i = some st →
            ∀ (m : Machine) (pc : Nat) (base : List Tag), m.stack.map Value.tag = st ++ base →
              Machine.Ends (Machine.execute pc x) m fun _ _ => True := by
  refine ⟨generate_listing h, ?_⟩
  rintro o ho rfl
  obtain ⟨A, hA⟩ := listing_hasShapes ho ht hr
  refine ⟨A, hA, fun i hi => hA.reached hi, ?_⟩
  intro i x st hx hp hst m pc base hm
  obtain ⟨st', he⟩ := Option.isSome_iff_exists.1 (hA.operands i x st hx hst)
  exact (execute_ends he hp hm).mono fun _ _ _ => trivial

/-- A function that returns a float from inside of a loop, and a main program that prints it. -/
def halving : Program :=
  let x : Binding := ⟨"x", .float, .aboveFrame 0⟩
  let isSmall : Expr := .binary .less (.ident x) (.float ⟨0x3ff0000000000000⟩)
  let half : Expr := .binary .div (.ident x) (.float ⟨0x4000000000000000⟩)
  let body : Block := ⟨.empty, [⟨.ifElse isSmall ⟨.empty, [⟨.ret (some (.ident x)), .none⟩]⟩ none,
    .none⟩, ⟨.update (.ident x) half, .none⟩]⟩
  ⟨0, [], [⟨"f", [x], .float, 0, ⟨.empty, [⟨.loop (.bool true) body, .none⟩,
    ⟨.ret (some half), .none⟩]⟩, .none⟩],
    ⟨.empty, [⟨.print [.call "f" [.float ⟨0x4008000000000000⟩] .float] false true, .none⟩]⟩⟩

theorem shapes_agree_on_all_paths_halving :
    ∃ code, generate halving 4 = .ok code ∧ halving.wellTyped = true ∧ halving.returns = true ∧
      (∃ o, Listing halving 4 o ∧ o.code = code) ∧
        ∀ o, Listing halving 4 o → o.code = code →
          ∃ A, o.HasShapes A ∧ (∀ i, code.Reached i → (A i).isSome = true) ∧
            ∀ i x st, code[i]? = some x → x ≠ .printf → A i = some st →
              ∀ (m : Machine) (pc : Nat) (base : List Tag), m.stack.map Value.tag = st ++ base →
                Machine.Ends (Machine.execute pc x) m fun _ _ => True := by
  have hok : (generate halving 4).toBool = true := by decide +kernel
  have ht : halving.wellTyped = true := by decide
  have hr : halving.returns = true := by decide
  cases h : generate halving 4 with
  | error => simp [h, Except.toBool] at hok
  | ok code => exact ⟨code, rfl, ht, hr, shapes_agree_on_all_paths h ht hr⟩

end Shapes
end IntervalStack
