import IntervalStack.Proofs.ListingLabels
import IntervalStack.Proofs.Shapes.Basic

/-! The shape of the operand stack along the code of expressions. -/

namespace IntervalStack.Shapes
open Generator Outline
open IntervalStack.Flow (Assignable)

structure Turns (c : Code) (u v : List Tag) : Prop where
  straight : c.all isStraight = true
  effects : ∀ pre st, Code.HasTexts pre → effects pre c (u ++ st) = some (v ++ st)

structure Converts (n n' : Nat) (u v : List Tag) (o : Outline) : Prop where
  le : n ≤ n'
  labels : ∀ l, .label l ∈ o.code → IsBetween n n' l
  fits : ∀ pre st, Code.HasTexts pre →
    Assignable n n' fun Γ => shapeFlow.Fits Γ pre (some (u ++ st)) o (some (v ++ st))

section
variable {n m n' : Nat} {u v w : List Tag} {o o' : Outline} {c d : Code} {i j : Instr}

theorem effects_append (pre c d : Code) (st : List Tag) :
    effects pre (c ++ d) st = (effects pre c st).bind (effects (pre ++ c) d) := by
  induction c generalizing pre st with
  | nil => simp [effects]
  | cons i c ih =>
    simp only [List.cons_append, effects, Option.bind_assoc]
    congr 1
    funext st
    simp [ih]

theorem Turns.append (h : Turns c u v) (h' : Turns d v w) : Turns (c ++ d) u w := by
  refine ⟨by simp [h.straight, h'.straight], fun pre st hpre => ?_⟩
  rw [effects_append, h.effects pre st hpre, Option.bind_some, h'.effects _ st (hpre.append c)]

theorem Turns.frame (h : Turns c u v) (w : List Tag) : Turns c (u ++ w) (v ++ w) :=
  ⟨h.straight, fun pre st hpre => by simp only [List.append_assoc, h.effects _ _ hpre]⟩

theorem label_not_mem (h : c.all isStraight = true) (l : String) : .label l ∉ c := by
  intro hl
  cases List.all_eq_true.1 h _ hl

theorem Converts.straight (h : Turns c u v) : Converts n n u v (plain c) := by
  refine ⟨Nat.le_refl n, fun l hl => ?_, fun pre st hpre =>
    .of_forall fun _ => fits_plain h.straight (h.effects pre st hpre)⟩
  rw [code_plain] at hl
  exact absurd hl (label_not_mem h.straight l)

theorem Converts.append (h : Converts n m u v o) (h' : Converts m n' v w o') :
    Converts n n' u w (o ++ o') := by
  refine ⟨Nat.le_trans h.le h'.le, fun l hl => ?_, fun pre st hpre =>
    ((h.fits pre st hpre).and (h'.fits (pre ++ o.code) st (hpre.append _)) h.le h'.le).mono
      fun _ hΓ => hΓ.1.append hΓ.2⟩
  rw [code_append, List.mem_append] at hl
  rcases hl with hl | hl
  · exact (h.labels l hl).mono (Nat.le_refl n) h'.le
  · exact (h'.labels l hl).mono h.le (Nat.le_refl n')

theorem Converts.frame (h : Converts n n' u v o) (w : List Tag) :
    Converts n n' (u ++ w) (v ++ w) o :=
  ⟨h.le, h.labels, fun pre st hpre => by
    simpa only [List.append_assoc] using h.fits pre (w ++ st) hpre⟩

theorem Converts.wrap (h : Converts n n' u v o) {p : Part}
    (hp : ∀ st, p.Turns (u ++ st) (some (v ++ st))) : Converts n n' u v (wrap p o) := by
  refine ⟨h.le, fun l hl => h.labels l (code_wrap p o ▸ hl),
    fun pre st hpre => (h.fits pre st hpre).mono fun Γ hΓ => hΓ.wrap ?_⟩
  rintro _ ⟨⟩
  exact hp st

theorem Converts.choice {s : State} {stem yes join : String} {j' : Instr} {t : Tag}
    (hs : stem ∈ stems) (hne : yes ≠ join)
    (ht : i.jumpTarget? = some (Labels.part (s.label stem) yes)) (hf : i.fallsThrough = true)
    (hi : ∀ pre st, effect pre i (t :: st) = some st) (h : Turns [j] [] [.int])
    (h' : Turns [j'] [] [.int]) :
    Converts s.labels.count s.next.labels.count [t] [.int]
      (plain [i, j, .jump (Labels.part (s.label stem) join), .label (Labels.part (s.label stem) yes),
        j', .label (Labels.part (s.label stem) join)]) := by
  have hj := label_not_mem h.straight
  have hj' := label_not_mem h'.straight
  refine ⟨Nat.le_succ _, fun l hl => ?_, fun pre st hpre => ?_⟩
  · simp only [List.mem_singleton] at hj hj'
    have hi : .label l ≠ i := by
      rintro rfl
      cases ht
    simp only [code_plain, List.mem_cons, hi, hj, hj', Instr.label.injEq, reduceCtorEq,
      List.not_mem_nil, or_false, false_or] at hl
    rcases hl with rfl | rfl <;> exact isBetween_part s _ hs
  refine (Assignable.choose s.labels.count fun l =>
    if l = Labels.part (s.label stem) join then some (.int :: st) else some st).mono fun Γ hΓ => ?_
  have hjoin : Γ (Labels.part (s.label stem) join) = some (.int :: st) := by
    rw [hΓ _ (number?_part s join hs), if_pos rfl]
  have hyes : Γ (Labels.part (s.label stem) yes) = some st := by
    rw [hΓ _ (number?_part s yes hs), if_neg fun h => hne (part_inj h)]
  refine fits_branch ht hf (hi _ _) (.inr hyes) ?_
  refine (fits_plain h.straight (h.effects _ st (hpre.append _))).append ?_
  refine fits_jump (z := some st) (fun _ h => .inr (h ▸ hjoin)) (fits_label hyes ?_)
  simp only [List.append_assoc]
  exact (fits_plain h'.straight (h'.effects _ st (hpre.append _))).append (fits_label hjoin rfl)

theorem Converts.skipped {s : State} {stem : String}
    (h : Converts s.next.labels.count n' [] [.int] o) (hs : stem ∈ stems)
    (ht : i.jumpTarget? = some (s.label stem)) (hf : i.fallsThrough = true)
    (hi : ∀ pre st, effect pre i (.int :: st) = some st) :
    Converts s.labels.count n' [.int] [.int]
      (plain [.duplicate, i, .pop] ++ o ++ plain [.label (s.label stem)]) := by
  refine ⟨Nat.le_trans (Nat.le_succ _) h.le, fun l hl => ?_, fun pre st hpre => ?_⟩
  · have hi : .label l ≠ i := by
      rintro rfl
      cases ht
    simp only [code_append, code_plain, List.mem_append, List.mem_cons, hi, Instr.label.injEq,
      reduceCtorEq, List.not_mem_nil, or_false, false_or] at hl
    rcases hl with hl | rfl
    · exact (h.labels l hl).mono (Nat.le_succ _) (Nat.le_refl _)
    · exact (isBetween_label s hs).mono (Nat.le_refl _) h.le
  have hbefore : Code.HasTexts (pre ++ [.duplicate] ++ [i] ++ [.pop]) :=
    ((hpre.append _).append _).append _
  refine ((Assignable.choose s.labels.count fun _ => some (.int :: st)).and
    (h.fits _ st hbefore) (Nat.le_succ _) h.le).mono fun Γ hΓ => ?_
  have hl := hΓ.1 _ (number?_label s hs)
  refine fits_straight rfl rfl (fits_branch ht hf (hi _ _) (.inr hl) ?_)
  exact fits_straight rfl rfl (hΓ.2.append (fits_label hl rfl))

end

structure IsRoutine (l : String) : Prop where
  entry : isEntry l = true
  takes : calleeTakes l = []
  leaves : calleeLeaves l = []

theorem IsRoutine.of_start {l rest : String} {start : List Char} (hn : number? l = none)
    (hl : l.toList = start ++ rest.toList) (hs : start ∈ routineStarts) : IsRoutine l := by
  have hstart : start <+: l.toList := hl ▸ List.prefix_append _ _
  have hnot : l ∉ innerShapes.map (·.1) ++ takesRecord := by
    intro hmem
    have hpre := List.all_eq_true.1 (List.all_eq_true.1 routineStarts_known l hmem) start hs
    rw [List.isPrefixOf_iff_prefix.2 hstart] at hpre
    cases hpre
  rw [List.mem_append, not_or] at hnot
  have hrelease := List.all_eq_true.1 routineStarts_release start hs
  rw [Bool.and_eq_true, decide_eq_true_eq, Bool.not_eq_true'] at hrelease
  have hinner : innerShape? l = none := by
    unfold innerShape?
    rw [if_neg, List.lookup_eq_none_iff]
    · intro p hp
      rw [bne_iff_ne]
      rintro rfl
      exact hnot.1 (List.mem_map_of_mem hp)
    · intro hpre
      have h := List.prefix_of_prefix_length_le hstart (List.isPrefixOf_iff_prefix.1 hpre) hrelease.1
      rw [← List.isPrefixOf_iff_prefix, hrelease.2] at h
      cases h
  have hallocate : l ≠ Environment.allocateEntry := by
    rintro rfl
    exact hnot.2 (by simp [takesRecord])
  exact ⟨by simp [isEntry, hn, hinner], if_neg hnot.2, if_neg hallocate⟩

theorem isRoutine_functionLabel (name : String) : IsRoutine (functionLabel name) :=
  .of_start (isFixed_functionLabel name).number String.toList_append (by simp [routineStarts])

theorem isRoutine_initializerLabel (typeCode : Int32) : IsRoutine (initializerLabel typeCode) :=
  .of_start (isFixed_initializerLabel typeCode).number String.toList_append (by simp [routineStarts])

theorem isRoutine_methodLabel (typeCode : Int32) (name : String) :
    IsRoutine (methodLabel typeCode name) := by
  have hl : (methodLabel typeCode name).toList = "-method-".toList
      ++ (toString typeCode.toInt ++ ("-" ++ name)).toList := by
    simp [methodLabel, String.toList_append]
  exact .of_start (isFixed_methodLabel typeCode name).number hl (by simp [routineStarts])

theorem IsRoutine.turns {l : String} (h : IsRoutine l) : Turns [.call l] [] [] := by
  refine ⟨by simp [isStraight, h.entry], fun pre st _ => ?_⟩
  simp [effects, effect, h.takes, h.leaves, exchangeTop]

theorem isStraight_of_isLocal {i : Instr} (h : i.isLocal = true) : isStraight i = true := by
  cases i <;> first | exact h | cases h

section
variable {ty : Ty} {i : Instr} {c : Code} {xs ys : List Tag}

theorem Turns.local (h : c.all Instr.isLocal = true)
    (he : ∀ pre st, Code.HasTexts pre → Shapes.effects pre c (xs ++ st) = some (ys ++ st)) : Turns c xs ys :=
  ⟨List.all_eq_true.2 fun i hi => isStraight_of_isLocal (List.all_eq_true.1 h i hi), he⟩

theorem turns_nil (xs : List Tag) : Turns [] xs xs := .local rfl fun _ _ _ => rfl

theorem Turns.runtime (hi : i ∈ runtimeCalls)
    (he : ∀ pre st, Code.HasTexts pre → Shapes.effects pre [i] (xs ++ st) = some (ys ++ st)) :
    Turns [i] xs ys :=
  ⟨by simpa using List.all_eq_true.1 isStraight_runtimeCalls i hi, he⟩

theorem turns_push : Turns [RefCounter.push] [.int] [] :=
  .runtime (by simp [runtimeCalls]) fun _ _ _ => rfl

theorem turns_increment : Turns [RefCounter.increment] [.int] [] :=
  .runtime (by simp [runtimeCalls]) fun _ _ _ => rfl

theorem turns_allocate : Turns [.call Environment.allocateEntry] [.int] [.int] :=
  .runtime (by simp [runtimeCalls]) fun _ _ _ => rfl

theorem turns_count : Turns [.duplicate, RefCounter.increment] [.int] [.int] :=
  Turns.append (c := [.duplicate]) (.local rfl fun _ _ _ => rfl) (turns_increment.frame [.int])

theorem turns_displaced {base : Code} (hb : Turns base [] [.int]) (offset : Int32) :
    Turns (Frame.displaced base offset) [] [.int] := by
  unfold Frame.displaced
  split
  · exact hb
  · exact hb.append (.local rfl fun _ _ _ => rfl)

theorem turns_storageAddress {storage : Storage} {selfSlot : Option Int32}
    (h : Frame.storageAddress? cells storage selfSlot = some c) : Turns c [] [.int] := by
  have hglobal : Turns [.pushD Frame.globalBlock] [] [.int] := .local rfl fun _ _ _ => rfl
  have hframe : Turns cells.loadFrame [] [.int] := .local rfl fun _ _ _ => rfl
  unfold Frame.storageAddress? at h
  split at h
  · cases h
    exact turns_displaced hglobal _
  · cases h
    exact turns_displaced hframe _
  · cases h
    exact turns_displaced hframe _
  · obtain ⟨slot, -, rfl⟩ := Option.map_eq_some_iff.1 h
    exact turns_displaced (.local rfl fun _ _ _ => rfl) _

theorem turns_load (h : Instr.load? ty = some i) : Turns [i] [.int] [ty.tag] := by
  cases ty <;> cases h <;> exact .local rfl fun _ _ _ => rfl

theorem turns_store (h : Instr.store? ty = some i) : Turns [i] [ty.tag, .int] [] := by
  cases ty <;> cases h <;> exact .local rfl fun _ _ _ => rfl

theorem turns_pushArgument (h : ty ≠ .void) : Turns (Frame.pushArgument cells ty) [ty.tag] [] := by
  cases ty
  case void => exact absurd rfl h
  all_goals exact .local rfl fun _ _ _ => rfl

theorem turns_fetchResult (ty : Ty) :
    Turns (Frame.fetchResult cells ty) [] ((resultShape ty).tags ty) := by
  cases ty <;> exact .local rfl fun _ _ _ => rfl

theorem turns_releaseReceiver (ty : Ty) :
    Turns (releaseReceiver ty) ((resultShape ty).tags ty ++ [.int]) ((resultShape ty).tags ty) := by
  unfold releaseReceiver resultShape
  split
  · exact turns_push
  · exact Turns.append (c := [.exchange]) (.local rfl fun _ _ _ => rfl) (turns_push.frame [ty.tag])

theorem turns_allocateRecord (size : UInt32) (typeCode : Int32) :
    Turns (allocateRecord size typeCode) [] [.int] :=
  Turns.append (c := [.pushI size.toInt32]) (.local rfl fun _ _ _ => rfl)
    (turns_allocate.append (.local rfl fun _ _ _ => rfl))

theorem turns_newStruct (l : StructLayout) : Turns (newStructCode l) [] [.int] := by
  have hslots : ∀ slots : List Int32, Turns (slots.flatMap fun slot =>
      [.duplicate, .pushI slot, .add, .pushI 0, .storeI]) [.int] [.int] := by
    intro slots
    induction slots with
    | nil => exact turns_nil _
    | cons slot slots ih =>
      rw [List.flatMap_cons]
      exact Turns.append (.local rfl fun _ _ _ => rfl) ih
  have hcall : Turns (Frame.callInitializer cells (initializerLabel l.typeCode)) [.int] [.int] :=
    Turns.append (.local rfl fun _ _ _ => rfl)
      ((isRoutine_initializerLabel l.typeCode).turns.frame [.int])
  exact (((turns_allocateRecord _ _).append (.local rfl fun _ _ _ => rfl)).append (hslots _)).append
    hcall

end

theorem arithmetic_converts {n : Nat} {op : BinOp} {ty : Ty} {c : Code}
    (h : arithmetic? op ty.isFloat = some c) :
    Converts n n [ty.tag, ty.tag] [ty.tag] (plain c) := by
  -- Only a division jumps, to a handler that takes any stack.
  have hjump : ∀ {i j : Instr} {t : Tag}, i.jumpTarget? = some Environment.divideByZero →
      i.fallsThrough = true → (∀ pre st, effect pre i (t :: st) = some st) →
        Turns [j] [t, t] [t] → Converts n n [t, t] [t] (plain [.duplicate, i, j]) := by
    intro i j t ht hf hi hj
    refine ⟨Nat.le_refl n, fun l hl => ?_, fun pre st hpre => .of_forall fun Γ => ?_⟩
    · have hi : .label l ≠ i := by
        rintro rfl
        cases ht
      have hj := label_not_mem hj.straight l
      simp_all
    refine fits_straight rfl rfl (fits_branch ht hf (hi _ _) (.inl (by decide)) ?_)
    exact fits_plain hj.straight (hj.effects _ st ((hpre.append _).append _))
  unfold Ty.tag
  cases op <;> cases hf : ty.isFloat <;> rw [hf] at h <;> cases h <;>
    first
    | exact .straight (.local rfl fun _ _ _ => rfl)
    | exact hjump rfl rfl (fun _ _ => rfl) (.local rfl fun _ _ _ => rfl)

theorem unary_converts {op : UnaryOp} {ty : Ty} {span : Span} {s s' : State} {c : Code}
    (h : unaryCode op ty span s = .ok (c, s')) :
    Converts s.labels.count s'.labels.count [ty.tag] [(op.result ty).tag] (plain c) := by
  cases op <;> cases ty <;>
    simp only [unaryCode, refuse_ok, bind_ok, fresh_ok, pure_ok] at h <;>
    first
    | (obtain ⟨rfl, rfl⟩ := h
       exact .straight (.local rfl fun _ _ _ => rfl))
    | (obtain ⟨_, _, ⟨rfl, rfl⟩, rfl, rfl⟩ := h
       exact .choice (by decide) (by decide) rfl rfl (fun _ _ => rfl) (.local rfl fun _ _ _ => rfl)
         (.local rfl fun _ _ _ => rfl))

def JobOk (t : Typing) : Job → Prop
  | .expr e _ | .value e _ | .owned e => t.exprOk e = true
  | .kind kind ty _ _ => t.kindOk ty kind = true
  | .member object _ _ _ => t.exprOk object = true ∧ object.ty.isHeap = true
  | .args tys es => t.exprsOk es = true ∧ es.map (·.ty) = tys

def jobLeaves : Job → List Tag
  | .expr e shape => shape.tags e.ty
  | .kind _ ty _ shape | .member _ _ ty shape => shape.tags ty
  | .value e _ | .owned e => [e.ty.tag]
  | .args _ _ => []

def valueType? : Job → Option Ty
  | .expr e .value | .value e _ | .owned e => some e.ty
  | .kind _ ty _ .value | .member _ _ ty .value => some ty
  | _ => none

section
variable {t : Typing} {ctx : Context} {job : Job} {s s' : State} {o : Outline}

theorem accepts_some {f : Function} {args : List Ty} {ty : Ty}
    (h : Typing.accepts (some f) args ty = true) :
    args = f.params.map (·.ty) ∧ ty = f.returnType := by
  simpa [Typing.accepts] using h

theorem methodCall_ok {object : Expr} {method : String} {args : List Expr} {ty : Ty} {id : StructId}
    {d : StructDef} {f : Function} (h : t.kindOk ty (.methodCall object method args) = true)
    (hty : object.ty = .struct id) (hd : t.program.struct? id = some d)
    (hf : d.method? method = some f) :
    t.exprOk object = true ∧ t.exprsOk args = true ∧
      args.map (·.ty) = f.params.map (·.ty) ∧ ty = f.returnType := by
  simp only [Typing.kindOk, Bool.and_eq_true, hty, Typing.struct?, hd, Option.bind_some, hf] at h
  exact ⟨h.1.1, h.1.2, accepts_some h.2⟩

theorem call_ok {name : String} {args : List Expr} {ty : Ty} {f : Function}
    (h : t.kindOk ty (.call name args) = true) (hf : t.program.function? name = some f) :
    t.exprsOk args = true ∧ args.map (·.ty) = f.params.map (·.ty) ∧ ty = f.returnType := by
  simp only [Typing.kindOk, Bool.and_eq_true, hf] at h
  exact ⟨h.1, accepts_some h.2⟩

theorem bound_ok {i : Expr} {b : Bound} {ty : Ty} {offset : Int32} {shape : Shape}
    (h : t.kindOk ty (.bound i b) = true) : JobOk t (.member i offset ty shape) := by
  simp only [Typing.kindOk, Bool.and_eq_true, decide_eq_true_eq] at h
  exact ⟨h.1, by rw [h.2]; rfl⟩

theorem field_ok {object : Expr} {m : Binding} {ty : Ty} {offset : Int32} {shape : Shape}
    (h : t.kindOk ty (.field object m) = true) :
    JobOk t (.member object offset m.ty shape) ∧ ty = m.ty := by
  simp only [Typing.kindOk, Bool.and_eq_true, decide_eq_true_eq, Typing.hasMember] at h
  refine ⟨⟨h.1.1, ?_⟩, h.2⟩
  cases hty : object.ty <;> simp [hty, Typing.struct?] at h
  rfl

theorem ne_void_of_isOperand {ty : Ty} (h : isOperand ty = true) : ty ≠ .void := by
  simp only [isOperand, Bool.and_eq_true, decide_eq_true_eq] at h
  exact h.2

theorem binary_ok {op : BinOp} {l r : Expr} {ty : Ty} (h : t.kindOk ty (.binary op l r) = true) :
    t.exprOk l = true ∧ t.exprOk r = true ∧ r.ty = l.ty ∧ ty = op.result l.ty := by
  simpa [Typing.kindOk, and_assoc] using h

theorem unary_ok {op : UnaryOp} {e : Expr} {ty : Ty} (h : t.kindOk ty (.unary op e) = true) :
    t.exprOk e = true ∧ ty = op.result e.ty := by
  simpa [Typing.kindOk] using h

theorem emits_value (h : Emits ctx job s o s') (hp : t.program = ctx.program) (hj : JobOk t job) :
    valueType? job ≠ some .void := by
  have hload : ∀ {ty : Ty} {i : Instr}, Instr.load? ty = some i → some ty ≠ some .void := by
    rintro ty i hl ⟨⟩
    cases hl
  induction h with
  | @expr _ _ _ shape _ _ _ _ ih =>
    cases shape
    · simp [valueType?]
    · exact ih hj
    · simp [valueType?]
  | bool | char | int | float | new =>
    simp only [JobOk, Typing.kindOk, decide_eq_true_eq] at hj
    simp [valueType?, hj]
  | ident | self | stored | noArgs | arg => simp [valueType?]
  | @logical op l _ _ _ _ _ _ _ _ _ _ hop =>
    obtain ⟨-, -, -, rfl⟩ := binary_ok hj
    simp [valueType?, BinOp.result, hop]
  | compare hop =>
    obtain ⟨-, -, -, rfl⟩ := binary_ok hj
    simp [valueType?, BinOp.result, hop]
  | arithmetic hty =>
    obtain ⟨-, -, -, rfl⟩ := binary_ok hj
    have hne := ne_void_of_isOperand hty
    simp only [valueType?, BinOp.result]
    split <;> simp [hne]
  | @unary op _ _ _ _ _ _ _ _ _ hty =>
    obtain ⟨-, rfl⟩ := unary_ok hj
    have hne := ne_void_of_isOperand hty
    cases op <;> simp [valueType?, UnaryOp.result, hne]
  | interval => simp [valueType?]
  | @bound _ _ _ _ _ shape _ _ _ _ _ ih =>
    have h := ih (bound_ok hj)
    cases shape <;> exact h
  | @field _ _ _ _ _ shape _ _ _ _ _ ih =>
    obtain ⟨hm, rfl⟩ := field_ok hj
    have h := ih hm
    cases shape <;> exact h
  | methodCall hty hd hf =>
    obtain ⟨-, -, -, rfl⟩ := methodCall_ok hj hty (hp ▸ hd) hf
    unfold resultShape
    split
    · simp [valueType?]
    · next h => simpa [valueType?] using h
  | call hf =>
    obtain ⟨-, -, rfl⟩ := call_ok hj (hp ▸ hf)
    unfold resultShape
    split
    · simp [valueType?]
    · next h => simpa [valueType?] using h
  | used _ ih | moved _ _ ih | counted _ _ ih => exact ih hj
  | loaded hl | readOut _ hl => exact hload hl

theorem turns_countIfHeap (ty : Ty) : Turns (countIfHeap ty) [ty.tag] [ty.tag] := by
  unfold countIfHeap
  split
  · next h =>
    have htag : ty.tag = .int := by cases ty <;> simp_all [Ty.isHeap, Ty.tag, Ty.isFloat]
    rw [htag]
    exact turns_count
  · exact turns_nil _

theorem tag_of_isHeap {ty : Ty} (h : ty.isHeap = true) : ty.tag = .int := by
  cases ty <;> first | rfl | cases h

theorem leaves_truth (op : BinOp) {l r : Expr} {span : Span}
    (h : (op.isComparison || op.isLogical) = true) :
    jobLeaves (.kind (.binary op l r) (op.result l.ty) span .value) = [.int] := by
  rw [jobLeaves, BinOp.result, h, if_pos rfl]
  rfl

/-! One lemma for each construct with code of its own, given what the code of its parts does. -/

section
variable {n m n' : Nat} {o₁ o₂ : Outline} {ty sub : Ty}

theorem logical_converts {op : BinOp} (h₁ : Converts n s.labels.count [] [.int] o₁)
    (h₂ : Converts s.next.labels.count m [] [.int] o₂) :
    Converts n m [] [.int] (o₁ ++ plain [.duplicate, decidingJump op (s.label (logicalStem op)), .pop]
      ++ o₂ ++ plain [.label (s.label (logicalStem op))]) := by
  rw [Outline.append_assoc, Outline.append_assoc, ← Outline.append_assoc (plain _)]
  refine h₁.append (h₂.skipped ?_ ?_ ?_ ?_)
  · unfold logicalStem
    split <;> decide
  · unfold decidingJump
    split <;> rfl
  · unfold decidingJump
    split <;> rfl
  · unfold decidingJump
    split <;> exact fun _ _ => rfl

theorem compare_converts {op : BinOp} (hop : op.isComparison)
    (h₁ : Converts n m [] [ty.tag] o₁) (h₂ : Converts m s.labels.count [] [ty.tag] o₂) :
    Converts n s.next.labels.count [] [.int]
      (o₁ ++ o₂ ++ plain ([if ty.isFloat then .fSubtract else .subtract]
        ++ compareCode op ty.isFloat (s.label "compare"))) := by
  rw [Outline.plain_append, ← Outline.append_assoc]
  refine ((h₁.append (h₂.frame [_])).append (.straight (v := [ty.tag]) ?_)).append
    (.choice (by decide) (by decide) ?_ ?_ ?_ (.local rfl fun _ _ _ => rfl)
      (.local rfl fun _ _ _ => rfl))
  · unfold Ty.tag
    cases ty.isFloat <;> exact .local rfl fun _ _ _ => rfl
  · cases op <;> cases ty.isFloat <;> rfl
  · cases op <;> cases ty.isFloat <;> rfl
  · unfold Ty.tag
    cases op <;> cases hop <;> cases ty.isFloat <;> exact fun _ _ => rfl

theorem interval_converts {store : Instr} (hs : Instr.store? sub = some store)
    (h₁ : Converts n m [] [sub.tag] o₁) (h₂ : Converts m n' [] [sub.tag] o₂) :
    Converts n n' [] [.int]
      (plain (allocateRecord (Layout.intervalSize sub)
          (if sub.isHeap then Layout.nestedIntervalCode else Layout.flatIntervalCode)
        ++ [Instr.duplicate, .pushI Layout.subtypeSizeOffset, .add, .pushI sub.size.toInt32, .storeC]
        ++ [Instr.duplicate, .pushI (Layout.boundOffset sub .low), .add])
        ++ o₁ ++ plain [store, .duplicate, .pushI (Layout.boundOffset sub .high), .add]
        ++ o₂ ++ plain [store]) := by
  have hstart := ((turns_allocateRecord (Layout.intervalSize sub)
    (if sub.isHeap then Layout.nestedIntervalCode else Layout.flatIntervalCode)).append
    (d := [.duplicate, .pushI Layout.subtypeSizeOffset, .add, .pushI sub.size.toInt32, .storeC])
    (w := [.int]) (.local rfl fun _ _ _ => rfl)).append
    (d := [.duplicate, .pushI (Layout.boundOffset sub .low), .add]) (w := [.int, .int])
    (.local rfl fun _ _ _ => rfl)
  have hmiddle := ((turns_store hs).frame [.int]).append
    (d := [.duplicate, .pushI (Layout.boundOffset sub .high), .add]) (w := [.int, .int])
    (.local rfl fun _ _ _ => rfl)
  exact ((((Converts.straight hstart).append (h₁.frame [.int, .int])).append
    (.straight hmiddle)).append (h₂.frame [.int, .int])).append
    (.straight ((turns_store hs).frame [.int]))

theorem methodCall_converts {typeCode : Int32} {method : String} (h₁ : Converts n m [] [.int] o₁)
    (h₂ : Converts m n' [] [] o₂) :
    Converts n n' [] ((resultShape ty).tags ty)
      (o₁ ++ plain ([Instr.duplicate] ++ Frame.pushArgument cells .int) ++ o₂
        ++ plain ([Instr.call (methodLabel typeCode method)] ++ Frame.fetchResult cells ty
          ++ releaseReceiver ty)) := by
  refine ((h₁.append (.straight (v := [.int]) (.local rfl fun _ _ _ => rfl))).append
    (h₂.frame [.int])).append (.straight ?_)
  exact (((isRoutine_methodLabel _ _).turns.frame [.int]).append
    ((turns_fetchResult _).frame [.int])).append (turns_releaseReceiver _)

theorem readOut_converts {object : Expr} {offset : Int32} {load : Instr}
    (hl : Instr.load? ty = some load) (h : Converts n m [] [.int] o) :
    Converts n m [] [ty.tag] (wrap (.record object) o
      ++ plain ([Instr.duplicate, .pushI offset, .add, load] ++ countIfHeap ty
        ++ [Instr.exchange, RefCounter.push])) := by
  refine (h.wrap (p := .record object) fun _ => rfl).append (.straight ?_)
  have haddress : Turns [.duplicate, .pushI offset, .add] [.int] [.int, .int] :=
    .local rfl fun _ _ _ => rfl
  have hread := haddress.append ((turns_load hl).frame [.int])
  refine (hread.append ((turns_countIfHeap _).frame [.int])).append ?_
  exact Turns.append (c := [.exchange]) (.local rfl fun _ _ _ => rfl) (turns_push.frame [_])

end

theorem emits_converts (h : Emits ctx job s o s') (hp : t.program = ctx.program)
    (hj : JobOk t job) : Converts s.labels.count s'.labels.count [] (jobLeaves job) o := by
  induction h with
  | expr _ ih => exact (ih hj).wrap fun _ => rfl
  | bool | char | int | float =>
    simp only [JobOk, Typing.kindOk, decide_eq_true_eq] at hj
    subst hj
    exact .straight (.local rfl fun _ _ _ => rfl)
  | ident h => exact .straight (turns_storageAddress h)
  | self => exact .straight (.local rfl fun _ _ _ => rfl)
  | @logical op l r ty span a b s s₁ s₂ o₁ o₂ hop hty _ _ ih₁ ih₂ =>
    obtain ⟨hl, hr, hrl, rfl⟩ := binary_ok hj
    have h₁ := ih₁ hl
    have h₂ := ih₂ hr
    simp only [jobLeaves, hrl, hty] at h₁ h₂
    rw [leaves_truth op (by simp [hop])]
    exact logical_converts h₁ h₂
  | @compare op l r ty span a b s s₁ s₂ o₁ o₂ hop _ _ _ ih₁ ih₂ =>
    obtain ⟨hl, hr, hrl, rfl⟩ := binary_ok hj
    have h₁ := ih₁ hl
    have h₂ := ih₂ hr
    simp only [jobLeaves, hrl] at h₁ h₂
    rw [leaves_truth op (by simp [hop])]
    exact compare_converts hop h₁ h₂
  | @arithmetic op l r ty span a b s s₁ s₂ o₁ o₂ c _ _ hc _ _ ih₁ ih₂ =>
    obtain ⟨hl, hr, hrl, rfl⟩ := binary_ok hj
    have h₁ := ih₁ hl
    have h₂ := ih₂ hr
    simp only [jobLeaves, hrl] at h₁ h₂
    have hresult : op.result l.ty = l.ty := by cases op <;> first | rfl | cases hc
    rw [hresult]
    exact (h₁.append (h₂.frame [_])).append (arithmetic_converts hc)
  | unary _ _ hc ih =>
    obtain ⟨he, rfl⟩ := unary_ok hj
    exact (ih he).append (unary_converts hc)
  | interval hs _ _ ih₁ ih₂ =>
    simp only [JobOk, Typing.kindOk, Bool.and_eq_true, decide_eq_true_eq, Ty.interval.injEq] at hj
    obtain ⟨⟨⟨hl, hh⟩, heq⟩, rfl⟩ := hj
    have h₁ := ih₁ hl
    have h₂ := ih₂ hh
    simp only [jobLeaves, heq] at h₁ h₂
    exact interval_converts hs h₁ h₂
  | bound _ _ ih => exact ih (bound_ok hj)
  | field _ _ ih =>
    obtain ⟨hm, rfl⟩ := field_ok hj
    exact ih hm
  | methodCall hty hd hf _ _ _ _ ih₁ ih₂ =>
    obtain ⟨ho, ha, hargs, rfl⟩ := methodCall_ok hj hty (hp ▸ hd) hf
    have h₁ := ih₁ ho
    rw [jobLeaves, hty] at h₁
    exact methodCall_converts h₁ (ih₂ ⟨ha, hargs⟩)
  | call hf _ _ ih =>
    obtain ⟨ha, hargs, rfl⟩ := call_ok hj (hp ▸ hf)
    exact (ih ⟨ha, hargs⟩).append (.straight ((isRoutine_functionLabel _).turns.append
      (turns_fetchResult _)))
  | new =>
    simp only [JobOk, Typing.kindOk, decide_eq_true_eq] at hj
    subst hj
    exact .straight (turns_newStruct _)
  | used _ ih | moved _ _ ih => exact ih hj
  | loaded hl _ ih => exact (ih hj).append (.straight (turns_load hl))
  | counted hh _ ih =>
    have h := ih hj
    simp only [jobLeaves, tag_of_isHeap hh] at h ⊢
    exact h.append (.straight turns_count)
  | @stored object _ _ _ _ _ _ _ _ ih =>
    have h := ih hj.1
    simp only [jobLeaves, tag_of_isHeap hj.2] at h
    exact (h.wrap (p := .record object) fun _ => rfl).append
      (.straight (.local rfl fun _ _ _ => rfl))
  | readOut _ hl _ ih =>
    have h := ih hj.1
    simp only [jobLeaves, tag_of_isHeap hj.2] at h
    exact readOut_converts hl h
  | noArgs => exact Converts.straight (turns_nil [])
  | @arg ty tys e es s s₁ s₂ o₁ o₂ he hs ih₁ ih₂ =>
    obtain ⟨hes, hmap⟩ := hj
    simp only [Typing.exprsOk, Bool.and_eq_true] at hes
    simp only [List.map_cons, List.cons.injEq] at hmap
    obtain ⟨rfl, rfl⟩ := hmap
    have hne : e.ty ≠ .void := fun h => emits_value he hp hes.1 (congrArg some h)
    exact ((ih₁ hes.1).append (.straight (turns_pushArgument hne))).append (ih₂ ⟨hes.2, rfl⟩)

end

end IntervalStack.Shapes
