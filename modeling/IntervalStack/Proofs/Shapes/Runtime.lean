import IntervalStack.Proofs.Shapes.Stmt

/-! The shape of the operand stack in the subroutines of the reference counter, in the routines that
print intervals, and in the error handlers. -/

namespace IntervalStack.Shapes
open Generator Outline
open IntervalStack.Flow (Assignable)

def IsFixing (Γ : String → Option (List Tag)) : Prop :=
  ∀ l, number? l = none → Γ l = some (fixedShape l)

section
variable {Γ : String → Option (List Tag)} {pre : Code}

theorem fits_turns {c d : Code} {xs ys r : List Tag} {y : Option (List Tag)} (h : Turns c xs ys)
    (hpre : Code.HasTexts pre)
    (hrest : shapeFlow.Fits Γ (pre ++ c) (some (ys ++ r)) (plain d) y) :
    shapeFlow.Fits Γ pre (some (xs ++ r)) (plain (c ++ d)) y := by
  rw [plain_append]
  refine (fits_plain h.straight (h.effects pre r hpre)).append ?_
  rwa [code_plain]

theorem fits_increment (hΓ : IsFixing Γ) (hpre : Code.HasTexts pre) (y : Option (List Tag)) :
    shapeFlow.Fits Γ pre (some [.int, .int]) (plain RefCounter.incrementCode) y := by
  have hentry : Γ RefCounter.incrementRoutine = some [.int, .int] := hΓ _ (by decide)
  have hnull : Γ "-rctr-increment-null" = some [.int, .int] := hΓ _ (by decide)
  have hfind : Turns [.exchange, .duplicate] [.int, .int] [.int, .int, .int] :=
    .local rfl fun _ _ _ => rfl
  have hcount : Turns [.duplicate, .loadI, .pushI 1, .add, .storeI] [.int] [] :=
    .local rfl fun _ _ _ => rfl
  have hcode : RefCounter.incrementCode = .label RefCounter.incrementRoutine ::
      ([Instr.exchange, .duplicate] ++ .jumpFalse "-rctr-increment-null" ::
        ([Instr.duplicate, .loadI, .pushI 1, .add, .storeI] ++ .ret ::
          .label "-rctr-increment-null" :: [.pop, .ret])) := rfl
  rw [hcode]
  refine fits_label hentry (fits_turns (r := []) hfind (hpre.append _) ?_)
  refine fits_branch rfl rfl rfl (.inr hnull) ?_
  refine fits_turns (r := [.int]) hcount (by simpa using hpre.append _) ?_
  refine fits_end (z := some [.int, .int]) (.inl ⟨rfl, rfl⟩) (fits_label hnull ?_)
  exact fits_straight rfl rfl (fits_end (.inl ⟨rfl, rfl⟩) rfl)

theorem turns_slotAddress : Turns RefCounter.slotAddress [] [.int] := .local rfl fun _ _ _ => rfl

theorem turns_bumpIndex (delta : Int32) : Turns (RefCounter.bumpIndex delta) [] [] :=
  .local rfl fun _ _ _ => rfl

theorem fits_pushCode (hΓ : IsFixing Γ) (hpre : Code.HasTexts pre) (r : RefCounter)
    (y : Option (List Tag)) :
    shapeFlow.Fits Γ pre (some [.int, .int]) (plain r.pushCode) y := by
  have hentry : Γ RefCounter.pushRoutine = some [.int, .int] := hΓ _ (by decide)
  have hnull : Γ "-rctr-push-null" = some [.int, .int] := hΓ _ (by decide)
  have hroom : Γ "-rctr-push-room" = some [.int, .int] := hΓ _ (by decide)
  have hfind : Turns [.exchange, .duplicate] [.int, .int] [.int, .int, .int] :=
    .local rfl fun _ _ _ => rfl
  have hleft : Turns (RefCounter.loadIndex ++ [Instr.pushI r.capacity.toInt32, .subtract]) [] [.int] :=
    .local rfl fun _ _ _ => rfl
  have hswap : Turns [.exchange, .storeI] [.int, .int] [] := .local rfl fun _ _ _ => rfl
  have hstore := ((turns_slotAddress.frame [.int]).append hswap).append (turns_bumpIndex 1)
  have hcode : r.pushCode = .label RefCounter.pushRoutine :: ([Instr.exchange, .duplicate]
      ++ .jumpFalse "-rctr-push-null" :: (RefCounter.loadIndex
        ++ [Instr.pushI r.capacity.toInt32, .subtract] ++ .jumpNeg "-rctr-push-room" ::
          .jump RefCounter.overflowHandler :: .label "-rctr-push-room" ::
            (RefCounter.slotAddress ++ [Instr.exchange, .storeI] ++ RefCounter.bumpIndex 1 ++
              .ret :: .label "-rctr-push-null" :: [.pop, .ret]))) := by
    simp [RefCounter.pushCode]
  rw [hcode]
  refine fits_label hentry (fits_turns (r := []) hfind (hpre.append _) ?_)
  refine fits_branch rfl rfl rfl (.inr hnull) ?_
  refine fits_turns (r := [.int, .int]) hleft (by simpa using hpre.append _) ?_
  refine fits_branch rfl rfl rfl (.inr hroom) ?_
  refine fits_jump (z := some [.int, .int]) (fun _ _ => .inl (by decide)) (fits_label hroom ?_)
  refine fits_turns (r := [.int]) hstore (by simpa using hpre.append _) ?_
  refine fits_end (z := some [.int, .int]) (.inl ⟨rfl, rfl⟩) (fits_label hnull ?_)
  exact fits_straight rfl rfl (fits_end (.inl ⟨rfl, rfl⟩) rfl)

theorem structRelease_shape (typeCode : Int32) :
    number? (RefCounter.structRelease typeCode) = none ∧
      fixedShape (RefCounter.structRelease typeCode) = [.int, .int, .int] := by
  refine ⟨(isFixed_structRelease typeCode).number, ?_⟩
  have hstart : structReleaseStart <+: (RefCounter.structRelease typeCode).toList :=
    ⟨(toString typeCode.toInt).toList, String.toList_append.symm⟩
  rw [fixedShape, innerShape?, if_pos (List.isPrefixOf_iff_prefix.2 hstart)]
  rfl

theorem fits_dispatch (hΓ : IsFixing Γ) (parents : List StructLayout) :
    shapeFlow.Fits Γ pre (some [.int, .int, .int]) (plain (parents.flatMap fun s =>
      [.duplicate, .pushI s.typeCode, .subtract, .jumpFalse (RefCounter.structRelease s.typeCode)]))
      (some [.int, .int, .int]) := by
  induction parents generalizing pre with
  | nil => exact rfl
  | cons s parents ih =>
    have hrelease : Γ (RefCounter.structRelease s.typeCode) = some [.int, .int, .int] := by
      rw [hΓ _ (structRelease_shape _).1, (structRelease_shape _).2]
    iterate 3 refine fits_straight rfl rfl ?_
    exact fits_branch rfl rfl rfl (.inr hrelease) ih

theorem turns_pushChild (offset : Int32) : Turns (RefCounter.pushChild offset) [.int] [.int] :=
  Turns.append (c := [.duplicate, .pushI offset, .add, .loadI]) (v := [.int, .int])
    (.local rfl fun _ _ _ => rfl) (turns_push.frame [.int])

theorem turns_pushChildren (slots : List Int32) :
    Turns (slots.flatMap RefCounter.pushChild) [.int] [.int] := by
  induction slots with
  | nil => exact turns_nil _
  | cons slot slots ih => exact (turns_pushChild slot).append ih

theorem fits_parents (hΓ : IsFixing Γ) (parents : List StructLayout) (y : Option (List Tag)) :
    ∃ x, ∀ pre, Code.HasTexts pre → shapeFlow.Fits Γ pre x (plain (parents.flatMap fun s =>
      [Instr.label (RefCounter.structRelease s.typeCode), .pop]
        ++ s.referenceSlots.flatMap RefCounter.pushChild ++ [Instr.jump "-rctr-drain-free"])) y := by
  induction parents with
  | nil => exact ⟨y, fun _ _ => rfl⟩
  | cons s parents ih =>
    have hrelease : Γ (RefCounter.structRelease s.typeCode) = some [.int, .int, .int] := by
      rw [hΓ _ (structRelease_shape _).1, (structRelease_shape _).2]
    have hfree : Γ "-rctr-drain-free" = some [.int, .int] := hΓ _ (by decide)
    obtain ⟨x, hx⟩ := ih
    refine ⟨some [.int, .int, .int], fun pre hpre => ?_⟩
    rw [List.flatMap_cons, List.append_assoc, List.append_assoc]
    refine fits_label hrelease (fits_straight rfl rfl ?_)
    refine fits_turns (r := [.int]) (turns_pushChildren s.referenceSlots) ?_ ?_
    · simpa using hpre.append _
    refine fits_jump (z := x) ?_ (hx _ (by simpa using hpre.append _))
    rintro _ ⟨⟩
    exact .inr hfree

theorem fits_drainCode (hΓ : IsFixing Γ) (hpre : Code.HasTexts pre) (structs : StructTable)
    (y : Option (List Tag)) :
    shapeFlow.Fits Γ pre (some [.int]) (plain (RefCounter.drainCode structs)) y := by
  let parents := structs.layouts.filter (!·.referenceSlots.isEmpty)
  let dispatch : Code := parents.flatMap fun s =>
    [.duplicate, .pushI s.typeCode, .subtract, .jumpFalse (RefCounter.structRelease s.typeCode)]
  let releases : Code := parents.flatMap fun s =>
    [Instr.label (RefCounter.structRelease s.typeCode), .pop]
      ++ s.referenceSlots.flatMap RefCounter.pushChild ++ [Instr.jump "-rctr-drain-free"]
  have hentry : Γ RefCounter.drainRoutine = some [.int] := hΓ _ (by decide)
  have htop : Γ "-rctr-drain-loop" = some [.int] := hΓ _ (by decide)
  have hdone : Γ "-rctr-drain-done" = some [.int] := hΓ _ (by decide)
  have hlive : Γ "-rctr-drain-still-live" = some [.int, .int] := hΓ _ (by decide)
  have hfree : Γ "-rctr-drain-free" = some [.int, .int] := hΓ _ (by decide)
  have hnested : Γ "-rctr-release-nested" = some [.int, .int, .int] := hΓ _ (by decide)
  have hindex : Turns RefCounter.loadIndex [] [.int] := .local rfl fun _ _ _ => rfl
  let fetch : Code := RefCounter.bumpIndex (-1) ++ RefCounter.slotAddress ++ [Instr.loadI, .duplicate,
    .duplicate, .loadI, .pushI 1, .subtract, .storeI, .duplicate, .loadI]
  let kind : Code := [.duplicate, .pushI Layout.typeCodeOffset, .add, .loadI, .duplicate,
    .pushI Layout.nestedIntervalCode, .subtract]
  have hfetch : Turns fetch [] [.int, .int] := .local rfl fun _ _ _ => rfl
  have hkind : Turns kind [.int] [.int, .int, .int] := .local rfl fun _ _ _ => rfl
  let bounds : Code := RefCounter.pushChild Layout.payloadOffset
    ++ RefCounter.pushChild (Layout.payloadOffset + Layout.pointerSize.toInt32)
  have hbounds : Turns bounds [.int] [.int] := (turns_pushChild _).append (turns_pushChild _)
  have hcode : RefCounter.drainCode structs = .label RefCounter.drainRoutine ::
      .label "-rctr-drain-loop" :: (RefCounter.loadIndex ++ .jumpFalse "-rctr-drain-done" ::
        (fetch ++ .jumpPos "-rctr-drain-still-live" :: (kind ++ .jumpFalse "-rctr-release-nested" ::
          (dispatch ++ .pop :: .jump "-rctr-drain-free" :: .label "-rctr-release-nested" :: .pop ::
            (bounds ++ .jump "-rctr-drain-free" :: (releases ++ .label "-rctr-drain-free" ::
              .call Environment.deallocateEntry :: .jump "-rctr-drain-loop" ::
                .label "-rctr-drain-still-live" :: .pop :: .jump "-rctr-drain-loop" ::
                  .label "-rctr-drain-done" :: [.ret])))))) := by
    simp [RefCounter.drainCode, fetch, kind, bounds, dispatch, releases, parents]
  rw [hcode]
  refine fits_label hentry (fits_label htop (fits_turns (r := [.int]) hindex ?_ ?_))
  · simpa using hpre.append _
  refine fits_branch rfl rfl rfl (.inr hdone) (fits_turns (r := [.int]) hfetch ?_ ?_)
  · simpa using hpre.append _
  refine fits_branch rfl rfl rfl (.inr hlive) (fits_turns (r := [.int]) hkind ?_ ?_)
  · simpa using hpre.append _
  refine fits_branch rfl rfl rfl (.inr hnested) ?_
  have hjump : ∀ l st, Γ l = some st → ∀ st', some st = some st' →
      l ∈ fatalHandlers ∨ Γ l = some st' := fun l st hl st' h => .inr (hl.trans h)
  rw [plain_append]
  refine (fits_dispatch hΓ parents).append ?_
  refine fits_straight rfl rfl (fits_jump (z := some [.int, .int, .int]) (hjump _ _ hfree) ?_)
  refine fits_label hnested (fits_straight rfl rfl ?_)
  refine fits_turns (r := [.int]) hbounds (by simpa using hpre.append _) ?_
  have hend : ∀ pre, shapeFlow.Fits Γ pre (some [.int, .int]) (plain (.label "-rctr-drain-free" ::
      .call Environment.deallocateEntry :: .jump "-rctr-drain-loop" ::
        .label "-rctr-drain-still-live" :: .pop :: .jump "-rctr-drain-loop" ::
          .label "-rctr-drain-done" :: [.ret])) y := by
    intro pre
    have hfreeing := List.all_eq_true.1 isStraight_runtimeCalls
      (.call Environment.deallocateEntry) (by simp [runtimeCalls])
    refine fits_label hfree (fits_straight hfreeing rfl ?_)
    refine fits_jump (z := some [.int, .int]) (hjump _ _ htop) (fits_label hlive ?_)
    refine fits_straight rfl rfl (fits_jump (z := some [.int]) (hjump _ _ htop) ?_)
    exact fits_label hdone (fits_end (.inl ⟨rfl, rfl⟩) rfl)
  obtain ⟨x, hx⟩ := fits_parents hΓ parents (some [.int, .int])
  refine fits_jump (z := x) (hjump _ _ hfree) ?_
  rw [plain_append]
  exact (hx _ (by simpa using hpre.append _)).append (hend _)

theorem fits_subroutines (hΓ : IsFixing Γ) (hpre : Code.HasTexts pre) (r : RefCounter)
    (structs : StructTable) (y : Option (List Tag)) :
    shapeFlow.Fits Γ pre (some [.int, .int]) (plain (r.subroutines structs)) y := by
  have hoverflow : Γ RefCounter.overflowHandler = some [] := hΓ _ (by decide)
  have hgeneral : Γ Environment.generalError = some [.int] := hΓ _ (by decide)
  simp only [RefCounter.subroutines, plain_append, Outline.append_assoc]
  refine (fits_increment hΓ hpre (some [.int, .int])).append ?_
  refine (fits_pushCode hΓ (hpre.append _) r (some [.int])).append ?_
  refine (fits_drainCode hΓ ((hpre.append _).append _) structs (some [])).append ?_
  refine fits_label hoverflow (fits_straight rfl rfl (fits_jump (z := y) ?_ rfl))
  rintro _ ⟨⟩
  exact .inr hgeneral

theorem fits_errorHandlers (hΓ : IsFixing Γ) (hpre : Code.HasTexts pre) (y : Option (List Tag)) :
    shapeFlow.Fits Γ pre (some [.int]) (plain Environment.errorHandlers) y := by
  have hdivide : Γ Environment.divideByZero = some [] := hΓ _ (by decide)
  have hgeneral : Γ Environment.generalError = some [.int] := hΓ _ (by decide)
  have hprint : Turns (Environment.printString Environment.errorFormat) [.int] [] :=
    turns_printString (by decide)
  have hcode : Environment.errorHandlers = .label Environment.generalError ::
      (Environment.printString Environment.errorFormat ++ .halt :: .label Environment.divideByZero ::
        [.pushD Environment.divideByZeroMessage, .jump Environment.generalError]) := rfl
  rw [hcode]
  refine fits_label hgeneral (fits_turns (r := []) hprint (hpre.append _) ?_)
  refine fits_end (z := some []) (.inr rfl) (fits_label hdivide (fits_straight rfl rfl ?_))
  refine fits_jump (z := y) ?_ rfl
  rintro _ ⟨⟩
  exact .inr hgeneral

end

theorem fits_intervalPrinter {k : ScalarKind} {s s' : State} {c pre : Code}
    (h : intervalPrinter k s = .ok (c, s')) (hpre : Code.HasTexts pre) (y : Option (List Tag)) :
    Assignable s.labels.count s'.labels.count fun Γ =>
      Γ k.printer = some [.int, .int] → shapeFlow.Fits Γ pre (some [.int, .int]) (plain c) y := by
  obtain ⟨low, s₁, high, hlow, hhigh, rfl⟩ := intervalPrinter_ok h
  let nested := Labels.part (s.label "interval-printer") "nested"
  let close := Labels.part (s.label "interval-printer") "close"
  let load := (Instr.load? k.ty).getD .loadI
  let separator := Environment.printString Environment.separatorString
  let child (offset : Int32) : Code := [.duplicate, .pushI offset, .add, .loadI, .call k.printer]
  have hload : Turns [load] [.int] [k.ty.tag] := by cases k <;> exact .local rfl fun _ _ _ => rfl
  have hseparator : Turns separator [] [] := turns_printString (by decide)
  have hchild : ∀ offset, Turns (child offset) [.int] [.int] := fun offset =>
    Turns.append (c := [.duplicate, .pushI offset, .add, .loadI]) (v := [.int, .int])
      (.local rfl fun _ _ _ => rfl) ((turns_printer k).frame [.int])
  -- What stands in front of the low bound, between the two, and in front of the end.
  let kind : Code := [Instr.exchange] ++ Environment.printString Environment.openBracketString
    ++ [Instr.duplicate, .pushI Layout.typeCodeOffset, .add, .loadI, .pushI Layout.nestedIntervalCode,
      .subtract]
  let first : Code := [Instr.duplicate, .pushI Layout.payloadOffset, .add] ++ [load]
  let second : Code := separator ++ [Instr.duplicate, .duplicate, .pushI Layout.subtypeSizeOffset, .add,
    .loadC, .pushI Layout.payloadOffset, .add, .add] ++ [load]
  let children : Code := child Layout.payloadOffset ++ separator
    ++ child (Layout.payloadOffset + Layout.pointerSize.toInt32)
  let ending : Code := [Instr.pop] ++ Environment.printString Environment.closeBracketString
  have hkind : Turns kind [.int, .int] [.int, .int, .int] := by
    have hswap : Turns [.exchange] [.int, .int] [.int, .int] := .local rfl fun _ _ _ => rfl
    have hopen : Turns (Environment.printString Environment.openBracketString) [] [] :=
      turns_printString (by decide)
    exact (hswap.append (hopen.frame [.int, .int])).append (.local rfl fun _ _ _ => rfl)
  have hfirst : Turns first [.int] [k.ty.tag, .int] :=
    Turns.append (v := [.int, .int]) (.local rfl fun _ _ _ => rfl) (hload.frame [.int])
  have hsecond : Turns second [.int] [k.ty.tag, .int] :=
    ((hseparator.frame [.int]).append (w := [.int, .int]) (.local rfl fun _ _ _ => rfl)).append
      (hload.frame [.int])
  have hchildren : Turns children [.int] [.int] :=
    ((hchild _).append (hseparator.frame [.int])).append (hchild _)
  have hending : Turns ending [.int] [] :=
    Turns.append (c := [.pop]) (.local rfl fun _ _ _ => rfl) (turns_printString (by decide))
  have hflat : Converts s.next.labels.count s'.labels.count [.int] [.int]
      (plain (first ++ low ++ second ++ high)) := by
    simp only [plain_append]
    exact (((Converts.straight hfirst).append ((converts_printScalar hlow).frame [.int])).append
      (.straight hsecond)).append ((converts_printScalar hhigh).frame [.int])
  have hcode : printerCode k (s.label "interval-printer") low high = .label k.printer ::
      (kind ++ .jumpFalse nested :: ((first ++ low ++ second ++ high) ++ .jump close ::
        .label nested :: (children ++ .label close :: (ending ++ [Instr.ret])))) := by
    simp [printerCode, kind, first, second, children, ending, nested, close, load, separator, child]
  let before := pre ++ [Instr.label k.printer] ++ kind ++ [Instr.jumpFalse nested]
  have hbefore : Code.HasTexts before := ((hpre.append _).append _).append _
  refine ((Assignable.choose s.labels.count fun _ => some [.int, .int]).and
    (hflat.fits before [.int] hbefore) (Nat.le_succ _) hflat.le).mono ?_
  rintro Γ ⟨hΓ, hrun⟩ hentry
  have hnested : Γ nested = some [.int, .int] := hΓ _ (number?_part s _ (by decide))
  have hclose : Γ close = some [.int, .int] := hΓ _ (number?_part s _ (by decide))
  rw [hcode]
  refine fits_label hentry (fits_turns (r := []) hkind (hpre.append _) ?_)
  refine fits_branch rfl rfl rfl (.inr hnested) ?_
  rw [plain_append]
  refine hrun.append (fits_jump (z := some [.int, .int]) ?_ (fits_label hnested ?_))
  · rintro _ ⟨⟩
    exact .inr hclose
  refine fits_turns (r := [.int]) hchildren (by simpa using hbefore.append _) ?_
  refine fits_label hclose (fits_turns (r := [.int]) hending (by simpa using hbefore.append _) ?_)
  exact fits_end (.inl ⟨rfl, rfl⟩) rfl

theorem fits_intervalPrinters {ks : List ScalarKind} {s s' : State} {c : Code}
    (h : intervalPrinters ks s = .ok (c, s')) (y : Option (List Tag)) :
    ∃ x, ∀ pre, Code.HasTexts pre → Assignable s.labels.count s'.labels.count fun Γ =>
      (∀ k : ScalarKind, Γ k.printer = some [.int, .int]) → shapeFlow.Fits Γ pre x (plain c) y := by
  induction ks generalizing s c with
  | nil =>
    rw [intervalPrinters, pure_ok] at h
    obtain ⟨rfl, rfl⟩ := h
    exact ⟨y, fun _ _ => .of_forall fun _ _ => rfl⟩
  | cons k ks ih =>
    simp only [intervalPrinters, bind_ok, pure_ok] at h
    obtain ⟨c₁, s₁, h₁, c₂, s₂, h₂, rfl, rfl⟩ := h
    obtain ⟨x, hx⟩ := ih h₂
    refine ⟨some [.int, .int], fun pre hpre => ?_⟩
    refine ((fits_intervalPrinter h₁ hpre x).and (hx (pre ++ c₁) (hpre.append c₁))
      (intervalPrinter_grows h₁).count (intervalPrinters_grows h₂).count).mono ?_
    rintro Γ ⟨hΓ₁, hΓ₂⟩ hk
    rw [plain_append]
    refine (hΓ₁ (hk k)).append ?_
    rw [code_plain]
    exact hΓ₂ hk

end IntervalStack.Shapes
