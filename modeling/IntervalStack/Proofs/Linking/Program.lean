import IntervalStack.Proofs.Drain.Code
import IntervalStack.Proofs.Linking.Emission
import IntervalStack.Proofs.Linking.Names

/-! Whole listings link: the runtime, the main program, the routines and the printers are closed, and
everything they refer to stands somewhere in the listing. -/

namespace IntervalStack.Generator
open Outline (plain wrap)
open RefCounter

variable {E : Linkage} {program : Program} {structs : StructTable} {lo hi : Nat} {c : Code}

/-! The names that every listing has. -/

def commonLabels : List String :=
  [incrementRoutine, "-rctr-increment-null", pushRoutine, "-rctr-push-room", "-rctr-push-null",
    drainRoutine, drainTop, releaseNested, drainFree, drainLive, drainDone, overflowHandler]

def standardData : List String :=
  Code.dataLabels (Environment.opening cells 0) ++ [worklist, worklistIndex, overflowMessage]

theorem commonLabels_apart : commonLabels.Nodup ∧ ∀ l ∈ commonLabels, number? l = none ∧
    start l ∈ ["-rct".toList, "-ref".toList, "$$rc".toList] ∧
    l.toList.take 16 ≠ "-rctr-release-st".toList := by
  decide +kernel

theorem standardData_apart :
    standardData.Nodup ∧ ∀ l ∈ standardData, start l ≠ "$str".toList := by
  decide +kernel

theorem take_structRelease (code : Int32) :
    (structRelease code).toList.take 16 = "-rctr-release-st".toList := by
  have hstart : 16 ≤ "-rctr-release-struct-".toList.length ∧
      "-rctr-release-struct-".toList.take 16 = "-rctr-release-st".toList := by decide +kernel
  unfold structRelease
  rw [String.toList_append, List.take_append_of_le_length hstart.1]
  exact hstart.2

/-! The reference counter. -/

theorem Closed.of_within {ls : List String} (hl : c.labels = ls)
    (h : ∀ i ∈ c, i.Within (E.with ls)) : Closed E lo hi ls c := by
  subst hl
  exact ⟨h, [], by rw [List.append_nil], .nil, fun _ hl => nomatch hl⟩

structure ServesCounter (E : Linkage) : Prop where
  overflow : E.jump overflowHandler
  general : E.jump Environment.generalError
  push : E.call pushRoutine
  deallocate : E.call Environment.deallocateEntry
  names : ∀ l ∈ [worklist, worklistIndex, overflowMessage], E.name l
  ends : E.ends

def drainLabels (structs : StructTable) : List String :=
  [drainRoutine, drainTop, releaseNested] ++ (parents structs).map (structRelease ·.typeCode)
    ++ [drainFree, drainLive, drainDone]

def counterLabels (structs : StructTable) : List String :=
  [incrementRoutine, "-rctr-increment-null"] ++ [pushRoutine, "-rctr-push-room", "-rctr-push-null"]
    ++ drainLabels structs ++ [overflowHandler]

theorem labels_flatMap {α : Type} (l : List α) (f : α → Code) :
    Code.labels (l.flatMap f) = l.flatMap fun x => (f x).labels := List.filterMap_flatMap

theorem labels_childrenCode (slots : List Int32) : (childrenCode slots).labels = [] := by
  rw [childrenCode, labels_flatMap, List.flatMap_eq_nil_iff]
  exact fun _ _ => rfl

theorem labels_releaseCode (l : String) (slots : List Int32) : (releaseCode l slots).labels = [l] := by
  simp [releaseCode, labels_childrenCode, Code.labels_cons]

theorem labels_drainCode : (drainCode structs).labels = drainLabels structs := by
  have hdispatch : (dispatchCode (parents structs)).labels = [] := by
    rw [dispatchCode, labels_flatMap, List.flatMap_eq_nil_iff]
    exact fun _ _ => rfl
  have hreleases : (releasesCode (parents structs)).labels
      = (parents structs).map (structRelease ·.typeCode) := by
    rw [releasesCode, labels_flatMap, List.map_eq_flatMap]
    simp only [labels_releaseCode]
  simp only [drainCode_eq, Code.labels_append, hdispatch, hreleases, labels_releaseCode]
  rfl

theorem incrementCode_closed (hE : ServesCounter E) :
    Closed E lo hi [incrementRoutine, "-rctr-increment-null"] incrementCode :=
  .of_within rfl (by simp [incrementCode, Instr.Within, Linkage.with, hE.ends])

theorem pushCode_closed (hE : ServesCounter E) (r : RefCounter) :
    Closed E lo hi [pushRoutine, "-rctr-push-room", "-rctr-push-null"] r.pushCode := by
  refine .of_within rfl ?_
  simp [pushCode, loadIndex, slotAddress, bumpIndex, Instr.Within, Linkage.with, hE.overflow,
    hE.names, hE.ends]

theorem childrenCode_within (hE : ServesCounter E) (slots : List Int32) :
    ∀ i ∈ childrenCode slots, i.Within E := by
  simp only [childrenCode, List.mem_flatMap]
  rintro i ⟨slot, -, hi⟩
  have hall : ∀ i ∈ pushChild slot, i.Within E := by
    simp [pushChild, push, Instr.Within, hE.push]
  exact hall i hi

theorem releaseCode_within (hE : ServesCounter E) (hfree : E.jump drainFree) (l : String)
    (slots : List Int32) : ∀ i ∈ releaseCode l slots, i.Within E := by
  intro i hi
  simp only [releaseCode, List.mem_append, List.mem_cons, List.not_mem_nil, or_false] at hi
  rcases hi with ((rfl | rfl) | hi) | rfl
  · trivial
  · trivial
  · exact childrenCode_within hE slots i hi
  · exact hfree

theorem ServesCounter.with (hE : ServesCounter E) (ls : List String) : ServesCounter (E.with ls) :=
  ⟨.inl hE.overflow, .inl hE.general, hE.push, hE.deallocate, hE.names, hE.ends⟩

theorem drainCode_closed (hE : ServesCounter E) :
    Closed E lo hi (drainLabels structs) (drainCode structs) := by
  have hE' := hE.with (drainLabels structs)
  have hjump : ∀ l ∈ drainLabels structs, (E.with (drainLabels structs)).jump l := fun l => .inr
  have hdone := hjump drainDone (by simp [drainLabels])
  have hlive := hjump drainLive (by simp [drainLabels])
  have hfree := hjump drainFree (by simp [drainLabels])
  have htop := hjump drainTop (by simp [drainLabels])
  have hnested := hjump releaseNested (by simp [drainLabels])
  refine .of_within labels_drainCode fun i hi => ?_
  simp only [drainCode_eq, List.mem_append, or_assoc] at hi
  rcases hi with hi | hi | hi | hi | hi | hi | hi | hi | hi
  · revert i
    simp [Instr.Within]
  · revert i
    simp [takeCode, loadIndex, bumpIndex, slotAddress, Instr.Within, hdone, hE'.names]
  · revert i
    simp [decrementCode, Instr.Within, hlive]
  · revert i
    simp [kindCode, Instr.Within, hnested]
  · obtain ⟨s, hs, hi⟩ := List.mem_flatMap.1 hi
    have hmem : structRelease s.typeCode ∈ (parents structs).map (structRelease ·.typeCode) :=
      List.mem_map_of_mem hs
    have hrelease := hjump _ (List.mem_append_left _ (List.mem_append_right _ hmem))
    simp only [List.mem_cons, List.not_mem_nil, or_false] at hi
    rcases hi with rfl | rfl | rfl | rfl
    · trivial
    · trivial
    · trivial
    · exact hrelease
  · revert i
    simp [Instr.Within, hfree]
  · exact releaseCode_within hE' hfree _ _ i hi
  · obtain ⟨s, -, hi⟩ := List.mem_flatMap.1 hi
    exact releaseCode_within hE' hfree _ _ i hi
  · revert i
    simp [roundEnds, Instr.Within, htop, hE'.deallocate, hE'.ends]

theorem subroutines_closed (hE : ServesCounter E) (r : RefCounter) :
    Closed E lo lo (counterLabels structs) (r.subroutines structs) := by
  have hhandler : Closed E lo lo [overflowHandler]
      [.label overflowHandler, .pushD overflowMessage, .jump Environment.generalError] :=
    .of_within rfl (by simp [Instr.Within, Linkage.with, hE.general, hE.names])
  have hle := Nat.le_refl lo
  exact (((incrementCode_closed hE).append (pushCode_closed hE r) hle hle).append (drainCode_closed hE)
    hle hle).append hhandler hle hle

/-! Routines and printers. -/

theorem prologue_plain {size : UInt32} (h : Frame.prologue cells size = .ok c) :
    c.all Instr.isPlain = true := by
  simp only [Frame.prologue, bind, Except.bind] at h
  split at h
  · cases h
  split at h
  · cases h
  cases h
  rfl

theorem epilogue_plain {locals params : UInt32} {ty : Ty}
    (h : Frame.epilogue cells locals params ty = .ok c) :
    ∃ c', c = c' ++ [Instr.ret] ∧ c'.all Instr.isPlain = true := by
  simp only [Frame.epilogue, bind, Except.bind] at h
  split at h
  · cases h
  split at h
  · cases h
  cases ty <;> simp only [Instr.store?] at h
  case void =>
    cases h
    exact ⟨_, rfl, rfl⟩
  all_goals
    split at h
    · cases h
    · cases h
      rw [List.append_cons _ _ [_, _], List.append_cons _ _ [_]]
      exact ⟨_, rfl, rfl⟩

theorem leads_routineContext (spec : RoutineSpec) (exit : String) :
    Leads (E.with [exit]) (routineContext program structs spec exit) := by
  refine ⟨fun r hr => ?_, nofun⟩
  obtain rfl := Option.some.inj hr
  exact .inr List.mem_cons_self

theorem RoutineEmits.closed {spec : RoutineSpec} {s s' : State} {o : Outline}
    (h : RoutineEmits program structs spec s o s')
    (hE : Serves E program structs) (hP : ∀ k ∈ s'.printers, E.call k.printer)
    (hends : E.ends) : Closed E s.labels.count s'.labels.count [spec.label] o.code := by
  cases h with
  | @mk prologue epilogue o r s₁ hp hb hr he =>
    obtain ⟨epilogue, rfl, hep⟩ := epilogue_plain he
    have hE' := hE.with [s.label "exit"]
    have hbody := hb.closed hE' (fun _ => leads_routineContext spec _) hP nofun
    have hstart := (Closed.fixedLabel spec.label).append_right (hE'.closed (prologue_plain hp))
      (Nat.le_refl (s.labels.count + 1))
    have hinside := (hstart.append hbody (Nat.le_refl _) hb.grows.count).append
      (.fixedLabel (s.label "exit")) hb.grows.count (Nat.le_refl _)
    have hreleased := (hinside.append_right (hE'.closed hr.isPlain) hb.grows.count).append_right
      (hE'.closed (drainIf_plain s₁.exitPushed)) hb.grows.count
    have hret : Closed (E.with [s.label "exit"]) s₁.labels.count s₁.labels.count [] [Instr.ret] :=
      .straight rfl (List.forall_mem_singleton.2 hends)
    have hend := hreleased.append_right (Closed.append_left (hE'.closed hep) hret (Nat.le_refl _))
      hb.grows.count
    refine .own (g := [s.label "exit"]) ?_ hb.grows.count (by simp)
      (by simpa using number?_label s (by decide))
    simpa using hend

theorem RoutineEmits.printers {spec : RoutineSpec} {s s' : State} {o : Outline}
    (h : RoutineEmits program structs spec s o s') : ∀ k ∈ s.printers, k ∈ s'.printers := by
  cases h with
  | mk _ hb _ _ => exact hb.printers

theorem Routines.printers {specs : List RoutineSpec} {s s' : State} {o : Outline}
    (h : Routines program structs specs s o s') : ∀ k ∈ s.printers, k ∈ s'.printers := by
  induction h with
  | nil => exact fun k hk => hk
  | cons h _ ih => exact fun k hk => ih k (h.printers k hk)

theorem Routines.closed {specs : List RoutineSpec} {s s' : State} {o : Outline}
    (h : Routines program structs specs s o s')
    (hE : Serves E program structs) (hP : ∀ k ∈ s'.printers, E.call k.printer)
    (hends : E.ends) :
    Closed E s.labels.count s'.labels.count (specs.map (·.label)) o.code := by
  induction h with
  | nil => exact .nil
  | cons h hs ih =>
    have hfirst := h.closed hE (fun k hk => hP k (hs.printers k hk)) hends
    simpa using hfirst.append (ih hP) h.grows hs.grows

section
variable {k : ScalarKind} {n : Nat}

theorem scalarLoad_plain (k : ScalarKind) : ((Instr.load? k.ty).getD .loadI).isPlain = true := by
  cases k <;> rfl

/-- The front of a printer, up to its first scalar. -/
theorem printerEntry_closed (hE : Serves E program structs) {nested : String}
    (hnested : E.jump nested) :
    Closed E n n [k.printer] ([Instr.label k.printer]
      ++ ([Instr.exchange] ++ Environment.printString Environment.openBracketString
        ++ [Instr.duplicate, .pushI Layout.typeCodeOffset, .add, .loadI,
          .pushI Layout.nestedIntervalCode, .subtract])
      ++ [Instr.jumpFalse nested]
      ++ [Instr.duplicate, .pushI Layout.payloadOffset, .add, (Instr.load? k.ty).getD .loadI]) := by
  have hopen := printString_plain (l := Environment.openBracketString) (by decide)
  have htest : Closed E n n [] [Instr.jumpFalse nested] :=
    .straight rfl (List.forall_mem_singleton.2 hnested)
  refine (((Closed.fixedLabel _).append_right (hE.closed ?_) (Nat.le_refl _)).append_right htest
    (Nat.le_refl _)).append_right (hE.closed ?_) (Nat.le_refl _)
  · simp only [List.all_append, hopen]
    rfl
  · simp only [List.all_cons, scalarLoad_plain]
    rfl

theorem printerNext_closed (hE : Serves E program structs) :
    Closed E n n [] (Environment.printString Environment.separatorString
      ++ [Instr.duplicate, .duplicate, .pushI Layout.subtypeSizeOffset, .add, .loadC,
        .pushI Layout.payloadOffset, .add, .add, (Instr.load? k.ty).getD .loadI]) := by
  have hsep := printString_plain (l := Environment.separatorString) (by decide)
  refine hE.closed ?_
  simp only [List.all_append, List.all_cons, scalarLoad_plain, hsep]
  rfl

theorem printerChild_closed (hE : Serves E program structs) (hk : E.call k.printer)
    (offset : Int32) : Closed E n n []
      ([Instr.duplicate, .pushI offset, .add, .loadI] ++ [Instr.call k.printer]) :=
  (hE.closed rfl).append_right (.straight rfl (List.forall_mem_singleton.2 hk)) (Nat.le_refl n)

/-- The back of a printer: the two bounds that are records themselves, and the return. -/
theorem printerExit_closed (hE : Serves E program structs) (hk : E.call k.printer)
    (nested : String) {close : String} (hclose : E.jump close) (hends : E.ends) :
    Closed E n n [nested, close] ([Instr.jump close] ++ [Instr.label nested]
      ++ ([Instr.duplicate, .pushI Layout.payloadOffset, .add, .loadI] ++ [Instr.call k.printer])
      ++ Environment.printString Environment.separatorString
      ++ ([Instr.duplicate, .pushI (Layout.payloadOffset + Layout.pointerSize.toInt32), .add,
        .loadI] ++ [Instr.call k.printer])
      ++ [Instr.label close]
      ++ ([Instr.pop] ++ Environment.printString Environment.closeBracketString)
      ++ [Instr.ret]) := by
  have hsep := printString_plain (l := Environment.separatorString) (by decide)
  have hshut := printString_plain (l := Environment.closeBracketString) (by decide)
  have hskip : Closed E n n [] [Instr.jump close] :=
    .straight rfl (List.forall_mem_singleton.2 hclose)
  have hret : Closed E n n [] [Instr.ret] := .straight rfl (List.forall_mem_singleton.2 hends)
  have hlow := printerChild_closed (n := n) hE hk Layout.payloadOffset
  have hhigh := printerChild_closed (n := n) hE hk
    (Layout.payloadOffset + Layout.pointerSize.toInt32)
  have hrecords := (((hskip.append_left (.fixedLabel nested) (Nat.le_refl _)).append_right hlow
    (Nat.le_refl _)).append_right (hE.closed hsep) (Nat.le_refl _)).append_right hhigh
    (Nat.le_refl _)
  refine ((hrecords.append (.fixedLabel close) (Nat.le_refl _) (Nat.le_refl _)).append_right
    (hE.closed ?_) (Nat.le_refl _)).append_right hret (Nat.le_refl _)
  simp only [List.all_append, hshut]
  rfl

end

theorem intervalPrinter_closed {k : ScalarKind} {s s' : State}
    (h : intervalPrinter k s = .ok (c, s')) (hE : Serves E program structs)
    (hk : E.call k.printer) (hends : E.ends) :
    Closed E s.labels.count s'.labels.count [k.printer] c := by
  obtain ⟨low, s₁, high, hlow, hhigh, hc⟩ := intervalPrinter_ok h
  let nested := Labels.part (s.label "interval-printer") "nested"
  let close := Labels.part (s.label "interval-printer") "close"
  have hE' := hE.with [nested, close]
  have hnested : (E.with [nested, close]).jump nested := .inr List.mem_cons_self
  have hclose : (E.with [nested, close]).jump close :=
    .inr (List.mem_cons_of_mem _ List.mem_cons_self)
  have hl := (printScalar_grows hlow).count
  have hh := (printScalar_grows hhigh).count
  have hfirst := ((printerEntry_closed (k := k) hE' hnested).append (printScalar_closed hE' hlow)
    (Nat.le_refl _) hl).append_right (printerNext_closed (k := k) hE') hl
  have hsecond := hfirst.append (printScalar_closed hE' hhigh) hl hh
  have hall := hsecond.append (printerExit_closed hE' hk nested hclose hends)
    (Nat.le_trans hl hh) (Nat.le_refl _)
  refine .own (g := [nested, close]) ?_ (Nat.le_trans hl hh)
    (nodup_parts s "interval-printer" (by decide)) (number?_parts s (by decide))
  rw [hc]
  simpa [printerCode] using hall

theorem intervalPrinters_closed {ks : List ScalarKind} {s s' : State}
    (h : intervalPrinters ks s = .ok (c, s')) (hE : Serves E program structs)
    (hP : ∀ k ∈ ks, E.call k.printer) (hends : E.ends) :
    Closed E s.labels.count s'.labels.count (ks.map (·.printer)) c := by
  induction ks generalizing s c with
  | nil =>
    rw [intervalPrinters, pure_ok] at h
    obtain ⟨rfl, rfl⟩ := h
    exact .nil
  | cons k ks ih =>
    simp only [intervalPrinters, bind_ok, pure_ok] at h
    obtain ⟨c₁, s₁, h₁, c₂, s₂, h₂, rfl, rfl⟩ := h
    have hfirst := intervalPrinter_closed h₁ hE (hP k List.mem_cons_self) hends
    exact hfirst.append (ih h₂ fun k hk => hP k (List.mem_cons_of_mem _ hk))
      (intervalPrinter_grows h₁).count (intervalPrinters_grows h₂).count

theorem intervalPrinters_isInfix {ks : List ScalarKind} {k : ScalarKind} {s s' : State}
    (h : intervalPrinters ks s = .ok (c, s')) (hk : k ∈ ks) :
    ∃ code s₁ s₂, intervalPrinter k s₁ = .ok (code, s₂) ∧ code <:+: c := by
  induction ks generalizing s c with
  | nil => cases hk
  | cons k' ks ih =>
    simp only [intervalPrinters, bind_ok, pure_ok] at h
    obtain ⟨c₁, s₁, h₁, c₂, s₂, h₂, rfl, rfl⟩ := h
    rcases List.mem_cons.1 hk with rfl | hk
    · exact ⟨c₁, s, s₁, h₁, (List.prefix_append _ _).isInfix⟩
    · obtain ⟨code, s₃, s₄, hcode, hin⟩ := ih h₂ hk
      exact ⟨code, s₃, s₄, hcode, hin.trans (List.suffix_append _ _).isInfix⟩

/-! The whole listing. -/

def fixedLabels (program : Program) (structs : StructTable) (ks : List ScalarKind) : List String :=
  counterLabels structs ++ [Environment.mainLabel] ++ routineLabels program structs
    ++ ks.map (·.printer) ++ [Environment.generalError, Environment.divideByZero]

def dataSegment (counter : RefCounter) (program : Program) (structs : StructTable) : Code :=
  (Environment.opening cells program.globalSize).tail ++ counter.data ++ structNames structs

theorem dataLabels_dataSegment (counter : RefCounter) :
    (dataSegment counter program structs).dataLabels
      = standardData ++ structs.layouts.map (Environment.structName ·.typeCode) := by
  have hnames : (structNames structs).dataLabels
      = structs.layouts.map (Environment.structName ·.typeCode) := by
    rw [structNames, Code.dataLabels, List.filterMap_flatMap, List.map_eq_flatMap]
    rfl
  rw [dataSegment, Code.dataLabels_append, Code.dataLabels_append, hnames]
  rfl

def listingLinkage (program : Program) (structs : StructTable) (ks : List ScalarKind) : Linkage where
  jump l := l ∈ fixedLabels program structs ks
  call l := l ∈ fixedLabels program structs ks ∨ Image.isHostEntry l = true
  name l := l ∈ standardData ++ structs.layouts.map (Environment.structName ·.typeCode)
  ends := True

variable {ks : List ScalarKind}

theorem mem_fixedLabels_of_counter {l : String} (h : l ∈ counterLabels structs) :
    l ∈ fixedLabels program structs ks := by
  simp [fixedLabels, h]

theorem mem_fixedLabels_of_routine {l : String} (h : l ∈ routineLabels program structs) :
    l ∈ fixedLabels program structs ks := by
  simp [fixedLabels, h]

theorem listingLinkage_servesCounter (program : Program) (structs : StructTable)
    (ks : List ScalarKind) : ServesCounter (listingLinkage program structs ks) where
  overflow := mem_fixedLabels_of_counter (by simp [counterLabels])
  general := by simp [listingLinkage, fixedLabels]
  push := .inl (mem_fixedLabels_of_counter (by simp [counterLabels]))
  deallocate := .inr (by decide)
  names l hl := List.mem_append_left _ (List.mem_append_right _ hl)
  ends := trivial

theorem listingLinkage_plain {i : Instr} (h : i.isPlain = true) :
    i.Within (listingLinkage program structs ks) := by
  have hdivide : Environment.divideByZero ∈ fixedLabels program structs ks := by simp [fixedLabels]
  cases i with
  | label | dLabel | ret | halt => cases h
  | jump l | jumpTrue l | jumpFalse l | jumpPos l | jumpNeg l | jumpFZero l | jumpFPos l
  | jumpFNeg l =>
    obtain rfl := beq_iff_eq.1 h
    exact hdivide
  | call l =>
    have hl := List.contains_iff_mem.1 h
    simp only [standardCalls, List.mem_cons, List.not_mem_nil, or_false] at hl
    rcases hl with rfl | rfl | rfl | rfl
    · exact .inl (mem_fixedLabels_of_counter (by simp [counterLabels]))
    · exact .inl (mem_fixedLabels_of_counter (by simp [counterLabels]))
    · exact .inl (mem_fixedLabels_of_counter (by simp [counterLabels, drainLabels]))
    · exact .inr (by decide)
  | pushD l =>
    refine List.mem_append_left _ ?_
    rcases List.mem_cons.1 (List.contains_iff_mem.1 h) with rfl | hl
    · exact List.mem_append_right _ (by simp)
    · exact List.mem_append_left _ hl
  | _ => trivial

theorem mem_structLabels_of_initializer {d : StructDef} {l : StructLayout}
    (hl : structs.get? d.id = some l) : initializerLabel l.typeCode ∈ structLabels structs d := by
  simp [structLabels, hl]

theorem mem_routineLabels_of_struct {d : StructDef} {l : String} (hd : d ∈ program.structs)
    (hl : l ∈ structLabels structs d) : l ∈ routineLabels program structs :=
  List.mem_append_right _ (List.mem_flatMap.2 ⟨d, hd, hl⟩)

theorem listingLinkage_serves (hs : StructTable.ofProgram program = .ok structs) :
    Serves (listingLinkage program structs ks) program structs where
  plain _ hi := listingLinkage_plain hi
  function {name f} hf := by
    have hname := beq_iff_eq.1 (List.find?_some (p := fun f : Function => f.name == name) hf)
    refine .inl (mem_fixedLabels_of_routine (List.mem_append_left _ (List.mem_map.2 ?_)))
    exact ⟨f, List.mem_of_find?_eq_some hf, by rw [hname]⟩
  method {id d name f l} hd hf hl := by
    have hid := beq_iff_eq.1 (List.find?_some (p := fun d : StructDef => d.id == id) hd)
    have hname := beq_iff_eq.1 (List.find?_some (p := fun f : Function => f.name == name) hf)
    subst hid
    have hl' : structs.get? d.id = some l := hl
    refine .inl (mem_fixedLabels_of_routine
      (mem_routineLabels_of_struct (List.mem_of_find?_eq_some hd) ?_))
    rw [structLabels, hl']
    exact List.mem_cons_of_mem _ (List.mem_map.2 ⟨f, List.mem_of_find?_eq_some hf, by rw [hname]⟩)
  initializer {id l} hl := by
    obtain ⟨hmem, rfl⟩ := StructTable.mem_of_get? hl
    obtain ⟨d, hd, hof⟩ := (StructTable.ofProgram_layouts hs).2 l hmem
    have hl' : structs.get? d.id = some l := (StructLayout.ofDef_ok hof).1 ▸ hl
    exact .inl (mem_fixedLabels_of_routine
      (mem_routineLabels_of_struct hd (mem_structLabels_of_initializer hl')))
  structName {id l} hl := by
    refine List.mem_append_right _ (List.mem_map.2 ⟨l, (StructTable.mem_of_get? hl).1, rfl⟩)

/-! Nothing is defined twice. -/

theorem counterLabels_perm : (counterLabels structs).Perm
    (commonLabels ++ (parents structs).map (structRelease ·.typeCode)) := by
  refine List.perm_iff_count.2 fun l => ?_
  simp only [counterLabels, drainLabels, commonLabels, List.count_append, List.count_cons,
    List.count_nil]
  omega

theorem nodup_counterLabels (h : DistinctNames program)
    (hs : StructTable.ofProgram program = .ok structs) : (counterLabels structs).Nodup := by
  refine counterLabels_perm.nodup_iff.2 (List.nodup_append.2 ⟨commonLabels_apart.1, ?_, ?_⟩)
  · exact (h.typeCode_inj hs).sublist (List.filter_sublist.map _)
  · rintro l hl l' hl' rfl
    obtain ⟨s, -, rfl⟩ := List.mem_map.1 hl'
    exact (commonLabels_apart.2 _ hl).2.2 (take_structRelease s.typeCode)

theorem start_counterLabels {l : String} (hl : l ∈ counterLabels structs) :
    start l ∈ ["-rct".toList, "-ref".toList, "$$rc".toList] := by
  rcases List.mem_append.1 (counterLabels_perm.mem_iff.1 hl) with hl | hl
  · exact (commonLabels_apart.2 l hl).2.1
  · obtain ⟨s, -, rfl⟩ := List.mem_map.1 hl
    rw [start_structRelease]
    exact List.mem_cons_self

theorem start_routineLabels {l : String} (hl : l ∈ routineLabels program structs) :
    start l ∈ ["-fun".toList, "-str".toList, "-met".toList] := by
  rcases List.mem_append.1 hl with hl | hl
  · obtain ⟨f, -, rfl⟩ := List.mem_map.1 hl
    rw [start_functionLabel]
    exact List.mem_cons_self
  · obtain ⟨d, -, hl⟩ := List.mem_flatMap.1 hl
    rcases start_structLabels hl with hstart | hstart <;> rw [hstart] <;> decide

theorem nodup_append_of_start {xs ys : List String} {S T : List (List Char)} (hx : xs.Nodup)
    (hy : ys.Nodup) (hS : ∀ l ∈ xs, start l ∈ S) (hT : ∀ l ∈ ys, start l ∈ T)
    (hST : ∀ a ∈ S, a ∉ T) :
    (xs ++ ys).Nodup ∧ ∀ l ∈ xs ++ ys, start l ∈ S ++ T := by
  refine ⟨List.nodup_append.2 ⟨hx, hy, ?_⟩, fun l hl => ?_⟩
  · rintro l hl l' hl' rfl
    exact hST _ (hS l hl) (hT l hl')
  · exact List.mem_append.2 ((List.mem_append.1 hl).imp (hS l) (hT l))

theorem nodup_fixedLabels (h : DistinctNames program)
    (hs : StructTable.ofProgram program = .ok structs) (hks : ks.Nodup) :
    (fixedLabels program structs ks).Nodup := by
  have hprinters : (ks.map (·.printer)).Nodup := by
    refine List.pairwise_map.2 (hks.imp fun {k k'} hne heq => hne ?_)
    revert heq
    cases k <;> cases k' <;> decide
  have hstart : ∀ l ∈ ks.map (·.printer), start l ∈ ["-pri".toList] := by
    intro l hl
    obtain ⟨k, -, rfl⟩ := List.mem_map.1 hl
    rw [start_printer]
    exact List.mem_cons_self
  obtain ⟨hmain, hsmain⟩ := nodup_append_of_start (T := ["$$ma".toList])
    (nodup_counterLabels h hs) (by decide : [Environment.mainLabel].Nodup)
    (fun _ => start_counterLabels) (by decide) (by decide)
  obtain ⟨hroutines, hsroutines⟩ := nodup_append_of_start hmain (h.nodup_routineLabels hs) hsmain
    (fun _ => start_routineLabels) (by decide)
  obtain ⟨hprinted, hsprinted⟩ := nodup_append_of_start hroutines hprinters hsroutines hstart
    (by decide)
  exact (nodup_append_of_start (T := ["$$ge".toList, "$$di".toList]) hprinted (by decide) hsprinted
    (by decide) (by decide)).1

theorem nodup_dataLabels (h : DistinctNames program)
    (hs : StructTable.ofProgram program = .ok structs) :
    (standardData ++ structs.layouts.map (Environment.structName ·.typeCode)).Nodup := by
  refine List.nodup_append.2 ⟨standardData_apart.1, h.typeCode_inj hs, ?_⟩
  rintro l hl l' hl' rfl
  obtain ⟨s, -, rfl⟩ := List.mem_map.1 hl'
  exact standardData_apart.2 _ hl (start_structName s.typeCode)

theorem number?_fixedLabels {l : String} (hl : l ∈ fixedLabels program structs ks) :
    number? l = none := by
  simp only [fixedLabels, List.mem_append, List.mem_cons, List.not_mem_nil, or_false,
    or_assoc] at hl
  rcases hl with hl | rfl | hl | hl | rfl | rfl
  · rcases List.mem_append.1 (counterLabels_perm.mem_iff.1 hl) with hl | hl
    · exact (commonLabels_apart.2 l hl).1
    · obtain ⟨s, -, rfl⟩ := List.mem_map.1 hl
      exact (isFixed_structRelease _).number
  · exact isFixed_main.number
  · rcases List.mem_append.1 hl with hl | hl
    · obtain ⟨f, -, rfl⟩ := List.mem_map.1 hl
      exact (isFixed_functionLabel _).number
    · obtain ⟨d, -, hl⟩ := List.mem_flatMap.1 hl
      obtain ⟨l', -, rfl | ⟨f, -, rfl⟩⟩ := mem_structLabels hl
      · exact (isFixed_initializerLabel _).number
      · exact (isFixed_methodLabel _ _).number
  · obtain ⟨k, -, rfl⟩ := List.mem_map.1 hl
    exact (isFixed_printer k).number
  · decide
  · decide

/-- What stands behind the data of a listing is closed, and the printers it can call are part of
it. -/
theorem Assembled.closed {capacity : UInt32} (h : Assembled program capacity c) :
    ∃ counter structs ks n rest, StructTable.ofProgram program = .ok structs ∧ ks.Nodup ∧
      c = .jump Environment.mainLabel :: dataSegment counter program structs ++ rest ∧
      Closed (listingLinkage program structs ks) 0 n (fixedLabels program structs ks) rest ∧
      ∃ printers s s', intervalPrinters ks s = .ok (printers, s') ∧ printers <:+: rest := by
  cases h with
  | @mk counter structs specs main routines printers s₁ s₂ s₃ hc hs hm hr hl hd hp =>
    obtain ⟨ks, hks⟩ : ∃ ks, ks = ScalarKind.all.filter (s₂.printers.contains ·) := ⟨_, rfl⟩
    rw [← hks] at hp
    have hE : Serves (listingLinkage program structs ks) program structs :=
      listingLinkage_serves hs
    have hprinter : ∀ k ∈ ks, (listingLinkage program structs ks).call k.printer :=
      fun k hk => .inl (List.mem_append_left _ (List.mem_append_right _ (List.mem_map_of_mem hk)))
    have hused : ∀ k ∈ s₂.printers, k ∈ ks := by
      intro k hk
      rw [hks]
      refine List.mem_filter.2 ⟨?_, List.contains_iff_mem.2 hk⟩
      cases k <;> decide
    refine ⟨counter, structs, ks, s₃.labels.count, counter.subroutines structs
      ++ (.label Environment.mainLabel :: (Frame.entry cells ++ RefCounter.reset) ++ main.code
        ++ [Instr.halt]) ++ routines.code ++ printers ++ Environment.errorHandlers, hs, ?_, ?_, ?_,
      printers, s₂, s₃, hp, ⟨_, _, rfl⟩⟩
    · rw [hks]
      exact List.Pairwise.filter _ (by decide : ScalarKind.all.Nodup)
    · simp [runtime, dataSegment, Environment.opening]
    · have hcounter : Closed (listingLinkage program structs ks) 0 0 (counterLabels structs)
          (counter.subroutines structs) :=
        subroutines_closed (listingLinkage_servesCounter program structs ks) counter
      have hentry : Closed (listingLinkage program structs ks) 0 0 [Environment.mainLabel]
          ([Instr.label Environment.mainLabel] ++ (Frame.entry cells ++ RefCounter.reset)) :=
        (Closed.fixedLabel _).append_right (hE.closed rfl) (Nat.le_refl _)
      have hbody := hm.closed hE (fun _ => ⟨by simp [mainContext], by simp [mainContext]⟩)
        (fun k hk => hprinter k (hused k (hr.printers k hk))) (by simp)
      have hhalt : Closed (listingLinkage program structs ks) s₁.labels.count s₁.labels.count []
          [.halt] := .straight rfl (by simp [Instr.Within, listingLinkage])
      have hmain := (hentry.append hbody (Nat.le_refl _) (Nat.zero_le _)).append_right hhalt
        (Nat.zero_le _)
      have hroutines := hr.closed hE (fun k hk => hprinter k (hused k hk)) trivial
      rw [hl] at hroutines
      have hprinters := intervalPrinters_closed hp hE hprinter trivial
      have hhandlers : Closed (listingLinkage program structs ks) s₃.labels.count s₃.labels.count
          [Environment.generalError, Environment.divideByZero] Environment.errorHandlers := by
        refine .of_within rfl ?_
        have hname : ∀ l, standardNames.contains l = true →
            (listingLinkage program structs ks).name l := fun l hl => hE.plain (.pushD l) hl
        have hends : (listingLinkage program structs ks).ends := trivial
        simp [Environment.errorHandlers, Instr.Within, Linkage.with, hends,
          hname Environment.errorFormat (by decide),
          hname Environment.divideByZeroMessage (by decide)]
      have hall := (((hcounter.append hmain (Nat.le_refl _) (Nat.zero_le _)).append hroutines
        (Nat.zero_le _) hr.grows).append hprinters (Nat.zero_le _)
        (intervalPrinters_grows hp).count).append hhandlers (Nat.zero_le _) (Nat.le_refl _)
      simpa [fixedLabels] using hall

theorem isData_dataSegment (counter : RefCounter) :
    (dataSegment counter program structs).all Instr.isData = true := by
  have hnames : (structNames structs).all Instr.isData = true := by
    simp [structNames, Environment.dataString, List.all_flatMap, Instr.isData]
  rw [dataSegment, List.all_append, List.all_append, hnames]
  rfl

theorem labels_dataSegment (counter : RefCounter) :
    (dataSegment counter program structs).labels = [] := by
  rw [Code.labels, List.filterMap_eq_nil_iff]
  intro i hi
  have hdata := List.all_eq_true.1 (isData_dataSegment counter) i hi
  cases i <;> first | rfl | cases hdata

theorem mem_listing {counter : RefCounter} {rest : Code} {i : Instr}
    (hi : i ∈ .jump Environment.mainLabel :: dataSegment counter program structs ++ rest) :
    i = .jump Environment.mainLabel ∨ i.isData = true ∨ i ∈ rest := by
  rcases List.mem_append.1 hi with hi | hi
  · rcases List.mem_cons.1 hi with hi | hi
    · exact .inl hi
    · exact .inr (.inl (List.all_eq_true.1 (isData_dataSegment counter) i hi))
  · exact .inr (.inr hi)

theorem start_fixedLabels {l : String} (hl : l ∈ fixedLabels program structs ks) :
    start l ≠ "-mem".toList := by
  simp only [fixedLabels, List.mem_append, List.mem_cons, List.not_mem_nil, or_false,
    or_assoc] at hl
  intro hstart
  rcases hl with hl | rfl | hl | hl | rfl | rfl
  · exact absurd (hstart ▸ start_counterLabels hl) (by decide)
  · exact absurd hstart (by decide)
  · exact absurd (hstart ▸ start_routineLabels hl) (by decide)
  · obtain ⟨k, -, rfl⟩ := List.mem_map.1 hl
    rw [start_printer] at hstart
    exact absurd hstart (by decide)
  · exact absurd hstart (by decide)
  · exact absurd hstart (by decide)

theorem mem_of_printer_mem {k : ScalarKind} (h : k.printer ∈ fixedLabels program structs ks) :
    k ∈ ks := by
  have hstart := start_printer k
  simp only [fixedLabels, List.mem_append, List.mem_cons, List.not_mem_nil, or_false,
    or_assoc] at h
  rcases h with h | h | h | h | h | h
  · exact absurd (hstart ▸ start_counterLabels h) (by decide)
  · exact absurd (hstart ▸ congrArg start h) (by decide)
  · exact absurd (hstart ▸ start_routineLabels h) (by decide)
  · obtain ⟨k', hk', heq⟩ := List.mem_map.1 h
    obtain rfl : k' = k := by
      revert heq
      cases k' <;> cases k <;> decide
    exact hk'
  · exact absurd (hstart ▸ congrArg start h) (by decide)
  · exact absurd (hstart ▸ congrArg start h) (by decide)

theorem isHostEntry_printer (k : ScalarKind) : Image.isHostEntry k.printer = false := by
  cases k <;> decide

theorem Assembled.printer_of_call {capacity : UInt32} {k : ScalarKind}
    (h : Assembled program capacity c) (hk : .call k.printer ∈ c) :
    ∃ code s s', intervalPrinter k s = .ok (code, s') ∧ code <:+: c := by
  obtain ⟨counter, structs, ks, n, rest, -, -, rfl, hc, printers, s, s', hp, hprinters⟩ := h.closed
  have hmem : k ∈ ks := by
    rcases mem_listing hk with hk | hk | hk
    · cases hk
    · cases hk
    · rcases hc.within _ hk with hk | hk
      · exact mem_of_printer_mem hk
      · rw [isHostEntry_printer] at hk
        cases hk
  obtain ⟨code, s₁, s₂, hcode, hin⟩ := intervalPrinters_isInfix hp hmem
  exact ⟨code, s₁, s₂, hcode, hin.trans (hprinters.trans (List.suffix_append _ _).isInfix)⟩

theorem Assembled.not_mem_labels {capacity : UInt32} (h : Assembled program capacity c) {l : String}
    (hl : Image.isHostEntry l = true) : l ∉ c.labels := by
  obtain ⟨counter, structs, ks, n, rest, -, -, rfl, hc, -⟩ := h.closed
  have hentry : l = Environment.allocateEntry ∨ l = Environment.deallocateEntry := by
    simpa [Image.isHostEntry] using hl
  have hnone : number? l = none ∧ start l = "-mem".toList := by
    rcases hentry with rfl | rfl <;> decide
  rw [Code.labels_append, Code.labels_cons _ (by simp), labels_dataSegment, List.nil_append]
  intro hmem
  obtain ⟨ns, hperm, -, hbetween⟩ := hc.labelled
  rcases List.mem_append.1 (hperm.mem_iff.1 hmem) with hmem | hmem
  · exact start_fixedLabels hmem hnone.2
  · obtain ⟨k, hk, -⟩ := hbetween l hmem
    rw [hnone.1] at hk
    cases hk

theorem Assembled.links {capacity : UInt32} (h : Assembled program capacity c)
    (hd : DistinctNames program) : c.Links := by
  obtain ⟨counter, structs, ks, n, rest, hs, hks, rfl, hc, -⟩ := h.closed
  have hlabels : Code.labels (.jump Environment.mainLabel :: dataSegment counter program structs
      ++ rest) = rest.labels := by
    rw [Code.labels_append, Code.labels_cons _ (by simp), labels_dataSegment, List.nil_append]
  have hrest : rest.dataLabels = [] := by
    rw [Code.dataLabels, List.filterMap_eq_nil_iff]
    intro i hi
    have hw := hc.within i hi
    cases i <;> first | rfl | cases hw
  have hdata : Code.dataLabels (.jump Environment.mainLabel :: dataSegment counter program structs
      ++ rest) = standardData ++ structs.layouts.map (Environment.structName ·.typeCode) := by
    rw [Code.dataLabels_append, hrest, List.append_nil]
    exact dataLabels_dataSegment counter
  have hfixed : ∀ l ∈ fixedLabels program structs ks, l ∈ rest.labels := fun l => hc.fixed_subset
  constructor
  · rw [hlabels]
    exact hc.nodup (nodup_fixedLabels hd hs hks) fun _ => number?_fixedLabels
  · rw [hdata]
    exact nodup_dataLabels hd hs
  · intro i hi l hl
    rw [hlabels]
    rcases mem_listing hi with rfl | hi | hi
    · obtain rfl := Option.some.inj hl
      exact hfixed _ (by simp [fixedLabels])
    · cases i <;> first | cases hi; done | cases hl
    · exact ((hc.within i hi).jumpTarget hl).elim (hfixed l) id
  · intro l hl
    rw [hlabels]
    rcases mem_listing hl with hl | hl | hl
    · cases hl
    · cases hl
    · exact (hc.within _ hl).imp_left (hfixed l)
  · intro l hl
    rw [hdata]
    rcases mem_listing hl with hl | hl | hl
    · cases hl
    · cases hl
    · exact hc.within _ hl

end IntervalStack.Generator
