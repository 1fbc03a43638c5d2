import IntervalStack.Proofs.Linking.Basic
import IntervalStack.Proofs.StmtEmission

/-! The code of expressions, statements and blocks is closed. -/

namespace IntervalStack

namespace Generator
open Outline (plain wrap)

def standardNames : List String := RefCounter.worklistIndex :: Code.dataLabels (Environment.opening cells 0)

def standardCalls : List String :=
  [RefCounter.incrementRoutine, RefCounter.pushRoutine, RefCounter.drainRoutine,
    Environment.allocateEntry]

end Generator

def Instr.isPlain : Instr → Bool
  | .label _ | .dLabel _ | .ret | .halt => false
  | .jump l | .jumpTrue l | .jumpFalse l | .jumpPos l | .jumpNeg l
  | .jumpFZero l | .jumpFPos l | .jumpFNeg l => l == Environment.divideByZero
  | .call l => Generator.standardCalls.contains l
  | .pushD l => Generator.standardNames.contains l
  | _ => true

namespace Generator
open Outline (plain wrap)

/-- The linkage grants all that the expressions of a program may refer to. -/
structure Serves (E : Linkage) (program : Program) (structs : StructTable) : Prop where
  plain : ∀ i : Instr, i.isPlain = true → i.Within E
  function : ∀ {name f}, program.function? name = some f → E.call (functionLabel name)
  method : ∀ {id d name f l}, program.struct? id = some d → d.method? name = some f →
    structs.get? id = some l → E.call (methodLabel l.typeCode name)
  initializer : ∀ {id l}, structs.get? id = some l → E.call (initializerLabel l.typeCode)
  structName : ∀ {id l}, structs.get? id = some l →
    E.name (Environment.structName l.typeCode)

structure Leads (E : Linkage) (ctx : Context) : Prop where
  exit : ∀ r, ctx.routine = some r → E.jump r.exitLabel
  loop : ∀ l, ctx.loop = some l → E.jump l.endLabel

variable {E : Linkage} {ctx : Context} {n lo hi : Nat} {c : Code} {ty : Ty} {i : Instr}

theorem Serves.with {program : Program} {structs : StructTable} (h : Serves E program structs)
    (ls : List String) : Serves (E.with ls) program structs where
  plain i hi := (h.plain i hi).plus ls
  function := h.function
  method := h.method
  initializer := h.initializer
  structName := h.structName

theorem Leads.with (h : Leads E ctx) (ls : List String) : Leads (E.with ls) ctx :=
  ⟨fun r hr => .inl (h.exit r hr), fun l hl => .inl (h.loop l hl)⟩

theorem labels_of_isPlain (h : c.all Instr.isPlain = true) : c.labels = [] := by
  rw [Code.labels, List.filterMap_eq_nil_iff]
  intro i hi
  have hp := List.all_eq_true.1 h i hi
  cases i <;> first | rfl | cases hp

theorem Serves.closed {program : Program} {structs : StructTable} (hE : Serves E program structs)
    (h : c.all Instr.isPlain = true) : Closed E lo hi [] c :=
  .straight (labels_of_isPlain h) fun i hi => hE.plain i (List.all_eq_true.1 h i hi)

/-! What the calling convention contributes. -/

theorem displaced_plain {base : Code} (h : base.all Instr.isPlain = true) (offset : Int32) :
    (Frame.displaced base offset).all Instr.isPlain = true := by
  unfold Frame.displaced
  split
  · exact h
  · simp [h, Instr.isPlain]

theorem storageAddress_plain {storage : Storage} {selfSlot : Option Int32}
    (h : Frame.storageAddress? cells storage selfSlot = some c) : c.all Instr.isPlain = true := by
  unfold Frame.storageAddress? at h
  split at h
  · cases h
    exact displaced_plain (by decide) _
  · cases h
    exact displaced_plain (by decide) _
  · cases h
    exact displaced_plain (by decide) _
  · obtain ⟨slot, -, rfl⟩ := Option.map_eq_some_iff.1 h
    exact displaced_plain rfl _

theorem load_plain (h : Instr.load? ty = some i) : i.isPlain = true := by
  cases ty <;> cases h <;> rfl

theorem store_plain (h : Instr.store? ty = some i) : i.isPlain = true := by
  cases ty <;> cases h <;> rfl

theorem pushArgument_plain (ty : Ty) : (Frame.pushArgument cells ty).all Instr.isPlain = true := by
  cases ty <;> rfl

theorem fetchResult_plain (ty : Ty) : (Frame.fetchResult cells ty).all Instr.isPlain = true := by
  cases ty <;> rfl

theorem printString_plain {l : String} (h : standardNames.contains l = true) :
    (Environment.printString l).all Instr.isPlain = true := by
  simp only [Environment.printString, List.all_cons, Instr.isPlain, h, List.all_nil, Bool.and_true]

theorem releaseReceiver_plain (ty : Ty) : (releaseReceiver ty).all Instr.isPlain = true := by
  unfold releaseReceiver
  split <;> rfl

theorem countIfHeap_plain (ty : Ty) : (countIfHeap ty).all Instr.isPlain = true := by
  unfold countIfHeap
  split <;> rfl

theorem arithmetic_plain {op : BinOp} {float : Bool} (h : arithmetic? op float = some c) :
    c.all Instr.isPlain = true := by
  cases op <;> cases float <;> cases h <;> rfl

theorem allocateRecord_plain (size : UInt32) (typeCode : Int32) :
    (allocateRecord size typeCode).all Instr.isPlain = true := rfl

theorem newStructCode_closed (hE : Serves E ctx.program ctx.structs) {id : StructId}
    {l : StructLayout} (hl : ctx.structs.get? id = some l) : Closed E n n [] (newStructCode l) := by
  have hslots : (l.referenceSlots.flatMap fun slot =>
      [Instr.duplicate, .pushI slot, .add, .pushI 0, .storeI]).all Instr.isPlain = true := by
    simp [List.all_flatMap, Instr.isPlain]
  have hcall : Closed E n n [] [Instr.call (initializerLabel l.typeCode)] :=
    .straight rfl (by simpa [Instr.Within] using hE.initializer hl)
  unfold newStructCode Frame.callInitializer
  rw [← List.append_assoc]
  refine Closed.append_left (hE.closed ?_) hcall (Nat.le_refl _)
  simp only [List.all_append, hslots, pushArgument_plain, allocateRecord_plain]
  rfl

theorem closed_invocation (hE : Serves E ctx.program ctx.structs) {id : StructId} {d : StructDef}
    {name : String} {f : Function} {l : StructLayout} (hd : ctx.program.struct? id = some d)
    (hf : d.method? name = some f) (hl : ctx.structs.get? id = some l) :
    Closed E n n [] ([Instr.call (methodLabel l.typeCode name)] ++ Frame.fetchResult cells f.returnType
      ++ releaseReceiver f.returnType) := by
  have hcall : Closed E n n [] [Instr.call (methodLabel l.typeCode name)] :=
    .straight rfl (by simpa [Instr.Within] using hE.method hd hf hl)
  have hresult := hcall.append_left (hE.closed (fetchResult_plain f.returnType)) (Nat.le_refl _)
  exact hresult.append_left (hE.closed (releaseReceiver_plain f.returnType)) (Nat.le_refl _)

/-! Expressions. -/

theorem nodup_parts (s : State) (stem : String) {a b : String} (hab : a ≠ b) :
    [Labels.part (s.label stem) a, Labels.part (s.label stem) b].Nodup := by
  simpa using fun h => hab (part_inj h)

theorem number?_parts (s : State) {stem a b : String} (h : stem ∈ stems) :
    ∀ l ∈ [Labels.part (s.label stem) a, Labels.part (s.label stem) b],
      number? l = some (s.labels.count + 1) := by
  simp [number?_part s _ h]

theorem closed_of_parts {s : State} {stem a b : String} (h : stem ∈ stems) (hab : a ≠ b)
    (hl : c.labels = [Labels.part (s.label stem) a, Labels.part (s.label stem) b])
    (hc : ∀ i ∈ c,
      i.Within (E.with [Labels.part (s.label stem) a, Labels.part (s.label stem) b])) :
    Closed E s.labels.count s.next.labels.count [] c :=
  .own (.straight hl hc) (Nat.le_refl _) (nodup_parts s stem hab) (number?_parts s h)

theorem within_comparisonJump (op : BinOp) (float : Bool) (l : String) :
    (comparisonJump op float l).Within E = E.jump l := by
  cases op <;> cases float <;> rfl

theorem compareCode_closed (op : BinOp) (float : Bool) (s : State) :
    Closed E s.labels.count s.next.labels.count []
      (compareCode op float (s.label "compare")) := by
  refine closed_of_parts (by decide : "compare" ∈ stems) (by decide : "taken" ≠ "join") ?_ ?_
  · cases op <;> cases float <;> rfl
  · simp only [compareCode, List.forall_mem_cons, within_comparisonJump]
    simp [Instr.Within, Linkage.with, truth]

theorem floatToBool_closed (s : State) :
    Closed E s.labels.count s.next.labels.count [] (floatToBool (s.label "to-bool")) :=
  closed_of_parts (by decide : "to-bool" ∈ stems) (by decide : "zero" ≠ "join") rfl
    (by simp [floatToBool, Instr.Within, Linkage.with])

theorem unaryCode_closed (hE : Serves E ctx.program ctx.structs) {op : UnaryOp} {span : Span}
    {s s' : State}
    (h : unaryCode op ty span s = .ok (c, s')) :
    Closed E s.labels.count s'.labels.count [] c := by
  rcases unaryCode_ok h with ⟨rfl, hc⟩ | ⟨-, -, rfl, rfl⟩
  · refine hE.closed ?_
    have hall : [[], [.bNegate], [.bNegate, .bNegate], [.negate], [.fNegate], [.convertF],
      [.convertI], [.pushI 127, .btAnd], [.convertI, .pushI 127, .btAnd]].all
        (·.all Instr.isPlain) = true := rfl
    exact List.all_eq_true.1 hall c hc
  · exact floatToBool_closed s

theorem decidingJump_target (op : BinOp) (l : String) : (decidingJump op l).jumpTarget? = some l := by
  unfold decidingJump
  split <;> rfl

/-! Constructs with labels of their own, which the pieces of code in them may jump to. -/

section
variable {n₁ n₂ n₃ : Nat} {c₁ c₂ c₃ : Code} {test otherwise done : String}

theorem closed_logical (op : BinOp) (hdone : number? done = some (n + 1))
    (h : Closed (E.with [done]) (n + 1) n₁ [] c) (hn : n + 1 ≤ n₁) :
    Closed E n n₁ [] ([Instr.duplicate, decidingJump op done, .pop] ++ c ++ [Instr.label done]) := by
  have hkeep : Closed (E.with [done]) (n + 1) (n + 1) [] [.duplicate] :=
    .straight rfl (by simp [Instr.Within])
  have hdrop : Closed (E.with [done]) (n + 1) (n + 1) [] [.pop] :=
    .straight rfl (by simp [Instr.Within])
  have hdecide := (Closed.jump (decidingJump_target op done) List.mem_cons_self).append_left hdrop
    (Nat.le_refl _)
  have hright := (hkeep.append_left hdecide (Nat.le_refl _)).append_left h hn
  exact .own (hright.append (.fixedLabel done) hn (Nat.le_refl _)) hn (by simp) (by simpa using hdone)

theorem closed_ifThen (hdone : number? done = some (n + 1))
    (h₁ : Closed (E.with [done]) (n + 1) n₁ [] c₁) (h₂ : Closed (E.with [done]) n₁ n₂ [] c₂)
    (hn₁ : n + 1 ≤ n₁) (hn₂ : n₁ ≤ n₂) :
    Closed E n n₂ [] (c₁ ++ [Instr.jumpFalse done] ++ c₂ ++ [Instr.label done]) := by
  have hn := Nat.le_trans hn₁ hn₂
  have htest := h₁.append_right (.jump (i := .jumpFalse done) rfl List.mem_cons_self) hn₁
  have hbody := htest.append h₂ hn₁ hn₂
  exact .own (hbody.append (.fixedLabel done) hn (Nat.le_refl _)) hn (by simp) (by simpa using hdone)

theorem closed_ifElse (hne : [otherwise, done].Nodup)
    (hnumber : ∀ l ∈ [otherwise, done], number? l = some (n + 1))
    (h₁ : Closed (E.with [otherwise, done]) (n + 1) n₁ [] c₁)
    (h₂ : Closed (E.with [otherwise, done]) n₁ n₂ [] c₂)
    (h₃ : Closed (E.with [otherwise, done]) n₂ n₃ [] c₃)
    (hn₁ : n + 1 ≤ n₁) (hn₂ : n₁ ≤ n₂) (hn₃ : n₂ ≤ n₃) :
    Closed E n n₃ [] (c₁ ++ [Instr.jumpFalse otherwise] ++ c₂ ++ [Instr.jump done, .label otherwise] ++ c₃
      ++ [Instr.label done]) := by
  have hn := Nat.le_trans hn₁ hn₂
  have hn' := Nat.le_trans hn hn₃
  have htest := h₁.append_right (.jump (i := .jumpFalse otherwise) rfl List.mem_cons_self) hn₁
  have hyes := htest.append h₂ hn₁ hn₂
  have hjump : Closed (E.with [otherwise, done]) n₂ n₂ [] [.jump done] := .jump rfl (by simp)
  have hskip := hjump.append_left (.fixedLabel otherwise) (Nat.le_refl _)
  have hno := (hyes.append hskip hn (Nat.le_refl _)).append h₃ hn hn₃
  exact .own (hno.append (.fixedLabel done) hn' (Nat.le_refl _)) hn' hne hnumber

theorem closed_loop (hne : [test, done].Nodup)
    (hnumber : ∀ l ∈ [test, done], number? l = some (n + 1))
    (h₁ : Closed (E.with [test, done]) (n + 1) n₁ [] c₁)
    (h₂ : Closed (E.with [test, done]) n₁ n₂ [] c₂) (hn₁ : n + 1 ≤ n₁) (hn₂ : n₁ ≤ n₂) :
    Closed E n n₂ []
      ([Instr.label test] ++ c₁ ++ [Instr.jumpFalse done] ++ c₂ ++ [Instr.jump test, .label done]) := by
  have hn := Nat.le_trans hn₁ hn₂
  have hleave : Closed (E.with [test, done]) n₁ n₁ [] [.jumpFalse done] := .jump rfl (by simp)
  have htest := ((Closed.fixedLabel test).append h₁ (Nat.le_refl _) hn₁).append_right hleave hn₁
  have hbody := htest.append h₂ hn₁ hn₂
  have hjump : Closed (E.with [test, done]) n₂ n₂ [] [.jump test] := .jump rfl (by simp)
  have hback := hjump.append_left (.fixedLabel done) (Nat.le_refl _)
  exact .own (hbody.append hback hn (Nat.le_refl _)) hn hne hnumber

end

theorem Emits.closed {job : Job} {s s' : State} {o : Outline} (h : Emits ctx job s o s')
    (hE : Serves E ctx.program ctx.structs) : Closed E s.labels.count s'.labels.count [] o.code := by
  induction h generalizing E with
  | expr _ ih => exact (Outline.code_wrap _ _).symm ▸ ih hE
  | bound _ _ ih | field _ _ ih | used _ ih | moved _ _ ih => exact ih hE
  | bool | char | int | float => exact hE.closed rfl
  | ident ha => exact hE.closed (by simpa using storageAddress_plain ha)
  | self ha => exact hE.closed rfl
  | new hl => simpa using newStructCode_closed hE hl
  | noArgs => exact .nil
  | @logical op l r ty span a b s s₁ s₂ o₁ o₂ hop hty hl hr ih₁ ih₂ =>
    -- The label of the end stands behind the right operand and has a number below its labels.
    have hdone : number? (s₁.label (logicalStem op)) = some (s₁.labels.count + 1) := by
      apply number?_label
      unfold logicalStem
      split <;> decide
    have hright := closed_logical op hdone (ih₂ (hE.with _)) hr.grows.count
    simpa using (ih₁ hE).append hright hl.grows.count (Nat.le_trans (Nat.le_succ _) hr.grows.count)
  | @compare op l r ty span a b s s₁ s₂ o₁ o₂ hop hty hl hr ih₁ ih₂ =>
    have hsub : Closed E s₂.labels.count s₂.labels.count []
        [if l.ty.isFloat then .fSubtract else .subtract] := by
      refine hE.closed ?_
      split <;> rfl
    have hoperands := (ih₁ hE).append (ih₂ hE) hl.grows.count hr.grows.count
    have hcompare := hsub.append_left (compareCode_closed op l.ty.isFloat s₂) (Nat.le_succ _)
    simpa using hoperands.append hcompare (hl.grows.trans hr.grows).count (Nat.le_succ _)
  | arithmetic hty hb hc hl hr ih₁ ih₂ =>
    have hoperands := (ih₁ hE).append (ih₂ hE) hl.grows.count hr.grows.count
    simpa using hoperands.append_right (hE.closed (arithmetic_plain hc))
      (hl.grows.trans hr.grows).count
  | unary hty he hc ih =>
    simpa using (ih hE).append (unaryCode_closed hE hc) he.grows.count (unaryCode_grows hc).count
  | @interval low high sub span s s₁ s₂ o₁ o₂ store hs hl hh ih₁ ih₂ =>
    have hstore := store_plain hs
    have hopen : Closed E s.labels.count s.labels.count []
        (allocateRecord (Layout.intervalSize sub)
            (if sub.isHeap then Layout.nestedIntervalCode else Layout.flatIntervalCode)
          ++ [Instr.duplicate, .pushI Layout.subtypeSizeOffset, .add, .pushI sub.size.toInt32, .storeC]
          ++ [Instr.duplicate, .pushI (Layout.boundOffset sub .low), .add]) := hE.closed rfl
    have hnext : Closed E s₁.labels.count s₁.labels.count []
        [store, .duplicate, .pushI (Layout.boundOffset sub .high), .add] :=
      hE.closed (by rw [List.all_cons, hstore]; rfl)
    have hlast : Closed E s₂.labels.count s₂.labels.count [] [store] :=
      hE.closed (by rw [List.all_cons, hstore]; rfl)
    have hlow := (ih₁ hE).append_right hnext hl.grows.count
    have hhigh := (ih₂ hE).append_right hlast hh.grows.count
    have hbounds := hlow.append hhigh hl.grows.count hh.grows.count
    simpa using hopen.append_left hbounds (hl.grows.trans hh.grows).count
  | @methodCall object method args ty span id d f l s s₁ s₂ o₁ o₂ hty hd hf hl hn ho ha ih₁ ih₂ =>
    have hself : Closed E s₁.labels.count s₁.labels.count []
        ([Instr.duplicate] ++ Frame.pushArgument cells .int) := hE.closed rfl
    have hpassed := hself.append_left (ih₂ hE) ha.grows.count
    have hcalled := hpassed.append_right (closed_invocation hE hd hf hl) ha.grows.count
    simpa using (ih₁ hE).append hcalled ho.grows.count ha.grows.count
  | @call name args ty span f s s' o hf hn ha ih =>
    have hcall : Closed E s'.labels.count s'.labels.count [] [Instr.call (functionLabel name)] :=
      .straight rfl (by simpa [Instr.Within] using hE.function hf)
    have hresult := hcall.append_left (hE.closed (fetchResult_plain f.returnType)) (Nat.le_refl _)
    simpa using (ih hE).append_right hresult ha.grows.count
  | loaded hl h ih =>
    simpa using (ih hE).append_right (hE.closed (by simp [load_plain hl])) h.grows.count
  | counted hh h ih => simpa using (ih hE).append_right (hE.closed rfl) h.grows.count
  | stored hn h ih => simpa using (ih hE).append_right (hE.closed rfl) h.grows.count
  | @readOut object offset ty load s o s' hh hl h ih =>
    have hread : Closed E s'.labels.count s'.labels.count []
        ([Instr.duplicate, .pushI offset, .add, load] ++ countIfHeap ty
          ++ [Instr.exchange, RefCounter.push]) := by
      refine hE.closed ?_
      simp only [List.all_append, List.all_cons, load_plain hl, countIfHeap_plain]
      rfl
    simpa using (ih hE).append_right hread h.grows.count
  | @arg ty tys e es s s₁ s₂ o₁ o₂ he hs ih₁ ih₂ =>
    have hrest := Closed.append_left (hE.closed (pushArgument_plain ty)) (ih₂ hE) hs.grows.count
    simpa using (ih₁ hE).append hrest he.grows.count hs.grows.count

/-! Statements and blocks. -/

theorem printScalar_closed {program : Program} {structs : StructTable}
    (hE : Serves E program structs) {k : ScalarKind} {s s' : State}
    (h : printScalar k s = .ok (c, s')) : Closed E s.labels.count s'.labels.count [] c := by
  rcases printScalar_ok h with ⟨-, rfl, rfl⟩ | ⟨-, rfl, rfl⟩ | ⟨-, rfl, rfl⟩ | ⟨-, rfl, rfl⟩
  · refine closed_of_parts (by decide : "print-bool" ∈ stems) (by decide : "false" ≠ "join") rfl ?_
    have hname : ∀ l, standardNames.contains l = true → E.name l := fun l hl => hE.plain (.pushD l) hl
    simp [printBoolCode, Environment.printString, Instr.Within, Linkage.with,
      hname Environment.trueString (by decide), hname Environment.falseString (by decide),
      hname Environment.stringFormat (by decide)]
  all_goals exact hE.closed (printString_plain (by decide))

theorem dropCode_plain (ty : Ty) (shape : Shape) : (dropCode ty shape).all Instr.isPlain = true := by
  cases shape with
  | void | address => rfl
  | value =>
    change (if ty.isHeap then _ else _ : Code).all Instr.isPlain = true
    split <;> rfl

theorem closed_nameCode (hE : Serves E ctx.program ctx.structs) {id : StructId} {l : StructLayout}
    (hl : ctx.structs.get? id = some l) : Closed E n n [] (nameCode l) := by
  have hname : Closed E n n [] [.pushD (Environment.structName l.typeCode)] :=
    .straight rfl (by simpa [Instr.Within] using hE.structName hl)
  exact hname.append_left (hE.closed (printString_plain (by decide))) (Nat.le_refl _)

theorem printIf_plain (b : Bool) {l : String} (h : standardNames.contains l = true) :
    (if b then Environment.printString l else []).all Instr.isPlain = true := by
  cases b
  · rfl
  · exact printString_plain h

theorem releaseOld_plain (ty : Ty) : (releaseOld ty).all Instr.isPlain = true := by
  unfold releaseOld
  split <;> rfl

theorem drainIf_plain (b : Bool) : (drainIf b).all Instr.isPlain = true := by
  cases b <;> rfl

theorem Clears.isPlain {selfSlot : Option Int32} {bs : List Binding} (h : Clears selfSlot bs c) :
    c.all Instr.isPlain = true := by
  induction h with
  | nil => rfl
  | cons ha _ ih =>
    simp only [List.all_append, storageAddress_plain ha, ih]
    rfl

theorem Releases.isPlain {selfSlot : Option Int32} {bs : List Binding} {o : Outline}
    (h : Releases selfSlot bs o) : o.code.all Instr.isPlain = true := by
  induction h with
  | nil => rfl
  | cons ha _ ih =>
    simp only [Outline.code_append, Outline.code_wrap, Outline.code_plain, List.all_append,
      storageAddress_plain ha, ih]
    rfl

theorem Leads.inLoop (h : Leads E ctx) {ls : List String} {l : Loop} (hl : l.endLabel ∈ ls) :
    Leads (E.with ls) { ctx with loop := some l } :=
  ⟨fun r hr => .inl (h.exit r hr), fun _ hl' => .inr (Option.some.inj hl' ▸ hl)⟩

theorem closed_exit {l : String} (h : E.jump l) : Closed E n n [] [.jump l] :=
  .straight rfl (by simpa [Instr.Within] using h)

theorem closed_block {scope : Scope} {selfSlot : Option Int32} {o : Outline} {c' : Code} (b : Bool)
    {program : Program} {structs : StructTable} (hE : Serves E program structs)
    (hc : Clears selfSlot scope.owned c) (h : Closed E lo hi [] c')
    (hr : Releases selfSlot scope.owned o) (hle : lo ≤ hi) :
    Closed E lo hi [] (c ++ c' ++ o.code ++ drainIf b) := by
  have hinside := Closed.append_left (hE.closed hc.isPlain) h hle
  have hreleased := hinside.append_right (hE.closed hr.isPlain) hle
  exact hreleased.append_right (hE.closed (drainIf_plain b)) hle

theorem Emits.printers {job : Job} {s s' : State} {o : Outline} (h : Emits ctx job s o s') :
    s'.printers = s.printers := by
  induction h with
  | expr _ ih | bound _ _ ih | field _ _ ih | used _ ih | loaded _ _ ih | moved _ _ ih
  | counted _ _ ih | stored _ _ ih | call _ _ _ ih | readOut _ _ _ ih => exact ih
  | bool | char | int | float | ident | self | new | noArgs => rfl
  | logical _ _ _ _ ih₁ ih₂ | compare _ _ _ _ ih₁ ih₂ | arithmetic _ _ _ _ _ ih₁ ih₂
  | interval _ _ _ ih₁ ih₂ | arg _ _ ih₁ ih₂ | methodCall _ _ _ _ _ _ _ ih₁ ih₂ =>
    exact ih₂.trans ih₁
  | unary _ _ hc ih =>
    rcases unaryCode_ok hc with ⟨rfl, -⟩ | ⟨-, -, rfl, -⟩
    · exact ih
    · exact ih

theorem printScalar_printers {k : ScalarKind} {s s' : State} (h : printScalar k s = .ok (c, s')) :
    s'.printers = s.printers := by
  rcases printScalar_ok h with ⟨-, rfl, -⟩ | ⟨-, rfl, -⟩ | ⟨-, rfl, -⟩ | ⟨-, rfl, -⟩ <;> rfl

theorem mem_printers_printing (s : State) (k : ScalarKind) : k ∈ (s.printing k).printers :=
  List.mem_insert_self

theorem mem_printing {s : State} {k k' : ScalarKind} (h : k ∈ s.printers) :
    k ∈ (s.printing k').printers := List.mem_insert_of_mem h

theorem Performs.printers {task : Task} {s s' : State} {o : Outline}
    (h : Performs ctx task s o s') : ∀ k ∈ s.printers, k ∈ s'.printers := by
  induction h with
  | scalar _ he hp =>
    intro k hk
    rwa [printScalar_printers hp, he.printers]
  | freshInterval _ _ he | storedInterval _ _ he =>
    exact fun k hk => mem_printing (he.printers ▸ hk)
  | printerMethod _ _ _ _ _ _ he | structName _ _ _ _ he | call he | declaration _ _ he
  | ret _ _ he => exact fun k hk => he.printers ▸ hk
  | noItems | printNone | noStmts | leave | retNone => exact fun k hk => hk
  | items _ _ ih₁ ih₂ | print _ _ ih₁ ih₂ | stmts _ _ ih₁ ih₂ =>
    exact fun k hk => ih₂ k (ih₁ k hk)
  | update _ he ht => exact fun k hk => (ht.printers.trans he.printers) ▸ hk
  | ifThen hc _ ih => exact fun k hk => ih k (hc.printers ▸ hk)
  | ifElse hc _ _ ih₁ ih₂ => exact fun k hk => ih₂ k (ih₁ k (hc.printers ▸ hk))
  | loop hc _ ih => exact fun k hk => ih k (hc.printers ▸ hk)
  | nested _ ih | block _ _ _ ih => exact ih

theorem Performs.closed {task : Task} {s s' : State} {o : Outline} (h : Performs ctx task s o s')
    (hE : Serves E ctx.program ctx.structs) (hL : task.isSimple = false → Leads E ctx)
    (hP : ∀ k ∈ s'.printers, E.call k.printer)
    (hspace : ∀ space es, task = .spaced space es → space.all Instr.isPlain = true) :
    Closed E s.labels.count s'.labels.count [] o.code := by
  induction h generalizing E with
  | scalar hk he hp =>
    simpa using (he.closed hE).append (printScalar_closed hE hp) he.grows.count
      (printScalar_grows hp).count
  | @freshInterval ctx e sub k s s' o hty hk he =>
    have hcall : Closed E s'.labels.count s'.labels.count []
        [.duplicate, .call k.printer, RefCounter.push] :=
      .straight rfl (by
        simpa [Instr.Within, RefCounter.push] using
          ⟨hP k (mem_printers_printing s' k), hE.plain RefCounter.push rfl⟩)
    simpa using (he.closed hE).append_right hcall he.grows.count
  | @storedInterval ctx e sub k s s' o hty hk he =>
    have hcall : Closed E s'.labels.count s'.labels.count [] [.call k.printer] :=
      .straight rfl (by simpa [Instr.Within] using hP k (mem_printers_printing s' k))
    simpa using (he.closed hE).append_right hcall he.grows.count
  | @printerMethod ctx e id d method f l s s' o hty hd hp hf hl hn he =>
    have hself : Closed E s'.labels.count s'.labels.count []
        ([Instr.duplicate] ++ Frame.pushArgument cells .int) := hE.closed rfl
    have hcalled := hself.append_left (closed_invocation hE hd hf hl) (Nat.le_refl _)
    have hdropped := hcalled.append_left (hE.closed (dropCode_plain f.returnType
      (resultShape f.returnType))) (Nat.le_refl _)
    simpa using (he.closed hE).append_right hdropped he.grows.count
  | @structName ctx e id d l shape s s' o hty hd hp hl he =>
    have hdrop := Closed.append_left (hE.closed (dropCode_plain e.ty shape)) (closed_nameCode hE hl)
      (Nat.le_refl s'.labels.count)
    simpa using (he.closed hE).append_right hdrop he.grows.count
  | noItems | noStmts => exact .nil
  | @items ctx space e es s s₁ s₂ o₁ o₂ he hs ih₁ ih₂ =>
    have hitem := ih₁ hE (by simp [Task.isSimple]) (fun k hk => hP k (hs.printers k hk)) (by simp)
    have hrest := ih₂ hE (by simp [Task.isSimple]) hP fun space' _ h => by
      cases h
      exact hspace _ _ rfl
    have hfirst := Closed.append_left (hE.closed (hspace _ _ rfl)) hitem he.grows.count
    simpa using hfirst.append hrest he.grows.count hs.grows.count
  | @printNone ctx span spaces newline s =>
    exact hE.closed (by simpa using printIf_plain newline (by decide))
  | @print ctx span e es spaces newline s s₁ s₂ o₁ o₂ he hs ih₁ ih₂ =>
    have hitem := ih₁ hE (by simp [Task.isSimple]) (fun k hk => hP k (hs.printers k hk)) (by simp)
    have hrest := ih₂ hE (by simp [Task.isSimple]) hP fun space _ h => by
      cases h
      exact printIf_plain spaces (by decide)
    have hitems := hitem.append hrest he.grows.count hs.grows.count
    simpa using hitems.append_right (hE.closed (printIf_plain newline (by decide)))
      (he.grows.trans hs.grows).count
  | @declaration ctx span b e store c s s' o hs ha he =>
    have hstore : Closed E s'.labels.count s'.labels.count [] [store] :=
      hE.closed (by rw [List.all_cons, store_plain hs]; rfl)
    have hvalue := (he.closed hE).append_right hstore he.grows.count
    simpa using Closed.append_left (hE.closed (storageAddress_plain ha)) hvalue he.grows.count
  | @update ctx span target e store s s₁ s₂ o₁ o₂ hs he ht =>
    have hstore : Closed E s₂.labels.count s₂.labels.count []
        (releaseOld target.ty ++ [Instr.exchange, store]) := by
      refine hE.closed ?_
      simp only [List.all_append, releaseOld_plain, List.all_cons, store_plain hs]
      rfl
    have hboth := (he.closed hE).append (ht.closed hE) he.grows.count ht.grows.count
    simpa using hboth.append_right hstore (he.grows.trans ht.grows).count
  | @ifThen ctx span cond yes a s s₁ s₂ o₁ o₂ hc hy ih =>
    have hE' := hE.with [Labels.part (s.label "if") "end"]
    have hyes := ih hE' (fun _ => (hL rfl).with _) hP nofun
    simpa using closed_ifThen (number?_part s "end" (by decide)) (hc.closed hE') hyes hc.grows.count
      hy.grows.count
  | @ifElse ctx span cond yes no a s s₁ s₂ s₃ o₁ o₂ o₃ hc hy hn ih₁ ih₂ =>
    have hE' := hE.with [Labels.part (s.label "if") "else", Labels.part (s.label "if") "end"]
    have hyes := ih₁ hE' (fun _ => (hL rfl).with _) (fun k hk => hP k (hn.printers k hk)) nofun
    have hno := ih₂ hE' (fun _ => (hL rfl).with _) hP nofun
    simpa using closed_ifElse (nodup_parts s "if" (by decide)) (number?_parts s (by decide))
      (hc.closed hE') hyes hno hc.grows.count hy.grows.count hn.grows.count
  | @loop ctx span cond body a s s₁ s₂ o₁ o₂ hc hb ih =>
    have hE' := hE.with [Labels.part (s.label "while") "test", Labels.part (s.label "while") "end"]
    have hbody := ih hE' (fun _ => (hL rfl).inLoop (by simp)) hP nofun
    simpa using closed_loop (nodup_parts s "while" (by decide)) (number?_parts s (by decide))
      (hc.closed hE') hbody hc.grows.count hb.grows.count
  | @leave ctx span l s o hl hr =>
    have hdrain := Closed.append_left (hE.closed (drainIf_plain
      (duePending (ctx.leftScopes l.depth s.pushed)))) (closed_exit ((hL rfl).loop l hl))
      (Nat.le_refl s.labels.count)
    simpa using Closed.append_left (hE.closed hr.isPlain) hdrain (Nat.le_refl _)
  | @retNone ctx span r s o hr hv hs =>
    simpa using Closed.append_left (hE.closed hs.isPlain) (closed_exit ((hL rfl).exit r hr))
      (Nat.le_refl _)
  | @ret ctx span r e s s₁ o₁ o₂ hr hv he hs =>
    have hleave := Closed.append_left (hE.closed hs.isPlain) (closed_exit ((hL rfl).exit r hr))
      (Nat.le_refl s₁.labels.count)
    simpa using (he.closed hE).append_right hleave he.grows.count
  | @call ctx span e shape s s' o he =>
    simpa using (he.closed hE).append_right (hE.closed (dropCode_plain e.ty shape)) he.grows.count
  | nested hb ih => exact ih hE (fun _ => hL rfl) hP (by simp)
  | stmts h hs ih₁ ih₂ =>
    have hfirst := ih₁ hE (fun _ => hL rfl) (fun k hk => hP k (hs.printers k hk)) (by simp)
    simpa using hfirst.append (ih₂ hE (fun _ => hL rfl) hP (by simp)) h.grows.count hs.grows.count
  | @block ctx force scope body s s₁ c o₁ o₂ hc hb hr ih =>
    have hbody := ih hE (fun _ => ⟨(hL rfl).exit, (hL rfl).loop⟩) hP nofun
    simpa using closed_block _ hE hc hbody hr hb.grows.count

end Generator
end IntervalStack
