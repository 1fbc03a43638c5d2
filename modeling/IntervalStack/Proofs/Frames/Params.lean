import IntervalStack.Generator.Program
import IntervalStack.Proofs.Frames.Call
import IntervalStack.Tree.Builder

/-! The places of arguments. The builder, the caller and the callee each compute them in their own
way, and come to the same. -/

namespace IntervalStack

namespace Frame

open Machine

def declaredSize (params : List (String × Ty)) : Nat := (params.map fun p => p.2.size.toNat).sum

def placed : List (String × Ty) → List Binding
  | [] => []
  | (name, ty) :: params =>
    ⟨name, ty, .aboveFrame (Int32.ofNat (declaredSize params))⟩ :: placed params

variable {params : List (String × Ty)}

theorem declaredSize_cons (name : String) (ty : Ty) (params : List (String × Ty)) :
    declaredSize ((name, ty) :: params) = ty.size.toNat + declaredSize params := by
  simp [declaredSize]

theorem add_size {n : Nat} {ty : Ty} (h : n + ty.size.toNat < UInt32.size) :
    Word.add (UInt32.ofNat n) ty.size = .ok (UInt32.ofNat (n + ty.size.toNat)) := by
  have hn : (UInt32.ofNat n).toNat = n := UInt32.toNat_ofNat_of_lt' (by omega)
  refine Word.add_eq_ok_iff.2 ⟨by rwa [hn], ?_⟩
  rw [UInt32.ofNat_add, UInt32.ofNat_toNat]

theorem placeParams_eq (h : declaredSize params < UInt32.size) :
    Builder.placeParams params = .ok (placed params, UInt32.ofNat (declaredSize params)) := by
  induction params with
  | nil => rfl
  | cons p params ih =>
    obtain ⟨name, ty⟩ := p
    rw [declaredSize_cons] at h ⊢
    have hsize : Word.add (UInt32.ofNat (declaredSize params)) ty.size = _ := add_size (by omega)
    have hoffset : (UInt32.ofNat (declaredSize params)).toInt32
        = Int32.ofNat (declaredSize params) := rfl
    rw [Nat.add_comm] at hsize
    simp only [Builder.placeParams, ih (by omega), bind, Except.bind, hsize, pure, Except.pure,
      placed, hoffset]

theorem foldlM_placed (n : Nat) (h : n + declaredSize params < UInt32.size) :
    (placed params).foldlM (fun n p => Word.add n p.ty.size) (UInt32.ofNat n)
      = .ok (UInt32.ofNat (n + declaredSize params)) := by
  induction params generalizing n with
  | nil => rfl
  | cons p params ih =>
    obtain ⟨name, ty⟩ := p
    rw [declaredSize_cons] at h ⊢
    have hadd : Word.add (UInt32.ofNat n) ty.size = .ok _ := add_size (by omega)
    rw [placed, List.foldlM_cons]
    simp only [bind, Except.bind, hadd]
    rw [ih (n + ty.size.toNat) (by omega), Nat.add_assoc]

theorem paramsSize_eq {f : Function} (hf : f.params = placed params)
    (h : declaredSize params < UInt32.size) :
    f.paramsSize = .ok (UInt32.ofNat (declaredSize params)) := by
  have hfold := foldlM_placed 0 (by rwa [Nat.zero_add])
  rw [Nat.zero_add] at hfold
  rw [Function.paramsSize, hf]
  exact hfold

/-! Reading the slots. -/

namespace Stage

variable {c : Cells} {image : Image} {heap : Heap} {size cell low top fp sp n : Nat} {m : Memory}
  {W : Nat → Prop} {ty : Ty} {load : Instr}

theorem readSlot (h : Stage c image heap size cell low top)
    (hp : Points size cell m (Int32.ofNat fp) sp) (hload : Instr.load? ty = some load)
    (hlow : low ≤ fp) (htop : fp + n + ty.size.toNat ≤ top) (st : List Value) :
    Acts W image heap (c.loadFrame ++ [Instr.pushI (Int32.ofNat n), .add, load]) st m
      (m.operands ty (fp + n) ++ st) m := by
  refine (h.loadFrame hp.size st).append (.quiet rfl (.quiet rfl ?_))
  rw [hp.frame, ← Int32.ofNat_add]
  exact .load hload (h.open_slot hp.size (by omega) htop (Ty.size_pos hload)) (.nil _ _)

theorem readParam (h : Stage c image heap size cell low top)
    (hp : Points size cell m (Int32.ofNat fp) sp) (hload : Instr.load? ty = some load)
    (hlow : low ≤ fp) (htop : fp + n + ty.size.toNat ≤ top) (st : List Value) :
    Acts W image heap (displaced c.loadFrame (Int32.ofNat n) ++ [load]) st m
      (m.operands ty (fp + n) ++ st) m := by
  have hinside := h.inside
  have hsmall := h.small
  unfold displaced
  split
  · next hzero =>
    -- an offset of zero is not added
    have hn : n = 0 := by
      have htoInt := congrArg Int32.toInt hzero
      rw [Word.toInt_ofNat (by omega), Int32.toInt_zero] at htoInt
      omega
    subst hn
    refine (h.loadFrame hp.size st).append ?_
    rw [hp.frame]
    exact .load hload (h.open_slot hp.size hlow htop (Ty.size_pos hload)) (.nil _ _)
  · rw [List.append_assoc]
    exact h.readSlot hp hload hlow htop st

end Stage
end Frame

/-- As long as the frame pointer and the bytes from `low` up to `top` are what they are in the first
state, the code gets the operands wherever it stands, and writes nothing. -/
def Machine.Yields (c : Cells) (low top : Nat) (m : Machine) (code : Code) (vs : List Value) :
    Prop :=
  ∀ k, m.Continues k → k.halted = false → k.cell c.frame = m.cell c.frame →
    (∀ a, low ≤ a → a < top → k.memory.get a = m.memory.get a) → k.Before code →
    ∃ k', Traverses (fun _ => False) code k k' ∧ k'.stack = vs ++ k.stack

namespace Frame

open Machine

variable {c : Cells} {code : Code} {caller k : Machine} {cell low top fp sp n : Nat} {ty : Ty}
  {load : Instr}

theorem Active.yields (h : Active c caller k cell low top (Int32.ofNat fp) sp)
    (htop : fp + n + ty.size.toNat ≤ top)
    (hacts : ∀ image heap m sp st, Stage c image heap m.size cell low top →
      Points m.size cell m (Int32.ofNat fp) sp →
      Acts (fun _ => False) image heap code st m (m.operands ty (fp + n) ++ st) m) :
    k.Yields c fp top code (k.memory.operands ty (fp + n)) := by
  intro k' hk hrunning hframe hbytes hb
  have hstage := h.stage.continues hk
  rw [h.cell_frame, Machine.cell, address, hstage.frame] at hframe
  have hp : Points k'.memory.size cell k'.memory (Int32.ofNat fp) _ :=
    ⟨rfl, hframe, (Word.ofNat_toNat _).symm⟩
  have hperforms := (hacts _ _ _ _ k'.stack hstage hp).performs rfl rfl rfl rfl hb hrunning
  refine ⟨_, ⟨hperforms, hrunning, rfl⟩, ?_⟩
  show k'.memory.operands ty (fp + n) ++ k'.stack = _
  rw [Ty.operands_congr fun i hi => hbytes _ (by omega) (by omega)]

/-! Slots, values and bindings, from the first parameter to the last. -/

def passed (args : List ((String × Ty) × List Value)) : List (Ty × List Value) :=
  args.map fun arg => (arg.1.2, arg.2)

def receiver (self : Option Int32) : List (Ty × List Value) :=
  self.toList.map fun record => (.int, [.int record])

variable {args : List ((String × Ty) × List Value)} {m : Memory}

theorem operands_received {self : Option Int32} (hargs : ∀ arg ∈ args, arg.1.2.Operands arg.2) :
    ∀ arg ∈ receiver self ++ passed args, arg.1.Operands arg.2 := by
  intro arg harg
  rcases List.mem_append.1 harg with harg | harg
  · obtain ⟨record, -, rfl⟩ := List.mem_map.1 harg
    exact ⟨record, rfl⟩
  · obtain ⟨declared, hdeclared, rfl⟩ := List.mem_map.1 harg
    exact hargs declared hdeclared

theorem argsSize_passed (args : List ((String × Ty) × List Value)) :
    argsSize (passed args) = declaredSize (args.map Prod.fst) := by
  simp [argsSize, passed, declaredSize, Function.comp_def]

theorem argsSize_append (args args' : List (Ty × List Value)) :
    argsSize (args ++ args') = argsSize args + argsSize args' := by simp [argsSize]

theorem Lays.right {args args' : List (Ty × List Value)} (h : Lays m sp (args ++ args')) :
    Lays m (sp - argsSize args) args' := by
  induction args generalizing sp with
  | nil => exact h
  | cons arg args ih =>
    obtain ⟨ty, vs⟩ := arg
    rw [argsSize_cons, ← Nat.sub_sub]
    exact ih h.2

theorem Lays.congr {m' : Memory} {args : List (Ty × List Value)} (h : Lays m sp args)
    (hle : argsSize args ≤ sp)
    (hbytes : ∀ a, sp - argsSize args ≤ a → a < sp → m'.get a = m.get a) : Lays m' sp args := by
  induction args generalizing sp with
  | nil => trivial
  | cons arg args ih =>
    obtain ⟨ty, vs⟩ := arg
    rw [argsSize_cons] at hle hbytes
    refine ⟨?_, ih h.2 (by omega) fun a ha ha' => hbytes a (by omega) (by omega)⟩
    rw [← h.1]
    exact Ty.operands_congr fun i hi => hbytes _ (by omega) (by omega)

theorem Lays.placed (h : Lays m (fp + declaredSize (args.map Prod.fst)) (passed args)) {i : Nat}
    {arg : (String × Ty) × List Value} {b : Binding} (harg : args[i]? = some arg)
    (hb : (placed (args.map Prod.fst))[i]? = some b) :
    ∃ n, b = ⟨arg.1.1, arg.1.2, .aboveFrame (Int32.ofNat n)⟩ ∧
      n + arg.1.2.size.toNat ≤ declaredSize (args.map Prod.fst) ∧
      m.operands arg.1.2 (fp + n) = arg.1.2.stored arg.2 := by
  induction args generalizing i with
  | nil => simp at harg
  | cons first args ih =>
    obtain ⟨⟨name, ty⟩, vs⟩ := first
    rw [List.map_cons, declaredSize_cons] at h ⊢
    rw [show fp + (ty.size.toNat + declaredSize (args.map Prod.fst))
      = fp + declaredSize (args.map Prod.fst) + ty.size.toNat by omega] at h
    -- the first argument was passed first and so is the topmost, with the others below it
    obtain ⟨hvalue, hrest⟩ := h
    rw [Nat.add_sub_cancel] at hvalue hrest
    cases i with
    | zero =>
      cases harg
      cases hb
      exact ⟨_, rfl, Nat.le_of_eq (Nat.add_comm _ _), hvalue⟩
    | succ i =>
      obtain ⟨n, hb, hn, hvalue⟩ := ih hrest harg hb
      exact ⟨n, hb, by omega, hvalue⟩

theorem Active.finds_argument (h : Active c caller k cell low top (Int32.ofNat fp) sp)
    (hlays : Lays k.memory (fp + declaredSize (args.map Prod.fst)) (passed args)) (hlow : low ≤ fp)
    (htop : fp + declaredSize (args.map Prod.fst) ≤ top) {i : Nat}
    {arg : (String × Ty) × List Value} {b : Binding} (harg : args[i]? = some arg)
    (hb : (placed (args.map Prod.fst))[i]? = some b) (hload : Instr.load? arg.1.2 = some load)
    (selfSlot : Option Int32) :
    ∃ address, storageAddress? c b.storage selfSlot = some address ∧
      k.Yields c fp top (address ++ [load]) (arg.1.2.stored arg.2) := by
  obtain ⟨n, rfl, hn, hvalue⟩ := hlays.placed harg hb
  refine ⟨_, rfl, ?_⟩
  rw [← hvalue]
  exact h.yields (by omega) fun image heap m sp st hstage hp =>
    hstage.readParam hp hload hlow (by omega) st

theorem Active.finds_record (h : Active c caller k cell low top (Int32.ofNat fp) sp)
    {record : Int32} (hvalue : k.memory.operands .int (fp + n) = [.int record]) (hlow : low ≤ fp)
    (htop : fp + n + 4 ≤ top) :
    k.Yields c fp top (selfPointer c (Int32.ofNat n)) [.int record] := by
  rw [← hvalue]
  exact h.yields htop fun image heap m sp st hstage hp =>
    hstage.readSlot hp (show Instr.load? .int = _ from rfl) hlow htop st

theorem Active.finds {self : Option Int32} (h : Active c caller k cell low top (Int32.ofNat fp) sp)
    (hlays : Lays k.memory top (receiver self ++ passed args)) (hlow : low ≤ fp)
    (htop : fp + argsSize (receiver self ++ passed args) = top) (selfSlot : Option Int32) :
    (∀ (i : Nat) arg b load, args[i]? = some arg → (placed (args.map Prod.fst))[i]? = some b →
      Instr.load? arg.1.2 = some load →
      ∃ address, storageAddress? c b.storage selfSlot = some address ∧
        k.Yields c fp top (address ++ [load]) (arg.1.2.stored arg.2)) ∧
    ∀ record, self = some record → k.Yields c fp top
      (selfPointer c (Int32.ofNat (declaredSize (args.map Prod.fst)))) [.int record] := by
  rw [argsSize_append, argsSize_passed] at htop
  refine ⟨fun i arg b load harg hb hload => ?_, fun record hrecord => ?_⟩
  · refine h.finds_argument ?_ hlow (by omega) harg hb hload selfSlot
    have hdeclared := hlays.right
    rwa [show top - argsSize (receiver self) = fp + declaredSize (args.map Prod.fst) by omega]
      at hdeclared
  · subst hrecord
    have hword : argsSize (receiver (some record)) = 4 := rfl
    have hfirst : k.memory.operands .int (top - 4) = [.int record] := hlays.1
    rw [show top - 4 = fp + declaredSize (args.map Prod.fst) by omega] at hfirst
    exact h.finds_record hfirst hlow (by omega)

theorem Active.initializes {fp₀ record : Int32} {st : List Value} {routine : String} {t : Nat}
    (h : Active c caller k cell low top fp₀ sp) (hst : k.stack = .int record :: st) (hn : 8 ≤ n)
    (hlow : low + n + 4 ≤ sp) (htop : sp ≤ top) (hb : k.Before (callInitializer c routine))
    (hl : k.image.label? routine = some t)
    (hpro : ({ k with pc := t } : Machine).Before (enter c n)) :
    ∃ entered, Performs (Touched cell (cell + 4) low top) (callInitializer c routine ++ enter c n) k
        entered ∧ entered.halted = false ∧ entered.pc = t + (enter c n).length ∧
      entered.stack = k.stack ∧
      entered.Yields c (sp - 4) top (selfPointer c 0) [.int record] := by
  -- the copy of the record is what is computed as the argument
  have hcopy : Performs (Touched cell (cell + 4) low top) [.duplicate] k
      (k.moved 1 (.int record :: k.stack) k.memory) :=
    Acts.performs (.quiet (by rw [hst]; rfl) (.nil _ _)) rfl rfl rfl rfl hb.left.left h.running
  have hoperand : Ty.int.Operands [.int record] := ⟨record, rfl⟩
  have hword : Ty.int.size.toNat = 4 := rfl
  obtain ⟨k₁, htraverses, hk, hstack, hvalue, -⟩ := h.pushArgument
    ⟨hcopy.reaches, h.running, rfl, rfl, rfl⟩ hoperand (by omega) htop (hb.left.right rfl rfl)
  have himage : k₁.image = k.image :=
    (hcopy.reaches.trans htraverses.performs.reaches).continues.image
  have hpc : k₁.pc = k.pc + ([Instr.duplicate] ++ Frame.pushArgument c .int).length := by
    rw [htraverses.pc, List.length_append, ← Nat.add_assoc]
    rfl
  have hcallee : ({ k₁ with pc := t } : Machine).Before (enter c n) := fun j i hj => by
    rw [himage]
    exact hpro j i hj
  obtain ⟨entered, hperforms, hpc', hentered, hstack', -, -, hkept⟩ := hk.enters hn (by omega)
    (by omega) (hb.right himage hpc 0 _ rfl) (by rw [himage, hl]) hcallee
  refine ⟨entered, ?_, hentered.running, hpc', hstack'.trans hstack,
    hentered.finds_record (n := 0) ?_ (by omega) (by omega)⟩
  · have hwhole := (hcopy.append htraverses.performs).append hperforms
    rwa [← List.append_assoc] at hwhole
  · rw [← show Ty.int.stored [.int record] = [.int record] from rfl, ← hvalue]
    exact Ty.operands_congr fun i hi => hkept _ (by omega) (by omega)

/-! The parts of a frame. -/

def slotOf (b : Binding) : Int × Nat := (b.storage.offset.toInt, b.ty.size.toNat)

/-- The parts of the frame of a routine, each with its distance from the frame pointer and its size:
the record, the parameters, the saved frame pointer, the return address and the locals. -/
def parts (spec : Generator.RoutineSpec) : List (Int × Nat) :=
  spec.selfSlot.toList.map (fun slot => (slot.toInt, Layout.pointerSize.toNat))
    ++ (spec.params.map slotOf
    ++ [(savedFrameOffset.toInt, 4), (returnAddressOffset.toInt, 4),
      (returnAddressOffset.toInt - spec.localsSize.toNat, spec.localsSize.toNat)])

def IsAbove (p q : Int × Nat) : Prop := q.1 + q.2 ≤ p.1

theorem mem_placed {params : List (String × Ty)} {b : Binding} (hb : b ∈ placed params)
    (h : declaredSize params < 0x80000000) : 0 ≤ b.storage.offset.toInt ∧
      b.storage.offset.toInt + b.ty.size.toNat ≤ declaredSize params := by
  induction params with
  | nil => cases hb
  | cons p params ih =>
    obtain ⟨name, ty⟩ := p
    rw [declaredSize_cons] at h ⊢
    rcases List.mem_cons.1 hb with rfl | hb
    · have hoffset : (Int32.ofNat (declaredSize params)).toInt = declaredSize params :=
        Word.toInt_ofNat (by omega)
      show 0 ≤ (Int32.ofNat (declaredSize params)).toInt ∧
        (Int32.ofNat (declaredSize params)).toInt + ty.size.toNat ≤ _
      omega
    · have := ih hb (by omega)
      omega

theorem pairwise_placed {params : List (String × Ty)} (h : declaredSize params < 0x80000000) :
    ((placed params).map slotOf).Pairwise IsAbove := by
  induction params with
  | nil => exact .nil
  | cons p params ih =>
    obtain ⟨name, ty⟩ := p
    rw [declaredSize_cons] at h
    refine .cons (fun q hq => ?_) (ih (by omega))
    obtain ⟨b, hb, rfl⟩ := List.mem_map.1 hq
    have hbelow := (mem_placed hb (by omega)).2
    rwa [← Word.toInt_ofNat (n := declaredSize params) (by omega)] at hbelow

theorem pairwise_parts {params : List (String × Ty)} {spec : Generator.RoutineSpec}
    (hparams : spec.params = placed params)
    (hself : ∀ slot, spec.selfSlot = some slot → slot = Int32.ofNat (declaredSize params))
    (h : declaredSize params < 0x80000000) : (parts spec).Pairwise IsAbove := by
  have hsaved : savedFrameOffset.toInt = -4 := rfl
  have hreturn : returnAddressOffset.toInt = -8 := rfl
  -- what the callee adds lies below the frame pointer, what it was passed above
  have hheader : ∀ q ∈ [(savedFrameOffset.toInt, 4), (returnAddressOffset.toInt, 4),
      (returnAddressOffset.toInt - spec.localsSize.toNat, spec.localsSize.toNat)],
      q.1 + q.2 ≤ 0 := by
    simp only [List.mem_cons, List.not_mem_nil, or_false]
    rintro q (rfl | rfl | rfl) <;> simp only [hsaved, hreturn] <;> omega
  have hdeclared : ∀ q ∈ spec.params.map slotOf,
      0 ≤ q.1 ∧ q.1 + q.2 ≤ declaredSize params := by
    intro q hq
    obtain ⟨b, hb, rfl⟩ := List.mem_map.1 hq
    exact mem_placed (hparams ▸ hb) h
  refine List.pairwise_append.2 ⟨?_, List.pairwise_append.2 ⟨hparams ▸ pairwise_placed h, ?_,
    fun p hp q hq => Int.le_trans (hheader q hq) (hdeclared p hp).1⟩, fun p hp q hq => ?_⟩
  · cases spec.selfSlot <;> simp
  · simp only [List.pairwise_cons, List.mem_cons, List.not_mem_nil, or_false, forall_eq_or_imp,
      forall_eq, false_implies, implies_true, List.Pairwise.nil, and_true, IsAbove, hsaved, hreturn]
    omega
  · obtain ⟨slot, hslot, rfl⟩ := List.mem_map.1 hp
    have htop : slot.toInt = declaredSize params := by
      rw [hself slot (Option.mem_toList.1 hslot), Word.toInt_ofNat h]
    show q.1 + q.2 ≤ slot.toInt
    rcases List.mem_append.1 hq with hq | hq
    · have := (hdeclared q hq).2
      omega
    · have := hheader q hq
      omega

def routineSpec (self : Option Int32) (typeCode : Int32) (f : Function) :
    Except Overflow Generator.RoutineSpec :=
  if self.isSome then Generator.methodSpec typeCode f else Generator.functionSpec f

theorem routineSpec_ok {f : Function} {params : List (String × Ty)} (self : Option Int32)
    (typeCode : Int32) (hf : f.params = placed params)
    (h : declaredSize params + argsSize (receiver self) < UInt32.size) :
    ∃ spec, routineSpec self typeCode f = .ok spec ∧ spec.params = f.params ∧
      spec.localsSize = f.localsSize ∧
      spec.paramsSize.toNat = argsSize (receiver self) + declaredSize params ∧
      spec.selfSlot = self.map fun _ => Int32.ofNat (declaredSize params) := by
  have hsize := paramsSize_eq hf (by omega)
  have htoNat (n : Nat) (hn : n < UInt32.size) : (UInt32.ofNat n).toNat = n :=
    UInt32.toNat_ofNat_of_lt' hn
  cases self with
  | none =>
    refine ⟨⟨Generator.functionLabel f.name, f.params, UInt32.ofNat (declaredSize params),
      f.localsSize, f.returnType, none, f.body⟩, ?_, rfl, rfl, ?_, rfl⟩
    · simp only [routineSpec, Option.isSome_none, Bool.false_eq_true, if_false,
        Generator.functionSpec, hsize, bind, Except.bind, pure, Except.pure]
    · exact (htoNat _ (by omega)).trans (Nat.zero_add _).symm
  | some record =>
    have hrecord : argsSize (receiver (some record)) = 4 := rfl
    have hadd : Word.add (UInt32.ofNat (declaredSize params)) Layout.pointerSize
        = .ok (UInt32.ofNat (declaredSize params + 4)) :=
      @add_size _ .int (by show _ + 4 < _; omega)
    refine ⟨⟨Generator.methodLabel typeCode f.name, f.params,
      UInt32.ofNat (declaredSize params + 4), f.localsSize, f.returnType,
      some (UInt32.ofNat (declaredSize params)).toInt32, f.body⟩, ?_, rfl, rfl, ?_, rfl⟩
    · simp only [routineSpec, Option.isSome_some, if_true, Generator.methodSpec, hsize, hadd, bind,
        Except.bind, pure, Except.pure]
    · exact (htoNat _ (by omega)).trans (Nat.add_comm _ _)

/-- The callee finds what the caller has passed. The builder lays the parameters out; the caller
computes the arguments in any way that leaves the cells and the slots alone, and passes them from
left to right, the record of a method first; and in the callee, the code for the address of a
binding, with a load behind it, gets the argument, and the code for the record gets the record. An
initialiser finds the record that it is called on. In each frame the parts stand one below the
other. -/
theorem callee_finds_arguments (hroom : Room c code caller low sp)
    (hrunning : caller.halted = false) (hsp : caller.cell c.stack = Int32.ofNat sp) :
    let W := Touched (caller.address c.frame) (caller.address c.stack) low sp
    (∀ (self : Option Int32) (args : List ((String × Ty) × List Value)) (locals : UInt32)
      (routine : String), (∀ arg ∈ args, arg.1.2.Operands arg.2) →
      low + (8 + locals.toNat + argsSize (receiver self ++ passed args)) ≤ sp →
      ∃ bindings size, Builder.placeParams (args.map Prod.fst) = .ok (bindings, size) ∧
        ∀ (typeCode : Int32) (f : Function), f.params = bindings → f.localsSize = locals →
          ∃ spec pro, routineSpec self typeCode f = .ok spec ∧
            prologue c spec.localsSize = .ok pro ∧
            spec.paramsSize.toNat = argsSize (receiver self ++ passed args) ∧
            (parts spec).Pairwise IsAbove ∧
            Passes c W (Spares c sp) (receiver self ++ passed args) caller fun k =>
              ∀ t, k.image.code[k.pc]? = some (.call routine) → k.image.label? routine = some t →
                ({ k with pc := t } : Machine).Before pro →
                ∃ entered, Performs W ([Instr.call routine] ++ pro) k entered ∧
                  entered.halted = false ∧ entered.pc = t + pro.length ∧
                  entered.stack = caller.stack ∧
                  let fp := sp - spec.paramsSize.toNat
                  entered.cell c.frame = Int32.ofNat fp ∧
                  entered.cell c.stack = Int32.ofNat (fp - 8 - locals.toNat) ∧
                  (∀ (i : Nat) arg b load, args[i]? = some arg → bindings[i]? = some b →
                    Instr.load? arg.1.2 = some load →
                    ∃ address, storageAddress? c b.storage spec.selfSlot = some address ∧
                      entered.Yields c fp sp (address ++ [load]) (arg.1.2.stored arg.2)) ∧
                  ∀ record, self = some record → ∃ slot, spec.selfSlot = some slot ∧
                    entered.Yields c fp sp (selfPointer c slot) [.int record]) ∧
    ∀ (typeCode : Int32) (d : StructDef) (record : Int32) (st : List Value) (routine : String),
      caller.stack = .int record :: st → low + (8 + d.initializerLocals.toNat + 4) ≤ sp →
      let spec := Generator.initializerSpec typeCode d
      ∃ pro, prologue c spec.localsSize = .ok pro ∧ (parts spec).Pairwise IsAbove ∧
        ∀ t, caller.Before (callInitializer c routine) → caller.image.label? routine = some t →
          ({ caller with pc := t } : Machine).Before pro →
          ∃ entered, Performs W (callInitializer c routine ++ pro) caller entered ∧
            entered.halted = false ∧ entered.pc = t + pro.length ∧ entered.stack = caller.stack ∧
            spec.selfSlot = some 0 ∧
            entered.Yields c (sp - 4) sp (selfPointer c 0) [.int record] := by
  have hinside := hroom.inside
  have hsmall := hroom.small
  intro W
  refine ⟨fun self args locals routine hargs hfits => ?_,
    fun typeCode d record st routine hst hfits => ?_⟩
  · obtain ⟨hactive, hcells⟩ := hroom.active hrunning (by omega) hsp
    rw [show W = Touched _ (_ + 4) low sp from congrArg (Touched _ · low sp) hcells]
    have hsize := argsSize_append (receiver self) (passed args)
    rw [argsSize_passed] at hsize
    refine ⟨_, _, placeParams_eq (by simp only [UInt32.size]; omega),
      fun typeCode f hf hlocals => ?_⟩
    obtain ⟨spec, hspec, hparams, hlocals', hparamsSize, hself⟩ :=
      routineSpec_ok self typeCode hf (by simp only [UInt32.size]; omega)
    rw [← hsize] at hparamsSize
    have hpro := prologue_eq c (show 8 + locals.toNat < 0x80000000 by omega)
    rw [← hlocals, ← hlocals'] at hpro
    refine ⟨spec, _, hspec, hpro, hparamsSize,
      pairwise_parts (hparams.trans hf) (fun slot hslot => ?_) (by omega),
      hactive.passes (operands_received hargs) (by omega) (Nat.le_refl _)
        fun k hk hstack hlays t hi hl hb => ?_⟩
    · rw [hself] at hslot
      obtain ⟨_, -, rfl⟩ := Option.map_eq_some_iff.1 hslot
      rfl
    · obtain ⟨hlays, -⟩ := hlays fun _ _ h => h
      rw [hlocals', hlocals] at hb ⊢
      obtain ⟨entered, hperforms, hpc, hentered, hstack', -, -, hkept⟩ :=
        hk.enters (by omega) (by omega) (by omega) hi hl hb
      obtain ⟨hfinds, hrecord⟩ := hentered.finds (hlays.congr (by omega) hkept) (by omega)
        (by omega) spec.selfSlot
      rw [hparamsSize]
      exact ⟨entered, hperforms, hentered.running, hpc, hstack'.trans hstack, hentered.cell_frame,
        by rw [hentered.cell_stack, Nat.sub_sub _ 8], hfinds, fun record hr =>
          ⟨_, by rw [hself, hr]; rfl, hrecord record hr⟩⟩
  · obtain ⟨hactive, hcells⟩ := hroom.active hrunning (by omega) hsp
    rw [show W = Touched _ (_ + 4) low sp from congrArg (Touched _ · low sp) hcells]
    refine ⟨_, prologue_eq c (show 8 + d.initializerLocals.toNat < _ by omega),
      pairwise_parts (show _ = placed [] from rfl) (fun slot hslot => (Option.some.inj hslot).symm)
        (by decide), fun t hb hl hpro => ?_⟩
    have hfits' : low + (8 + d.initializerLocals.toNat) + 4 ≤ sp := by omega
    obtain ⟨entered, hperforms, hrunning', hpc, hstack, hyields⟩ :=
      hactive.initializes hst (Nat.le_add_right 8 _) hfits' (Nat.le_refl _) hb hl hpro
    exact ⟨entered, hperforms, hrunning', hpc, hstack, rfl, hyields⟩

/-- A method that gets its character and its record, and an initialiser that gets its record. -/
def lookups : Code :=
  Cells.standard.declare
    ++ ([Instr.pushI 77] ++ (pushArgument .standard .int ++ ([Instr.pushI 300]
    ++ (pushArgument .standard .char ++ ([Instr.pushF ⟨0⟩] ++ (pushArgument .standard .float
    ++ ([Instr.call "method", .halt, .label "method"] ++ (enter .standard 12
    ++ ((displaced Cells.standard.loadFrame 8 ++ [Instr.loadC]) ++ (selfPointer .standard 9
    ++ ([Instr.halt] ++ (callInitializer .standard "initializer"
    ++ ([Instr.halt, .label "initializer"]
    ++ (enter .standard 8 ++ (selfPointer .standard 0 ++ [Instr.halt])))))))))))))))

def getter : Function := ⟨"get", placed [("c", .char), ("x", .float)], .int, 4, .empty, .none⟩

theorem callee_finds_arguments_lookups :
    ∃ m₀, Machine.load lookups ⟨128, 0, 1000⟩ = .ok m₀ ∧
      (∃ caller found, m₀.Continues caller ∧ caller.stack = [] ∧ caller.Reaches found ∧
        found.stack = [.int 77, .int 44]) ∧
      ∃ caller found, m₀.Continues caller ∧ caller.stack = [.int 77] ∧ caller.Reaches found ∧
        found.stack = [.int 77, .int 77] := by
  have hok : (Machine.load lookups ⟨128, 0, 1000⟩).toBool = true := by decide +kernel
  cases hload : Machine.load lookups ⟨128, 0, 1000⟩ with
  | error => simp [hload, Except.toBool] at hok
  | ok m₀ =>
    refine ⟨m₀, rfl, ?_, ?_⟩
    · obtain ⟨hcontinues, hroom, hsp⟩ :=
        room_primed hload rfl (by decide) 103 128 (by decide +kernel) (by decide) 0 []
      have hargs : ∀ arg ∈ [(("c", Ty.char), [Value.int 300]), (("x", .float), [.float ⟨0⟩])],
          arg.1.2.Operands arg.2 := by
        simp [Ty.Operands]
      obtain ⟨bindings, size, hplaced, hroutine⟩ :=
        (callee_finds_arguments hroom rfl hsp).1 (some 77) _ 4 "method" hargs (by decide)
      obtain rfl : bindings = placed [("c", .char), ("x", .float)] :=
        congrArg Prod.fst (Except.ok.inj (hplaced.symm.trans (placeParams_eq (by decide))))
      obtain ⟨spec, pro, hspec, hpro, hsize, -, hpasses⟩ := hroutine 16 getter rfl rfl
      obtain ⟨_, hspec', -, hlocals, -, hself⟩ :=
        routineSpec_ok (some 77) 16 (show getter.params = _ from rfl) (by decide)
      obtain rfl := Except.ok.inj (hspec.symm.trans hspec')
      rw [hlocals] at hpro
      obtain rfl : pro = enter .standard 12 :=
        Except.ok.inj (hpro.symm.trans (prologue_eq _ (by decide)))
      have hat {k : Machine} (n : Nat) (block : Code) (hk : (primed m₀ 0 128 []).Reaches k) :=
        before_of_load hload (hcontinues.trans hk.continues).image n block
      -- the record and the two arguments
      obtain ⟨k₁, hr₁, hrunning₁, hpc₁, hpasses⟩ := hpasses.push (i := .pushI 77) rfl
        (hat 4 _ (.refl _) (by decide) rfl rfl) (fun _ => rfl) fun _ hm _ _ _ => by rw [hm]
      obtain ⟨k₂, hr₂, hrunning₂, hpc₂, hpasses⟩ := hpasses.push (i := .pushI 300) hrunning₁
        (hat 15 _ hr₁ (by decide) rfl hpc₁) (fun _ => rfl) fun _ hm _ _ _ => by rw [hm]
      have hr₂ := hr₁.trans hr₂
      have hpc₂ : k₂.pc = 22 := hpc₂.trans (by rw [hpc₁]; rfl)
      obtain ⟨k₃, hr₃, -, hpc₃, hcall⟩ := hpasses.push (i := .pushF ⟨0⟩) hrunning₂
        (hat 26 _ hr₂ (by decide) rfl hpc₂) (fun _ => rfl) fun _ hm _ _ _ => by rw [hm]
      have hr₃ := hr₂.trans hr₃
      have hpc₃ : k₃.pc = 33 := hpc₃.trans (by rw [hpc₂]; rfl)
      -- the call
      have hc₃ := hcontinues.trans hr₃.continues
      have hi : k₃.image.code[k₃.pc]? = some (.call "method") :=
        hat 37 [.call "method"] hr₃ (by decide) rfl hpc₃ 0 _ rfl
      have hl : k₃.image.label? "method" = some 35 := by
        rw [hc₃.image]
        exact (load_loaded hload).label (lookups.take 39) _ (lookups.drop 40) (by decide)
      obtain ⟨entered, hp₄, hrunning₄, hpc₄, hstack₄, -, -, hfinds, hrecord⟩ := hcall 35 hi hl
        (before_of_load (k := { k₃ with pc := 35 }) hload hc₃.image 40 _ (by decide) rfl rfl)
      have hr₄ := hr₃.trans hp₄.reaches
      obtain ⟨address, haddress, hyields⟩ := hfinds 0 _ _ .loadC rfl rfl rfl
      obtain rfl := Option.some.inj haddress
      obtain ⟨k₅, ht₅, hstack₅⟩ := hyields entered (.refl _) hrunning₄ rfl (fun _ _ _ => rfl)
        (hat 64 _ hr₄ (by decide) rfl hpc₄)
      have hr₅ := hr₄.trans ht₅.performs.reaches
      have hpc₅ : k₅.pc = 64 := ht₅.pc.trans (by rw [hpc₄]; rfl)
      obtain ⟨slot, hslot, hyields'⟩ := hrecord 77 rfl
      obtain rfl := Option.some.inj (hslot.symm.trans hself)
      have hframe : entered.address Cells.standard.frame = 0 := by
        rw [address, (hcontinues.trans hr₄.continues).image,
          (load_loaded hload).dataLabel [] _ (lookups.drop 1) rfl]
        rfl
      obtain ⟨found, ht₆, hstack₆⟩ := hyields' k₅ ht₅.performs.reaches.continues ht₅.running
        (ht₅.cell (by rw [hframe]; decide)) (fun a _ ha => ht₅.performs.get (by omega) id)
        (hat 69 _ hr₅ (by decide) rfl hpc₅)
      exact ⟨_, found, hcontinues, rfl, hr₅.trans ht₆.performs.reaches, by
        rw [hstack₆, hstack₅, hstack₄]; rfl⟩
    · obtain ⟨hcontinues, hroom, hsp⟩ :=
        room_primed hload rfl (by decide) 103 128 (by decide +kernel) (by decide) 70 [.int 77]
      obtain ⟨pro, hpro, -, hcall⟩ := (callee_finds_arguments hroom rfl hsp).2 16
        ⟨0, "s", [], 0, 0, .empty, [], none, .none⟩ 77 [] "initializer" rfl (by decide)
      obtain rfl : pro = enter .standard 8 :=
        Except.ok.inj (hpro.symm.trans (prologue_eq _ (by decide)))
      have hl : m₀.image.label? "initializer" = some 83 :=
        (load_loaded hload).label (lookups.take 88) _ (lookups.drop 89) (by decide)
      obtain ⟨entered, hperforms, hrunning, hpc, hstack, -, hyields⟩ := hcall 83
        (before_of_load (k := primed m₀ 70 128 [.int 77]) hload rfl 75 _ (by decide) rfl rfl) hl
        (before_of_load (k := { primed m₀ 70 128 [.int 77] with pc := 83 }) hload rfl 89 _
          (by decide) rfl rfl)
      have hreaches := hperforms.reaches
      obtain ⟨found, ht, hfound⟩ := hyields entered (.refl _) hrunning rfl (fun _ _ _ => rfl)
        (before_of_load hload (hcontinues.trans hreaches.continues).image 113 _ (by decide) rfl hpc)
      exact ⟨_, found, hcontinues, rfl, hreaches.trans ht.performs.reaches, by
        rw [hfound, hstack]; rfl⟩

end Frame
end IntervalStack
