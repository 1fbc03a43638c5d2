import IntervalStack.Proofs.Loading
import IntervalStack.Proofs.Words

/-! Runs of the machine through pieces of code. A piece of code leads from one view of the machine to
another if the machine, from the first one on, runs like from the second one on. -/

namespace IntervalStack

/-! What a computed result shows. -/

theorem exists_ok_of_any {ε α : Type} {r : Except ε α} {p : α → Bool}
    (h : r.toOption.any p = true) : ∃ a, r = .ok a ∧ p a = true := by
  cases r with
  | error => cases h
  | ok a => exact ⟨a, rfl, h⟩

def Machine.completed? : EStateM.Result Fault Machine Unit → Option Machine
  | .ok _ m => some m
  | .error _ _ => none

def Machine.fault? : EStateM.Result Fault Machine Unit → Option Fault
  | .ok _ _ => none
  | .error e _ => some e

theorem Machine.exists_ok_of_completed {r : EStateM.Result Fault Machine Unit} {p : Machine → Bool}
    (h : (completed? r).any p = true) : ∃ m, r = .ok () m ∧ p m = true := by
  cases r with
  | ok _ m => exact ⟨m, rfl, h⟩
  | error => cases h

theorem Machine.exists_error_of_fault {r : EStateM.Result Fault Machine Unit} {e : Fault}
    (h : fault? r = some e) : ∃ m, r = .error e m := by
  cases r with
  | ok => cases h
  | error e' m =>
    obtain rfl := Option.some.inj h
    exact ⟨m, rfl⟩

/-! Runs of the machine. -/

structure View where
  pc : Nat
  stack : List Value
  memory : Memory
  heap : Heap

def View.machine (v : View) (image : Image) (output : String) (steps : Nat) : Machine :=
  ⟨image, v.memory, v.heap, v.stack, v.pc, output, steps, false⟩

inductive Machine.Advances (limit : Nat) : Nat → Machine → Machine → Prop
  | refl (m : Machine) : Advances limit 0 m m
  | step {n : Nat} {m m₁ m' : Machine} (hrunning : m.halted = false)
      (hstep : (Machine.step limit).run m = .ok () m₁) (hrest : Advances limit n m₁ m') :
      Advances limit (n + 1) m m'

theorem Machine.Advances.trans {limit n n' : Nat} {m m₁ m' : Machine} (h : Advances limit n m m₁)
    (h' : Advances limit n' m₁ m') : Advances limit (n + n') m m' := by
  induction h with
  | refl => rwa [Nat.zero_add]
  | step hrunning hstep _ ih =>
    rw [Nat.add_right_comm]
    exact .step hrunning hstep (ih h')

theorem Machine.Advances.runFor {limit n : Nat} {m m' : Machine} (h : Advances limit n m m')
    (fuel : Nat) : (Machine.runFor limit (fuel + n)).run m = (Machine.runFor limit fuel).run m' := by
  induction h with
  | refl => rfl
  | step hrunning hstep _ ih =>
    rw [← ih, ← Nat.add_assoc, Machine.runFor]
    simp only [EStateM.run_bind, EStateM.run_get, hrunning, Bool.false_eq_true, if_false, hstep]

theorem Machine.popInt_run {m : Machine} {p : Nat} {n : Int32} {st : List Value}
    (hst : m.stack = .int n :: st) : (popInt p).run m = .ok n { m with stack := st } := by
  simp only [popInt, pop, EStateM.run_bind, EStateM.run_get, EStateM.run_modify, EStateM.run_pure,
    hst]

theorem Machine.popFloat_run {m : Machine} {p : Nat} {x : Double} {st : List Value}
    (hst : m.stack = .float x :: st) : (popFloat p).run m = .ok x { m with stack := st } := by
  simp only [popFloat, pop, EStateM.run_bind, EStateM.run_get, EStateM.run_modify, EStateM.run_pure,
    hst]

def View.Step (image : Image) (v v' : View) : Prop :=
  ∃ i, image.code[v.pc]? = some i ∧ ∀ output steps,
    (Machine.execute v.pc i).run (View.machine { v with pc := v.pc + 1 } image output steps)
      = .ok () (v'.machine image output steps)

namespace View.Step

variable {image : Image} {i : Instr} {l : String} {p t : Nat} {stack : List Value} {memory : Memory}
  {heap heap' : Heap}

theorem jump (hi : image.code[p]? = some (.jump l)) (hl : image.label? l = some t) :
    View.Step image ⟨p, stack, memory, heap⟩ ⟨t, stack, memory, heap⟩ := by
  refine ⟨_, hi, fun output steps => ?_⟩
  simp only [Machine.execute, Machine.jump, View.machine, EStateM.run_bind, EStateM.run_get, hl,
    EStateM.run_modify]

theorem branchOn {α : Type} {pop : Machine.Exec α} {f : α → Bool} {v : Value} {x : α}
    (hi : image.code[p]? = some i)
    (he : Machine.execute p i = do Machine.jumpIf (f (← pop)) l)
    (hpop : ∀ {m : Machine} {st : List Value}, m.stack = v :: st →
      pop.run m = .ok x { m with stack := st }) (hl : image.label? l = some t) :
    View.Step image ⟨p, v :: stack, memory, heap⟩
      ⟨if f x then t else p + 1, stack, memory, heap⟩ := by
  refine ⟨_, hi, fun output steps => ?_⟩
  rw [he, EStateM.run_bind,
    hpop (m := View.machine ⟨p + 1, v :: stack, memory, heap⟩ image output steps) rfl]
  cases hf : f x <;> simp only [Machine.jumpIf, Machine.jump, View.machine, EStateM.run_bind,
    EStateM.run_get, EStateM.run_modify, EStateM.run_pure, hf, hl, if_true, Bool.false_eq_true,
    if_false]

theorem branch {f : Int32 → Bool} (hi : image.code[p]? = some i)
    (he : Machine.execute p i = do Machine.jumpIf (f (← Machine.popInt p)) l)
    (hl : image.label? l = some t) (n : Int32) :
    View.Step image ⟨p, .int n :: stack, memory, heap⟩
      ⟨if f n then t else p + 1, stack, memory, heap⟩ := branchOn hi he Machine.popInt_run hl

theorem branchFloat {f : Double → Bool} (hi : image.code[p]? = some i)
    (he : Machine.execute p i = do Machine.jumpIf (f (← Machine.popFloat p)) l)
    (hl : image.label? l = some t) (x : Double) :
    View.Step image ⟨p, .float x :: stack, memory, heap⟩
      ⟨if f x then t else p + 1, stack, memory, heap⟩ := branchOn hi he Machine.popFloat_run hl

theorem jumpFalse (hi : image.code[p]? = some (.jumpFalse l)) (hl : image.label? l = some t)
    (n : Int32) : View.Step image ⟨p, .int n :: stack, memory, heap⟩
      ⟨if n = 0 then t else p + 1, stack, memory, heap⟩ := by
  have h : View.Step image _ ⟨if decide (n = 0) then t else p + 1, stack, memory, heap⟩ :=
    branch hi rfl hl n
  simpa only [decide_eq_true_eq] using h

theorem jumpPos (hi : image.code[p]? = some (.jumpPos l)) (hl : image.label? l = some t)
    (n : Int32) : View.Step image ⟨p, .int n :: stack, memory, heap⟩
      ⟨if 0 < n then t else p + 1, stack, memory, heap⟩ := by
  have h : View.Step image _ ⟨if decide (0 < n) then t else p + 1, stack, memory, heap⟩ :=
    branch hi rfl hl n
  simpa only [decide_eq_true_eq] using h

theorem jumpNeg (hi : image.code[p]? = some (.jumpNeg l)) (hl : image.label? l = some t)
    (n : Int32) : View.Step image ⟨p, .int n :: stack, memory, heap⟩
      ⟨if n < 0 then t else p + 1, stack, memory, heap⟩ := by
  have h : View.Step image _ ⟨if decide (n < 0) then t else p + 1, stack, memory, heap⟩ :=
    branch hi rfl hl n
  simpa only [decide_eq_true_eq] using h

theorem call (hi : image.code[p]? = some (.call l)) (hh : Image.isHostEntry l = false)
    (hl : image.label? l = some t) :
    View.Step image ⟨p, stack, memory, heap⟩
      ⟨t, .int (Int32.ofNat (p + 1)) :: stack, memory, heap⟩ := by
  refine ⟨_, hi, fun output steps => ?_⟩
  simp only [Machine.execute, Machine.call, Machine.push, Machine.jump, View.machine,
    EStateM.run_bind, EStateM.run_get, EStateM.run_modify, Image.callsHost, hh, Bool.false_and,
    Bool.false_eq_true, if_false, hl]

theorem ret (hi : image.code[p]? = some .ret) (ht : t < 0x80000000) :
    View.Step image ⟨p, .int (Int32.ofNat t) :: stack, memory, heap⟩ ⟨t, stack, memory, heap⟩ := by
  refine ⟨_, hi, fun output steps => ?_⟩
  have hint : (Int32.ofNat t).toInt = t := Word.toInt_ofNat ht
  have hneg : ¬ Int32.ofNat t < 0 := by
    rw [Int32.lt_iff_toInt_lt, hint]
    simp
  simp only [Machine.execute, Machine.popInt, Machine.pop, View.machine, EStateM.run_bind,
    EStateM.run_get, EStateM.run_modify, EStateM.run_pure, hneg, if_false, hint, Int.toNat_natCast]

theorem allocate (hi : image.code[p]? = some (.call Environment.allocateEntry))
    (hl : image.label? Environment.allocateEntry = none) {size : Int32} {a : Nat}
    (ha : heap.allocate size.toInt.toNat = .ok (a, heap')) :
    View.Step image ⟨p, .int size :: stack, memory, heap⟩
      ⟨p + 1, .int (Int32.ofNat a) :: stack, memory, heap'⟩ := by
  refine ⟨_, hi, fun output steps => ?_⟩
  have hhost : image.callsHost Environment.allocateEntry = true := by
    rw [Image.callsHost, hl]
    decide
  simp only [Machine.execute, Machine.call, Machine.allocate, Machine.push, Machine.popInt,
    Machine.pop, View.machine, EStateM.run_bind, EStateM.run_get, EStateM.run_modify,
    EStateM.run_pure, hhost, if_true, beq_self_eq_true, ha]
  rfl

theorem deallocate (hi : image.code[p]? = some (.call Environment.deallocateEntry))
    (hl : image.label? Environment.deallocateEntry = none) {a : Int32}
    (hd : heap.deallocate a.toUInt32.toNat = .ok heap') :
    View.Step image ⟨p, .int a :: stack, memory, heap⟩ ⟨p + 1, stack, memory, heap'⟩ := by
  refine ⟨_, hi, fun output steps => ?_⟩
  have hhost : image.callsHost Environment.deallocateEntry = true := by
    rw [Image.callsHost, hl]
    decide
  have hother : (Environment.deallocateEntry == Environment.allocateEntry) = false := by decide
  simp only [Machine.execute, Machine.call, Machine.deallocate, Machine.popInt, Machine.pop,
    View.machine, EStateM.run_bind, EStateM.run_get, EStateM.run_modify, EStateM.run_pure, hhost,
    if_true, hother, Bool.false_eq_true, if_false, hd]

end View.Step

def Goes (image : Image) (v v' : View) : Prop :=
  ∃ n, ∀ output steps limit, steps + n ≤ limit →
    Machine.Advances limit n (v.machine image output steps) (v'.machine image output (steps + n))

namespace Goes

variable {image : Image} {v v' v'' : View}

theorem refl (image : Image) (v : View) : Goes image v v := ⟨0, fun _ _ _ _ => .refl _⟩

theorem trans (h : Goes image v v') (h' : Goes image v' v'') : Goes image v v'' := by
  obtain ⟨n, h⟩ := h
  obtain ⟨n', h'⟩ := h'
  refine ⟨n + n', fun output steps limit hlimit => ?_⟩
  rw [← Nat.add_assoc]
  exact (h output steps limit (by omega)).trans (h' output (steps + n) limit (by omega))

theorem one (h : View.Step image v v') : Goes image v v' := by
  obtain ⟨i, hi, h⟩ := h
  refine ⟨1, fun output steps limit hlimit => .step rfl ?_ (.refl _)⟩
  have hlt : ¬ limit ≤ steps := by omega
  rw [← h output (steps + 1)]
  simp only [Machine.step, View.machine, EStateM.run_bind, EStateM.run_get, hlt, if_false,
    EStateM.run_modify, hi]

end Goes

def Heap.grants (h : Heap) (size : Nat) (a : Int) : Bool :=
  0 ≤ a && a + 4 ≤ size && (!h.manages a.toNat || (h.checkAccess a.toNat 4).toBool)

def Instr.act (image : Image) (heap : Heap) (memory : Memory) :
    Instr → List Value → Option (List Value × Memory)
  | .pushI n, stack => some (.int n :: stack, memory)
  | .pushD l, stack => (image.dataLabel? l).map fun a => (.int (Int32.ofNat a) :: stack, memory)
  | .duplicate, v :: stack => some (v :: v :: stack, memory)
  | .exchange, v :: u :: stack => some (u :: v :: stack, memory)
  | .pop, _ :: stack => some (stack, memory)
  | .loadI, .int a :: stack =>
    if heap.grants memory.size a.toInt then some (.int (memory.word a.toInt.toNat) :: stack, memory)
    else none
  | .storeI, .int v :: .int a :: stack =>
    if heap.grants memory.size a.toInt then some (stack, memory.setWord a.toInt.toNat v) else none
  | .add, .int b :: .int a :: stack => some (.int (a + b) :: stack, memory)
  | .subtract, .int b :: .int a :: stack => some (.int (a - b) :: stack, memory)
  | .multiply, .int b :: .int a :: stack => some (.int (a * b) :: stack, memory)
  | .divide, .int b :: .int a :: stack =>
    if b ≠ 0 then some (.int (a / b) :: stack, memory) else none
  | .negate, .int n :: stack => some (.int (-n) :: stack, memory)
  | .bNegate, .int n :: stack => some (.int (if n = 0 then 1 else 0) :: stack, memory)
  | .btAnd, .int b :: .int a :: stack => some (.int (a &&& b) :: stack, memory)
  | .pushF x, stack => some (.float x :: stack, memory)
  | .fAdd, .float y :: .float x :: stack => some (.float (x.add y) :: stack, memory)
  | .fSubtract, .float y :: .float x :: stack => some (.float (x.subtract y) :: stack, memory)
  | .fMultiply, .float y :: .float x :: stack => some (.float (x.multiply y) :: stack, memory)
  | .fDivide, .float y :: .float x :: stack => some (.float (x.divide y) :: stack, memory)
  | .fNegate, .float x :: stack => some (.float x.negate :: stack, memory)
  | .convertF, .int n :: stack => some (.float (.ofInt32 n) :: stack, memory)
  | .convertI, .float x :: stack => some (.int x.toInt32 :: stack, memory)
  | _, _ => none

def Code.act (image : Image) (heap : Heap) (memory : Memory) :
    Code → List Value → Option (List Value × Memory)
  | [], stack => some (stack, memory)
  | i :: c, stack => (i.act image heap memory stack).bind fun s => Code.act image heap s.2 c s.1

variable {image : Image} {heap : Heap} {stack stack' : List Value} {memory memory' : Memory} {p : Nat}

theorem Instr.act_pushD {l : String} {a : Nat} (hl : image.dataLabel? l = some a) :
    (Instr.pushD l).act image heap memory stack = some (.int (Int32.ofNat a) :: stack, memory) := by
  show (image.dataLabel? l).map _ = _
  rw [hl]
  rfl

theorem Instr.act_loadI {a : Nat} (ha : a < 0x80000000) (hg : heap.grants memory.size a = true) :
    Instr.loadI.act image heap memory (.int (Int32.ofNat a) :: stack)
      = some (.int (memory.word a) :: stack, memory) := by
  show (if heap.grants memory.size (Int32.ofNat a).toInt then
    some (.int (memory.word (Int32.ofNat a).toInt.toNat) :: stack, memory) else none) = _
  rw [Word.toInt_ofNat ha, if_pos hg, Int.toNat_natCast]

theorem Instr.act_storeI {a : Nat} {v : Int32} (ha : a < 0x80000000)
    (hg : heap.grants memory.size a = true) :
    Instr.storeI.act image heap memory (.int v :: .int (Int32.ofNat a) :: stack)
      = some (stack, memory.setWord a v) := by
  show (if heap.grants memory.size (Int32.ofNat a).toInt then
    some (stack, memory.setWord (Int32.ofNat a).toInt.toNat v) else none) = _
  rw [Word.toInt_ofNat ha, if_pos hg, Int.toNat_natCast]

theorem check_of_grants {m : Machine} {a : Int} (h : m.heap.grants m.memory.size a = true) :
    m.check a 4 = .ok a.toNat := by
  simp only [Heap.grants, Bool.and_eq_true, decide_eq_true_eq, Bool.or_eq_true,
    Bool.not_eq_true'] at h
  obtain ⟨⟨hpos, hsize⟩, haccess⟩ := h
  rw [Machine.check, if_neg (by omega)]
  rcases haccess with hout | hin
  · exact if_neg (by simp [hout])
  · dsimp only
    split
    · cases hc : m.heap.checkAccess a.toNat 4 with
      | ok u => rfl
      | error e => simp [hc, Except.toBool] at hin
    · rfl

theorem grants_of_check {m : Machine} {a : Int} {b : Nat} (h : m.check a 4 = .ok b) :
    m.heap.grants m.memory.size a = true := by
  simp only [Heap.grants, Bool.and_eq_true, decide_eq_true_eq, Bool.or_eq_true, Bool.not_eq_true']
  unfold Machine.check at h
  split at h
  · cases h
  · refine ⟨by omega, ?_⟩
    dsimp only at h
    split at h
    · split at h
      · next hc => exact .inr (by rw [hc]; rfl)
      · cases h
    · next hout => exact .inl (Bool.eq_false_iff.2 hout)

theorem Instr.act_execute {i : Instr}
    (h : i.act image heap memory stack = some (stack', memory')) (p pc : Nat) (output : String)
    (steps : Nat) :
    (Machine.execute p i).run (View.machine ⟨pc, stack, memory, heap⟩ image output steps)
      = .ok () (View.machine ⟨pc, stack', memory', heap⟩ image output steps) := by
  cases i with
  | pushI n =>
    cases h
    rfl
  | pushD l =>
    obtain ⟨a, ha, h⟩ := Option.map_eq_some_iff.1 h
    cases h
    simp only [Machine.execute, Machine.push, View.machine, EStateM.run_bind, EStateM.run_get,
      EStateM.run_modify, ha]
    rfl
  | pushF x =>
    cases h
    rfl
  | duplicate | pop => rcases stack with _ | ⟨v, stack⟩ <;> first | (cases h; rfl) | cases h
  | negate | bNegate | fNegate | convertF | convertI =>
    rcases stack with _ | ⟨_ | _, stack⟩ <;> first | (cases h; rfl) | cases h
  | exchange =>
    rcases stack with _ | ⟨v, _ | ⟨u, stack⟩⟩ <;> first | (cases h; rfl) | cases h
  | add | subtract | multiply | btAnd | fAdd | fSubtract | fMultiply | fDivide =>
    rcases stack with _ | ⟨_ | _, _ | ⟨_ | _, stack⟩⟩ <;> first | (cases h; rfl) | cases h
  | divide =>
    rcases stack with _ | ⟨b | _, _ | ⟨a | _, stack⟩⟩
    case cons.int.cons.int =>
      obtain ⟨hb, h⟩ := Option.ite_some_none_eq_some.1 h
      cases h
      simp only [Machine.execute, Machine.popInt, Machine.pop, Machine.push, View.machine,
        EStateM.run_bind, EStateM.run_get, EStateM.run_modify, EStateM.run_pure, if_neg hb]
    all_goals cases h
  | loadI =>
    rcases stack with _ | ⟨a | _, stack⟩
    case cons.int =>
      obtain ⟨hg, h⟩ := Option.ite_some_none_eq_some.1 h
      cases h
      have hcheck : (View.machine ⟨pc, stack, memory, heap⟩ image output steps).check a.toInt 4
          = .ok a.toInt.toNat := check_of_grants hg
      simp only [Machine.execute, Machine.loadBytes, Machine.popInt, Machine.pop, Machine.push,
        View.machine, EStateM.run_bind, EStateM.run_get, EStateM.run_modify, EStateM.run_pure,
        Machine.readBytes] at hcheck ⊢
      simp only [hcheck, bind, Except.bind, pure, Except.pure]
      rfl
    all_goals cases h
  | storeI =>
    rcases stack with _ | ⟨v | _, _ | ⟨a | _, stack⟩⟩
    case cons.int.cons.int =>
      obtain ⟨hg, h⟩ := Option.ite_some_none_eq_some.1 h
      cases h
      have hcheck : (View.machine ⟨pc, stack', memory, heap⟩ image output steps).check a.toInt 4
          = .ok a.toInt.toNat := check_of_grants hg
      have hlen : (LittleEndian.encode 4 v.toUInt32.toNat).length = 4 := rfl
      simp only [Machine.execute, Machine.storeBytes, Machine.popInt, Machine.pop, View.machine,
        EStateM.run_bind, EStateM.run_get, EStateM.run_modify, EStateM.run_pure, hlen] at hcheck ⊢
      simp only [hcheck]
      rfl
    all_goals cases h
  | _ => cases h

theorem View.Step.act {i : Instr} (hi : image.code[p]? = some i)
    (h : i.act image heap memory stack = some (stack', memory')) :
    View.Step image ⟨p, stack, memory, heap⟩ ⟨p + 1, stack', memory', heap⟩ :=
  ⟨i, hi, fun _ _ => Instr.act_execute h _ _ _ _⟩

theorem Instr.memory_of_act {i : Instr} (hi : i ≠ .storeI)
    (h : i.act image heap memory stack = some (stack', memory')) : memory' = memory := by
  cases i with
  | storeI => exact absurd rfl hi
  | pushI | pushF =>
    cases h
    rfl
  | pushD =>
    obtain ⟨a, -, h⟩ := Option.map_eq_some_iff.1 h
    cases h
    rfl
  | duplicate | pop =>
    rcases stack with _ | ⟨v, stack⟩ <;> cases h
    rfl
  | negate | bNegate | fNegate | convertF | convertI =>
    rcases stack with _ | ⟨_ | _, stack⟩ <;> cases h
    rfl
  | exchange =>
    rcases stack with _ | ⟨v, _ | ⟨u, stack⟩⟩ <;> cases h
    rfl
  | add | subtract | multiply | btAnd | fAdd | fSubtract | fMultiply | fDivide =>
    rcases stack with _ | ⟨_ | _, _ | ⟨_ | _, stack⟩⟩ <;> cases h
    rfl
  | divide =>
    rcases stack with _ | ⟨b | _, _ | ⟨a | _, stack⟩⟩
    case cons.int.cons.int =>
      obtain ⟨-, h⟩ := Option.ite_some_none_eq_some.1 h
      cases h
      rfl
    all_goals cases h
  | loadI =>
    rcases stack with _ | ⟨a | _, stack⟩
    case cons.int =>
      obtain ⟨-, h⟩ := Option.ite_some_none_eq_some.1 h
      cases h
      rfl
    all_goals cases h
  | _ => cases h

theorem Code.act_append {c c' : Code} :
    (c ++ c').act image heap memory stack
      = (c.act image heap memory stack).bind fun s => c'.act image heap s.2 s.1 := by
  induction c generalizing stack memory with
  | nil => rfl
  | cons i c ih =>
    rw [List.cons_append, act, act, Option.bind_assoc]
    congr 1
    funext s
    exact ih

theorem Goes.straight {d : Code} (hd : ∀ k i, d[k]? = some i → image.code[p + k]? = some i)
    (h : d.act image heap memory stack = some (stack', memory')) :
    Goes image ⟨p, stack, memory, heap⟩ ⟨p + d.length, stack', memory', heap⟩ := by
  induction d generalizing p stack memory with
  | nil =>
    cases h
    exact .refl _ _
  | cons i d ih =>
    obtain ⟨⟨stack₁, memory₁⟩, hi, h⟩ := Option.bind_eq_some_iff.1 h
    have hfirst : Goes image ⟨p, stack, memory, heap⟩ ⟨p + 1, stack₁, memory₁, heap⟩ :=
      .one (.act (hd 0 i rfl) hi)
    have hrest := ih (p := p + 1) (fun k j hk => by
      rw [Nat.add_assoc, Nat.add_comm 1]
      exact hd (k + 1) j hk) h
    rw [List.length_cons, Nat.add_comm d.length, ← Nat.add_assoc]
    exact hfirst.trans hrest

/-! Code at its place. -/

/-- The instructions of the code stand in the image from `p` on, and its labels mean what they
should. -/
structure Placed (image : Image) (p : Nat) (c : Code) : Prop where
  code : ∀ k i, c.executable[k]? = some i → image.code[p + k]? = some i
  label : ∀ pre l post, c = pre ++ .label l :: post →
    image.label? l = some (p + (Code.executable pre).length)

namespace Placed

variable {c c' : Code}

theorem left (h : Placed image p (c ++ c')) : Placed image p c := by
  refine ⟨fun k i hk => h.code k i ?_, fun pre l post hc => h.label pre l (post ++ c') (by simp [hc])⟩
  rw [Code.executable_append, List.getElem?_append_left (List.getElem?_eq_some_iff.1 hk).1, hk]

theorem right (h : Placed image p (c ++ c')) : Placed image (p + c.executable.length) c' := by
  refine ⟨fun k i hk => ?_, fun pre l post hc => ?_⟩
  · rw [Nat.add_assoc]
    refine h.code _ i ?_
    rw [Code.executable_append, List.getElem?_append_right (by omega), Nat.add_sub_cancel_left, hk]
  · rw [h.label (c ++ pre) l post (by simp [hc]), Code.executable_append, List.length_append,
      Nat.add_assoc]

theorem of_flatMap {α : Type} {f : α → Code} {xs : List α} {x : α}
    (h : Placed image p (xs.flatMap f)) (hx : x ∈ xs) : ∃ q, Placed image q (f x) := by
  obtain ⟨pre, post, rfl⟩ := List.append_of_mem hx
  rw [List.flatMap_append, List.flatMap_cons] at h
  exact ⟨_, h.right.left⟩

theorem head {l : String} (h : Placed image p (.label l :: c)) :
    image.label? l = some p := h.label [] l c rfl

theorem stretch (h : Placed image p c) (k : Nat) (hc : c' <+: c.executable.drop k) (q : Nat)
    (i : Instr) (hq : c'[q]? = some i) : image.code[p + k + q]? = some i := by
  rw [Nat.add_assoc]
  refine h.code (k + q) i ?_
  rw [← List.getElem?_drop]
  obtain ⟨rest, hrest⟩ := hc
  rw [← hrest, List.getElem?_append_left (List.getElem?_eq_some_iff.1 hq).1, hq]

theorem act (h : Placed image p c) (k : Nat) (c' : Code) (hc : c' <+: c.executable.drop k)
    (ha : c'.act image heap memory stack = some (stack', memory')) :
    Goes image ⟨p + k, stack, memory, heap⟩ ⟨p + k + c'.length, stack', memory', heap⟩ :=
  .straight (h.stretch k hc) ha

end Placed
end IntervalStack
