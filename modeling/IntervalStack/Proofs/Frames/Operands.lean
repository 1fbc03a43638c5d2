import IntervalStack.Asm.Code
import IntervalStack.Proofs.Running

/-! Values of all types on the operand stack and in memory, and stretches of code that move them
between the two. -/

namespace IntervalStack

namespace Word

theorem toInt32_eq_ofNat (n : UInt32) : n.toInt32 = Int32.ofNat n.toNat := by
  change _ = (UInt32.ofNat n.toNat).toInt32
  rw [UInt32.ofNat_toNat]

theorem ofNat_sub_of_le {a b : Nat} (h : b ≤ a) :
    Int32.ofNat a - Int32.ofNat b = Int32.ofNat (a - b) := by
  rw [Int32.sub_eq_iff_eq_add, ← Int32.ofNat_add, Nat.sub_add_cancel h]

theorem ofNat_add_neg {a b : Nat} (h : b ≤ a) :
    Int32.ofNat a + -Int32.ofNat b = Int32.ofNat (a - b) := by
  rw [← Int32.sub_eq_add_neg, ofNat_sub_of_le h]

end Word

namespace Ty

/-- The operands that a value of the type is on the stack: one of its tag, or none. -/
def Operands : Ty → List Value → Prop
  | .void, vs => vs = []
  | .float, vs => ∃ x, vs = [.float x]
  | _, vs => ∃ n, vs = [.int n]

def bytes : Ty → List Value → List UInt8
  | .bool, [.int n] | .char, [.int n] => LittleEndian.encode 1 n.toUInt32.toNat
  | _, [.int n] => LittleEndian.encode 4 n.toUInt32.toNat
  | _, [.float x] => LittleEndian.encode 8 x.bits.toNat
  | _, _ => []

/-- What is left of operands that have been in a slot of the type. -/
def stored : Ty → List Value → List Value
  | .bool, [.int n] | .char, [.int n] => [.int (Int32.ofNat (n.toUInt32.toNat % 256))]
  | _, vs => vs

end Ty

def Memory.operands (m : Memory) : Ty → Nat → List Value
  | .void, _ => []
  | .bool, a | .char, a => [.int (Int32.ofNat (LittleEndian.decode (m.read a 1)))]
  | .float, a => [.float ⟨UInt64.ofNat (LittleEndian.decode (m.read a 8))⟩]
  | _, a => [.int (m.word a)]

namespace Ty

variable {ty : Ty} {vs : List Value} {m m' : Memory} {a : Nat}

theorem length_bytes (h : ty.Operands vs) : (ty.bytes vs).length = ty.size.toNat := by
  cases ty with
  | void =>
    cases h
    rfl
  | _ =>
    obtain ⟨n, rfl⟩ := h
    rfl

theorem Operands.cases (h : ty.Operands vs) :
    (∃ load store v, Instr.load? ty = some load ∧ Instr.store? ty = some store ∧ vs = [v]) ∨
      ty = .void ∧ vs = [] := by
  cases ty with
  | void => exact .inr ⟨rfl, h⟩
  | _ =>
    obtain ⟨n, rfl⟩ := h
    exact .inl ⟨_, _, _, rfl, rfl, rfl⟩

theorem size_pos {i : Instr} (h : Instr.load? ty = some i) : 0 < ty.size.toNat := by
  cases ty with
  | void => cases h
  | _ => exact Nat.zero_lt_succ _

theorem operands_congr (h : ∀ i, i < ty.size.toNat → m'.get (a + i) = m.get (a + i)) :
    m'.operands ty a = m.operands ty a := by
  have hread := Memory.read_congr h
  cases ty <;> simp_all [Memory.operands, Memory.word, Ty.size]

theorem operands_write (h : ty.Operands vs) (ha : a + ty.size.toNat ≤ UInt32.size) :
    (m.write a (ty.bytes vs)).operands ty a = ty.stored vs := by
  have hread : (m.write a (ty.bytes vs)).read a ty.size.toNat = ty.bytes vs := by
    rw [← length_bytes h] at ha ⊢
    exact Memory.read_write _ ha
  cases ty with
  | void =>
    cases h
    rfl
  | bool | char =>
    obtain ⟨n, rfl⟩ := h
    show [Value.int (Int32.ofNat (LittleEndian.decode (Memory.read _ a 1)))] = _
    rw [show Memory.read _ a 1 = LittleEndian.encode 1 _ from hread, LittleEndian.decode_encode]
    rfl
  | float =>
    obtain ⟨x, rfl⟩ := h
    have hlt : x.bits.toNat < Nat.pow 256 8 := x.bits.toNat_lt
    show [Value.float ⟨UInt64.ofNat (LittleEndian.decode (Memory.read _ a 8))⟩] = _
    rw [show Memory.read _ a 8 = LittleEndian.encode 8 _ from hread, LittleEndian.decode_encode,
      Nat.mod_eq_of_lt hlt, UInt64.ofNat_toNat]
    rfl
  | int | interval | struct =>
    obtain ⟨n, rfl⟩ := h
    show [Value.int (Memory.word (Memory.setWord m a n) a)] = _
    rw [Memory.word_setWord_self ha]
    rfl

end Ty

structure Open (heap : Heap) (size a width : Nat) : Prop where
  inside : a + width ≤ size
  small : size < 0x80000000
  unmanaged : heap.manages a = false

inductive Acts (W : Nat → Prop) (image : Image) (heap : Heap) :
    Code → List Value → Memory → List Value → Memory → Prop
  | nil (st : List Value) (m : Memory) : Acts W image heap [] st m st m
  | quiet {i : Instr} {c : Code} {st st₁ st' : List Value} {m m' : Memory}
      (hi : i.act image heap m st = some (st₁, m)) (hrest : Acts W image heap c st₁ m st' m') :
      Acts W image heap (i :: c) st m st' m'
  | load {ty : Ty} {i : Instr} {a : Nat} {c : Code} {st st' : List Value} {m m' : Memory}
      (hi : Instr.load? ty = some i) (ha : Open heap m.size a ty.size.toNat)
      (hrest : Acts W image heap c (m.operands ty a ++ st) m st' m') :
      Acts W image heap (i :: c) (.int (Int32.ofNat a) :: st) m st' m'
  | store {ty : Ty} {i : Instr} {a : Nat} {vs : List Value} {c : Code} {st st' : List Value}
      {m m' : Memory} (hi : Instr.store? ty = some i) (hvs : ty.Operands vs)
      (ha : Open heap m.size a ty.size.toNat) (hW : ∀ b, a ≤ b → b < a + ty.size.toNat → W b)
      (hrest : Acts W image heap c st (m.write a (ty.bytes vs)) st' m') :
      Acts W image heap (i :: c) (vs ++ .int (Int32.ofNat a) :: st) m st' m'

variable {W : Nat → Prop} {image : Image} {heap : Heap} {c c' : Code} {st st₁ st' : List Value}
  {m m₁ m' : Memory}

theorem Acts.append (h : Acts W image heap c st m st₁ m₁)
    (h' : Acts W image heap c' st₁ m₁ st' m') : Acts W image heap (c ++ c') st m st' m' := by
  induction h with
  | nil => exact h'
  | quiet hi _ ih => exact .quiet hi (ih h')
  | load hi ha _ ih => exact .load hi ha (ih h')
  | store hi hvs ha hW _ ih => exact .store hi hvs ha hW (ih h')

namespace Machine

def moved (m : Machine) (n : Nat) (stack : List Value) (memory : Memory) : Machine :=
  { m with pc := m.pc + n, steps := m.steps + n, stack, memory }

theorem check_of_open {m : Machine} {a w : Nat} (h : Open m.heap m.memory.size a w) :
    m.check (Int32.ofNat a).toInt w = .ok a := by
  have hinside := h.inside
  have hsmall := h.small
  rw [Word.toInt_ofNat (by omega), Machine.check, if_neg (by omega)]
  exact if_neg (by simp [h.unmanaged])

theorem Performs.one {W : Nat → Prop} {i : Instr} {m m' : Machine}
    (hi : m.image.code[m.pc]? = some i) (hrunning : m.halted = false)
    (hexecute : (execute m.pc i).run { m with steps := m.steps + 1, pc := m.pc + 1 } = .ok () m')
    (hwrites : ∀ a < 0x100000000, ¬ W a → m'.memory.get a = m.memory.get a) :
    Performs W [i] m m' := by
  refine .cons hi hrunning (fun limit hlimit => ?_) hwrites (.nil m')
  rw [step_run m hlimit, hi]
  exact hexecute

theorem loadBytes_run {m : Machine} {a w p : Nat} {n : Int32} {st : List Value}
    (hst : m.stack = .int n :: st) (ha : m.check n.toInt w = .ok a) :
    (loadBytes p w).run m = .ok (m.memory.read a w) { m with stack := st } := by
  have hread : ({ m with stack := st } : Machine).readBytes n.toInt w = .ok (m.memory.read a w) := by
    rw [readBytes, show ({ m with stack := st } : Machine).check n.toInt w = _ from ha]
    rfl
  simp only [loadBytes, EStateM.run_bind, popInt_run hst, EStateM.run_get, hread, EStateM.run_pure]

theorem storeBytes_run {m : Machine} {a p : Nat} {n : Int32} {bytes : List UInt8} {st : List Value}
    (hst : m.stack = .int n :: st) (ha : m.check n.toInt bytes.length = .ok a) :
    (storeBytes p bytes).run m
      = .ok () { m with stack := st, memory := m.memory.write a bytes } := by
  have hcheck : ({ m with stack := st } : Machine).check n.toInt bytes.length = .ok a := ha
  simp only [storeBytes, EStateM.run_bind, popInt_run hst, EStateM.run_get, hcheck,
    EStateM.run_modify]

theorem execute_load {ty : Ty} {i : Instr} {m : Machine} {a p : Nat} {n : Int32} {st : List Value}
    (hi : Instr.load? ty = some i) (hst : m.stack = .int n :: st)
    (ha : m.check n.toInt ty.size.toNat = .ok a) :
    (execute p i).run m = .ok () { m with stack := m.memory.operands ty a ++ st } := by
  cases ty with
  | void => cases hi
  | bool | char =>
    cases hi
    rw [execute, EStateM.run_bind, show (loadBytes p 1).run m = _ from loadBytes_run hst ha]
    rfl
  | int | interval | struct =>
    cases hi
    rw [execute, EStateM.run_bind, show (loadBytes p 4).run m = _ from loadBytes_run hst ha]
    rfl
  | float =>
    cases hi
    rw [execute, EStateM.run_bind, show (loadBytes p 8).run m = _ from loadBytes_run hst ha]
    rfl

theorem execute_store {ty : Ty} {i : Instr} {m : Machine} {a p : Nat} {n : Int32}
    {vs st : List Value} (hi : Instr.store? ty = some i) (hvs : ty.Operands vs)
    (hst : m.stack = vs ++ .int n :: st) (ha : m.check n.toInt ty.size.toNat = .ok a) :
    (execute p i).run m
      = .ok () { m with stack := st, memory := m.memory.write a (ty.bytes vs) } := by
  rw [← Ty.length_bytes hvs] at ha
  cases ty with
  | void => cases hi
  | float =>
    cases hi
    obtain ⟨x, rfl⟩ := hvs
    rw [execute, EStateM.run_bind, popFloat_run hst]
    exact storeBytes_run (m := { m with stack := .int n :: st }) rfl ha
  | _ =>
    cases hi
    obtain ⟨v, rfl⟩ := hvs
    rw [execute, EStateM.run_bind, popInt_run hst]
    exact storeBytes_run (m := { m with stack := .int n :: st }) rfl ha

theorem Before.left {m : Machine} {c c' : Code} (h : m.Before (c ++ c')) : m.Before c :=
  fun k i hk => h k i (by rw [List.getElem?_append_left (List.getElem?_eq_some_iff.1 hk).1, hk])

theorem Before.right {m m' : Machine} {c c' : Code} (h : m.Before (c ++ c'))
    (himage : m'.image = m.image) (hpc : m'.pc = m.pc + c.length) : m'.Before c' := by
  intro k i hk
  rw [himage, hpc, Nat.add_assoc]
  exact h _ i (by rw [List.getElem?_append_right (by omega), Nat.add_sub_cancel_left, hk])

theorem Before.tail {m : Machine} {i : Instr} {c : Code} (h : m.Before (i :: c)) (st : List Value)
    (memory : Memory) : (m.moved 1 st memory).Before c :=
  Before.right (c := [i]) h rfl rfl

theorem Performs.moved {W : Nat → Prop} {i : Instr} {c : Code} {m : Machine}
    {st st' : List Value} {memory memory' : Memory} (h : Performs W [i] m (m.moved 1 st memory))
    (h' : Performs W c (m.moved 1 st memory) ((m.moved 1 st memory).moved c.length st' memory')) :
    Performs W (i :: c) m (m.moved (i :: c).length st' memory') := by
  have hmoved : (m.moved 1 st memory).moved c.length st' memory'
      = m.moved (i :: c).length st' memory' := by
    simp only [Machine.moved, List.length_cons, Nat.add_assoc, Nat.add_comm 1]
  rw [← hmoved]
  exact h.append h'

end Machine

theorem Acts.performs (h : Acts W image heap c st m st' m') {k : Machine} (himage : k.image = image)
    (hheap : k.heap = heap) (hst : k.stack = st) (hm : k.memory = m) (hb : k.Before c)
    (hrunning : k.halted = false) : Machine.Performs W c k (k.moved c.length st' m') := by
  induction h generalizing k with
  | nil =>
    subst hst hm
    exact .nil k
  | @quiet i c st st₁ st' m m' hi hrest ih =>
    have hfirst : Machine.Performs W [i] k (k.moved 1 st₁ m) := by
      refine .one (hb 0 i rfl) hrunning ?_ fun _ _ _ => hm ▸ rfl
      subst himage hheap hst hm
      have hexecute := Instr.act_execute hi k.pc (k.pc + 1) k.output (k.steps + 1)
      rw [View.machine, View.machine, ← hrunning] at hexecute
      exact hexecute
    exact hfirst.moved (ih himage hheap rfl rfl (hb.tail _ _) hrunning)
  | @load ty i a c st st' m m' hi ha hrest ih =>
    have hfirst : Machine.Performs W [i] k (k.moved 1 (m.operands ty a ++ st) m) := by
      refine .one (hb 0 i rfl) hrunning ?_ fun _ _ _ => hm ▸ rfl
      subst himage hheap hm
      exact Machine.execute_load (m := { k with steps := k.steps + 1, pc := k.pc + 1 }) hi hst
        (Machine.check_of_open (m := { k with steps := k.steps + 1, pc := k.pc + 1 }) ha)
    exact hfirst.moved (ih himage hheap rfl rfl (hb.tail _ _) hrunning)
  | @store ty i a vs c st st' m m' hi hvs ha hW hrest ih =>
    have hfirst : Machine.Performs W [i] k (k.moved 1 st (m.write a (ty.bytes vs))) := by
      refine .one (hb 0 i rfl) hrunning ?_ fun b hlt hout => ?_
      · subst himage hheap hm
        exact Machine.execute_store (m := { k with steps := k.steps + 1, pc := k.pc + 1 }) hi hvs
          hst (Machine.check_of_open (m := { k with steps := k.steps + 1, pc := k.pc + 1 }) ha)
      · have hinside := ha.inside
        have hsmall := ha.small
        have hlength := Ty.length_bytes hvs
        -- all bytes that are stored are in `W`
        have hapart : b < a ∨ a + (ty.bytes vs).length ≤ b := by
          by_cases hle : a ≤ b
          · exact .inr (Nat.le_of_not_lt fun h => hout (hW b hle (by omega)))
          · exact .inl (by omega)
        rw [hm]
        exact Memory.get_write_of_outside _ (by simp only [UInt32.size]; omega) hlt hapart
    exact hfirst.moved (ih himage hheap rfl rfl (hb.tail _ _) hrunning)

end IntervalStack
