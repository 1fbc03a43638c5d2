import IntervalStack.Proofs.Allocator.History

/-! What the instructions of the machine have in common. An instruction looks at the stack, the labels
and what accesses show of the memory; it changes the stack, the program counter, the output, the halt
flag and bytes that an access was granted to; a call besides may send one request to the allocator.
This is said of two machines side by side: a relation that sees to the same looks and outlives the
same changes is kept by every instruction, also where it faults. An invariant of one machine is such
a relation of the machine to itself. -/

namespace IntervalStack

def Fault.isPlain : Fault → Bool
  | .stackUnderflow _ | .typeMismatch .. | .invalidAddress .. | .divideByZero _ | .badFormat _
  | .ranOffEnd => true
  | _ => false

def Instr.Misses (image : Image) (i : Instr) (l : String) : Prop :=
  i.target? = some l ∧ image.label? l = none ∧ (i = .call l → Image.isHostEntry l = false) ∨
    i = .pushD l ∧ image.dataLabel? l = none

namespace Machine

variable {α β : Type} {I : Machine → Prop} {R : Machine → Machine → Prop} {P : Fault → Prop}
  {m : Machine} {pc : Nat}

theorem get_bind_apply (m : Machine) (f : Machine → Exec α) : (MonadState.get >>= f) m = f m m := rfl

/-- Two actions have ended with the same result, or with the same fault out of `P`, and in states
that are related. -/
def Outcomes (R : Machine → Machine → Prop) (P : Fault → Prop) :
    EStateM.Result Fault Machine α → EStateM.Result Fault Machine α → Prop
  | .ok r m, .ok r' m' => r' = r ∧ R m m'
  | .error e m, .error e' m' => e' = e ∧ P e ∧ R m m'
  | _, _ => False

theorem Outcomes.mono {R' : Machine → Machine → Prop} (hR : ∀ m m', R m m' → R' m m')
    {r r' : EStateM.Result Fault Machine α} (h : Outcomes R P r r') : Outcomes R' P r r' := by
  cases r <;> cases r'
  · exact ⟨h.1, hR _ _ h.2⟩
  · exact h.elim
  · exact h.elim
  · exact ⟨h.1, h.2.1, hR _ _ h.2.2⟩

def Relates (R : Machine → Machine → Prop) (P : Fault → Prop) (a a' : Exec α) : Prop :=
  ∀ m m', R m m' → Outcomes R P (a m) (a' m')

namespace Relates

theorem pure (r : α) : Relates R P (pure r) (pure r) := fun _ _ h => ⟨rfl, h⟩

theorem throw {e : Fault} (he : P e) : Relates R P (throw e : Exec α) (throw e) :=
  fun _ _ h => ⟨rfl, he, h⟩

theorem modify {f g : Machine → Machine} (hfg : ∀ m m', R m m' → R (f m) (g m')) :
    Relates R P (modify f) (modify g) := fun m m' h => ⟨rfl, hfg m m' h⟩

theorem get_bind {f g : Machine → Exec β} (hfg : ∀ m m', R m m' → Relates R P (f m) (g m')) :
    Relates R P (get >>= f) (get >>= g) := fun m m' h => hfg m m' h m m' h

theorem bind {a a' : Exec α} {f f' : α → Exec β} (ha : Relates R P a a')
    (hf : ∀ r, Relates R P (f r) (f' r)) : Relates R P (a >>= f) (a' >>= f') := by
  intro m m' h
  have hfirst := ha m m' h
  simp only [Bind.bind, EStateM.bind]
  cases hr : a m with
  | ok r m₁ =>
    cases hr' : a' m' with
    | ok r' m₁' =>
      rw [hr, hr'] at hfirst
      obtain ⟨rfl, h₁⟩ := hfirst
      exact hf _ m₁ m₁' h₁
    | error e' m₁' =>
      rw [hr, hr'] at hfirst
      exact hfirst.elim
  | error e m₁ =>
    cases hr' : a' m' with
    | ok r' m₁' =>
      rw [hr, hr'] at hfirst
      exact hfirst.elim
    | error e' m₁' =>
      rw [hr, hr'] at hfirst
      exact hfirst

end Relates

theorem check_ok {address : Int} {width a : Nat} (h : m.check address width = .ok a) :
    address = a ∧ a + width ≤ m.memory.size := by
  unfold check at h
  split at h
  · cases h
  · next hin =>
    have ha : a = address.toNat := by
      simp only at h
      split at h
      · split at h
        · exact (Except.ok.inj h).symm
        · cases h
      · exact (Except.ok.inj h).symm
    omega

theorem check_error {address : Int} {width : Nat} {e : Fault}
    (h : m.check address width = .error e) :
    e = .invalidAddress address width ∨
      (0 ≤ address ∧ address + width ≤ m.memory.size) ∧
        ∃ e', m.heap.checkAccess address.toNat width = .error e' ∧ e = .heap e' := by
  unfold check at h
  split at h
  · exact .inl (Except.error.inj h).symm
  · next hin =>
    simp only at h
    split at h
    · split at h
      · cases h
      · next e' he' => exact .inr ⟨by omega, e', he', (Except.error.inj h).symm⟩
    · cases h

theorem readBytes_error {address : Int} {width : Nat} {e : Fault}
    (h : m.readBytes address width = .error e) : m.check address width = .error e := by
  simp only [readBytes, Bind.bind, Except.bind] at h
  split at h
  · next hcheck =>
    obtain rfl := Except.error.inj h
    exact hcheck
  · cases h

theorem readText_isPlain {address : UInt32} {e : Fault} (h : m.readText address = .error e) :
    e.isPlain = true := by
  simp only [readText] at h
  split at h
  · cases h
    rfl
  · split at h
    · cases h
    · cases h
      rfl

theorem renderArgument_isPlain {piece : Piece} {argument : Value} {e : Fault}
    (h : Format.renderArgument m.readText piece argument = .error e) : e.isPlain = true := by
  unfold Format.renderArgument at h
  split at h
  · cases h
  · cases h
  · cases h
  · exact readText_isPlain h
  · cases h
    rfl

theorem render_isPlain {pieces : List Piece} {arguments : List Value} {e : Fault}
    (h : Format.render m.readText pieces arguments = .error e) : e.isPlain = true := by
  fun_induction Format.render m.readText pieces arguments with
  | case1 => cases h
  | case2 s pieces arguments ih =>
    simp only [Bind.bind, Except.bind] at h
    split at h
    · next he =>
      cases h
      exact ih he
    · cases h
  | case3 piece pieces argument arguments hpiece ih =>
    simp only [Bind.bind, Except.bind] at h
    split at h
    · next he =>
      cases h
      exact renderArgument_isPlain he
    · split at h
      · next he =>
        cases h
        exact ih he
      · cases h
  | case4 =>
    cases h
    rfl

/-- Machines that are related look the same to an instruction, and what it does to them, calls of the
allocator apart, keeps them related. Its faults are in `P`. -/
structure Simulation (R : Machine → Machine → Prop) (P : Fault → Prop) : Prop where
  stack_eq : ∀ {m m'}, R m m' → m'.stack = m.stack
  image_eq : ∀ {m m'}, R m m' → m'.image = m.image
  size_eq : ∀ {m m'}, R m m' → m'.memory.size = m.memory.size
  check_eq : ∀ {m m'}, R m m' → m'.check = m.check
  readBytes_eq : ∀ {m m'}, R m m' → m'.readBytes = m.readBytes
  readText_eq : ∀ {m m'}, R m m' → m'.readText = m.readText
  stack : ∀ {m m'}, R m m' → ∀ stack, R { m with stack } { m' with stack }
  pc : ∀ {m m'}, R m m' → ∀ pc, R { m with pc } { m' with pc }
  output : ∀ {m m'}, R m m' → ∀ text,
    R { m with output := m.output ++ text } { m' with output := m'.output ++ text }
  halt : ∀ {m m'}, R m m' → R { m with halted := true } { m' with halted := true }
  write : ∀ {m m' a bytes}, R m m' → a + bytes.length ≤ m.memory.size →
    R { m with memory := m.memory.write a bytes } { m' with memory := m'.memory.write a bytes }
  access : ∀ {m m' address width e}, R m m' → m.check address width = .error e → P e
  plain : ∀ {e}, e.isPlain = true → P e

namespace Simulation

variable (h : Simulation R P)
include h

theorem push (v : Value) : Relates R P (push v) (push v) := by
  refine .modify fun m m' hm => ?_
  rw [h.stack_eq hm]
  exact h.stack hm _

theorem pop : Relates R P (pop pc) (pop pc) := by
  refine .get_bind fun m m' hm => ?_
  rw [h.stack_eq hm]
  split
  · exact .throw (h.plain rfl)
  · exact .bind (.modify fun _ _ hm => h.stack hm _) fun _ => .pure _

theorem popInt : Relates R P (popInt pc) (popInt pc) := by
  refine .bind h.pop fun v => ?_
  cases v with
  | int n => exact .pure n
  | float x => exact .throw (h.plain rfl)

theorem popFloat : Relates R P (popFloat pc) (popFloat pc) := by
  refine .bind h.pop fun v => ?_
  cases v with
  | int n => exact .throw (h.plain rfl)
  | float x => exact .pure x

theorem loadBytes (width : Nat) : Relates R P (loadBytes pc width) (loadBytes pc width) := by
  refine .bind h.popInt fun address => .get_bind fun m m' hm => ?_
  rw [h.readBytes_eq hm]
  split
  · exact .pure _
  · next he => exact .throw (h.access hm (readBytes_error he))

theorem storeBytes (bytes : List UInt8) :
    Relates R P (storeBytes pc bytes) (storeBytes pc bytes) := by
  -- The bytes go to the memory that the check was made of, so both are taken in one state.
  refine .bind h.popInt fun address m m' hm => ?_
  rw [get_bind_apply, get_bind_apply, h.check_eq hm]
  cases hcheck : m.check address.toInt bytes.length with
  | ok a => exact ⟨rfl, h.write hm (check_ok hcheck).2⟩
  | error e => exact ⟨rfl, h.access hm hcheck, hm⟩

theorem intBinary (op : Int32 → Int32 → Int32) :
    Relates R P (intBinary pc op) (intBinary pc op) :=
  .bind h.popInt fun _ => .bind h.popInt fun _ => h.push _

theorem floatBinary (op : Double → Double → Double) :
    Relates R P (floatBinary pc op) (floatBinary pc op) :=
  .bind h.popFloat fun _ => .bind h.popFloat fun _ => h.push _

theorem jump {m m' : Machine} (hm : R m m') {l : String}
    (hl : m.image.label? l = none → P (.unknownLabel l)) :
    Outcomes R P (jump l m) (jump l m') := by
  unfold Machine.jump
  rw [get_bind_apply, get_bind_apply, h.image_eq hm]
  cases hlabel : m.image.label? l with
  | some target => exact ⟨rfl, h.pc hm target⟩
  | none => exact ⟨rfl, hl hlabel, hm⟩

theorem jumpIf {l : String} (hl : ∀ m m', R m m' → m.image.label? l = none → P (.unknownLabel l))
    (condition : Bool) : Relates R P (jumpIf condition l) (jumpIf condition l) := by
  unfold Machine.jumpIf
  split
  · exact fun m m' hm => h.jump hm (hl m m' hm)
  · exact .pure _

theorem printf : Relates R P (printf pc) (printf pc) := by
  refine .bind h.popInt fun address => .get_bind fun m m' hm => ?_
  rw [h.readText_eq hm]
  split
  · next he => exact .throw (h.plain (readText_isPlain he))
  · split
    · exact .throw (h.plain rfl)
    · refine .get_bind fun m m' hm => ?_
      dsimp only
      rw [h.stack_eq hm]
      split
      · exact .throw (h.plain rfl)
      · refine .bind (.modify fun _ _ hm => h.stack hm _) fun _ => .get_bind fun m m' hm => ?_
        rw [h.readText_eq hm]
        split
        · exact .modify fun _ _ hm => h.output hm _
        · next he => exact .throw (h.plain (render_isPlain he))

theorem execute {i : Instr} (hi : ∀ l, i ≠ .call l)
    (hmisses : ∀ m m' l, R m m' → i.Misses m.image l → P (.unknownLabel l)) :
    Relates R P (execute pc i) (execute pc i) := by
  have hjump {l : String} (hl : i.target? = some l) :
      ∀ m m', R m m' → m.image.label? l = none → P (.unknownLabel l) := fun m m' hm hnone =>
    hmisses m m' l hm (.inl ⟨hl, hnone, fun heq => absurd heq (hi l)⟩)
  cases i with
  | pushI n | pushF x => exact h.push _
  | pushD l =>
    refine .get_bind fun m m' hm => ?_
    rw [h.image_eq hm]
    split
    · exact h.push _
    · next hnone => exact .throw (hmisses m m' l hm (.inr ⟨rfl, hnone⟩))
  | duplicate => exact .bind h.pop fun _ => .bind (h.push _) fun _ => h.push _
  | exchange =>
    exact .bind h.pop fun _ => .bind h.pop fun _ => .bind (h.push _) fun _ => h.push _
  | pop => exact .bind h.pop fun _ => .pure _
  | loadC | loadI | loadF => exact .bind (h.loadBytes _) fun _ => h.push _
  | storeC | storeI => exact .bind h.popInt fun _ => h.storeBytes _
  | storeF => exact .bind h.popFloat fun _ => h.storeBytes _
  | add | subtract | multiply | btAnd | btOr => exact h.intBinary _
  | divide =>
    refine .bind h.popInt fun b => .bind h.popInt fun a => ?_
    split
    · exact .throw (h.plain rfl)
    · exact h.push _
  | negate | bNegate | convertF => exact .bind h.popInt fun _ => h.push _
  | fAdd | fSubtract | fMultiply | fDivide => exact h.floatBinary _
  | fNegate | convertI => exact .bind h.popFloat fun _ => h.push _
  | jump l => exact fun m m' hm => h.jump hm (hjump rfl m m' hm)
  | jumpTrue l | jumpFalse l | jumpPos l | jumpNeg l =>
    exact .bind h.popInt fun _ => h.jumpIf (hjump rfl) _
  | jumpFZero l | jumpFPos l | jumpFNeg l =>
    exact .bind h.popFloat fun _ => h.jumpIf (hjump rfl) _
  | call l => exact absurd rfl (hi l)
  | ret =>
    refine .bind h.popInt fun target => ?_
    split
    · exact .throw (h.plain rfl)
    · exact .modify fun _ _ hm => h.pc hm _
  | halt => exact .modify fun _ _ hm => h.halt hm
  | printf => exact h.printf
  | memtop =>
    refine .get_bind fun m m' hm => ?_
    rw [h.size_eq hm]
    exact h.push _
  | nop | label | dLabel | dataZ | dataI | dataF | dataC | dataS => exact .pure _

end Simulation

structure HeapSimulation (R : Machine → Machine → Prop) (P : Fault → Prop) : Prop
    extends Simulation R P where
  heap_eq : ∀ {m m'}, R m m' → m'.heap = m.heap
  answered : ∀ {m m' call heap}, R m m' → HeapCall.IsSmall call → m.heap.answer call = .ok heap →
    R { m with heap } { m' with heap }
  refused : ∀ {m m' call e}, R m m' → HeapCall.IsSmall call → m.heap.answer call = .error e →
    P (.heap e)

namespace HeapSimulation

variable (h : HeapSimulation R P)
include h

theorem allocate : Relates R P (allocate pc) (allocate pc) := by
  refine .bind h.popInt fun size m m' hm => ?_
  have hsmall : HeapCall.IsSmall (.allocate size.toInt.toNat) := by
    have := size.toInt_lt
    simp only [HeapCall.IsSmall]
    omega
  rw [get_bind_apply, get_bind_apply, h.heap_eq hm]
  cases ha : m.heap.allocate size.toInt.toNat with
  | ok r =>
    have hanswered := h.answered hm hsmall (show m.heap.answer _ = .ok r.2 by rw [Heap.answer, ha]; rfl)
    exact h.push _ _ _ hanswered
  | error e => exact ⟨rfl, h.refused hm hsmall (by rw [Heap.answer, ha]; rfl), hm⟩

theorem deallocate : Relates R P (deallocate pc) (deallocate pc) := by
  refine .bind h.popInt fun address m m' hm => ?_
  have hsmall : HeapCall.IsSmall (.deallocate address.toUInt32.toNat) := trivial
  rw [get_bind_apply, get_bind_apply, h.heap_eq hm]
  cases hd : m.heap.deallocate address.toUInt32.toNat with
  | ok heap => exact ⟨rfl, h.answered hm hsmall hd⟩
  | error e => exact ⟨rfl, h.refused hm hsmall hd, hm⟩

theorem call {l : String} (hl : ∀ m m', R m m' → m.image.label? l = none →
    Image.isHostEntry l = false → P (.unknownLabel l)) : Relates R P (call pc l) (call pc l) := by
  intro m m' hm
  unfold Machine.call
  rw [get_bind_apply, get_bind_apply, h.image_eq hm]
  split
  · split
    · exact h.allocate m m' hm
    · exact h.deallocate m m' hm
  · next hhost =>
    have hpushed := h.stack hm (.int (Int32.ofNat (pc + 1)) :: m.stack)
    show Outcomes R P (Machine.jump l { m with stack := .int (Int32.ofNat (pc + 1)) :: m.stack })
      (Machine.jump l { m' with stack := .int (Int32.ofNat (pc + 1)) :: m'.stack })
    rw [h.stack_eq hm]
    refine h.jump hpushed fun hnone => hl m m' hm hnone ?_
    simpa [Image.callsHost, show m.image.label? l = none from hnone] using hhost

theorem execute {i : Instr}
    (hmisses : ∀ m m' l, R m m' → i.Misses m.image l → P (.unknownLabel l)) :
    Relates R P (execute pc i) (execute pc i) := by
  by_cases hcall : ∃ l, i = .call l
  · obtain ⟨l, rfl⟩ := hcall
    exact h.call fun m m' hm hnone hhost => hmisses m m' l hm (.inl ⟨rfl, hnone, fun _ => hhost⟩)
  · exact h.toSimulation.execute (fun l hl => hcall ⟨l, hl⟩) hmisses

end HeapSimulation

/-! One machine. -/

def Outcome (I : Machine → Prop) (P : Fault → Prop) : EStateM.Result Fault Machine α → Prop
  | .ok _ m => I m
  | .error e m => P e ∧ I m

theorem Outcome.of_outcomes {r : EStateM.Result Fault Machine α}
    (h : Outcomes (fun m m' => m' = m ∧ I m) P r r) : Outcome I P r := by
  cases r with
  | ok r m => exact h.2.2
  | error e m => exact ⟨h.2.1, h.2.2.2⟩

structure Invariant (I : Machine → Prop) (P : Fault → Prop) : Prop where
  stack : ∀ {m}, I m → ∀ stack, I { m with stack }
  pc : ∀ {m}, I m → ∀ pc, I { m with pc }
  output : ∀ {m}, I m → ∀ output, I { m with output }
  halt : ∀ {m}, I m → I { m with halted := true }
  write : ∀ {m a bytes}, I m → a + bytes.length ≤ m.memory.size →
    I { m with memory := m.memory.write a bytes }
  access : ∀ {m address width e}, I m → m.check address width = .error e → P e
  plain : ∀ {e}, e.isPlain = true → P e

theorem Invariant.simulation (h : Invariant I P) : Simulation (fun m m' => m' = m ∧ I m) P where
  stack_eq := fun hm => by rw [hm.1]
  image_eq := fun hm => by rw [hm.1]
  size_eq := fun hm => by rw [hm.1]
  check_eq := fun hm => by rw [hm.1]
  readBytes_eq := fun hm => by rw [hm.1]
  readText_eq := fun hm => by rw [hm.1]
  stack := fun hm _ => ⟨by rw [hm.1], h.stack hm.2 _⟩
  pc := fun hm _ => ⟨by rw [hm.1], h.pc hm.2 _⟩
  output := fun hm _ => ⟨by rw [hm.1], h.output hm.2 _⟩
  halt := fun hm => ⟨by rw [hm.1], h.halt hm.2⟩
  write := fun hm hin => ⟨by rw [hm.1], h.write hm.2 hin⟩
  access := fun hm => h.access hm.2
  plain := h.plain

theorem Invariant.execute (h : Invariant I P) (pc : Nat) {i : Instr} (hi : ∀ l, i ≠ .call l)
    (hmisses : ∀ m l, I m → i.Misses m.image l → P (.unknownLabel l)) (hm : I m) :
    Outcome I P (execute pc i m) :=
  .of_outcomes (h.simulation.execute hi (fun m _ l hm => hmisses m l hm.2) m m ⟨rfl, hm⟩)

structure HeapInvariant (I : Machine → Prop) (P : Fault → Prop) : Prop extends Invariant I P where
  answered : ∀ {m call heap}, I m → HeapCall.IsSmall call → m.heap.answer call = .ok heap →
    I { m with heap }
  refused : ∀ {m call e}, I m → HeapCall.IsSmall call → m.heap.answer call = .error e →
    P (.heap e)

theorem HeapInvariant.execute (h : HeapInvariant I P) (pc : Nat) {i : Instr}
    (hmisses : ∀ m l, I m → i.Misses m.image l → P (.unknownLabel l)) (hm : I m) :
    Outcome I P (execute pc i m) := by
  have hsim : HeapSimulation (fun m m' => m' = m ∧ I m) P := {
    h.toInvariant.simulation with
    heap_eq := fun hm => by rw [hm.1]
    answered := fun hm hsmall hanswer => ⟨by rw [hm.1], h.answered hm.2 hsmall hanswer⟩
    refused := fun hm => h.refused hm.2 }
  exact .of_outcomes (hsim.execute (fun m _ l hm => hmisses m l hm.2) m m ⟨rfl, hm⟩)

theorem execute_asks (m : Machine) (pc : Nat) (i : Instr) :
    Asks m.heap ((execute pc i).run m) := by
  by_cases hcall : ∃ l, i = .call l
  · obtain ⟨l, rfl⟩ := hcall
    exact call_asks m pc l
  · have hheap : Invariant (fun m' => m'.heap = m.heap) fun _ => True := {
      stack := fun hm _ => hm
      pc := fun hm _ => hm
      output := fun hm _ => hm
      halt := fun hm => hm
      write := fun hm _ => hm
      access := fun _ _ => trivial
      plain := fun _ => trivial }
    have h := hheap.execute pc (fun l hl => hcall ⟨l, hl⟩) (fun _ _ _ _ => trivial) rfl
    show Asks m.heap (execute pc i m)
    cases hr : execute pc i m with
    | ok _ m' =>
      rw [hr] at h
      exact .inl h
    | error e m' =>
      rw [hr] at h
      exact h.2

end Machine
end IntervalStack
