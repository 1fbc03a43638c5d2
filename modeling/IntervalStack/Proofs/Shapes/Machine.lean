import IntervalStack.Machine.Basic
import IntervalStack.Proofs.Actions
import IntervalStack.Proofs.Shapes.Basic

/-! Shapes and the machine: an instruction that finds the shape it asks for ends without a fault of
the operand stack, and leaves the shape that its effect says. -/

namespace IntervalStack

def Value.tag : Value → Tag
  | .int _ => .int
  | .float _ => .float

def Fault.isStackFault : Fault → Bool
  | .stackUnderflow _ | .typeMismatch .. => true
  | _ => false

namespace Machine

/-- The action faults for no lack of operands, and `Q` holds if it does not fault. -/
def Ends {α : Type} (a : Exec α) (m : Machine) (Q : α → Machine → Prop) : Prop :=
  match a m with
  | .ok r m' => Q r m'
  | .error e _ => e.isStackFault = false

section
variable {α β : Type} {m : Machine}

theorem Ends.mono {a : Exec α} {Q R : α → Machine → Prop} (h : Ends a m Q)
    (hQR : ∀ r m', Q r m' → R r m') : Ends a m R := by
  unfold Ends at h ⊢
  split at h
  · exact hQR _ _ h
  · exact h

@[simp] theorem ends_bind {a : Exec α} {f : α → Exec β} {Q : β → Machine → Prop} :
    Ends (a >>= f) m Q ↔ Ends a m fun r m' => Ends (f r) m' Q := by
  simp only [Ends, bind, EStateM.bind]
  cases a m <;> rfl

@[simp] theorem ends_map {a : Exec α} {f : α → β} {Q : β → Machine → Prop} :
    Ends (f <$> a) m Q ↔ Ends a m fun r m' => Q (f r) m' := by
  simp only [Ends, Functor.map, EStateM.map]
  cases a m <;> rfl

@[simp] theorem ends_pure {r : α} {Q : α → Machine → Prop} : Ends (pure r) m Q ↔ Q r m := Iff.rfl

@[simp] theorem ends_get {Q : Machine → Machine → Prop} : Ends get m Q ↔ Q m m := Iff.rfl

@[simp] theorem ends_modify {f : Machine → Machine} {Q : Unit → Machine → Prop} :
    Ends (modify f) m Q ↔ Q () (f m) := Iff.rfl

@[simp] theorem ends_throw {e : Fault} {Q : α → Machine → Prop} :
    Ends (throw e : Exec α) m Q ↔ e.isStackFault = false := Iff.rfl

@[simp] theorem ends_push {v : Value} {Q : Unit → Machine → Prop} :
    Ends (push v) m Q ↔ Q () { m with stack := v :: m.stack } := Iff.rfl

end

section
variable {image : Image} {memory : Memory} {heap : Heap} {vs : List Value} {pc p : Nat}
  {output : String} {steps : Nat} {halted : Bool}

@[simp] theorem ends_pop {v : Value} {Q : Value → Machine → Prop} :
    Ends (pop p) ⟨image, memory, heap, v :: vs, pc, output, steps, halted⟩ Q ↔
      Q v ⟨image, memory, heap, vs, pc, output, steps, halted⟩ := Iff.rfl

@[simp] theorem ends_popInt {n : Int32} {Q : Int32 → Machine → Prop} :
    Ends (popInt p) ⟨image, memory, heap, .int n :: vs, pc, output, steps, halted⟩ Q ↔
      Q n ⟨image, memory, heap, vs, pc, output, steps, halted⟩ := Iff.rfl

@[simp] theorem ends_popFloat {x : Double} {Q : Double → Machine → Prop} :
    Ends (popFloat p) ⟨image, memory, heap, .float x :: vs, pc, output, steps, halted⟩ Q ↔
      Q x ⟨image, memory, heap, vs, pc, output, steps, halted⟩ := Iff.rfl

end

section
variable {m : Machine} {pc : Nat}

theorem check_fault {address : Int} {width : Nat} {e : Fault}
    (h : m.check address width = .error e) : e.isStackFault = false := by
  rcases check_error h with rfl | ⟨-, _, -, rfl⟩
  · rfl
  · rfl

theorem ends_loadBytes {image : Image} {memory : Memory} {heap : Heap} {vs : List Value} {n : Int32}
    {p width : Nat} {output : String} {steps : Nat} {halted : Bool}
    {Q : List UInt8 → Machine → Prop}
    (h : ∀ bytes, Q bytes ⟨image, memory, heap, vs, p, output, steps, halted⟩) :
    Ends (loadBytes pc width) ⟨image, memory, heap, .int n :: vs, p, output, steps, halted⟩ Q := by
  simp only [loadBytes, ends_bind, ends_popInt, ends_get]
  split
  · exact h _
  · next e he =>
    simp only [readBytes, bind, Except.bind] at he
    split at he
    · next he' =>
      cases he
      exact check_fault he'
    · cases he

theorem ends_storeBytes {image : Image} {memory : Memory} {heap : Heap} {vs : List Value}
    {n : Int32} {p : Nat} {bytes : List UInt8} {output : String} {steps : Nat} {halted : Bool}
    {Q : Unit → Machine → Prop}
    (h : ∀ memory, Q () ⟨image, memory, heap, vs, p, output, steps, halted⟩) :
    Ends (storeBytes pc bytes) ⟨image, memory, heap, .int n :: vs, p, output, steps, halted⟩ Q := by
  simp only [storeBytes, ends_bind, ends_popInt, ends_get]
  split
  · exact h _
  · next e he => exact check_fault he

theorem ends_jump {l : String} {Q : Unit → Machine → Prop} (h : ∀ p, Q () { m with pc := p }) :
    Ends (jump l) m Q := by
  simp only [jump, ends_bind, ends_get]
  split
  · exact h _
  · rfl

theorem ends_jumpIf {c : Bool} {l : String} {Q : Unit → Machine → Prop}
    (h : ∀ p, Q () { m with pc := p }) : Ends (jumpIf c l) m Q := by
  unfold jumpIf
  split
  · exact ends_jump h
  · exact h m.pc

end

end Machine

namespace Shapes
open Machine Generator

theorem exchangeTop_some {xs ys st st' : List Tag} (h : exchangeTop xs ys st = some st') :
    ∃ rest, st = xs ++ rest ∧ st' = ys ++ rest := by
  unfold exchangeTop at h
  split at h
  · next hpre =>
    obtain ⟨rest, rfl⟩ := List.isPrefixOf_iff_prefix.1 hpre
    rw [List.drop_left] at h
    exact ⟨rest, rfl, (Option.some.inj h).symm⟩
  · cases h

theorem map_tag_int {vs : List Value} {ts : List Tag} (h : vs.map Value.tag = .int :: ts) :
    ∃ n vs', vs = .int n :: vs' ∧ vs'.map Value.tag = ts := by
  cases vs with
  | nil => cases h
  | cons v vs =>
    cases v with
    | int n => exact ⟨n, vs, rfl, (List.cons.inj h).2⟩
    | float x => cases (List.cons.inj h).1

theorem map_tag_float {vs : List Value} {ts : List Tag} (h : vs.map Value.tag = .float :: ts) :
    ∃ x vs', vs = .float x :: vs' ∧ vs'.map Value.tag = ts := by
  cases vs with
  | nil => cases h
  | cons v vs =>
    cases v with
    | int n => cases (List.cons.inj h).1
    | float x => exact ⟨x, vs, rfl, (List.cons.inj h).2⟩

theorem execute_exchanges {i : Instr} {rest : List Tag} {m : Machine} {pc : Nat}
    (hi : i.isLocal = true ∨ i.jumpTarget?.isSome = true)
    (hn : i ∉ [.duplicate, .exchange, .pop, .printf])
    (hm : m.stack.map Value.tag = i.pops ++ rest) :
    Ends (execute pc i) m fun _ m' => m'.stack.map Value.tag = i.pushes ++ rest := by
  obtain ⟨image, memory, heap, stack, p, output, steps, halted⟩ := m
  cases i
  case label | call | ret | halt => rcases hi with hi | hi <;> cases hi
  case duplicate | exchange | pop | printf => simp at hn
  case pushD l =>
    simp only [execute, ends_bind, ends_get]
    split
    · exact congrArg (Tag.int :: ·) hm
    · rfl
  case pushI | memtop => exact congrArg (Tag.int :: ·) hm
  case pushF => exact congrArg (Tag.float :: ·) hm
  case nop | dLabel | dataZ | dataI | dataF | dataC | dataS => exact hm
  case jump => exact ends_jump fun _ => hm
  case loadC | loadI =>
    obtain ⟨n, vs, rfl, hvs⟩ := map_tag_int hm
    simp only [execute, ends_bind, ends_push]
    exact ends_loadBytes fun _ => congrArg (Tag.int :: ·) hvs
  case loadF =>
    obtain ⟨n, vs, rfl, hvs⟩ := map_tag_int hm
    simp only [execute, ends_bind, ends_push]
    exact ends_loadBytes fun _ => congrArg (Tag.float :: ·) hvs
  case negate | bNegate =>
    obtain ⟨n, vs, rfl, hvs⟩ := map_tag_int hm
    exact congrArg (Tag.int :: ·) hvs
  case convertF =>
    obtain ⟨n, vs, rfl, hvs⟩ := map_tag_int hm
    exact congrArg (Tag.float :: ·) hvs
  case jumpTrue | jumpFalse | jumpPos | jumpNeg =>
    obtain ⟨n, vs, rfl, hvs⟩ := map_tag_int hm
    simp only [execute, ends_bind, ends_popInt]
    exact ends_jumpIf fun _ => hvs
  case storeC | storeI =>
    obtain ⟨n, _, rfl, hrest⟩ := map_tag_int hm
    obtain ⟨a, vs, rfl, hvs⟩ := map_tag_int hrest
    simp only [execute, ends_bind, ends_popInt]
    exact ends_storeBytes fun _ => hvs
  case add | subtract | multiply | btAnd | btOr =>
    obtain ⟨n, _, rfl, hrest⟩ := map_tag_int hm
    obtain ⟨a, vs, rfl, hvs⟩ := map_tag_int hrest
    exact congrArg (Tag.int :: ·) hvs
  case divide =>
    obtain ⟨n, _, rfl, hrest⟩ := map_tag_int hm
    obtain ⟨a, vs, rfl, hvs⟩ := map_tag_int hrest
    simp only [execute, ends_bind, ends_popInt]
    split
    · rfl
    · exact congrArg (Tag.int :: ·) hvs
  case storeF =>
    obtain ⟨x, _, rfl, hrest⟩ := map_tag_float hm
    obtain ⟨a, vs, rfl, hvs⟩ := map_tag_int hrest
    simp only [execute, ends_bind, ends_popFloat]
    exact ends_storeBytes fun _ => hvs
  case fNegate =>
    obtain ⟨x, vs, rfl, hvs⟩ := map_tag_float hm
    exact congrArg (Tag.float :: ·) hvs
  case convertI =>
    obtain ⟨x, vs, rfl, hvs⟩ := map_tag_float hm
    exact congrArg (Tag.int :: ·) hvs
  case jumpFZero | jumpFPos | jumpFNeg =>
    obtain ⟨x, vs, rfl, hvs⟩ := map_tag_float hm
    simp only [execute, ends_bind, ends_popFloat]
    exact ends_jumpIf fun _ => hvs
  case fAdd | fSubtract | fMultiply | fDivide =>
    obtain ⟨x, _, rfl, hrest⟩ := map_tag_float hm
    obtain ⟨y, vs, rfl, hvs⟩ := map_tag_float hrest
    exact congrArg (Tag.float :: ·) hvs

/-- A call ends with the return address on top of what the callee takes, or, where the machine
itself answers it, with what its effect says. -/
theorem execute_call {l : String} {rest : List Tag} {m : Machine} {pc : Nat}
    (hm : m.stack.map Value.tag = calleeTakes l ++ rest) :
    Ends (execute pc (.call l)) m fun _ m' => m'.stack.map Value.tag =
      if m.image.callsHost l then calleeLeaves l ++ rest else .int :: (calleeTakes l ++ rest) := by
  obtain ⟨image, memory, heap, stack, p, output, steps, halted⟩ := m
  simp only [execute, call, ends_bind, ends_get]
  split
  · next hhost =>
    have hentry : l = Environment.allocateEntry ∨ l = Environment.deallocateEntry := by
      simp only [Image.callsHost, Image.isHostEntry, Bool.and_eq_true, Bool.or_eq_true,
        beq_iff_eq] at hhost
      exact hhost.1
    rcases hentry with rfl | rfl
    · obtain ⟨n, vs, rfl, hvs⟩ := map_tag_int hm
      simp only [beq_self_eq_true, if_true, allocate, ends_bind, ends_popInt, ends_get]
      split
      · exact congrArg (Tag.int :: ·) hvs
      · rfl
    · obtain ⟨n, vs, rfl, hvs⟩ := map_tag_int hm
      have hne : (Environment.deallocateEntry == Environment.allocateEntry) = false := by decide
      simp only [hne, Bool.false_eq_true, if_false, deallocate, ends_bind, ends_popInt, ends_get]
      split
      · exact hvs
      · rfl
  · simp only [ends_push, ends_bind]
    exact ends_jump fun _ => congrArg (Tag.int :: ·) hm

/-- The stack behind an instruction at which a machine finds the shape `st`, if the effect of the
instruction on the shape is `st'`. -/
def shapeBehind (m : Machine) (i : Instr) (st st' : List Tag) : List Tag :=
  match i with
  | .call l => if m.image.callsHost l then st' else .int :: st
  | _ => st'

/-- A machine whose stack has the shape that an instruction asks for executes it without a fault of
the stack. The text of a format is not looked at, as the machine finds it in memory. -/
theorem execute_ends {pre : Code} {i : Instr} {st st' base : List Tag} {m : Machine} {pc : Nat}
    (he : effect pre i st = some st') (hp : i ≠ .printf)
    (hm : m.stack.map Value.tag = st ++ base) :
    Ends (execute pc i) m fun _ m' =>
      m'.stack.map Value.tag = shapeBehind m i st st' ++ base := by
  have hfixed : (i.isLocal = true ∨ i.jumpTarget?.isSome = true) →
      i ∉ [.duplicate, .exchange, .pop, .printf] → exchangeTop i.pops i.pushes st = some st' →
        Ends (execute pc i) m fun _ m' => m'.stack.map Value.tag = st' ++ base := by
    intro hi hn he
    obtain ⟨rest, rfl, rfl⟩ := exchangeTop_some he
    simp only [List.append_assoc] at hm ⊢
    exact execute_exchanges hi hn hm
  obtain ⟨image, memory, heap, stack, p, output, steps, halted⟩ := m
  cases i
  case printf => exact absurd rfl hp
  case call l =>
    obtain ⟨rest, rfl, rfl⟩ := exchangeTop_some he
    rw [List.append_assoc] at hm
    have h : Ends (execute pc (.call l)) _ _ := execute_call hm
    simp only [shapeBehind, apply_ite (· ++ base), List.append_assoc, List.cons_append]
    exact h
  case label | halt =>
    obtain rfl := Option.some.inj he
    exact hm
  case ret =>
    rw [effect] at he
    obtain ⟨rfl, hst⟩ := Option.ite_none_right_eq_some.1 he
    obtain ⟨n, vs, rfl, hvs⟩ := map_tag_int hm
    obtain rfl := Option.some.inj hst
    simp only [execute, ends_bind, ends_popInt]
    split
    · rfl
    · exact hvs
  case duplicate =>
    cases st with
    | nil => cases he
    | cons t st =>
      obtain rfl := Option.some.inj he
      cases stack with
      | nil => cases hm
      | cons v vs =>
        obtain ⟨hv, hvs⟩ := List.cons.inj hm
        exact congr (congrArg _ hv) (congr (congrArg _ hv) hvs)
  case exchange =>
    rcases st with _ | ⟨t, _ | ⟨u, st⟩⟩
    case cons.cons =>
      obtain rfl := Option.some.inj he
      rcases stack with _ | ⟨v, _ | ⟨w, vs⟩⟩
      case cons.cons =>
        obtain ⟨hv, hrest⟩ := List.cons.inj hm
        obtain ⟨hw, hvs⟩ := List.cons.inj hrest
        exact congr (congrArg _ hw) (congr (congrArg _ hv) hvs)
      all_goals cases hm
    all_goals cases he
  case pop =>
    cases st with
    | nil => cases he
    | cons t st =>
      obtain rfl := Option.some.inj he
      cases stack with
      | nil => cases hm
      | cons v vs => exact (List.cons.inj hm).2
  all_goals exact hfixed (by simp [Instr.isLocal, Instr.jumpTarget?]) (by simp) he

end Shapes
end IntervalStack
