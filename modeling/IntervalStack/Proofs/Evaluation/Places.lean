import IntervalStack.Proofs.Evaluation.Operators

/-! The addresses of places. A variable is found from the block of globals, from the frame pointer or
from the record at work, and a part of a record from the place that the record is stored in. -/

namespace IntervalStack

namespace Machine

variable {m : Machine} {slot : Option Int32} {l : String} {a : Int32} {c : Code}

theorem produces_data (h : m.hasData l) : m.Produces [.pushD l] [] (some (.int (m.dataAddress l))) := by
  obtain ⟨a, ha⟩ := Option.isSome_iff_exists.1 h
  refine .act rfl fun stack => ?_
  rw [Code.act, dataAddress, ha]
  simp only [List.nil_append, Instr.act_pushD ha]
  rfl

theorem produces_word (h : m.readable a 4) : m.Produces [.loadI] [.int a] (some (.int (m.wordAt a))) :=
  .load (show Instr.load? .int = some .loadI from rfl) h

theorem produces_offset (a o : Int32) : m.Produces [.pushI o, .add] [.int a] (some (.int (a + o))) :=
  .act rfl fun _ => rfl

theorem produces_frame (h : m.frameReadable) :
    m.Produces Generator.cells.loadFrame [] (some (.int m.framePointer)) :=
  (produces_data (Bool.and_eq_true_iff.1 h).1).followed (produces_word (Bool.and_eq_true_iff.1 h).2)

theorem Produces.displaced (h : m.Produces c [] (some (.int a))) (o : Int32) :
    m.Produces (Frame.displaced c o) [] (some (.int (a + o))) := by
  unfold Frame.displaced
  split
  · next ho => rwa [ho, Int32.add_zero]
  · exact h.followed (produces_offset a o)

theorem produces_storage {storage : Storage}
    (hc : Frame.storageAddress? Generator.cells storage slot = some c)
    (h : m.storageReadable slot storage) :
    m.Produces c [] (some (.int (m.storageBase slot storage + storage.offset))) := by
  cases storage with
  | global o =>
    cases hc
    exact (produces_data h).displaced o
  | aboveFrame o | belowFrame o =>
    cases hc
    exact (produces_frame h).displaced o
  | member o =>
    obtain ⟨k, rfl, rfl⟩ := Option.map_eq_some_iff.1 hc
    have h := Bool.and_eq_true_iff.1 h
    have hself : m.Produces (Frame.selfPointer Generator.cells k) [] (some (.int (m.selfPointer k))) :=
      ((produces_frame h.1).followed (produces_offset _ k)).followed (produces_word h.2)
    exact hself.displaced o

end Machine

namespace Generator

variable {p : Typing} {ctx : Context} {e object : Expr} {c : Code} {i : Instr} {s : State}

theorem valueOf_address (hi : Instr.load? e.ty = some i) :
    valueOf e (address c) s = .ok (c ++ [i], s) := by
  simp only [valueOf, Fragment.toValue, address, Fragment.loadOf, hi]
  rfl

theorem memberOf_address (hi : Instr.load? object.ty = some i) (offset : Int32) (ty : Ty)
    (span : Span) : memberOf object (address c) offset ty span s
      = .ok (address (c ++ [i] ++ [Instr.pushI offset, .add]), s) := by
  have hfresh : isFresh (address c) object.ty = false := Bool.and_false _
  simp only [memberOf, bind_ok, valueOf_address hi, hfresh, Bool.false_eq_true, if_false, pure_ok]
  exact ⟨_, _, rfl, rfl, rfl⟩

theorem storageAddress_of_self {storage : Storage}
    (h : storage.isMember = true → ctx.selfSlot.isSome) :
    ∃ c, Frame.storageAddress? cells storage ctx.selfSlot = some c := by
  cases storage with
  | member o =>
    obtain ⟨slot, hslot⟩ := Option.isSome_iff_exists.1 (h rfl)
    exact ⟨_, by rw [hslot]; rfl⟩
  | _ => exact ⟨_, rfl⟩

theorem expr_ident {b : Binding}
    (hc : Frame.storageAddress? cells b.storage ctx.selfSlot = some c) (ty : Ty) (span : Span)
    (s : State) : expr ctx ⟨.ident b, ty, span⟩ s = .ok (address c, s) := by
  simp only [expr, exprKind, bind_ok, bindingAddress_ok, pure_ok]
  exact ⟨c, s, ⟨hc, rfl⟩, rfl, rfl⟩

theorem load_of_member {object : Ty} {b : Binding} (h : p.hasMember object b) :
    Instr.load? object = some .loadI := by
  cases object with
  | struct id => rfl
  | _ => cases h

mutual

theorem path_produces (hself : p.self.isSome → ctx.selfSlot.isSome) : (e : Expr) → p.exprOk e →
    e.isPath → ∃ c, (∀ s, expr ctx e s = .ok (address c, s)) ∧ ∀ m : Machine,
      m.leads ctx.selfSlot e → m.Produces c [] (some (.int (m.locate ctx.selfSlot e)))
  | ⟨kind, ty, span⟩, hty, hpath => by
    obtain ⟨c, hc, hruns⟩ := pathKind_produces hself ty span kind hty hpath
    exact ⟨c, hc, hruns⟩

theorem pathKind_produces (hself : p.self.isSome → ctx.selfSlot.isSome) (ty : Ty) (span : Span) :
    (kind : ExprKind) → p.kindOk ty kind → kind.isPath →
      ∃ c, (∀ s, exprKind ctx ty span kind s = .ok (address c, s)) ∧ ∀ m : Machine,
        m.leadsKind ctx.selfSlot kind → m.Produces c [] (some (.int (m.locateKind ctx.selfSlot kind)))
  | .ident b, hty, _ => by
    rw [Typing.kindOk, Bool.and_eq_true, Bool.or_eq_true] at hty
    have hmember : b.storage.isMember = true → ctx.selfSlot.isSome := fun hb => by
      rw [hb] at hty
      exact hself (Option.isSome_of_any (hty.2.resolve_left Bool.false_ne_true))
    obtain ⟨c, hc⟩ := storageAddress_of_self hmember
    exact ⟨c, expr_ident hc ty span, fun m h => Machine.produces_storage hc h⟩
  | .self, hty, _ => by
    obtain ⟨slot, hslot⟩ := Option.isSome_iff_exists.1 (hself (Option.isSome_of_any hty))
    refine ⟨cells.loadFrame ++ [Instr.pushI slot, .add], fun s => ?_, fun m h => ?_⟩
    · rw [exprKind, hslot]
      rfl
    · rw [Machine.locateKind, hslot]
      exact (Machine.produces_frame h).followed (Machine.produces_offset _ slot)
  | .bound i b, hty, hpath => by
    obtain ⟨hi, hinterval⟩ := Bool.and_eq_true_iff.1 hty
    have hinterval : i.ty = .interval ty := of_decide_eq_true hinterval
    obtain ⟨c, hc, hruns⟩ := path_produces hself i hi hpath
    have hload : Instr.load? i.ty = some .loadI := by rw [hinterval]; rfl
    refine ⟨c ++ [.loadI] ++ [Instr.pushI (Layout.boundOffset ty b), .add], fun s => ?_,
      fun m h => ?_⟩
    · simp only [exprKind, hinterval, bind_ok]
      exact ⟨_, _, hc s, memberOf_address hload _ _ _⟩
    · have h := Bool.and_eq_true_iff.1 h
      rw [Machine.locateKind, hinterval]
      exact ((hruns m h.1).followed (Machine.produces_word h.2)).followed (Machine.produces_offset _ _)
  | .field object b, hty, hpath => by
    rw [Typing.kindOk, Bool.and_eq_true, Bool.and_eq_true] at hty
    obtain ⟨hpath, hmember⟩ := Bool.and_eq_true_iff.1 hpath
    obtain ⟨c, hc, hruns⟩ := path_produces hself object hty.1.1 hpath
    have hload : Instr.load? object.ty = some .loadI := load_of_member hty.1.2
    refine ⟨c ++ [.loadI] ++ [Instr.pushI b.storage.offset, .add], fun s => ?_, fun m h => ?_⟩
    · cases hb : b.storage with
      | member o =>
        simp only [exprKind, hb, bind_ok]
        exact ⟨_, _, hc s, memberOf_address hload _ _ _⟩
      | _ => rw [hb] at hmember; cases hmember
    · have h := Bool.and_eq_true_iff.1 h
      exact ((hruns m h.1).followed (Machine.produces_word h.2)).followed (Machine.produces_offset _ _)
  | .bool _, _, h | .char _, _, h | .int _, _, h | .float _, _, h | .binary .., _, h
  | .unary .., _, h | .interval .., _, h | .methodCall .., _, h | .call .., _, h | .new _, _, h => by
    cases h

end

end Generator
end IntervalStack
