import IntervalStack.Proofs.ListingLabels
import IntervalStack.Proofs.LocalCode

/-! Code that leaves the reference counter alone. A tree mentions a heap type where one of its bindings
or expressions has one; the code of an expression that mentions none counts no references and
schedules no decrements. -/

namespace IntervalStack

mutual

/-- No binding and no expression in the tree has a heap type. -/
def Expr.heapFree : Expr → Bool
  | ⟨kind, ty, _⟩ => !ty.isHeap && kind.heapFree

def ExprKind.heapFree : ExprKind → Bool
  | .bool _ | .char _ | .int _ | .float _ | .self | .new _ => true
  | .ident b => !b.ty.isHeap
  | .binary _ lhs rhs => lhs.heapFree && rhs.heapFree
  | .unary _ operand => operand.heapFree
  | .interval low high => low.heapFree && high.heapFree
  | .bound interval _ => interval.heapFree
  | .field object member => object.heapFree && !member.ty.isHeap
  | .methodCall object _ args => object.heapFree && exprsHeapFree args
  | .call _ args => exprsHeapFree args

def exprsHeapFree : List Expr → Bool
  | [] => true
  | e :: es => e.heapFree && exprsHeapFree es

end

theorem Expr.isHeap_of_heapFree {e : Expr} (h : e.heapFree = true) : e.ty.isHeap = false := by
  obtain ⟨kind, ty, span⟩ := e
  simp only [heapFree, Bool.and_eq_true, Bool.not_eq_true'] at h
  exact h.1

def Instr.isCall : Instr → Bool
  | .call _ => true
  | _ => false

def RefCounter.routines : List String := [incrementRoutine, pushRoutine, drainRoutine]

namespace Code

def Neutral (c : Code) : Prop := ∀ r ∈ RefCounter.routines, .call r ∉ c

instance (c : Code) : Decidable c.Neutral := List.decidableBAll _ _

variable {c c' : Code} {i : Instr} {l : String}

theorem Neutral.nil : Neutral [] := fun _ _ => List.not_mem_nil

@[simp] theorem neutral_append : Neutral (c ++ c') ↔ c.Neutral ∧ c'.Neutral := by
  simp only [Neutral, List.mem_append, not_or, forall_and]

theorem neutral_call (h : l ∉ RefCounter.routines) : Neutral [.call l] := by
  intro r hr hmem
  obtain rfl := Instr.call.inj (List.mem_singleton.1 hmem)
  exact h hr

theorem neutral_of_no_calls (h : c.all (!·.isCall) = true) : c.Neutral := by
  intro r _ hmem
  cases List.all_eq_true.1 h _ hmem

theorem neutral_of_isLocal (h : c.all Instr.isLocal = true) : c.Neutral := by
  intro r _ hmem
  cases List.all_eq_true.1 h _ hmem

end Code

namespace Generator
open Outline (plain wrap)
open Environment (printString)

theorem neutral_call_append {first : String} (rest : String) (hlen : 2 ≤ first.toList.length)
    (hf : first.toList.take 2 ≠ ['-', 'r']) : Code.Neutral [.call (first ++ rest)] := by
  refine Code.neutral_call fun hmem => hf ?_
  have hstarts : ∀ l ∈ RefCounter.routines, l.toList.take 2 = ['-', 'r'] :=
    List.forall_mem_cons.2 ⟨rfl, List.forall_mem_cons.2 ⟨rfl, List.forall_mem_singleton.2 rfl⟩⟩
  have hstart := hstarts _ hmem
  rwa [String.toList_append, List.take_append_of_le_length hlen] at hstart

theorem neutral_newStructCode (l : StructLayout) : (newStructCode l).Neutral := by
  have hslots : Code.Neutral (l.referenceSlots.flatMap
      fun slot => [Instr.duplicate, .pushI slot, .add, .pushI 0, .storeI]) := by
    refine Code.neutral_of_isLocal (List.all_eq_true.2 fun i hi => ?_)
    obtain ⟨slot, -, hi⟩ := List.mem_flatMap.1 hi
    exact List.all_eq_true.1 (rfl : List.all [Instr.duplicate, .pushI slot, .add, .pushI 0, .storeI]
      Instr.isLocal = true) i hi
  have hrecord : (allocateRecord l.recordSize l.typeCode).Neutral := by
    intro r hr hmem
    simp only [allocateRecord, List.mem_cons, List.not_mem_nil, reduceCtorEq, Instr.call.injEq,
      or_false, false_or] at hmem
    subst hmem
    revert hr
    decide
  simp only [newStructCode, Frame.callInitializer, Code.neutral_append]
  exact ⟨⟨⟨hrecord, Code.neutral_of_isLocal rfl⟩, hslots⟩, ⟨Code.neutral_of_isLocal rfl,
    Code.neutral_of_isLocal (pushArgument_local _)⟩, neutral_call_append _ (by decide) (by decide)⟩

def Job.heapFree : Job → Bool
  | .expr e _ | .value e _ | .owned e => e.heapFree
  | .kind k ty _ _ => !ty.isHeap && k.heapFree
  | .member object _ ty _ => object.heapFree && !ty.isHeap
  | .args _ es => exprsHeapFree es

structure Silent (s : State) (o : Outline) (s' : State) : Prop where
  neutral : o.code.Neutral
  pushed : s'.pushed = s.pushed
  exitPushed : s'.exitPushed = s.exitPushed

namespace Silent

variable {s s₁ s' : State} {o o' : Outline} {c : Code}

theorem plain (h : c.Neutral) (s : State) : Silent s (plain c) s :=
  ⟨by rwa [Outline.code_plain], rfl, rfl⟩

theorem next (h : c.Neutral) (s : State) : Silent s (Outline.plain c) s.next :=
  ⟨by rwa [Outline.code_plain], rfl, rfl⟩

theorem of_next (h : Silent s.next o s') : Silent s o s' := ⟨h.neutral, h.pushed, h.exitPushed⟩

theorem append (h : Silent s o s₁) (h' : Silent s₁ o' s') : Silent s (o ++ o') s' :=
  ⟨by rw [Outline.code_append]; exact Code.neutral_append.2 ⟨h.neutral, h'.neutral⟩,
    h'.pushed.trans h.pushed, h'.exitPushed.trans h.exitPushed⟩

theorem wrap (h : Silent s o s') (p : Part) : Silent s (wrap p o) s' :=
  ⟨by rw [Outline.code_wrap]; exact h.neutral, h.pushed, h.exitPushed⟩

end Silent

theorem neutral_compareCode (op : BinOp) (float : Bool) (group : String) :
    (compareCode op float group).Neutral := by
  cases op <;> cases float <;> exact Code.neutral_of_no_calls rfl

theorem neutral_arithmetic {op : BinOp} {float : Bool} {c : Code}
    (h : arithmetic? op float = some c) : c.Neutral := by
  cases op <;> cases float <;> cases h <;> exact Code.neutral_of_no_calls rfl

theorem unaryCode_silent {op : UnaryOp} {ty : Ty} {span : Span} {s s' : State} {c : Code}
    (h : unaryCode op ty span s = .ok (c, s')) : Silent s (plain c) s' := by
  rcases unaryCode_ok h with ⟨rfl, hc⟩ | ⟨-, -, rfl, rfl⟩
  · refine .plain (Code.neutral_of_isLocal ?_) _
    simp only [List.mem_cons, List.not_mem_nil, or_false] at hc
    rcases hc with rfl | rfl | rfl | rfl | rfl | rfl | rfl | rfl | rfl <;> rfl
  · exact .next (Code.neutral_of_no_calls rfl) s

theorem Emits.silent {ctx : Context} {job : Job} {s s' : State} {o : Outline}
    (h : Emits ctx job s o s') (hf : job.heapFree = true) : Silent s o s' := by
  induction h with
  | expr _ ih => exact (ih hf).wrap _
  | bool | char | int | float => exact .plain (Code.neutral_of_isLocal rfl) _
  | self => exact .plain (Code.neutral_of_isLocal rfl) _
  | ident h => exact .plain (Code.neutral_of_isLocal (storageAddress_local h)) _
  | new => exact .plain (neutral_newStructCode _) _
  | @logical op _ _ _ _ _ _ _ s₁ _ _ _ _ _ _ _ ih₁ ih₂ =>
    simp only [Job.heapFree, ExprKind.heapFree, Bool.and_eq_true] at hf
    have hjump : Code.Neutral [.duplicate, decidingJump op (s₁.label (logicalStem op)), .pop] := by
      refine Code.neutral_of_no_calls ?_
      unfold decidingJump
      split <;> rfl
    exact (((ih₁ hf.2.1).append (.next hjump _)).append (ih₂ hf.2.2)).append
      (.plain (Code.neutral_of_no_calls rfl) _)
  | @compare op l _ _ _ _ _ _ _ _ _ _ _ _ _ _ ih₁ ih₂ =>
    simp only [Job.heapFree, ExprKind.heapFree, Bool.and_eq_true] at hf
    refine ((ih₁ hf.2.1).append (ih₂ hf.2.2)).append (.next (Code.neutral_append.2 ⟨?_, ?_⟩) _)
    · cases l.ty.isFloat <;> exact Code.neutral_of_isLocal rfl
    · exact neutral_compareCode _ _ _
  | arithmetic _ _ hc _ _ ih₁ ih₂ =>
    simp only [Job.heapFree, ExprKind.heapFree, Bool.and_eq_true] at hf
    exact ((ih₁ hf.2.1).append (ih₂ hf.2.2)).append (.plain (neutral_arithmetic hc) _)
  | unary _ _ hc ih =>
    simp only [Job.heapFree, ExprKind.heapFree, Bool.and_eq_true] at hf
    exact (ih hf.2).append (unaryCode_silent hc)
  | interval => cases hf
  | bound hty _ ih =>
    simp only [Job.heapFree, ExprKind.heapFree, Bool.and_eq_true] at hf
    have hheap := Expr.isHeap_of_heapFree hf.2
    rw [hty] at hheap
    cases hheap
  | field _ _ ih =>
    simp only [Job.heapFree, ExprKind.heapFree, Bool.and_eq_true] at hf
    exact ih (by simp [Job.heapFree, hf.2.1, hf.2.2])
  | methodCall hty =>
    simp only [Job.heapFree, ExprKind.heapFree, Bool.and_eq_true] at hf
    have hheap := Expr.isHeap_of_heapFree hf.2.1
    rw [hty] at hheap
    cases hheap
  | call _ _ _ ih =>
    simp only [Job.heapFree, ExprKind.heapFree, Bool.and_eq_true] at hf
    exact (ih hf.2).append (.plain (Code.neutral_append.2 ⟨neutral_call_append _ (by decide)
      (by decide), Code.neutral_of_isLocal (fetchResult_local _)⟩) _)
  | used _ ih | moved _ _ ih => exact ih hf
  | loaded hl _ ih =>
    refine (ih hf).append (.plain (Code.neutral_of_isLocal ?_) _)
    simp [load_local hl]
  | counted hh =>
    rw [Expr.isHeap_of_heapFree hf] at hh
    cases hh
  | stored _ _ ih =>
    simp only [Job.heapFree, Bool.and_eq_true] at hf
    exact ((ih hf.1).wrap _).append (.plain (Code.neutral_of_isLocal rfl) _)
  | readOut hh =>
    simp only [Job.heapFree, Bool.and_eq_true] at hf
    rw [Expr.isHeap_of_heapFree hf.1] at hh
    cases hh
  | noArgs => exact .plain .nil _
  | arg _ _ ih₁ ih₂ =>
    simp only [Job.heapFree, exprsHeapFree, Bool.and_eq_true] at hf
    exact ((ih₁ hf.1).append (.plain (Code.neutral_of_isLocal (pushArgument_local _)) _)).append
      (ih₂ hf.2)

end Generator
end IntervalStack
