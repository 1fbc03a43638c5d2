import IntervalStack.Generator.Program

/-! Taking successful generation apart: what it tells when a step of the generator yields a result,
one lemma for each step that the larger functions are made of. -/

namespace IntervalStack.Generator

namespace State

def next (s : State) : State := { s with labels := ⟨s.labels.count + 1⟩ }

def label (s : State) (stem : String) : String :=
  "-" ++ stem ++ "-" ++ toString (s.labels.count + 1)

def noting (s : State) (b : Bool) : State := { s with pushed := s.pushed || b }

def printing (s : State) (k : ScalarKind) : State := { s with printers := s.printers.insert k }

@[simp] theorem count_next (s : State) : s.next.labels.count = s.labels.count + 1 := rfl

@[simp] theorem pushed_next (s : State) : s.next.pushed = s.pushed := rfl

@[simp] theorem exitPushed_next (s : State) : s.next.exitPushed = s.exitPushed := rfl

@[simp] theorem labels_noting (s : State) (b : Bool) : (s.noting b).labels = s.labels := rfl

@[simp] theorem pushed_noting (s : State) (b : Bool) : (s.noting b).pushed = (s.pushed || b) := rfl

@[simp] theorem exitPushed_noting (s : State) (b : Bool) :
    (s.noting b).exitPushed = s.exitPushed := rfl

@[simp] theorem labels_printing (s : State) (k : ScalarKind) : (s.printing k).labels = s.labels := rfl

@[simp] theorem pushed_printing (s : State) (k : ScalarKind) : (s.printing k).pushed = s.pushed := rfl

@[simp] theorem exitPushed_printing (s : State) (k : ScalarKind) :
    (s.printing k).exitPushed = s.exitPushed := rfl

@[simp] theorem noting_false (s : State) : s.noting false = s := by
  cases s
  simp [noting]

theorem noting_noting (s : State) (a b : Bool) : (s.noting a).noting b = s.noting (a || b) := by
  simp only [noting, Bool.or_assoc]

end State

variable {α β : Type} {s s' : State}

theorem bind_ok {x : Gen α} {f : α → Gen β} {b : β} :
    (x >>= f) s = .ok (b, s') ↔ ∃ a s₁, x s = .ok (a, s₁) ∧ f a s₁ = .ok (b, s') := by
  simp only [bind, StateT.bind, Except.bind]
  cases h : x s with
  | error e => simp
  | ok r =>
    obtain ⟨a, s₁⟩ := r
    simp only [Except.ok.injEq, Prod.mk.injEq]
    exact ⟨fun h => ⟨a, s₁, ⟨rfl, rfl⟩, h⟩, fun ⟨_, _, ⟨ha, hs⟩, h⟩ => ha ▸ hs ▸ h⟩

theorem pure_ok {a b : α} : (pure a : Gen α) s = .ok (b, s') ↔ b = a ∧ s' = s := by
  change Except.ok (a, s) = .ok (b, s') ↔ _
  simp [eq_comm]

@[simp] theorem refuse_ok {e : GenerationError} {span : Span} {r : α × State} :
    refuse e span s = .ok r ↔ False := ⟨fun h => (nomatch h), False.elim⟩

theorem require_ok {c : Bool} {e : GenerationError} {span : Span} {u : Unit} :
    require c e span s = .ok (u, s') ↔ c = true ∧ s' = s := by
  cases c
  · exact ⟨fun h => (nomatch h), fun h => (nomatch h.1)⟩
  · simp only [require, if_true, pure_ok, true_and]

theorem shaped_ok {r : Except FragmentError α} {span : Span} {a : α} :
    shaped r span s = .ok (a, s') ↔ r = .ok a ∧ s' = s := by
  cases r with
  | error e => exact ⟨fun h => (nomatch h), fun h => (nomatch h.1)⟩
  | ok b => rw [shaped, pure_ok, Except.ok.injEq, @eq_comm _ a b]

theorem sized_ok {r : Except Overflow α} {a : α} :
    sized r s = .ok (a, s') ↔ r = .ok a ∧ s' = s := by
  cases r with
  | error e => exact ⟨fun h => (nomatch h), fun h => (nomatch h.1)⟩
  | ok b => rw [sized, pure_ok, Except.ok.injEq, @eq_comm _ a b]

theorem fresh_ok {stem l : String} :
    fresh stem s = .ok (l, s') ↔ l = s.label stem ∧ s' = s.next := by
  change Except.ok (s.label stem, s.next) = Except.ok (l, s') ↔ _
  simp [eq_comm]

theorem get_ok {t : State} : (get : Gen State) s = .ok (t, s') ↔ t = s ∧ s' = s := by
  change Except.ok (s, s) = Except.ok (t, s') ↔ _
  simp [eq_comm]

theorem modify_ok {f : State → State} {u : Unit} :
    (modify f : Gen Unit) s = .ok (u, s') ↔ s' = f s := by
  change Except.ok ((), f s) = Except.ok (u, s') ↔ _
  simp [eq_comm]

theorem notePush_ok {u : Unit} : notePush s = .ok (u, s') ↔ s' = s.noting true := by
  rw [notePush, modify_ok, State.noting, Bool.or_true]

theorem notePrinter_ok {k : ScalarKind} {u : Unit} :
    notePrinter k s = .ok (u, s') ↔ s' = s.printing k := modify_ok

theorem bindingAddress_ok {ctx : Context} {b : Binding} {span : Span} {c : Code} :
    bindingAddress ctx b span s = .ok (c, s') ↔
      Frame.storageAddress? cells b.storage ctx.selfSlot = some c ∧ s' = s := by
  unfold bindingAddress
  cases Frame.storageAddress? cells b.storage ctx.selfSlot with
  | none => simp
  | some c' => rw [pure_ok, Option.some.injEq, @eq_comm _ c c']

theorem loadOf_ok {ty : Ty} {i : Instr} : Fragment.loadOf ty = .ok i ↔ Instr.load? ty = some i := by
  unfold Fragment.loadOf
  split <;> simp_all

theorem storeOf_ok {ty : Ty} {i : Instr} :
    Fragment.storeOf ty = .ok i ↔ Instr.store? ty = some i := by
  unfold Fragment.storeOf
  split <;> simp_all

theorem layoutOf_ok {ctx : Context} {id : StructId} {span : Span} {l : StructLayout} :
    layoutOf ctx id span s = .ok (l, s') ↔ ctx.structs.get? id = some l ∧ s' = s := by
  unfold layoutOf
  cases ctx.structs.get? id with
  | none => simp
  | some l' => rw [pure_ok, Option.some.injEq, @eq_comm _ l l']

theorem structOf_ok {ctx : Context} {id : StructId} {span : Span} {d : StructDef} :
    structOf ctx id span s = .ok (d, s') ↔ ctx.program.struct? id = some d ∧ s' = s := by
  unfold structOf
  cases ctx.program.struct? id with
  | none => simp
  | some d' => rw [pure_ok, Option.some.injEq, @eq_comm _ d d']

theorem functionOf_ok {ctx : Context} {name : String} {span : Span} {f : Function} :
    functionOf ctx name span s = .ok (f, s') ↔ ctx.program.function? name = some f ∧ s' = s := by
  unfold functionOf
  cases ctx.program.function? name with
  | none => simp
  | some f' => rw [pure_ok, Option.some.injEq, @eq_comm _ f f']

theorem methodOf_ok {ctx : Context} {receiver : Ty} {name : String} {span : Span} {f : Function}
    {typeCode : Int32} (h : methodOf ctx receiver name span s = .ok ((f, typeCode), s')) :
    ∃ id d l, receiver = .struct id ∧ ctx.program.struct? id = some d ∧ d.method? name = some f ∧
      ctx.structs.get? id = some l ∧ typeCode = l.typeCode ∧ s' = s := by
  cases receiver with
  | struct id =>
    simp only [methodOf, bind_ok, structOf_ok] at h
    obtain ⟨d, s₁, ⟨hd, rfl⟩, h⟩ := h
    cases hf : d.method? name with
    | none => simp [hf] at h
    | some f' =>
      simp only [hf, bind_ok, layoutOf_ok, pure_ok, Prod.mk.injEq] at h
      obtain ⟨l, s₂, ⟨hl, rfl⟩, ⟨rfl, rfl⟩, rfl⟩ := h
      exact ⟨id, d, l, rfl, hd, hf, hl, rfl, rfl⟩
  | _ => exact absurd h (by simp [methodOf])

theorem valueOf_ok {e : Expr} {f : Fragment} {c : Code} (h : valueOf e f s = .ok (c, s')) :
    s' = s ∧ (f.shape = .value ∧ c = f.code ∨
      f.shape = .address ∧ ∃ i, Instr.load? e.ty = some i ∧ c = f.code ++ [i]) := by
  obtain ⟨hv, rfl⟩ := shaped_ok.1 h
  refine ⟨rfl, ?_⟩
  unfold Fragment.toValue at hv
  split at hv
  · next hs => exact .inl ⟨hs, (Except.ok.inj hv).symm⟩
  · next hs =>
    refine .inr ⟨hs, ?_⟩
    cases hl : Instr.load? e.ty with
    | none => simp [Fragment.loadOf, hl, Except.map] at hv
    | some i =>
      simp only [Fragment.loadOf, hl, Except.map, Except.ok.injEq] at hv
      exact ⟨i, rfl, hv.symm⟩
  · cases hv

theorem ownedValueOf_ok {e : Expr} {f : Fragment} {c : Code}
    (h : ownedValueOf e f s = .ok (c, s')) :
    ∃ c', valueOf e f s = .ok (c', s) ∧ s' = s ∧
      c = if e.ty.isHeap && f.isAddress then c' ++ [.duplicate, RefCounter.increment] else c' := by
  simp only [ownedValueOf, bind_ok, pure_ok] at h
  obtain ⟨c', s₁, hc, rfl, rfl⟩ := h
  obtain ⟨rfl, -⟩ := valueOf_ok hc
  exact ⟨c', hc, rfl, rfl⟩

theorem checkArity_ok {name : String} {params : List Binding} {args : List Expr} {span : Span}
    {u : Unit} : checkArity name params args span s = .ok (u, s') ↔
      args.length = params.length ∧ s' = s := by
  simp only [checkArity, require_ok, decide_eq_true_eq]

theorem self_ok {ctx : Context} {ty : Ty} {span : Span} {f : Fragment} :
    exprKind ctx ty span .self s = .ok (f, s') ↔ ∃ slot, ctx.selfSlot = some slot ∧
      f = address (cells.loadFrame ++ [.pushI slot, .add]) ∧ s' = s := by
  rw [exprKind]
  cases ctx.selfSlot with
  | none => simp
  | some slot => simp [pure_ok]

end IntervalStack.Generator
