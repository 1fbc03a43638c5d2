import IntervalStack.Proofs.Building.Calls

/-! Sequences of calls to a builder. Whatever is called in whatever order, what the open blocks of a
context hold stays apart, no size is ever less than zero, and the finished program has room for all
that was given out. A routine's locals are in its frame if every block stands in the context whose
storage it holds. -/

namespace IntervalStack

def Program.routines (p : Program) : List Function :=
  p.functions ++ p.structs.flatMap (·.methods)

namespace Builder

def Error.IsMisplaced : Error → Prop
  | .overflow _ => False
  | .endFunctionOutside | .memberOutside | .endStructOutside => True

inductive Call
  | stmt (s : Stmt)
  | declare (name : String) (ty : Ty)
  | declareInit (name : String) (value : Expr)
  | openBlock
  | closeBlock
  | beginFunction (name : String) (params : List (String × Ty)) (result : Ty)
  | beginMethod (id : StructId) (name : String) (params : List (String × Ty)) (result : Ty)
  | endFunction
  | beginStruct (name : String)
  | member (name : String) (value : Expr)
  | endStruct
  | setPrinter (id : StructId) (method : String)

/-- A builder with all that each open context has given out, the innermost first. -/
structure Session where
  builder : Builder
  given : List (List Binding)

namespace Session

def start : Session := ⟨.empty, [[]]⟩

def next (s : Session) : Call → Except Error Session
  | .stmt x => return { s with builder := s.builder.stmt x }
  | .declare name ty => do
    let (x, b) ← s.builder.declare name ty
    return ⟨b, s.given.modifyHead (x :: ·)⟩
  | .declareInit name value => do
    let (x, b) ← s.builder.declareInit name value
    return ⟨b, s.given.modifyHead (x :: ·)⟩
  | .openBlock => return { s with builder := s.builder.openBlock }
  | .closeBlock => do
    let (_, b) ← s.builder.closeBlock
    return { s with builder := b }
  | .beginFunction name params result => do
    let (_, b) ← s.builder.beginFunction name params result
    return ⟨b, [] :: s.given⟩
  | .beginMethod id name params result => do
    let (_, b) ← s.builder.beginMethod id name params result
    return ⟨b, [] :: s.given⟩
  | .endFunction => return ⟨← s.builder.endFunction, s.given.tail⟩
  | .beginStruct name => return ⟨s.builder.beginStruct name, [] :: s.given⟩
  | .member name value => do
    let (_, b) ← s.builder.member name value
    return { s with builder := b }
  | .endStruct => return ⟨← s.builder.endStruct, s.given.tail⟩
  | .setPrinter id method => return { s with builder := s.builder.setPrinter id method }

def run (s : Session) (calls : List Call) : Except Error Session := calls.foldlM next s

/-- A condition on every call that is made, with the session that it is made in. -/
def Along (P : Session → Call → Prop) : Session → List Call → Prop
  | _, [] => True
  | s, c :: cs => P s c ∧
    match s.next c with
    | .ok s' => s'.Along P cs
    | .error _ => True

instance decidableAlong {P : Session → Call → Prop} [∀ s c, Decidable (P s c)] (s : Session) :
    (calls : List Call) → Decidable (s.Along P calls)
  | [] => isTrue trivial
  | c :: cs =>
    match h : s.next c with
    | .ok s' =>
      have := decidableAlong (P := P) s' cs
      decidable_of_iff (P s c ∧ s'.Along P cs) (by rw [Along, h])
    | .error _ => decidable_of_iff (P s c) (by rw [Along, h, and_true])

end Session

namespace Call

/-- The bytes in use in the current context stay below the limit, and so do those of parameters and
members. -/
def Fits (s : Session) : Call → Prop
  | .declare _ ty => s.builder.current.used.toNat + ty.size.toNat < byteLimit
  | .declareInit _ value => s.builder.current.used.toNat + value.ty.size.toNat < byteLimit
  | .beginFunction _ params _ | .beginMethod _ _ params _ => Frame.declaredSize params < byteLimit
  | .member _ value =>
    ∀ d ∈ s.builder.openStruct?.bind fun id => s.builder.structs[id.toNat]?,
      d.memberArea.toNat + value.ty.size.toNat < byteLimit
  | _ => True

instance {s : Session} : (c : Call) → Decidable (c.Fits s)
  | .declare _ _ | .declareInit _ _ | .beginFunction _ _ _ | .beginMethod _ _ _ _ =>
    inferInstanceAs (Decidable (_ < _))
  | .member _ _ => inferInstanceAs (Decidable (∀ _ ∈ _, _ < _))
  | .stmt _ | .openBlock | .closeBlock | .endFunction | .beginStruct _ | .endStruct
  | .setPrinter _ _ => isTrue trivial

/-- The blocks of a statement hold only what was given out in the context that they are placed
in. -/
def Own (s : Session) : Call → Prop
  | .stmt x => ∀ y ∈ x.bindings, y ∈ s.given.headD []
  | _ => True

instance {s : Session} : (c : Call) → Decidable (c.Own s)
  | .stmt x => inferInstanceAs (Decidable (∀ y ∈ x.bindings, y ∈ s.given.headD []))
  | .declare _ _ | .declareInit _ _ | .openBlock | .closeBlock | .beginFunction _ _ _
  | .beginMethod _ _ _ _ | .endFunction | .beginStruct _ | .member _ _ | .endStruct
  | .setPrinter _ _ => isTrue trivial

end Call

namespace Session

variable {s : Session} {own : Prop}

def Sound (own : Prop) (s : Session) : Prop := s.builder.Sound own s.given

theorem sound_start : start.Sound own := sound_empty

def GoesOn (own : Prop) (r : Except Error Session) : Prop :=
  match r with
  | .ok s => s.Sound own
  | .error e => e.IsMisplaced

theorem Sound.next (h : s.Sound own) {c : Call} (hfits : c.Fits s) (hown : own → c.Own s) :
    GoesOn own (s.next c) := by
  cases c with
  | stmt x => exact Builder.Sound.stmt h hown
  | declare name ty =>
    obtain ⟨x, b, hdeclare, -, hb⟩ := Builder.Sound.declare h name ty hfits
    rw [Session.next, hdeclare]
    exact hb
  | declareInit name value =>
    obtain ⟨x, b, hdeclare, -, hb⟩ := Builder.Sound.declareInit h name value hfits
    rw [Session.next, hdeclare]
    exact hb
  | openBlock => exact Builder.Sound.openBlock h
  | closeBlock =>
    obtain ⟨k, b, hclose, hb, -⟩ := Builder.Sound.closeBlock h
    rw [Session.next, hclose]
    exact hb
  | beginFunction name params result =>
    obtain ⟨xs, b, hbegin, hb⟩ := Builder.Sound.beginFunction h name result hfits
    rw [Session.next, hbegin]
    exact hb
  | beginMethod id name params result =>
    obtain ⟨xs, b, hbegin, hb⟩ := Builder.Sound.beginMethod h id name result hfits
    rw [Session.next, hbegin]
    exact hb
  | endFunction =>
    obtain ⟨-, hend⟩ | ⟨b, hend, -, hb⟩ := Builder.Sound.endFunction h
    · rw [Session.next, hend]
      trivial
    · rw [Session.next, hend]
      exact hb
  | beginStruct name => exact Builder.Sound.beginStruct h name
  | member name value =>
    obtain hmember | ⟨x, b, hmember, hb⟩ := Builder.Sound.member h name value
      fun id d hid hd => hfits d (by simp [hid, hd])
    · rw [Session.next, hmember]
      trivial
    · rw [Session.next, hmember]
      exact hb
  | endStruct =>
    obtain ⟨-, hend⟩ | ⟨b, hend, -, hb⟩ := Builder.Sound.endStruct h
    · rw [Session.next, hend]
      trivial
    · rw [Session.next, hend]
      exact hb
  | setPrinter id method => exact Builder.Sound.setPrinter h id method

theorem Sound.run (h : s.Sound own) {calls : List Call} (hfits : s.Along Call.Fits calls)
    (hown : own → s.Along Call.Own calls) : GoesOn own (s.run calls) := by
  induction calls generalizing s with
  | nil => exact h
  | cons c calls ih =>
    simp only [Along] at hfits hown
    have hnext := h.next hfits.1 fun ho => (hown ho).1
    rw [Session.run, List.foldlM_cons]
    cases hs : s.next c with
    | error e =>
      rw [hs] at hnext
      exact hnext
    | ok s' =>
      rw [hs] at hnext hfits
      simp only [hs] at hown
      exact ih hnext hfits.2 fun ho => (hown ho).2

end Session

/-- The marks of the open blocks do not exceed the bytes in use, nor these the peak; what the open
blocks hold stands in the bytes in use, one apart from the other. -/
structure Context.Orderly (c : Context) : Prop where
  mark_le : ∀ k ∈ c.blocks, k.mark ≤ c.used
  used_le : c.used ≤ c.peak
  within : ∀ x ∈ c.live, c.target.Spans 0 c.used.toNat x
  apart : c.live.Pairwise Binding.Apart

theorem Context.Sound.orderly {own : Prop} {c : Context} {given : List Binding}
    (h : c.Sound own given) : c.Orderly where
  mark_le := fun k hk => UInt32.le_iff_toNat_le.2 (h.nested.mark_le k hk)
  used_le := UInt32.le_iff_toNat_le.2 h.used_le
  within := h.nested.spans
  apart := h.apart

theorem routines_settled {own : Prop} {p : Program} (hfunctions : ∀ f ∈ p.functions, f.Settled own)
    (hstructs : ∀ d ∈ p.structs, d.Settled own) : ∀ f ∈ p.routines, f.Settled own := by
  refine List.forall_mem_append.2 ⟨hfunctions, fun f hf => ?_⟩
  obtain ⟨d, hd, hf⟩ := List.mem_flatMap.1 hf
  exact (hstructs d hd).methods f hf

/-- What is built is in order after every sequence of calls, as long as each context stays below the
limit: nothing fails but a misplaced call, a new binding is apart from all that open blocks hold,
and the finished program has its parameters and members in place. Its locals are in their frames and its
globals in their block if, besides, each block is placed in the context that gave out what it holds,
as a block is that was closed there. -/
theorem storage_in_order (calls : List Call) (hfits : Session.start.Along Call.Fits calls) :
    (∀ e, Session.start.run calls = .error e → e.IsMisplaced) ∧
    ∀ s, Session.start.run calls = .ok s →
      List.Forall₂ (fun c given => c.Orderly ∧ ∀ x ∈ given, c.target.Spans 0 c.peak.toNat x)
        s.builder.stack s.given ∧
      (∀ name value, (Call.declareInit name value).Fits s →
        (∃ x b, s.builder.declare name value.ty = .ok (x, b) ∧ s.builder.GivesOut x b) ∧
        ∃ x b, s.builder.declareInit name value = .ok (x, b) ∧ s.builder.GivesOut x b) ∧
      ∃ p, s.builder.finish = .ok p ∧
        (∀ f ∈ p.routines, f.Stacked) ∧
        (∀ d ∈ p.structs, d.Laid ∧ ∀ l, StructLayout.ofDef d = .ok l →
          ∀ slot ∈ l.referenceSlots, d.HoldsApart slot) ∧
        (Session.start.Along Call.Own calls →
          (∀ k b, s.builder.closeBlock = .ok (k, b) → ∀ x ∈ k.bindings, x ∈ s.given.headD []) ∧
          (∀ f ∈ p.routines, ∀ x ∈ f.body.bindings, x.InFrame 0 f.localsSize.toNat) ∧
          (∀ d ∈ p.structs, ∀ x ∈ d.initializer.bindings,
            x.InFrame 0 d.initializerLocals.toNat) ∧
          ∀ x ∈ p.main.bindings, x.InGlobals 0 p.globalSize.toNat) := by
  have hrun : Session.GoesOn (Session.start.Along Call.Own calls) (Session.start.run calls) :=
    Session.Sound.run Session.sound_start hfits id
  refine ⟨fun e he => by rwa [he] at hrun, fun s hs => ?_⟩
  rw [hs] at hrun
  have hsound : s.builder.Sound _ s.given := hrun
  obtain ⟨p, hfinish, hfunctions, hstructs, hmain⟩ := hsound.finish
  have hroutines := routines_settled hfunctions hstructs
  refine ⟨?_, fun name value hvalue => ⟨?_, ?_⟩, p, hfinish, fun f hf => (hroutines f hf).stacked,
    fun d hd => ⟨(hstructs d hd).laid, fun l hl slot => (hstructs d hd).laid.holdsApart hl⟩,
    fun ho => ⟨?_, fun f hf => (hroutines f hf).housed ho, fun d hd => (hstructs d hd).housed ho,
      hmain ho⟩⟩
  · exact hsound.contexts.imp fun c given hc => ⟨hc.orderly, hc.within⟩
  · obtain ⟨x, b, hdeclare, hgives, -⟩ := hsound.declare name value.ty hvalue
    exact ⟨x, b, hdeclare, hgives⟩
  · obtain ⟨x, b, hdeclare, hgives, -⟩ := hsound.declareInit name value hvalue
    exact ⟨x, b, hdeclare, hgives⟩
  · intro k b hclose
    obtain ⟨k', b', hclose', -, hk⟩ := hsound.closeBlock
    obtain ⟨rfl, rfl⟩ := Prod.mk.inj (Except.ok.inj (hclose.symm.trans hclose'))
    exact hk ho

/-- A global, a function with a local and two blocks in the bytes behind it, and a struct that is
still open. -/
def siblings : List Call :=
  [.declare "n" .int, .beginFunction "f" [("x", .char), ("y", .float)] .void, .declare "a" .int,
    .openBlock, .declare "b" .float, .closeBlock, .openBlock, .declare "c" .char, .closeBlock,
    .stmt (.block ⟨⟨8, [⟨"b", .float, .belowFrame (-20)⟩]⟩, []⟩),
    .stmt (.block ⟨⟨1, [⟨"c", .char, .belowFrame (-13)⟩]⟩, []⟩), .endFunction,
    .beginStruct "cell", .member "head" ⟨.int 0, .int, .none⟩,
    .member "tail" ⟨.new 0, .struct 0, .none⟩]

theorem storage_in_order_siblings : ∃ s p, Session.start.run siblings = .ok s ∧
    s.builder.finish = .ok p ∧ p.routines.map (·.localsSize) = [12] ∧
    (∀ f ∈ p.routines, f.Stacked ∧ ∀ x ∈ f.body.bindings, x.InFrame 0 f.localsSize.toNat) ∧
    p.structs.map (·.memberArea) = [8] ∧ ∀ d ∈ p.structs, d.Laid := by
  obtain ⟨-, -, p, hfinish, hstacked, hlaid, hown⟩ :=
    (storage_in_order siblings (by decide +kernel)).2 _ rfl
  obtain ⟨-, hhoused, -, -⟩ := hown (by decide +kernel)
  refine ⟨_, p, rfl, hfinish, ?_, fun f hf => ⟨hstacked f hf, hhoused f hf⟩, ?_,
    fun d hd => (hlaid d hd).1⟩
  · obtain rfl := Except.ok.inj hfinish
    rfl
  · obtain rfl := Except.ok.inj hfinish
    rfl

/-- A block that was closed in one function and is placed in another. -/
def strayBlock : Block := ⟨⟨4, [⟨"a", .int, .belowFrame (-12)⟩]⟩, []⟩

def straying : List Call :=
  [.beginFunction "f" [] .void, .openBlock, .declare "a" .int, .closeBlock, .endFunction,
    .beginFunction "g" [] .void, .stmt (.block strayBlock), .endFunction]

theorem strayBlock_outside_frame : Session.start.Along Call.Fits straying ∧
    (∃ s b, Session.start.run (straying.take 3) = .ok s ∧
      s.builder.closeBlock = .ok (strayBlock, b)) ∧
    ∃ s p, Session.start.run straying = .ok s ∧ s.builder.finish = .ok p ∧
      ∃ f ∈ p.functions, ∃ x ∈ f.body.bindings, ¬ x.InFrame 0 f.localsSize.toNat := by
  refine ⟨by decide +kernel, ⟨_, _, rfl, rfl⟩, _, _, rfl, rfl, ?_⟩
  exact ⟨_, List.mem_cons_of_mem _ List.mem_cons_self, _, List.mem_cons_self, by decide⟩

end Builder
end IntervalStack
