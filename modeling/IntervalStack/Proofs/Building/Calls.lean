import IntervalStack.Proofs.Building.Tiling
import Mathlib.Data.List.Forall2

/-! What each call to a builder keeps in order: the bytes of every open context, the parameters and
members in their places, and the locals of the routines that are finished. -/

namespace IntervalStack

structure Function.Settled (own : Prop) (f : Function) : Prop where
  stacked : f.Stacked
  housed : own → ∀ x ∈ f.body.bindings, x.InFrame 0 f.localsSize.toNat

structure StructDef.Settled (own : Prop) (d : StructDef) : Prop where
  laid : d.Laid
  housed : own → ∀ x ∈ d.initializer.bindings, x.InFrame 0 d.initializerLocals.toNat
  methods : ∀ f ∈ d.methods, f.Settled own

namespace Builder

variable {b : Builder} {own : Prop} {given : List (List Binding)}

def stack (b : Builder) : List Context := b.contexts ++ [b.main]

theorem stack_eq (b : Builder) : b.stack = b.current :: b.stack.tail := by
  obtain ⟨structs, functions, contexts, main⟩ := b
  cases contexts <;> rfl

theorem stack_setCurrent (b : Builder) (c : Context) :
    (b.setCurrent c).stack = c :: b.stack.tail := by
  obtain ⟨structs, functions, contexts, main⟩ := b
  cases contexts <;> rfl

theorem current_setCurrent (b : Builder) (c : Context) : (b.setCurrent c).current = c := by
  obtain ⟨structs, functions, contexts, main⟩ := b
  cases contexts <;> rfl

def Target.Opened : Target → Prop
  | .main => False
  | .function _ params _ | .method _ _ params _ =>
    ∃ declared, params = Frame.placed declared ∧ Frame.declaredSize declared < byteLimit
  | .initializer _ => True

theorem Target.Opened.isFrame {t : Target} (h : t.Opened) : t.isFrame = true := by
  cases t with
  | main => cases h
  | function | method | initializer => rfl

structure Sound (own : Prop) (b : Builder) (given : List (List Binding)) : Prop where
  contexts : List.Forall₂ (Context.Sound own) b.stack given
  opened : ∀ c ∈ b.contexts, c.target.Opened
  main : b.main.target = .main
  functions : ∀ f ∈ b.functions, f.Settled own
  structs : ∀ d ∈ b.structs, d.Settled own

theorem sound_empty : empty.Sound own [[]] where
  contexts := .cons (Context.sound_new _) .nil
  opened := nofun
  main := rfl
  functions := nofun
  structs := nofun

theorem Sound.current (h : b.Sound own given) : ∃ g gs, given = g :: gs ∧
    b.current.Sound own g ∧ List.Forall₂ (Context.Sound own) b.stack.tail gs := by
  have hcontexts := h.contexts
  rw [stack_eq, List.forall₂_cons_left_iff] at hcontexts
  obtain ⟨g, gs, hcurrent, houter, hgiven⟩ := hcontexts
  exact ⟨g, gs, hgiven, hcurrent, houter⟩

theorem Sound.setCurrent (h : b.Sound own given) {c : Context} {g : List Binding}
    (hc : c.Sound own g) (htarget : c.target = b.current.target) :
    (b.setCurrent c).Sound own (g :: given.tail) := by
  obtain ⟨g', gs, rfl, -, houter⟩ := h.current
  have hcontexts : List.Forall₂ (Context.Sound own) (b.setCurrent c).stack (g :: gs) := by
    rw [stack_setCurrent]
    exact .cons hc houter
  obtain ⟨structs, functions, contexts, main⟩ := b
  cases contexts with
  | nil => exact ⟨hcontexts, nofun, htarget.trans h.main, h.functions, h.structs⟩
  | cons c' cs =>
    obtain ⟨hc', hcs⟩ := List.forall_mem_cons.1 h.opened
    refine ⟨hcontexts, List.forall_mem_cons.2 ⟨?_, hcs⟩, h.main, h.functions, h.structs⟩
    rw [htarget]
    exact hc'

theorem Sound.stmt (h : b.Sound own given) {s : Stmt}
    (hown : own → ∀ x ∈ s.bindings, x ∈ given.headD []) : (b.stmt s).Sound own given := by
  obtain ⟨g, gs, rfl, hcurrent, -⟩ := h.current
  exact h.setCurrent (hcurrent.addStmt hown) (Context.target_editBlock _)

theorem Sound.openBlock (h : b.Sound own given) : b.openBlock.Sound own given := by
  obtain ⟨g, gs, rfl, hcurrent, -⟩ := h.current
  exact h.setCurrent hcurrent.openBlock rfl

theorem Sound.closeBlock (h : b.Sound own given) : ∃ k b', b.closeBlock = .ok (k, b') ∧
    b'.Sound own given ∧ (own → ∀ x ∈ k.bindings, x ∈ given.headD []) := by
  obtain ⟨g, gs, rfl, hcurrent, -⟩ := h.current
  obtain ⟨k, c, hclose, htarget, hc, hk⟩ := hcurrent.closeBlock
  refine ⟨k, b.setCurrent c, ?_, h.setCurrent hc htarget, hk⟩
  simp only [Builder.closeBlock, hclose, sized, bind, Except.bind, pure, Except.pure]

/-- The new binding `x` shares no byte with what the open blocks hold, and stands in the bytes that
come into use. -/
def GivesOut (b : Builder) (x : Binding) (b' : Builder) : Prop :=
  (∀ y ∈ b.current.live, x.Apart y) ∧
    b.current.target.Spans b.current.used.toNat b'.current.used.toNat x

theorem Sound.declare (h : b.Sound own given) (name : String) (ty : Ty)
    (hfits : b.current.used.toNat + ty.size.toNat < byteLimit) :
    ∃ x b', b.declare name ty = .ok (x, b') ∧ b.GivesOut x b' ∧
      b'.Sound own (given.modifyHead (x :: ·)) := by
  obtain ⟨g, gs, rfl, hcurrent, -⟩ := h.current
  obtain ⟨storage, c, hallocate, htarget, happart, hspans, hc⟩ := hcurrent.declare name ty hfits
  refine ⟨⟨name, ty, storage⟩, b.setCurrent (c.addBinding ⟨name, ty, storage⟩), ?_,
    ⟨happart, ?_⟩, h.setCurrent hc ((Context.target_editBlock _).trans htarget)⟩
  · simp only [Builder.declare, hallocate, sized, bind, Except.bind, pure, Except.pure]
  · rwa [current_setCurrent, Context.addBinding, Context.used_editBlock]

theorem Sound.declareInit (h : b.Sound own given) (name : String) (value : Expr)
    (hfits : b.current.used.toNat + value.ty.size.toNat < byteLimit) :
    ∃ x b', b.declareInit name value = .ok (x, b') ∧ b.GivesOut x b' ∧
      b'.Sound own (given.modifyHead (x :: ·)) := by
  obtain ⟨x, b', hdeclare, ⟨happart, hspans⟩, hb'⟩ := h.declare name value.ty hfits
  refine ⟨x, b'.stmt (.declaration x value), ?_, ⟨happart, ?_⟩, hb'.stmt fun _ => nofun⟩
  · simp only [Builder.declareInit, hdeclare, bind, Except.bind, pure, Except.pure]
  · rwa [Builder.stmt, current_setCurrent, Context.addStmt, Context.used_editBlock]

/-! Contexts that begin and end. -/

theorem Sound.begin (h : b.Sound own given) {t : Target} (ht : t.Opened) :
    (b.begin t).Sound own ([] :: given) where
  contexts := .cons (Context.sound_new t) h.contexts
  opened := List.forall_mem_cons.2 ⟨ht, h.opened⟩
  main := h.main
  functions := h.functions
  structs := h.structs

theorem Sound.beginFunction (h : b.Sound own given) (name : String)
    {params : List (String × Ty)} (result : Ty) (hfits : Frame.declaredSize params < byteLimit) :
    ∃ xs b', b.beginFunction name params result = .ok (xs, b') ∧ b'.Sound own ([] :: given) := by
  have hplace := Frame.placeParams_eq (Nat.lt_trans hfits (by decide))
  refine ⟨Frame.placed params, b.begin (.function name (Frame.placed params) result), ?_,
    h.begin ⟨params, rfl, hfits⟩⟩
  simp only [Builder.beginFunction, hplace, sized, bind, Except.bind, pure, Except.pure]

theorem Sound.beginMethod (h : b.Sound own given) (id : StructId) (name : String)
    {params : List (String × Ty)} (result : Ty) (hfits : Frame.declaredSize params < byteLimit) :
    ∃ xs b', b.beginMethod id name params result = .ok (xs, b') ∧ b'.Sound own ([] :: given) := by
  have hplace := Frame.placeParams_eq (Nat.lt_trans hfits (by decide))
  refine ⟨Frame.placed params, b.begin (.method id name (Frame.placed params) result), ?_,
    h.begin ⟨params, rfl, hfits⟩⟩
  simp only [Builder.beginMethod, hplace, sized, bind, Except.bind, pure, Except.pure]

theorem Sound.beginStruct (h : b.Sound own given) (name : String) :
    (b.beginStruct name).Sound own ([] :: given) := by
  let id := UInt32.ofNat b.structs.length
  let d : StructDef := ⟨id, name, [], 0, 0, .empty, [], none, .none⟩
  have hd : d.Settled own := ⟨⟨rfl, nofun⟩, fun _ => nofun, nofun⟩
  have hadded : Sound own { b with structs := b.structs ++ [d] } given :=
    ⟨h.contexts, h.opened, h.main, h.functions,
      List.forall_mem_append.2 ⟨h.structs, List.forall_mem_singleton.2 hd⟩⟩
  exact hadded.begin (t := .initializer id) trivial

theorem Sound.editStruct (h : b.Sound own given) {id : StructId} {edit : StructDef → StructDef}
    (hedit : ∀ d, b.structs[id.toNat]? = some d → d.Settled own → (edit d).Settled own) :
    (b.editStruct id edit).Sound own given := by
  refine ⟨h.contexts, h.opened, h.main, h.functions, fun d hd => ?_⟩
  obtain ⟨i, hi⟩ := List.mem_iff_getElem?.1 hd
  rw [Builder.editStruct, List.getElem?_modify] at hi
  obtain ⟨d', hd', rfl⟩ := Option.map_eq_some_iff.1 hi
  have hsettled := h.structs d' (List.mem_of_getElem? hd')
  split
  · next hid => exact hedit d' (hid ▸ hd') hsettled
  · exact hsettled

theorem Sound.setPrinter (h : b.Sound own given) (id : StructId) (method : String) :
    (b.setPrinter id method).Sound own given :=
  h.editStruct fun _ _ hd => ⟨⟨hd.laid.tiles, hd.laid.storage⟩, hd.housed, hd.methods⟩

theorem Sound.pop (h : b.Sound own given) {c : Context} {cs : List Context}
    (hcontexts : b.contexts = c :: cs) : c.target.Opened ∧
      (∃ k, c.closeAll = .ok k ∧ (own → ∀ x ∈ k.bindings, x.InFrame 0 c.peak.toNat)) ∧
      Sound own { b with contexts := cs } given.tail := by
  obtain ⟨g, gs, rfl, hcurrent, houter⟩ := h.current
  have hopened := h.opened
  obtain ⟨structs, functions, contexts, main⟩ := b
  obtain rfl : contexts = c :: cs := hcontexts
  obtain ⟨hc, hcs⟩ := List.forall_mem_cons.1 hopened
  obtain ⟨k, hclose, hk⟩ := hcurrent.closeAll
  refine ⟨hc, ⟨k, hclose, fun ho x hx => ?_⟩, houter, hcs, h.main, h.functions, h.structs⟩
  exact (Target.spans_iff_inFrame hc.isFrame).1 (hcurrent.within x (hk ho x hx))

theorem Sound.endFunction (h : b.Sound own given) :
    (b.contexts = [] ∨ b.openStruct?.isSome) ∧ b.endFunction = .error .endFunctionOutside ∨
      ∃ b', b.endFunction = .ok b' ∧ b'.contexts = b.contexts.tail ∧ b'.Sound own given.tail := by
  cases hcontexts : b.contexts with
  | nil => exact .inl ⟨.inl rfl, by simp only [Builder.endFunction, hcontexts]⟩
  | cons c cs =>
    obtain ⟨hopened, ⟨k, hclose, hhoused⟩, hpop⟩ := h.pop hcontexts
    cases htarget : c.target with
    | main =>
      rw [htarget] at hopened
      cases hopened
    | initializer id =>
      refine .inl ⟨.inr ?_, ?_⟩
      · simp only [openStruct?, hcontexts, htarget, Option.isSome_some]
      · simp only [Builder.endFunction, hcontexts, htarget]
    | function name params result =>
      rw [htarget] at hopened
      obtain ⟨declared, hparams, hfits⟩ := hopened
      have hf : Function.Settled own ⟨name, params, result, c.peak, k, .none⟩ :=
        ⟨Frame.stacked_of_placed hparams hfits, hhoused⟩
      have hend : b.endFunction = .ok { b with
          contexts := cs
          functions := b.functions ++ [⟨name, params, result, c.peak, k, .none⟩] } := by
        simp only [Builder.endFunction, hcontexts, htarget, hclose, sized, bind, Except.bind, pure,
          Except.pure]
      exact .inr ⟨_, hend, rfl, hpop.contexts, hpop.opened, hpop.main,
        List.forall_mem_append.2 ⟨h.functions, List.forall_mem_singleton.2 hf⟩, hpop.structs⟩
    | method id name params result =>
      rw [htarget] at hopened
      obtain ⟨declared, hparams, hfits⟩ := hopened
      have hf : Function.Settled own ⟨name, params, result, c.peak, k, .none⟩ :=
        ⟨Frame.stacked_of_placed hparams hfits, hhoused⟩
      have hend : b.endFunction = .ok (Builder.editStruct { b with contexts := cs } id fun d =>
          { d with methods := d.methods ++ [⟨name, params, result, c.peak, k, .none⟩] }) := by
        simp only [Builder.endFunction, hcontexts, htarget, hclose, sized, bind, Except.bind, pure,
          Except.pure]
      exact .inr ⟨_, hend, rfl, hpop.editStruct fun d _ hd => ⟨⟨hd.laid.tiles, hd.laid.storage⟩,
        hd.housed, List.forall_mem_append.2 ⟨hd.methods, List.forall_mem_singleton.2 hf⟩⟩⟩

theorem Sound.endStruct (h : b.Sound own given) :
    b.openStruct? = none ∧ b.endStruct = .error .endStructOutside ∨
      ∃ b', b.endStruct = .ok b' ∧ b'.contexts = b.contexts.tail ∧ b'.Sound own given.tail := by
  cases hcontexts : b.contexts with
  | nil => exact .inl ⟨by simp only [openStruct?, hcontexts],
      by simp only [Builder.endStruct, hcontexts]⟩
  | cons c cs =>
    obtain ⟨hopened, ⟨k, hclose, hhoused⟩, hpop⟩ := h.pop hcontexts
    cases htarget : c.target with
    | main | function | method =>
      exact .inl ⟨by simp only [openStruct?, hcontexts, htarget],
        by simp only [Builder.endStruct, hcontexts, htarget]⟩
    | initializer id =>
      have hend : b.endStruct = .ok (Builder.editStruct { b with contexts := cs } id fun d =>
          { d with initializer := k, initializerLocals := c.peak }) := by
        simp only [Builder.endStruct, hcontexts, htarget, hclose, sized, bind, Except.bind, pure,
          Except.pure]
      exact .inr ⟨_, hend, rfl, hpop.editStruct fun d _ hd =>
        ⟨⟨hd.laid.tiles, hd.laid.storage⟩, hhoused, hd.methods⟩⟩

theorem Sound.member (h : b.Sound own given) (name : String) (value : Expr)
    (hfits : ∀ id d, b.openStruct? = some id → b.structs[id.toNat]? = some d →
      d.memberArea.toNat + value.ty.size.toNat < byteLimit) :
    b.member name value = .error .memberOutside ∨
      ∃ x b', b.member name value = .ok (x, b') ∧ b'.Sound own given := by
  have hlimit : byteLimit = 2 ^ 31 - 16 := rfl
  have hbase : Layout.membersOffset.toNat = 16 := rfl
  cases hid : b.openStruct? with
  | none => exact .inl (by simp only [Builder.member, hid]; rfl)
  | some id =>
    refine .inr ?_
    cases hd : b.structs[id.toNat]? with
    | none => exact ⟨_, b, by simp only [Builder.member, hid, hd]; rfl, h⟩
    | some d =>
      have hlt := hfits id d hid hd
      obtain ⟨offset, hoffset⟩ :
          ∃ offset, Word.add Layout.membersOffset d.memberArea = .ok offset :=
        Word.exists_add_iff.2 (by omega)
      obtain ⟨area, harea⟩ : ∃ area, Word.add d.memberArea value.ty.size = .ok area :=
        Word.exists_add_iff.2 (by omega)
      let x : Binding := ⟨name, value.ty, .member offset.toInt32⟩
      let b' := b.editStruct id fun d =>
        { d with memberArea := area, members := d.members ++ [x] }
      have hb' : b'.Sound own given := by
        refine h.editStruct fun d' hd' hsettled => ⟨?_, hsettled.housed, hsettled.methods⟩
        obtain rfl := Option.some.inj (hd'.symm.trans hd)
        exact hsettled.laid.add (Word.toNat_of_add hoffset) (Word.toNat_of_add harea)
          (Word.toNat_of_add harea ▸ hlt)
      refine ⟨x, b'.stmt (.declaration x value), ?_, hb'.stmt fun _ => nofun⟩
      simp only [Builder.member, hid, hd, hoffset, harea, sized, bind, Except.bind]
      rfl

/-! The finished program. -/

theorem Sound.endContext (h : b.Sound own given) (hcontexts : b.contexts ≠ []) :
    ∃ b', b.endContext = .ok b' ∧ b'.contexts = b.contexts.tail ∧ b'.Sound own given.tail := by
  unfold Builder.endContext
  split
  · next hsome =>
    refine h.endStruct.resolve_left fun hend => ?_
    rw [hend.1] at hsome
    cases hsome
  · next hnone =>
    refine h.endFunction.resolve_left fun hend => ?_
    exact hend.1.elim hcontexts hnone

theorem Sound.endContexts {cs : List Context} (h : b.Sound own given) (hcs : b.contexts = cs) :
    ∃ b' given', endContexts cs b = .ok b' ∧ b'.contexts = [] ∧ b'.Sound own given' := by
  induction cs generalizing b given with
  | nil => exact ⟨b, given, rfl, hcs, h⟩
  | cons c cs ih =>
    obtain ⟨b', hend, hrest, hb'⟩ := h.endContext (by simp [hcs])
    rw [hcs, List.tail_cons] at hrest
    obtain ⟨b'', given'', hends, hnil, hb''⟩ := ih hb' hrest
    refine ⟨b'', given'', ?_, hnil, hb''⟩
    simp only [Builder.endContexts, hend, bind, Except.bind, hends]

theorem Sound.finish (h : b.Sound own given) : ∃ p, b.finish = .ok p ∧
    (∀ f ∈ p.functions, f.Settled own) ∧ (∀ d ∈ p.structs, d.Settled own) ∧
    (own → ∀ x ∈ p.main.bindings, x.InGlobals 0 p.globalSize.toNat) := by
  obtain ⟨b', given', hends, hnil, hb'⟩ := h.endContexts rfl
  obtain ⟨g, gs, -, hcurrent, -⟩ := hb'.current
  have hmain : b'.current = b'.main := by rw [Builder.current, hnil, List.headD_nil]
  rw [hmain] at hcurrent
  obtain ⟨k, hclose, hk⟩ := hcurrent.closeAll
  refine ⟨⟨b'.main.peak, b'.structs, b'.functions, k⟩, ?_, hb'.functions, hb'.structs,
    fun ho x hx => ?_⟩
  · simp only [Builder.finish, hends, hclose, sized, bind, Except.bind, pure, Except.pure]
  · have hspans := hcurrent.within x (hk ho x hx)
    rw [hb'.main] at hspans
    exact (Target.spans_iff_inGlobals rfl).1 hspans

end Builder
end IntervalStack
