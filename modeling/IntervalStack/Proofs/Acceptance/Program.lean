import IntervalStack.Proofs.Acceptance.Expr
import IntervalStack.Proofs.Totality.Sizes

/-! Rules for statements and programs under which none is refused. -/

namespace IntervalStack

namespace Surroundings

def printsStruct (p : Surroundings) (id : StructId) : Bool :=
  (p.program.struct? id).any fun d => d.printer.all fun name => (d.method? name).any (·.params.isEmpty)

def prints (p : Surroundings) (ty : Ty) : Bool :=
  match ty with
  | .interval sub => sub.base.isScalar
  | .struct id => p.printsStruct id
  | ty => ty.isScalar

mutual

def blockFits (p : Surroundings) : Block → Bool
  | ⟨_, ss⟩ => p.stmtsFit ss

def stmtsFit (p : Surroundings) : List LocatedStmt → Bool
  | [] => true
  | ⟨node, _⟩ :: rest => p.stmtFits node && p.stmtsFit rest

def stmtFits (p : Surroundings) : Stmt → Bool
  | .declaration b e => p.exprFits e && e.ty = b.ty && p.isValue b.ty && p.reaches b
  | .update target e =>
    p.exprFits target && target.isPath && p.exprFits e && e.ty = target.ty && p.isValue target.ty
  | .print items _ _ => items.all fun e => p.exprFits e && p.prints e.ty
  | .ifElse cond yes none => p.exprFits cond && p.isValue cond.ty && p.blockFits yes
  | .ifElse cond yes (some no) =>
    p.exprFits cond && p.isValue cond.ty && p.blockFits yes && p.blockFits no
  | .loop cond body =>
    p.exprFits cond && p.isValue cond.ty && blockFits { p with inLoop := true } body
  | .leave => p.inLoop
  | .ret none => p.returns = some .void
  | .ret (some e) => p.exprFits e && e.ty ≠ .void && p.returns = some e.ty
  | .call e => p.exprFits e
  | .block b => p.blockFits b

end

end Surroundings

namespace Program

def inRoutine (p : Program) (hasSelf : Bool) (result : Ty) (voids : Bool) : Surroundings :=
  ⟨p, hasSelf, some result, false, voids⟩

/-- The program keeps to the rules. With `voids`, a variable, an argument or a condition may also be
of the type of what yields nothing. -/
def wellFormed (p : Program) (voids : Bool) : Bool :=
  Surroundings.blockFits ⟨p, false, none, false, voids⟩ p.main &&
    p.functions.all (fun f =>
      f.params.all (p.inRoutine false f.returnType voids).reaches &&
        (p.inRoutine false f.returnType voids).blockFits f.body) &&
    p.structs.all fun d => (p.inRoutine true .void voids).blockFits d.initializer &&
      d.methods.all fun f => (p.inRoutine true f.returnType voids).blockFits f.body

/-- Ids and sizes are below 2^30; the parameters of a routine are counted with the header of its frame
and the record of a method. -/
structure Small (p : Program) : Prop where
  structs : ∀ d ∈ p.structs, d.id.toNat < 2 ^ 30 ∧ d.memberArea.toNat < 2 ^ 30 ∧
    d.initializerLocals.toNat < 2 ^ 30
  functions : ∀ f ∈ p.functions, f.localsSize.toNat < 2 ^ 30 ∧ 12 + f.paramBytes ≤ 2 ^ 30
  methods : ∀ d ∈ p.structs, ∀ f ∈ d.methods,
    f.localsSize.toNat < 2 ^ 30 ∧ 12 + f.paramBytes ≤ 2 ^ 30

instance (p : Program) : Decidable p.Small :=
  decidable_of_iff (_ ∧ _ ∧ _) ⟨fun ⟨h₁, h₂, h₃⟩ => ⟨h₁, h₂, h₃⟩, fun ⟨h₁, h₂, h₃⟩ => ⟨h₁, h₂, h₃⟩⟩

theorem Small.sizesFit {p : Program} (h : p.Small) : p.SizesFit := by
  refine ⟨fun d hd => ?_, fun f hf => ?_, fun d hd => ?_, fun d hd f hf => ?_⟩
  · have hsmall := h.structs d hd
    exact ⟨by omega, by omega⟩
  · have hsmall := h.functions f hf
    exact ⟨by omega, by omega, by omega⟩
  · have hsmall := h.structs d hd
    exact ⟨by omega, by omega, by omega⟩
  · have hsmall := h.methods d hd f hf
    exact ⟨by omega, by omega, by omega⟩

end Program

namespace Generator

variable {ctx : Context} {p : Surroundings} {span : Span} {e : Expr} {program : Program}
  {structs : StructTable}

/-! What the end of a scope needs. -/

theorem clearReferences_succeeds {bs : List Binding}
    (h : ∀ b ∈ bs, Succeeds (bindingAddress ctx b span)) : Succeeds (clearReferences ctx span bs) := by
  induction bs with
  | nil => exact .pure trivial
  | cons b bs ih =>
    rw [List.forall_mem_cons] at h
    exact h.1.bind fun _ _ => (ih h.2).map fun _ _ => trivial

theorem releaseBindings_succeeds {bs : List Binding}
    (h : ∀ b ∈ bs, Succeeds (bindingAddress ctx b span)) : Succeeds (releaseBindings ctx span bs) := by
  induction bs with
  | nil => exact .pure trivial
  | cons b bs ih =>
    rw [List.forall_mem_cons] at h
    refine h.1.bind fun _ _ => notePush_succeeds.bind fun _ _ => ?_
    exact (ih h.2).map fun _ _ => trivial

theorem owned_succeeds (ctx : Context) (span : Span) (scope : Scope) :
    ∀ b ∈ scope.owned, Succeeds (bindingAddress ctx b span) := by
  intro b hb
  refine bindingAddress_succeeds fun hm => ?_
  have hown := (List.mem_filter.1 hb).2
  simp [Binding.isOwned, hm] at hown

theorem releaseScopes_succeeds (ss : List OpenScope) : Succeeds (releaseScopes ctx span ss) := by
  induction ss with
  | nil => exact .pure trivial
  | cons s ss ih =>
    refine (releaseBindings_succeeds (owned_succeeds ctx span s.scope)).bind fun _ _ => ?_
    exact ih.map fun _ _ => trivial

theorem releaseDownTo_succeeds (depth : Nat) : Succeeds (releaseDownTo ctx depth span) :=
  Yields.get.bind fun _ _ => (releaseScopes_succeeds _).map fun _ _ => trivial

/-! Printing. -/

theorem discard_succeeds (f : Fragment) (ty : Ty) : Succeeds (discard f ty) := by
  unfold discard
  split
  · exact .pure trivial
  · exact .pure trivial
  · split
    · exact notePush_succeeds.map fun _ _ => trivial
    · exact .pure trivial

theorem printScalar_succeeds (k : ScalarKind) : Succeeds (printScalar k) := by
  cases k with
  | bool => exact (Yields.fresh _).map fun _ _ => trivial
  | char | int | float => exact .pure trivial

theorem printInterval_succeeds (code : Code) (fresh : Bool) (k : ScalarKind) :
    Succeeds (printInterval code fresh k) := by
  refine (Yields.modify _).bind fun _ _ => ?_
  split
  · exact notePush_succeeds.map fun _ _ => trivial
  · exact .pure trivial

theorem printStruct_succeeds (h : Hosts ctx p) {id : StructId} (hid : p.printsStruct id = true)
    (code : Code) (fresh : Bool) : Succeeds (printStruct ctx code fresh id span) := by
  obtain ⟨d, hd, hprinter⟩ := (Option.any_eq_true _ _).1 hid
  refine (h.structOf hd).bind ?_
  rintro _ rfl
  split
  · next name hname =>
    rw [hname, Option.all_some] at hprinter
    obtain ⟨callee, hcallee, hparams⟩ := (Option.any_eq_true _ _).1 hprinter
    have hmethod : p.method? (.struct id) name = some callee :=
      Option.bind_eq_some_iff.2 ⟨_, hd, hcallee⟩
    refine (h.methodOf hmethod).bind ?_
    rintro ⟨_, typeCode⟩ rfl
    refine (checkArity_succeeds (by simpa using hparams)).bind fun _ _ => ?_
    refine (notePush_succeeds.map (Q := fun _ => True) fun _ _ => trivial).bind fun f _ => ?_
    exact discard_succeeds f _
  · refine (h.layoutOf (by rw [Surroundings.defines, hd]; rfl)).bind fun s _ => ?_
    split
    · exact notePush_succeeds.map fun _ _ => trivial
    · exact .pure trivial

theorem printItem_succeeds (h : Hosts ctx p) (he : p.exprFits e = true) (hp : p.prints e.ty = true) :
    Succeeds (printItem ctx e) := by
  have hvoid : e.ty ≠ .void := by
    rintro hv
    rw [hv] at hp
    cases hp
  have hcode := expr_suits h e he
  unfold printItem
  split
  · refine hcode.bind fun f hf => (hf.valueOf hvoid).bind fun _ _ => ?_
    exact (printScalar_succeeds _).map fun _ _ => trivial
  · next hscalar =>
    refine hcode.bind fun f hf => (hf.valueOf hvoid).bind fun _ _ => ?_
    cases hty : e.ty with
    | interval sub =>
      obtain ⟨k, hk⟩ : ∃ k, ScalarKind.of? sub.base = some k :=
        Option.isSome_iff_exists.1 (by rwa [hty] at hp)
      have hbase : (Ty.interval sub).base = sub.base := rfl
      simp only [hbase, hk]
      exact printInterval_succeeds _ _ k
    | struct id =>
      rw [hty] at hp
      exact printStruct_succeeds h hp _ _
    | void => exact absurd hty hvoid
    | _ =>
      rw [hty] at hscalar
      cases hscalar

theorem printSpaced_succeeds (h : Hosts ctx p) (space : Code) {es : List Expr}
    (hes : ∀ e ∈ es, p.exprFits e = true ∧ p.prints e.ty = true) :
    Succeeds (printSpaced ctx space es) := by
  induction es with
  | nil => exact .pure trivial
  | cons e es ih =>
    rw [List.forall_mem_cons] at hes
    refine (printItem_succeeds h hes.1.1 hes.1.2).bind fun _ _ => ?_
    exact (ih hes.2).map fun _ _ => trivial

theorem print_succeeds (h : Hosts ctx p) {es : List Expr} (spaces newline : Bool)
    (hes : ∀ e ∈ es, p.exprFits e = true ∧ p.prints e.ty = true) :
    Succeeds (print ctx es spaces newline) := by
  refine Yields.map (P := fun _ => True) ?_ fun _ _ => trivial
  cases es with
  | nil => exact .pure trivial
  | cons e es =>
    rw [List.forall_mem_cons] at hes
    refine (printItem_succeeds h hes.1.1 hes.1.2).bind fun _ _ => ?_
    exact (printSpaced_succeeds h _ hes.2).map fun _ _ => trivial

/-! Statements. -/

structure Carries (ctx : Context) (p : Surroundings) : Prop extends Hosts ctx p where
  returns : ∀ ty, p.returns = some ty → ∃ r, ctx.routine = some r ∧ r.returnType = ty
  loop : p.inLoop = true → ∃ l, ctx.loop = some l

theorem Carries.enter (h : Carries ctx p) (scope : Scope) (pushed : Bool) :
    Carries (ctx.enter scope pushed) p :=
  ⟨⟨h.program, h.layouts, h.self, h.voids⟩, h.returns, h.loop⟩

theorem Carries.inLoop (h : Carries ctx p) (l : Loop) :
    Carries { ctx with loop := some l } { p with inLoop := true } :=
  ⟨⟨h.program, h.layouts, h.self, h.voids⟩, h.returns, fun _ => ⟨l, rfl⟩⟩

theorem declare_succeeds (h : Hosts ctx p) {b : Binding} (he : p.exprFits e = true)
    (hty : e.ty = b.ty) (hvalue : p.isValue b.ty = true) (hb : p.reaches b = true) :
    Succeeds (declare ctx b e span) := by
  have hvoid := h.ne_void hvalue
  refine (Yields.shaped (exists_storeOf hvoid)).bind fun _ _ => (h.bindingAddress hb).bind fun _ _ => ?_
  refine (expr_suits h e he).bind fun f hf => ?_
  exact (hf.ownedValueOf (hty ▸ hvoid)).map fun _ _ => trivial

theorem update_succeeds (h : Hosts ctx p) {target : Expr} (ht : p.exprFits target = true)
    (hpath : target.isPath = true) (he : p.exprFits e = true) (hty : e.ty = target.ty)
    (hvalue : p.isValue target.ty = true) : Succeeds (update ctx target e span) := by
  have hvoid := h.ne_void hvalue
  refine (Yields.shaped (exists_storeOf hvoid)).bind fun _ _ => ?_
  refine (expr_suits h e he).bind fun f hf => (hf.ownedValueOf (hty ▸ hvoid)).bind fun _ _ => ?_
  refine (expr_suits h target ht).bind fun f hf => ?_
  have haddress : f.isAddress = true := hf.address.trans hpath
  refine (Yields.require (by rw [haddress, Bool.true_or])).bind fun _ _ => ?_
  refine (Yields.shaped ⟨f.code, if_pos (of_decide_eq_true haddress)⟩).bind fun _ _ => ?_
  split
  · exact notePush_succeeds.map fun _ _ => trivial
  · exact .pure trivial

theorem loopCondition_succeeds (h : Hosts ctx p) (he : p.exprFits e = true)
    (hvalue : p.isValue e.ty = true) : Succeeds (loopCondition ctx e) := by
  refine Yields.get.bind fun _ _ => (Yields.modify _).bind fun _ _ => ?_
  refine (expr_suits h e he).bind fun f hf => (hf.valueOf (h.ne_void hvalue)).bind fun _ _ => ?_
  exact Yields.get.bind fun _ _ => (Yields.modify _).map fun _ _ => trivial

theorem leaveRoutine_succeeds (h : Carries ctx p) {ty : Ty} {result : Option Expr}
    (hreturns : p.returns = some ty)
    (hresult : ∀ r, r.returnType = ty → Succeeds (returnValue ctx r result span)) :
    Succeeds (leaveRoutine ctx result span) := by
  obtain ⟨r, hr, hty⟩ := h.returns ty hreturns
  rw [leaveRoutine, hr]
  refine (hresult r hty).bind fun _ _ => (releaseDownTo_succeeds 0).bind fun _ _ => ?_
  exact (Yields.modify _).map fun _ _ => trivial

mutual

theorem block_succeeds (force : Bool) : (b : Block) → {ctx : Context} → {p : Surroundings} →
    Carries ctx p → p.blockFits b = true → Succeeds (block ctx force b)
  | ⟨scope, body⟩, ctx, p, h, hb => by
    rw [Surroundings.blockFits] at hb
    have howned := owned_succeeds ctx (blockSpan body) scope
    rw [block]
    refine (clearReferences_succeeds howned).bind fun _ _ => Yields.get.bind fun s _ => ?_
    refine (Yields.modify _).bind fun _ _ => ?_
    refine (stmts_succeed body (h.enter scope s.pushed) hb).bind fun _ _ => ?_
    refine (releaseBindings_succeeds howned).bind fun _ _ => Yields.get.bind fun _ _ => ?_
    exact (Yields.modify _).map fun _ _ => trivial

theorem stmts_succeed : (ss : List LocatedStmt) → {ctx : Context} → {p : Surroundings} →
    Carries ctx p → p.stmtsFit ss = true → Succeeds (stmts ctx ss)
  | [], _, _, _, _ => by
    rw [stmts]
    exact .pure trivial
  | ⟨node, span⟩ :: rest, ctx, p, h, hs => by
    rw [Surroundings.stmtsFit, Bool.and_eq_true] at hs
    rw [stmts, locatedStmt]
    refine (stmt_succeeds span node h hs.1).bind fun _ _ => ?_
    exact (stmts_succeed rest h hs.2).map fun _ _ => trivial

theorem stmt_succeeds (span : Span) : (node : Stmt) → {ctx : Context} → {p : Surroundings} →
    Carries ctx p → p.stmtFits node = true → Succeeds (stmt ctx span node)
  | .declaration b e, ctx, p, h, hs => by
    simp only [Surroundings.stmtFits, Bool.and_eq_true, decide_eq_true_eq] at hs
    obtain ⟨⟨⟨he, hty⟩, hvalue⟩, hb⟩ := hs
    rw [stmt]
    exact declare_succeeds h.toHosts he hty hvalue hb
  | .update target e, ctx, p, h, hs => by
    simp only [Surroundings.stmtFits, Bool.and_eq_true, decide_eq_true_eq] at hs
    obtain ⟨⟨⟨⟨ht, hpath⟩, he⟩, hty⟩, hvalue⟩ := hs
    rw [stmt]
    exact update_succeeds h.toHosts ht hpath he hty hvalue
  | .print items spaces newline, ctx, p, h, hs => by
    simp only [Surroundings.stmtFits, List.all_eq_true, Bool.and_eq_true] at hs
    rw [stmt]
    exact print_succeeds h.toHosts spaces newline hs
  | .ifElse cond yes none, ctx, p, h, hs => by
    simp only [Surroundings.stmtFits, Bool.and_eq_true] at hs
    obtain ⟨⟨hc, hvalue⟩, hyes⟩ := hs
    rw [stmt]
    refine (Yields.fresh _).bind fun _ _ => (expr_suits h.toHosts cond hc).bind fun f hf => ?_
    refine (hf.valueOf (h.ne_void hvalue)).bind fun _ _ => ?_
    exact (block_succeeds false yes h hyes).map fun _ _ => trivial
  | .ifElse cond yes (some no), ctx, p, h, hs => by
    simp only [Surroundings.stmtFits, Bool.and_eq_true] at hs
    obtain ⟨⟨⟨hc, hvalue⟩, hyes⟩, hno⟩ := hs
    rw [stmt]
    refine (Yields.fresh _).bind fun _ _ => (expr_suits h.toHosts cond hc).bind fun f hf => ?_
    refine (hf.valueOf (h.ne_void hvalue)).bind fun _ _ => ?_
    refine (block_succeeds false yes h hyes).bind fun _ _ => ?_
    exact (block_succeeds false no h hno).map fun _ _ => trivial
  | .loop cond body, ctx, p, h, hs => by
    simp only [Surroundings.stmtFits, Bool.and_eq_true] at hs
    obtain ⟨⟨hc, hvalue⟩, hbody⟩ := hs
    rw [stmt]
    refine (Yields.fresh _).bind fun _ _ => (loopCondition_succeeds h.toHosts hc hvalue).bind fun r _ => ?_
    exact (block_succeeds r.2 body (h.inLoop _) hbody).map fun _ _ => trivial
  | .leave, ctx, p, h, hs => by
    obtain ⟨l, hl⟩ := h.loop hs
    rw [stmt, leaveLoop, hl]
    exact (releaseDownTo_succeeds _).map fun _ _ => trivial
  | .ret none, ctx, p, h, hs => by
    rw [stmt]
    refine leaveRoutine_succeeds h (of_decide_eq_true hs) fun r hr => ?_
    rw [returnValue, if_pos hr]
    exact .pure trivial
  | .ret (some e), ctx, p, h, hs => by
    simp only [Surroundings.stmtFits, Bool.and_eq_true, decide_eq_true_eq] at hs
    obtain ⟨⟨he, hvoid⟩, hreturns⟩ := hs
    rw [stmt]
    refine leaveRoutine_succeeds h hreturns fun r hr => ?_
    rw [returnValue, if_neg (by rwa [hr])]
    exact (expr_suits h.toHosts e he).bind fun f hf => hf.ownedValueOf hvoid
  | .call e, ctx, p, h, hs => by
    rw [Surroundings.stmtFits] at hs
    rw [stmt]
    exact (expr_suits h.toHosts e hs).bind fun f _ => discard_succeeds f e.ty
  | .block b, ctx, p, h, hs => by
    rw [Surroundings.stmtFits] at hs
    rw [stmt]
    exact block_succeeds false b h hs

end

/-! Routines and programs. -/

theorem sized_succeeds {α : Type} {P : α → Prop} {r : Except Overflow α} (h : ∃ a, r = .ok a ∧ P a) :
    Yields P (sized r) := by
  obtain ⟨a, rfl, ha⟩ := h
  exact .pure ha

theorem routine_succeeds (hs : ∀ d ∈ program.structs, ∃ l, structs.get? d.id = some l)
    {spec : RoutineSpec} {u : Surroundings}
    (hu : u = program.inRoutine spec.selfSlot.isSome spec.returnType false) (hfits : spec.Fits)
    (hparams : ∀ b ∈ spec.params, u.reaches b = true) (hbody : u.blockFits spec.body = true) :
    Succeeds (routine program structs spec) := by
  obtain ⟨⟨_, hprologue⟩, ⟨_, hepilogue⟩⟩ := RoutineSpec.fits_iff.1 hfits
  refine (Yields.fresh _).bind fun exit _ => (Yields.modify _).bind fun _ _ => ?_
  have h : Carries ⟨program, structs, some ⟨exit, spec.returnType, spec.selfSlot⟩, none, none, []⟩
      u := by
    subst hu
    exact ⟨⟨rfl, hs, Option.isSome_iff_exists.1, rfl⟩, fun ty hty => ⟨_, rfl, Option.some.inj hty⟩,
      nofun⟩
  have howned : ∀ b ∈ spec.params.filter (·.ty.isHeap), Succeeds (bindingAddress _ b .none) :=
    fun b hb => h.bindingAddress (hparams b (List.mem_filter.1 hb).1)
  refine (sized_succeeds (P := fun _ => True) ⟨_, hprologue, trivial⟩).bind fun _ _ => ?_
  refine (block_succeeds false spec.body h hbody).bind fun _ _ => ?_
  refine (releaseBindings_succeeds howned).bind fun _ _ => Yields.get.bind fun _ _ => ?_
  exact (sized_succeeds (P := fun _ => True) ⟨_, hepilogue, trivial⟩).map fun _ _ => trivial

theorem each_succeeds {make : Function → Except Overflow RoutineSpec} {fs : List Function}
    (h : ∀ f ∈ fs, ∃ spec, make f = .ok spec ∧ Succeeds (routine program structs spec)) :
    Succeeds (each program structs make fs) := by
  induction fs with
  | nil => exact .pure trivial
  | cons f fs ih =>
    rw [List.forall_mem_cons] at h
    obtain ⟨⟨spec, hspec, hroutine⟩, hrest⟩ := h
    rw [each, hspec, sized, pure_bind]
    exact hroutine.bind fun _ _ => (ih hrest).map fun _ _ => trivial

theorem functions_succeed (hs : ∀ d ∈ program.structs, ∃ l, structs.get? d.id = some l)
    (hfits : program.SizesFit)
    (hp : ∀ f ∈ program.functions,
      (∀ b ∈ f.params, (program.inRoutine false f.returnType false).reaches b = true) ∧
        (program.inRoutine false f.returnType false).blockFits f.body = true) :
    Succeeds (functions program structs program.functions) := by
  rw [functions_eq_each]
  refine each_succeeds fun f hf => ?_
  obtain ⟨spec, hspec, hspecFits⟩ := (functionSpec_fits_iff f).2 (hfits.functions f hf)
  refine ⟨spec, hspec, ?_⟩
  obtain ⟨n, -, hn⟩ := Word.bind_eq_ok_iff.1 hspec
  obtain rfl := Except.ok.inj hn
  exact routine_succeeds hs rfl hspecFits (hp f hf).1 (hp f hf).2

theorem structRoutines_succeed (hs : ∀ d ∈ program.structs, ∃ l, structs.get? d.id = some l)
    (hfits : program.SizesFit) {ds : List StructDef} (hsub : ∀ d ∈ ds, d ∈ program.structs)
    (hp : ∀ d ∈ ds, (program.inRoutine true .void false).blockFits d.initializer = true ∧
      ∀ f ∈ d.methods, (program.inRoutine true f.returnType false).blockFits f.body = true) :
    Succeeds (structRoutines program structs ds) := by
  induction ds with
  | nil => exact .pure trivial
  | cons d ds ih =>
    rw [List.forall_mem_cons] at hp hsub
    obtain ⟨⟨hinit, hmethods⟩, hrest⟩ := hp
    obtain ⟨l, hl⟩ := hs d hsub.1
    rw [structRoutines, layoutOf, hl, pure_bind]
    have hinitializer : Succeeds (routine program structs (initializerSpec l.typeCode d)) :=
      routine_succeeds hs rfl (hfits.initializers d hsub.1) (List.forall_mem_nil _) hinit
    refine hinitializer.bind fun _ _ => ?_
    rw [methods_eq_each]
    refine (each_succeeds fun f hf => ?_).bind fun _ _ => (ih hsub.2 hrest).map fun _ _ => trivial
    obtain ⟨spec, hspec, hspecFits⟩ := (methodSpec_fits_iff l.typeCode f).2 (hfits.methods d hsub.1 f hf)
    refine ⟨spec, hspec, ?_⟩
    obtain ⟨n, -, hn⟩ := Word.bind_eq_ok_iff.1 hspec
    obtain ⟨size, -, hn⟩ := Word.bind_eq_ok_iff.1 hn
    obtain rfl := Except.ok.inj hn
    exact routine_succeeds hs rfl hspecFits (fun _ _ => Bool.or_true _) (hmethods f hf)

theorem intervalPrinters_succeed (ks : List ScalarKind) : Succeeds (intervalPrinters ks) := by
  induction ks with
  | nil => exact .pure trivial
  | cons k ks ih =>
    have hprinter : Succeeds (intervalPrinter k) :=
      (Yields.fresh _).bind fun _ _ => (printScalar_succeeds k).bind fun _ _ =>
        (printScalar_succeeds k).map fun _ _ => trivial
    exact hprinter.bind fun _ _ => ih.map fun _ _ => trivial

theorem wholeProgram_succeeds (counter : RefCounter)
    (hs : ∀ d ∈ program.structs, ∃ l, structs.get? d.id = some l) (hfits : program.SizesFit)
    (hp : program.wellFormed false = true) : Succeeds (wholeProgram counter program structs) := by
  simp only [Program.wellFormed, Bool.and_eq_true, List.all_eq_true] at hp
  obtain ⟨⟨hmain, hfunctions⟩, hstructs⟩ := hp
  have h : Carries ⟨program, structs, none, none, none, []⟩ ⟨program, false, none, false, false⟩ :=
    ⟨⟨rfl, hs, nofun, rfl⟩, nofun, nofun⟩
  refine (block_succeeds false _ h hmain).bind fun _ _ => ?_
  refine (functions_succeed hs hfits hfunctions).bind fun _ _ => ?_
  refine (structRoutines_succeed hs hfits (fun _ hd => hd) hstructs).bind fun _ _ => ?_
  exact Yields.get.bind fun _ _ => (intervalPrinters_succeed _).map fun _ _ => trivial

/-- A program that keeps to the rules, where void is no type of values, is given code. Its expressions
are then given fragments that leave an address for variables, the record at work and the parts of what
leaves an address, and for nothing else. -/
theorem wellFormed_programs_are_accepted {capacity : UInt32}
    (hcapacity : 0 < capacity ∧ capacity ≤ RefCounter.maxCapacity) (hsizes : program.Small)
    (hp : program.wellFormed false = true) :
    (∃ code, generate program capacity = .ok code) ∧
      ∀ (u : Surroundings) (ctx : Context) (e : Expr), u.program = program → u.voids = false →
        ctx.program = program → StructTable.ofProgram program = .ok ctx.structs →
        (u.hasSelf = true → ctx.selfSlot.isSome = true) → u.exprFits e = true →
        ∀ s, ∃ f s', expr ctx e s = .ok (f, s') ∧ (f.isAddress = true ↔ e.isPath = true) := by
  have hfits := hsizes.sizesFit
  constructor
  · obtain ⟨structs, hs⟩ := StructTable.exists_ofProgram_iff.2 hfits.records
    have hc : RefCounter.ofCapacity? capacity = some ⟨capacity, hcapacity.1, hcapacity.2⟩ :=
      dif_pos hcapacity
    obtain ⟨code, s', hw, -⟩ := wholeProgram_succeeds ⟨capacity, hcapacity.1, hcapacity.2⟩
      (fun d hd => StructTable.ofProgram_get? hs hd) hfits hp .initial
    exact ⟨code, by rw [generate_eq hc hs, hw]; rfl⟩
  · rintro u ctx e rfl hvoids hprogram hs hself he s
    have h : Hosts ctx u := ⟨hprogram, fun d hd => StructTable.ofProgram_get? hs hd,
      fun hu => Option.isSome_iff_exists.1 (hself hu), hvoids⟩
    obtain ⟨f, s', hf, hsuits⟩ := expr_suits h e he s
    exact ⟨f, s', hf, by rw [hsuits.address]⟩

def boxDef : StructDef :=
  let span : Binding := ⟨"span", .interval .int, .member 16⟩
  let held : Expr := .field (.self 5) span
  ⟨5, "box", [span], 4, 0, ⟨.empty, [⟨.declaration span (.interval (.int 1) (.int 9)), .none⟩]⟩,
    [⟨"show", [], .void, 0, ⟨.empty, [⟨.print [.bound held .low] false true, .none⟩]⟩, .none⟩,
      ⟨"open", [], .interval .int, 0, ⟨.empty, [⟨.ret (some held), .none⟩]⟩, .none⟩], some "show", .none⟩

def boxVariable : Expr := .ident ⟨"box", .struct 5, .global 0⟩

def openedBox : Expr := .methodCall boxVariable "open" [] (.interval .int)

/-- The box is changed in place, what comes out of it is searched in a loop, and a bound is read off an
interval that no variable holds. -/
def unboxing : Program :=
  let held : Expr := .field boxVariable ⟨"span", .interval .int, .member 16⟩
  let x : Expr := .ident ⟨"x", .interval .int, .aboveFrame 0⟩
  ⟨4, [boxDef],
    [⟨"search", [⟨"x", .interval .int, .aboveFrame 0⟩], .int, 0, ⟨.empty,
      [⟨.loop (.bool true) ⟨.empty,
          [⟨.ifElse (.binary .less (.bound x .low) (.int 3)) ⟨.empty, [⟨.leave, .none⟩]⟩
            (some ⟨.empty, [⟨.ret (some (.bound x .high)), .none⟩]⟩), .none⟩]⟩, .none⟩,
        ⟨.ret (some (.int 0)), .none⟩]⟩, .none⟩],
    ⟨⟨4, [⟨"box", .struct 5, .global 0⟩]⟩,
      [⟨.declaration ⟨"box", .struct 5, .global 0⟩ (.new 5), .none⟩,
        ⟨.update (.bound held .low) (.bound openedBox .high), .none⟩,
        ⟨.print [boxVariable, held, .call "search" [openedBox] .int] true true, .none⟩]⟩⟩

theorem wellFormed_programs_are_accepted_unboxing :
    unboxing.Small ∧ unboxing.wellFormed false = true ∧
      (∃ code, generate unboxing 16 = .ok code) ∧
      ∀ structs, StructTable.ofProgram unboxing = .ok structs → ∀ s, ∃ f s',
        expr ⟨unboxing, structs, none, none, none, []⟩ (.bound openedBox .high) s = .ok (f, s') ∧
          f.isAddress = false := by
  have hsmall : unboxing.Small := by decide
  have hp : unboxing.wellFormed false = true := by decide
  have hcapacity : (0 : UInt32) < 16 ∧ 16 ≤ RefCounter.maxCapacity := by decide
  obtain ⟨hcode, hexpr⟩ := wellFormed_programs_are_accepted hcapacity hsmall hp
  refine ⟨hsmall, hp, hcode, fun structs hs s => ?_⟩
  obtain ⟨f, s', hf, haddress⟩ := hexpr ⟨unboxing, false, none, false, false⟩
    ⟨unboxing, structs, none, none, none, []⟩ (.bound openedBox .high) rfl rfl rfl hs nofun
    (by decide) s
  exact ⟨f, s', hf, Bool.eq_false_iff.2 fun h => absurd (haddress.1 h) (by decide)⟩

/-- A variable that is to hold what a function without a result yields. -/
def voidVariable : Program :=
  let x : Binding := ⟨"x", .void, .global 0⟩
  ⟨0, [], [⟨"f", [], .void, 0, .empty, .none⟩],
    ⟨⟨0, [x]⟩, [⟨.declaration x (.call "f" [] .void), .none⟩]⟩⟩

/-- The rules are not enough where void passes for a type of values. -/
theorem voidVariable_is_refused :
    voidVariable.Small ∧ voidVariable.wellFormed true = true ∧
      generate voidVariable 16 = .error (.refused (.fragment (.unloadable .void)) .none) :=
  ⟨by decide, by decide, rfl⟩

end Generator
end IntervalStack
