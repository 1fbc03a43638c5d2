import IntervalStack.Proofs.Linking.Names
import IntervalStack.Proofs.Totality.Steps

/-! Generation ends with code or with a refusal, except where the sizes of frames or records leave
their words. -/

namespace IntervalStack

/-- The frame of a routine, with its header of eight bytes, is a size; the stack pointer can be moved
down by the locals, and up again but for the result. -/
def FrameFits (locals params : Nat) (result : Ty) : Prop :=
  8 + locals + params < 2 ^ 32 ∧ 8 + locals ≠ 2 ^ 31 ∧
    (8 + locals + params < 2 ^ 31 ∨ 2 ^ 31 + result.size.toNat ≤ 8 + locals + params)

instance (locals params : Nat) (result : Ty) : Decidable (FrameFits locals params result) :=
  inferInstanceAs (Decidable (_ ∧ _ ∧ (_ ∨ _)))

def Function.paramBytes (f : Function) : Nat := (f.params.map (·.ty.size.toNat)).sum

def StructDef.RecordFits (d : StructDef) : Prop :=
  (d.id.toNat < 2 ^ 31 - 16 ∨ 2 ^ 31 ≤ d.id.toNat) ∧ 16 + d.memberArea.toNat < 2 ^ 32

instance (d : StructDef) : Decidable d.RecordFits := inferInstanceAs (Decidable ((_ ∨ _) ∧ _))

structure Program.SizesFit (p : Program) : Prop where
  records : ∀ d ∈ p.structs, d.RecordFits
  functions : ∀ f ∈ p.functions, FrameFits f.localsSize.toNat f.paramBytes f.returnType
  initializers : ∀ d ∈ p.structs, FrameFits d.initializerLocals.toNat 4 .void
  methods : ∀ d ∈ p.structs, ∀ f ∈ d.methods,
    FrameFits f.localsSize.toNat (f.paramBytes + 4) f.returnType

instance (p : Program) : Decidable p.SizesFit :=
  decidable_of_iff (_ ∧ _ ∧ _ ∧ _)
    ⟨fun ⟨h₁, h₂, h₃, h₄⟩ => ⟨h₁, h₂, h₃, h₄⟩, fun ⟨h₁, h₂, h₃, h₄⟩ => ⟨h₁, h₂, h₃, h₄⟩⟩

theorem StructLayout.exists_ofDef_iff {d : StructDef} : (∃ l, ofDef d = .ok l) ↔ d.RecordFits := by
  have hint := Word.toInt_toInt32 d.id
  have hlt := UInt32.toNat_lt d.id
  have hfirst : Layout.firstStructCode.toInt = 16 := rfl
  have hoffset : Layout.membersOffset.toNat = 16 := rfl
  have hcode : Word.fitsSigned (16 + d.id.toInt32.toInt) = true ↔
      d.id.toNat < 2 ^ 31 - 16 ∨ 2 ^ 31 ≤ d.id.toNat := by
    rw [Word.fitsSigned, Bool.and_eq_true, decide_eq_true_eq, decide_eq_true_eq, hint]
    split
    all_goals omega
  simp only [ofDef_eq_ok_iff, hfirst, hoffset, hcode, exists_and_left, exists_eq, and_true]
  rfl

theorem StructTable.exists_foldlM_iff (ds : List StructDef) (ls : List StructLayout) :
    (∃ r, ds.foldlM (fun ls d => return insert (← StructLayout.ofDef d) ls) ls
      = (.ok r : Except Overflow _)) ↔ ∀ d ∈ ds, ∃ l, StructLayout.ofDef d = .ok l := by
  induction ds generalizing ls with
  | nil => simp [pure, Except.pure]
  | cons d ds ih =>
    rw [List.foldlM_cons, List.forall_mem_cons]
    cases h : StructLayout.ofDef d with
    | error e => simp [bind, Except.bind]
    | ok l => simpa [bind, Except.bind, pure, Except.pure] using ih (insert l ls)

theorem StructTable.exists_ofProgram_iff {p : Program} :
    (∃ t, ofProgram p = .ok t) ↔ ∀ d ∈ p.structs, d.RecordFits := by
  simp only [← StructLayout.exists_ofDef_iff]
  rw [← exists_foldlM_iff _ []]
  constructor
  · rintro ⟨t, h⟩
    obtain ⟨ls, hls, -⟩ := Word.bind_eq_ok_iff.1 h
    exact ⟨ls, hls⟩
  · rintro ⟨ls, hls⟩
    exact ⟨⟨ls⟩, Word.bind_eq_ok_iff.2 ⟨ls, hls, rfl⟩⟩

namespace Frame

variable {c : Cells} {locals params : UInt32} {result : Ty}

theorem exists_prologue_iff : (∃ code, prologue c locals = .ok code) ↔
    8 + locals.toNat < 2 ^ 32 ∧ 8 + locals.toNat ≠ 2 ^ 31 := by
  have hheader : headerSize.toNat = 8 := rfl
  constructor
  · rintro ⟨code, h⟩
    obtain ⟨size, hsize, h⟩ := Word.bind_eq_ok_iff.1 h
    obtain ⟨delta, hdelta, -⟩ := Word.bind_eq_ok_iff.1 h
    have hbytes := Word.exists_add_iff.1 ⟨size, hsize⟩
    have hne := Word.exists_negateSigned_iff.1 ⟨delta, hdelta⟩
    rw [Word.toNat_of_add hsize, hheader] at hne
    exact ⟨hbytes, hne⟩
  · rintro ⟨hbytes, hne⟩
    obtain ⟨size, hsize⟩ : ∃ size, Word.add headerSize locals = .ok size :=
      Word.exists_add_iff.2 hbytes
    rw [← hheader, ← Word.toNat_of_add hsize] at hne
    obtain ⟨delta, hdelta⟩ := Word.exists_negateSigned_iff.2 hne
    exact ⟨_, Word.bind_eq_ok_iff.2 ⟨size, hsize, Word.bind_eq_ok_iff.2 ⟨delta, hdelta, rfl⟩⟩⟩

theorem exists_return_iff {size : UInt32} {restore : Code} :
    (∃ code, (match Instr.store? result with
      | some store => do
        let delta ← Word.subtractSigned size.toInt32 result.size.toInt32
        return restore ++ [Instr.exchange] ++ c.adjustStack delta ++ c.loadStack
          ++ [Instr.exchange, store, .ret]
      | none => return restore ++ c.adjustStack size.toInt32 ++ [Instr.ret])
        = (.ok code : Except Overflow Code)) ↔
      size.toNat < 2 ^ 31 ∨ 2 ^ 31 + result.size.toNat ≤ size.toNat := by
  have hsmall : result.size.toNat < 2 ^ 31 := by
    cases result <;> simp [Ty.size]
  have hstore : Instr.store? result = none → result.size.toNat = 0 := by
    cases result <;> simp [Instr.store?, Ty.size]
  cases h : Instr.store? result with
  | none =>
    -- Nothing is subtracted, and the condition is no condition at all.
    simp [pure, Except.pure, hstore h]
    omega
  | some store =>
    rw [← Word.exists_subtractSigned_iff hsmall]
    constructor
    · rintro ⟨code, h⟩
      obtain ⟨delta, hdelta, -⟩ := Word.bind_eq_ok_iff.1 h
      exact ⟨delta, hdelta⟩
    · rintro ⟨delta, hdelta⟩
      exact ⟨_, Word.bind_eq_ok_iff.2 ⟨delta, hdelta, rfl⟩⟩

theorem exists_epilogue_iff : (∃ code, epilogue c locals params result = .ok code) ↔
    8 + locals.toNat + params.toNat < 2 ^ 32 ∧
      (8 + locals.toNat + params.toNat < 2 ^ 31 ∨
        2 ^ 31 + result.size.toNat ≤ 8 + locals.toNat + params.toNat) := by
  have hheader : headerSize.toNat = 8 := rfl
  constructor
  · rintro ⟨code, h⟩
    obtain ⟨frame, hframe, h⟩ := Word.bind_eq_ok_iff.1 h
    obtain ⟨size, hsize, h⟩ := Word.bind_eq_ok_iff.1 h
    have hbytes := Word.exists_add_iff.1 ⟨size, hsize⟩
    have hreturn := exists_return_iff.1 ⟨code, h⟩
    rw [Word.toNat_of_add hsize, Word.toNat_of_add hframe, hheader] at hreturn
    rw [Word.toNat_of_add hframe, hheader] at hbytes
    exact ⟨hbytes, hreturn⟩
  · rintro ⟨hbytes, hreturn⟩
    obtain ⟨frame, hframe⟩ : ∃ frame, Word.add headerSize locals = .ok frame :=
      Word.exists_add_iff.2 (by omega)
    rw [← hheader, ← Word.toNat_of_add hframe] at hbytes hreturn
    obtain ⟨size, hsize⟩ := Word.exists_add_iff.2 hbytes
    rw [← Word.toNat_of_add hsize] at hreturn
    obtain ⟨code, hcode⟩ := exists_return_iff.2 hreturn
    exact ⟨code, Word.bind_eq_ok_iff.2 ⟨frame, hframe, Word.bind_eq_ok_iff.2 ⟨size, hsize, hcode⟩⟩⟩

end Frame

theorem exists_foldlM_iff (params : List Binding) (n : UInt32) (P : Nat → Prop) :
    (∃ r, params.foldlM (fun n p => Word.add n p.ty.size) n = .ok r ∧ P r.toNat) ↔
      n.toNat + (params.map (·.ty.size.toNat)).sum < 2 ^ 32 ∧
        P (n.toNat + (params.map (·.ty.size.toNat)).sum) := by
  induction params generalizing n with
  | nil =>
    have hlt := UInt32.toNat_lt n
    simp [pure, Except.pure, hlt]
  | cons p params ih =>
    rw [List.foldlM_cons, List.map_cons, List.sum_cons, ← Nat.add_assoc]
    constructor
    · rintro ⟨r, hr, hP⟩
      obtain ⟨m, hm, hr⟩ := Word.bind_eq_ok_iff.1 hr
      rw [← Word.toNat_of_add hm]
      exact (ih m).1 ⟨r, hr, hP⟩
    · rintro ⟨hlt, hP⟩
      obtain ⟨m, hm⟩ : ∃ m, Word.add n p.ty.size = .ok m := Word.exists_add_iff.2 (by omega)
      rw [← Word.toNat_of_add hm] at hlt hP
      obtain ⟨r, hr, hP⟩ := (ih m).2 ⟨hlt, hP⟩
      exact ⟨r, Word.bind_eq_ok_iff.2 ⟨m, hm, hr⟩, hP⟩

theorem Function.exists_paramsSize_iff (f : Function) (P : Nat → Prop) :
    (∃ n, f.paramsSize = .ok n ∧ P n.toNat) ↔ f.paramBytes < 2 ^ 32 ∧ P f.paramBytes := by
  simpa [Function.paramsSize, Function.paramBytes] using exists_foldlM_iff f.params 0 P

namespace Generator

variable {program : Program} {structs : StructTable} {counter : RefCounter} {s s' : State} {c : Code}

/-! Routines. -/

def RoutineSpec.Fits (spec : RoutineSpec) : Prop :=
  FrameFits spec.localsSize.toNat spec.paramsSize.toNat spec.returnType

theorem RoutineSpec.fits_iff {spec : RoutineSpec} : spec.Fits ↔
    (∃ code, Frame.prologue cells spec.localsSize = .ok code) ∧
      ∃ code, Frame.epilogue cells spec.localsSize spec.paramsSize spec.returnType = .ok code := by
  rw [Frame.exists_prologue_iff, Frame.exists_epilogue_iff, Fits, FrameFits]
  omega

theorem sized_bounded {α : Type} {r : Except Overflow α} (h : ∃ a, r = .ok a) :
    Bounded 0 (sized r) := by
  obtain ⟨a, rfl⟩ := h
  exact .pure a

theorem routine_bounded {spec : RoutineSpec} (h : spec.Fits) :
    Bounded (spec.body.nodes + 1) (routine program structs spec) := by
  obtain ⟨hprologue, hepilogue⟩ := RoutineSpec.fits_iff.1 h
  rw [Nat.add_comm]
  refine (Bounded.fresh _).bind fun exit => .free (.modify fun _ => rfl) fun _ => ?_
  refine (sized_bounded hprologue).free fun _ => (block_bounded _ _ _).bind (n := 0) fun _ => ?_
  refine (releaseBindings_bounded _).free fun _ => Bounded.get.free fun _ => ?_
  exact (sized_bounded hepilogue).map

theorem routine_fits {spec : RoutineSpec} (h : routine program structs spec s = .ok (c, s')) :
    spec.Fits := by
  obtain ⟨o, ho, -⟩ := routine_emits h
  cases ho with
  | mk hp _ _ he => exact RoutineSpec.fits_iff.2 ⟨⟨_, hp⟩, _, he⟩

theorem functionSpec_fits_iff (f : Function) :
    (∃ spec, functionSpec f = .ok spec ∧ spec.Fits) ↔
      FrameFits f.localsSize.toNat f.paramBytes f.returnType := by
  have hsize := f.exists_paramsSize_iff fun n => FrameFits f.localsSize.toNat n f.returnType
  constructor
  · rintro ⟨spec, h, hfits⟩
    obtain ⟨n, hn, h⟩ := Word.bind_eq_ok_iff.1 h
    cases h
    exact (hsize.1 ⟨n, hn, hfits⟩).2
  · intro h
    have hbytes := h.1
    obtain ⟨n, hn, hfits⟩ := hsize.2 ⟨by omega, h⟩
    exact ⟨_, Word.bind_eq_ok_iff.2 ⟨n, hn, rfl⟩, hfits⟩

theorem methodSpec_fits_iff (typeCode : Int32) (f : Function) :
    (∃ spec, methodSpec typeCode f = .ok spec ∧ spec.Fits) ↔
      FrameFits f.localsSize.toNat (f.paramBytes + 4) f.returnType := by
  have hsize := f.exists_paramsSize_iff fun n => FrameFits f.localsSize.toNat (n + 4) f.returnType
  have hpointer : Layout.pointerSize.toNat = 4 := rfl
  constructor
  · rintro ⟨spec, h, hfits⟩
    obtain ⟨n, hn, h⟩ := Word.bind_eq_ok_iff.1 h
    obtain ⟨size, hadd, h⟩ := Word.bind_eq_ok_iff.1 h
    cases h
    rw [RoutineSpec.Fits, Word.toNat_of_add hadd, hpointer] at hfits
    exact (hsize.1 ⟨n, hn, hfits⟩).2
  · intro h
    have hbytes := h.1
    obtain ⟨n, hn, hfits⟩ := hsize.2 ⟨by omega, h⟩
    have hbytes' := hfits.1
    obtain ⟨size, hadd⟩ : ∃ size, Word.add n Layout.pointerSize = .ok size :=
      Word.exists_add_iff.2 (by omega)
    rw [← hpointer, ← Word.toNat_of_add hadd] at hfits
    exact ⟨_, Word.bind_eq_ok_iff.2 ⟨n, hn, Word.bind_eq_ok_iff.2 ⟨size, hadd, rfl⟩⟩, hfits⟩

theorem body_functionSpec {f : Function} {spec : RoutineSpec} (h : functionSpec f = .ok spec) :
    spec.body = f.body := by
  obtain ⟨n, -, h⟩ := Word.bind_eq_ok_iff.1 h
  cases h
  rfl

theorem body_methodSpec {typeCode : Int32} {f : Function} {spec : RoutineSpec}
    (h : methodSpec typeCode f = .ok spec) : spec.body = f.body := by
  obtain ⟨n, -, h⟩ := Word.bind_eq_ok_iff.1 h
  obtain ⟨size, -, h⟩ := Word.bind_eq_ok_iff.1 h
  cases h
  rfl

def each (program : Program) (structs : StructTable)
    (make : Function → Except Overflow RoutineSpec) : List Function → Gen Code
  | [] => pure []
  | f :: fs => do
    let code ← routine program structs (← sized (make f))
    let rest ← each program structs make fs
    return code ++ rest

theorem functions_eq_each (fs : List Function) :
    functions program structs fs = each program structs functionSpec fs := by
  induction fs with
  | nil => rfl
  | cons f fs ih => rw [functions, each, ih]

theorem methods_eq_each (typeCode : Int32) (fs : List Function) :
    methods program structs typeCode fs = each program structs (methodSpec typeCode) fs := by
  induction fs with
  | nil => rfl
  | cons f fs ih => rw [methods, each, ih]

variable {make : Function → Except Overflow RoutineSpec} {fs : List Function}

theorem each_bounded (hbody : ∀ f spec, make f = .ok spec → spec.body = f.body)
    (h : ∀ f ∈ fs, ∃ spec, make f = .ok spec ∧ spec.Fits) :
    Bounded (fs.map (·.nodes)).sum (each program structs make fs) := by
  induction fs with
  | nil => exact .pure _
  | cons f fs ih =>
    rw [List.forall_mem_cons] at h
    obtain ⟨⟨spec, hspec, hfits⟩, hrest⟩ := h
    have hroutine : Bounded f.nodes (routine program structs spec) := by
      rw [Function.nodes, ← hbody f spec hspec]
      exact routine_bounded hfits
    rw [each, hspec, sized, pure_bind, List.map_cons, List.sum_cons]
    exact hroutine.bind fun _ => (ih hrest).map

theorem each_fits (h : each program structs make fs s = .ok (c, s')) :
    ∀ f ∈ fs, ∃ spec, make f = .ok spec ∧ spec.Fits := by
  induction fs generalizing s c with
  | nil => exact nofun
  | cons f fs ih =>
    simp only [each, bind_ok, sized_ok, pure_ok] at h
    obtain ⟨spec, _, ⟨hspec, rfl⟩, _, _, hroutine, _, _, hrest, -, rfl⟩ := h
    exact List.forall_mem_cons.2 ⟨⟨spec, hspec, routine_fits hroutine⟩, ih hrest⟩

theorem structRoutines_bounded {ds : List StructDef}
    (hinit : ∀ d ∈ ds, FrameFits d.initializerLocals.toNat 4 .void)
    (hmethods : ∀ d ∈ ds, ∀ f ∈ d.methods,
      FrameFits f.localsSize.toNat (f.paramBytes + 4) f.returnType) :
    Bounded (ds.map (·.nodes)).sum (structRoutines program structs ds) := by
  induction ds with
  | nil => exact .pure _
  | cons d ds ih =>
    rw [List.forall_mem_cons] at hinit hmethods
    rw [structRoutines, List.map_cons, List.sum_cons, StructDef.nodes, Nat.add_assoc]
    refine (layoutOf_bounded _).free fun l => ?_
    have hfits : (initializerSpec l.typeCode d).Fits := hinit.1
    refine (routine_bounded hfits).bind fun _ => ?_
    rw [methods_eq_each]
    refine (each_bounded (fun _ _ => body_methodSpec) fun f hf => ?_).bind fun _ => ?_
    · exact (methodSpec_fits_iff _ f).2 (hmethods.1 f hf)
    · exact (ih hinit.2 hmethods.2).map

theorem structRoutines_fit {ds : List StructDef}
    (h : structRoutines program structs ds s = .ok (c, s')) :
    (∀ d ∈ ds, FrameFits d.initializerLocals.toNat 4 .void) ∧
      ∀ d ∈ ds, ∀ f ∈ d.methods, FrameFits f.localsSize.toNat (f.paramBytes + 4) f.returnType := by
  induction ds generalizing s c with
  | nil => exact ⟨nofun, nofun⟩
  | cons d ds ih =>
    simp only [structRoutines, bind_ok, methods_eq_each, pure_ok] at h
    obtain ⟨l, _, -, _, _, hinit, _, _, hmethods, _, _, hrest, -, rfl⟩ := h
    obtain ⟨hinits, hmethods'⟩ := ih hrest
    have hfits : (initializerSpec l.typeCode d).Fits := routine_fits hinit
    refine ⟨List.forall_mem_cons.2 ⟨hfits, hinits⟩, List.forall_mem_cons.2 ⟨fun f hf => ?_, hmethods'⟩⟩
    exact (methodSpec_fits_iff _ f).1 (each_fits hmethods f hf)

/-! Whole programs. -/

theorem wholeProgram_bounded (h : program.SizesFit) :
    Bounded (program.nodes + 12) (wholeProgram counter program structs) := by
  have hfunctions : Bounded (program.functions.map (·.nodes)).sum
      (functions program structs program.functions) := by
    rw [functions_eq_each]
    exact each_bounded (fun _ _ => body_functionSpec) fun f hf =>
      (functionSpec_fits_iff f).2 (h.functions f hf)
  -- At most four printers, with three labels each.
  have hprinters (used : List ScalarKind) :
      Bounded 12 (intervalPrinters (ScalarKind.all.filter (used.contains ·))) := by
    have hle := List.length_filter_le (used.contains ·) ScalarKind.all
    have hall : ScalarKind.all.length = 4 := rfl
    exact (intervalPrinters_bounded _).le (by omega)
  rw [Program.nodes, Nat.add_assoc, Nat.add_assoc]
  refine (block_bounded _ false program.main).bind fun _ => hfunctions.bind fun _ => ?_
  refine (structRoutines_bounded h.initializers h.methods).bind fun _ => ?_
  exact Bounded.get.free fun s => (hprinters s.printers).map

theorem wholeProgram_fits (hs : StructTable.ofProgram program = .ok structs)
    (h : wholeProgram counter program structs s = .ok (c, s')) : program.SizesFit := by
  simp only [wholeProgram, bind_ok, functions_eq_each] at h
  obtain ⟨_, _, -, _, _, hfunctions, _, _, hstructs, -⟩ := h
  obtain ⟨hinit, hmethods⟩ := structRoutines_fit hstructs
  exact ⟨StructTable.exists_ofProgram_iff.1 ⟨structs, hs⟩,
    fun f hf => (functionSpec_fits_iff f).1 (each_fits hfunctions f hf), hinit, hmethods⟩

theorem generate_of_sizesFit (capacity : UInt32) (h : program.SizesFit) :
    (∃ code, generate program capacity = .ok code) ∨
      ∃ error span, generate program capacity = .error (.refused error span) := by
  cases hc : RefCounter.ofCapacity? capacity with
  | none => exact .inr ⟨.worklistCapacity capacity, .none, by simp only [generate, hc]; rfl⟩
  | some counter =>
    obtain ⟨structs, hs⟩ := StructTable.exists_ofProgram_iff.2 h.records
    rw [generate_eq hc hs]
    cases hw : wholeProgram counter program structs .initial with
    | ok r => exact .inl ⟨r.1, rfl⟩
    | error e =>
      obtain ⟨error, span, rfl⟩ := (wholeProgram_bounded h).refused hw
      exact .inr ⟨error, span, rfl⟩

theorem typeSizes_exact (ty : Ty) :
    (Layout.intervalSize ty).toNat = 12 + 2 * ty.size.toNat ∧
      (Layout.boundOffset ty .high).toInt = 12 + (ty.size.toNat : Int) ∧
      (-ty.size.toInt32).toInt = -(ty.size.toNat : Int) := by
  cases ty <;> exact ⟨rfl, rfl, rfl⟩

theorem worklistBytes_exact (counter : RefCounter) :
    (counter.capacity * Layout.pointerSize).toNat = counter.capacity.toNat * 4 := by
  have hle := UInt32.le_iff_toNat_le.1 counter.le_max
  have hmax : RefCounter.maxCapacity.toNat * 4 < 2 ^ 32 := by decide
  have hpointer : Layout.pointerSize.toNat = 4 := rfl
  rw [UInt32.toNat_mul, hpointer, Nat.mod_eq_of_lt (by omega)]

/-- A program whose sizes fit is given code or refused, and only such a program is given code.
Labels are numbered no further than the tree has nodes, but for the printers of intervals. What is
computed from the sizes of types and from the capacity is exact. -/
theorem generation_total_where_sizes_fit (program : Program) (capacity : UInt32) :
    (program.SizesFit → (∃ code, generate program capacity = .ok code) ∨
      ∃ error span, generate program capacity = .error (.refused error span)) ∧
    (∀ code, generate program capacity = .ok code → program.SizesFit) ∧
    (∀ counter structs code s', StructTable.ofProgram program = .ok structs →
      wholeProgram counter program structs .initial = .ok (code, s') →
        s'.labels.count ≤ program.nodes + 12) ∧
    (∀ ty, (Layout.intervalSize ty).toNat = 12 + 2 * ty.size.toNat ∧
      (Layout.boundOffset ty .high).toInt = 12 + (ty.size.toNat : Int) ∧
      (-ty.size.toInt32).toInt = -(ty.size.toNat : Int)) ∧
    ∀ counter : RefCounter,
      (counter.capacity * Layout.pointerSize).toNat = counter.capacity.toNat * 4 := by
  refine ⟨generate_of_sizesFit capacity, fun code h => ?_, fun counter structs code s' hs h => ?_,
    typeSizes_exact, worklistBytes_exact⟩
  · obtain ⟨counter, structs, s', -, hs, hw⟩ := generate_ok h
    exact wholeProgram_fits hs hw
  · have hlabels := (wholeProgram_bounded (wholeProgram_fits hs h)).labels h
    rwa [State.initial, Labels.none, Nat.zero_add] at hlabels

/-- A function without parameters and statements, with the given locals. -/
def spacious (localsSize : UInt32) (result : Ty) : Program :=
  ⟨0, [], [⟨"f", [], result, localsSize, .empty, .none⟩], .empty⟩

theorem generation_total_where_sizes_fit_spacious :
    (spacious 2147483639 .void).SizesFit ∧ (spacious 4294967287 .float).SizesFit ∧
      ((∃ code, generate (spacious 4294967287 .float) 1 = .ok code) ∨
        ∃ error span, generate (spacious 4294967287 .float) 1 = .error (.refused error span)) := by
  have hfit : (spacious 4294967287 .float).SizesFit := by decide
  exact ⟨by decide, hfit, (generation_total_where_sizes_fit _ 1).1 hfit⟩

/-- Eight bytes of header and these locals are a size, but it has no negative. -/
theorem prologue_overflows_spacious :
    generate (spacious 2147483640 .void) 1 = .error (.overflow .negate) := rfl

end Generator
end IntervalStack
