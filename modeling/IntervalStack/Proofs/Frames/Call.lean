import IntervalStack.Proofs.Frames.Cells

/-! Calls from the first argument to the result: whatever the arguments and the callee compute, the
caller gets back what it had. -/

namespace IntervalStack

namespace Machine

def address (m : Machine) (l : String) : Nat := (m.image.dataLabel? l).getD 0

def cell (m : Machine) (l : String) : Int32 := m.memory.word (m.address l)

/-- The machine runs and gets the operands, with both cells as they were. -/
structure Computes (c : Cells) (m : Machine) (vs : List Value) (m' : Machine) : Prop where
  reaches : Reaches m m'
  running : m'.halted = false
  stack : m'.stack = vs ++ m.stack
  framePointer : m'.cell c.frame = m.cell c.frame
  stackPointer : m'.cell c.stack = m.cell c.stack

structure Traverses (W : Nat → Prop) (c : Code) (m m' : Machine) : Prop where
  performs : Performs W c m m'
  running : m'.halted = false
  pc : m'.pc = m.pc + c.length

theorem Traverses.cell {c : Code} {m m' : Machine} (h : Traverses (fun _ => False) c m m')
    {l : String} (hl : m.address l + 4 ≤ 0x100000000) : m'.cell l = m.cell l := by
  have haddress : m'.address l = m.address l := by
    rw [address, address, h.performs.reaches.continues.image]
  rw [Machine.cell, Machine.cell, haddress]
  exact Memory.word_congr fun i hi => h.performs.get (by omega) id

end Machine

namespace Frame

open Machine

/-- Whatever runs compute the arguments one after the other, each such that `P` holds of it, the
caller gets each of them into its slot, and `Q` holds in the end. -/
def Passes (c : Cells) (W : Nat → Prop) (P : Machine → Machine → Prop) :
    List (Ty × List Value) → Machine → (Machine → Prop) → Prop
  | [], m, Q => Q m
  | (ty, vs) :: args, m, Q => ∀ m₁, m.Computes c vs m₁ → P m m₁ → m₁.Before (pushArgument c ty) →
      ∃ m₂, Traverses W (pushArgument c ty) m₁ m₂ ∧ Passes c W P args m₂ Q

/-- Room for a call: the frame from `low` up to `top` is inside a memory of less than 2 GiB, and
outside of the heap and of the data of the listing, which has the two cells in it. -/
structure Room (c : Cells) (code : Code) (m : Machine) (low top : Nat) : Prop where
  loaded : ∃ settings m₀, Machine.load code settings = .ok m₀ ∧ m₀.Continues m
  cells : c.declare <:+: code
  small : m.memory.size < 0x80000000
  inside : top ≤ m.memory.size
  data : code.dataSize ≤ low
  heap : ∀ a, low ≤ a → a < top → m.heap.manages a = false

variable {c : Cells} {code : Code} {caller k : Machine} {low top cell sp : Nat} {fp : Int32}

theorem Room.stage (h : Room c code caller low top) (hordered : low ≤ top) :
    ∃ cell, caller.address c.frame = cell ∧ caller.address c.stack = cell + 4 ∧
      Stage c caller.image caller.heap caller.memory.size cell low top := by
  obtain ⟨settings, m₀, hload, hcontinues⟩ := h.loaded
  obtain ⟨pre, post, hcode⟩ := h.cells
  have hloaded := load_loaded hload
  have hframe : caller.image.dataLabel? c.frame = some (Code.dataSize pre) := by
    rw [hcontinues.image]
    exact hloaded.dataLabel pre c.frame ([Instr.dataZ 4, .dLabel c.stack, .dataZ 4] ++ post)
      (by simp [← hcode, Cells.declare])
  have hstack : caller.image.dataLabel? c.stack = some (Code.dataSize pre + 4) := by
    rw [hcontinues.image, hloaded.dataLabel (pre ++ [Instr.dLabel c.frame, .dataZ 4]) c.stack
      ([Instr.dataZ 4] ++ post) (by simp [← hcode, Cells.declare]), Code.dataSize_append]
    rfl
  have hdata : Code.dataSize pre + 8 ≤ code.dataSize := by
    rw [← hcode, Code.dataSize_append, Code.dataSize_append, show c.declare.dataSize = 8 from rfl]
    omega
  have hbase : code.dataSize ≤ caller.heap.base := by
    rw [hcontinues.base, hloaded.heap]
    show _ ≤ heapBase code
    rw [heapBase]
    omega
  have hlow := h.data
  refine ⟨Code.dataSize pre, by rw [address, hframe]; rfl, by rw [address, hstack]; rfl,
    hframe, hstack, by omega, hordered, h.inside, h.small, fun a ha => ?_⟩
  -- the frame is outside of the heap by assumption, and the cells as they are data
  by_cases hin : low ≤ a ∧ a < top
  · exact h.heap a hin.1 hin.2
  · have hlt : a < caller.heap.base := by
      rcases ha with ha | ha | ha <;> omega
    simp only [Heap.manages, Bool.and_eq_false_iff, decide_eq_false_iff_not]
    exact .inl (by omega)

theorem Stage.continues {k' : Machine} (h : Stage c k.image k.heap k.memory.size cell low top)
    (hk : k.Continues k') : Stage c k'.image k'.heap k'.memory.size cell low top := by
  rw [hk.image, hk.size]
  refine { h with unmanaged := fun a ha => ?_ }
  rw [← h.unmanaged a ha, Heap.manages, Heap.manages, hk.base, hk.limit]

structure Active (c : Cells) (caller k : Machine) (cell low top : Nat) (fp : Int32) (sp : Nat) :
    Prop where
  continues : caller.Continues k
  running : k.halted = false
  stage : Stage c k.image k.heap k.memory.size cell low top
  points : Points k.memory.size cell k.memory fp sp

namespace Active

theorem address_frame (h : Active c caller k cell low top fp sp) : k.address c.frame = cell := by
  rw [address, h.stage.frame]
  rfl

theorem address_stack (h : Active c caller k cell low top fp sp) :
    k.address c.stack = cell + 4 := by
  rw [address, h.stage.stack]
  rfl

theorem cell_frame (h : Active c caller k cell low top fp sp) : k.cell c.frame = fp := by
  rw [Machine.cell, h.address_frame, h.points.frame]

theorem cell_stack (h : Active c caller k cell low top fp sp) :
    k.cell c.stack = Int32.ofNat sp := by
  rw [Machine.cell, h.address_stack, h.points.stack]

theorem later (h : Active c caller k cell low top fp sp) {k' : Machine} {fp' : Int32} {sp' : Nat}
    (hk : k.Continues k') (hrunning : k'.halted = false)
    (hp : Points k'.memory.size cell k'.memory fp' sp') :
    Active c caller k' cell low top fp' sp' :=
  ⟨h.continues.trans hk, hrunning, h.stage.continues hk, hp⟩

theorem computes (h : Active c caller k cell low top fp sp) {vs : List Value} {k' : Machine}
    (hk : k.Computes c vs k') : Active c caller k' cell low top fp sp := by
  have hcontinues := hk.reaches.continues
  have hstage := h.stage.continues hcontinues
  refine h.later hcontinues hk.running ⟨rfl, ?_, ?_⟩
  · have hframe := hk.framePointer
    rwa [h.cell_frame, Machine.cell, address, hstage.frame] at hframe
  · have hstack := hk.stackPointer
    rwa [h.cell_stack, Machine.cell, address, hstage.stack] at hstack

theorem traverses (h : Active c caller k cell low top fp sp) {block : Code} {st' : List Value}
    {m' : Memory} {fp' : Int32} {sp' : Nat} {W : Nat → Prop}
    (hacts : Acts W k.image k.heap block k.stack k.memory st' m')
    (hp : Points k.memory.size cell m' fp' sp') (hb : k.Before block) :
    ∃ k', Traverses W block k k' ∧ Active c caller k' cell low top fp' sp' ∧ k'.stack = st' ∧
      k'.memory = m' := by
  have hperforms := hacts.performs rfl rfl rfl rfl hb h.running
  have hcontinues := hperforms.reaches.continues
  refine ⟨_, ⟨hperforms, h.running, rfl⟩, h.later hcontinues h.running ?_, rfl, rfl⟩
  rw [hcontinues.size]
  exact hp

theorem pushArgument (h : Active c caller k cell low top fp sp) {ty : Ty} {vs : List Value}
    {k₁ : Machine} (hk : k.Computes c vs k₁) (hvs : ty.Operands vs)
    (hlow : low + ty.size.toNat ≤ sp) (htop : sp ≤ top) (hb : k₁.Before (Frame.pushArgument c ty)) :
    ∃ k₂, Traverses (Touched cell (cell + 4) low top) (Frame.pushArgument c ty) k₁ k₂ ∧
      Active c caller k₂ cell low top fp (sp - ty.size.toNat) ∧ k₂.stack = k.stack ∧
      k₂.memory.operands ty (sp - ty.size.toNat) = ty.stored vs ∧
      ∀ a, sp ≤ a → a < top → k₂.memory.get a = k₁.memory.get a := by
  have h₁ := h.computes hk
  obtain ⟨m', hacts, hp, hvalue, hkeeps⟩ := h₁.stage.pushArgument hvs h₁.points hlow htop k.stack
  rw [← hk.stack] at hacts
  obtain ⟨k₂, htraverses, h₂, hstack, hmemory⟩ := h₁.traverses hacts hp hb
  subst hmemory
  exact ⟨k₂, htraverses, h₂, hstack, hvalue, hkeeps⟩

end Active

def Spares (c : Cells) (top : Nat) (m m' : Machine) : Prop :=
  ∀ a : Nat, (m.cell c.stack).toInt ≤ a → a < top → m'.memory.get a = m.memory.get a

def Lays (m : Memory) : Nat → List (Ty × List Value) → Prop
  | _, [] => True
  | sp, (ty, vs) :: args =>
    m.operands ty (sp - ty.size.toNat) = ty.stored vs ∧ Lays m (sp - ty.size.toNat) args

def argsSize (args : List (Ty × List Value)) : Nat := (args.map fun arg => arg.1.size.toNat).sum

theorem argsSize_cons (ty : Ty) (vs : List Value) (args : List (Ty × List Value)) :
    argsSize ((ty, vs) :: args) = ty.size.toNat + argsSize args := by simp [argsSize]

/-- The caller passes all arguments, and if nothing touches them in the meantime they lie in their
slots in the end. -/
theorem Active.passes {P : Machine → Machine → Prop} {Q : Machine → Prop}
    {args : List (Ty × List Value)} (h : Active c caller k cell low top fp sp)
    (hargs : ∀ arg ∈ args, arg.1.Operands arg.2) (hlow : low + argsSize args ≤ sp) (htop : sp ≤ top)
    (hQ : ∀ k', Active c caller k' cell low top fp (sp - argsSize args) → k'.stack = k.stack →
      ((∀ m m', P m m' → Spares c top m m') → Lays k'.memory sp args ∧
        ∀ a, sp ≤ a → a < top → k'.memory.get a = k.memory.get a) → Q k') :
    Passes c (Touched cell (cell + 4) low top) P args k Q := by
  induction args generalizing k sp with
  | nil => exact hQ k h rfl fun _ => ⟨trivial, fun _ _ _ => rfl⟩
  | cons arg args ih =>
    obtain ⟨ty, vs⟩ := arg
    rw [argsSize_cons] at hlow hQ
    intro k₁ hk hP hb
    have hvs : ty.Operands vs := hargs (ty, vs) (.head _)
    obtain ⟨k₂, htraverses, h₂, hstack, hvalue, hkeeps⟩ := h.pushArgument hk hvs (by omega) htop hb
    refine ⟨k₂, htraverses, ih h₂ (fun arg harg => hargs arg (.tail _ harg)) (by omega) (by omega)
      fun k' h' hstack' hlays => ?_⟩
    rw [Nat.sub_sub] at h'
    refine hQ k' h' (hstack'.trans hstack) fun hspares => ?_
    obtain ⟨hrest, hkept⟩ := hlays hspares
    refine ⟨⟨?_, hrest⟩, fun a ha ha' => ?_⟩
    · -- the value was stored before the others, which lie below it
      rw [← hvalue]
      exact Ty.operands_congr fun i hi => hkept _ (by omega) (by omega)
    · have hsmall := h.stage.small
      have hinside := h.stage.inside
      rw [hkept a (by omega) ha', hkeeps a ha ha']
      refine hspares _ _ hP a ?_ ha'
      rw [h.cell_stack, Word.toInt_ofNat (by omega)]
      omega

end Frame

namespace Machine

variable {W : Nat → Prop} {k : Machine} {t : Nat}

theorem performs_call {l : String} (hrunning : k.halted = false)
    (hi : k.image.code[k.pc]? = some (.call l)) (hl : k.image.label? l = some t) :
    Performs W [.call l] k { k with
      pc := t, steps := k.steps + 1, stack := .int (Int32.ofNat (k.pc + 1)) :: k.stack } := by
  refine .one hi hrunning ?_ fun _ _ _ => rfl
  simp only [execute, call, push, jump, EStateM.run_bind, EStateM.run_get, EStateM.run_modify,
    Image.callsHost, hl, Option.isNone_some, Bool.and_false, Bool.false_eq_true, if_false]

theorem performs_ret {st : List Value} (hrunning : k.halted = false)
    (hi : k.image.code[k.pc]? = some .ret) (hst : k.stack = .int (Int32.ofNat t) :: st)
    (ht : t < 0x80000000) :
    Performs W [.ret] k { k with pc := t, steps := k.steps + 1, stack := st } := by
  refine .one hi hrunning ?_ fun _ _ _ => rfl
  have hint : (Int32.ofNat t).toInt = t := Word.toInt_ofNat ht
  have hneg : ¬ Int32.ofNat t < 0 := by
    rw [Int32.lt_iff_toInt_lt, hint]
    simp
  rw [execute, EStateM.run_bind,
    popInt_run (m := { k with pc := k.pc + 1, steps := k.steps + 1 }) hst]
  simp only [hneg, if_false, EStateM.run_modify, hint, Int.toNat_natCast]

end Machine

namespace Frame

open Machine

variable {c : Cells} {code : Code} {caller k : Machine} {low top cell sp : Nat} {fp : Int32}

/-- A call, up to the end of the prologue of a routine whose header and locals take `n` bytes. -/
theorem Active.enters (h : Active c caller k cell low top fp sp) {n t : Nat} {routine : String}
    (hn : 8 ≤ n) (hlow : low + n ≤ sp) (htop : sp ≤ top)
    (hi : k.image.code[k.pc]? = some (.call routine)) (hl : k.image.label? routine = some t)
    (hb : ({ k with pc := t } : Machine).Before (enter c n)) :
    ∃ entered, Performs (Touched cell (cell + 4) low top) ([Instr.call routine] ++ enter c n) k
        entered ∧
      entered.pc = t + (enter c n).length ∧
      Active c caller entered cell low top (Int32.ofNat sp) (sp - n) ∧ entered.stack = k.stack ∧
      entered.memory.word (sp - 4) = fp ∧
      entered.memory.word (sp - 8) = Int32.ofNat (k.pc + 1) ∧
      ∀ a, sp ≤ a → a < top → entered.memory.get a = k.memory.get a := by
  have hcall := performs_call (W := Touched cell (cell + 4) low top) h.running hi hl
  have hcalled := h.later hcall.reaches.continues h.running h.points
  obtain ⟨m', hacts, hp, hsaved, hret, hkeeps⟩ :=
    hcalled.stage.enter hcalled.points hn hlow htop (Int32.ofNat (k.pc + 1)) k.stack
  obtain ⟨entered, htraverses, hentered, hstack, hmemory⟩ := hcalled.traverses hacts hp hb
  subst hmemory
  exact ⟨entered, hcall.append htraverses.performs, htraverses.pc, hentered, hstack, hsaved, hret,
    hkeeps⟩

theorem Active.leaves {fp₀ n t : Nat} {result : Ty} {vs st : List Value}
    (h : Active c caller k cell low top (Int32.ofNat fp₀) sp) (hvs : result.Operands vs)
    (hlow : low ≤ sp) (hfp : sp + 8 ≤ fp₀) (hfp' : fp₀ ≤ top) (hn : sp + n = top)
    (hsaved : k.memory.word (fp₀ - 4) = fp) (hret : k.memory.word (fp₀ - 8) = Int32.ofNat t)
    (ht : t < 0x80000000) (hst : k.stack = vs ++ st)
    (hb : k.Before (leave c n result ++ [Instr.ret])) :
    ∃ returned,
      Performs (Touched cell (cell + 4) low top) (leave c n result ++ [Instr.ret]) k returned ∧
      returned.pc = t ∧
      Active c caller returned cell low top fp (top - result.size.toNat) ∧ returned.stack = st ∧
      returned.memory.operands result (top - result.size.toNat) = result.stored vs := by
  obtain ⟨m', hacts, hp, hvalue⟩ :=
    h.stage.leave hvs h.points hlow hfp hn hfp' hsaved hret st
  rw [← hst] at hacts
  obtain ⟨k₁, htraverses, h₁, hstack, hmemory⟩ := h.traverses hacts hp hb.left
  subst hmemory
  have hi : k₁.image.code[k₁.pc]? = some .ret :=
    hb.right htraverses.performs.reaches.continues.image htraverses.pc 0 _ rfl
  have hjump := performs_ret (W := Touched cell (cell + 4) low top) h₁.running hi hstack ht
  exact ⟨_, htraverses.performs.append hjump, rfl,
    h₁.later hjump.reaches.continues h₁.running h₁.points, rfl, hvalue⟩

theorem Active.fetches {result : Ty} {vs : List Value} (h : Active c caller k cell low top fp sp)
    (hvs : result.Operands vs) (hlow : low ≤ sp) (htop : sp + result.size.toNat = top)
    (hvalue : k.memory.operands result sp = result.stored vs)
    (hb : k.Before (fetchResult c result)) :
    ∃ fetched, Traverses (Touched cell (cell + 4) low top) (fetchResult c result) k fetched ∧
      Active c caller fetched cell low top fp top ∧
      fetched.stack = result.stored vs ++ k.stack := by
  obtain ⟨m', hacts, hp⟩ := h.stage.fetchResult hvs h.points hlow (by omega) hvalue k.stack
  rw [htop] at hp
  obtain ⟨fetched, htraverses, hfetched, hstack, -⟩ := h.traverses hacts hp hb
  exact ⟨fetched, htraverses, hfetched, hstack⟩

theorem Room.active (h : Room c code caller low sp) (hrunning : caller.halted = false)
    (hordered : low ≤ sp) (hsp : caller.cell c.stack = Int32.ofNat sp) :
    Active c caller caller (caller.address c.frame) low sp (caller.cell c.frame) sp ∧
      caller.address c.stack = caller.address c.frame + 4 := by
  obtain ⟨cell, hframe, hstack, hstage⟩ := h.stage hordered
  rw [Machine.cell, hstack] at hsp
  rw [Machine.cell, hframe]
  exact ⟨⟨.refl caller, hrunning, hstage, rfl, rfl, hsp⟩, hstack⟩

/-- A call gives the caller back what it had. The arguments and the body may be computed in any way
that leaves the cells as they were, and the body also the header of its frame. Then the machine gets
behind the call with the old operands and frame pointer, and to the result and the old stack pointer
behind the fetch. The convention's own code writes to the two cells and the frame only. -/
theorem call_restores_caller {args : List (Ty × List Value)} {locals params : UInt32}
    (result : Ty) (routine : String) (hroom : Room c code caller low sp)
    (hrunning : caller.halted = false) (hsp : caller.cell c.stack = Int32.ofNat sp)
    (hargs : ∀ arg ∈ args, arg.1.Operands arg.2) (hparams : params.toNat = argsSize args)
    (hframe : low + (8 + locals.toNat + params.toNat) = sp) :
    let W := Touched (caller.address c.frame) (caller.address c.stack) low sp
    ∃ pro epi, prologue c locals = .ok pro ∧ epilogue c locals params result = .ok epi ∧
      Passes c W (fun _ _ => True) args caller fun k =>
        ∀ t, k.image.code[k.pc]? = some (.call routine) → k.pc + 1 < 0x80000000 →
          k.image.label? routine = some t → ({ k with pc := t } : Machine).Before pro →
          ∃ entered, Performs W ([Instr.call routine] ++ pro) k entered ∧ entered.halted = false ∧
            entered.pc = t + pro.length ∧
            ∀ left vs, entered.Computes c vs left → result.Operands vs →
              (∀ a, sp - params.toNat - 8 ≤ a → a < sp - params.toNat →
                left.memory.get a = entered.memory.get a) → left.Before epi →
              ∃ returned, Performs W epi left returned ∧ returned.pc = k.pc + 1 ∧
                returned.stack = caller.stack ∧
                returned.cell c.stack = Int32.ofNat (sp - result.size.toNat) ∧
                returned.cell c.frame = caller.cell c.frame ∧
                (returned.Before (fetchResult c result) →
                  ∃ fetched, Traverses W (fetchResult c result) returned fetched ∧
                    fetched.stack = result.stored vs ++ caller.stack ∧
                    fetched.cell c.stack = Int32.ofNat sp ∧
                    fetched.cell c.frame = caller.cell c.frame) := by
  obtain ⟨hactive, hcells⟩ := hroom.active hrunning (by omega) hsp
  have hinside := hroom.inside
  have hsmall := hroom.small
  have hsize := result.size_le
  intro W
  refine ⟨_, _, prologue_eq c (by omega), epilogue_eq c result (by omega), ?_⟩
  rw [show W = Touched _ (_ + 4) low sp from congrArg (Touched _ · low sp) hcells]
  refine hactive.passes hargs (by omega) (Nat.le_refl _) fun k hk hstack _ => ?_
  intro t hi hpc hl hb
  rw [← hparams] at hk
  obtain ⟨entered, hperforms, hentered, hactive', hstack', hsaved, hret, -⟩ :=
    hk.enters (by omega) (by omega) (by omega) hi hl hb
  refine ⟨entered, hperforms, hactive'.running, hentered, fun left vs hbody hvs hheader hb' => ?_⟩
  have hleft := hactive'.computes hbody
  -- of the frame, the epilogue needs no more than the two words of the header
  have hword (a : Nat) (ha : sp - params.toNat - 8 ≤ a) (ha' : a + 4 ≤ sp - params.toNat) :
      left.memory.word a = entered.memory.word a :=
    Memory.word_congr fun i hi => hheader _ (by omega) (by omega)
  obtain ⟨returned, hperforms', hpc', hreturned, hstackReturned, hvalue⟩ :=
    hleft.leaves (n := 8 + locals.toNat + params.toNat) hvs (by omega) (by omega) (by omega)
      (by omega) ((hword _ (by omega) (by omega)).trans hsaved)
      ((hword _ (by omega) (by omega)).trans hret) hpc (by rw [hbody.stack, hstack', hstack]) hb'
  refine ⟨returned, hperforms', hpc', hstackReturned, hreturned.cell_stack, hreturned.cell_frame,
    fun hb'' => ?_⟩
  obtain ⟨fetched, htraverses, hfetched, hstackFetched⟩ :=
    hreturned.fetches hvs (by omega) (by omega) hvalue hb''
  exact ⟨fetched, htraverses, by rw [hstackFetched, hstackReturned], hfetched.cell_stack,
    hfetched.cell_frame⟩

theorem before_of_load {settings : MachineSettings} {m₀ : Machine}
    (hload : Machine.load code settings = .ok m₀) (himage : k.image = m₀.image) (n : Nat)
    (block : Code) (hcode : code = code.take n ++ block ++ code.drop (n + block.length))
    (hblock : block.executable = block) (hpc : k.pc = (Code.executable (code.take n)).length) :
    k.Before block := by
  intro j i hi
  have hplaced := (load_loaded hload).placed hcode
  rw [himage, hpc]
  exact hplaced.code j i (by rw [hblock, hi])

def primed (m₀ : Machine) (pc sp : Nat) (st : List Value) : Machine :=
  { m₀ with
    memory := m₀.memory.setWord 4 (Int32.ofNat sp), stack := st, pc, halted := false }

theorem room_primed {rest : Code} {settings : MachineSettings} {m₀ : Machine}
    (hload : Machine.load (Cells.standard.declare ++ rest) settings = .ok m₀)
    (hheap : settings.heapSize = 0) (hsmall : settings.memorySize.toNat < 0x80000000) (low sp : Nat)
    (hlow : Code.dataSize (Cells.standard.declare ++ rest) ≤ low)
    (hsp : sp ≤ settings.memorySize.toNat) (pc : Nat) (st : List Value) :
    m₀.Continues (primed m₀ pc sp st) ∧
      Room .standard (Cells.standard.declare ++ rest) (primed m₀ pc sp st) low sp ∧
      (primed m₀ pc sp st).cell Cells.standard.stack = Int32.ofNat sp := by
  have hloaded := load_loaded hload
  have hcontinues : m₀.Continues (primed m₀ pc sp st) := ⟨rfl, Memory.size_setWord, rfl, rfl⟩
  have hmemory := hcontinues.size.trans hloaded.size
  refine ⟨hcontinues, ⟨⟨_, m₀, hload, hcontinues⟩, List.infix_append' [] _ _, by omega, by omega,
    hlow, fun a _ _ => ?_⟩, ?_⟩
  · show m₀.heap.manages a = false
    rw [hloaded.heap, hheap]
    simp [Heap.manages, Heap.empty]
  · have hcell : (primed m₀ pc sp st).image.dataLabel? Cells.standard.stack = some 4 :=
      hloaded.dataLabel [.dLabel _, .dataZ 4] _ _ rfl
    rw [Machine.cell, address, hcell]
    exact Memory.word_setWord_self (by decide)

theorem computes_push {i : Instr} {v : Value} (c : Cells) (hrunning : k.halted = false)
    (hb : k.Before [i]) (hi : ∀ m : Machine, (execute k.pc i).run m
      = .ok () { m with stack := v :: m.stack }) :
    ∃ k', k.Computes c [v] k' ∧ k'.pc = k.pc + 1 ∧ k'.memory = k.memory := by
  have hperforms : Performs (fun _ => False) [i] k (k.moved 1 (v :: k.stack) k.memory) :=
    .one (hb 0 i rfl) hrunning (hi _) fun _ _ _ => rfl
  exact ⟨_, ⟨hperforms.reaches, hrunning, rfl, rfl, rfl⟩, rfl, rfl⟩

theorem Passes.push {W : Nat → Prop} {P : Machine → Machine → Prop} {Q : Machine → Prop} {ty : Ty}
    {v : Value} {args : List (Ty × List Value)} (h : Passes c W P ((ty, [v]) :: args) k Q)
    (hrunning : k.halted = false) {i : Instr} (hb : k.Before ([i] ++ pushArgument c ty))
    (hi : ∀ m : Machine, (execute k.pc i).run m = .ok () { m with stack := v :: m.stack })
    (hP : ∀ k', k'.memory = k.memory → P k k') :
    ∃ k', k.Reaches k' ∧ k'.halted = false ∧ k'.pc = k.pc + ([i] ++ pushArgument c ty).length ∧
      Passes c W P args k' Q := by
  obtain ⟨k₁, hk₁, hpc₁, hm₁⟩ := computes_push c hrunning hb.left hi
  obtain ⟨k₂, ht₂, hrest⟩ := h k₁ hk₁ (hP k₁ hm₁) (hb.right hk₁.reaches.continues.image hpc₁)
  refine ⟨k₂, hk₁.reaches.trans ht₂.performs.reaches, ht₂.running, ?_, hrest⟩
  rw [ht₂.pc, hpc₁, List.length_append, Nat.add_assoc]
  rfl

/-- The call of a routine with arguments of one and eight bytes and a result of one byte. -/
def mixedWidths : Code :=
  Cells.standard.declare
    ++ ([Instr.pushI 300] ++ (pushArgument .standard .char ++ ([Instr.pushF ⟨0⟩]
    ++ (pushArgument .standard .float ++ ([Instr.call "callee"]
    ++ (fetchResult .standard .bool ++ ([Instr.halt, .label "callee"]
    ++ (enter .standard 12 ++ ([Instr.pushI 513]
    ++ (leave .standard 21 .bool ++ [Instr.ret]))))))))))

theorem call_restores_caller_mixedWidths :
    ∃ m₀ caller fetched, Machine.load mixedWidths ⟨128, 0, 1000⟩ = .ok m₀ ∧ m₀.Continues caller ∧
      caller.stack = [] ∧ caller.cell "$stack-pointer" = Int32.ofNat 128 ∧
      caller.Reaches fetched ∧ fetched.stack = [.int 1] ∧
      fetched.cell "$stack-pointer" = Int32.ofNat 128 ∧
      fetched.cell "$frame-pointer" = caller.cell "$frame-pointer" := by
  have hok : (Machine.load mixedWidths ⟨128, 0, 1000⟩).toBool = true := by decide +kernel
  cases hload : Machine.load mixedWidths ⟨128, 0, 1000⟩ with
  | error => simp [hload, Except.toBool] at hok
  | ok m₀ =>
    have hloaded := load_loaded hload
    obtain ⟨hcontinues, hroom, hsp⟩ :=
      room_primed hload rfl (by decide) 107 128 (by decide +kernel) (by decide) 0 []
    have hargs : ∀ arg ∈ [(Ty.char, [Value.int 300]), (.float, [.float ⟨0⟩])],
        arg.1.Operands arg.2 := by
      simp [Ty.Operands]
    obtain ⟨pro, epi, hpro, hepi, hpasses⟩ :=
      call_restores_caller .bool "callee" hroom rfl hsp hargs
        (show (9 : UInt32).toNat = _ from rfl)
        (show 107 + (8 + (4 : UInt32).toNat + _) = 128 from rfl)
    obtain rfl : pro = enter .standard 12 :=
      Except.ok.inj (hpro.symm.trans (prologue_eq _ (by decide)))
    obtain rfl : epi = leave .standard 21 .bool ++ [Instr.ret] :=
      Except.ok.inj (hepi.symm.trans (epilogue_eq _ _ (by decide)))
    have hat {k : Machine} (n : Nat) (block : Code) (hk : (primed m₀ 0 128 []).Reaches k) :=
      before_of_load hload (hcontinues.trans hk.continues).image n block
    -- the two arguments
    obtain ⟨k₁, hr₁, hrunning₁, hpc₁, hpasses⟩ := hpasses.push (i := .pushI 300) rfl
      (hat 4 _ (.refl _) (by decide) rfl rfl) (fun _ => rfl) fun _ _ => trivial
    obtain ⟨k₂, hr₂, -, hpc₂, hcall⟩ := hpasses.push (i := .pushF ⟨0⟩) hrunning₁
      (hat 15 _ hr₁ (by decide) rfl hpc₁) (fun _ => rfl) fun _ _ => trivial
    have hr₂ := hr₁.trans hr₂
    have hpc₂ : k₂.pc = 22 := hpc₂.trans (by rw [hpc₁]; rfl)
    -- the call and the body
    have hc₂ := hcontinues.trans hr₂.continues
    have hi : k₂.image.code[k₂.pc]? = some (.call "callee") :=
      hat 26 [.call "callee"] hr₂ (by decide) rfl hpc₂ 0 _ rfl
    have hl : k₂.image.label? "callee" = some 33 := by
      rw [hc₂.image]
      exact hloaded.label (mixedWidths.take 37) _ (mixedWidths.drop 38) (by decide)
    obtain ⟨entered, hp₃, hrunning₃, hpc₃, hbody⟩ := hcall 33 hi (by rw [hpc₂]; decide) hl
      (before_of_load (k := { k₂ with pc := 33 }) hload hc₂.image 38 _ (by decide) rfl rfl)
    have hr₃ := hr₂.trans hp₃.reaches
    obtain ⟨left, hk₄, hpc₄, hm₄⟩ := computes_push (k := entered) (v := .int 513) .standard
      hrunning₃ (hat 62 [.pushI 513] hr₃ (by decide) rfl hpc₃) fun _ => rfl
    rw [hpc₃] at hpc₄
    have hr₄ := hr₃.trans hk₄.reaches
    obtain ⟨returned, hp₅, hpc₅, -, -, -, hfetch⟩ := hbody left _ hk₄ ⟨_, rfl⟩
      (fun a _ _ => by rw [hm₄]) (hat 63 _ hr₄ (by decide) rfl hpc₄)
    have hr₅ := hr₄.trans hp₅.reaches
    rw [hpc₂] at hpc₅
    obtain ⟨fetched, ht₆, hstack, hsp', hfp'⟩ := hfetch (hat 27 _ hr₅ (by decide) rfl hpc₅)
    exact ⟨m₀, _, fetched, rfl, hcontinues, rfl, hsp, hr₅.trans ht₆.performs.reaches, hstack,
      hsp', hfp'⟩

end Frame
end IntervalStack
