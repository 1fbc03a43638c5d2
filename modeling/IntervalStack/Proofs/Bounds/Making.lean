import IntervalStack.Proofs.Bounds.Record

/-! Making an interval. The code of a bound may do anything, as long as it leaves the value on the
stack, keeps the accounts, and does not touch the records that are being filled. The code of an
interval does no more than this either. -/

namespace IntervalStack.Drain
open RefCounter Generator

variable {counter : RefCounter} {structs : StructTable} {image : Image}
  {S : Site counter structs image} {raw own : List Nat} {m₀ m m₁ m' : Machine} {sub ty : Ty}
  {c low high : Code} {vs stack : List Value} {store : Instr} {b : HeapBlock} {which : Bound} {a : Nat}
  {heap' : Heap}

def Spared (raw : List Nat) (m m' : Machine) : Prop :=
  ∀ b ∈ m.heap.live, b.start ∈ raw →
    b ∈ m'.heap.live ∧ ∀ a, b.start ≤ a → a < b.stop → m'.memory.get a = m.memory.get a

theorem Spared.trans (h : Spared raw m m₁) (h' : Spared raw m₁ m') : Spared raw m m' := by
  intro b hb hraw
  obtain ⟨hb₁, hget⟩ := h b hb hraw
  obtain ⟨hb', hget'⟩ := h' b hb₁ hraw
  exact ⟨hb', fun a hstart hstop => (hget' a hstart hstop).trans (hget a hstart hstop)⟩

theorem Spared.of_eq (hmemory : m'.memory = m.memory) (hheap : m'.heap = m.heap) : Spared raw m m' :=
  fun _ hb _ => ⟨hheap ▸ hb, fun _ _ _ => by rw [hmemory]⟩

theorem Spared.of_cons {r : Nat} (h : Spared (r :: raw) m m') : Spared raw m m' :=
  fun b hb hraw => h b hb (List.mem_cons_of_mem _ hraw)

theorem Spared.of_fills (hf : Memory.Fills b m.memory m'.memory) (ht : m'.heap.Tidy)
    (hlow : m'.heap.limit ≤ 0x80000000) (hb : b ∈ m'.heap.live) (hraw : b.start ∉ raw)
    (hlive : ∀ d ∈ m.heap.live, d ∈ m'.heap.live) : Spared raw m m' := by
  intro d hd hraw'
  have hne : d ≠ b := fun heq => hraw (heq ▸ hraw')
  exact ⟨hlive d hd, fun _ hx hx' => get_of_fills hf ht hlow hb (hlive d hd) hne hx hx'⟩

/-- The code at the program counter has left operands on the stack. The accounts are in order, and the
records in `raw` have been spared. -/
structure Site.Passed (S : Site counter structs image) (raw own : List Nat) (c : Code)
    (vs : List Value) (m m' : Machine) : Prop where
  reaches : Machine.Reaches m m'
  running : m'.halted = false
  pc : m'.pc = m.pc + c.executable.length
  stack : m'.stack = vs ++ m.stack
  balanced : S.Balanced raw own m'.memory m'.heap
  spared : Spared raw m m'

theorem Site.Passed.trans {own' : List Nat} {c' : Code} {ws : List Value}
    (h : S.Passed raw own c vs m m₁) (h' : S.Passed raw own' c' ws m₁ m') :
    S.Passed raw own' (c ++ c') (ws ++ vs) m m' where
  reaches := h.reaches.trans h'.reaches
  running := h'.running
  pc := by rw [h'.pc, h.pc, Code.executable_append, List.length_append, Nat.add_assoc]
  stack := by rw [h'.stack, h.stack, List.append_assoc]
  balanced := h'.balanced
  spared := h.spared.trans h'.spared

/-- The operands are a value of the type, which holds its reference. -/
structure Site.Supplied (S : Site counter structs image) (raw own : List Nat) (ty : Ty) (c : Code)
    (vs : List Value) (m m' : Machine) : Prop extends S.Passed raw (ty.refs vs ++ own) c vs m m' where
  operands : ty.Operands vs

/-- The machine has got to the code of a bound, and has written to the record only. -/
structure Site.Awaiting (S : Site counter structs image) (b : HeapBlock) (raw own : List Nat) (c : Code)
    (heap : Heap) (m m' : Machine) : Prop where
  reaches : Machine.Reaches m m'
  running : m'.halted = false
  placed : Placed m'.image m'.pc c
  heap : m'.heap = heap
  fills : Memory.Fills b m.memory m'.memory
  balanced : S.Balanced (b.start :: raw) own m'.memory m'.heap

/-- The machine gets to the code of a bound, where the property holds. -/
def Site.Awaits (S : Site counter structs image) (b : HeapBlock) (raw own : List Nat) (c : Code)
    (heap : Heap) (m : Machine) (Q : Machine → Prop) : Prop :=
  ∃ m₁, S.Awaiting b raw own c heap m m₁ ∧ Q m₁

structure Provides (m₀ : Machine) (S : Site counter structs m₀.image) : Prop where
  size : m₀.memory.size < UInt32.size
  below : S.index + 4 ≤ m₀.heap.base
  base : m₀.heap.base ≤ m₀.heap.limit
  limit : m₀.heap.limit ≤ m₀.memory.size
  low : m₀.heap.limit ≤ 0x80000000
  allocate : m₀.image.label? Environment.allocateEntry = none
  divides : (m₀.image.label? Environment.divideByZero).isSome
  increment : ∃ q, Placed m₀.image q incrementCode
  codes : Codes structs

theorem Provides.addresses {S : Site counter structs m₀.image} (P : Provides m₀ S)
    (hm : Machine.Intact m₀ m) : S.Addresses m.memory m.heap := by
  have hbelow := P.below
  have hbase := P.base
  have hlimit := P.limit
  have hlow := P.low
  have hbase' := hm.heap.base_eq
  have hlimit' := hm.heap.limit_eq
  have hsize := hm.size
  exact ⟨⟨by omega, by omega, by omega⟩, hm.heap.sound.tidy, by omega, by omega⟩

theorem Site.Addresses.block_bounds {memory : Memory} {heap : Heap} (h : S.Addresses memory heap)
    (hb : b ∈ heap.live) : 4 ≤ b.start ∧ b.stop ≤ 0x80000000 := by
  have hinside := h.tidy.inside b hb
  have hbelow := h.below
  have hlow := h.low
  omega

theorem refs_ofNat (hheap : ty.isHeap = true) (hbounds : 4 ≤ b.start ∧ b.stop ≤ 0x80000000) :
    ty.refs [.int (Int32.ofNat b.start)] = [b.start] := by
  have hend : b.stop = b.start + b.size := rfl
  have hread : (Int32.ofNat b.start).toUInt32.toNat = b.start :=
    UInt32.toNat_ofNat_of_lt' (by simp only [UInt32.size]; omega)
  rw [Ty.refs_of_heap hheap, hread]
  exact List.filter_eq_self.2 fun x hx => decide_eq_true (by rw [List.mem_singleton.1 hx]; omega)

def bothBounds (low high : List Value) : Bound → List Value
  | .low => low
  | .high => high

structure Site.AtBound (S : Site counter structs image) (raw own : List Nat) (sub : Ty) (b : HeapBlock)
    (which : Bound) (stack : List Value) (m : Machine) : Prop where
  running : m.halted = false
  live : b ∈ m.heap.live
  headed : Headed sub m.memory b
  stack : m.stack = .int (Int32.ofNat (b.start + Layout.boundAt sub which))
    :: .int (Int32.ofNat b.start) :: stack
  balanced : S.Balanced (b.start :: raw) own m.memory m.heap

structure Site.AtStore (S : Site counter structs image) (raw own : List Nat) (sub : Ty) (b : HeapBlock)
    (which : Bound) (vs stack : List Value) (m : Machine) : Prop where
  running : m.halted = false
  live : b ∈ m.heap.live
  headed : Headed sub m.memory b
  stack : m.stack = vs ++ .int (Int32.ofNat (b.start + Layout.boundAt sub which))
    :: .int (Int32.ofNat b.start) :: stack
  operands : sub.Operands vs
  balanced : S.Balanced (b.start :: raw) own m.memory m.heap

theorem Site.AtBound.atStore (h : S.AtBound raw own sub b which stack m)
    (hsupplied : S.Supplied (b.start :: raw) own sub c vs m m') :
    S.AtStore raw (sub.refs vs ++ own) sub b which vs stack m' := by
  obtain ⟨hb, hbytes⟩ := hsupplied.spared b h.live List.mem_cons_self
  have hroom := h.headed.room
  have htotal := Layout.toNat_intervalSize sub
  have hend : b.stop = b.start + b.size := rfl
  exact {
    running := hsupplied.running
    live := hb
    headed := h.headed.congr fun i hi => hbytes _ (by omega) (by omega)
    stack := by rw [hsupplied.stack, h.stack]
    operands := hsupplied.operands
    balanced := hsupplied.balanced }

theorem Site.AtStore.stores (h : S.AtStore raw own sub b which vs stack m)
    (ha : S.Addresses m.memory m.heap) (hs : Instr.store? sub = some store)
    (hi : image.code[m.pc]? = some store) :
    ∃ memory', memory' = m.memory.write (b.start + Layout.boundAt sub which) (sub.bytes vs) ∧
      Memory.Fills b m.memory memory' ∧ Headed sub memory' b ∧
      memory'.operands sub (b.start + Layout.boundAt sub which) = sub.stored vs ∧
      S.Balanced (b.start :: raw) own memory' m.heap ∧
      Goes image m.view ⟨m.pc + 1, .int (Int32.ofNat b.start) :: stack, memory', m.heap⟩ := by
  obtain ⟨-, hstop⟩ := ha.block_bounds h.live
  obtain ⟨hbehind, hinside, -⟩ := bound_inside h.headed.room h.operands which
  obtain ⟨hfills, hheaded, hread⟩ := h.headed.storeBound hstop h.operands which
  obtain ⟨-, hslots⟩ := @slots_kindCode sub b structs h.headed.room
  refine ⟨_, rfl, hfills, hheaded, hread, ?_, ?_⟩
  · refine h.balanced.filled ha h.live List.mem_cons_self hfills ?_
    rw [hheaded.code]
    exact hslots
  · rw [Machine.view, h.stack]
    exact ha.store h.live hi hs h.operands (by omega) hinside

/-! The machine between the bounds. -/

section Between

variable {S : Site counter structs m₀.image} {vl vh : List Value}

theorem Provides.begins (P : Provides m₀ S) (hm : Machine.Intact m₀ m) (hrunning : m.halted = false)
    (hp : Placed m₀.image m.pc (headerCode sub)) (h : S.Balanced raw own m.memory m.heap)
    (halloc : m.heap.allocate (Layout.intervalSize sub).toNat = .ok (a, heap')) :
    ∃ b m', b.start = a ∧ b.start ∉ raw ∧ Machine.Reaches m m' ∧ m'.pc = m.pc + 18 ∧
      m'.heap = heap' ∧ Memory.Fills b m.memory m'.memory ∧
      S.AtBound raw own sub b .low m.stack m' ∧ Spared raw m m' := by
  obtain ⟨b, hb, rfl, memory', hfills, hheaded, hraw, hbalanced, hgoes⟩ :=
    h.begins m.stack (P.addresses hm) P.allocate hm.heap.sound hp halloc
  have hperm := (@Site.Balanced.perm_of_allocate _ _ _ S m.memory _ _ _ _ _ hm.heap.sound halloc hb
    rfl).1
  rw [← hm.image] at hgoes
  obtain ⟨steps, hreach⟩ := Machine.reaches_of_goes hrunning hgoes
  have ha := P.addresses (hreach.intact P.size hm)
  refine ⟨b, _, rfl, hraw, hreach, rfl, rfl, hfills, ⟨rfl, hb, hheaded, rfl, hbalanced⟩, ?_⟩
  exact Spared.of_fills hfills ha.tidy ha.low hb hraw fun d hd =>
    hperm.mem_iff.2 (List.mem_cons_of_mem _ hd)

theorem Provides.storesLow (P : Provides m₀ S) (hm : Machine.Intact m₀ m)
    (h : S.AtStore raw own sub b .low vl stack m) (hs : Instr.store? sub = some store)
    (hi : m₀.image.code[m.pc]? = some store) (hp : Placed m₀.image (m.pc + 1)
      [Instr.duplicate, .pushI (Layout.boundOffset sub .high), .add]) (hraw : b.start ∉ raw) :
    ∃ m', Machine.Reaches m m' ∧ m'.pc = m.pc + 4 ∧ m'.heap = m.heap ∧
      Memory.Fills b m.memory m'.memory ∧ S.AtBound raw own sub b .high stack m' ∧
      m'.memory.operands sub (b.start + Layout.boundAt sub .low) = sub.stored vl ∧
      Spared raw m m' := by
  obtain ⟨memory', -, hfills, hheaded, hread, hbalanced, hgoes⟩ := h.stores (P.addresses hm) hs hi
  replace hgoes := hgoes.trans (hp.act 0 _ ⟨[], rfl⟩ (act_boundAddress .high))
  rw [← hm.image] at hgoes
  obtain ⟨steps, hreach⟩ := Machine.reaches_of_goes h.running hgoes
  have ha := P.addresses (hreach.intact P.size hm)
  refine ⟨_, hreach, rfl, rfl, hfills, ⟨rfl, h.live, hheaded, rfl, hbalanced⟩, hread, ?_⟩
  exact Spared.of_fills hfills ha.tidy ha.low h.live hraw fun _ hd => hd

theorem Provides.storesHigh (P : Provides m₀ S) (hm : Machine.Intact m₀ m)
    (h : S.AtStore raw (sub.refs vh ++ (sub.refs vl ++ own)) sub b .high vh stack m)
    (hs : Instr.store? sub = some store) (hi : m₀.image.code[m.pc]? = some store)
    (hraw : b.start ∉ raw) (hvl : sub.Operands vl)
    (hread : m.memory.operands sub (b.start + Layout.boundAt sub .low) = sub.stored vl) :
    ∃ m', Machine.Reaches m m' ∧ m'.halted = false ∧ m'.pc = m.pc + 1 ∧
      m'.stack = .int (Int32.ofNat b.start) :: stack ∧ m'.heap = m.heap ∧
      Memory.Fills b m.memory m'.memory ∧ m'.memory.word b.start = 1 ∧
      HoldsInterval sub (bothBounds vl vh) m'.memory b ∧
      S.Balanced raw (b.start :: own) m'.memory m'.heap ∧ Spared raw m m' := by
  have ha := P.addresses hm
  have hstop := (ha.block_bounds h.live).2
  have hlow := @operands_low_storeHigh sub m.memory b vh h.headed.room hstop h.operands
  obtain ⟨memory', hwritten, hfills, hheaded, hhigh, hbalanced, hgoes⟩ := h.stores ha hs hi
  rw [← hwritten, hread] at hlow
  have hholds : HoldsInterval sub (bothBounds vl vh) memory' b := {
    kind := hheaded.kind
    width := hheaded.width
    inside := fun which => ⟨(Layout.boundAt_add_le sub which).1,
      Nat.le_trans (Layout.boundAt_add_le sub which).2 hheaded.room⟩
    apart := Nat.le_of_eq (by rw [Layout.boundAt_low, Layout.boundAt_high])
    bounds := by
      intro which
      cases which with
      | low => exact hlow
      | high => exact hhigh }
  have hrefs := @refs_of_holdsInterval sub memory' b _ _ _ S m.heap _ hholds
    (by intro which; cases which; exacts [hvl, h.operands])
  -- both bounds hand their references over to the record
  have hhanded : (sub.refs vh ++ (sub.refs vl ++ own)).Perm
      ((S.graph memory' m.heap).refs b.start ++ own) := by
    rw [hrefs, ← List.append_assoc]
    exact List.perm_append_comm.append_right _
  rw [← hm.image] at hgoes
  obtain ⟨steps, hreach⟩ := Machine.reaches_of_goes h.running hgoes
  have ha' := P.addresses (hreach.intact P.size hm)
  refine ⟨_, hreach, rfl, rfl, rfl, rfl, hfills, hheaded.count, hholds,
    hbalanced.closed hhanded hraw hheaded.count, ?_⟩
  exact Spared.of_fills hfills ha'.tidy ha'.low h.live hraw fun _ hd => hd

end Between

/-- The code of an interval has made the record. -/
structure Site.Made (S : Site counter structs image) (b : HeapBlock) (raw own : List Nat) (sub : Ty)
    (c : Code) (bounds : Bound → List Value) (m m' : Machine) : Prop where
  supplied : S.Supplied raw own (.interval sub) c [.int (Int32.ofNat b.start)] m m'
  operands : ∀ which, sub.Operands (bounds which)
  live : b ∈ m'.heap.live
  count : m'.memory.word b.start = 1
  holds : HoldsInterval sub bounds m'.memory b

/-- The record was complete once its upper bound had been stored. -/
structure Site.Completed (S : Site counter structs image) (b : HeapBlock) (raw own : List Nat) (sub : Ty)
    (c : Code) (bounds : Bound → List Value) (m m₁ m' : Machine) : Prop
    extends S.Made b raw own sub c bounds m m' where
  stored : Machine.Reaches m₁ m'
  heap : m'.heap = m₁.heap
  fills : Memory.Fills b m₁.memory m'.memory

theorem Provides.makes {S : Site counter structs m₀.image} (P : Provides m₀ S)
    (hm : Machine.Intact m₀ m) (hrunning : m.halted = false) (hs : Instr.store? sub = some store)
    (hp : Placed m₀.image m.pc (intervalCode sub (Layout.kindCode sub) store low high))
    (h : S.Balanced raw own m.memory m.heap)
    (halloc : m.heap.allocate (Layout.intervalSize sub).toNat = .ok (a, heap')) :
    ∃ b, b.start = a ∧ S.Awaits b raw own low heap' m fun m₁ =>
      ∀ vl m₂, S.Supplied (b.start :: raw) own sub low vl m₁ m₂ →
        S.Awaits b raw (sub.refs vl ++ own) high m₂.heap m₂ fun m₃ =>
          ∀ vh m₄, S.Supplied (b.start :: raw) (sub.refs vl ++ own) sub high vh m₃ m₄ →
            ∃ m₅, S.Completed b raw own sub
              (intervalCode sub (Layout.kindCode sub) store low high) (bothBounds vl vh) m m₄ m₅ := by
  have parts := intervalParts hs hp
  obtain ⟨b, m₁, hstart, hraw, hreach₁, hpc₁, hheap₁, hfills₁, hat₁, hspared₁⟩ :=
    P.begins hm hrunning parts.header h halloc
  have hm₁ := hreach₁.intact P.size hm
  have hplaced₁ : Placed m₁.image m₁.pc low := by
    rw [hm₁.image, hpc₁]
    exact parts.lowAt
  refine ⟨b, hstart, m₁, ⟨hreach₁, hat₁.running, hplaced₁, hheap₁, hfills₁, hat₁.balanced⟩,
    fun vl m₂ hlow => ?_⟩
  have hm₂ := hlow.reaches.intact P.size hm₁
  have hpc₂ := hlow.pc
  rw [hpc₁] at hpc₂
  have hat₂ := hat₁.atStore hlow
  obtain ⟨m₃, hreach₃, hpc₃, hheap₃, hfills₃, hat₃, hread₃, hspared₃⟩ :=
    P.storesLow hm₂ hat₂ hs (hpc₂ ▸ parts.storeLow) (hpc₂ ▸ parts.highAddress) hraw
  have hm₃ := hreach₃.intact P.size hm₂
  rw [hpc₂] at hpc₃
  have hplaced₃ : Placed m₃.image m₃.pc high := by
    rw [hm₃.image, hpc₃]
    exact parts.highAt
  refine ⟨m₃, ⟨hreach₃, hat₃.running, hplaced₃, hheap₃, hfills₃, hat₃.balanced⟩,
    fun vh m₄ hhigh => ?_⟩
  have hm₄ := hhigh.reaches.intact P.size hm₃
  have hpc₄ := hhigh.pc
  rw [hpc₃] at hpc₄
  have hat₄ := hat₃.atStore hhigh
  have hread₄ : m₄.memory.operands sub (b.start + Layout.boundAt sub .low) = sub.stored vl := by
    obtain ⟨hbehind, hinside, -⟩ := bound_inside hat₃.headed.room hlow.operands .low
    have hbytes := (hhigh.spared b hat₃.live List.mem_cons_self).2
    rw [← hread₃]
    exact Ty.operands_congr fun i hi => hbytes _ (by omega) (by omega)
  obtain ⟨m₅, hreach₅, hrunning₅, hpc₅, hstack₅, hheap₅, hfills₅, hone, hholds, hbalanced, hspared₅⟩ :=
    P.storesHigh hm₄ hat₄ hs (hpc₄ ▸ parts.storeHigh) hraw hlow.operands hread₄
  have hbounds := (P.addresses hm₄).block_bounds hat₄.live
  exact ⟨m₅, {
    supplied := {
      reaches := hreach₁.trans (hlow.reaches.trans (hreach₃.trans (hhigh.reaches.trans hreach₅)))
      running := hrunning₅
      pc := by
        rw [length_intervalCode hs, hpc₅]
        omega
      stack := hstack₅
      operands := ⟨_, rfl⟩
      balanced := by
        rw [refs_ofNat rfl hbounds]
        exact hbalanced
      spared := hspared₁.trans (hlow.spared.of_cons.trans
        (hspared₃.trans (hhigh.spared.of_cons.trans hspared₅))) }
    operands := by
      intro which
      cases which with
      | low => exact hlow.operands
      | high => exact hhigh.operands
    live := hheap₅ ▸ hat₄.live
    count := hone
    holds := hholds
    stored := hreach₅
    heap := hheap₅
    fills := hfills₅ }⟩

end IntervalStack.Drain
