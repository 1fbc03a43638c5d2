import IntervalStack.Proofs.Bounds.Balance
import IntervalStack.Proofs.Drain.Kinds
import IntervalStack.Proofs.Frames.Operands
import IntervalStack.Proofs.Printing.Output

/-! The record of an interval: its header, the places of its bounds, and the code that fills it. -/

namespace IntervalStack

def Ty.refs : Ty → List Value → List Nat
  | .interval _, [.int n] | .struct _, [.int n] => [n.toUInt32.toNat].filter (· ≠ 0)
  | _, _ => []

theorem Ty.refs_of_not_heap {ty : Ty} (h : ty.isHeap = false) (vs : List Value) : ty.refs vs = [] := by
  cases ty with
  | interval | struct => cases h
  | _ => rfl

theorem Ty.refs_of_heap {ty : Ty} (h : ty.isHeap = true) (n : Int32) :
    ty.refs [.int n] = [n.toUInt32.toNat].filter (· ≠ 0) := by
  cases ty with
  | interval | struct => rfl
  | _ => cases h

theorem Ty.refs_stored (ty : Ty) (vs : List Value) : ty.refs (ty.stored vs) = ty.refs vs := by
  cases ty with
  | interval | struct => rw [Ty.stored]; all_goals nofun
  | _ => rfl

theorem Ty.operands_of_heap {ty : Ty} {vs : List Value} (hheap : ty.isHeap = true)
    (h : ty.Operands vs) : ∃ n, vs = [.int n] ∧ ty.stored vs = vs := by
  cases ty with
  | interval | struct =>
    obtain ⟨n, rfl⟩ := h
    exact ⟨n, rfl, rfl⟩
  | _ => cases hheap

namespace Layout

variable (sub : Ty)

def boundAt (which : Bound) : Nat := (boundOffset sub which).toInt.toNat

theorem boundAt_low : boundAt sub .low = 12 := rfl

theorem boundAt_high : boundAt sub .high = 12 + sub.size.toNat := by cases sub <;> rfl

theorem ofNat_boundAt (which : Bound) : Int32.ofNat (boundAt sub which) = boundOffset sub which := by
  cases which <;> cases sub <;> rfl

theorem boundOffset_nonneg (which : Bound) : 0 ≤ (boundOffset sub which).toInt := by
  cases which with
  | low => exact (by decide : (0 : Int) ≤ payloadOffset.toInt)
  | high =>
    cases sub with
    | interval | struct => exact (by decide : (0 : Int) ≤ (16 : Int32).toInt)
    | _ => decide

theorem toNat_intervalSize : (intervalSize sub).toNat = 12 + 2 * sub.size.toNat := by
  cases sub <;> rfl

theorem size_le : sub.size.toNat ≤ 8 := by
  cases sub with
  | interval | struct => exact (by decide : (4 : UInt32).toNat ≤ 8)
  | _ => decide

def kindCode : Int32 := if sub.isHeap then nestedIntervalCode else flatIntervalCode

theorem boundAt_add_le (which : Bound) :
    12 ≤ boundAt sub which ∧ boundAt sub which + sub.size.toNat ≤ (intervalSize sub).toNat := by
  rw [toNat_intervalSize]
  cases which with
  | low =>
    rw [boundAt_low]
    omega
  | high =>
    rw [boundAt_high]
    omega

end Layout

structure Headed (sub : Ty) (memory : Memory) (b : HeapBlock) : Prop where
  room : (Layout.intervalSize sub).toNat ≤ b.size
  count : memory.word b.start = 1
  code : memory.word (b.start + 4) = Layout.kindCode sub
  width : (memory.get (b.start + 11)).toNat = sub.size.toNat

structure HoldsInterval (sub : Ty) (bounds : Bound → List Value) (memory : Memory) (b : HeapBlock) :
    Prop where
  kind : (RecordKind.of? (.interval sub)).map (·.typeCode)
    = some (.ok (memory.word (b.start + 4)))
  width : (memory.get (b.start + 11)).toNat = sub.size.toNat
  inside : ∀ which, 12 ≤ Layout.boundAt sub which ∧
    Layout.boundAt sub which + sub.size.toNat ≤ b.size
  apart : Layout.boundAt sub .low + sub.size.toNat ≤ Layout.boundAt sub .high
  bounds : ∀ which, memory.operands sub (b.start + Layout.boundAt sub which)
    = sub.stored (bounds which)

variable {sub : Ty} {memory memory' : Memory} {b : HeapBlock} {vs : List Value}

theorem Headed.congr (h : Headed sub memory b)
    (hget : ∀ i < 12, memory'.get (b.start + i) = memory.get (b.start + i)) : Headed sub memory' b := by
  refine ⟨h.room, ?_, ?_, ?_⟩
  · rw [Memory.word_congr fun i hi => hget i (by omega), h.count]
  · have hcode : memory'.word (b.start + 4) = memory.word (b.start + 4) :=
      Memory.word_congr fun i hi => by
        rw [Nat.add_assoc]
        exact hget _ (by omega)
    rw [hcode, h.code]
  · rw [hget 11 (by omega), h.width]

theorem Headed.kind (h : Headed sub memory b) :
    (RecordKind.of? (.interval sub)).map (·.typeCode) = some (.ok (memory.word (b.start + 4))) := by
  rw [h.code, RecordKind.of?, Layout.kindCode]
  cases sub.isHeap <;> rfl

theorem HoldsInterval.code {bounds : Bound → List Value} (h : HoldsInterval sub bounds memory b) :
    memory.word (b.start + 4) = Layout.kindCode sub := by
  have hkind := h.kind
  rw [RecordKind.of?] at hkind
  unfold Layout.kindCode
  cases hheap : sub.isHeap with
  | _ =>
    rw [hheap] at hkind
    exact (Except.ok.inj (Option.some.inj hkind)).symm

theorem HoldsInterval.congr {bounds : Bound → List Value} (h : HoldsInterval sub bounds memory b)
    (hget : ∀ i < b.size, memory'.get (b.start + i) = memory.get (b.start + i)) :
    HoldsInterval sub bounds memory' b := by
  have hinside := h.inside .low
  have hcode : memory'.word (b.start + 4) = memory.word (b.start + 4) :=
    Memory.word_congr fun i hi => by
      rw [Nat.add_assoc]
      exact hget _ (by omega)
  refine ⟨hcode ▸ h.kind, ?_, h.inside, h.apart, fun which => ?_⟩
  · rw [hget 11 (by omega), h.width]
  · have hwhich := h.inside which
    rw [← h.bounds which]
    refine Ty.operands_congr fun i hi => ?_
    rw [Nat.add_assoc]
    exact hget _ (by omega)

theorem bound_inside (hroom : (Layout.intervalSize sub).toNat ≤ b.size) (hvs : sub.Operands vs)
    (which : Bound) : b.start + 12 ≤ b.start + Layout.boundAt sub which ∧
      b.start + Layout.boundAt sub which + sub.size.toNat ≤ b.stop ∧
      b.start + Layout.boundAt sub which + (sub.bytes vs).length ≤ b.stop := by
  have hinside := Layout.boundAt_add_le sub which
  rw [Ty.length_bytes hvs, HeapBlock.stop]
  omega

theorem Headed.storeBound (h : Headed sub memory b) (hlow : b.stop ≤ 0x80000000)
    (hvs : sub.Operands vs) (which : Bound) :
    Memory.Fills b memory (memory.write (b.start + Layout.boundAt sub which) (sub.bytes vs)) ∧
      Headed sub (memory.write (b.start + Layout.boundAt sub which) (sub.bytes vs)) b ∧
      (memory.write (b.start + Layout.boundAt sub which) (sub.bytes vs)).operands sub
        (b.start + Layout.boundAt sub which) = sub.stored vs := by
  obtain ⟨hbehind, hinside, hbytes⟩ := bound_inside h.room hvs which
  have hmax : UInt32.size = 0x100000000 := rfl
  refine ⟨.write (by omega) hbytes hlow, h.congr fun i hi => ?_, Ty.operands_write hvs (by omega)⟩
  exact Memory.get_write_of_outside _ (by omega) (by omega) (by omega)

theorem operands_low_storeHigh (hroom : (Layout.intervalSize sub).toNat ≤ b.size)
    (hlow : b.stop ≤ 0x80000000) (hvs : sub.Operands vs) :
    (memory.write (b.start + Layout.boundAt sub .high) (sub.bytes vs)).operands sub
        (b.start + Layout.boundAt sub .low)
      = memory.operands sub (b.start + Layout.boundAt sub .low) := by
  obtain ⟨-, -, hbytes⟩ := bound_inside hroom hvs .high
  have hmax : UInt32.size = 0x100000000 := rfl
  rw [Layout.boundAt_high] at hbytes ⊢
  rw [Layout.boundAt_low]
  exact Ty.operands_congr fun i hi =>
    Memory.get_write_of_outside _ (by omega) (by omega) (by omega)

namespace Drain
open RefCounter Generator

variable {counter : RefCounter} {structs : StructTable} {image : Image}
  {S : Site counter structs image} {heap heap' : Heap} {raw own : List Nat} {p a : Nat}
  {stack : List Value} {ty : Ty} {i : Instr}

theorem slots_kindCode (hroom : (Layout.intervalSize sub).toNat ≤ b.size) :
    Has b Layout.typeCodeOffset ∧ ∀ o ∈ slotsOf structs (Layout.kindCode sub), Has b o := by
  rw [Layout.toNat_intervalSize] at hroom
  refine ⟨⟨by decide, Nat.le_trans (by decide : _ ≤ 12) (by omega)⟩, ?_⟩
  unfold Layout.kindCode
  cases hheap : sub.isHeap with
  | false => exact nofun
  | true =>
    have hsize : sub.size.toNat = 4 := by
      cases sub with
      | interval | struct => rfl
      | _ => cases hheap
    exact List.forall_mem_cons.2 ⟨⟨by decide, Nat.le_trans (by decide : _ ≤ 20) (by omega)⟩,
      List.forall_mem_singleton.2 ⟨by decide, Nat.le_trans (by decide : _ ≤ 20) (by omega)⟩⟩

theorem refs_of_holdsInterval {bounds : Bound → List Value} (h : HoldsInterval sub bounds memory b)
    (hbounds : ∀ which, sub.Operands (bounds which)) :
    (S.graph memory heap).refs b.start = sub.refs (bounds .low) ++ sub.refs (bounds .high) := by
  rw [Site.graph_refs, h.code]
  unfold Layout.kindCode
  cases hheap : sub.isHeap with
  | false =>
    rw [Ty.refs_of_not_heap hheap, Ty.refs_of_not_heap hheap]
    rfl
  | true =>
    have hword (which : Bound) : sub.refs (bounds which)
        = [(memory.word (b.start + Layout.boundAt sub which)).toUInt32.toNat].filter (· ≠ 0) := by
      obtain ⟨n, hn, hstored⟩ := Ty.operands_of_heap hheap (hbounds which)
      have hread := h.bounds which
      rw [hstored, hn] at hread
      have hoperands : memory.operands sub (b.start + Layout.boundAt sub which)
          = [.int (memory.word (b.start + Layout.boundAt sub which))] := by
        cases sub with
        | interval | struct => rfl
        | _ => cases hheap
      rw [hoperands] at hread
      rw [hn, Ty.refs_of_heap hheap]
      cases hread
      rfl
    have hhigh : Layout.boundAt sub .high = 16 := by
      cases sub with
      | interval | struct => rfl
      | _ => cases hheap
    rw [hword, hword, hhigh]
    exact refsAt_cons memory b.start Layout.payloadOffset _

/-! Code that moves values to and from a live record. -/

theorem Site.Addresses.allocated {size : Nat} (h : S.Addresses memory heap) (hs : heap.Sound)
    (ha : heap.allocate size = .ok (a, heap')) : S.Addresses memory heap' := by
  have htidy := (hs.allocate ha).tidy
  obtain ⟨free, -, -, rfl⟩ := Heap.allocate_ok ha
  exact ⟨⟨h.below, h.base, h.small⟩, htidy, h.limit, h.low⟩

theorem Site.Addresses.store (h : S.Addresses memory heap) (hb : b ∈ heap.live)
    (hi : image.code[p]? = some i) (hs : Instr.store? ty = some i) (hvs : ty.Operands vs)
    (hstart : b.start ≤ a) (hstop : a + ty.size.toNat ≤ b.stop) :
    Goes image ⟨p, vs ++ .int (Int32.ofNat a) :: stack, memory, heap⟩
      ⟨p + 1, stack, memory.write a (ty.bytes vs), heap⟩ := by
  have hinside := h.tidy.inside b hb
  have hlow := h.low
  have hpos : 0 < ty.size.toNat := by
    cases ty with
    | void => cases hs
    | _ => exact Nat.zero_lt_succ _
  refine .one ⟨i, hi, fun output steps => ?_⟩
  exact Machine.execute_store (m := View.machine _ image output steps) hs hvs rfl
    (Heap.Tidy.check (m := View.machine _ image output steps) h.tidy hb hstart hstop hpos (by omega)
      h.limit)

theorem Site.Addresses.load (h : S.Addresses memory heap) (hb : b ∈ heap.live)
    (hi : image.code[p]? = some i) (hl : Instr.load? ty = some i)
    (hstart : b.start ≤ a) (hstop : a + ty.size.toNat ≤ b.stop) :
    Goes image ⟨p, .int (Int32.ofNat a) :: stack, memory, heap⟩
      ⟨p + 1, memory.operands ty a ++ stack, memory, heap⟩ := by
  have hinside := h.tidy.inside b hb
  have hlow := h.low
  refine .one ⟨i, hi, fun output steps => ?_⟩
  exact Machine.execute_load (m := View.machine _ image output steps) hl rfl
    (Heap.Tidy.check (m := View.machine _ image output steps) h.tidy hb hstart hstop
      (Ty.size_pos hl) (by omega) h.limit)

theorem act_boundAddress (which : Bound) :
    Code.act image heap memory [.duplicate, .pushI (Layout.boundOffset sub which), .add]
        (.int (Int32.ofNat b.start) :: stack)
      = some (.int (Int32.ofNat (b.start + Layout.boundAt sub which))
        :: .int (Int32.ofNat b.start) :: stack, memory) := by
  rw [Int32.ofNat_add, Layout.ofNat_boundAt]
  rfl

def headerCode (sub : Ty) : Code :=
  allocateRecord (Layout.intervalSize sub) (Layout.kindCode sub)
    ++ [Instr.duplicate, .pushI Layout.subtypeSizeOffset, .add, .pushI sub.size.toInt32, .storeC]
    ++ [Instr.duplicate, .pushI (Layout.boundOffset sub .low), .add]

theorem Site.Addresses.storeWidth (stack : List Value) (h : S.Addresses memory heap)
    (hb : b ∈ heap.live) (w : Int32) (hroom : 12 ≤ b.size) (hp : Placed image p
      [Instr.duplicate, .pushI Layout.subtypeSizeOffset, .add, .pushI w, .storeC]) :
    Goes image ⟨p, .int (Int32.ofNat b.start) :: stack, memory, heap⟩
      ⟨p + 5, .int (Int32.ofNat b.start) :: stack,
        memory.write (b.start + 11) (Ty.char.bytes [.int w]), heap⟩ := by
  have hbyte : Int32.ofNat b.start + Layout.subtypeSizeOffset = Int32.ofNat (b.start + 11) :=
    Word.ofNat_add_of_nonneg b.start (by decide)
  have hstop : b.start + 11 + Ty.char.size.toNat ≤ b.stop := by
    rw [HeapBlock.stop, show Ty.char.size.toNat = 1 from rfl]
    omega
  refine (hp.act 0 [.duplicate, .pushI Layout.subtypeSizeOffset, .add, .pushI w] ⟨_, rfl⟩ rfl).trans ?_
  rw [hbyte]
  have hvs : Ty.char.Operands [.int w] := ⟨w, rfl⟩
  exact h.store hb (hp.code 4 _ rfl) rfl hvs (Nat.le_add_right _ _) hstop

theorem headed_of_writes (memory : Memory) (hroom : (Layout.intervalSize sub).toNat ≤ b.size)
    (hlow : b.stop ≤ 0x80000000) :
    Headed sub (((memory.setWord b.start 1).setWord (b.start + 4) (Layout.kindCode sub)).write
      (b.start + 11) (Ty.char.bytes [.int sub.size.toInt32])) b := by
  have hsize := Layout.size_le sub
  have htotal := Layout.toNat_intervalSize sub
  have hmax : UInt32.size = 0x100000000 := rfl
  have hone : (Ty.char.bytes [.int sub.size.toInt32]).length = 1 := rfl
  rw [HeapBlock.stop] at hlow
  have hword (a : Nat) (ha : a + 4 ≤ b.start + 11) : Memory.word (((memory.setWord b.start 1).setWord
      (b.start + 4) (Layout.kindCode sub)).write (b.start + 11)
        (Ty.char.bytes [.int sub.size.toInt32])) a
      = ((memory.setWord b.start 1).setWord (b.start + 4) (Layout.kindCode sub)).word a :=
    Memory.word_congr fun i hi => Memory.get_write_of_outside _ (by omega) (by omega) (by omega)
  refine ⟨hroom, ?_, ?_, ?_⟩
  · rw [hword _ (by omega), Memory.word_setWord_of_apart (by omega) (by omega) (by omega),
      Memory.word_setWord_self (by omega)]
  · rw [hword _ (by omega), Memory.word_setWord_self (by omega)]
  · have hread := @Memory.read_write ((memory.setWord b.start 1).setWord (b.start + 4)
      (Layout.kindCode sub)) (b.start + 11) (Ty.char.bytes [.int sub.size.toInt32]) (by omega)
    have hget := List.head_eq_of_cons_eq hread
    rw [hget]
    cases sub <;> rfl

theorem Site.Balanced.begins (stack : List Value) (h : S.Balanced raw own memory heap)
    (ha : S.Addresses memory heap) (hhost : image.label? Environment.allocateEntry = none)
    (hs : heap.Sound) (hp : Placed image p (headerCode sub))
    (halloc : heap.allocate (Layout.intervalSize sub).toNat = .ok (a, heap')) :
    ∃ b ∈ heap'.live, b.start = a ∧ ∃ memory', Memory.Fills b memory memory' ∧
      Headed sub memory' b ∧ b.start ∉ raw ∧ S.Balanced (b.start :: raw) own memory' heap' ∧
      Goes image ⟨p, stack, memory, heap⟩ ⟨p + 18,
        .int (Int32.ofNat (b.start + Layout.boundAt sub .low)) :: .int (Int32.ofNat b.start) :: stack,
        memory', heap'⟩ := by
  have hlow := ha.low
  have hsize := Layout.size_le sub
  have htotal := Layout.toNat_intervalSize sub
  have ha' := ha.allocated hs halloc
  obtain ⟨b, hb, rfl, hroom, hstop⟩ := exists_block_of_allocate hs halloc
  have hend : b.stop = b.start + b.size := rfl
  have hone : (Ty.char.bytes [.int sub.size.toInt32]).length = 1 := rfl
  have hfills : Memory.Fills b memory
      (((memory.setWord b.start 1).setWord (b.start + 4) (Layout.kindCode sub)).write (b.start + 11)
        (Ty.char.bytes [.int sub.size.toInt32])) :=
    ((Memory.Fills.setWord (Nat.le_refl _) (by omega) (by omega)).trans
      (.setWord (by omega) (by omega) (by omega))).trans (.write (by omega) (by omega) (by omega))
  have hheaded := headed_of_writes memory hroom (by omega)
  refine ⟨b, hb, rfl, _, hfills, hheaded, fun hraw => ?_, ?_, ?_⟩
  · -- what was being filled before is older than the record
    exact (Balanced.perm_of_allocate hs halloc hb rfl).2 (h.accounts.inside _ hraw)
  · obtain ⟨htype, hslots⟩ := @slots_kindCode sub b structs hroom
    refine h.opened ha hs halloc hb rfl hfills htype ?_
    rw [hheaded.code]
    exact hslots
  · have hmade := allocates stack hp.left.left hhost hs ha.limit hlow (by omega) (by omega) halloc
    have hsized : ((memory.setWord b.start 1).setWord (b.start + 4) (Layout.kindCode sub)).size
        = memory.size := by
      rw [Memory.size_setWord, Memory.size_setWord]
    have hwidthAt : Placed image (p + 10) [Instr.duplicate, .pushI Layout.subtypeSizeOffset, .add,
      .pushI sub.size.toInt32, .storeC] := hp.left.right
    have hlowAt : Placed image (p + 15) [Instr.duplicate, .pushI (Layout.boundOffset sub .low), .add] :=
      hp.right
    have hmarked := (ha'.of_size hsized).storeWidth stack hb sub.size.toInt32 (by omega) hwidthAt
    exact (hmade.trans hmarked).trans (hlowAt.act 0 _ ⟨[], rfl⟩ (act_boundAddress .low))

structure IntervalParts (image : Image) (p : Nat) (sub : Ty) (store : Instr) (low high : Code) :
    Prop where
  header : Placed image p (headerCode sub)
  lowAt : Placed image (p + 18) low
  storeLow : image.code[p + 18 + low.executable.length]? = some store
  highAddress : Placed image (p + 18 + low.executable.length + 1)
    [Instr.duplicate, .pushI (Layout.boundOffset sub .high), .add]
  highAt : Placed image (p + 18 + low.executable.length + 4) high
  storeHigh : image.code[p + 18 + low.executable.length + 4 + high.executable.length]? = some store

theorem intervalCode_eq (sub : Ty) (store : Instr) (low high : Code) :
    intervalCode sub (Layout.kindCode sub) store low high
      = headerCode sub ++ (low ++ ([store] ++ ([Instr.duplicate,
        .pushI (Layout.boundOffset sub .high), .add] ++ (high ++ [store])))) := by
  simp only [intervalCode, headerCode, List.append_assoc]

theorem executable_store {store : Instr} (hs : Instr.store? sub = some store) :
    Code.executable [store] = [store] := by
  cases sub with
  | void => cases hs
  | _ => cases hs; rfl

theorem length_intervalCode {store : Instr} (hs : Instr.store? sub = some store) (low high : Code) :
    (intervalCode sub (Layout.kindCode sub) store low high).executable.length
      = 18 + low.executable.length + 4 + high.executable.length + 1 := by
  rw [intervalCode_eq]
  simp only [Code.executable_append, List.length_append, executable_store hs]
  rw [show (headerCode sub).executable.length = 18 from rfl,
    show (Code.executable [Instr.duplicate, .pushI (Layout.boundOffset sub .high), .add]).length = 3
      from rfl, List.length_singleton]
  omega

theorem placed_instr {c : Code} (hi : Code.executable [i] = [i]) (h : Placed image p ([i] ++ c)) :
    image.code[p]? = some i ∧ Placed image (p + 1) c := by
  have hright := h.right
  rw [hi] at hright
  exact ⟨h.left.code 0 i (by rw [hi]; rfl), hright⟩

theorem intervalParts {store : Instr} {low high : Code} (hs : Instr.store? sub = some store)
    (hp : Placed image p (intervalCode sub (Layout.kindCode sub) store low high)) :
    IntervalParts image p sub store low high := by
  have hstore := executable_store hs
  rw [intervalCode_eq] at hp
  have hlow : Placed image (p + 18) _ := hp.right
  obtain ⟨hfirst, hrest⟩ := placed_instr hstore hlow.right
  have hhigh : Placed image (p + 18 + low.executable.length + 4) (high ++ [store]) := hrest.right
  have hlast : Placed image _ ([store] ++ []) := hhigh.right
  exact ⟨hp.left, hlow.left, hfirst, hrest.left, hhigh.left, (placed_instr hstore hlast).1⟩

end Drain
end IntervalStack
