import IntervalStack.Proofs.Drain.Code
import IntervalStack.Proofs.HeapBlocks

/-! The routine that schedules a decrement, and the storage of the worklist. -/

namespace IntervalStack

theorem RefCounter.capacity_lt (counter : RefCounter) : 4 * counter.capacity.toNat < 0x80000000 := by
  have hle : counter.capacity.toNat ≤ maxCapacity.toNat := counter.le_max
  have hmax : maxCapacity.toNat = 536870911 := rfl
  omega

theorem RefCounter.ofNat_capacity (counter : RefCounter) :
    Int32.ofNat counter.capacity.toNat = counter.capacity.toInt32 := by
  change (UInt32.ofNat counter.capacity.toNat).toInt32 = _
  rw [UInt32.ofNat_toNat]

namespace Drain
open RefCounter

structure Site (counter : RefCounter) (structs : StructTable) (image : Image) where
  worklist : Nat
  index : Nat
  hworklist : image.dataLabel? RefCounter.worklist = some worklist
  hindex : image.dataLabel? worklistIndex = some index
  apart : worklist + 4 * counter.capacity.toNat ≤ index
  pushAt : Nat
  hpush : Placed image pushAt counter.pushCode
  drainAt : Nat
  hdrain : Placed image drainAt (drainCode structs)
  overflowAt : Nat
  hoverflow : image.label? overflowHandler = some overflowAt
  hhost : image.label? Environment.deallocateEntry = none
  short : image.code.size < 0x80000000

variable {counter : RefCounter} {structs : StructTable} {image : Image}
  (S : Site counter structs image)

/-- The records that are scheduled, the last one to be taken first. -/
structure Site.Holds (work : List Nat) (memory : Memory) : Prop where
  room : work.length ≤ counter.capacity.toNat
  index : memory.word S.index = Int32.ofNat work.length
  entry : ∀ k r, work[k]? = some r → memory.word (S.worklist + 4 * k) = Int32.ofNat r

def Site.Owns (a : Nat) : Prop :=
  S.worklist ≤ a ∧ a < S.worklist + 4 * counter.capacity.toNat ∨ S.index ≤ a ∧ a < S.index + 4

structure Site.Keeps (memory memory' : Memory) : Prop where
  size : memory'.size = memory.size
  get : ∀ a < 0x100000000, ¬ S.Owns a → memory'.get a = memory.get a

/-- The storage of the worklist lies below the heap, and the heap in memory. -/
structure Site.Fits (memory : Memory) (heap : Heap) : Prop where
  tidy : heap.Tidy
  below : S.index + 4 ≤ heap.base
  base : heap.base ≤ memory.size
  limit : heap.limit ≤ memory.size
  small : memory.size < 0x80000000

structure Site.Stores (memory : Memory) (heap : Heap) : Prop where
  below : S.index + 4 ≤ heap.base
  base : heap.base ≤ memory.size
  small : S.index + 4 ≤ 0x80000000

structure Site.Addresses (memory : Memory) (heap : Heap) : Prop extends S.Stores memory heap where
  tidy : heap.Tidy
  limit : heap.limit ≤ memory.size
  low : heap.limit ≤ 0x80000000

variable {S} {memory memory' : Memory} {heap : Heap} {work : List Nat} {stack : List Value}
  {target : Nat}

theorem Site.Fits.addresses (h : S.Fits memory heap) : S.Addresses memory heap := by
  have hbelow := h.below
  have hbase := h.base
  have hlimit := h.limit
  have hsmall := h.small
  exact ⟨⟨hbelow, hbase, by omega⟩, h.tidy, hlimit, by omega⟩

theorem Site.Stores.of_size (h : S.Stores memory heap) (hsize : memory'.size = memory.size) :
    S.Stores memory' heap :=
  ⟨h.below, hsize ▸ h.base, h.small⟩

theorem Site.Addresses.of_size (h : S.Addresses memory heap) (hsize : memory'.size = memory.size) :
    S.Addresses memory' heap :=
  ⟨h.toStores.of_size hsize, h.tidy, hsize ▸ h.limit, h.low⟩

theorem Site.Stores.grants (h : S.Stores memory heap) {a : Nat} (ha : a ≤ S.index) :
    heap.grants memory.size a = true := by
  have := h.below
  have := h.base
  exact Heap.grants_of_below (by omega) (by omega)

theorem Site.Stores.index_lt (h : S.Stores memory heap) : S.index < 0x80000000 := by
  have := h.small
  omega

theorem Site.Stores.act_loadIndex (h : S.Stores memory heap) :
    Code.act image heap memory loadIndex stack = some (.int (memory.word S.index) :: stack, memory) := by
  rw [loadIndex, Code.act, Instr.act_pushD S.hindex, Option.bind_some, Code.act,
    Instr.act_loadI h.index_lt (h.grants (Nat.le_refl _))]
  rfl

theorem Site.Stores.act_slotAddress (h : S.Stores memory heap) {k : Nat}
    (hk : memory.word S.index = Int32.ofNat k) :
    Code.act image heap memory slotAddress stack
      = some (.int (Int32.ofNat (S.worklist + 4 * k)) :: stack, memory) := by
  have hslot : Int32.ofNat S.worklist + Int32.ofNat k * Layout.pointerSize.toInt32
      = Int32.ofNat (S.worklist + 4 * k) := by
    rw [Nat.mul_comm 4, Int32.ofNat_add, Int32.ofNat_mul]
    rfl
  rw [slotAddress, Code.act_append, Code.act_append, Code.act, Instr.act_pushD S.hworklist,
    Option.bind_some, Code.act, Option.bind_some, h.act_loadIndex, hk, Option.bind_some, ← hslot]
  rfl

theorem Site.Stores.act_bumpIndex (h : S.Stores memory heap) (delta : Int32) :
    Code.act image heap memory (bumpIndex delta) stack
      = some (stack, memory.setWord S.index (memory.word S.index + delta)) := by
  rw [bumpIndex, Code.act_append, Code.act_append, Code.act, Instr.act_pushD S.hindex,
    Option.bind_some, Code.act, Option.bind_some, h.act_loadIndex, Option.bind_some]
  show (Instr.storeI.act image heap memory _).bind _ = _
  rw [Instr.act_storeI h.index_lt (h.grants (Nat.le_refl _))]
  rfl

theorem Site.push_null (S : Site counter structs image) (ht : target < 0x80000000) :
    Goes image ⟨S.pushAt, .int (Int32.ofNat target) :: .int 0 :: stack, memory, heap⟩
      ⟨target, stack, memory, heap⟩ := by
  have hnull : image.label? "-rctr-push-null" = some (S.pushAt + 24) :=
    S.hpush.label (counter.pushCode.take 26) _ (counter.pushCode.drop 27) rfl
  refine (S.hpush.act 0 [.exchange, .duplicate] ⟨_, rfl⟩ rfl).trans ?_
  refine (Goes.one (.jumpFalse (S.hpush.code 2 _ rfl) hnull 0)).trans ?_
  rw [if_pos rfl]
  refine (S.hpush.act 24 [.pop] ⟨_, rfl⟩ rfl).trans ?_
  exact .one (.ret (S.hpush.code 25 _ rfl) ht)

theorem Site.push_test (h : S.Stores memory heap) {k : Nat}
    (hk : memory.word S.index = Int32.ofNat k) (hroom : k ≤ counter.capacity.toNat) {x : Int32}
    (hx : x ≠ 0) :
    Goes image ⟨S.pushAt, .int (Int32.ofNat target) :: .int x :: stack, memory, heap⟩
      ⟨if k < counter.capacity.toNat then S.pushAt + 9 else S.pushAt + 8,
        .int x :: .int (Int32.ofNat target) :: stack, memory, heap⟩ := by
  have hnull : image.label? "-rctr-push-null" = some (S.pushAt + 24) :=
    S.hpush.label (counter.pushCode.take 26) _ (counter.pushCode.drop 27) rfl
  have hlabel : image.label? "-rctr-push-room" = some (S.pushAt + 9) :=
    S.hpush.label (counter.pushCode.take 10) _ (counter.pushCode.drop 11) rfl
  have hcap := capacity_lt counter
  refine (S.hpush.act 0 [.exchange, .duplicate] ⟨_, rfl⟩ rfl).trans ?_
  refine (Goes.one (.jumpFalse (S.hpush.code 2 _ rfl) hnull _)).trans ?_
  rw [if_neg hx]
  refine (S.hpush.act 3 (loadIndex ++ [.pushI counter.capacity.toInt32, .subtract]) ⟨_, rfl⟩
    (by rw [Code.act_append, h.act_loadIndex]; rfl)).trans ?_
  rw [hk]
  simp only [← Word.sub_ofNat_lt_zero_iff (show k < 0x80000000 by omega)
    (show counter.capacity.toNat < 0x80000000 by omega), ofNat_capacity]
  exact .one (.jumpNeg (S.hpush.code 7 _ rfl) hlabel _)

theorem Site.push_full (h : S.Stores memory heap)
    (hfull : memory.word S.index = counter.capacity.toInt32) {x : Int32} (hx : x ≠ 0) :
    Goes image ⟨S.pushAt, .int (Int32.ofNat target) :: .int x :: stack, memory, heap⟩
      ⟨S.overflowAt, .int x :: .int (Int32.ofNat target) :: stack, memory, heap⟩ := by
  rw [← ofNat_capacity] at hfull
  refine (push_test h hfull (Nat.le_refl _) hx).trans ?_
  rw [if_neg (by omega)]
  exact .one (.jump (S.hpush.code 8 _ rfl) S.hoverflow)

def Site.pushed (S : Site counter structs image) (memory : Memory) (k : Nat) (x : Int32) : Memory :=
  (memory.setWord (S.worklist + 4 * k) x).setWord S.index (Int32.ofNat (k + 1))

theorem Site.push_store (h : S.Stores memory heap) {k : Nat}
    (hk : memory.word S.index = Int32.ofNat k) (hroom : k < counter.capacity.toNat) {x : Int32}
    (hx : x ≠ 0) (ht : target < 0x80000000) :
    Goes image ⟨S.pushAt, .int (Int32.ofNat target) :: .int x :: stack, memory, heap⟩
      ⟨target, stack, S.pushed memory k x, heap⟩ := by
  have hapart := S.apart
  have hindex := h.index_lt
  have hgrants := h.grants (a := S.worklist + 4 * k) (by omega)
  have hstored : S.Stores (memory.setWord (S.worklist + 4 * k) x) heap := h.of_size Memory.size_setWord
  have hsame : (memory.setWord (S.worklist + 4 * k) x).word S.index + 1 = Int32.ofNat (k + 1) := by
    rw [Memory.word_setWord_of_apart (by omega) (by omega) (by omega), hk, Int32.ofNat_add]
    rfl
  refine (push_test h hk (by omega) hx).trans ?_
  rw [if_pos hroom]
  refine (S.hpush.act 9 slotAddress ⟨_, rfl⟩ (h.act_slotAddress hk)).trans ?_
  refine (S.hpush.act 15 [.exchange] ⟨_, rfl⟩ rfl).trans ?_
  refine (S.hpush.act 16 [.storeI] ⟨_, rfl⟩
    (by rw [Code.act, Instr.act_storeI (by omega) hgrants]; rfl)).trans ?_
  refine (S.hpush.act 17 (bumpIndex 1) ⟨_, rfl⟩ (hstored.act_bumpIndex 1)).trans ?_
  rw [hsame]
  exact .one (.ret (S.hpush.code 23 _ rfl) ht)

theorem Site.Keeps.refl (S : Site counter structs image) (memory : Memory) : S.Keeps memory memory :=
  ⟨rfl, fun _ _ _ => rfl⟩

theorem Site.Keeps.trans {memory'' : Memory} (h : S.Keeps memory memory')
    (h' : S.Keeps memory' memory'') : S.Keeps memory memory'' :=
  ⟨h'.size.trans h.size, fun a ha hout => (h'.get a ha hout).trans (h.get a ha hout)⟩

theorem Site.Stores.keeps_setWord (h : S.Stores memory heap) {a : Nat}
    (ha : S.worklist ≤ a ∧ a + 4 ≤ S.worklist + 4 * counter.capacity.toNat ∨ a = S.index) (v : Int32) :
    S.Keeps memory (memory.setWord a v) := by
  have hapart := S.apart
  have hindex := h.index_lt
  refine ⟨Memory.size_setWord, fun b hb hout => ?_⟩
  rw [Owns] at hout
  exact Memory.get_setWord (by omega) hb (by omega)

theorem Site.Stores.pushed_keeps (h : S.Stores memory heap) {k : Nat}
    (hroom : k < counter.capacity.toNat) (x : Int32) : S.Keeps memory (S.pushed memory k x) := by
  have hentry := h.keeps_setWord (a := S.worklist + 4 * k) (.inl (by omega)) x
  exact hentry.trans ((h.of_size hentry.size).keeps_setWord (.inr rfl) _)

theorem Site.Holds.pushed (hw : S.Holds work memory) (h : S.Stores memory heap)
    (hroom : work.length < counter.capacity.toNat) (x : Int32) :
    S.Holds (work ++ [x.toUInt32.toNat]) (S.pushed memory work.length x) := by
  have hapart := S.apart
  have hindex := h.index_lt
  refine ⟨by rw [List.length_append]; exact hroom, ?_, fun k r hk => ?_⟩
  · rw [Site.pushed, Memory.word_setWord_self (by omega), List.length_append, List.length_singleton]
  · have hlt : k < work.length + 1 := by simpa using (List.getElem?_eq_some_iff.1 hk).1
    rw [Site.pushed, Memory.word_setWord_of_apart (by omega) (by omega) (by omega)]
    by_cases hlast : k = work.length
    · subst hlast
      rw [List.getElem?_append_right (Nat.le_refl _), Nat.sub_self] at hk
      cases hk
      rw [Word.ofNat_toNat]
      exact Memory.word_setWord_self (by omega)
    · rw [List.getElem?_append_left (by omega)] at hk
      rw [← hw.entry k r hk]
      exact Memory.word_setWord_of_apart (by omega) (by omega) (by omega)

end Drain
end IntervalStack
