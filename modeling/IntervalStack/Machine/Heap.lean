import IntervalStack.Word

/-! A first-fit allocator over a range of addresses. The live and the free blocks are kept in the
order of their addresses; a block that is given back merges with free neighbours. Requests are
rounded up to whole words. -/

namespace IntervalStack

structure HeapBlock where
  start : Nat
  size : Nat
deriving DecidableEq

def HeapBlock.stop (b : HeapBlock) : Nat := b.start + b.size

structure HeapStats where
  allocations : Nat
  deallocations : Nat
  liveRecords : Nat
  liveBytes : Nat
  peakLiveRecords : Nat
deriving DecidableEq

inductive HeapError
  | outOfMemory (size : Nat)
  | notLive (address : Nat)
  | unallocated (address : Nat)
  | overflow (cause : Overflow)
deriving DecidableEq

structure Heap where
  base : Nat
  limit : Nat
  live : List HeapBlock
  free : List HeapBlock
  stats : HeapStats
deriving DecidableEq

namespace Heap

def empty (base limit : Nat) : Heap where
  base
  limit
  live := []
  free := if base < limit then [⟨base, limit - base⟩] else []
  stats := ⟨0, 0, 0, 0, 0⟩

def rounded (size : Nat) : Nat := (max size 1 + 3) / 4 * 4

def carve (size : Nat) : List HeapBlock → Option (Nat × List HeapBlock)
  | [] => none
  | b :: bs =>
    if size ≤ b.size then
      some (b.start, if size < b.size then ⟨b.start + size, b.size - size⟩ :: bs else bs)
    else (carve size bs).map fun r => (r.1, b :: r.2)

def insertBlock (b : HeapBlock) : List HeapBlock → List HeapBlock
  | [] => [b]
  | c :: cs => if b.start < c.start then b :: c :: cs else c :: insertBlock b cs

def giveBack (b : HeapBlock) : List HeapBlock → List HeapBlock
  | [] => [b]
  | c :: cs =>
    if c.stop = b.start then giveBack ⟨c.start, c.size + b.size⟩ cs
    else if b.stop = c.start then ⟨b.start, b.size + c.size⟩ :: cs
    else if b.start < c.start then b :: c :: cs
    else c :: giveBack b cs

def allocate (h : Heap) (size : Nat) : Except HeapError (Nat × Heap) :=
  let size' := rounded size
  if UInt32.size ≤ size' then .error (.overflow .multiply)
  else
    match carve size' h.free with
    | none => .error (.outOfMemory size)
    | some (address, free) =>
      .ok (address, { h with
        live := insertBlock ⟨address, size'⟩ h.live
        free
        stats := { h.stats with
          allocations := h.stats.allocations + 1
          liveRecords := h.stats.liveRecords + 1
          liveBytes := h.stats.liveBytes + size'
          peakLiveRecords := max h.stats.peakLiveRecords (h.stats.liveRecords + 1) } })

def deallocate (h : Heap) (address : Nat) : Except HeapError Heap :=
  match h.live.find? (·.start == address) with
  | none => .error (.notLive address)
  | some b =>
    .ok { h with
      live := h.live.filter (·.start != address)
      free := giveBack b h.free
      stats := { h.stats with
        deallocations := h.stats.deallocations + 1
        liveRecords := h.stats.liveRecords - 1
        liveBytes := h.stats.liveBytes - b.size } }

def blockBelow? (h : Heap) (address : Nat) : Option HeapBlock :=
  (h.live.takeWhile (·.start ≤ address)).getLast?

def checkAccess (h : Heap) (address width : Nat) : Except HeapError Unit :=
  match h.blockBelow? address with
  | none => .error (.unallocated address)
  | some b =>
    if UInt32.size ≤ address + width then .error (.overflow .add)
    else if address + width ≤ b.stop then .ok ()
    else .error (.unallocated address)

def manages (h : Heap) (address : Nat) : Bool := h.base ≤ address && address < h.limit

theorem le_rounded (size : Nat) : size ≤ rounded size := by
  unfold rounded
  omega

theorem rounded_pos (size : Nat) : 0 < rounded size := by
  unfold rounded
  omega

def totalSize : List HeapBlock → Nat
  | [] => 0
  | b :: bs => b.size + totalSize bs

theorem totalSize_carve {size address : Nat} {bs rest : List HeapBlock}
    (h : carve size bs = some (address, rest)) : totalSize rest + size = totalSize bs := by
  induction bs generalizing rest with
  | nil => simp [carve] at h
  | cons b bs ih =>
    rw [carve] at h
    split at h
    · obtain ⟨-, rfl⟩ := Prod.mk.inj (Option.some.inj h)
      split <;> simp only [totalSize] <;> omega
    · obtain ⟨⟨a, rest'⟩, hc, hr⟩ := Option.map_eq_some_iff.1 h
      obtain ⟨rfl, rfl⟩ := Prod.mk.inj hr
      have := ih hc
      simp only [totalSize]
      omega

theorem totalSize_insertBlock (b : HeapBlock) (bs : List HeapBlock) :
    totalSize (insertBlock b bs) = b.size + totalSize bs := by
  induction bs with
  | nil => rfl
  | cons c cs ih =>
    rw [insertBlock]
    split
    · rfl
    · simp only [totalSize, ih]
      omega

theorem totalSize_giveBack (b : HeapBlock) (bs : List HeapBlock) :
    totalSize (giveBack b bs) = b.size + totalSize bs := by
  induction bs generalizing b with
  | nil => rfl
  | cons c cs ih =>
    rw [giveBack]
    split
    · simp only [ih, totalSize]
      omega
    · split
      · simp only [totalSize]
        omega
      · split
        · rfl
        · simp only [totalSize, ih]
          omega

end Heap
end IntervalStack
