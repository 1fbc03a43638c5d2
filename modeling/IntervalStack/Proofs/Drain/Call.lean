import IntervalStack.Proofs.Drain.Loop
import IntervalStack.Proofs.Integrity

/-! A call of the routine that carries out the scheduled decrements, in a machine that was loaded with
a listing that has the routine. -/

namespace IntervalStack

namespace Drain
open RefCounter

variable {counter : RefCounter} {structs : StructTable} {c : Code} {settings : MachineSettings}
  {m₀ m : Machine}

theorem dataSize_worklist :
    Code.dataSize (counter.data.take 2) = 4 * counter.capacity.toNat := by
  have hcap := capacity_lt counter
  have hmul : (counter.capacity * Layout.pointerSize).toNat = counter.capacity.toNat * 4 := by
    rw [UInt32.toNat_mul, show Layout.pointerSize.toNat = 4 from rfl, Nat.mod_eq_of_lt (by omega)]
  show 0 + ((counter.capacity * Layout.pointerSize).toNat + 0) = _
  omega

theorem exists_site (hl : Machine.Loaded c settings m₀) (hdata : counter.data <:+: c)
    (hroutines : counter.subroutines structs <:+: c) (hhost : Environment.deallocateEntry ∉ c.labels)
    (hshort : m₀.image.code.size < 0x80000000) :
    ∃ S : Site counter structs m₀.image, S.index + 4 ≤ m₀.heap.base := by
  obtain ⟨pre, post, hc⟩ := hdata
  obtain ⟨pre', post', hc'⟩ := hroutines
  have hworklist := hl.dataLabel pre worklist (counter.data.drop 1 ++ post) (by rw [← hc]; simp [data])
  have hindex := hl.dataLabel (pre ++ counter.data.take 2) worklistIndex (counter.data.drop 3 ++ post)
    (by rw [← hc]; simp [data])
  have hplaced : Placed m₀.image _ (counter.subroutines structs) := hl.placed hc'.symm
  have hsize : Code.dataSize (counter.data.take 2) = 4 * counter.capacity.toNat := dataSize_worklist
  refine ⟨{
    worklist := Code.dataSize pre
    index := Code.dataSize (pre ++ counter.data.take 2)
    hworklist
    hindex
    apart := Nat.le_of_eq (by rw [Code.dataSize_append, hsize])
    pushAt := _
    hpush := hplaced.left.left.right
    drainAt := _
    hdrain := hplaced.left.right
    overflowAt := _
    hoverflow := hplaced.right.head
    hhost := hl.noLabel _ hhost
    short := hshort }, ?_⟩
  -- The heap starts behind all data.
  rw [hl.heap]
  show Code.dataSize (pre ++ counter.data.take 2) + 4 ≤ (Code.dataSize c + 7) / 8 * 8
  have hword : 4 ≤ Code.dataSize (counter.data.drop 2) := by
    simp [data, Instr.dataSize, Layout.pointerSize]
    omega
  have hall : Code.dataSize (pre ++ counter.data.take 2) + Code.dataSize (counter.data.drop 2)
      ≤ Code.dataSize c := by
    rw [← Code.dataSize_append, List.append_assoc, List.take_append_drop, ← hc,
      Code.dataSize_append (pre ++ _)]
    exact Nat.le_add_right _ _
  omega

theorem Site.stores_of_intact {S : Site counter structs m₀.image} (hl : Machine.Loaded c settings m₀)
    (hm : Machine.Intact m₀ m) (hbelow : S.index + 4 ≤ m₀.heap.base)
    (hsmall : S.index + 4 ≤ 0x80000000) : S.Stores m.memory m.heap := by
  have hbase := hm.heap.base_eq
  have hsize : m.memory.size = settings.memorySize.toNat := hm.size.trans hl.size
  have hstart : m₀.heap.base = Machine.heapBase c := by
    rw [hl.heap]
    rfl
  have hfits := hl.fits
  exact ⟨by omega, by omega, hsmall⟩

theorem Site.addresses_of_intact {S : Site counter structs m₀.image}
    (hl : Machine.Loaded c settings m₀) (hm : Machine.Intact m₀ m)
    (hbelow : S.index + 4 ≤ m₀.heap.base) (hlow : m.heap.limit ≤ 0x80000000) :
    S.Addresses m.memory m.heap := by
  have hbase := hm.heap.base_eq
  have hlimit := hm.heap.limit_eq
  have hsize : m.memory.size = settings.memorySize.toNat := hm.size.trans hl.size
  have hrange : m₀.heap.base = Machine.heapBase c ∧
      m₀.heap.limit = Machine.heapBase c + settings.heapSize.toNat := by
    rw [hl.heap]
    exact ⟨rfl, rfl⟩
  have hfits := hl.fits
  exact ⟨S.stores_of_intact hl hm hbelow (by omega), hm.heap.sound.tidy, by omega, hlow⟩

structure AtCall (counter : RefCounter) (structs : StructTable) (worklist index : Nat) (m : Machine) :
    Prop where
  running : m.halted = false
  call : m.image.code[m.pc]? = some drain
  memory : m.memory.size < 0x80000000
  code : m.image.code.size < 0x80000000
  tidy : m.heap.Tidy
  room : (m.memory.word index).toUInt32.toNat ≤ counter.capacity.toNat
  laidOut : LaidOut structs m.memory m.heap
  sound : (graphOf structs worklist index m.memory m.heap).Sound

theorem AtCall.ready {S : Site counter structs m₀.image} (hl : Machine.Loaded c settings m₀)
    (hm : Machine.Continues m₀ m) (hcodes : Codes structs) (hbelow : S.index + 4 ≤ m₀.heap.base)
    (h : AtCall counter structs S.worklist S.index m) : S.Ready m.memory m.heap := by
  have hbase : m.heap.base = Machine.heapBase c := by rw [hm.base, hl.heap]; rfl
  have hlimit : m.heap.limit = Machine.heapBase c + settings.heapSize.toNat := by
    rw [hm.limit, hl.heap]
    rfl
  have hsize : m.memory.size = settings.memorySize.toNat := hm.size.trans hl.size
  have hfits := hl.fits
  have hplaced : S.Fits m.memory m.heap := by
    refine ⟨h.tidy, by rw [hm.base]; exact hbelow, ?_, ?_, h.memory⟩
    all_goals omega
  exact ⟨hcodes, hplaced.addresses, h.room, h.laidOut, h.sound.covered⟩

/-- The routine has returned from a call, and has freed the records in `F`. -/
structure Returned (counter : RefCounter) (g : Graph) (worklist index : Nat) (F : Nat → Bool)
    (m m' : Machine) : Prop where
  closure : g.IsClosure F
  continues : Machine.Continues m m'
  pc : m'.pc = m.pc + 1
  stack : m'.stack = m.stack
  output : m'.output = m.output
  running : m'.halted = false
  empty : m'.memory.word index = 0
  live : m'.heap.live = m.heap.live.filter fun b => !F b.start
  deallocations : m'.heap.stats.deallocations = m.heap.stats.deallocations + (g.records.filter F).length
  /-- The records that remain have lost the references that were scheduled, and those from records
  that were freed. -/
  counts : ∀ b ∈ m'.heap.live, (m'.memory.word b.start).toInt
    = (m.memory.word b.start).toInt - (g.pending.count b.start + g.refsFrom F b.start : Nat)
  memory : ∀ a < 0x100000000, ¬ (worklist ≤ a ∧ a < worklist + 4 * counter.capacity.toNat) →
    ¬ (index ≤ a ∧ a < index + 4) → (∀ b ∈ m.heap.live, a < b.start ∨ b.start + 4 ≤ a) →
    m'.memory.get a = m.memory.get a

/-- The worklist is full, and the machine is at the handler of the overflow. -/
structure Overflowed (counter : RefCounter) (g : Graph) (index : Nat) (m' : Machine) : Prop where
  pc : m'.image.label? overflowHandler = some m'.pc
  full : m'.memory.word index = counter.capacity.toInt32
  short : counter.capacity.toNat < g.size

/-- Carrying out the scheduled decrements frees the records that lose all their references to them,
directly or through records that are freed, and no others. -/
theorem drain_frees_closure {worklist index : Nat} (hload : Machine.load c settings = .ok m₀)
    (hdata : counter.data <:+: c) (hroutines : counter.subroutines structs <:+: c)
    (hhost : Environment.deallocateEntry ∉ c.labels) (hcodes : Codes structs)
    (hm : Machine.Continues m₀ m) (hworklist : m.image.dataLabel? RefCounter.worklist = some worklist)
    (hindex : m.image.dataLabel? worklistIndex = some index)
    (h : AtCall counter structs worklist index m) :
    ∃ n m', (∀ limit, m.steps + n ≤ limit → Machine.Advances limit n m m') ∧
      (Overflowed counter (graphOf structs worklist index m.memory m.heap) index m' ∨
        ∃ F, Returned counter (graphOf structs worklist index m.memory m.heap) worklist index F m m') := by
  have hl := Machine.load_loaded hload
  have hshort := h.code
  rw [hm.image] at hworklist hindex hshort
  obtain ⟨S, hbelow⟩ := exists_site hl hdata hroutines hhost hshort
  obtain rfl : S.worklist = worklist := Option.some.inj (S.hworklist.symm.trans hworklist)
  obtain rfl : S.index = index := Option.some.inj (S.hindex.symm.trans hindex)
  obtain ⟨v, ⟨n, hgo⟩, hend⟩ :=
    (h.ready hl hm hcodes hbelow).call m.stack (hm.image ▸ h.call)
  have hself : View.machine ⟨m.pc, m.stack, m.memory, m.heap⟩ m₀.image m.output m.steps = m := by
    rw [← hm.image, View.machine, ← h.running]
  refine ⟨n, v.machine m₀.image m.output (m.steps + n), fun limit hlimit => ?_, ?_⟩
  · have hadvances := hgo m.output m.steps limit hlimit
    rwa [hself] at hadvances
  rcases hend with ⟨hpc, hfull, hlong⟩ | ⟨F, memory', heap', rfl, hend⟩
  · exact .inl ⟨by rw [View.machine, hpc]; exact S.hoverflow, hfull, hlong⟩
  · refine .inr ⟨F, hend.reached.isClosure h.sound, ⟨hm.image.symm, hend.spares.size, hend.base, hend.limit⟩,
      rfl, rfl, rfl, rfl, hend.holds.index, hend.live, hend.deallocations, fun b hb => hend.count_eq hb,
      fun a ha hout hout' hcount => hend.spares.get a ha (by rw [Site.Owns]; omega) hcount⟩

def smallCounter : RefCounter := ⟨4, by decide, by decide⟩

def pairTable : StructTable := ⟨[⟨0, "pair", 16, 24, [16, 20]⟩]⟩

def pairListing : Code :=
  smallCounter.data ++ [drain, .halt, .label Environment.generalError, .halt]
    ++ smallCounter.subroutines pairTable

/-- Three pairs, of which the last one is shared by the others and by the program; the first one,
which holds both others, is scheduled. -/
def pairMemory : Memory :=
  [(0, 64), (16, 1), (64, 1), (68, 16), (80, 88), (84, 112), (88, 1), (92, 16), (104, 112), (112, 3),
    (116, 16)].foldl (fun m (w : Nat × Int32) => m.setWord w.1 w.2) (.zeros 1024)

def pairHeap : Heap := (Heap.empty 64 320).after [.allocate 24, .allocate 24, .allocate 24]

def sharedPairs (image : Image) : Machine := ⟨image, pairMemory, pairHeap, [], 0, "", 0, false⟩

theorem codes_pairTable : Codes pairTable := by
  refine ⟨by decide, by decide, by decide, fun s hs o ho => ?_⟩
  obtain rfl := List.mem_singleton.1 hs
  rcases List.mem_cons.1 ho with rfl | ho
  · decide
  · obtain rfl := List.mem_singleton.1 ho
    decide

theorem sound_pairs : (graphOf pairTable 0 16 pairMemory pairHeap).Sound :=
  ⟨by decide, by decide +kernel, by decide +kernel, by decide +kernel, by decide +kernel⟩

theorem atCall_sharedPairs {image : Image} (hcall : image.code[0]? = some drain)
    (hcode : image.code.size < 0x80000000) : AtCall smallCounter pairTable 0 16 (sharedPairs image) where
  running := rfl
  call := hcall
  memory := show pairMemory.size < 0x80000000 by decide
  code := hcode
  tidy := show pairHeap.Tidy from ⟨by decide +kernel, by decide +kernel⟩
  room := show (pairMemory.word 16).toUInt32.toNat ≤ 4 by decide +kernel
  laidOut := show LaidOut pairTable pairMemory pairHeap by decide +kernel
  sound := sound_pairs

theorem drain_frees_closure_sharedPairs :
    ∃ m₀, Machine.load pairListing ⟨1024, 256, 1000⟩ = .ok m₀ ∧ ∃ n m' F,
      (∀ limit, n ≤ limit → Machine.Advances limit n (sharedPairs m₀.image) m') ∧
      Returned smallCounter (graphOf pairTable 0 16 pairMemory pairHeap) 0 16 F
        (sharedPairs m₀.image) m' := by
  have hok : (Machine.load pairListing ⟨1024, 256, 1000⟩).toBool = true := by decide +kernel
  cases hload : Machine.load pairListing ⟨1024, 256, 1000⟩ with
  | error e =>
    rw [hload] at hok
    cases hok
  | ok m₀ =>
    have hl := Machine.load_loaded hload
    have hdata : smallCounter.data <:+: pairListing :=
      (List.prefix_append _ _).isInfix.trans (List.prefix_append _ _).isInfix
    have hroutines : smallCounter.subroutines pairTable <:+: pairListing :=
      (List.suffix_append _ _).isInfix
    have hlength : m₀.image.code.size < 0x80000000 := by
      rw [← Array.length_toList, hl.code]
      decide +kernel
    have hcall : m₀.image.code[0]? = some drain := by
      rw [← Array.getElem?_toList, hl.code]
      decide +kernel
    have hbase : Machine.heapBase pairListing = 64 := by decide +kernel
    have hm : Machine.Continues m₀ (sharedPairs m₀.image) := by
      refine ⟨rfl, hl.size.symm, ?_, ?_⟩
      all_goals rw [hl.heap, hbase]; rfl
    have hworklist : m₀.image.dataLabel? worklist = some 0 := hl.dataLabel [] _ _ rfl
    have hindex : m₀.image.dataLabel? worklistIndex = some 16 :=
      hl.dataLabel (pairListing.take 2) _ (pairListing.drop 3) rfl
    have hroom : ¬ smallCounter.capacity.toNat < (graphOf pairTable 0 16 pairMemory pairHeap).size := by
      decide +kernel
    obtain ⟨n, m', hadvances, hover | ⟨F, hreturned⟩⟩ := drain_frees_closure hload hdata hroutines
      (by decide +kernel) codes_pairTable hm hworklist hindex (atCall_sharedPairs hcall hlength)
    · exact absurd hover.short hroom
    · refine ⟨m₀, rfl, n, m', F, fun limit hlimit => hadvances limit ?_, hreturned⟩
      rwa [show (sharedPairs m₀.image).steps + n = n from Nat.zero_add n]

end Drain
end IntervalStack
