import IntervalStack.Proofs.Allocator.Canonical
import IntervalStack.Proofs.Drain.Call

/-! The order in which decrements are scheduled. It decides in which order records are freed, and how
full the worklist gets, but neither what is freed nor what is left behind. -/

namespace IntervalStack.Drain
open RefCounter

/-- What is asked of a machine at a call of the routine. The counts cover the scheduled decrements and
the references, but a record that nothing refers to may have any count. -/
structure Entering (counter : RefCounter) (structs : StructTable) (worklist index : Nat) (m : Machine) :
    Prop where
  running : m.halted = false
  call : m.image.code[m.pc]? = some drain
  heap : m.heap.limit ≤ 0x80000000
  code : m.image.code.size < 0x80000000
  room : (m.memory.word index).toUInt32.toNat ≤ counter.capacity.toNat
  laidOut : LaidOut structs m.memory m.heap
  covered : (graphOf structs worklist index m.memory m.heap).Covered

/-- The memories differ in the entries of the worklist at most, and there in the order of what is
scheduled. -/
structure Rearranged (counter : RefCounter) (worklist index : Nat) (memory memory' : Memory) :
    Prop where
  size : memory'.size = memory.size
  get : ∀ a < 0x100000000, ¬ (worklist ≤ a ∧ a < worklist + 4 * counter.capacity.toNat) →
    memory'.get a = memory.get a
  entries : (scheduledAt worklist index memory').Perm (scheduledAt worklist index memory)

structure Finished (index : Nat) (F : Nat → Bool) (m m' : Machine) : Prop where
  pc : m'.pc = m.pc + 1
  stack : m'.stack = m.stack
  output : m'.output = m.output
  running : m'.halted = false
  empty : m'.memory.word index = 0
  live : m'.heap.live = m.heap.live.filter fun b => !F b.start

/-- Two calls, which have both freed the records in `F` of `m`, agree on the heap and on all bytes but
those of the entries of the worklist and of the records in `F`. -/
structure Agree (counter : RefCounter) (worklist : Nat) (F : Nat → Bool) (m e e' : Machine) : Prop where
  live : e'.heap.live = e.heap.live
  free : e'.heap.free = e.heap.free
  counts : ∀ b ∈ e.heap.live, e'.memory.word b.start = e.memory.word b.start
  memory : ∀ a < 0x100000000, ¬ (worklist ≤ a ∧ a < worklist + 4 * counter.capacity.toNat) →
    (∀ b ∈ m.heap.live, F b.start = true → a < b.start ∨ b.stop ≤ a) →
    e'.memory.get a = e.memory.get a

variable {counter : RefCounter} {structs : StructTable} {image : Image}
  {S : Site counter structs image} {memory memory' : Memory} {heap : Heap}

theorem Rearranged.keeps (h : Rearranged counter S.worklist S.index memory memory') :
    S.Keeps memory memory' :=
  ⟨h.size, fun a ha hout => h.get a ha fun hin => hout (.inl hin)⟩

theorem Rearranged.word_index (h : Rearranged counter S.worklist S.index memory memory')
    (hs : S.Stores memory heap) : memory'.word S.index = memory.word S.index := by
  have hapart := S.apart
  have hsmall := hs.small
  exact Memory.word_congr fun i hi => h.get _ (by omega) (by omega)

section Ready
variable (h : Rearranged counter S.worklist S.index memory memory') (hr : S.Ready memory heap)
include h hr

theorem Rearranged.laidOut : LaidOut structs memory' heap := by
  intro b hb
  obtain ⟨htype, hslots⟩ := hr.laidOut b hb
  obtain ⟨hstart, hlt⟩ := hr.addresses.start_lt hb htype
  have hword : memory'.word (b.start + 4) = memory.word (b.start + 4) :=
    h.keeps.word (by omega) hlt
  exact ⟨htype, hword ▸ hslots⟩

theorem Rearranged.reorders : (S.graph memory heap).Reorders (S.graph memory' heap) := by
  have hword {b : HeapBlock} {o : Int32} (hb : b ∈ heap.live) (ho : Has b o) :
      memory'.word (b.start + o.toInt.toNat) = memory.word (b.start + o.toInt.toNat) := by
    obtain ⟨hstart, hlt⟩ := hr.addresses.start_lt hb ho
    exact h.keeps.word (by omega) hlt
  refine ⟨rfl, fun r hrec => ?_, fun r hrec => ?_, h.entries⟩
  all_goals
    obtain ⟨b, hb, rfl⟩ := Site.Ready.mem_records hrec
    obtain ⟨htype, hslots⟩ := hr.laidOut b hb
  · have hcount : Has b 0 := ⟨by decide, Nat.le_trans (by decide) htype.2⟩
    have hsame : memory'.word b.start = memory.word b.start := hword (o := 0) hb hcount
    simp only [Site.graph, graphOf, hsame]
  · have hcode : memory'.word (b.start + 4) = memory.word (b.start + 4) :=
      hword (o := Layout.typeCodeOffset) hb htype
    simp only [Site.graph, graphOf, hcode]
    exact refsAt_congr fun o ho => hword hb (hslots o ho)

theorem Rearranged.ready : S.Ready memory' heap := by
  refine ⟨hr.codes, hr.addresses.of_size h.size, ?_, h.laidOut hr, (h.reorders hr).covered hr.covered⟩
  rw [h.word_index hr.addresses.toStores]
  exact hr.room

variable {F F' : Nat → Bool} {memory₁ memory₁' : Memory} {heap₁ heap₁' : Heap}
  (hend : S.Between memory heap F [] memory₁ heap₁)
  (hend' : S.Between memory' heap F' [] memory₁' heap₁')
include hend hend'

theorem Rearranged.freed_eq : F = F' := (h.reorders hr).freed_eq hend.reached hend'.reached

theorem Rearranged.word_start {b : HeapBlock} (hb : b ∈ heap.live) (hF : F b.start = false) :
    memory₁'.word b.start = memory₁.word b.start := by
  obtain rfl := h.freed_eq hr hend hend'
  have hrec : b.start ∈ (S.graph memory heap).records := List.mem_map.2 ⟨b, hb, rfl⟩
  have hcount := (h.reorders hr).count_eq hend.reached hend'.reached hrec hF
  exact Int32.toInt_inj.1 hcount

/-- A byte that may differ behind the two calls belongs to an entry of the worklist, or to a record
that was freed. -/
theorem Rearranged.get_eq {a : Nat} (ha : a < 0x100000000)
    (hout : ¬ (S.worklist ≤ a ∧ a < S.worklist + 4 * counter.capacity.toNat))
    (hfreed : ∀ b ∈ heap.live, F b.start = true → a < b.start ∨ b.stop ≤ a) :
    memory₁'.get a = memory₁.get a := by
  by_cases hindex : S.index ≤ a ∧ a < S.index + 4
  · have hzero := hend'.holds.index.trans hend.holds.index.symm
    obtain ⟨i, rfl⟩ := Nat.exists_eq_add_of_le hindex.1
    exact Memory.get_of_word_eq hzero (by omega)
  by_cases hcount : ∀ b ∈ heap.live, a < b.start ∨ b.start + 4 ≤ a
  · rw [hend.spares.get a ha (by rw [Site.Owns]; omega) hcount,
      hend'.spares.get a ha (by rw [Site.Owns]; omega) hcount, h.get a ha hout]
  · -- The count of a record that has not been freed.
    obtain ⟨b, hb, hin⟩ : ∃ b ∈ heap.live, ¬ (a < b.start ∨ b.start + 4 ≤ a) := by
      simpa only [not_forall, exists_prop] using hcount
    have hsize : 8 ≤ b.size := (hr.laidOut b hb).1.2
    have hF : F b.start = false := by
      refine Bool.eq_false_iff.2 fun hF => ?_
      have hbehind := hfreed b hb hF
      rw [HeapBlock.stop] at hbehind
      omega
    obtain ⟨i, rfl⟩ := Nat.exists_eq_add_of_le (show b.start ≤ a by omega)
    exact Memory.get_of_word_eq (h.word_start hr hend hend' hb hF) (by omega)

end Ready

variable {c : Code} {settings : MachineSettings} {m₀ m : Machine}

theorem Entering.ready {S : Site counter structs m₀.image} (hl : Machine.Loaded c settings m₀)
    (hm : Machine.Intact m₀ m) (hcodes : Codes structs) (hbelow : S.index + 4 ≤ m₀.heap.base)
    (h : Entering counter structs S.worklist S.index m) : S.Ready m.memory m.heap :=
  ⟨hcodes, S.addresses_of_intact hl hm hbelow h.heap, h.room, h.laidOut, h.covered⟩

/-- What is scheduled may stand in the worklist in any order: where neither call overflows, the same
records are freed, and the calls agree on all that is left. -/
theorem drain_ignores_order {worklist index : Nat} (hload : Machine.load c settings = .ok m₀)
    (hdata : counter.data <:+: c) (hroutines : counter.subroutines structs <:+: c)
    (hhost : Environment.deallocateEntry ∉ c.labels) (hcodes : Codes structs)
    (hm : Machine.Intact m₀ m) (hworklist : m.image.dataLabel? RefCounter.worklist = some worklist)
    (hindex : m.image.dataLabel? worklistIndex = some index)
    (h : Entering counter structs worklist index m)
    (hsame : Rearranged counter worklist index m.memory memory') :
    ∃ e e', Machine.Reaches m e ∧ Machine.Reaches { m with memory := memory' } e' ∧
      (Overflowed counter (graphOf structs worklist index m.memory m.heap) index e ∨
        Overflowed counter (graphOf structs worklist index memory' m.heap) index e' ∨
        ∃ F, Finished index F m e ∧ Finished index F { m with memory := memory' } e' ∧
          Agree counter worklist F m e e') := by
  have hl := Machine.load_loaded hload
  have hshort := h.code
  rw [hm.image] at hworklist hindex hshort
  obtain ⟨S, hbelow⟩ := exists_site hl hdata hroutines hhost hshort
  obtain rfl : S.worklist = worklist := Option.some.inj (S.hworklist.symm.trans hworklist)
  obtain rfl : S.index = index := Option.some.inj (S.hindex.symm.trans hindex)
  have hready := h.ready hl hm hcodes hbelow
  have hsize : m₀.memory.size < UInt32.size := by
    rw [hl.size]
    exact settings.memorySize.toNat_lt
  have hm' : Machine.Intact m₀ { m with memory := memory' } := by
    have hapart := S.apart
    have hstores := hready.addresses.toStores
    have hbelow := hstores.below
    have hbase := hstores.base
    refine ⟨hm.image, hsame.size.trans hm.size, hm.heap, fun a ha hlt => ?_⟩
    have ha : m.memory.size ≤ a := hsame.size ▸ ha
    rw [show memory'.get a = m.memory.get a from hsame.get a hlt (by omega)]
    exact hm.blank a ha hlt
  obtain ⟨v, hgo, hend⟩ := hready.call m.stack (hm.image ▸ h.call)
  obtain ⟨v', hgo', hend'⟩ := (hsame.ready hready).call m.stack (hm.image ▸ h.call)
  rw [← hm.image] at hgo hgo'
  obtain ⟨steps, he⟩ := Machine.reaches_of_goes h.running hgo
  obtain ⟨steps', he'⟩ :=
    Machine.reaches_of_goes (m := { m with memory := memory' }) h.running hgo'
  refine ⟨_, _, he, he', ?_⟩
  rcases hend with ⟨hpc, hfull, hlong⟩ | ⟨F, memory₁, heap₁, rfl, hend⟩
  · exact .inl ⟨by rw [View.machine, hpc, hm.image]; exact S.hoverflow, hfull, hlong⟩
  rcases hend' with ⟨hpc, hfull, hlong⟩ | ⟨F', memory₁', heap₁', rfl, hend'⟩
  · exact .inr (.inl ⟨by rw [View.machine, hpc, hm.image]; exact S.hoverflow, hfull, hlong⟩)
  obtain rfl := hsame.freed_eq hready hend hend'
  have hlive : heap₁'.live = heap₁.live := hend'.live.trans hend.live.symm
  refine .inr (.inr ⟨F, ⟨rfl, rfl, rfl, rfl, hend.holds.index, hend.live⟩,
    ⟨rfl, rfl, rfl, rfl, hend'.holds.index, hend'.live⟩, hlive, ?_, fun b hb => ?_,
    fun a ha hout hfreed => hsame.get_eq hready hend hend' ha hout hfreed⟩)
  · exact (he'.intact hsize hm').heap.free_eq (he.intact hsize hm).heap hlive
  · obtain ⟨hb, hF⟩ := List.mem_filter.1 (hend.live ▸ hb)
    exact hsame.word_start hready hend hend' hb (by simpa using hF)

def chainBase : Memory :=
  [(16, 2), (64, 1), (68, 16), (80, 88), (88, 1), (92, 16), (104, 112), (112, 3), (116, 16)].foldl
    (fun m (w : Nat × Int32) => m.setWord w.1 w.2) (.zeros 1024)

def chainMemory (first second : Int32) : Memory := (chainBase.setWord 0 first).setWord 4 second

def chained (image : Image) : Machine := ⟨image, chainMemory 64 112, pairHeap, [], 0, "", 0, false⟩

theorem size_chainMemory (x y : Int32) : (chainMemory x y).size = 1024 := by
  have hbase : chainBase.size = 1024 := by decide +kernel
  rw [chainMemory, Memory.size_setWord, Memory.size_setWord, hbase]

theorem blank_chainMemory (x y : Int32) : (chainMemory x y).Blank := by
  have hzeros : (Memory.zeros 1024).Blank := fun a _ _ => ByteTree.get_zeros _ a
  exact hzeros.setWords (by decide) [(16, 2), (64, 1), (68, 16), (80, 88), (88, 1), (92, 16),
    (104, 112), (112, 3), (116, 16), (0, x), (4, y)] (by simp [Memory.zeros])

theorem rearranged_chain :
    Rearranged smallCounter 0 16 (chainMemory 64 112) (chainMemory 112 64) := by
  have hget (x y : Int32) {a : Nat} (ha : a < 0x100000000) (hout : 16 ≤ a) :
      (chainMemory x y).get a = chainBase.get a := by
    rw [chainMemory, Memory.get_setWord (by omega) ha (by omega),
      Memory.get_setWord (by omega) ha (by omega)]
  refine ⟨by rw [size_chainMemory, size_chainMemory], fun a ha hout => ?_, by decide +kernel⟩
  have hbehind : 16 ≤ a := by
    have hcap : smallCounter.capacity.toNat = 4 := rfl
    omega
  rw [hget 112 64 ha hbehind, hget 64 112 ha hbehind]

theorem entering_chained {image : Image} (hcall : image.code[0]? = some drain)
    (hcode : image.code.size < 0x80000000) :
    Entering smallCounter pairTable 0 16 (chained image) where
  running := rfl
  call := hcall
  heap := show pairHeap.limit ≤ 0x80000000 by decide +kernel
  code := hcode
  room := show ((chainMemory 64 112).word 16).toUInt32.toNat ≤ 4 by decide +kernel
  laidOut := show LaidOut pairTable (chainMemory 64 112) pairHeap by decide +kernel
  covered := show (graphOf pairTable 0 16 (chainMemory 64 112) pairHeap).Covered from
    ⟨by decide +kernel, by decide +kernel, by decide +kernel, by decide +kernel⟩

/-- The last pair is decremented first in one of the orders, and twice at the end in the other. -/
theorem drain_ignores_order_chained :
    ∃ m₀, Machine.load pairListing ⟨1024, 256, 1000⟩ = .ok m₀ ∧
      ∃ e e' F, Machine.Reaches (chained m₀.image) e ∧
        Machine.Reaches { chained m₀.image with memory := chainMemory 112 64 } e' ∧
        Finished 16 F (chained m₀.image) e ∧
        Finished 16 F { chained m₀.image with memory := chainMemory 112 64 } e' ∧
        Agree smallCounter 0 F (chained m₀.image) e e' := by
  have hok : (Machine.load pairListing ⟨1024, 256, 1000⟩).toBool = true := by decide +kernel
  cases hload : Machine.load pairListing ⟨1024, 256, 1000⟩ with
  | error e =>
    rw [hload] at hok
    cases hok
  | ok m₀ =>
    have hl := Machine.load_loaded hload
    have hdata : smallCounter.data <:+: pairListing :=
      (List.prefix_append _ _).isInfix.trans (List.prefix_append _ _).isInfix
    have hroutines : smallCounter.subroutines pairTable <:+: pairListing :=
      (List.suffix_append _ _).isInfix
    have hlength : m₀.image.code.size < 0x80000000 := by
      rw [← Array.length_toList, hl.code]
      decide +kernel
    have hcall : m₀.image.code[0]? = some drain := by
      rw [← Array.getElem?_toList, hl.code]
      decide +kernel
    have hbase : Machine.heapBase pairListing = 64 := by decide +kernel
    have hkept : Heap.Kept m₀.heap.base m₀.heap.limit pairHeap := by
      rw [hl.heap, hbase]
      exact (Heap.kept_empty (by decide)).after _
    have hm : Machine.Intact m₀ (chained m₀.image) :=
      ⟨rfl, (size_chainMemory 64 112).trans hl.size.symm, hkept, blank_chainMemory 64 112⟩
    have hworklist : m₀.image.dataLabel? worklist = some 0 := hl.dataLabel [] _ _ rfl
    have hindex : m₀.image.dataLabel? worklistIndex = some 16 :=
      hl.dataLabel (pairListing.take 2) _ (pairListing.drop 3) rfl
    have hroom (x y : Int32) (hxy : (x, y) = (64, 112) ∨ (x, y) = (112, 64)) :
        ¬ smallCounter.capacity.toNat
          < (graphOf pairTable 0 16 (chainMemory x y) pairHeap).size := by
      rcases hxy with hxy | hxy
      all_goals
        cases hxy
        decide +kernel
    obtain ⟨e, e', he, he', hover | hover | hagree⟩ := drain_ignores_order hload hdata hroutines
      (by decide +kernel) codes_pairTable hm hworklist hindex (entering_chained hcall hlength)
      rearranged_chain
    · exact absurd hover.short (hroom 64 112 (.inl rfl))
    · exact absurd hover.short (hroom 112 64 (.inr rfl))
    · obtain ⟨F, hagree⟩ := hagree
      exact ⟨m₀, rfl, e, e', F, he, he', hagree⟩

end IntervalStack.Drain
