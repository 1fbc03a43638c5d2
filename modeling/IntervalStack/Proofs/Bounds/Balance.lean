import IntervalStack.Proofs.Allocator.Canonical
import IntervalStack.Proofs.Allocator.FirstFit
import IntervalStack.Proofs.Bounds.Accounts
import IntervalStack.Proofs.Drain.Call

/-! The accounts of a machine, and what keeps them in order. -/

namespace IntervalStack

structure Memory.Fills (b : HeapBlock) (memory memory' : Memory) : Prop where
  size : memory'.size = memory.size
  get : ∀ a < 0x100000000, a < b.start ∨ b.stop ≤ a → memory'.get a = memory.get a

namespace Memory.Fills

variable {b : HeapBlock} {memory memory' memory'' : Memory}

theorem trans (h : Fills b memory memory') (h' : Fills b memory' memory'') : Fills b memory memory'' :=
  ⟨h'.size.trans h.size, fun a ha hout => (h'.get a ha hout).trans (h.get a ha hout)⟩

theorem write {a : Nat} {bytes : List UInt8} (hstart : b.start ≤ a) (hstop : a + bytes.length ≤ b.stop)
    (hlow : b.stop ≤ 0x80000000) : Fills b memory (memory.write a bytes) := by
  have hsize : UInt32.size = 0x100000000 := rfl
  exact ⟨Memory.size_write _ _ _, fun x hx hout =>
    Memory.get_write_of_outside _ (by omega) hx (by omega)⟩

theorem setWord {a : Nat} {v : Int32} (hstart : b.start ≤ a) (hstop : a + 4 ≤ b.stop)
    (hlow : b.stop ≤ 0x80000000) : Fills b memory (memory.setWord a v) := by
  refine write hstart ?_ hlow
  rwa [LittleEndian.length_encode]

end Memory.Fills

namespace Drain
open RefCounter

variable {counter : RefCounter} {structs : StructTable} {image : Image}
  {S : Site counter structs image} {memory memory' : Memory} {heap heap' : Heap}
  {raw own gained given work : List Nat} {b : HeapBlock} {o : Int32} {r x : Nat}

/-- The worklist is in range, all records have room for what they refer to, and the accounts are in
order. -/
structure Site.Balanced (S : Site counter structs image) (raw own : List Nat) (memory : Memory)
    (heap : Heap) : Prop where
  room : (memory.word S.index).toUInt32.toNat ≤ counter.capacity.toNat
  laidOut : LaidOut structs memory heap
  accounts : (S.graph memory heap).Accounts raw own

/-! What the graph is read from. -/

theorem Site.graph_count : (S.graph memory heap).count r = (memory.word r).toInt := by
  rw [graph, graphOf]

theorem Site.graph_refs : (S.graph memory heap).refs r
    = refsAt memory r (slotsOf structs (memory.word (r + 4))) := by
  rw [graph, graphOf]

theorem Site.graph_pending : (S.graph memory heap).pending
    = (List.range (memory.word S.index).toUInt32.toNat).map fun k =>
      (memory.word (S.worklist + 4 * k)).toUInt32.toNat := by
  rw [graph, graphOf, scheduledAt]

theorem Site.mem_records (hb : b ∈ heap.live) : b.start ∈ (S.graph memory heap).records :=
  List.mem_map.2 ⟨b, hb, rfl⟩

theorem Site.Holds.pending (h : S.Holds work memory) (hwork : ∀ r ∈ work, r < 0x100000000) :
    (S.graph memory heap).pending = work := by
  have hcap := capacity_lt counter
  have hroom := h.room
  have hlength : (memory.word S.index).toUInt32.toNat = work.length := by
    rw [h.index]
    exact UInt32.toNat_ofNat_of_lt' (by simp only [UInt32.size]; omega)
  refine List.ext_getElem? fun k => ?_
  rw [graph_pending, hlength, List.getElem?_map]
  by_cases hk : k < work.length
  · have hentry := h.entry k work[k] (List.getElem?_eq_getElem hk)
    have hsmall : (Int32.ofNat work[k]).toUInt32.toNat = work[k] :=
      UInt32.toNat_ofNat_of_lt' (hwork _ (List.getElem_mem hk))
    rw [List.getElem?_range hk, List.getElem?_eq_getElem hk, Option.map_some, hentry, hsmall]
  · rw [List.getElem?_eq_none (by simpa using hk), List.getElem?_eq_none (by omega)]
    rfl

theorem Site.pending_congr (hroom : (memory.word S.index).toUInt32.toNat ≤ counter.capacity.toNat)
    (h : ∀ a < S.index + 4, memory'.get a = memory.get a) :
    memory'.word S.index = memory.word S.index ∧
      (S.graph memory' heap').pending = (S.graph memory heap).pending := by
  have hapart := S.apart
  have hindex : memory'.word S.index = memory.word S.index :=
    Memory.word_congr fun i hi => h _ (by omega)
  refine ⟨hindex, ?_⟩
  rw [graph_pending, graph_pending, hindex]
  refine List.map_congr_left fun k hk => ?_
  have hk := List.mem_range.1 hk
  rw [Memory.word_congr fun i hi => h _ (by omega)]

theorem Site.record_congr (S : Site counter structs image)
    (hlaid : Has b Layout.typeCodeOffset ∧ ∀ o ∈ slotsOf structs (memory.word (b.start + 4)), Has b o)
    (h : ∀ o, Has b o →
      memory'.word (b.start + o.toInt.toNat) = memory.word (b.start + o.toInt.toNat)) :
    memory'.word (b.start + 4) = memory.word (b.start + 4) ∧
      (S.graph memory' heap').count b.start = (S.graph memory heap).count b.start ∧
      (S.graph memory' heap').refs b.start = (S.graph memory heap).refs b.start := by
  have hcode : memory'.word (b.start + 4) = memory.word (b.start + 4) := h Layout.typeCodeOffset hlaid.1
  have hcount : memory'.word b.start = memory.word b.start :=
    h 0 ⟨by decide, Nat.le_trans (by decide) hlaid.1.2⟩
  rw [graph_count, graph_count, hcount, graph_refs, graph_refs, hcode]
  refine ⟨rfl, rfl, ?_⟩
  exact refsAt_congr fun o ho => h o (hlaid.2 o ho)

theorem get_of_fills {c : HeapBlock} (hf : Memory.Fills b memory memory') (ht : heap.Tidy)
    (hlow : heap.limit ≤ 0x80000000) (hb : b ∈ heap.live) (hc : c ∈ heap.live) (hne : c ≠ b)
    (hx : c.start ≤ x) (hx' : x < c.stop) : memory'.get x = memory.get x := by
  have hstop := (ht.inside c hc).2
  refine hf.get x (by omega) ?_
  apply Classical.byContradiction
  intro hin
  exact hne (ht.eq_of_common hc hb ⟨hx, hx'⟩ (by omega))

theorem word_of_fills {c : HeapBlock} (hf : Memory.Fills b memory memory') (ht : heap.Tidy)
    (hlow : heap.limit ≤ 0x80000000) (hb : b ∈ heap.live) (hc : c ∈ heap.live) (hne : c ≠ b)
    (ho : Has c o) :
    memory'.word (c.start + o.toInt.toNat) = memory.word (c.start + o.toInt.toNat) := by
  have hsize := ho.2
  have hend : c.stop = c.start + c.size := rfl
  exact Memory.word_congr fun i hi => get_of_fills hf ht hlow hb hc hne (by omega) (by omega)

namespace Site.Balanced

theorem congr (h : S.Balanced raw own memory heap)
    (hbelow : ∀ a < S.index + 4, memory'.get a = memory.get a)
    (hcomplete : ∀ c ∈ heap.live, c.start ∉ raw → ∀ o, Has c o →
      memory'.word (c.start + o.toInt.toNat) = memory.word (c.start + o.toInt.toNat))
    (hlaid : LaidOut structs memory' heap) : S.Balanced raw own memory' heap := by
  obtain ⟨hindex, hpending⟩ := @pending_congr _ _ _ S memory memory' heap heap h.room hbelow
  have hrecord {c : HeapBlock} (hc : c ∈ heap.live) (hraw : c.start ∉ raw) :=
    (@record_congr _ _ _ memory memory' heap heap c S (h.laidOut c hc) (hcomplete c hc hraw)).2
  refine ⟨hindex ▸ h.room, hlaid, ?_⟩
  refine @Graph.Accounts.trade _ _ raw own [] [] h.accounts rfl (by rw [hpending, List.append_nil])
    nofun (fun x hx hx' => ?_) fun x hx hx' => ?_
  all_goals obtain ⟨c, hc, rfl⟩ := Site.Ready.mem_records hx
  · rw [(hrecord hc hx').1]
    exact (Int.add_zero _).symm
  · exact (hrecord hc hx').2

theorem setWord {a : Nat} (v : Int32) (h : S.Balanced raw own memory heap) (ha : S.Addresses memory heap)
    (hindex : S.index + 4 ≤ a) (hbase : a + 4 ≤ heap.base) (hlt : a + 4 ≤ 0x80000000) :
    S.Balanced raw own (memory.setWord a v) heap := by
  have hlow := ha.low
  have hword {c : HeapBlock} (hc : c ∈ heap.live) {o : Int32} (ho : Has c o) :
      (memory.setWord a v).word (c.start + o.toInt.toNat) = memory.word (c.start + o.toInt.toNat) := by
    have hinside := ha.tidy.inside c hc
    have hroom := ho.2
    have hend : c.stop = c.start + c.size := rfl
    exact Memory.word_setWord_of_apart (by omega) (by omega) (by omega)
  refine h.congr (fun x hx => Memory.get_setWord (by omega) (by omega) (by omega))
    (fun c hc _ o ho => hword hc ho) fun c hc => ?_
  have hcode := hword hc (h.laidOut c hc).1
  rw [show (memory.setWord a v).word (c.start + 4) = memory.word (c.start + 4) from hcode]
  exact h.laidOut c hc

theorem filled (h : S.Balanced raw own memory heap) (ha : S.Addresses memory heap)
    (hb : b ∈ heap.live) (hraw : b.start ∈ raw) (hf : Memory.Fills b memory memory')
    (hslots : ∀ o ∈ slotsOf structs (memory'.word (b.start + 4)), Has b o) :
    S.Balanced raw own memory' heap := by
  have hbelow := ha.below
  have hsmall := ha.small
  have hinside := ha.tidy.inside b hb
  have hword {c : HeapBlock} (hc : c ∈ heap.live) (hne : c ≠ b) (o : Int32) (ho : Has c o) :=
    word_of_fills hf ha.tidy ha.low hb hc hne ho
  refine h.congr (fun a ha' => hf.get a (by omega) (by omega))
    (fun c hc hcomplete => hword hc fun heq => hcomplete (heq ▸ hraw)) fun c hc => ?_
  by_cases hne : c = b
  · subst hne
    exact ⟨(h.laidOut c hc).1, hslots⟩
  · have hcode := hword hc hne Layout.typeCodeOffset (h.laidOut c hc).1
    rw [show memory'.word (c.start + 4) = memory.word (c.start + 4) from hcode]
    exact h.laidOut c hc

theorem perm_of_allocate {size : Nat} (hs : heap.Sound) (halloc : heap.allocate size = .ok (r, heap'))
    (hb : b ∈ heap'.live) (hr : b.start = r) :
    heap'.live.Perm (b :: heap.live) ∧ r ∉ (S.graph memory heap).records := by
  have hs' := hs.allocate halloc
  obtain ⟨c, rfl, hperm⟩ : ∃ c : HeapBlock, c.start = r ∧ heap'.live.Perm (c :: heap.live) := by
    obtain ⟨free, -, -, rfl⟩ := Heap.allocate_ok halloc
    exact ⟨_, rfl, Heap.insertBlock_perm⟩
  have hunique {d : HeapBlock} (hd : d ∈ heap'.live) (hstart : d.start = b.start) : d = b := by
    have hd' := hs'.nonempty d (List.mem_append_left _ hd)
    have hb' := hs'.nonempty b (List.mem_append_left _ hb)
    exact hs'.tidy.eq_of_common (a := b.start) hd hb
      (by rw [HeapBlock.stop]; omega) (by rw [HeapBlock.stop]; omega)
  obtain rfl : c = b := hunique (hperm.mem_iff.2 List.mem_cons_self) hr.symm
  refine ⟨hperm, fun hmem => ?_⟩
  obtain ⟨d, hd, hstart⟩ := Site.Ready.mem_records hmem
  obtain rfl := hunique (hperm.mem_iff.2 (List.mem_cons_of_mem _ hd)) hstart
  exact (List.nodup_cons.1 (hperm.nodup_iff.1 hs'.nodup_live)).1 hd

theorem opened {size : Nat} (h : S.Balanced raw own memory heap) (ha : S.Addresses memory heap)
    (hs : heap.Sound) (halloc : heap.allocate size = .ok (r, heap')) (hb : b ∈ heap'.live)
    (hr : b.start = r) (hf : Memory.Fills b memory memory') (htype : Has b Layout.typeCodeOffset)
    (hslots : ∀ o ∈ slotsOf structs (memory'.word (b.start + 4)), Has b o) :
    S.Balanced (b.start :: raw) own memory' heap' := by
  have hbelow := ha.below
  have hsmall := ha.small
  have hlow := ha.low
  have hs' := hs.allocate halloc
  have hsame : heap'.base = heap.base ∧ heap'.limit = heap.limit := by
    obtain ⟨free, -, -, rfl⟩ := Heap.allocate_ok halloc
    exact ⟨rfl, rfl⟩
  obtain ⟨hperm, hnew⟩ := @perm_of_allocate _ _ _ S memory _ _ _ _ _ hs halloc hb hr
  obtain rfl := hr
  have hold {d : HeapBlock} (hd : d ∈ heap.live) : d ∈ heap'.live ∧ d ≠ b :=
    ⟨hperm.mem_iff.2 (List.mem_cons_of_mem _ hd), fun heq => hnew (heq ▸ mem_records hd)⟩
  have hinside := hs'.tidy.inside b hb
  have hrecord {d : HeapBlock} (hd : d ∈ heap.live) :=
    @record_congr _ _ _ memory memory' heap heap' d S (h.laidOut d hd) fun o ho =>
      word_of_fills hf hs'.tidy (by omega) hb (hold hd).1 (hold hd).2 ho
  obtain ⟨hindex, hpending⟩ := @pending_congr _ _ _ S memory memory' heap heap' h.room
    fun a ha' => hf.get a (by omega) (by omega)
  refine ⟨hindex ▸ h.room, fun d hd => ?_, h.accounts.opened hnew (hperm.map _) hpending
    (fun x hx _ => ?_) fun x hx _ => ?_⟩
  · rcases List.mem_cons.1 (hperm.mem_iff.1 hd) with rfl | hd
    · exact ⟨htype, hslots⟩
    · rw [(hrecord hd).1]
      exact h.laidOut d hd
  all_goals obtain ⟨d, hd, rfl⟩ := Site.Ready.mem_records hx
  · exact (hrecord hd).2.1
  · exact (hrecord hd).2.2

theorem closed {owned : List Nat} (h : S.Balanced (r :: raw) owned memory heap)
    (howned : owned.Perm ((S.graph memory heap).refs r ++ own)) (hr : r ∉ raw)
    (hone : memory.word r = 1) : S.Balanced raw (r :: own) memory heap := by
  have hcount : 1 ≤ (S.graph memory heap).count r := by
    rw [graph_count, hone]
    decide
  exact ⟨h.room, h.laidOut, (h.accounts.perm howned).closed hr hcount⟩

theorem pending_of_holds (h : S.Balanced raw (given ++ own) memory heap) (ha : S.Addresses memory heap)
    (hw : S.Holds ((S.graph memory heap).pending ++ given) memory') :
    (S.graph memory' heap).pending = (S.graph memory heap).pending ++ given := by
  have hsmall {x : Nat} (hx : x ∈ (S.graph memory heap).records) : x < 0x100000000 := by
    obtain ⟨b, hb, rfl⟩ := Site.Ready.mem_records hx
    have hlt := (ha.start_lt hb (h.laidOut b hb).1).2
    omega
  refine hw.pending fun x hx => hsmall ?_
  rcases List.mem_append.1 hx with hx | hx
  · exact (h.accounts.pending x hx).1
  · exact (h.accounts.held x (List.mem_append_left _ hx)).1

theorem traded (h : S.Balanced raw (given ++ own) memory heap) (hcodes : Codes structs)
    (ha : S.Addresses memory heap) (hs : S.Spares heap memory memory')
    (hw : S.Holds ((S.graph memory heap).pending ++ given) memory')
    (hgained : ∀ x ∈ gained, x ∈ (S.graph memory heap).records ∧ x ∉ raw)
    (hcount : ∀ b ∈ heap.live, (memory'.word b.start).toInt
      = (memory.word b.start).toInt + gained.count b.start) :
    S.Balanced raw (gained ++ own) memory' heap := by
  have hpending := h.pending_of_holds ha hw
  have hcode {b : HeapBlock} (hb : b ∈ heap.live) :
      memory'.word (b.start + 4) = memory.word (b.start + 4) := by
    have htype := hs.word ha h.laidOut hb (h.laidOut b hb).1 (by decide)
    exact htype
  refine ⟨?_, fun b hb => ?_, h.accounts.trade rfl hpending hgained (fun x hx _ => ?_) fun x hx _ => ?_⟩
  · rw [hw.index]
    have hroom := hw.room
    have hcap := capacity_lt counter
    rw [show (Int32.ofNat _).toUInt32.toNat = _ from
      UInt32.toNat_ofNat_of_lt' (by simp only [UInt32.size]; omega)]
    exact hroom
  · rw [hcode hb]
    exact h.laidOut b hb
  all_goals obtain ⟨b, hb, rfl⟩ := Site.Ready.mem_records hx
  · rw [graph_count, graph_count]
    exact hcount b hb
  · rw [graph_refs, graph_refs, hcode hb]
    exact refsAt_congr fun o ho =>
      hs.word ha h.laidOut hb ((h.laidOut b hb).2 o ho) (hcodes.four_le ho)

theorem ready (h : S.Balanced [] own memory heap) (hcodes : Codes structs)
    (ha : S.Addresses memory heap) : S.Ready memory heap :=
  ⟨hcodes, ha, h.room, h.laidOut, h.accounts.covered⟩

theorem drained {F : Nat → Bool} (h : S.Balanced [] own memory heap)
    (hend : S.Between memory heap F [] memory' heap') (hb : b ∈ heap.live) :
    (b.start ∈ own → b ∈ heap'.live) ∧
      (b.start ∈ (S.graph memory heap).pending → memory.word b.start = 1 → b ∉ heap'.live) := by
  rw [hend.live, List.mem_filter]
  refine ⟨fun hown => ⟨hb, ?_⟩, fun hpending hone hmem => ?_⟩
  · rw [h.accounts.not_freed hend.reached hown]
    rfl
  · have hcount : (S.graph memory heap).count b.start = 1 := by
      rw [graph_count, hone]
      rfl
    have hfreed := h.accounts.freed hend.reached hpending hcount
    rw [hfreed] at hmem
    exact absurd hmem.2 (by decide)

end Site.Balanced
end Drain
end IntervalStack
