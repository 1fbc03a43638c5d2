import IntervalStack.Proofs.Drain.Overflow

/-! How long a worklist nested intervals need. The bounds of an interval are scheduled together, and
the upper one is taken first, with all that hangs on it, while the lower one waits. So each level of
nesting keeps one record waiting. -/

namespace IntervalStack.Drain
open RefCounter

/-- An interval in memory by its nesting depth, with the address of its record and those of all its
records, each of which has one reference. The bounds of an interval of depth one are scalars. -/
inductive Nested (memory : Memory) (heap : Heap) : Nat → Nat → List Nat → Prop
  | flat {b : HeapBlock} (hb : b ∈ heap.live) (hroom : Has b Layout.typeCodeOffset)
      (hcount : memory.word b.start = 1)
      (hcode : memory.word (b.start + 4) = Layout.flatIntervalCode) :
      Nested memory heap 1 b.start [b.start]
  | nested {b : HeapBlock} {d low high : Nat} {rs rs' : List Nat} (hb : b ∈ heap.live)
      (hroom : ∀ o ∈ boundSlots, Has b o) (hcount : memory.word b.start = 1)
      (hcode : memory.word (b.start + 4) = Layout.nestedIntervalCode)
      (hbounds : refsAt memory b.start boundSlots = [low, high])
      (hlow : Nested memory heap d low rs) (hhigh : Nested memory heap d high rs') :
      Nested memory heap (d + 1) b.start (b.start :: (rs ++ rs'))

theorem Has.word_eq {memory memory' : Memory} {b : HeapBlock} {o : Int32} (ho : Has b o)
    (hget : ∀ a, b.start ≤ a → a < b.stop → memory'.get a = memory.get a) :
    memory'.word (b.start + o.toInt.toNat) = memory.word (b.start + o.toInt.toNat) := by
  have hsize := ho.2
  exact Memory.word_congr fun i hi => hget _ (by omega) (by rw [HeapBlock.stop]; omega)

namespace Nested

variable {memory memory' : Memory} {heap heap' : Heap} {d r : Nat} {rs : List Nat}

theorem length_eq (h : Nested memory heap d r rs) : rs.length = 2 ^ d - 1 := by
  induction h with
  | flat => rfl
  | @nested _ d _ _ _ _ _ _ _ _ _ _ _ ihlow ihhigh =>
    have hpos : 1 ≤ 2 ^ d := Nat.one_le_two_pow
    rw [List.length_cons, List.length_append, ihlow, ihhigh, Nat.pow_succ]
    omega

theorem four_le_of_bounds : ∀ o ∈ boundSlots, 4 ≤ o.toInt :=
  List.forall_mem_cons.2 ⟨by decide, List.forall_mem_singleton.2 (by decide)⟩

theorem typeCode_of_bounds {b : HeapBlock} (h : ∀ o ∈ boundSlots, Has b o) :
    Has b Layout.typeCodeOffset := by
  have hsize := (h Layout.payloadOffset List.mem_cons_self).2
  exact ⟨by decide, Nat.le_trans (by decide) hsize⟩

theorem exists_block (h : Nested memory heap d r rs) {x : Nat} (hx : x ∈ rs) :
    ∃ b ∈ heap.live, b.start = x ∧ Has b Layout.typeCodeOffset := by
  induction h with
  | flat hb hroom =>
    obtain rfl := List.mem_singleton.1 hx
    exact ⟨_, hb, rfl, hroom⟩
  | nested hb hroom _ _ _ _ _ ihlow ihhigh =>
    rcases List.mem_cons.1 hx with rfl | hx
    · exact ⟨_, hb, rfl, typeCode_of_bounds hroom⟩
    · exact (List.mem_append.1 hx).elim ihlow ihhigh

theorem transfer (h : Nested memory heap d r rs)
    (hlive : ∀ b ∈ heap.live, b.start ∈ rs → b ∈ heap'.live)
    (hget : ∀ b ∈ heap.live, b.start ∈ rs → ∀ a, b.start ≤ a → a < b.stop →
      memory'.get a = memory.get a) : Nested memory' heap' d r rs := by
  induction h with
  | @flat b hb hroom hcount hcode =>
    have hmem : b.start ∈ [b.start] := List.mem_cons_self
    have hfirst : Has b 0 := ⟨by decide, Nat.le_trans (by decide) hroom.2⟩
    exact .flat (hlive b hb hmem) hroom ((hfirst.word_eq (hget b hb hmem)).trans hcount)
      ((hroom.word_eq (hget b hb hmem)).trans hcode)
  | @nested b d low high rs rs' hb hroom hcount hcode hbounds _ _ ihlow ihhigh =>
    have hmem : b.start ∈ b.start :: (rs ++ rs') := List.mem_cons_self
    have htype := typeCode_of_bounds hroom
    have hfirst : Has b 0 := ⟨by decide, Nat.le_trans (by decide) htype.2⟩
    have hrefs : refsAt memory' b.start boundSlots = refsAt memory b.start boundSlots :=
      refsAt_congr fun o ho => (hroom o ho).word_eq (hget b hb hmem)
    have hlow {x : Nat} (hx : x ∈ rs) : x ∈ b.start :: (rs ++ rs') :=
      List.mem_cons_of_mem _ (List.mem_append_left _ hx)
    have hhigh {x : Nat} (hx : x ∈ rs') : x ∈ b.start :: (rs ++ rs') :=
      List.mem_cons_of_mem _ (List.mem_append_right _ hx)
    exact .nested (hlive b hb hmem) hroom ((hfirst.word_eq (hget b hb hmem)).trans hcount)
      ((htype.word_eq (hget b hb hmem)).trans hcode) (hrefs.trans hbounds)
      (ihlow (fun c hc hx => hlive c hc (hlow hx)) fun c hc hx => hget c hc (hlow hx))
      (ihhigh (fun c hc hx => hlive c hc (hhigh hx)) fun c hc hx => hget c hc (hhigh hx))

end Nested

variable {counter : RefCounter} {structs : StructTable} {image : Image}

structure Site.Touches (S : Site counter structs image) (rs : List Nat) (memory memory' : Memory) :
    Prop where
  size : memory'.size = memory.size
  get : ∀ a < 0x100000000, ¬ S.Owns a → (∀ r ∈ rs, a < r ∨ r + 4 ≤ a) → memory'.get a = memory.get a

structure Freed (rs : List Nat) (heap heap' : Heap) : Prop where
  base : heap'.base = heap.base
  limit : heap'.limit = heap.limit
  live : heap'.live = heap.live.filter fun b => b.start ∉ rs
  deallocations : heap'.stats.deallocations = heap.stats.deallocations + rs.length

variable {S : Site counter structs image} {memory memory' memory'' : Memory} {heap heap' heap'' : Heap}
  {rs rs' work : List Nat} {stack : List Value} {b : HeapBlock} {d r : Nat}

theorem Site.Touches.trans (h : S.Touches rs memory memory') (h' : S.Touches rs' memory' memory'') :
    S.Touches (rs ++ rs') memory memory'' := by
  refine ⟨h'.size.trans h.size, fun a ha hout hrs => ?_⟩
  rw [h'.get a ha hout fun r hr => hrs r (List.mem_append_right _ hr),
    h.get a ha hout fun r hr => hrs r (List.mem_append_left _ hr)]

theorem Site.Touches.mono (h : S.Touches rs memory memory') (hsub : ∀ r ∈ rs, r ∈ rs') :
    S.Touches rs' memory memory' :=
  ⟨h.size, fun a ha hout hrs => h.get a ha hout fun r hr => hrs r (hsub r hr)⟩

theorem Freed.trans (h : Freed rs heap heap') (h' : Freed rs' heap' heap'') :
    Freed (rs ++ rs') heap heap'' := by
  refine ⟨h'.base.trans h.base, h'.limit.trans h.limit, ?_, ?_⟩
  · rw [h'.live, h.live, List.filter_filter]
    refine List.filter_congr fun b _ => ?_
    simp only [List.mem_append, not_or, Bool.decide_and, Bool.and_comm]
  · rw [h'.deallocations, h.deallocations, List.length_append, Nat.add_assoc]

theorem Freed.perm (h : Freed rs heap heap') (hperm : rs.Perm rs') : Freed rs' heap heap' := by
  refine ⟨h.base, h.limit, h.live.trans (List.filter_congr fun b _ => ?_), ?_⟩
  · simp only [hperm.mem_iff]
  · rw [h.deallocations, hperm.length_eq]

theorem Freed.addresses (h : Freed rs heap heap') (ha : S.Addresses memory heap)
    (ht : S.Touches rs' memory memory') : S.Addresses memory' heap' := by
  have ha := ha.of_size ht.size
  exact ⟨⟨h.base ▸ ha.below, h.base ▸ ha.base, ha.small⟩, ha.tidy.of_filter h.base h.limit h.live,
    h.limit ▸ ha.limit, h.limit ▸ ha.low⟩

theorem Nested.others (h : Nested memory heap d r rs) (ha : S.Addresses memory heap)
    (ht : S.Touches rs' memory memory') (hf : Freed rs' heap heap') (hrs' : ∀ x ∈ rs', ∃ b ∈ heap.live,
      b.start = x ∧ Has b Layout.typeCodeOffset) (hdisjoint : List.Disjoint rs rs') :
    Nested memory' heap' d r rs := by
  refine h.transfer (fun b hb hx => ?_) fun b hb hx a hstart hstop => ?_
  · rw [hf.live]
    exact List.mem_filter.2 ⟨hb, by simpa using fun hx' => hdisjoint hx hx'⟩
  · have hapart := S.apart
    have hbelow := ha.below
    obtain ⟨hbase, hlimit⟩ := ha.tidy.inside b hb
    have hlow := ha.low
    refine ht.get a (by omega) (by rw [Site.Owns]; omega) fun x hx' => ?_
    obtain ⟨b', hb', rfl, htype⟩ := hrs' x hx'
    -- An address in both records would make them one.
    apply Classical.byContradiction
    intro hin
    have hsize : 8 ≤ b'.size := htype.2
    obtain rfl := ha.tidy.eq_of_common (a := a) hb hb' ⟨hstart, hstop⟩
      ⟨by omega, by rw [HeapBlock.stop]; omega⟩
    exact hdisjoint hx hx'

theorem Site.Keeps.touches (h : S.Keeps memory memory') (rs : List Nat) : S.Touches rs memory memory' :=
  ⟨h.size, fun a ha hout _ => h.get a ha hout⟩

theorem Site.touches_setWord (hlt : b.start + 4 ≤ 0x100000000) (v : Int32) :
    S.Touches [b.start] memory (memory.setWord b.start v) :=
  ⟨Memory.size_setWord, fun _ ha _ hrs =>
    Memory.get_setWord hlt ha (hrs b.start List.mem_cons_self)⟩

theorem Site.round_last (stack : List Value) {slots : List Int32} (ha : S.Addresses memory heap)
    (hw : S.Holds (work ++ [b.start]) memory) (hb : b ∈ heap.live)
    (htype : Has b Layout.typeCodeOffset) (hcount : memory.word b.start = 1)
    (hscans : Scans structs (memory.word (b.start + 4)) slots)
    (hslots : ∀ o ∈ slots, Has b o ∧ 4 ≤ o.toInt) :
    (counter.capacity.toNat < (work ++ refsAt memory b.start slots).length ∧
      ∃ v, Goes image ⟨S.drainAt, stack, memory, heap⟩ v ∧ v.pc = S.overflowAt ∧
        S.Touches [b.start] memory v.memory) ∨
    ∃ memory' heap', Goes image ⟨S.drainAt, stack, memory, heap⟩ ⟨S.drainAt, stack, memory', heap'⟩ ∧
      S.Holds (work ++ refsAt memory b.start slots) memory' ∧ S.Touches [b.start] memory memory' ∧
      Freed [b.start] heap heap' := by
  obtain ⟨hstart, hlt⟩ := ha.start_lt hb htype
  obtain ⟨memory₁, hk, hw₁, htake⟩ := S.take_last stack ha.toStores hw
  have ha₁ := ha.of_size hk.size
  have hsame : memory₁.word b.start = 1 := (hk.word (by omega) (by omega)).trans hcount
  have hdecrement : Goes image ⟨S.drainAt + 16, .int (Int32.ofNat b.start) :: stack, memory₁, heap⟩ _ :=
    S.decrement ha₁ hb ⟨by decide, Nat.le_trans (by decide) htype.2⟩
  rw [hsame, if_neg (by decide)] at hdecrement
  let memory₂ := memory₁.setWord b.start (1 - 1)
  have ht : S.Touches [b.start] memory memory₂ :=
    ((hk.touches []).trans (S.touches_setWord (by omega) _))
  -- All words of the record but its count are kept.
  have hword {o : Int32} (ho : Has b o) (h4 : 4 ≤ o.toInt) :
      memory₂.word (b.start + o.toInt.toNat) = memory.word (b.start + o.toInt.toNat) := by
    have hlt' := (ha.start_lt hb ho).2
    rw [Memory.word_setWord_of_apart (by omega) (by omega) (by omega), hk.word (by omega) hlt']
  have hcode : memory₂.word (b.start + 4) = memory.word (b.start + 4) :=
    hword (o := Layout.typeCodeOffset) htype (by decide)
  have hrefs : refsAt memory₂ b.start slots = refsAt memory b.start slots :=
    refsAt_congr fun o ho => hword (hslots o ho).1 (hslots o ho).2
  have hscan := S.scan_slots stack (ha₁.of_size Memory.size_setWord) (hw₁.setWord hstart (by omega)) hb
    htype (hcode ▸ hscans) fun o ho => (hslots o ho).1
  rw [hrefs] at hscan
  obtain ⟨v, hgo, hfull | ⟨memory', rfl, hk', hw'⟩⟩ := hscan
  · exact .inl ⟨hfull.long, v, htake.trans (hdecrement.trans hgo), hfull.pc,
      ht.trans (hfull.keeps.touches [])⟩
  · obtain ⟨heap', hd, hbase, hlimit, hlive, hstats⟩ := Heap.deallocate_of_mem hb
    refine .inr ⟨memory', heap', htake.trans (hdecrement.trans (hgo.trans (S.free (by omega) hd))), hw',
      ht.trans (hk'.touches []), hbase, hlimit, hlive.trans (List.filter_congr fun c _ => ?_), hstats⟩
    exact Bool.eq_iff_iff.2 (by simp)

/-- The worklist is long enough for an interval if it has room for as many records as the interval is
deep; otherwise it overflows. -/
theorem Nested.drains {d r : Nat} {rs work : List Nat} {memory : Memory} {heap : Heap}
    (stack : List Value) (h : Nested memory heap d r rs)
    (hflat : Layout.flatIntervalCode ∉ (parents structs).map (·.typeCode))
    (hnodup : rs.Nodup) (ha : S.Addresses memory heap) (hw : S.Holds (work ++ [r]) memory) :
    (work.length + d ≤ counter.capacity.toNat →
      ∃ memory' heap', Goes image ⟨S.drainAt, stack, memory, heap⟩ ⟨S.drainAt, stack, memory', heap'⟩ ∧
        S.Holds work memory' ∧ S.Touches rs memory memory' ∧ Freed rs heap heap') ∧
    (counter.capacity.toNat < work.length + d →
      ∃ v, Goes image ⟨S.drainAt, stack, memory, heap⟩ v ∧ v.pc = S.overflowAt ∧
        S.Touches rs memory v.memory) := by
  induction d generalizing r rs work memory heap with
  | zero => cases h
  | succ d ih =>
    have hroom := hw.room
    rw [List.length_append, List.length_singleton] at hroom
    cases h with
    | @flat b hb htype hcount hcode =>
      refine ⟨fun _ => ?_, fun hlong => absurd hroom (by omega)⟩
      rcases S.round_last stack ha hw hb htype hcount (.other (by rw [hcode]; decide) (by rwa [hcode]))
        (fun o ho => absurd ho List.not_mem_nil) with ⟨hlong, -⟩ | hround
      · exact absurd hlong (by simp [refsAt]; omega)
      · simpa [refsAt] using hround
    | @nested b _ low high rs rs' hb hslots hcount hcode hbounds hlow hhigh =>
      obtain ⟨hroot, hrest⟩ := List.nodup_cons.1 hnodup
      obtain ⟨-, hnodup', hdisjoint⟩ := List.nodup_append.1 hrest
      have hdeep : 1 ≤ d := by cases hlow <;> omega
      have hscans : Scans structs (memory.word (b.start + 4)) boundSlots := by
        rw [hcode]
        exact .nested
      have hself : ∀ x ∈ [b.start], ∃ b ∈ heap.live, b.start = x ∧ Has b Layout.typeCodeOffset := by
        intro x hx
        obtain rfl := List.mem_singleton.1 hx
        exact ⟨b, hb, rfl, typeCode_of_bounds hslots⟩
      have hround := S.round_last stack ha hw hb (typeCode_of_bounds hslots) hcount hscans fun o ho =>
        ⟨hslots o ho, four_le_of_bounds o ho⟩
      rw [hbounds] at hround
      rcases hround with ⟨hlong, v, hgo, hpc, ht⟩ | ⟨memory₁, heap₁, hgo, hw₁, ht, hf⟩
      · -- The bounds themselves find no room.
        rw [List.length_append] at hlong
        refine ⟨fun hshort => absurd hlong (by simp; omega), fun _ => ⟨v, hgo, hpc, ht.mono ?_⟩⟩
        intro x hx
        obtain rfl := List.mem_singleton.1 hx
        exact List.mem_cons_self
      -- The lower bound waits while the upper one is drained.
      rw [List.append_cons] at hw₁
      have ha₁ := hf.addresses ha ht
      have hhigh₁ := hhigh.others ha ht hf hself
        (List.disjoint_singleton.2 fun hx => hroot (List.mem_append_right _ hx))
      have hlow₁ := hlow.others ha ht hf hself
        (List.disjoint_singleton.2 fun hx => hroot (List.mem_append_left _ hx))
      obtain ⟨hfits, hover⟩ := ih hhigh₁ hnodup' ha₁ hw₁
      rw [List.length_append, List.length_singleton] at hfits hover
      refine ⟨fun hshort => ?_, fun hlong => ?_⟩
      · obtain ⟨memory₂, heap₂, hgo₂, hw₂, ht₂, hf₂⟩ := hfits (by omega)
        have hlow₂ := hlow₁.others ha₁ ht₂ hf₂ (fun x hx => hhigh₁.exists_block hx)
          fun x hx hx' => hdisjoint x hx x hx' rfl
        obtain ⟨memory₃, heap₃, hgo₃, hw₃, ht₃, hf₃⟩ :=
          (ih hlow₂ (List.nodup_append.1 hrest).1 (hf₂.addresses ha₁ ht₂) hw₂).1 (by omega)
        have hperm : ([b.start] ++ rs' ++ rs).Perm (b.start :: (rs ++ rs')) :=
          (List.perm_append_comm).cons b.start
        exact ⟨memory₃, heap₃, hgo.trans (hgo₂.trans hgo₃), hw₃,
          ((ht.trans ht₂).trans ht₃).mono fun x hx => hperm.mem_iff.1 hx,
          ((hf.trans hf₂).trans hf₃).perm hperm⟩
      · obtain ⟨v, hgo₂, hpc, ht₂⟩ := hover (by omega)
        refine ⟨v, hgo.trans hgo₂, hpc, (ht.trans ht₂).mono fun x hx => ?_⟩
        rcases List.mem_cons.1 hx with rfl | hx
        · exact List.mem_cons_self
        · exact List.mem_cons_of_mem _ (List.mem_append_right _ hx)

/-- The routine has returned from a call with nothing scheduled, and has freed the records in `rs`. -/
structure Emptied (counter : RefCounter) (worklist index : Nat) (rs : List Nat) (m m' : Machine) :
    Prop where
  pc : m'.pc = m.pc + 1
  stack : m'.stack = m.stack
  output : m'.output = m.output
  running : m'.halted = false
  empty : m'.memory.word index = 0
  freed : Freed rs m.heap m'.heap
  memory : ∀ a < 0x100000000, ¬ (worklist ≤ a ∧ a < worklist + 4 * counter.capacity.toNat) →
    ¬ (index ≤ a ∧ a < index + 4) → (∀ r ∈ rs, a < r ∨ r + 4 ≤ a) → m'.memory.get a = m.memory.get a

variable {c : Code} {settings : MachineSettings} {m₀ m : Machine}

/-- A worklist is long enough for a nested interval if, and only if, it holds as many records as the
interval is deep. -/
theorem nesting_depth_needed {root worklist index : Nat} (hload : Machine.load c settings = .ok m₀)
    (hc : Serves counter structs c) (hflat : ∀ s ∈ structs.layouts, s.typeCode ≠ Layout.flatIntervalCode)
    (hm : Machine.Intact m₀ m) (hworklist : m.image.dataLabel? RefCounter.worklist = some worklist)
    (hindex : m.image.dataLabel? worklistIndex = some index) (hrunning : m.halted = false)
    (hcall : m.image.code[m.pc]? = some drain) (hlow : m.heap.limit ≤ 0x80000000)
    (hshort : m.image.code.size < 0x80000000)
    (hformat : m.Shows Environment.errorFormat "Runtime error: %s\n")
    (htext : m.Shows overflowMessage overflowText)
    (hroot : scheduledAt worklist index m.memory = [root])
    (hnested : Nested m.memory m.heap d root rs) (hdistinct : rs.Nodup) :
    rs.length = 2 ^ d - 1 ∧
      (d ≤ counter.capacity.toNat →
        ∃ m', Machine.Reaches m m' ∧ Emptied counter worklist index rs m m') ∧
      (counter.capacity.toNat < d → ∃ m', Machine.Reaches m m' ∧ m'.halted = true ∧ m'.output
        = m.output ++ "Runtime error: reference-count decrement worklist overflow\n") := by
  have hl := Machine.load_loaded hload
  rw [hm.image] at hworklist hindex hshort hcall
  obtain ⟨S, hbelow⟩ := exists_site hl hc.data hc.routines hc.host hshort
  obtain rfl : S.worklist = worklist := Option.some.inj (S.hworklist.symm.trans hworklist)
  obtain rfl : S.index = index := Option.some.inj (S.hindex.symm.trans hindex)
  have ha := S.addresses_of_intact hl hm hbelow hlow
  have hone : (m.memory.word S.index).toUInt32.toNat = 1 := by
    simpa [scheduledAt] using congrArg List.length hroot
  have hpos : 0 < counter.capacity.toNat := counter.pos
  have hw : S.Holds ([] ++ [root]) m.memory := by
    rw [List.nil_append, ← hroot]
    exact S.holds_scheduled (by omega)
  have hparents : Layout.flatIntervalCode ∉ (parents structs).map (·.typeCode) := by
    intro hmem
    obtain ⟨s, hs, hcode⟩ := List.mem_map.1 hmem
    exact hflat s (List.mem_filter.1 hs).1 hcode
  have hroutine : m₀.image.label? drainRoutine = some S.drainAt :=
    S.hdrain.label [] _ ((drainCode structs).drop 1) rfl
  have hlt : m.pc + 1 < 0x80000000 :=
    Nat.lt_of_le_of_lt (Array.getElem?_eq_some_iff.1 hcall).1 hshort
  have henter : Goes m₀.image ⟨m.pc, m.stack, m.memory, m.heap⟩ _ :=
    .one (.call hcall (by decide) hroutine)
  obtain ⟨hfits, hover⟩ := hnested.drains (.int (Int32.ofNat (m.pc + 1)) :: m.stack) hparents hdistinct
    ha hw
  rw [List.length_nil, Nat.zero_add] at hfits hover
  refine ⟨hnested.length_eq, fun hdeep => ?_, fun hdeep => ?_⟩
  · obtain ⟨memory', heap', hgo, hw', ht, hf⟩ := hfits hdeep
    have hdone := (henter.trans hgo).trans (S.take_none (hf.addresses ha ht).toStores hw')
    have hback := hdone.trans (.one (.ret (S.sections.ends.code 4 _ rfl) hlt))
    rw [← hm.image] at hback
    obtain ⟨steps, hreaches⟩ := Machine.reaches_of_goes hrunning hback
    refine ⟨_, hreaches, rfl, rfl, rfl, rfl, hw'.index, hf, fun a ha hout hout' hrs => ?_⟩
    exact ht.get a ha (by rw [Site.Owns]; omega) hrs
  · obtain ⟨v, hgo, hpc, ht⟩ := hover hdeep
    have hstuck := henter.trans hgo
    rw [← hm.image] at hstuck
    obtain ⟨steps, hreaches⟩ := Machine.reaches_of_goes hrunning hstuck
    have hsize : m.memory.size < 0x100000000 := by
      rw [hm.size, hl.size]
      exact settings.memorySize.toNat_lt
    -- The texts lie in front of all records.
    have hget : ∀ b < m₀.heap.base, ¬ S.Owns b → v.memory.get b = m.memory.get b := by
      intro b hb hout
      have hbase := hm.heap.base_eq
      have hin := ha.base
      refine ht.get b (by omega) hout fun r hr => ?_
      obtain ⟨b', hb', rfl, -⟩ := hnested.exists_block hr
      have hinside := (ha.tidy.inside b' hb').1
      omega
    have hshows {label text : String} (hin : Environment.dataString label text <:+: c)
        (h : m.Shows label text) : (v.machine m.image m.output steps).Shows label text :=
      S.shows_of_keeps hl hc.data hin hm.image hm.image ht.size hget h
    obtain ⟨m', hreport⟩ := S.overflow_reports (m := v.machine m.image m.output steps) hl hc.routines
      hc.errors hm.image hpc rfl (ht.size ▸ Nat.le_of_lt hsize) (hshows hc.format hformat) (hshows hc.message htext)
    exact ⟨m', hreaches.trans hreport.reaches, hreport.halted, hreport.output⟩

def twoCounter : RefCounter := ⟨2, by decide, by decide⟩

def reportListing : Code :=
  twoCounter.data ++ (Environment.dataString Environment.errorFormat "Runtime error: %s\n"
    ++ ([drain, .halt] ++ (Environment.errorHandlers ++ twoCounter.subroutines ⟨[]⟩)))

def nestMemory (root : Int32) : Memory :=
  [(0, root), (8, 1), (80, 1), (84, 3), (92, 100), (96, 160), (100, 1), (104, 3), (112, 120), (116, 140),
    (120, 1), (124, 2), (140, 1), (144, 2), (160, 1), (164, 3), (172, 180), (176, 200), (180, 1),
    (184, 2), (200, 1), (204, 2)].foldl (fun m (w : Nat × Int32) => m.setWord w.1 w.2)
    (((Memory.zeros 1024).write 12 (Instr.dataS overflowText).bytes).write 56
      (Instr.dataS "Runtime error: %s\n").bytes)

def nestHeap : Heap := (Heap.empty 80 320).after (List.replicate 7 (.allocate 20))

def nestMachine (image : Image) (root : Int32) : Machine :=
  ⟨image, nestMemory root, nestHeap, [], 0, "", 0, false⟩

theorem size_nestMemory (root : Int32) : (nestMemory root).size = 1024 := by
  simp [nestMemory, Memory.zeros]

theorem blank_nestMemory (root : Int32) : (nestMemory root).Blank := by
  have hzeros : (Memory.zeros 1024).Blank := fun a _ _ => ByteTree.get_zeros _ a
  refine Memory.Blank.setWords ?_ (show 1024 ≤ UInt32.size by decide) _ (by simp [Memory.zeros])
  exact (hzeros.write (by decide +kernel) (by decide)).write (by decide +kernel) (by decide)

/-- The records of the interval: four with scalar bounds, and three with two of the others each. -/
theorem nested_records {root : Int32} (hroot : root = 80 ∨ root = 160) :
    (∀ a ∈ [120, 140, 180, 200], Nested (nestMemory root) nestHeap 1 a [a]) ∧
    ∀ p ∈ [(100, 120, 140), (160, 180, 200), (80, 100, 160)], ∀ d rs rs',
      Nested (nestMemory root) nestHeap d p.2.1 rs → Nested (nestMemory root) nestHeap d p.2.2 rs' →
      Nested (nestMemory root) nestHeap (d + 1) p.1 (p.1 :: (rs ++ rs')) := by
  constructor
  · intro a ha
    have hall : ∀ a ∈ [120, 140, 180, 200], ⟨a, 20⟩ ∈ nestHeap.live ∧
        (nestMemory root).word a = 1 ∧
        (nestMemory root).word (a + 4) = Layout.flatIntervalCode := by
      rcases hroot with rfl | rfl <;> decide +kernel
    obtain ⟨hb, hcount, hcode⟩ := hall a ha
    exact .flat (b := ⟨a, 20⟩) hb ⟨by decide, show 4 + 4 ≤ 20 by decide⟩ hcount hcode
  · intro p hp d rs rs' hlow hhigh
    have hall : ∀ p ∈ [(100, 120, 140), (160, 180, 200), (80, 100, 160)],
        ⟨p.1, 20⟩ ∈ nestHeap.live ∧ (nestMemory root).word p.1 = 1 ∧
        (nestMemory root).word (p.1 + 4) = Layout.nestedIntervalCode ∧
        refsAt (nestMemory root) p.1 boundSlots = [p.2.1, p.2.2] := by
      rcases hroot with rfl | rfl <;> decide +kernel
    obtain ⟨hb, hcount, hcode, hbounds⟩ := hall p hp
    refine .nested (b := ⟨p.1, 20⟩) hb (fun o ho => ?_) hcount hcode hbounds hlow hhigh
    have hslots : ∀ o ∈ boundSlots, 0 ≤ o.toInt ∧ o.toInt.toNat + 4 ≤ 20 :=
      List.forall_mem_cons.2 ⟨by decide, List.forall_mem_singleton.2 (by decide)⟩
    exact hslots o ho

/-- The upper bound, which is of depth two, is drained with a worklist for two records; the whole
interval is not. -/
theorem nesting_depth_needed_two :
    ∃ m₀, Machine.load reportListing ⟨1024, 240, 1000⟩ = .ok m₀ ∧
      (∃ m', Machine.Reaches (nestMachine m₀.image 160) m' ∧
        Emptied twoCounter 0 8 [160, 180, 200] (nestMachine m₀.image 160) m') ∧
      ∃ m', Machine.Reaches (nestMachine m₀.image 80) m' ∧ m'.halted = true ∧
        m'.output = "Runtime error: reference-count decrement worklist overflow\n" := by
  have hok : (Machine.load reportListing ⟨1024, 240, 1000⟩).toBool = true := by decide +kernel
  cases hload : Machine.load reportListing ⟨1024, 240, 1000⟩ with
  | error e =>
    rw [hload] at hok
    cases hok
  | ok m₀ =>
    have hl := Machine.load_loaded hload
    have hc : Serves twoCounter ⟨[]⟩ reportListing := {
      data := (List.prefix_append _ _).isInfix
      format := List.infix_append' _ _ _
      errors := ⟨reportListing.take 10, twoCounter.subroutines ⟨[]⟩, rfl⟩
      routines := ⟨reportListing.take 17, [], rfl⟩
      host := by decide +kernel }
    have hkept : Heap.Kept m₀.heap.base m₀.heap.limit nestHeap := by
      rw [hl.heap, show Machine.heapBase reportListing = 80 by decide +kernel]
      exact (Heap.kept_empty (by decide)).after _
    have hcode := hl.code
    have hlabel := hl.dataLabel
    have hsize := hl.size
    -- A name for the image keeps it apart from that of the machines in question.
    obtain ⟨image, himage⟩ : ∃ image, m₀.image = image := ⟨_, rfl⟩
    refine ⟨m₀, rfl, ?_⟩
    rw [himage] at hcode hlabel ⊢
    have hlength : image.code.size < 0x80000000 := by
      rw [← Array.length_toList, hcode]
      decide +kernel
    have hcall : image.code[0]? = some drain := by
      rw [← Array.getElem?_toList, hcode]
      decide +kernel
    have hm (root : Int32) : Machine.Intact m₀ (nestMachine image root) :=
      ⟨himage.symm, (size_nestMemory root).trans hsize.symm, hkept, blank_nestMemory root⟩
    have hworklist : image.dataLabel? worklist = some 0 := hlabel [] _ _ rfl
    have hindex : image.dataLabel? worklistIndex = some 8 :=
      hlabel (reportListing.take 2) _ (reportListing.drop 3) rfl
    have hmessage : image.dataLabel? overflowMessage = some 12 :=
      hlabel (reportListing.take 4) _ (reportListing.drop 5) rfl
    have hformat : image.dataLabel? Environment.errorFormat = some 56 := by
      have hat := hlabel (reportListing.take 6) Environment.errorFormat (reportListing.drop 7) rfl
      rwa [show Code.dataSize (reportListing.take 6) = 56 by decide +kernel] at hat
    have hshows (root : Int32) (hroot : root = 80 ∨ root = 160) :
        (nestMachine image root).Shows Environment.errorFormat "Runtime error: %s\n" ∧
        (nestMachine image root).Shows overflowMessage overflowText ∧
        scheduledAt 0 8 (nestMemory root) = [root.toUInt32.toNat] := by
      obtain ⟨hread, hread', hscheduled⟩ :
          (nestMemory root).read 56 19 = (Instr.dataS "Runtime error: %s\n").bytes ∧
          (nestMemory root).read 12 44 = (Instr.dataS overflowText).bytes ∧
          scheduledAt 0 8 (nestMemory root) = [root.toUInt32.toNat] := by
        rcases hroot with rfl | rfl <;> decide +kernel
      refine ⟨⟨56, hformat, ?_, hread⟩, ⟨12, hmessage, ?_, hread'⟩, hscheduled⟩
      all_goals
        rw [show (nestMachine image root).memory.size = 1024 from size_nestMemory root]
        decide +kernel
    have hlow : nestHeap.limit ≤ 0x80000000 := by decide +kernel
    constructor
    · obtain ⟨hformat, hmessage, hroot⟩ := hshows 160 (.inr rfl)
      obtain ⟨hleaf, hnode⟩ := nested_records (.inr rfl : (160 : Int32) = 80 ∨ _)
      have hnested := hnode (160, 180, 200) (by decide) 1 [180] [200] (hleaf 180 (by decide))
        (hleaf 200 (by decide))
      exact (nesting_depth_needed hload hc (by simp) (hm 160) hworklist hindex rfl hcall hlow hlength
        hformat hmessage hroot hnested (by decide)).2.1 (by decide)
    · obtain ⟨hformat, hmessage, hroot⟩ := hshows 80 (.inl rfl)
      obtain ⟨hleaf, hnode⟩ := nested_records (.inl rfl : (80 : Int32) = 80 ∨ _)
      have hlow' := hnode (100, 120, 140) (by decide) 1 [120] [140] (hleaf 120 (by decide))
        (hleaf 140 (by decide))
      have hhigh := hnode (160, 180, 200) (by decide) 1 [180] [200] (hleaf 180 (by decide))
        (hleaf 200 (by decide))
      have hnested := hnode (80, 100, 160) (by decide) 2 _ _ hlow' hhigh
      exact (nesting_depth_needed hload hc (by simp) (hm 80) hworklist hindex rfl hcall hlow hlength
        hformat hmessage hroot hnested (by decide)).2.2 (by decide)

end IntervalStack.Drain
