import IntervalStack.Proofs.Drain.Graph
import IntervalStack.Proofs.Drain.Round

/-! All rounds of the routine that carries out the scheduled decrements. -/

namespace IntervalStack.Drain
open RefCounter

variable {counter : RefCounter} {structs : StructTable} {image : Image}

def scheduledAt (worklist index : Nat) (memory : Memory) : List Nat :=
  (List.range (memory.word index).toUInt32.toNat).map fun k =>
    (memory.word (worklist + 4 * k)).toUInt32.toNat

theorem Site.holds_scheduled {S : Site counter structs image} {memory : Memory}
    (h : (memory.word S.index).toUInt32.toNat ≤ counter.capacity.toNat) :
    S.Holds (scheduledAt S.worklist S.index memory) memory := by
  refine ⟨by simpa [scheduledAt] using h, ?_, fun k r hk => ?_⟩
  · simp [scheduledAt, Word.ofNat_toNat]
  · simp only [scheduledAt, List.getElem?_map, Option.map_eq_some_iff] at hk
    obtain ⟨k', hk', rfl⟩ := hk
    obtain ⟨hlt, rfl⟩ := List.getElem?_eq_some_iff.1 hk'
    rw [List.getElem_range, Word.ofNat_toNat]

def graphOf (structs : StructTable) (worklist index : Nat) (memory : Memory) (heap : Heap) : Graph where
  records := heap.live.map (·.start)
  count r := (memory.word r).toInt
  refs r := refsAt memory r (slotsOf structs (memory.word (r + 4)))
  pending := scheduledAt worklist index memory

def Site.graph (S : Site counter structs image) (memory : Memory) (heap : Heap) : Graph :=
  graphOf structs S.worklist S.index memory heap

/-- Every live record has room for its header and its references. -/
def LaidOut (structs : StructTable) (memory : Memory) (heap : Heap) : Prop :=
  ∀ b ∈ heap.live, Has b Layout.typeCodeOffset ∧
    ∀ o ∈ slotsOf structs (memory.word (b.start + 4)), Has b o

-- The slots are looked through, not all words.
instance (structs : StructTable) (memory : Memory) (heap : Heap) :
    Decidable (LaidOut structs memory heap) :=
  @List.decidableBAll _ _ (fun _ => @instDecidableAnd _ _ _ (List.decidableBAll _ _)) heap.live

structure Site.Spares (S : Site counter structs image) (heap : Heap) (memory memory' : Memory) :
    Prop where
  size : memory'.size = memory.size
  get : ∀ a < 0x100000000, ¬ S.Owns a → (∀ b ∈ heap.live, a < b.start ∨ b.start + 4 ≤ a) →
    memory'.get a = memory.get a

variable {S : Site counter structs image} {memory memory' memory₀ : Memory} {heap heap₀ : Heap}
  {work : List Nat} {stack : List Value} {b : HeapBlock} {r : Nat} {o : Int32} {F : Nat → Bool}

theorem Site.Spares.keeps (h : S.Spares heap₀ memory₀ memory) (hk : S.Keeps memory memory') :
    S.Spares heap₀ memory₀ memory' :=
  ⟨hk.size.trans h.size, fun a ha hout hcount => (hk.get a ha hout).trans (h.get a ha hout hcount)⟩

theorem Site.Spares.setCount (h : S.Spares heap₀ memory₀ memory) (hb : b ∈ heap₀.live)
    (hlt : b.start + 4 ≤ 0x80000000) (v : Int32) :
    S.Spares heap₀ memory₀ (memory.setWord b.start v) := by
  refine ⟨Memory.size_setWord.trans h.size, fun a ha hout hcount => ?_⟩
  have hapart := hcount b hb
  rw [Memory.get_setWord (by omega) ha hapart, h.get a ha hout hcount]

theorem Site.Spares.word (h : S.Spares heap₀ memory₀ memory) (hf : S.Addresses memory₀ heap₀)
    (hl : LaidOut structs memory₀ heap₀) (hb : b ∈ heap₀.live) (ho : Has b o) (h4 : 4 ≤ o.toInt) :
    memory.word (b.start + o.toInt.toNat) = memory₀.word (b.start + o.toInt.toNat) := by
  obtain ⟨hstart, hlt⟩ := hf.start_lt hb ho
  have hapart := S.apart
  have hsize := ho.2
  refine Memory.word_congr fun i hi => h.get _ (by omega) (by rw [Owns]; omega) fun b' hb' => ?_
  -- A count at this address would be that of the record itself.
  apply Classical.byContradiction
  intro hin
  have hsize' := ((hl b' hb').1).2
  have hoffset : Layout.typeCodeOffset.toInt.toNat = 4 := rfl
  have hsame := hf.tidy.eq_of_common (a := b.start + o.toInt.toNat + i) hb hb'
    (by rw [HeapBlock.stop]; omega) (by rw [HeapBlock.stop]; omega)
  subst hsame
  omega

theorem Codes.four_le (hc : Codes structs) {code : Int32} (ho : o ∈ slotsOf structs code) :
    4 ≤ o.toInt := by
  have hpayload : Layout.payloadOffset.toInt ≤ o.toInt := by
    rw [slotsOf] at ho
    split at ho
    · cases ho
    · split at ho
      · rcases List.mem_cons.1 ho with rfl | ho
        · decide
        · obtain rfl := List.mem_singleton.1 ho
          decide
      · cases hf : structs.layouts.find? (·.typeCode == code) with
        | none => simp [hf] at ho
        | some s =>
          rw [hf] at ho
          exact hc.payload s (List.mem_of_find?_eq_some hf) o ho
  have htwelve : Layout.payloadOffset.toInt = 12 := rfl
  omega

structure Site.Ready (S : Site counter structs image) (memory : Memory) (heap : Heap) : Prop where
  codes : Codes structs
  addresses : S.Addresses memory heap
  room : (memory.word S.index).toUInt32.toNat ≤ counter.capacity.toNat
  laidOut : LaidOut structs memory heap
  covered : (S.graph memory heap).Covered

structure Site.Between (S : Site counter structs image) (memory₀ : Memory) (heap₀ : Heap)
    (F : Nat → Bool) (work : List Nat) (memory : Memory) (heap : Heap) : Prop where
  addresses : S.Addresses memory heap
  base : heap.base = heap₀.base
  limit : heap.limit = heap₀.limit
  holds : S.Holds work memory
  spares : S.Spares heap₀ memory₀ memory
  reached : (S.graph memory₀ heap₀).Reached F (fun r => (memory.word r).toInt) work
  live : heap.live = heap₀.live.filter fun b => !F b.start
  deallocations : heap.stats.deallocations
    = heap₀.stats.deallocations + ((S.graph memory₀ heap₀).records.filter F).length

theorem Site.Ready.start (h : S.Ready memory heap) :
    S.Between memory heap (fun _ => false) (S.graph memory heap).pending memory heap where
  addresses := h.addresses
  base := rfl
  limit := rfl
  holds := Site.holds_scheduled h.room
  spares := ⟨rfl, fun _ _ _ _ => rfl⟩
  reached := .start h.covered
  live := (List.filter_eq_self.2 fun _ _ => rfl).symm
  deallocations := by simp

theorem Site.Ready.refs_eq (h : S.Ready memory₀ heap₀) (hs : S.Spares heap₀ memory₀ memory)
    (hb : b ∈ heap₀.live) :
    memory.word (b.start + 4) = memory₀.word (b.start + 4) ∧
      refsAt memory b.start (slotsOf structs (memory.word (b.start + 4)))
        = (S.graph memory₀ heap₀).refs b.start := by
  have htype := hs.word h.addresses h.laidOut hb (h.laidOut b hb).1 (by decide)
  refine ⟨htype, ?_⟩
  rw [show memory.word (b.start + 4) = memory₀.word (b.start + 4) from htype]
  refine refsAt_congr fun o ho => ?_
  exact hs.word h.addresses h.laidOut hb ((h.laidOut b hb).2 o ho) (h.codes.four_le ho)

theorem Site.Ready.mem_records {x : Nat} (hx : x ∈ (S.graph memory₀ heap₀).records) :
    ∃ b ∈ heap₀.live, b.start = x := by
  simpa [graph, graphOf] using hx

theorem Site.Between.scheduled (hr₀ : S.Ready memory₀ heap₀)
    (h : S.Between memory₀ heap₀ F work memory heap) (hr : r ∈ work) :
    ∃ b ∈ heap₀.live, b.start = r ∧ b ∈ heap.live ∧ 1 ≤ (memory.word r).toInt := by
  have hrec := h.reached.scheduled r hr
  have hF := h.reached.live_of_mem hr
  obtain ⟨b, hb, rfl⟩ := Site.Ready.mem_records hrec
  refine ⟨b, hb, rfl, ?_, h.reached.pos_of_mem hr₀.covered hr⟩
  rw [h.live]
  exact List.mem_filter.2 ⟨hb, by rw [hF]; rfl⟩

theorem Site.Ready.word_setCount (h : S.Ready memory₀ heap₀) (hb : b ∈ heap₀.live) {b' : HeapBlock}
    (hb' : b' ∈ heap₀.live) (v : Int32) :
    (memory.setWord b.start v).word b'.start = if b'.start = b.start then v else memory.word b'.start := by
  obtain ⟨hstart, hlt⟩ := h.addresses.start_lt hb (h.laidOut b hb).1
  obtain ⟨hstart', hlt'⟩ := h.addresses.start_lt hb' (h.laidOut b' hb').1
  split
  · next heq => rw [heq, Memory.word_setWord_self (by omega)]
  · next hne =>
    have hsize := ((h.laidOut b hb).1).2
    have hsize' := ((h.laidOut b' hb').1).2
    refine Memory.word_setWord_of_apart (by omega) (by omega) ?_
    -- Otherwise the later one of the starts would lie in both records.
    apply Classical.byContradiction
    intro hin
    refine hne (congrArg HeapBlock.start (h.addresses.tidy.eq_of_common (a := max b.start b'.start) hb' hb
      ?_ ?_))
    all_goals rw [HeapBlock.stop]; omega

theorem Site.Ready.counts (h : S.Ready memory₀ heap₀) (hk : S.Keeps memory memory')
    (hb : b ∈ heap₀.live) (v : Int32) {x : Nat} (hx : x ∈ (S.graph memory₀ heap₀).records) :
    (memory'.setWord b.start v).word x = if x = b.start then v else memory.word x := by
  obtain ⟨b', hb', rfl⟩ := Site.Ready.mem_records hx
  obtain ⟨hstart, hlt⟩ := h.addresses.start_lt hb' (h.laidOut b' hb').1
  rw [h.word_setCount hb hb', hk.word hstart (by omega)]

theorem Site.Between.kept (hr : S.Ready memory₀ heap₀)
    (h : S.Between memory₀ heap₀ F (work ++ [b.start]) memory heap) (hk : S.Keeps memory memory')
    (hw : S.Holds work memory') (hb : b ∈ heap₀.live) (hmore : 1 < (memory.word b.start).toInt) :
    S.Between memory₀ heap₀ F work (memory'.setWord b.start (memory.word b.start - 1)) heap := by
  obtain ⟨hstart, hlt⟩ := hr.addresses.start_lt hb (hr.laidOut b hb).1
  refine ⟨(h.addresses.of_size hk.size).of_size Memory.size_setWord, h.base, h.limit,
    hw.setWord hstart (by omega), (h.spares.keeps hk).setCount hb (by omega) _, (h.reached.decrement hmore).congr ?_, h.live,
    h.deallocations⟩
  intro x hx hF
  rw [hr.counts hk hb _ hx]
  split
  · next heq => exact Word.toInt_pred (by omega)
  · rfl

theorem Site.Between.freed {heap' : Heap} {memory'' : Memory} (hr : S.Ready memory₀ heap₀)
    (h : S.Between memory₀ heap₀ F (work ++ [b.start]) memory heap) (hk : S.Keeps memory memory')
    (hb : b ∈ heap₀.live) (hlast : (memory.word b.start).toInt = 1) {v : Int32}
    (hk' : S.Keeps (memory'.setWord b.start v) memory'')
    (hw : S.Holds (work ++ (S.graph memory₀ heap₀).refs b.start) memory'')
    (hbase : heap'.base = heap.base) (hlimit : heap'.limit = heap.limit)
    (hlive : heap'.live = heap.live.filter (·.start != b.start))
    (hd : heap'.stats.deallocations = heap.stats.deallocations + 1) :
    S.Between memory₀ heap₀ (Graph.adding F b.start) (work ++ (S.graph memory₀ heap₀).refs b.start)
      memory'' heap' := by
  obtain ⟨hstart, hlt⟩ := hr.addresses.start_lt hb (hr.laidOut b hb).1
  have hmem : b.start ∈ work ++ [b.start] := List.mem_append_right _ List.mem_cons_self
  have hF := h.reached.live_of_mem hmem
  refine ⟨?_, hbase.trans h.base, hlimit.trans h.limit, hw, ((h.spares.keeps hk).setCount hb (by omega) v).keeps hk',
    (h.reached.release hr.covered hlast).congr ?_, ?_, ?_⟩
  · have hsize : memory''.size = memory.size :=
      hk'.size.trans (Memory.size_setWord.trans hk.size)
    have haddresses := h.addresses.of_size hsize
    exact ⟨⟨hbase ▸ haddresses.below, hbase ▸ haddresses.base, haddresses.small⟩,
      haddresses.tidy.of_filter hbase hlimit hlive, hlimit ▸ haddresses.limit,
      hlimit ▸ haddresses.low⟩
  · intro x hx hFx
    obtain ⟨b', hb', rfl⟩ := Site.Ready.mem_records hx
    obtain ⟨hstart', hlt'⟩ := hr.addresses.start_lt hb' (hr.laidOut b' hb').1
    have hne : b'.start ≠ b.start := by
      intro heq
      rw [heq, Graph.adding_self] at hFx
      cases hFx
    rw [hk'.word hstart' (by omega), hr.counts hk hb v hx, if_neg hne]
  · rw [hlive, h.live, List.filter_filter]
    refine List.filter_congr fun c _ => ?_
    rw [Graph.adding, Bool.not_or, Bool.and_comm]
    rfl
  · rw [hd, h.deallocations, Graph.length_filter_adding hr.covered.nodup (h.reached.scheduled _ hmem) hF,
      Nat.add_assoc]

theorem Site.Between.round (hr : S.Ready memory₀ heap₀)
    (h : S.Between memory₀ heap₀ F (work ++ [r]) memory heap) :
    S.Runs (S.graph memory₀ heap₀).size ⟨S.drainAt, stack, memory, heap⟩ fun v => ∃ F' work' memory' heap',
      v = ⟨S.drainAt, stack, memory', heap'⟩ ∧ S.Between memory₀ heap₀ F' work' memory' heap' ∧
      (heap'.live.length < heap.live.length ∨ heap' = heap ∧ work' = work) := by
  obtain ⟨b, hb, rfl, hlive, hpos⟩ := h.scheduled hr (List.mem_append_right _ List.mem_cons_self)
  obtain ⟨memory₁, hk, hw, htake⟩ := S.take_last stack h.addresses.toStores h.holds
  have htype := (hr.laidOut b hb).1
  have hcount : Has b 0 := ⟨by decide, Nat.le_trans (by decide) htype.2⟩
  have haddresses₁ := h.addresses.of_size hk.size
  obtain ⟨hstart, hlt⟩ := h.addresses.start_lt hlive htype
  have hsame : memory₁.word b.start = memory.word b.start := hk.word (by omega) (by omega)
  have hpred : 0 < memory.word b.start - 1 ↔ 1 < (memory.word b.start).toInt := by
    rw [Int32.lt_iff_toInt_lt, Word.toInt_pred hpos, Int32.toInt_zero]
    omega
  refine .after (htake.trans (S.decrement haddresses₁ hlive hcount)) ?_
  rw [hsame]
  by_cases hmore : 1 < (memory.word b.start).toInt
  · rw [if_pos (hpred.2 hmore)]
    exact .of_goes S.still_live ⟨F, work, _, heap, rfl, h.kept hr hk hw hb hmore, .inr ⟨rfl, rfl⟩⟩
  · rw [if_neg (mt hpred.1 hmore)]
    have hspares := (h.spares.keeps hk).setCount hb (v := memory.word b.start - 1) (by omega)
    obtain ⟨hcode, hrefs⟩ := hr.refs_eq hspares hb
    have hlast : (memory.word b.start).toInt = 1 := by omega
    have hscan := S.scan stack hr.codes (haddresses₁.of_size Memory.size_setWord)
      (hw.setWord hstart (by omega)) hlive htype (hcode ▸ (hr.laidOut b hb).2)
    rw [hrefs] at hscan
    refine (hscan.runs (h.reached.release hr.covered hlast).length_le).bind ?_
    rintro _ ⟨memory₂, rfl, hk₂, hw₂⟩
    obtain ⟨heap', hd, hbase, hlimit, hlive', hstats⟩ := Heap.deallocate_of_mem hlive
    refine .of_goes (S.free (by omega) hd) ⟨_, _, _, heap', rfl,
      h.freed hr hk hb hlast hk₂ hw₂ hbase hlimit hlive' hstats, .inl ?_⟩
    rw [hlive']
    exact List.length_filter_lt_length_iff_exists.2 ⟨b, hlive, by simp⟩

theorem Site.Between.drained {F : Nat → Bool} {work : List Nat} {memory : Memory} {heap : Heap}
    (hr : S.Ready memory₀ heap₀) (h : S.Between memory₀ heap₀ F work memory heap) :
    S.Runs (S.graph memory₀ heap₀).size ⟨S.drainAt, stack, memory, heap⟩ fun v => ∃ F' memory' heap',
      v = ⟨S.endsAt + 4, stack, memory', heap'⟩ ∧ S.Between memory₀ heap₀ F' [] memory' heap' := by
  rcases work.eq_nil_or_concat with hnil | ⟨work', r, hlast⟩
  · rw [hnil] at h
    exact .of_goes (S.take_none h.addresses.toStores h.holds) ⟨F, memory, heap, rfl, h⟩
  · rw [hlast, List.concat_eq_append] at h
    refine (h.round hr).bind ?_
    rintro _ ⟨F', work'', memory', heap', rfl, hnext, hless⟩
    exact hnext.drained hr
termination_by (heap.live.length, work.length)
decreasing_by
  rcases hless with hless | ⟨hheap, hwork⟩
  · exact Prod.Lex.left _ _ hless
  · rw [hheap, hwork, hlast]
    exact Prod.Lex.right _ (by simp)

theorem Site.Between.count_eq (h : S.Between memory₀ heap₀ F [] memory heap) (hb : b ∈ heap.live) :
    (memory.word b.start).toInt = (memory₀.word b.start).toInt
      - ((S.graph memory₀ heap₀).pending.count b.start
        + (S.graph memory₀ heap₀).refsFrom F b.start : Nat) := by
  rw [h.live, List.mem_filter, Bool.not_eq_true'] at hb
  exact h.reached.count_eq (List.mem_map.2 ⟨b, hb.1, rfl⟩) hb.2

theorem Site.Ready.call {p : Nat} (stack : List Value) (h : S.Ready memory heap)
    (hi : image.code[p]? = some drain) :
    S.Runs (S.graph memory heap).size ⟨p, stack, memory, heap⟩ fun v => ∃ F memory' heap',
      v = ⟨p + 1, stack, memory', heap'⟩ ∧ S.Between memory heap F [] memory' heap' := by
  have hroutine : image.label? drainRoutine = some S.drainAt :=
    S.hdrain.label [] _ ((drainCode structs).drop 1) rfl
  have hlt : p + 1 < 0x80000000 := Nat.lt_of_le_of_lt (Array.getElem?_eq_some_iff.1 hi).1 S.short
  refine .after (.one (.call hi (by decide) hroutine)) ((h.start.drained h).bind ?_)
  rintro _ ⟨F, memory', heap', rfl, hend⟩
  exact .of_goes (.one (.ret (S.sections.ends.code 4 _ rfl) hlt)) ⟨F, memory', heap', rfl, hend⟩

end IntervalStack.Drain
