import IntervalStack.Proofs.Drain.Call
import IntervalStack.Proofs.Linking.Program
import IntervalStack.Proofs.WellTyped

/-! Type codes and the records of structs. A new record is marked with the code of its struct, and the
routine that carries out the scheduled decrements goes by the code when it frees the record. Codes are
made from ids by adding sixteen in signed words, which takes two of the largest ids to the codes of
intervals. -/

namespace IntervalStack

def flatId : StructId := 4294967282

def nestedId : StructId := 4294967283

namespace StructLayout

variable {d : StructDef} {s : StructLayout}

theorem id_eq_iff {id : StructId} : s.id = id ↔ s.id.toNat = id.toNat := UInt32.toNat_inj.symm

theorem typeCode_eq_flat_iff (h : ofDef d = .ok s) :
    s.typeCode = Layout.flatIntervalCode ↔ s.id = flatId := by
  have hcode := toInt_typeCode_of_ok h
  have hlt := UInt32.toNat_lt s.id
  have hflat : Layout.flatIntervalCode.toInt = 2 := rfl
  have hid : flatId.toNat = 2 ^ 32 - 14 := rfl
  rw [← Int32.toInt_inj, hcode, hflat, id_eq_iff, hid]
  split
  all_goals omega

theorem typeCode_eq_nested_iff (h : ofDef d = .ok s) :
    s.typeCode = Layout.nestedIntervalCode ↔ s.id = nestedId := by
  have hcode := toInt_typeCode_of_ok h
  have hlt := UInt32.toNat_lt s.id
  have hnested : Layout.nestedIntervalCode.toInt = 3 := rfl
  have hid : nestedId.toNat = 2 ^ 32 - 13 := rfl
  rw [← Int32.toInt_inj, hcode, hnested, id_eq_iff, hid]
  split
  all_goals omega

theorem le_typeCode_iff (h : ofDef d = .ok s) :
    Layout.firstStructCode ≤ s.typeCode ↔ s.id.toNat < 2 ^ 31 := by
  have hcode := toInt_typeCode_of_ok h
  have hlt := UInt32.toNat_lt s.id
  have hfirst : Layout.firstStructCode.toInt = 16 := rfl
  rw [Int32.le_iff_toInt_le, hcode, hfirst]
  split
  all_goals omega

end StructLayout

namespace StructTable

variable {p : Program} {t : StructTable}

theorem nodup_typeCodes (h : ofProgram p = .ok t) : (t.layouts.map (·.typeCode)).Nodup := by
  obtain ⟨hsorted, hdefs⟩ := ofProgram_layouts h
  refine List.pairwise_map.2 (hsorted.imp_of_mem fun {s s'} hs hs' hlt heq => ?_)
  obtain ⟨d, -, hd⟩ := hdefs s hs
  obtain ⟨d', -, hd'⟩ := hdefs s' hs'
  have hcode := StructLayout.toInt_typeCode_of_ok hd
  have hcode' := StructLayout.toInt_typeCode_of_ok hd'
  have hid := UInt32.toNat_lt s.id
  have hid' := UInt32.toNat_lt s'.id
  have hlt : s.id.toNat < s'.id.toNat := hlt
  rw [heq, hcode'] at hcode
  split at hcode
  all_goals split at hcode
  all_goals omega

end StructTable

namespace Drain
open RefCounter Generator

variable {counter : RefCounter} {structs : StructTable} {image : Image} {program : Program}
  {capacity : UInt32} {code : Code} {settings : MachineSettings} {m₀ : Machine}

/-- Freeing a record with the type code schedules the records in the slots. -/
def Site.Frees (S : Site counter structs image) (typeCode : Int32) (slots : List Int32) : Prop :=
  ∀ memory heap work stack n, ∀ b ∈ heap.live, S.Fits memory heap → S.Holds work memory →
    Has b Layout.typeCodeOffset → memory.word (b.start + 4) = typeCode → (∀ o ∈ slots, Has b o) →
    (work ++ refsAt memory b.start slots).length ≤ n →
    S.Runs n ⟨S.drainAt + 25, .int (Int32.ofNat b.start) :: stack, memory, heap⟩
      (S.Reaches S.endsAt (.int (Int32.ofNat b.start) :: stack) memory heap
        (work ++ refsAt memory b.start slots))

theorem Site.frees_of_scans (S : Site counter structs image) {typeCode : Int32} {slots : List Int32}
    (h : Scans structs typeCode slots) : S.Frees typeCode slots := by
  intro memory heap work stack n b hb hfits hholds htype hword hslots hn
  exact (S.scan_slots stack hfits.addresses hholds hb htype (hword ▸ h) hslots).runs hn

def freedSlots (s : StructLayout) : List Int32 :=
  if s.id = nestedId then boundSlots else s.referenceSlots

theorem scans_struct (h : StructTable.ofProgram program = .ok structs) {s : StructLayout}
    (hs : s ∈ structs.layouts) : Scans structs s.typeCode (freedSlots s) := by
  obtain ⟨d, -, hd⟩ := (StructTable.ofProgram_layouts h).2 s hs
  unfold freedSlots
  split
  · next hid =>
    rw [(StructLayout.typeCode_eq_nested_iff hd).2 hid]
    exact .nested
  · next hid =>
    have hnested : s.typeCode ≠ Layout.nestedIntervalCode :=
      mt (StructLayout.typeCode_eq_nested_iff hd).1 hid
    -- Only structs with references have an entry in the dispatch.
    by_cases hslots : s.referenceSlots = []
    · rw [hslots]
      refine .other hnested fun hmem => ?_
      obtain ⟨s', hs', hcode⟩ := List.mem_map.1 hmem
      obtain ⟨hmem', hparent⟩ := List.mem_filter.1 hs'
      have hsame : s' = s := List.inj_on_of_nodup_map (StructTable.nodup_typeCodes h) hmem' hs hcode
      simp [hsame, hslots] at hparent
    · exact .parent (List.mem_filter.2 ⟨hs, by simpa using hslots⟩) hnested

theorem exists_block_of_allocate {heap heap' : Heap} {size a : Nat} (hs : heap.Sound)
    (ha : heap.allocate size = .ok (a, heap')) :
    ∃ b ∈ heap'.live, b.start = a ∧ size ≤ b.size ∧ b.stop ≤ heap.limit := by
  have hsound := hs.allocate ha
  obtain ⟨free, -, -, rfl⟩ := Heap.allocate_ok ha
  have hlive : ⟨a, Heap.rounded size⟩ ∈ Heap.insertBlock ⟨a, Heap.rounded size⟩ heap.live :=
    Heap.mem_insertBlock.2 (.inl rfl)
  exact ⟨_, hlive, rfl, Heap.le_rounded size, (hsound.inside (List.mem_append_left _ hlive)).2⟩

/-- The memory manager hands out a record, which is marked with one reference and its type code. -/
theorem allocates {p a : Nat} {size : UInt32} {typeCode : Int32} (stack : List Value)
    {memory : Memory} {heap heap' : Heap} (hp : Placed image p (allocateRecord size typeCode))
    (hhost : image.label? Environment.allocateEntry = none) (hs : heap.Sound)
    (hlimit : heap.limit ≤ memory.size) (hlow : heap.limit ≤ 0x80000000) (hheader : 8 ≤ size.toNat)
    (hsize : size.toNat < 0x80000000) (ha : heap.allocate size.toNat = .ok (a, heap')) :
    Goes image ⟨p, stack, memory, heap⟩ ⟨p + 10, .int (Int32.ofNat a) :: stack,
      (memory.setWord a 1).setWord (a + 4) typeCode, heap'⟩ := by
  have htidy := (hs.allocate ha).tidy
  have hrange : heap'.limit = heap.limit := by
    obtain ⟨free, -, -, rfl⟩ := Heap.allocate_ok ha
    rfl
  obtain ⟨b, hb, rfl, hfits, hstop⟩ := exists_block_of_allocate hs ha
  have hinside : b.start + b.size ≤ heap.limit := hstop
  have hint : size.toInt32.toInt.toNat = size.toNat := by
    rw [Word.toInt_toInt32, if_pos (by omega), Int.toNat_natCast]
  have hgrants (x : Nat) (hx : b.start ≤ x) (hx' : x + 4 ≤ b.start + 8) :
      heap'.grants memory.size x = true :=
    htidy.grants hb hx (by rw [HeapBlock.stop]; omega) (by omega) (by omega)
  have hoffset : Int32.ofNat b.start + Layout.typeCodeOffset = Int32.ofNat (b.start + 4) :=
    Word.ofNat_add_of_nonneg b.start (by decide)
  refine (hp.act 0 [.pushI _] ⟨_, rfl⟩ rfl).trans ?_
  refine (Goes.one (.allocate (hp.code 1 _ rfl) hhost (hint.symm ▸ ha))).trans ?_
  refine (hp.act 2 [.duplicate, .pushI 1] ⟨_, rfl⟩ rfl).trans ?_
  refine (hp.act 4 [.storeI] ⟨_, rfl⟩
    (by rw [Code.act, Instr.act_storeI (by omega) (hgrants _ (by omega) (by omega))]; rfl)).trans ?_
  refine (hp.act 5 [.duplicate, .pushI Layout.typeCodeOffset, .add, .pushI typeCode] ⟨_, rfl⟩
    rfl).trans ?_
  rw [hoffset]
  refine hp.act 9 [.storeI] ⟨_, rfl⟩ ?_
  have hgrants' := hgrants (b.start + 4) (by omega) (by omega)
  rw [Code.act, Instr.act_storeI (by omega) (by rwa [Memory.size_setWord])]
  rfl

/-- The code that makes a record of the struct marks it with one reference and the type code. -/
def Marks (image : Image) (s : StructLayout) : Prop :=
  ∀ p a stack memory heap heap', Placed image p (newStructCode s) → heap.Sound →
    heap.limit ≤ memory.size → memory.size < 0x80000000 →
    heap.allocate s.recordSize.toNat = .ok (a, heap') →
    ∃ memory', Goes image ⟨p, stack, memory, heap⟩
        ⟨p + 10, .int (Int32.ofNat a) :: stack, memory', heap'⟩ ∧
      memory'.word a = 1 ∧ memory'.word (a + 4) = s.typeCode

theorem marks {d : StructDef} {s : StructLayout} (h : StructLayout.ofDef d = .ok s)
    (hhost : image.label? Environment.allocateEntry = none) : Marks image s := by
  intro p a stack memory heap heap' hnew hs hlimit hsmall ha
  have hp : Placed image p (allocateRecord s.recordSize s.typeCode) := hnew.left.left.left
  have hsize := StructLayout.le_recordSize h
  obtain ⟨b, -, rfl, hfits, hstop⟩ := exists_block_of_allocate hs ha
  have hinside : b.start + b.size ≤ heap.limit := hstop
  refine ⟨_, allocates stack hp hhost hs hlimit (by omega) (by omega) (by omega) ha, ?_, ?_⟩
  · rw [Memory.word_setWord_of_apart (by omega) (by omega) (by omega),
      Memory.word_setWord_self (by omega)]
  · exact Memory.word_setWord_self (by omega)

theorem exists_counter (h : Assembled program capacity code) :
    ∃ counter structs, RefCounter.ofCapacity? capacity = some counter ∧
      StructTable.ofProgram program = .ok structs ∧ counter.data <:+: code ∧
      counter.subroutines structs <:+: code := by
  cases h with
  | @mk counter structs specs main routines printers s₁ s₂ s₃ hc hs _ _ _ _ _ =>
    simp only [runtime, List.append_assoc]
    refine ⟨counter, structs, hc, hs, ?_, ?_⟩
    · exact List.infix_append' _ _ _
    · have hrest := List.infix_append' (structNames structs) (counter.subroutines structs)
      exact ((hrest _).trans (List.suffix_append _ _).isInfix).trans (List.suffix_append _ _).isInfix

theorem exists_site_of_generate (hgen : generate program capacity = .ok code)
    (hload : Machine.load code settings = .ok m₀) (hshort : m₀.image.code.size < 0x80000000) :
    ∃ counter structs, RefCounter.ofCapacity? capacity = some counter ∧
      StructTable.ofProgram program = .ok structs ∧ Nonempty (Site counter structs m₀.image) := by
  have hassembled := generate_assembled hgen
  have hl := Machine.load_loaded hload
  have hhost := hassembled.not_mem_labels (l := Environment.deallocateEntry) (by decide)
  obtain ⟨counter, structs, hc, hs, hdata, hroutines⟩ := exists_counter hassembled
  obtain ⟨S, -⟩ := exists_site hl hdata hroutines hhost hshort
  exact ⟨counter, structs, hc, hs, ⟨S⟩⟩

/-- Structs have different type codes, a new record is marked with the code of its struct, and a
record is freed by the code it carries. A struct record is taken for an interval over records in one
case, that of the id whose code is the one of such intervals; half of the ids have codes below those
meant for structs. -/
theorem typeCode_identifies_struct (hgen : generate program capacity = .ok code)
    (hids : (program.structs.map (·.id)).Nodup) (hload : Machine.load code settings = .ok m₀)
    (hshort : m₀.image.code.size < 0x80000000) :
    ∃ counter structs, ∃ S : Site counter structs m₀.image,
      RefCounter.ofCapacity? capacity = some counter ∧
      StructTable.ofProgram program = .ok structs ∧
      (∀ d ∈ program.structs, ∃ s ∈ structs.layouts, StructLayout.ofDef d = .ok s) ∧
      (structs.layouts.map (·.typeCode)).Nodup ∧
      (∀ s ∈ structs.layouts,
        (Layout.firstStructCode ≤ s.typeCode ↔ s.id.toNat < 2 ^ 31) ∧
        (s.typeCode = Layout.flatIntervalCode ↔ s.id = flatId) ∧
        (s.typeCode = Layout.nestedIntervalCode ↔ s.id = nestedId) ∧
        Marks m₀.image s ∧ S.Frees s.typeCode (freedSlots s)) ∧
      S.Frees Layout.nestedIntervalCode boundSlots ∧
      ((∀ s ∈ structs.layouts, s.id ≠ flatId) → S.Frees Layout.flatIntervalCode []) := by
  obtain ⟨counter, structs, hc, hs, ⟨S⟩⟩ := exists_site_of_generate hgen hload hshort
  have hdefs := (StructTable.ofProgram_layouts hs).2
  have hhost := (Machine.load_loaded hload).noLabel _
    ((generate_assembled hgen).not_mem_labels (l := Environment.allocateEntry) (by decide))
  refine ⟨counter, structs, S, hc, hs, StructTable.ofProgram_mem hs hids,
    StructTable.nodup_typeCodes hs, fun s hmem => ?_, S.frees_of_scans .nested, fun hflat => ?_⟩
  · obtain ⟨d, -, hd⟩ := hdefs s hmem
    exact ⟨StructLayout.le_typeCode_iff hd, StructLayout.typeCode_eq_flat_iff hd,
      StructLayout.typeCode_eq_nested_iff hd, marks hd hhost, S.frees_of_scans (scans_struct hs hmem)⟩
  · refine S.frees_of_scans (.other (by decide) fun hmem => ?_)
    obtain ⟨s, hparent, hcode⟩ := List.mem_map.1 hmem
    have hmem := (List.mem_filter.1 hparent).1
    obtain ⟨d, -, hd⟩ := hdefs s hmem
    exact hflat s hmem ((StructLayout.typeCode_eq_flat_iff hd).1 hcode)

/-- A program that makes a point with one coordinate, with other structs beside it. -/
def pointing (id : StructId) (others : List StructDef) : Program :=
  let coordinate : Binding := ⟨"n", .int, .member 16⟩
  let point : StructDef := ⟨id, "point", [coordinate], 4, 0,
    ⟨.empty, [⟨.declaration coordinate (.int 7), .none⟩]⟩, [], none, .none⟩
  let origin : Binding := ⟨"x", .struct id, .global 0⟩
  ⟨4, point :: others, [],
    ⟨⟨4, [origin]⟩, [⟨.declaration origin ⟨.new id, .struct id, .none⟩, .none⟩]⟩⟩

def pointed (id : StructId) : Program :=
  pointing id [⟨0, "cell", [⟨"next", .struct 0, .member 16⟩], 4, 0, .empty, [], none, .none⟩]

theorem typeCode_identifies_struct_pointed :
    ∃ code m₀, generate (pointed 2147483631) 4 = .ok code ∧
      ((pointed 2147483631).structs.map (·.id)).Nodup ∧
      Machine.load code ⟨4096, 1024, 1000⟩ = .ok m₀ ∧ m₀.image.code.size < 0x80000000 ∧
      ∃ counter structs, ∃ S : Site counter structs m₀.image,
        structs.layouts.map (fun s => (s.id, s.typeCode)) = [(0, 16), (2147483631, 2147483647)] ∧
        (∀ s ∈ structs.layouts, Marks m₀.image s) ∧ S.Frees 16 [16] ∧ S.Frees 2147483647 [] := by
  have hd : DistinctNames (pointed 2147483631) := ⟨by decide, by decide, by decide, by decide⟩
  have hok : (match generate (pointed 2147483631) 4 with
      | .ok code => decide (code.dataSize ≤ 1000 ∧ code.length < 1000)
      | .error _ => false) = true := by decide +kernel
  have htable : StructTable.ofProgram (pointed 2147483631)
      = .ok ⟨[⟨0, "cell", 16, 20, [16]⟩, ⟨2147483631, "point", 2147483647, 20, []⟩]⟩ := by decide
  cases hgen : generate (pointed 2147483631) 4 with
  | error => simp [hgen] at hok
  | ok code =>
    simp only [hgen, decide_eq_true_eq] at hok
    obtain ⟨m₀, hload⟩ : ∃ m₀, Machine.load code ⟨4096, 1024, 1000⟩ = .ok m₀ := by
      refine Machine.load_of_fits ((generate_assembled hgen).links hd)
        (show Machine.heapBase code + 1024 ≤ 4096 from ?_)
      rw [Machine.heapBase]
      omega
    have hshort : m₀.image.code.size < 0x80000000 := by
      have hle : (Code.executable code).length ≤ code.length := List.length_filter_le _ _
      rw [← Array.length_toList, (Machine.load_loaded hload).code]
      omega
    obtain ⟨counter, structs, S, -, hs, -, -, hlayouts, -, -⟩ :=
      typeCode_identifies_struct hgen hd.structs hload hshort
    obtain rfl := Except.ok.inj (htable.symm.trans hs)
    refine ⟨code, m₀, rfl, hd.structs, hload, hshort, counter, _, S, rfl, fun s hmem => ?_, ?_, ?_⟩
    · exact (hlayouts s hmem).2.2.2.1
    · exact (hlayouts _ List.mem_cons_self).2.2.2.2
    · exact (hlayouts _ (List.mem_cons_of_mem _ List.mem_cons_self)).2.2.2.2

/-- The code of intervals over records can be that of a struct. -/
theorem point_shares_interval_code :
    ((pointed nestedId).structs.map (·.id)).Nodup ∧ (generate (pointed nestedId) 4).toBool = true ∧
      (StructTable.ofProgram (pointed nestedId)).toOption.map (·.layouts.map (·.typeCode))
        = some [16, Layout.nestedIntervalCode] := by
  decide +kernel

/-- The coordinate of a point is taken for a reference when the point is released. -/
theorem point_released_as_interval :
    (pointing nestedId []).wellTyped ∧ ∃ code m₀ m, generate (pointing nestedId []) 4 = .ok code ∧
      Machine.load code ⟨1024, 256, 1000⟩ = .ok m₀ ∧
      (Machine.run 1000).run m₀ = .error (.heap (.unallocated 160)) m := by
  have htest : (generate (pointing nestedId []) 4).toOption.any (fun code =>
      (Machine.load code ⟨1024, 256, 1000⟩).toOption.any fun m₀ =>
        Machine.fault? ((Machine.run 1000).run m₀) == some (.heap (.unallocated 160))) = true := by
    decide +kernel
  obtain ⟨code, hcode, hok⟩ := exists_ok_of_any htest
  obtain ⟨m₀, hload, hfault⟩ := exists_ok_of_any hok
  obtain ⟨m, hm⟩ := Machine.exists_error_of_fault (beq_iff_eq.1 hfault)
  exact ⟨by decide +kernel, code, m₀, m, hcode, hload, hm⟩

end Drain
end IntervalStack
