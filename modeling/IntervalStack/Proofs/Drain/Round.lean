import Mathlib.Data.List.Nodup
import IntervalStack.Proofs.Drain.Records

/-! A round of the routine that carries out the scheduled decrements, section by section. -/

namespace IntervalStack.Drain
open RefCounter

variable {counter : RefCounter} {structs : StructTable} {image : Image}

section Places
variable (S : Site counter structs image)

def Site.otherAt : Nat := S.drainAt + 33 + (dispatchCode (parents structs)).executable.length

def Site.nestedAt : Nat := S.otherAt + 2

def Site.releasesAt : Nat := S.nestedAt + (releaseCode releaseNested boundSlots).executable.length

def Site.endsAt : Nat := S.releasesAt + (releasesCode (parents structs)).executable.length

structure Site.Sections : Prop where
  take : Placed image S.drainAt takeCode
  decrement : Placed image (S.drainAt + 16) decrementCode
  kind : Placed image (S.drainAt + 25) kindCode
  dispatch : Placed image (S.drainAt + 33) (dispatchCode (parents structs))
  other : Placed image S.otherAt [.pop, .jump drainFree]
  nested : Placed image S.nestedAt (releaseCode releaseNested boundSlots)
  releases : Placed image S.releasesAt (releasesCode (parents structs))
  ends : Placed image S.endsAt roundEnds

theorem Site.sections : S.Sections := by
  have h := S.hdrain
  rw [drainCode_eq] at h
  simp only [List.append_assoc] at h
  have hdecrement := h.right.right
  have hkind := hdecrement.right
  have hdispatch := hkind.right
  have hother := hdispatch.right
  have hnested := hother.right
  have hreleases := hnested.right
  exact ⟨h.right.left, hdecrement.left, hkind.left, hdispatch.left, hother.left, hnested.left,
    hreleases.left, hreleases.right⟩

theorem Site.label_top : image.label? drainTop = some S.drainAt :=
  S.hdrain.label [.label drainRoutine] _ ((drainCode structs).drop 2) rfl

theorem Site.label_free : image.label? drainFree = some S.endsAt := S.sections.ends.head

theorem Site.label_live : image.label? drainLive = some (S.endsAt + 2) :=
  S.sections.ends.label (roundEnds.take 3) _ (roundEnds.drop 4) rfl

theorem Site.label_done : image.label? drainDone = some (S.endsAt + 4) :=
  S.sections.ends.label (roundEnds.take 6) _ (roundEnds.drop 7) rfl

theorem Site.label_nested : image.label? releaseNested = some S.nestedAt := S.sections.nested.head

end Places

variable {S : Site counter structs image} {memory : Memory} {heap : Heap} {work : List Nat}
  {stack : List Value} {b : HeapBlock} {r n : Nat}

theorem Site.take_none (h : S.Stores memory heap) (hw : S.Holds [] memory) :
    Goes image ⟨S.drainAt, stack, memory, heap⟩ ⟨S.endsAt + 4, stack, memory, heap⟩ := by
  refine (S.sections.take.act 0 loadIndex ⟨_, rfl⟩ h.act_loadIndex).trans ?_
  rw [hw.index]
  exact .one (.jumpFalse (S.sections.take.code 2 _ rfl) S.label_done 0)

theorem Site.take_last (stack : List Value) (h : S.Stores memory heap)
    (hw : S.Holds (work ++ [r]) memory) :
    ∃ memory', S.Keeps memory memory' ∧ S.Holds work memory' ∧
      Goes image ⟨S.drainAt, stack, memory, heap⟩
        ⟨S.drainAt + 16, .int (Int32.ofNat r) :: stack, memory', heap⟩ := by
  have hroom := hw.room
  have hcap := capacity_lt counter
  have hapart := S.apart
  have hindex := h.index_lt
  rw [List.length_append, List.length_singleton] at hroom
  let taken := memory.setWord S.index (memory.word S.index + -1)
  have htaken : S.Stores taken heap := h.of_size Memory.size_setWord
  have hkeeps : S.Keeps memory taken := h.keeps_setWord (.inr rfl) _
  have hentry : ∀ k x, (work ++ [r])[k]? = some x →
      taken.word (S.worklist + 4 * k) = Int32.ofNat x := by
    intro k x hk
    have hlt : k < work.length + 1 := by simpa using (List.getElem?_eq_some_iff.1 hk).1
    rw [← hw.entry k x hk]
    exact Memory.word_setWord_of_apart (by omega) (by omega) (by omega)
  have hholds : S.Holds work taken := by
    refine ⟨by omega, ?_, fun k x hk => hentry k x ?_⟩
    · have hback : Int32.ofNat [r].length + -1 = 0 := show Int32.ofNat 1 + -1 = 0 by decide
      rw [Memory.word_setWord_self (by omega), hw.index, List.length_append, Int32.ofNat_add,
        Int32.add_assoc, hback, Int32.add_zero]
    · rw [List.getElem?_append_left (List.getElem?_eq_some_iff.1 hk).1, hk]
  have hsome : memory.word S.index ≠ 0 := by
    intro hzero
    have hlen := congrArg Int32.toInt hzero
    rw [hw.index, Word.toInt_ofNat (by simp; omega), List.length_append] at hlen
    exact absurd hlen (by simp [Int32.toInt_zero]; omega)
  refine ⟨taken, hkeeps, hholds, ?_⟩
  refine (S.sections.take.act 0 loadIndex ⟨_, rfl⟩ h.act_loadIndex).trans ?_
  refine (Goes.one (.jumpFalse (S.sections.take.code 2 _ rfl) S.label_done _)).trans ?_
  rw [if_neg hsome]
  refine (S.sections.take.act 3 (bumpIndex (-1)) ⟨_, rfl⟩ (h.act_bumpIndex _)).trans ?_
  refine (S.sections.take.act 9 slotAddress ⟨_, rfl⟩ (htaken.act_slotAddress hholds.index)).trans ?_
  refine (S.sections.take.act 15 [.loadI] ⟨_, rfl⟩ ?_)
  rw [Code.act, Instr.act_loadI (by omega) (htaken.grants (by omega)), hentry work.length r (by simp)]
  rfl

theorem Site.Addresses.grants_count (h : S.Addresses memory heap) (hb : b ∈ heap.live) (ho : Has b 0) :
    b.start < 0x80000000 ∧ heap.grants memory.size b.start = true := by
  have hlt := (h.start_lt hb ho).2
  exact ⟨by omega, h.grants_field hb ho⟩

/-- The count of the record is decremented; a record that keeps some references is left alone. -/
theorem Site.decrement (h : S.Addresses memory heap) (hb : b ∈ heap.live) (ho : Has b 0) :
    Goes image ⟨S.drainAt + 16, .int (Int32.ofNat b.start) :: stack, memory, heap⟩
      ⟨if 0 < memory.word b.start - 1 then S.endsAt + 2 else S.drainAt + 25,
        .int (Int32.ofNat b.start) :: stack,
        memory.setWord b.start (memory.word b.start - 1), heap⟩ := by
  obtain ⟨hlt, hgrants⟩ := h.grants_count hb ho
  have hcode := S.sections.decrement
  refine (hcode.act 0 [.duplicate, .duplicate] ⟨_, rfl⟩ rfl).trans ?_
  refine (hcode.act 2 [.loadI] ⟨_, rfl⟩
    (by rw [Code.act, Instr.act_loadI hlt hgrants]; rfl)).trans ?_
  refine (hcode.act 3 [.pushI 1, .subtract] ⟨_, rfl⟩ rfl).trans ?_
  refine (hcode.act 5 [.storeI] ⟨_, rfl⟩
    (by rw [Code.act, Instr.act_storeI hlt hgrants]; rfl)).trans ?_
  refine (hcode.act 6 [.duplicate] ⟨_, rfl⟩ rfl).trans ?_
  refine (hcode.act 7 [.loadI] ⟨_, rfl⟩
    (by rw [Code.act, Instr.act_loadI hlt (by simpa using hgrants)]; rfl)).trans ?_
  rw [Memory.word_setWord_self (by omega)]
  exact .one (.jumpPos (hcode.code 8 _ rfl) S.label_live _)

theorem Site.still_live {v : Value} (S : Site counter structs image) :
    Goes image ⟨S.endsAt + 2, v :: stack, memory, heap⟩ ⟨S.drainAt, stack, memory, heap⟩ := by
  refine (S.sections.ends.act 2 [.pop] ⟨_, rfl⟩ rfl).trans ?_
  exact .one (.jump (S.sections.ends.code 3 _ rfl) S.label_top)

theorem Site.free {heap' : Heap} (S : Site counter structs image) (hr : r < 0x100000000)
    (hd : heap.deallocate r = .ok heap') :
    Goes image ⟨S.endsAt, .int (Int32.ofNat r) :: stack, memory, heap⟩
      ⟨S.drainAt, stack, memory, heap'⟩ := by
  refine (Goes.one (.deallocate (S.sections.ends.code 0 _ rfl) S.hhost ?_)).trans
    (.one (.jump (S.sections.ends.code 1 _ rfl) S.label_top))
  have hself : (Int32.ofNat r).toUInt32.toNat = r := UInt32.toNat_ofNat_of_lt' hr
  rw [hself, hd]

/-- The type codes of structs differ from each other and from those of intervals, and references
stand behind the header. -/
structure Codes (structs : StructTable) : Prop where
  distinct : (structs.layouts.map (·.typeCode)).Nodup
  notFlat : ∀ s ∈ structs.layouts, s.typeCode ≠ Layout.flatIntervalCode
  notNested : ∀ s ∈ structs.layouts, s.typeCode ≠ Layout.nestedIntervalCode
  payload : ∀ s ∈ structs.layouts, ∀ o ∈ s.referenceSlots, Layout.payloadOffset.toInt ≤ o.toInt

theorem Codes.eq_of_typeCode (hc : Codes structs) {s s' : StructLayout} (hs : s ∈ structs.layouts)
    (hs' : s' ∈ structs.layouts) (h : s.typeCode = s'.typeCode) : s = s' :=
  List.inj_on_of_nodup_map hc.distinct hs hs' h

theorem Codes.slotsOf_parent (hc : Codes structs) {s : StructLayout} (hs : s ∈ parents structs) :
    slotsOf structs s.typeCode = s.referenceSlots := by
  have hs := (List.mem_filter.1 hs).1
  rw [slotsOf, if_neg (hc.notFlat s hs), if_neg (hc.notNested s hs)]
  cases hf : structs.layouts.find? (·.typeCode == s.typeCode) with
  | none => simpa using List.find?_eq_none.1 hf s hs
  | some s' =>
    have hcode : s'.typeCode = s.typeCode := by simpa using List.find?_some hf
    rw [hc.eq_of_typeCode (List.mem_of_find?_eq_some hf) hs hcode]
    rfl

theorem slotsOf_of_not_parent {code : Int32} (hn : code ≠ Layout.nestedIntervalCode)
    (hp : code ∉ (parents structs).map (·.typeCode)) : slotsOf structs code = [] := by
  by_cases hflat : code = Layout.flatIntervalCode
  · rw [slotsOf, if_pos hflat]
  · rw [slotsOf, if_neg hflat, if_neg hn]
    cases hf : structs.layouts.find? (·.typeCode == code) with
    | none => rfl
    | some s =>
      have hcode : s.typeCode = code := by simpa using List.find?_some hf
      cases hslots : s.referenceSlots with
      | nil => simp [hslots]
      | cons o os =>
        have hs : s ∈ parents structs :=
          List.mem_filter.2 ⟨List.mem_of_find?_eq_some hf, by simp [hslots]⟩
        exact absurd (List.mem_map.2 ⟨s, hs, hcode⟩) hp

inductive Scans (structs : StructTable) : Int32 → List Int32 → Prop
  | nested : Scans structs Layout.nestedIntervalCode boundSlots
  | parent {s : StructLayout} (hs : s ∈ parents structs) (hn : s.typeCode ≠ Layout.nestedIntervalCode) :
      Scans structs s.typeCode s.referenceSlots
  | other {code : Int32} (hn : code ≠ Layout.nestedIntervalCode)
      (hp : code ∉ (parents structs).map (·.typeCode)) : Scans structs code []

theorem Codes.scans (hc : Codes structs) (code : Int32) :
    Scans structs code (slotsOf structs code) := by
  by_cases hn : code = Layout.nestedIntervalCode
  · subst hn
    exact .nested
  · by_cases hp : code ∈ (parents structs).map (·.typeCode)
    · obtain ⟨s, hs, rfl⟩ := List.mem_map.1 hp
      rw [hc.slotsOf_parent hs]
      exact .parent hs hn
    · rw [slotsOf_of_not_parent hn hp]
      exact .other hn hp

theorem Site.scan_slots (stack : List Value) {slots : List Int32} (h : S.Addresses memory heap)
    (hw : S.Holds work memory) (hb : b ∈ heap.live) (htype : Has b Layout.typeCodeOffset)
    (hscans : Scans structs (memory.word (b.start + 4)) slots) (hslots : ∀ o ∈ slots, Has b o) :
    S.Tries memory heap (work ++ refsAt memory b.start slots).length
      ⟨S.drainAt + 25, .int (Int32.ofNat b.start) :: stack, memory, heap⟩
      (S.Reaches S.endsAt (.int (Int32.ofNat b.start) :: stack) memory heap
        (work ++ refsAt memory b.start slots)) := by
  have hkind := S.sections.kind
  refine .after (hkind.act 0 [.duplicate] ⟨_, rfl⟩ rfl) ?_
  refine .after (hkind.act 1 [.pushI Layout.typeCodeOffset, .add, .loadI] ⟨_, rfl⟩
    (h.act_field hb htype)) ?_
  refine .after (hkind.act 4 [.duplicate, .pushI Layout.nestedIntervalCode, .subtract] ⟨_, rfl⟩
    rfl) ?_
  refine .after (.one (.jumpFalse (hkind.code 7 _ rfl) S.label_nested _)) ?_
  have hoffset : b.start + Layout.typeCodeOffset.toInt.toNat = b.start + 4 := rfl
  have hplaced : ∀ s ∈ parents structs,
      ∃ q, Placed image q (releaseCode (structRelease s.typeCode) s.referenceSlots) :=
    fun s hs => S.sections.releases.of_flatMap hs
  have hlabels : ∀ s ∈ parents structs, (image.label? (structRelease s.typeCode)).isSome := by
    intro s hs
    obtain ⟨q, hq⟩ := hplaced s hs
    exact Option.isSome_iff_exists.2 ⟨q, hq.head⟩
  rw [hoffset]
  generalize memory.word (b.start + 4) = code at hscans ⊢
  cases hscans with
  | nested =>
    rw [if_pos (Int32.sub_self _)]
    exact S.release S.sections.nested S.label_free h hw hb hslots
  | @parent s hs hnested =>
    have hmem : s.typeCode ∈ (parents structs).map (·.typeCode) := List.mem_map_of_mem hs
    obtain ⟨q, hq⟩ := hplaced s hs
    rw [if_neg (mt Word.sub_eq_zero_iff.1 hnested)]
    refine .after (dispatch S.sections.dispatch (fun _ => hq.head) hlabels) ?_
    rw [if_pos hmem]
    exact S.release hq S.label_free h hw hb hslots
  | other hnested hparent =>
    rw [if_neg (mt Word.sub_eq_zero_iff.1 hnested)]
    refine .after (dispatch (t := 0) S.sections.dispatch (fun h => absurd h hparent) hlabels) ?_
    rw [if_neg hparent]
    refine .after (S.sections.other.act 0 [.pop] ⟨_, rfl⟩ rfl) ?_
    refine .of_goes (.one (.jump (S.sections.other.code 1 _ rfl) S.label_free))
      ⟨memory, rfl, .refl S memory, ?_⟩
    exact (List.append_nil work).symm ▸ hw

theorem Site.scan (stack : List Value) (hc : Codes structs) (h : S.Addresses memory heap)
    (hw : S.Holds work memory) (hb : b ∈ heap.live) (htype : Has b Layout.typeCodeOffset)
    (hslots : ∀ o ∈ slotsOf structs (memory.word (b.start + 4)), Has b o) :
    S.Tries memory heap
      (work ++ refsAt memory b.start (slotsOf structs (memory.word (b.start + 4)))).length
      ⟨S.drainAt + 25, .int (Int32.ofNat b.start) :: stack, memory, heap⟩
      (S.Reaches S.endsAt (.int (Int32.ofNat b.start) :: stack) memory heap
        (work ++ refsAt memory b.start (slotsOf structs (memory.word (b.start + 4))))) :=
  S.scan_slots stack h hw hb htype (hc.scans _) hslots

end IntervalStack.Drain
