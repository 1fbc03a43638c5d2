import IntervalStack.Proofs.Drain.Push

/-! Scheduling what a record refers to. -/

namespace IntervalStack

namespace Drain
open RefCounter

def slotsOf (structs : StructTable) (code : Int32) : List Int32 :=
  if code = Layout.flatIntervalCode then []
  else if code = Layout.nestedIntervalCode then boundSlots
  else ((structs.layouts.find? (·.typeCode == code)).map (·.referenceSlots)).getD []

def refsAt (memory : Memory) (r : Nat) (slots : List Int32) : List Nat :=
  (slots.map fun o => (memory.word (r + o.toInt.toNat)).toUInt32.toNat).filter (· ≠ 0)

theorem refsAt_cons (memory : Memory) (r : Nat) (o : Int32) (slots : List Int32) :
    refsAt memory r (o :: slots) = refsAt memory r [o] ++ refsAt memory r slots :=
  List.filter_append [_] _

theorem refsAt_congr {memory memory' : Memory} {r : Nat} {slots : List Int32}
    (h : ∀ o ∈ slots, memory'.word (r + o.toInt.toNat) = memory.word (r + o.toInt.toNat)) :
    refsAt memory' r slots = refsAt memory r slots := by
  rw [refsAt, refsAt]
  congr 1
  exact List.map_congr_left fun o ho => by rw [h o ho]

theorem childrenCode_cons (o : Int32) (slots : List Int32) :
    childrenCode (o :: slots) = pushChild o ++ childrenCode slots := rfl

theorem dispatchCode_cons (s : StructLayout) (ls : List StructLayout) :
    dispatchCode (s :: ls)
      = [.duplicate, .pushI s.typeCode, .subtract, .jumpFalse (structRelease s.typeCode)]
        ++ dispatchCode ls := rfl

variable {counter : RefCounter} {structs : StructTable} {image : Image}
  {S : Site counter structs image} {memory memory' : Memory} {heap : Heap} {work : List Nat}
  {stack : List Value} {b : HeapBlock} {o : Int32} {p n : Nat}

def Has (b : HeapBlock) (o : Int32) : Prop := 0 ≤ o.toInt ∧ o.toInt.toNat + 4 ≤ b.size

instance : Decidable (Has b o) := inferInstanceAs (Decidable (_ ∧ _))

theorem Site.Addresses.start_lt (h : S.Addresses memory heap) (hb : b ∈ heap.live) (ho : Has b o) :
    S.index + 4 ≤ b.start ∧ b.start + o.toInt.toNat + 4 ≤ 0x80000000 := by
  obtain ⟨hbase, hlimit⟩ := h.tidy.inside b hb
  have := h.below
  have := h.low
  have := ho.2
  rw [HeapBlock.stop] at hlimit
  omega

theorem Site.Addresses.grants_field (h : S.Addresses memory heap) (hb : b ∈ heap.live) (ho : Has b o) :
    heap.grants memory.size (b.start + o.toInt.toNat : Nat) = true := by
  have hsize := ho.2
  exact h.tidy.grants hb (by omega) (by rw [HeapBlock.stop]; omega) h.limit h.low

theorem Site.Addresses.act_field (h : S.Addresses memory heap) (hb : b ∈ heap.live) (ho : Has b o) :
    Code.act image heap memory [.pushI o, .add, .loadI] (.int (Int32.ofNat b.start) :: stack)
      = some (.int (memory.word (b.start + o.toInt.toNat)) :: stack, memory) := by
  have hlt := (h.start_lt hb ho).2
  show (Instr.loadI.act image heap memory (.int (Int32.ofNat b.start + o) :: stack)).bind _ = _
  rw [Word.ofNat_add_of_nonneg _ ho.1, Instr.act_loadI (by omega) (h.grants_field hb ho)]
  rfl

/-- The worklist, which is too short for `n` records, has overflown: it is full, and the machine is
at the handler. -/
def Site.Overflown (S : Site counter structs image) (n : Nat) (v : View) : Prop :=
  v.pc = S.overflowAt ∧ v.memory.word S.index = counter.capacity.toInt32 ∧ counter.capacity.toNat < n

def Site.Runs (S : Site counter structs image) (n : Nat) (v : View) (Q : View → Prop) : Prop :=
  ∃ v', Goes image v v' ∧ (S.Overflown n v' ∨ Q v')

theorem Site.Runs.of_goes {v v' : View} {Q : View → Prop} (h : Goes image v v') (hQ : Q v') :
    S.Runs n v Q := ⟨v', h, .inr hQ⟩

theorem Site.Runs.after {v v' : View} {Q : View → Prop} (h : Goes image v v')
    (h' : S.Runs n v' Q) : S.Runs n v Q := by
  obtain ⟨w, hw, hQ⟩ := h'
  exact ⟨w, h.trans hw, hQ⟩

theorem Site.Runs.bind {v : View} {Q Q' : View → Prop} (h : S.Runs n v Q)
    (h' : ∀ v', Q v' → S.Runs n v' Q') : S.Runs n v Q' := by
  obtain ⟨w, hw, hover | hQ⟩ := h
  · exact ⟨w, hw, .inl hover⟩
  · exact .after hw (h' w hQ)

structure Site.Full (S : Site counter structs image) (memory : Memory) (heap : Heap) (n : Nat)
    (v : View) : Prop where
  pc : v.pc = S.overflowAt
  index : v.memory.word S.index = counter.capacity.toInt32
  long : counter.capacity.toNat < n
  keeps : S.Keeps memory v.memory
  heap : v.heap = heap

def Site.Tries (S : Site counter structs image) (memory : Memory) (heap : Heap) (n : Nat) (v : View)
    (Q : View → Prop) : Prop :=
  ∃ v', Goes image v v' ∧ (S.Full memory heap n v' ∨ Q v')

theorem Site.Tries.of_goes {v v' : View} {Q : View → Prop} (h : Goes image v v') (hQ : Q v') :
    S.Tries memory heap n v Q := ⟨v', h, .inr hQ⟩

theorem Site.Tries.after {v v' : View} {Q : View → Prop} (h : Goes image v v')
    (h' : S.Tries memory heap n v' Q) : S.Tries memory heap n v Q := by
  obtain ⟨w, hw, hQ⟩ := h'
  exact ⟨w, h.trans hw, hQ⟩

theorem Site.Tries.bind {n' : Nat} {v : View} {Q Q' : View → Prop} (h : S.Tries memory heap n v Q)
    (hn : n ≤ n') (h' : ∀ v', Q v' → S.Tries memory heap n' v' Q') : S.Tries memory heap n' v Q' := by
  obtain ⟨w, hw, hfull | hQ⟩ := h
  · exact ⟨w, hw, .inl { hfull with long := Nat.lt_of_lt_of_le hfull.long hn }⟩
  · exact .after hw (h' w hQ)

theorem Site.Tries.of_keeps {v : View} {Q : View → Prop} (hk : S.Keeps memory memory')
    (h : S.Tries memory' heap n v Q) : S.Tries memory heap n v Q := by
  obtain ⟨w, hw, hfull | hQ⟩ := h
  · exact ⟨w, hw, .inl { hfull with keeps := hk.trans hfull.keeps }⟩
  · exact ⟨w, hw, .inr hQ⟩

theorem Site.Tries.runs {n' : Nat} {v : View} {Q : View → Prop} (h : S.Tries memory heap n v Q)
    (hn : n ≤ n') : S.Runs n' v Q := by
  obtain ⟨w, hw, hfull | hQ⟩ := h
  · exact ⟨w, hw, .inl ⟨hfull.pc, hfull.index, Nat.lt_of_lt_of_le hfull.long hn⟩⟩
  · exact ⟨w, hw, .inr hQ⟩

/-- The machine is at a place with `work` scheduled, and memory is as before otherwise. -/
def Site.Reaches (S : Site counter structs image) (pc : Nat) (stack : List Value) (memory : Memory)
    (heap : Heap) (work : List Nat) (v : View) : Prop :=
  ∃ memory', v = ⟨pc, stack, memory', heap⟩ ∧ S.Keeps memory memory' ∧ S.Holds work memory'

theorem Site.Keeps.word {a : Nat} (h : S.Keeps memory memory') (ha : S.index + 4 ≤ a)
    (hlt : a + 4 ≤ 0x80000000) : memory'.word a = memory.word a := by
  have hapart := S.apart
  refine Memory.word_congr fun i hi => h.get _ (by omega) ?_
  rw [Owns]
  omega

theorem Site.Holds.setWord {a : Nat} {v : Int32} (h : S.Holds work memory) (ha : S.index + 4 ≤ a)
    (hlt : a + 4 ≤ 0x80000000) : S.Holds work (memory.setWord a v) := by
  have hapart := S.apart
  have hroom := h.room
  refine ⟨hroom, ?_, fun k r hk => ?_⟩
  · rw [Memory.word_setWord_of_apart (by omega) (by omega) (by omega), h.index]
  · have hlen := (List.getElem?_eq_some_iff.1 hk).1
    rw [Memory.word_setWord_of_apart (by omega) (by omega) (by omega), h.entry k r hk]

theorem Site.schedule (hi : image.code[p]? = some push) (h : S.Stores memory heap)
    (hw : S.Holds work memory) (x : Int32) :
    S.Tries memory heap (work ++ [x.toUInt32.toNat].filter (· ≠ 0)).length
      ⟨p, .int x :: stack, memory, heap⟩
      (S.Reaches (p + 1) stack memory heap (work ++ [x.toUInt32.toNat].filter (· ≠ 0))) := by
  have hroutine : image.label? pushRoutine = some S.pushAt :=
    S.hpush.label [] _ (counter.pushCode.drop 1) rfl
  have hlt : p + 1 < 0x80000000 :=
    Nat.lt_of_le_of_lt (Array.getElem?_eq_some_iff.1 hi).1 S.short
  refine .after (.one (.call hi (by decide) hroutine)) ?_
  by_cases hnull : x = 0
  · subst hnull
    refine .of_goes (S.push_null hlt) ⟨memory, rfl, .refl S memory, ?_⟩
    exact (List.append_nil work).symm ▸ hw
  · have hne : x.toUInt32.toNat ≠ 0 := fun h => hnull (by rw [← Word.ofNat_toNat x, h]; rfl)
    rw [List.filter_cons_of_pos (by simpa using hne), List.filter_nil]
    by_cases hroom : work.length < counter.capacity.toNat
    · exact .of_goes (S.push_store h hw.index hroom hnull hlt)
        ⟨_, rfl, h.pushed_keeps hroom x, hw.pushed h hroom x⟩
    · have hlen : work.length = counter.capacity.toNat := Nat.le_antisymm hw.room (by omega)
      have hfull := hw.index
      rw [hlen, ofNat_capacity] at hfull
      refine ⟨_, S.push_full h hfull hnull, .inl ⟨rfl, hfull, ?_, .refl S memory, rfl⟩⟩
      rw [List.length_append, hlen]
      exact Nat.lt_succ_self _

theorem Site.child (hp : Placed image p (pushChild o)) (h : S.Addresses memory heap)
    (hw : S.Holds work memory) (hb : b ∈ heap.live) (ho : Has b o) :
    S.Tries memory heap (work ++ refsAt memory b.start [o]).length
      ⟨p, .int (Int32.ofNat b.start) :: stack, memory, heap⟩
      (S.Reaches (p + 5) (.int (Int32.ofNat b.start) :: stack) memory heap
        (work ++ refsAt memory b.start [o])) := by
  refine .after (hp.act 0 [.duplicate] ⟨_, rfl⟩ rfl) ?_
  refine .after (hp.act 1 [.pushI o, .add, .loadI] ⟨_, rfl⟩ (h.act_field hb ho)) ?_
  exact S.schedule (hp.code 4 _ rfl) h.toStores hw _

theorem Site.children {slots : List Int32} (hp : Placed image p (childrenCode slots))
    (h : S.Addresses memory heap) (hw : S.Holds work memory) (hb : b ∈ heap.live)
    (hslots : ∀ o ∈ slots, Has b o) :
    S.Tries memory heap (work ++ refsAt memory b.start slots).length
      ⟨p, .int (Int32.ofNat b.start) :: stack, memory, heap⟩
      (S.Reaches (p + (childrenCode slots).executable.length) (.int (Int32.ofNat b.start) :: stack)
        memory heap (work ++ refsAt memory b.start slots)) := by
  induction slots generalizing p memory work with
  | nil =>
    refine .of_goes (.refl image _) ⟨memory, rfl, .refl S memory, ?_⟩
    exact (List.append_nil work).symm ▸ hw
  | cons o slots ih =>
    have hrest := fun o' ho' => hslots o' (List.mem_cons_of_mem _ ho')
    rw [refsAt_cons, ← List.append_assoc]
    refine (S.child hp.left h hw hb (hslots o List.mem_cons_self)).bind ?_ ?_
    · exact (List.sublist_append_left _ _).length_le
    rintro _ ⟨memory₁, rfl, hk, hw₁⟩
    -- The slots hold what they held before.
    have hsame : refsAt memory₁ b.start slots = refsAt memory b.start slots := by
      refine refsAt_congr fun o' ho' => ?_
      obtain ⟨hstart, hlt⟩ := h.start_lt hb (hrest o' ho')
      exact hk.word (by omega) hlt
    have hnext := ih hp.right (h.of_size hk.size) hw₁ hrest
    rw [hsame] at hnext
    refine .of_keeps hk (hnext.bind (Nat.le_refl _) ?_)
    rintro _ ⟨memory₂, rfl, hk', hw₂⟩
    refine .of_goes (.refl image _) ⟨memory₂, ?_, hk.trans hk', hw₂⟩
    rw [childrenCode_cons, Code.executable_append, List.length_append, ← Nat.add_assoc]

theorem Site.release {slots : List Int32} {label : String} {t : Nat} {v : Value}
    (hp : Placed image p (releaseCode label slots)) (hfree : image.label? drainFree = some t)
    (h : S.Addresses memory heap) (hw : S.Holds work memory) (hb : b ∈ heap.live)
    (hslots : ∀ o ∈ slots, Has b o) :
    S.Tries memory heap (work ++ refsAt memory b.start slots).length
      ⟨p, v :: .int (Int32.ofNat b.start) :: stack, memory, heap⟩
      (S.Reaches t (.int (Int32.ofNat b.start) :: stack) memory heap
        (work ++ refsAt memory b.start slots)) := by
  refine .after (hp.left.left.act 0 [.pop] ⟨_, rfl⟩ rfl) ?_
  refine (S.children hp.left.right h hw hb hslots).bind (Nat.le_refl _) ?_
  rintro _ ⟨memory', rfl, hk, hw'⟩
  have hjump := hp.right.code 0 _ rfl
  rw [Code.executable_append, List.length_append, ← Nat.add_assoc] at hjump
  exact .of_goes (.one (.jump hjump hfree)) ⟨memory', rfl, hk, hw'⟩

theorem dispatch {ls : List StructLayout} {code : Int32} {t : Nat}
    (hp : Placed image p (dispatchCode ls))
    (ht : code ∈ ls.map (·.typeCode) → image.label? (structRelease code) = some t)
    (hlabels : ∀ s ∈ ls, (image.label? (structRelease s.typeCode)).isSome) :
    Goes image ⟨p, .int code :: stack, memory, heap⟩
      ⟨if code ∈ ls.map (·.typeCode) then t else p + (dispatchCode ls).executable.length,
        .int code :: stack, memory, heap⟩ := by
  induction ls generalizing p with
  | nil => exact .refl image _
  | cons s ls ih =>
    obtain ⟨t', ht'⟩ := Option.isSome_iff_exists.1 (hlabels s List.mem_cons_self)
    refine (hp.left.act 0 [.duplicate, .pushI s.typeCode, .subtract] ⟨_, rfl⟩ rfl).trans ?_
    refine (Goes.one (.jumpFalse (hp.left.code 3 _ rfl) ht' _)).trans ?_
    by_cases hs : code = s.typeCode
    · subst hs
      have hmem : s.typeCode ∈ (s :: ls).map (·.typeCode) := List.mem_cons_self
      obtain rfl : t' = t := Option.some.inj (ht'.symm.trans (ht hmem))
      rw [if_pos (Int32.sub_self _), if_pos hmem]
      exact .refl image _
    · have hmem : code ∈ (s :: ls).map (·.typeCode) ↔ code ∈ ls.map (·.typeCode) := by
        simp [hs]
      have hrest := ih hp.right (fun hc => ht (hmem.2 hc))
        fun s' hs' => hlabels s' (List.mem_cons_of_mem _ hs')
      rw [if_neg (mt Word.sub_eq_zero_iff.1 hs)]
      simp only [hmem, dispatchCode_cons, Code.executable_append, List.length_append,
        ← Nat.add_assoc]
      exact hrest

end Drain
end IntervalStack
