import IntervalStack.Proofs.Drain.Overflow
import IntervalStack.Proofs.Safety

/-! The routines of the reference counter, instruction by instruction. Whatever the records hold, the
index of the worklist stays in range, and below the heap nothing but the storage of the worklist is
written. All that the routines need for it is that a decrement is scheduled for records only: what
they take from the worklist is then an address in the heap. -/

namespace IntervalStack.Drain
open RefCounter

/-- A reference that leads nowhere or to a live record. -/
def Refers (heap : Heap) (x : Int32) : Prop := x = 0 ∨ ∃ b ∈ heap.live, b.start = x.toUInt32.toNat

instance (heap : Heap) (x : Int32) : Decidable (Refers heap x) := instDecidableOr

def Given (heap : Heap) : List Value → Prop
  | _ :: .int x :: _ => Refers heap x
  | _ => False

instance (heap : Heap) : (stack : List Value) → Decidable (Given heap stack)
  | _ :: .int x :: _ => inferInstanceAs (Decidable (Refers heap x))
  | [] | [_] | _ :: .float _ :: _ => instDecidableFalse

theorem Given.exists_int {heap : Heap} {back : Value} {stack : List Value}
    (h : Given heap (back :: stack)) : ∃ x rest, stack = .int x :: rest ∧ Refers heap x := by
  match stack, h with
  | .int x :: rest, h => exact ⟨x, rest, rfl, h⟩

/-- A routine that takes a record is given a reference. -/
def Proper (image : Image) (v : View) : Prop :=
  ∀ l ∈ [incrementRoutine, pushRoutine], image.label? l = some v.pc → Given v.heap v.stack

instance (image : Image) (v : View) : Decidable (Proper image v) := List.decidableBAll _ _

variable {counter : RefCounter} {structs : StructTable} {image : Image}

/-- The index of the worklist is in range, the records that are scheduled lie in the heap, and the
memory below the heap is as before otherwise. -/
structure Site.Sane (S : Site counter structs image) (memory₀ memory : Memory) (heap : Heap) : Prop where
  stores : S.Stores memory heap
  size : memory.size = memory₀.size
  low : heap.base ≤ 0x80000000
  live : ∀ b ∈ heap.live, heap.base ≤ b.start
  work : ∃ k ≤ counter.capacity.toNat, memory.word S.index = Int32.ofNat k ∧
    ∀ j < k, heap.base ≤ (memory.word (S.worklist + 4 * j)).toUInt32.toNat
  below : ∀ a < heap.base, ¬ S.Owns a → memory.get a = memory₀.get a

variable {S : Site counter structs image} {memory₀ memory memory' : Memory} {heap heap' : Heap}
  {x : Int32} {stack : List Value} {k n p t : Nat} {Q : View → Prop}

namespace Site.Sane

theorem keeps (h : S.Sane memory₀ memory heap) (hk : S.Keeps memory memory')
    (hroom : k ≤ counter.capacity.toNat) (hindex : memory'.word S.index = Int32.ofNat k)
    (hwork : ∀ j < k, heap.base ≤ (memory'.word (S.worklist + 4 * j)).toUInt32.toNat) :
    S.Sane memory₀ memory' heap where
  stores := h.stores.of_size hk.size
  size := hk.size.trans h.size
  low := h.low
  live := h.live
  work := ⟨k, hroom, hindex, hwork⟩
  below := fun a ha hout => by
    have hlow := h.low
    rw [hk.get a (by omega) hout, h.below a ha hout]

theorem setWord (h : S.Sane memory₀ memory heap) (hx : heap.base ≤ x.toUInt32.toNat)
    (hgrants : heap.grants memory.size x.toInt) (y : Int32) :
    S.Sane memory₀ (memory.setWord x.toInt.toNat y) heap := by
  have hapart := S.apart
  have hbelow := h.stores.below
  have hlow := h.low
  have hlt := x.toInt_lt
  have hself : x.toInt.toNat = x.toUInt32.toNat := by
    simp only [Heap.grants, Bool.and_eq_true, decide_eq_true_eq] at hgrants
    exact Word.toNat_toInt hgrants.1.1
  obtain ⟨k, hroom, hindex, hwork⟩ := h.work
  have hword {a : Nat} (ha : a + 4 ≤ heap.base) :
      (memory.setWord x.toInt.toNat y).word a = memory.word a :=
    Memory.word_setWord_of_apart (by omega) (by omega) (by omega)
  refine ⟨h.stores.of_size Memory.size_setWord, Memory.size_setWord.trans h.size, hlow, h.live,
    ⟨k, hroom, (hword hbelow).trans hindex, fun j hj => ?_⟩, fun a ha hout => ?_⟩
  · rw [hword (by omega)]
    exact hwork j hj
  · rw [Memory.get_setWord (by omega) (by omega) (by omega), h.below a ha hout]

theorem le_of_refers (h : S.Sane memory₀ memory heap) (hx : Refers heap x) (hne : x ≠ 0) :
    heap.base ≤ x.toUInt32.toNat := by
  obtain ⟨b, hb, hstart⟩ := hx.resolve_left hne
  exact hstart ▸ h.live b hb

theorem push (h : S.Sane memory₀ memory heap) (hroom : k < counter.capacity.toNat)
    (hindex : memory.word S.index = Int32.ofNat k)
    (hwork : ∀ j < k, heap.base ≤ (memory.word (S.worklist + 4 * j)).toUInt32.toNat)
    (hx : heap.base ≤ x.toUInt32.toNat) :
    let stored := memory.setWord (S.worklist + 4 * k) x
    S.Sane memory₀ stored heap ∧
      S.Sane memory₀ (stored.setWord S.index (stored.word S.index + 1)) heap := by
  intro stored
  have hapart := S.apart
  have hs := h.stores
  have hlt := hs.index_lt
  have hkept : stored.word S.index = Int32.ofNat k := by
    rw [Memory.word_setWord_of_apart (by omega) (by omega) (by omega), hindex]
  have hstored : S.Sane memory₀ stored heap := by
    refine h.keeps (hs.keeps_setWord (.inl (by omega)) x) (Nat.le_of_lt hroom) hkept fun j hj => ?_
    rw [Memory.word_setWord_of_apart (by omega) (by omega) (by omega)]
    exact hwork j hj
  refine ⟨hstored, hstored.keeps (k := k + 1) (hstored.stores.keeps_setWord (.inr rfl) _) hroom ?_
    fun j hj => ?_⟩
  · rw [Memory.word_setWord_self (by omega), hkept, Int32.ofNat_add]
    rfl
  · rw [Memory.word_setWord_of_apart (by omega) (by omega) (by omega)]
    by_cases hlast : j = k
    · subst hlast
      rw [Memory.word_setWord_self (by omega)]
      exact hx
    · rw [Memory.word_setWord_of_apart (by omega) (by omega) (by omega)]
      exact hwork j (by omega)

theorem pop (h : S.Sane memory₀ memory heap) (hroom : k + 1 ≤ counter.capacity.toNat)
    (hindex : memory.word S.index = Int32.ofNat (k + 1))
    (hwork : ∀ j < k + 1, heap.base ≤ (memory.word (S.worklist + 4 * j)).toUInt32.toNat) :
    let taken := memory.setWord S.index (memory.word S.index + -1)
    S.Sane memory₀ taken heap ∧ taken.word S.index = Int32.ofNat k ∧
      ∀ j < k + 1, taken.word (S.worklist + 4 * j) = memory.word (S.worklist + 4 * j) := by
  intro taken
  have hapart := S.apart
  have hlt := h.stores.index_lt
  have hentry (j : Nat) (hj : j < k + 1) :
      taken.word (S.worklist + 4 * j) = memory.word (S.worklist + 4 * j) :=
    Memory.word_setWord_of_apart (by omega) (by omega) (by omega)
  have hless : taken.word S.index = Int32.ofNat k := by
    rw [Memory.word_setWord_self (by omega), hindex, Int32.ofNat_add, Int32.add_assoc]
    exact Int32.add_zero _
  refine ⟨h.keeps (h.stores.keeps_setWord (.inr rfl) _) (by omega) hless fun j hj => ?_, hless,
    hentry⟩
  rw [hentry j (by omega)]
  exact hwork j (by omega)

theorem free (h : S.Sane memory₀ memory heap) {a : Nat} (hd : heap.deallocate a = .ok heap') :
    S.Sane memory₀ memory heap' := by
  rw [Heap.deallocate] at hd
  split at hd
  · cases hd
  · cases hd
    have hs := h.stores
    exact ⟨⟨hs.below, hs.base, hs.small⟩, h.size, h.low,
      fun b hb => h.live b (List.mem_filter.1 hb).1, h.work, h.below⟩

end Site.Sane

structure Site.Handles (S : Site counter structs image) : Prop where
  placed : Placed image S.overflowAt
    [.label overflowHandler, .pushD overflowMessage, .jump Environment.generalError]
  message : (image.dataLabel? overflowMessage).isSome
  general : (image.label? Environment.generalError).isSome

structure Bounds (image : Image) (Q : View → Prop) : Prop where
  general : ∀ v, image.label? Environment.generalError = some v.pc → Q v
  proper : ∀ v, ¬ Proper image v → Q v

theorem Site.push_safe (hc : S.Handles) (hq : Bounds image Q) (h : S.Sane memory₀ memory heap)
    (ht : t < 0x80000000) (hx : Refers heap x)
    (hnext : ∀ memory', S.Sane memory₀ memory' heap →
      Safe image (S.Sane memory₀) Q n ⟨t, stack, memory', heap⟩) :
    Safe image (S.Sane memory₀) Q n
      ⟨S.pushAt, .int (Int32.ofNat t) :: .int x :: stack, memory, heap⟩ := by
  have hnull : image.label? "-rctr-push-null" = some (S.pushAt + 24) :=
    S.hpush.label (counter.pushCode.take 26) _ (counter.pushCode.drop 27) rfl
  have hlabel : image.label? "-rctr-push-room" = some (S.pushAt + 9) :=
    S.hpush.label (counter.pushCode.take 10) _ (counter.pushCode.drop 11) rfl
  have hcap := capacity_lt counter
  have hs := h.stores
  obtain ⟨k, hk, hindex, hwork⟩ := h.work
  refine .act S.hpush 0 (d := [.exchange, .duplicate]) ⟨_, rfl⟩ (by decide) h rfl ?_
  refine .step h (.jumpFalse (S.hpush.code 2 _ rfl) hnull x) ?_
  by_cases hzero : x = 0
  · rw [if_pos hzero]
    refine .act S.hpush 24 (d := [.pop]) ⟨_, rfl⟩ (by decide) h rfl ?_
    exact .step h (.ret (S.hpush.code 25 _ rfl) ht) (hnext memory h)
  rw [if_neg hzero]
  have hrecord := h.le_of_refers hx hzero
  refine .act S.hpush 3 (d := loadIndex ++ [.pushI counter.capacity.toInt32, .subtract]) ⟨_, rfl⟩
    (by simp [loadIndex]) h (by rw [Code.act_append, hs.act_loadIndex]; rfl) ?_
  refine .step h (.jumpNeg (S.hpush.code 7 _ rfl) hlabel _) ?_
  rw [hindex, ← ofNat_capacity]
  simp only [Word.sub_ofNat_lt_zero_iff (show k < 0x80000000 by omega)
    (show counter.capacity.toNat < 0x80000000 by omega)]
  by_cases hroom : k < counter.capacity.toNat
  · rw [if_pos hroom]
    obtain ⟨hstored, hpushed⟩ := h.push hroom hindex hwork hrecord
    have hapart := S.apart
    have hlt := hs.index_lt
    refine .act S.hpush 9 (d := slotAddress) ⟨_, rfl⟩ (by decide) h (hs.act_slotAddress hindex) ?_
    refine .act S.hpush 15 (d := [.exchange]) ⟨_, rfl⟩ (by decide) h rfl ?_
    refine .step h (.act (S.hpush.code 16 _ rfl) (Instr.act_storeI (by omega)
      (hs.grants (by omega)))) ?_
    refine .act S.hpush 17 (d := bumpIndex 1) ⟨_, rfl⟩ (by decide) hstored
      (hstored.stores.act_bumpIndex 1) ?_
    exact .step hpushed (.ret (S.hpush.code 23 _ rfl) ht) (hnext _ hpushed)
  · -- The handler passes its message to the general one.
    rw [if_neg hroom]
    obtain ⟨a, ha⟩ := Option.isSome_iff_exists.1 hc.message
    obtain ⟨g, hg⟩ := Option.isSome_iff_exists.1 hc.general
    refine .step h (.jump (S.hpush.code 8 _ rfl) S.hoverflow) ?_
    refine .step h (.act (hc.placed.code 0 _ rfl) (Instr.act_pushD ha)) ?_
    exact .step h (.jump (hc.placed.code 1 _ rfl) hg) (.stop h (hq.general _ hg))

theorem increment_safe (hp : Placed image p incrementCode) (h : S.Sane memory₀ memory heap)
    (ht : t < 0x80000000) (hx : Refers heap x)
    (hnext : ∀ memory', S.Sane memory₀ memory' heap →
      Safe image (S.Sane memory₀) Q n ⟨t, stack, memory', heap⟩) :
    Safe image (S.Sane memory₀) Q n
      ⟨p, .int (Int32.ofNat t) :: .int x :: stack, memory, heap⟩ := by
  have hnull : image.label? "-rctr-increment-null" = some (p + 9) :=
    hp.label (incrementCode.take 10) _ (incrementCode.drop 11) rfl
  refine .act hp 0 (d := [.exchange, .duplicate]) ⟨_, rfl⟩ (by decide) h rfl ?_
  refine .step h (.jumpFalse (hp.code 2 _ rfl) hnull x) ?_
  by_cases hzero : x = 0
  · rw [if_pos hzero]
    refine .act hp 9 (d := [.pop]) ⟨_, rfl⟩ (by decide) h rfl ?_
    exact .step h (.ret (hp.code 10 _ rfl) ht) (hnext memory h)
  rw [if_neg hzero]
  refine .act hp 3 (d := [.duplicate]) ⟨_, rfl⟩ (by decide) h rfl ?_
  refine .load h (hp.code 4 _ rfl) ?_
  refine .act hp 5 (d := [.pushI 1, .add]) ⟨_, rfl⟩ (by decide) h rfl ?_
  refine .store h (hp.code 7 _ rfl) fun hgrants => ?_
  have hset := h.setWord (h.le_of_refers hx hzero) hgrants (memory.word x.toInt.toNat + 1)
  exact .step hset (.ret (hp.code 8 _ rfl) ht) (hnext _ hset)

theorem Site.children_safe (hc : S.Handles) (hq : Bounds image Q) {slots : List Int32}
    (hp : Placed image p (childrenCode slots)) (h : S.Sane memory₀ memory heap)
    (hnext : ∀ memory', S.Sane memory₀ memory' heap → Safe image (S.Sane memory₀) Q n
      ⟨p + (childrenCode slots).executable.length, .int x :: stack, memory', heap⟩) :
    Safe image (S.Sane memory₀) Q n ⟨p, .int x :: stack, memory, heap⟩ := by
  induction slots generalizing p memory with
  | nil => exact hnext memory h
  | cons o slots ih =>
    have hroutine : image.label? pushRoutine = some S.pushAt :=
      S.hpush.label [] _ (counter.pushCode.drop 1) rfl
    have hlt : p + 5 < 0x80000000 :=
      Nat.lt_of_le_of_lt (Array.getElem?_eq_some_iff.1 (hp.left.code 4 push rfl)).1 S.short
    refine .act hp.left 0 (d := [.duplicate, .pushI o, .add]) ⟨_, rfl⟩ (by simp) h rfl ?_
    refine .load h (hp.left.code 3 _ rfl) ?_
    refine .step h (.call (hp.left.code 4 _ rfl) (by decide) hroutine) ?_
    generalize memory.word (x + o).toInt.toNat = y
    by_cases hproper : Proper image
        ⟨S.pushAt, .int (Int32.ofNat (p + 5)) :: .int y :: .int x :: stack, memory, heap⟩
    · have hy : Refers heap y := hproper pushRoutine (by decide) hroutine
      refine S.push_safe hc hq h hlt hy fun memory₁ h₁ => ih hp.right h₁ fun memory' h' => ?_
      have hrest := hnext memory' h'
      rwa [childrenCode_cons, Code.executable_append, List.length_append, ← Nat.add_assoc] at hrest
    · exact .stop h (hq.proper _ hproper)

theorem Site.release_safe (hc : S.Handles) (hq : Bounds image Q) {label : String}
    {slots : List Int32} {y : Value} (hp : Placed image p (releaseCode label slots))
    (h : S.Sane memory₀ memory heap)
    (hnext : ∀ memory', S.Sane memory₀ memory' heap →
      Safe image (S.Sane memory₀) Q n ⟨S.endsAt, .int x :: stack, memory', heap⟩) :
    Safe image (S.Sane memory₀) Q n ⟨p, y :: .int x :: stack, memory, heap⟩ := by
  refine .act hp.left.left 0 (d := [.pop]) ⟨_, rfl⟩ (by decide) h rfl ?_
  refine S.children_safe hc hq hp.left.right h fun memory' h' => ?_
  have hjump := hp.right.code 0 _ rfl
  rw [Code.executable_append, List.length_append, ← Nat.add_assoc] at hjump
  exact .step h' (.jump hjump S.label_free) (hnext memory' h')

theorem dispatch_safe {ls : List StructLayout} {code : Int32}
    (hp : Placed image p (dispatchCode ls)) (h : S.Sane memory₀ memory heap)
    (htargets : ∀ s ∈ ls, ∃ t, image.label? (structRelease s.typeCode) = some t ∧
      Safe image (S.Sane memory₀) Q n ⟨t, .int code :: stack, memory, heap⟩)
    (hnext : Safe image (S.Sane memory₀) Q n
      ⟨p + (dispatchCode ls).executable.length, .int code :: stack, memory, heap⟩) :
    Safe image (S.Sane memory₀) Q n ⟨p, .int code :: stack, memory, heap⟩ := by
  induction ls generalizing p with
  | nil => exact hnext
  | cons s ls ih =>
    obtain ⟨t, ht, htarget⟩ := htargets s List.mem_cons_self
    refine .act hp.left 0 (d := [.duplicate, .pushI s.typeCode, .subtract]) ⟨_, rfl⟩ (by simp) h
      rfl ?_
    refine .step h (.jumpFalse (hp.left.code 3 _ rfl) ht _) ?_
    split
    · exact htarget
    · rw [dispatchCode_cons, Code.executable_append, List.length_append, ← Nat.add_assoc] at hnext
      exact ih hp.right (fun s' hs' => htargets s' (List.mem_cons_of_mem _ hs')) hnext

theorem Site.scan_safe (hc : S.Handles) (hq : Bounds image Q) (h : S.Sane memory₀ memory heap)
    (hnext : ∀ memory', S.Sane memory₀ memory' heap →
      Safe image (S.Sane memory₀) Q n ⟨S.endsAt, .int x :: stack, memory', heap⟩) :
    Safe image (S.Sane memory₀) Q n ⟨S.drainAt + 25, .int x :: stack, memory, heap⟩ := by
  have hkind := S.sections.kind
  refine .act hkind 0 (d := [.duplicate, .pushI Layout.typeCodeOffset, .add]) ⟨_, rfl⟩ (by decide) h
    rfl ?_
  refine .load h (hkind.code 3 _ rfl) ?_
  refine .act hkind 4 (d := [.duplicate, .pushI Layout.nestedIntervalCode, .subtract]) ⟨_, rfl⟩
    (by decide) h rfl ?_
  refine .step h (.jumpFalse (hkind.code 7 _ rfl) S.label_nested _) ?_
  split
  · exact S.release_safe hc hq S.sections.nested h hnext
  · refine dispatch_safe S.sections.dispatch h (fun s hs => ?_) ?_
    · obtain ⟨t, ht⟩ := S.sections.releases.of_flatMap hs
      exact ⟨t, ht.head, S.release_safe hc hq ht h hnext⟩
    · refine .act S.sections.other 0 (d := [.pop]) ⟨_, rfl⟩ (by decide) h rfl ?_
      exact .step h (.jump (S.sections.other.code 1 _ rfl) S.label_free) (hnext memory h)

theorem Site.drain_safe (hc : S.Handles) (hq : Bounds image Q) (ht : t < 0x80000000)
    (hback : ∀ memory heap, Q ⟨t, stack, memory, heap⟩) (h : S.Sane memory₀ memory heap) :
    Safe image (S.Sane memory₀) Q n
      ⟨S.drainAt, .int (Int32.ofNat t) :: stack, memory, heap⟩ := by
  -- The steps that remain get fewer in every round, and the storage is as good behind it as before.
  induction n generalizing memory heap with
  | zero => exact h
  | succ n ih =>
    have htake := S.sections.take
    have hends := S.sections.ends
    have hs := h.stores
    have hapart := S.apart
    have hcap := capacity_lt counter
    have hindex := hs.index_lt
    obtain ⟨k, hroom, hk, hwork⟩ := h.work
    refine .act htake 0 (d := loadIndex) ⟨_, rfl⟩ (by decide) h hs.act_loadIndex ?_
    refine .next h (.jumpFalse (htake.code 2 _ rfl) S.label_done _) ?_
    split
    · exact .step h (.ret (hends.code 4 _ rfl) ht) (.stop h (hback memory heap))
    next hsome =>
    obtain ⟨k, rfl⟩ : ∃ k', k = k' + 1 := by
      refine Nat.exists_eq_succ_of_ne_zero fun hzero => hsome ?_
      rw [hk, hzero]
      rfl
    obtain ⟨htaken, hless, hentry⟩ := h.pop hroom hk hwork
    refine .act htake 3 (d := bumpIndex (-1)) ⟨_, rfl⟩ (by decide) h (hs.act_bumpIndex _) ?_
    generalize memory.setWord S.index (memory.word S.index + -1) = taken at htaken hless hentry
    refine .act htake 9 (d := slotAddress) ⟨_, rfl⟩ (by decide) htaken
      (htaken.stores.act_slotAddress hless) ?_
    refine .step htaken (.act (htake.code 15 _ rfl) (Instr.act_loadI (by omega)
      (htaken.stores.grants (by omega)))) ?_
    -- What was scheduled lies in the heap, so the decrement of its count spares the storage.
    have hrecord := hwork k (by omega)
    rw [hentry k (by omega)]
    generalize memory.word (S.worklist + 4 * k) = x at hrecord
    have hdecrement := S.sections.decrement
    refine .act hdecrement 0 (d := [.duplicate, .duplicate]) ⟨_, rfl⟩ (by decide) htaken rfl ?_
    refine .load htaken (hdecrement.code 2 _ rfl) ?_
    refine .act hdecrement 3 (d := [.pushI 1, .subtract]) ⟨_, rfl⟩ (by decide) htaken rfl ?_
    refine .store htaken (hdecrement.code 5 _ rfl) fun hgrants => ?_
    have hset := htaken.setWord hrecord hgrants (taken.word x.toInt.toNat - 1)
    refine .act hdecrement 6 (d := [.duplicate]) ⟨_, rfl⟩ (by decide) hset rfl ?_
    refine .load hset (hdecrement.code 7 _ rfl) ?_
    refine .step hset (.jumpPos (hdecrement.code 8 _ rfl) S.label_live _) ?_
    split
    · refine .act hends 2 (d := [.pop]) ⟨_, rfl⟩ (by decide) hset rfl ?_
      exact .step hset (.jump (hends.code 3 _ rfl) S.label_top) (ih hset)
    · refine S.scan_safe hc hq hset fun memory' h' => ?_
      refine .deallocate h' (hends.code 0 _ rfl) S.hhost fun heap' hd => ?_
      exact .step (h'.free hd) (.jump (hends.code 1 _ rfl) S.label_top) (ih (h'.free hd))

end IntervalStack.Drain
