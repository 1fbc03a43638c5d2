import IntervalStack.Machine.Basic
import IntervalStack.Proofs.Allocator.Tiling

/-! Histories of the allocator: what holds behind any sequence of calls, whether they succeed or
fail. -/

namespace IntervalStack

inductive HeapCall
  | allocate (size : Nat)
  | deallocate (address : Nat)
deriving DecidableEq

/-- Sizes that fit a signed word; the machine asks for no others. -/
def HeapCall.IsSmall : HeapCall → Prop
  | .allocate size => size < 0x80000000
  | .deallocate _ => True

namespace Heap

def answer (h : Heap) : HeapCall → Except HeapError Heap
  | .allocate size => (h.allocate size).map Prod.snd
  | .deallocate address => h.deallocate address

def next (h : Heap) (call : HeapCall) : Heap :=
  match h.answer call with
  | .ok h' => h'
  | .error _ => h

def after (h : Heap) (calls : List HeapCall) : Heap := calls.foldl next h

def states (h : Heap) : List HeapCall → List Heap
  | [] => [h]
  | call :: calls => h :: states (h.next call) calls

def sums (h : Heap) : HeapCall → List Nat
  | .allocate size =>
    rounded size :: match carve (rounded size) h.free with
      | some (address, _) => [address + rounded size, h.stats.liveBytes + rounded size,
          h.stats.liveRecords + 1]
      | none => []
  | .deallocate address =>
    match h.live.find? (·.start == address) with
    | some b => b.stop :: h.free.map HeapBlock.stop ++ (giveBack b h.free).map HeapBlock.size
    | none => []

def differences (h : Heap) : HeapCall → List (Nat × Nat)
  | .allocate size =>
    match h.free.find? (rounded size ≤ ·.size) with
    | some b => [(b.size, rounded size)]
    | none => []
  | .deallocate address =>
    match h.live.find? (·.start == address) with
    | some b => [(h.stats.liveRecords, 1), (h.stats.liveBytes, b.size)]
    | none => []

structure Partitions (h : Heap) (base limit : Nat) : Prop where
  nonempty : ∀ b ∈ h.live ++ h.free, 0 < b.size
  apart : (h.live ++ h.free).Pairwise HeapBlock.Apart
  covers : ∀ a, (∃ b ∈ h.live ++ h.free, b.start ≤ a ∧ a < b.stop) ↔ base ≤ a ∧ a < limit
  merged : ∀ b ∈ h.free, ∀ c ∈ h.free, b.stop ≠ c.start
  aligned : ∀ b ∈ h.live, (∃ k, b.start = base + 4 * k) ∧ 4 ∣ b.size

structure Counted (h : Heap) : Prop where
  records : h.stats.liveRecords = h.live.length
  calls : h.stats.allocations = h.stats.deallocations + h.stats.liveRecords
  bytes : h.stats.liveBytes = totalSize h.live
  room : totalSize h.live + totalSize h.free = h.limit - h.base

/-- A call computes no sum that leaves its word, and no difference below zero. -/
def Computes (h : Heap) (call : HeapCall) : Prop :=
  (∀ n ∈ h.sums call, n < 0x100000000) ∧ ∀ d ∈ h.differences call, d.2 ≤ d.1

variable {h h' : Heap} {b : HeapBlock} {bs : List HeapBlock} {call : HeapCall} {base limit : Nat}

/-! One call. -/

theorem next_cases (h : Heap) (call : HeapCall) :
    (∃ size address, h.allocate size = .ok (address, h.next call)) ∨
      (∃ address, h.deallocate address = .ok (h.next call)) ∨ h.next call = h := by
  cases call with
  | allocate size =>
    cases ha : h.allocate size with
    | error e => exact .inr (.inr (by simp only [next, answer, ha]; rfl))
    | ok r => exact .inl ⟨size, r.1, by simp only [next, answer, ha]; rfl⟩
  | deallocate address =>
    cases hd : h.deallocate address with
    | error e => exact .inr (.inr (by simp only [next, answer, hd]))
    | ok h' => exact .inr (.inl ⟨address, by simp only [next, answer, hd]⟩)

theorem answer_range (ha : h.answer call = .ok h') : h'.base = h.base ∧ h'.limit = h.limit := by
  cases call with
  | allocate size =>
    cases hr : h.allocate size with
    | error e =>
      rw [answer, hr] at ha
      cases ha
    | ok r =>
      rw [answer, hr] at ha
      obtain rfl := Except.ok.inj ha
      obtain ⟨free, -, -, heq⟩ := allocate_ok hr
      rw [heq]
      exact ⟨rfl, rfl⟩
  | deallocate address =>
    obtain ⟨b, -, -, rfl⟩ := deallocate_ok ha
    exact ⟨rfl, rfl⟩

theorem length_insertBlock : (insertBlock b bs).length = bs.length + 1 := by
  induction bs with
  | nil => rfl
  | cons c cs ih =>
    rw [insertBlock]
    split
    · rfl
    · rw [List.length_cons, ih, List.length_cons]

theorem totalSize_append (cs : List HeapBlock) :
    totalSize (bs ++ cs) = totalSize bs + totalSize cs := by
  induction bs with
  | nil => simp [totalSize]
  | cons b bs ih => simp only [List.cons_append, totalSize, ih, Nat.add_assoc]

theorem Sound.length_le (hs : h.Sound) : h.live.length ≤ totalSize h.live := by
  have hpos : ∀ b ∈ h.live, 0 < b.size := fun b hb => hs.nonempty b (List.mem_append_left _ hb)
  generalize h.live = bs at hpos
  induction bs with
  | nil => exact Nat.le_refl 0
  | cons b bs ih =>
    have hb := hpos b List.mem_cons_self
    have hrest := ih fun c hc => hpos c (List.mem_cons_of_mem b hc)
    rw [List.length_cons, totalSize]
    omega

theorem Sound.size_le (hs : h.Sound) (hb : b ∈ h.live) : b.size ≤ totalSize h.live := by
  obtain ⟨pre, post, heq, -⟩ := hs.filter_live hb
  rw [heq, totalSize_append, totalSize]
  omega

theorem Counted.allocate {size address : Nat} (hn : h.Counted)
    (ha : h.allocate size = .ok (address, h')) : h'.Counted := by
  obtain ⟨hrecords, hcalls, hbytes, hroom⟩ := hn
  obtain ⟨free, -, hcarve, rfl⟩ := allocate_ok ha
  have hfree := totalSize_carve hcarve
  refine ⟨?_, ?_, ?_, ?_⟩
  all_goals simp only [length_insertBlock, totalSize_insertBlock]
  all_goals omega

theorem Counted.deallocate {address : Nat} (hn : h.Counted) (hs : h.Sound)
    (hd : h.deallocate address = .ok h') : h'.Counted := by
  obtain ⟨hrecords, hcalls, hbytes, hroom⟩ := hn
  obtain ⟨b, hb, rfl, rfl⟩ := deallocate_ok hd
  obtain ⟨pre, post, heq, hfilter⟩ := hs.filter_live hb
  rw [heq] at hrecords hbytes hroom
  simp only [List.length_append, List.length_cons, totalSize_append, totalSize]
    at hrecords hbytes hroom
  refine ⟨?_, ?_, ?_, ?_⟩
  all_goals simp only [hfilter, List.length_append, totalSize_append, totalSize_giveBack]
  all_goals omega

theorem peak_next (hle : h.stats.liveRecords ≤ h.stats.peakLiveRecords) (call : HeapCall) :
    (h.next call).stats.peakLiveRecords
      = max h.stats.peakLiveRecords (h.next call).stats.liveRecords := by
  obtain ⟨size, address, ha⟩ | ⟨address, hd⟩ | hsame := h.next_cases call
  · obtain ⟨free, -, -, hnext⟩ := allocate_ok ha
    rw [hnext]
  · obtain ⟨b, -, -, hnext⟩ := deallocate_ok hd
    rw [hnext]
    dsimp only
    omega
  · rw [hsame]
    omega

theorem allocations_next (h : Heap) (call : HeapCall) :
    (h.next call).stats.allocations ≤ h.stats.allocations + 1 := by
  obtain ⟨size, address, ha⟩ | ⟨address, hd⟩ | hsame := h.next_cases call
  · obtain ⟨free, -, -, hnext⟩ := allocate_ok ha
    rewrite [hnext]
    exact Nat.le_refl _
  · obtain ⟨b, -, -, hnext⟩ := deallocate_ok hd
    rewrite [hnext]
    exact Nat.le_succ _
  · rewrite [hsame]
    exact Nat.le_succ _

theorem rounded_lt {size : Nat} (hsize : size < 0x80000000) : rounded size < 0x100000000 := by
  unfold rounded
  omega

theorem Sound.computes (hs : h.Sound) (hn : h.Counted) (hlimit : h.limit < 0x100000000)
    (hsmall : call.IsSmall) : h.Computes call := by
  have hroom := hn.room
  have hbytes := hn.bytes
  have hrecords := hn.records
  cases call with
  | allocate size =>
    have hrounded := rounded_lt hsmall
    simp only [Computes, sums, differences]
    refine ⟨?_, ?_⟩
    · split
      · next address free hcarve =>
        obtain ⟨b, hb, hstart, hfits⟩ := carve_start hcarve
        have hin := hs.inside (List.mem_append_right _ hb)
        have hfree := totalSize_carve hcarve
        have hlength := hs.length_le
        have hpos := rounded_pos size
        rw [HeapBlock.stop] at hin
        simp only [List.forall_mem_cons, List.not_mem_nil, false_implies, implies_true, and_true]
        omega
      · simpa using hrounded
    · split
      · next b hfind => simpa using List.find?_some hfind
      · exact List.forall_mem_nil _
  | deallocate address =>
    simp only [Computes, sums, differences]
    split
    · next b hfind =>
      have hb : b ∈ h.live := List.mem_of_find?_eq_some hfind
      have hin := hs.inside (List.mem_append_left _ hb)
      have hsize := hs.size_le hb
      have hlength : 0 < h.live.length := List.length_pos_of_mem hb
      refine ⟨fun n hmem => ?_, ?_⟩
      · rcases List.mem_cons.1 hmem with rfl | hmem
        · omega
        rcases List.mem_append.1 hmem with hmem | hmem
        · obtain ⟨c, hc, rfl⟩ := List.mem_map.1 hmem
          have hin := hs.inside (List.mem_append_right _ hc)
          omega
        · -- What is given back is a free block of the next state.
          obtain ⟨c, hc, rfl⟩ := List.mem_map.1 hmem
          have hdealloc : ∃ h', h.deallocate address = .ok h' ∧ h'.free = giveBack b h.free ∧
              h'.limit = h.limit := by
            rw [Heap.deallocate, hfind]
            exact ⟨_, rfl, rfl, rfl⟩
          obtain ⟨h', hd, hfree, hsame⟩ := hdealloc
          have hin := (hs.deallocate hd).inside (List.mem_append_right _ (hfree ▸ hc))
          rw [HeapBlock.stop, hsame] at hin
          omega
      · simp only [List.forall_mem_cons, List.not_mem_nil, false_implies, implies_true, and_true]
        omega
    · exact ⟨List.forall_mem_nil _, List.forall_mem_nil _⟩

/-! A whole history. -/

structure Kept (base limit : Nat) (h : Heap) : Prop where
  sound : h.Sound
  counted : h.Counted
  base_eq : h.base = base
  limit_eq : h.limit = limit

theorem kept_empty (hle : base ≤ limit) : Kept base limit (empty base limit) := by
  refine ⟨sound_empty hle, ⟨rfl, rfl, rfl, ?_⟩, rfl, rfl⟩
  have hfree : (empty base limit).free = if base < limit then [⟨base, limit - base⟩] else [] := rfl
  rw [hfree]
  split
  · exact Nat.zero_add _
  · show 0 = limit - base
    omega

theorem Kept.next (hk : Kept base limit h) : Kept base limit (h.next call) := by
  obtain ⟨hs, hn, hbase, hlimit⟩ := hk
  obtain ⟨size, address, ha⟩ | ⟨address, hd⟩ | hsame := h.next_cases call
  · obtain ⟨free, -, -, hnext⟩ := allocate_ok ha
    refine ⟨hs.allocate ha, hn.allocate ha, ?_, ?_⟩
    all_goals rwa [hnext]
  · obtain ⟨b, -, -, hnext⟩ := deallocate_ok hd
    refine ⟨hs.deallocate hd, hn.deallocate hs hd, ?_, ?_⟩
    all_goals rwa [hnext]
  · rw [hsame]
    exact ⟨hs, hn, hbase, hlimit⟩

theorem Kept.after (hk : Kept base limit h) (calls : List HeapCall) :
    Kept base limit (h.after calls) := by
  induction calls generalizing h with
  | nil => exact hk
  | cons call calls ih => exact ih hk.next

theorem allocations_after (h : Heap) (calls : List HeapCall) :
    (h.after calls).stats.allocations ≤ h.stats.allocations + calls.length := by
  induction calls generalizing h with
  | nil => exact Nat.le_refl _
  | cons call calls ih =>
    have hrest := ih (h.next call)
    have hfirst := allocations_next h call
    rw [List.length_cons]
    show ((h.next call).after calls).stats.allocations ≤ _
    omega

theorem peak_after (hle : h.stats.liveRecords ≤ h.stats.peakLiveRecords) (calls : List HeapCall) :
    h.stats.peakLiveRecords ≤ (h.after calls).stats.peakLiveRecords ∧
    (∀ g ∈ h.states calls, g.stats.liveRecords ≤ (h.after calls).stats.peakLiveRecords) ∧
    ((h.after calls).stats.peakLiveRecords = h.stats.peakLiveRecords ∨
      ∃ g ∈ h.states calls, g.stats.liveRecords = (h.after calls).stats.peakLiveRecords) := by
  induction calls generalizing h with
  | nil =>
    refine ⟨Nat.le_refl _, fun g hg => ?_, .inl rfl⟩
    obtain rfl := List.mem_singleton.1 hg
    exact hle
  | cons call calls ih =>
    have hpeak := peak_next hle call
    obtain ⟨hgrows, hall, hreached⟩ := ih (h := h.next call) (by omega)
    have hafter : h.after (call :: calls) = (h.next call).after calls := rfl
    rw [hafter, states]
    refine ⟨by omega, fun g hg => ?_, ?_⟩
    · rcases List.mem_cons.1 hg with rfl | hg
      · omega
      · exact hall g hg
    · rcases hreached with hsame | ⟨g, hg, heq⟩
      · -- the rest does not raise the peak; the first call may have
        by_cases hrose : (h.next call).stats.peakLiveRecords = h.stats.peakLiveRecords
        · exact .inl (hsame.trans hrose)
        · refine .inr ⟨h.next call, List.mem_cons_of_mem h ?_, by omega⟩
          cases calls <;> exact List.mem_cons_self
      · exact .inr ⟨g, List.mem_cons_of_mem h hg, heq⟩

theorem max_records (calls : List HeapCall) :
    (((empty base limit).states calls).map (·.stats.liveRecords)).max?
      = some ((empty base limit).after calls).stats.peakLiveRecords := by
  obtain ⟨-, hall, hreached⟩ := peak_after (h := empty base limit) (Nat.le_refl 0) calls
  rw [List.max?_eq_some_iff]
  refine ⟨List.mem_map.2 ?_, fun n hn => ?_⟩
  · rcases hreached with hzero | hreached
    · refine ⟨empty base limit, ?_, hzero.symm⟩
      cases calls <;> exact List.mem_cons_self
    · exact hreached
  · obtain ⟨g, hg, rfl⟩ := List.mem_map.1 hn
    exact hall g hg

theorem Sound.partitions (hs : h.Sound) : h.Partitions h.base h.limit := by
  refine ⟨hs.nonempty, hs.apart, hs.covers, fun b hb c hc => ?_, fun b hb =>
    ⟨hs.aligned b (List.mem_append_left _ hb), hs.whole b hb⟩⟩
  exact hs.spaced.stop_ne (fun d hd => hs.nonempty d (List.mem_append_right _ hd)) hb hc

end Heap

namespace Machine

/-- How a call of the machine ends for the heap: with a small request that succeeds, or, as where
the call faults, with the heap as it was. -/
def Asks (h : Heap) : EStateM.Result Fault Machine Unit → Prop
  | .ok _ m => m.heap = h ∨ ∃ call, call.IsSmall ∧ h.answer call = .ok m.heap
  | .error _ m => m.heap = h

theorem allocate_asks (m : Machine) (pc : Nat) : Asks m.heap ((allocate pc).run m) := by
  obtain ⟨image, memory, heap, stack, p, output, steps, halted⟩ := m
  rcases stack with _ | ⟨n | x, stack⟩
  · rfl
  · simp only [allocate, popInt, pop, push, EStateM.run_bind, EStateM.run_get, EStateM.run_modify,
      EStateM.run_pure]
    cases ha : heap.allocate n.toInt.toNat with
    | ok r =>
      have hsmall : n.toInt.toNat < 0x80000000 := by
        have := n.toInt_lt
        omega
      exact .inr ⟨.allocate n.toInt.toNat, hsmall, by rw [Heap.answer, ha]; rfl⟩
    | error e => rfl
  · rfl

theorem deallocate_asks (m : Machine) (pc : Nat) : Asks m.heap ((deallocate pc).run m) := by
  obtain ⟨image, memory, heap, stack, p, output, steps, halted⟩ := m
  rcases stack with _ | ⟨n | x, stack⟩
  · rfl
  · simp only [deallocate, popInt, pop, EStateM.run_bind, EStateM.run_get, EStateM.run_modify,
      EStateM.run_pure]
    cases hd : heap.deallocate n.toUInt32.toNat with
    | ok h' => exact .inr ⟨.deallocate n.toUInt32.toNat, trivial, hd⟩
    | error e => rfl
  · rfl

theorem call_asks (m : Machine) (pc : Nat) (label : String) :
    Asks m.heap ((execute pc (.call label)).run m) := by
  simp only [execute, call, EStateM.run_bind, EStateM.run_get]
  split
  · split
    · exact allocate_asks m pc
    · exact deallocate_asks m pc
  · simp only [push, jump, EStateM.run_bind, EStateM.run_get, EStateM.run_modify]
    split
    · exact .inl rfl
    · rfl

end Machine

namespace Heap

/-- Behind every sequence of calls the live and the free blocks make up the range of the allocator,
and its counters are right. The next call then computes with numbers that fit their words, and
leaves the heap alone if it fails. -/
theorem blocks_partition_range {base limit : Nat} (hle : base ≤ limit)
    (hlimit : limit < 0x100000000) {calls : List HeapCall} {h : Heap}
    (hh : h = (empty base limit).after calls) :
    h.Partitions base limit ∧ h.Counted ∧
    (((empty base limit).states calls).map (·.stats.liveRecords)).max?
      = some h.stats.peakLiveRecords ∧
    h.stats.allocations ≤ calls.length ∧
    (∀ call : HeapCall, call.IsSmall → h.Computes call) ∧
    ∀ m : Machine, m.heap = h → ∀ pc label,
      Machine.Asks h ((Machine.execute pc (.call label)).run m) := by
  subst hh
  have hk := (kept_empty hle).after calls
  have hparts := hk.sound.partitions
  rw [hk.base_eq, hk.limit_eq] at hparts
  have hcalls := allocations_after (empty base limit) calls
  refine ⟨hparts, hk.counted, max_records calls, ?_, fun call hsmall => ?_, ?_⟩
  · simpa [empty] using hcalls
  · exact hk.sound.computes hk.counted (by rwa [hk.limit_eq]) hsmall
  · rintro m hm pc label
    exact hm ▸ m.call_asks pc label

/-- Three blocks in a range that is no multiple of four long; the first and the last one go back,
and two calls fail. -/
def mixedCalls : List HeapCall :=
  [.allocate 5, .allocate 0, .allocate 12, .deallocate 8, .deallocate 9, .allocate 100,
    .deallocate 20]

theorem blocks_partition_range_mixedCalls :
    ∃ h, h = (empty 8 51).after mixedCalls ∧ h.live = [⟨16, 4⟩] ∧ h.free = [⟨8, 8⟩, ⟨20, 31⟩] ∧
      h.stats = ⟨3, 2, 1, 4, 3⟩ ∧ h.Partitions 8 51 ∧ h.Counted ∧
      h.Computes (.deallocate 16) := by
  have hkept := blocks_partition_range (show 8 ≤ 51 by decide) (by decide)
    (show _ = (empty 8 51).after mixedCalls from rfl)
  exact ⟨_, rfl, by decide, by decide, by decide, hkept.1, hkept.2.1, hkept.2.2.2.2.1 _ trivial⟩

end Heap

end IntervalStack
