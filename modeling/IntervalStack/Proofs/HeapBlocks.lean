import IntervalStack.Machine.Heap
import IntervalStack.Proofs.Stepping

/-! The live blocks of a heap, and what the machine lets a program do with them. -/

namespace IntervalStack.Heap

/-- The live blocks lie in the range of the allocator, one behind the other. -/
structure Tidy (h : Heap) : Prop where
  apart : h.live.Pairwise fun b b' => b.stop ≤ b'.start
  inside : ∀ b ∈ h.live, h.base ≤ b.start ∧ b.stop ≤ h.limit

variable {h h' : Heap} {b b' : HeapBlock} {a size : Nat}

theorem Tidy.blockBelow (ht : h.Tidy) (hb : b ∈ h.live) (hstart : b.start ≤ a) (hstop : a < b.stop) :
    h.blockBelow? a = some b := by
  obtain ⟨pre, post, heq⟩ := List.append_of_mem hb
  have hapart := ht.apart
  rw [heq, List.pairwise_append, List.pairwise_cons] at hapart
  obtain ⟨-, ⟨hpost, -⟩, hpre⟩ := hapart
  have hbefore : ∀ c ∈ pre, decide (c.start ≤ a) = true := by
    intro c hc
    have hle := hpre c hc b List.mem_cons_self
    rw [HeapBlock.stop] at hle
    simp only [decide_eq_true_eq]
    omega
  have hbehind : post.takeWhile (·.start ≤ a) = [] := by
    cases post with
    | nil => rfl
    | cons c post =>
      have hle := hpost c List.mem_cons_self
      exact List.takeWhile_cons_of_neg (by simp only [decide_eq_true_eq]; omega)
  rw [blockBelow?, heq, List.takeWhile_append_of_pos hbefore,
    List.takeWhile_cons_of_pos (by simpa using hstart), hbehind, List.getLast?_append]
  rfl

theorem grants_of_below {h : Heap} {size a : Nat} (hs : a + 4 ≤ size) (hb : a < h.base) :
    h.grants size a = true := by
  have hout : h.manages a = false := by
    simp [Heap.manages, Nat.not_le.2 hb]
  simp only [Heap.grants, Int.toNat_natCast, hout, Bool.not_false, Bool.true_or, Bool.and_true,
    Bool.and_eq_true, decide_eq_true_eq]
  omega

theorem Tidy.grants (ht : h.Tidy) (hb : b ∈ h.live) (hstart : b.start ≤ a) (hstop : a + 4 ≤ b.stop)
    (hsize : h.limit ≤ size) (hlow : h.limit ≤ 0x80000000) : h.grants size a = true := by
  have hin := ht.inside b hb
  have hword : UInt32.size = 0x100000000 := rfl
  have hcheck : h.checkAccess a 4 = .ok () := by
    rw [checkAccess, ht.blockBelow hb hstart (by omega)]
    dsimp only
    rw [if_neg (by omega), if_pos hstop]
  simp only [Heap.grants, Int.toNat_natCast, hcheck, Except.toBool, Bool.or_true, Bool.and_true,
    Bool.and_eq_true, decide_eq_true_eq]
  omega

theorem Tidy.eq_of_common (ht : h.Tidy) (hb : b ∈ h.live) (hb' : b' ∈ h.live)
    (ha : b.start ≤ a ∧ a < b.stop) (ha' : b'.start ≤ a ∧ a < b'.stop) : b = b' := by
  have hfind := ht.blockBelow hb ha.1 ha.2
  rw [ht.blockBelow hb' ha'.1 ha'.2] at hfind
  exact (Option.some.inj hfind).symm

theorem deallocate_of_mem (hb : b ∈ h.live) :
    ∃ h', h.deallocate b.start = .ok h' ∧ h'.base = h.base ∧ h'.limit = h.limit ∧
      h'.live = h.live.filter (·.start != b.start) ∧
      h'.stats.deallocations = h.stats.deallocations + 1 := by
  cases hfind : h.live.find? (·.start == b.start) with
  | none => exact absurd (List.find?_eq_none.1 hfind b hb) (by simp)
  | some c =>
    rw [deallocate, hfind]
    exact ⟨_, rfl, rfl, rfl, rfl, rfl⟩

theorem Tidy.of_filter {f : HeapBlock → Bool} (ht : h.Tidy) (hbase : h'.base = h.base)
    (hlimit : h'.limit = h.limit) (hlive : h'.live = h.live.filter f) : h'.Tidy := by
  refine ⟨hlive ▸ ht.apart.filter f, fun b hb => ?_⟩
  rw [hlive] at hb
  rw [hbase, hlimit]
  exact ht.inside b (List.mem_filter.1 hb).1

end IntervalStack.Heap
