import IntervalStack.Proofs.Allocator.FirstFit
import IntervalStack.Proofs.Policing

/-! Accesses to the heap, judged by its history. The check looks at one block only, the last one
that starts at or below the address; since live blocks have no byte in common, no other one could
have the bytes. Which blocks are live is told by the calls so far and what they were answered. -/

namespace IntervalStack

def HeapBlock.Has (b : HeapBlock) (address width : Nat) : Prop :=
  ∀ x, address ≤ x → x < address + width → b.start ≤ x ∧ x < b.stop

theorem HeapBlock.has_iff {b : HeapBlock} {address width : Nat} (hwidth : 0 < width) :
    b.Has address width ↔ b.start ≤ address ∧ address + width ≤ b.stop := by
  constructor
  · intro h
    have hfirst := h address (Nat.le_refl _) (by omega)
    have hlast := h (address + width - 1) (by omega) (by omega)
    omega
  · rintro ⟨hstart, hstop⟩ x hle hlt
    omega

namespace Heap

def Allots (h : Heap) (size : Nat) (b : HeapBlock) : Prop :=
  b.size = rounded size ∧ ∃ h', h.allocate size = .ok (b.start, h')

/-- The calls have got the block, and have not given it back since. -/
def Outstanding (h : Heap) (calls : List HeapCall) (b : HeapBlock) : Prop :=
  ∃ before size rest, calls = before ++ .allocate size :: rest ∧ (h.after before).Allots size b ∧
    .deallocate b.start ∉ rest

variable {h : Heap} {b : HeapBlock} {call : HeapCall} {calls : List HeapCall}
  {address width size : Nat}

/-! One call. -/

theorem mem_live_next_allocate :
    b ∈ (h.next (.allocate size)).live ↔ b ∈ h.live ∨ h.Allots size b := by
  cases ha : h.allocate size with
  | error e =>
    have hsame : h.next (.allocate size) = h := by simp only [next, answer, ha]; rfl
    simp [hsame, Allots, ha]
  | ok r =>
    obtain ⟨free, -, -, heq⟩ := allocate_ok ha
    have hnext : (h.next (.allocate size)).live = insertBlock ⟨r.1, rounded size⟩ h.live := by
      simp only [next, answer, ha, Except.map, heq]
    have hnew : h.Allots size b ↔ b = ⟨r.1, rounded size⟩ := by
      constructor
      · rintro ⟨hsize, h', hok⟩
        obtain rfl := Except.ok.inj (ha.symm.trans hok)
        rw [← hsize]
      · rintro rfl
        exact ⟨rfl, r.2, ha⟩
    rw [hnext, mem_insertBlock, hnew, or_comm]

theorem mem_live_next_deallocate :
    b ∈ (h.next (.deallocate address)).live ↔ b ∈ h.live ∧ b.start ≠ address := by
  cases hd : h.deallocate address with
  | error e =>
    -- What is live could have been given back.
    have hnone : ∀ c ∈ h.live, c.start ≠ address := by
      rintro c hc rfl
      obtain ⟨h', hok, -⟩ := deallocate_of_mem hc
      cases hd.symm.trans hok
    have hsame : h.next (.deallocate address) = h := by simp only [next, answer, hd]
    rw [hsame]
    exact ⟨fun hb => ⟨hb, hnone b hb⟩, And.left⟩
  | ok h' =>
    obtain ⟨c, -, -, heq⟩ := deallocate_ok hd
    have hnext : (h.next (.deallocate address)).live = h.live.filter (·.start != address) := by
      simp only [next, answer, hd, heq]
    rw [hnext, List.mem_filter, bne_iff_ne]

theorem mem_live_next :
    b ∈ (h.next call).live ↔ b ∈ h.live ∧ call ≠ .deallocate b.start ∨
      ∃ size, call = .allocate size ∧ h.Allots size b := by
  cases call with
  | allocate size => simp [mem_live_next_allocate]
  | deallocate address => simp [mem_live_next_deallocate, eq_comm]

theorem outstanding_cons :
    h.Outstanding (call :: calls) b ↔
      (∃ size, call = .allocate size ∧ h.Allots size b) ∧ .deallocate b.start ∉ calls ∨
        (h.next call).Outstanding calls b := by
  constructor
  · rintro ⟨before, size, rest, heq, hallots, hkept⟩
    cases before with
    | nil =>
      obtain ⟨rfl, rfl⟩ := List.cons.inj heq
      exact .inl ⟨⟨size, rfl, hallots⟩, hkept⟩
    | cons call' before =>
      obtain ⟨rfl, rfl⟩ := List.cons.inj heq
      exact .inr ⟨before, size, rest, rfl, hallots, hkept⟩
  · rintro (⟨⟨size, rfl, hallots⟩, hkept⟩ | ⟨before, size, rest, rfl, hallots, hkept⟩)
    · exact ⟨[], size, calls, rfl, hallots, hkept⟩
    · exact ⟨call :: before, size, rest, rfl, hallots, hkept⟩

/-! A whole history. -/

/-- Behind a sequence of calls those blocks are live that it found so and left alone, and those that
it has got itself and not given back. -/
theorem mem_live_after : b ∈ (h.after calls).live ↔
    b ∈ h.live ∧ .deallocate b.start ∉ calls ∨ h.Outstanding calls b := by
  induction calls generalizing h with
  | nil => simp [after, Outstanding]
  | cons call calls ih =>
    have hfirst : b ∈ (h.after (call :: calls)).live ↔ b ∈ ((h.next call).after calls).live := .rfl
    rw [hfirst, ih, mem_live_next, outstanding_cons, List.mem_cons, not_or]
    grind

theorem mem_live_after_empty (base limit : Nat) :
    b ∈ ((empty base limit).after calls).live ↔ (empty base limit).Outstanding calls b := by
  rw [mem_live_after]
  exact or_iff_right fun hb => List.not_mem_nil hb.1

theorem checkAccess_of_ne_ok (hin : address + width < UInt32.size)
    (hne : h.checkAccess address width ≠ .ok ()) :
    h.checkAccess address width = .error (.unallocated address) := by
  unfold checkAccess at hne ⊢
  split
  · rfl
  · next b hb =>
    rw [hb] at hne
    dsimp only at hne
    rw [if_neg (by omega)] at hne ⊢
    split at hne
    · exact absurd rfl hne
    · next hshort => rw [if_neg hshort]

theorem Sound.manages_of_has (hs : h.Sound) (hb : b ∈ h.live) (hwidth : 0 < width)
    (hhas : b.Has address width) : h.manages address := by
  have hin := hs.inside (List.mem_append_left _ hb)
  rw [HeapBlock.has_iff hwidth] at hhas
  exact manages_iff.2 (by omega)

/-- Behind every history an access passes the check if and only if one block that was got and not
given back since has all its bytes, and then it is in the range of the heap. Else it is refused as
an access to bytes that are not allocated. -/
theorem access_passes_iff_outstanding {base limit : Nat} {calls : List HeapCall} {h : Heap}
    (hh : h = (empty base limit).after calls) {address width : Nat} (hwidth : 1 ≤ width)
    (hin : address + width ≤ 2 ^ 32 - 1) :
    (h.checkAccess address width = .ok () ↔
      ∃ b, (empty base limit).Outstanding calls b ∧ b.Has address width) ∧
    (h.checkAccess address width = .ok () → h.manages address) ∧
    (h.checkAccess address width ≠ .ok () →
      h.checkAccess address width = .error (.unallocated address)) ∧
    ∀ b, b ∈ h.live ↔ (empty base limit).Outstanding calls b := by
  subst hh
  have hs := (kept_after base limit calls).sound
  have hword : address + width < UInt32.size := Nat.lt_of_le_of_lt hin (by decide)
  have hpasses : ((empty base limit).after calls).checkAccess address width = .ok () ↔
      ∃ b ∈ ((empty base limit).after calls).live, b.Has address width := by
    rw [hs.checkAccess_ok_iff hword hwidth]
    simp only [HeapBlock.has_iff hwidth]
  refine ⟨?_, fun hok => ?_, checkAccess_of_ne_ok hword, fun b => mem_live_after_empty base limit⟩
  · simp only [hpasses, mem_live_after_empty]
  · obtain ⟨b, hb, hhas⟩ := hpasses.1 hok
    exact hs.manages_of_has hb hwidth hhas

/-- Two blocks that touch, in a place that was used before. -/
def touchingCalls : List HeapCall :=
  [.allocate 20, .deallocate 100, .allocate 6, .allocate 12]

/-- Bytes from one block to the next are refused, though all of them are live. -/
theorem access_passes_iff_outstanding_touching :
    ∃ h, h = (empty 100 200).after touchingCalls ∧ h.live = [⟨100, 8⟩, ⟨108, 12⟩] ∧
      h.checkAccess 112 8 = .ok () ∧ h.manages 112 ∧
      (∃ b, (empty 100 200).Outstanding touchingCalls b ∧ b.Has 112 8) ∧
      ¬ (∃ b, (empty 100 200).Outstanding touchingCalls b ∧ b.Has 104 8) ∧
      h.checkAccess 104 8 = .error (.unallocated 104) := by
  have hh : _ = (empty 100 200).after touchingCalls := rfl
  obtain ⟨hiff, hmanages, -, -⟩ :=
    access_passes_iff_outstanding hh (show 1 ≤ 8 by decide) (show 112 + 8 ≤ 2 ^ 32 - 1 by decide)
  obtain ⟨hiff', -, hrefused, -⟩ :=
    access_passes_iff_outstanding hh (show 1 ≤ 8 by decide) (show 104 + 8 ≤ 2 ^ 32 - 1 by decide)
  have hok : ((empty 100 200).after touchingCalls).checkAccess 112 8 = .ok () := rfl
  have hne : ((empty 100 200).after touchingCalls).checkAccess 104 8 ≠ .ok () := nofun
  exact ⟨_, rfl, by decide, hok, hmanages hok, hiff.1 hok, fun hb => hne (hiff'.2 hb), hrefused hne⟩

end Heap
end IntervalStack
