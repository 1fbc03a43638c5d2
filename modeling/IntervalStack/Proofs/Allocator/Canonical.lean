import Mathlib.Data.List.Nodup
import IntervalStack.Proofs.Allocator.FirstFit

/-! The live blocks say all about the allocator: the free blocks are the gaps between them, each gap
as one block. How the live blocks came to be there leaves no trace. -/

namespace IntervalStack.Heap

variable {h g : Heap} {b c : HeapBlock} {bs cs : List HeapBlock} {base limit : Nat}

def reply (h : Heap) : HeapCall → Except HeapError (Option Nat)
  | .allocate size => (h.allocate size).map fun r => some r.1
  | .deallocate address => (h.deallocate address).map fun _ => none

def replies (h : Heap) : List HeapCall → List (Except HeapError (Option Nat))
  | [] => []
  | call :: calls => h.reply call :: (h.next call).replies calls

def release (h : Heap) (addresses : List Nat) : Heap := h.after (addresses.map .deallocate)

/-! Spaced blocks are known by the addresses that they cover. -/

theorem layers_pos_of_mem {a : Nat} (hb : b ∈ bs) (hstart : b.start ≤ a) (hstop : a < b.stop) :
    0 < layers bs a := by
  have hle := layer_le_layers (a := a) hb
  rwa [HeapBlock.layer_of_mem hstart hstop] at hle

theorem Spaced.start_le_of_covers (hcs : Spaced (c :: cs)) (hb : 0 < b.size)
    (hcovers : ∀ a, 0 < layers (b :: bs) a → 0 < layers (c :: cs) a) : c.start ≤ b.start := by
  have hin := hcovers b.start
    (layers_pos_of_mem List.mem_cons_self (Nat.le_refl _) (by rw [HeapBlock.stop]; omega))
  obtain ⟨d, hd, hstart, -⟩ := exists_of_layers_pos hin
  rcases List.mem_cons.1 hd with rfl | hd
  · exact hstart
  · have hcd := (List.pairwise_cons.1 hcs).1 d hd
    rw [HeapBlock.stop] at hcd
    omega

theorem Spaced.stop_le_of_covers (hcs : Spaced (c :: cs)) (hc : 0 < c.size)
    (hstart : b.start = c.start)
    (hcovers : ∀ a, 0 < layers (b :: bs) a → 0 < layers (c :: cs) a) : b.stop ≤ c.stop := by
  refine Nat.le_of_not_lt fun hlonger => ?_
  -- The address behind `c` is covered by `b`, while the next block leaves it out.
  have hin := hcovers c.stop
    (layers_pos_of_mem List.mem_cons_self (by rw [HeapBlock.stop]; omega) hlonger)
  obtain ⟨d, hd, hdstart, hdstop⟩ := exists_of_layers_pos hin
  rcases List.mem_cons.1 hd with rfl | hd
  · omega
  · have hcd := (List.pairwise_cons.1 hcs).1 d hd
    omega

theorem Spaced.eq_of_layers (hbs : Spaced bs) (hcs : Spaced cs) (hbpos : ∀ b ∈ bs, 0 < b.size)
    (hcpos : ∀ c ∈ cs, 0 < c.size) (heq : ∀ a, layers bs a = layers cs a) : bs = cs := by
  induction bs generalizing cs with
  | nil =>
    cases cs with
    | nil => rfl
    | cons c cs =>
      have hpos := hcpos c List.mem_cons_self
      have hin : 0 < layers (c :: cs) c.start :=
        layers_pos_of_mem List.mem_cons_self (Nat.le_refl _) (by rw [HeapBlock.stop]; omega)
      rw [← heq] at hin
      cases hin
  | cons b bs ih =>
    have hb := hbpos b List.mem_cons_self
    cases cs with
    | nil =>
      have hin : 0 < layers (b :: bs) b.start :=
        layers_pos_of_mem List.mem_cons_self (Nat.le_refl _) (by rw [HeapBlock.stop]; omega)
      rw [heq] at hin
      cases hin
    | cons c cs =>
      have hc := hcpos c List.mem_cons_self
      have hto : ∀ a, 0 < layers (b :: bs) a → 0 < layers (c :: cs) a := fun a ha => heq a ▸ ha
      have hfrom : ∀ a, 0 < layers (c :: cs) a → 0 < layers (b :: bs) a := fun a ha => heq a ▸ ha
      have hstart : b.start = c.start :=
        Nat.le_antisymm (hbs.start_le_of_covers hc hfrom) (hcs.start_le_of_covers hb hto)
      have hstop : b.stop = c.stop :=
        Nat.le_antisymm (hcs.stop_le_of_covers hc hstart hto)
          (hbs.stop_le_of_covers hb hstart.symm hfrom)
      obtain rfl : b = c := by
        obtain ⟨start, size⟩ := b
        obtain ⟨start', size'⟩ := c
        simp only [HeapBlock.stop, HeapBlock.mk.injEq] at hstart hstop ⊢
        omega
      have hrest : bs = cs := by
        refine ih (List.pairwise_cons.1 hbs).2 (List.pairwise_cons.1 hcs).2
          (fun d hd => hbpos d (List.mem_cons_of_mem b hd))
          (fun d hd => hcpos d (List.mem_cons_of_mem b hd)) fun a => ?_
        have hall := heq a
        rw [layers_cons, layers_cons] at hall
        omega
      rw [hrest]

/-! States with the same live blocks. -/

theorem Sound.nodup_live (hs : h.Sound) : h.live.Nodup := by
  refine hs.sorted.imp_of_mem fun {b c} hb _ hle heq => ?_
  have hpos := hs.nonempty b (List.mem_append_left _ hb)
  rw [← heq, HeapBlock.stop] at hle
  omega

theorem Sound.live_eq (hs : h.Sound) (hs' : g.Sound) (hmem : ∀ b, b ∈ h.live ↔ b ∈ g.live) :
    h.live = g.live := by
  have hperm := (List.perm_ext_iff_of_nodup hs.nodup_live hs'.nodup_live).2 hmem
  refine hperm.eq_of_pairwise (fun b c hb hc hbc hcb => ?_) hs.sorted hs'.sorted
  have hbpos := hs.nonempty b (List.mem_append_left _ hb)
  have hcpos := hs'.nonempty c (List.mem_append_left _ hc)
  rw [HeapBlock.stop] at hbc hcb
  omega

theorem Kept.free_eq (hk : Kept base limit h) (hk' : Kept base limit g)
    (hlive : h.live = g.live) : h.free = g.free := by
  refine hk.sound.spaced.eq_of_layers hk'.sound.spaced
    (fun b hb => hk.sound.nonempty b (List.mem_append_right _ hb))
    (fun b hb => hk'.sound.nonempty b (List.mem_append_right _ hb)) fun a => ?_
  have hrange : h.manages a = g.manages a := by
    rw [manages, manages, hk.base_eq, hk.limit_eq, hk'.base_eq, hk'.limit_eq]
  have htiles := hk.sound.tiles a
  rw [hrange, ← hk'.sound.tiles, layers_append, layers_append, hlive] at htiles
  omega

theorem Kept.eq_of_live (hk : Kept base limit h) (hk' : Kept base limit g)
    (hlive : h.live = g.live) (hcalls : h.stats.allocations = g.stats.allocations)
    (hpeak : h.stats.peakLiveRecords = g.stats.peakLiveRecords) : h = g := by
  have hfree := hk.free_eq hk' hlive
  have hrecords : h.stats.liveRecords = g.stats.liveRecords := by
    rw [hk.counted.records, hk'.counted.records, hlive]
  have hbytes : h.stats.liveBytes = g.stats.liveBytes := by
    rw [hk.counted.bytes, hk'.counted.bytes, hlive]
  have hgiven : h.stats.deallocations = g.stats.deallocations := by
    have := hk.counted.calls
    have := hk'.counted.calls
    omega
  obtain ⟨_, _, _, _, _, _, _, _, _⟩ := h
  obtain ⟨_, _, _, _, _, _, _, _, _⟩ := g
  simp only [mk.injEq, HeapStats.mk.injEq]
  exact ⟨hk.base_eq.trans hk'.base_eq.symm, hk.limit_eq.trans hk'.limit_eq.symm, hlive, hfree,
    hcalls, hgiven, hrecords, hbytes, hpeak⟩

/-! What is to come. -/

theorem call_congr (hlive : h.live = g.live) (hfree : h.free = g.free) (call : HeapCall) :
    h.reply call = g.reply call ∧ (h.next call).live = (g.next call).live ∧
      (h.next call).free = (g.next call).free := by
  cases call with
  | allocate size =>
    simp only [reply, next, answer, allocate, hlive, hfree]
    split
    · exact ⟨rfl, hlive, hfree⟩
    · split
      · exact ⟨rfl, hlive, hfree⟩
      · exact ⟨rfl, rfl, rfl⟩
  | deallocate address =>
    simp only [reply, next, answer, deallocate, hlive, hfree]
    split
    · exact ⟨rfl, hlive, hfree⟩
    · exact ⟨rfl, rfl, rfl⟩

theorem replies_congr (hlive : h.live = g.live) (hfree : h.free = g.free)
    (calls : List HeapCall) : h.replies calls = g.replies calls := by
  induction calls generalizing h g with
  | nil => rfl
  | cons call calls ih =>
    obtain ⟨hreply, hlive', hfree'⟩ := call_congr hlive hfree call
    rw [replies, replies, hreply, ih hlive' hfree']

/-! Giving blocks back. -/

/-- A deallocation takes the block at its address out, if there is one, and leaves the counters of
allocations and of the peak. -/
theorem next_deallocate (h : Heap) (address : Nat) :
    (h.next (.deallocate address)).live = h.live.filter (·.start != address) ∧
      (h.next (.deallocate address)).stats.allocations = h.stats.allocations ∧
      (h.next (.deallocate address)).stats.peakLiveRecords = h.stats.peakLiveRecords := by
  simp only [next, answer, deallocate]
  split
  · next h' hok =>
    split at hok
    · cases hok
    · obtain rfl := Except.ok.inj hok
      exact ⟨rfl, rfl, rfl⟩
  · next hfail =>
    split at hfail
    · next hnone =>
      refine ⟨(List.filter_eq_self.2 fun b hb => ?_).symm, rfl, rfl⟩
      simpa using List.find?_eq_none.1 hnone b hb
    · cases hfail

theorem release_eq (h : Heap) (addresses : List Nat) :
    (h.release addresses).live = h.live.filter (·.start ∉ addresses) ∧
      (h.release addresses).stats.allocations = h.stats.allocations ∧
      (h.release addresses).stats.peakLiveRecords = h.stats.peakLiveRecords := by
  induction addresses generalizing h with
  | nil => exact ⟨(List.filter_eq_self.2 fun b _ => by simp).symm, rfl, rfl⟩
  | cons address addresses ih =>
    obtain ⟨hlive, hcalls, hpeak⟩ := h.next_deallocate address
    obtain ⟨hlive', hcalls', hpeak'⟩ := ih (h.next (.deallocate address))
    refine ⟨?_, hcalls'.trans hcalls, hpeak'.trans hpeak⟩
    show ((h.next (.deallocate address)).release addresses).live = _
    rw [hlive', hlive, List.filter_filter]
    exact List.filter_congr fun b _ => Bool.eq_iff_iff.2 (by simp [and_comm])

/-- Heaps with the same range and the same live blocks have the same free blocks, and answer alike
from there on. So it does not matter in which order blocks are given back, and where all are given
back the range is one free block again. -/
theorem free_blocks_forget_history {base limit : Nat} {calls calls' : List HeapCall} {h g : Heap}
    (hh : h = (empty base limit).after calls) (hg : g = (empty base limit).after calls') :
    ((∀ b, b ∈ h.live ↔ b ∈ g.live) →
      h.free = g.free ∧ ∀ later, h.replies later = g.replies later) ∧
    (∀ xs ys : List Nat, (∀ a, a ∈ xs ↔ a ∈ ys) → h.release xs = h.release ys) ∧
    ∀ xs : List Nat, (∀ b ∈ h.live, b.start ∈ xs) → (h.release xs).live = [] ∧
      (h.release xs).free = if base < limit then [⟨base, limit - base⟩] else [] := by
  have hk : Kept base limit h := hh ▸ kept_after base limit calls
  have hk' : Kept base limit g := hg ▸ kept_after base limit calls'
  refine ⟨fun hmem => ?_, fun xs ys hsame => ?_, fun xs hall => ?_⟩
  · have hlive := hk.sound.live_eq hk'.sound hmem
    have hfree := hk.free_eq hk' hlive
    exact ⟨hfree, replies_congr hlive hfree⟩
  · obtain ⟨hlive, hcalls, hpeak⟩ := h.release_eq xs
    obtain ⟨hlive', hcalls', hpeak'⟩ := h.release_eq ys
    refine (hk.after _).eq_of_live (hk.after _) ?_ (hcalls.trans hcalls'.symm)
      (hpeak.trans hpeak'.symm)
    refine hlive.trans (Eq.trans ?_ hlive'.symm)
    simp only [hsame]
  · have hlive : (h.release xs).live = [] := by
      rw [(h.release_eq xs).1, List.filter_eq_nil_iff]
      intro b hb
      simpa using hall b hb
    exact ⟨hlive, (hk.after _).free_eq (kept_after base limit []) hlive⟩

/-- A shorter way to two of the blocks that a longer history leaves. -/
theorem free_blocks_forget_history_shortcut :
    ∃ h g, h = (empty 8 51).after (mixedCalls ++ [.allocate 7]) ∧
      g = (empty 8 51).after [.allocate 8, .allocate 4] ∧ h.stats ≠ g.stats ∧
      (∀ b, b ∈ h.live ↔ b ∈ g.live) ∧ h.free = g.free ∧
      h.replies [.allocate 31, .deallocate 9] = g.replies [.allocate 31, .deallocate 9] ∧
      h.release [8, 16] = h.release [16, 8] ∧ (h.release [16, 8]).free = [⟨8, 43⟩] := by
  have hh : _ = (empty 8 51).after (mixedCalls ++ [.allocate 7]) := rfl
  have hg : _ = (empty 8 51).after [.allocate 8, .allocate 4] := rfl
  have hlive : (∀ b, b ∈ ((empty 8 51).after (mixedCalls ++ [.allocate 7])).live ↔
      b ∈ ((empty 8 51).after [.allocate 8, .allocate 4]).live) := fun b => Iff.rfl
  have hsame := free_blocks_forget_history hh hg
  exact ⟨_, _, hh, hg, by decide, hlive, (hsame.1 hlive).1, (hsame.1 hlive).2 _,
    hsame.2.1 [8, 16] [16, 8] (by simp [or_comm]), (hsame.2.2 [16, 8] (by decide)).2⟩

end IntervalStack.Heap
