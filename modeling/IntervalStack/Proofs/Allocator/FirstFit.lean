import Mathlib.Order.Bounds.Defs
import IntervalStack.Proofs.Allocator.History

/-! The allocator looks through its free blocks, and finds what a search through the bytes would
find: the lowest run of bytes that is long enough and holds nothing live. No run reaches over two
free blocks, as they do not touch. -/

namespace IntervalStack.Heap

variable {h h' : Heap} {b c : HeapBlock} {bs cs : List HeapBlock} {a size address : Nat}

/-- A run of bytes in the range of the allocator of which none is live. -/
structure Vacant (h : Heap) (a size : Nat) : Prop where
  inside : h.base ≤ a ∧ a + size ≤ h.limit
  unused : ∀ b ∈ h.live, ∀ i, a ≤ i → i < a + size → ¬(b.start ≤ i ∧ i < b.stop)

/-! Every history. -/

theorem kept_of_empty_range {base limit : Nat} (hle : limit ≤ base) :
    Kept base limit (empty base limit) := by
  have hfree : (empty base limit).free = [] := if_neg (Nat.not_lt.2 hle)
  have hout : ∀ a, ¬(empty base limit).manages a := by
    intro a hin
    have : base ≤ a ∧ a < limit := manages_iff.1 hin
    omega
  refine ⟨⟨fun a => ?_, ?_, .nil, ?_, ?_, nofun⟩, ⟨rfl, rfl, rfl, ?_⟩, rfl, rfl⟩
  all_goals rw [hfree]
  · rw [if_neg (hout a)]
    rfl
  · nofun
  · exact .nil
  · nofun
  · exact (Nat.sub_eq_zero_of_le hle).symm

theorem kept_after (base limit : Nat) (calls : List HeapCall) :
    Kept base limit ((empty base limit).after calls) :=
  (if hle : base ≤ limit then kept_empty hle
    else kept_of_empty_range (Nat.le_of_not_le hle)).after calls

/-! Runs and free blocks. -/

theorem Spaced.eq_or_before (hs : Spaced bs) (hb : b ∈ bs) (hc : c ∈ bs) :
    b = c ∨ b.stop < c.start ∨ c.stop < b.start := by
  induction bs with
  | nil => cases hb
  | cons d ds ih =>
    obtain ⟨hfirst, hrest⟩ := List.pairwise_cons.1 hs
    rcases List.mem_cons.1 hb with rfl | hb' <;> rcases List.mem_cons.1 hc with rfl | hc'
    · exact .inl rfl
    · exact .inr (.inl (hfirst c hc'))
    · exact .inr (.inr (hfirst b hb'))
    · exact ih hrest hb' hc'

theorem Sound.vacant_iff (hs : h.Sound) (hpos : 0 < size) :
    h.Vacant a size ↔ ∃ c ∈ h.free, c.start ≤ a ∧ a + size ≤ c.stop := by
  constructor
  · rintro ⟨⟨hbase, hlimit⟩, hunused⟩
    have hfree : ∀ i, a ≤ i → i < a + size → ∃ c ∈ h.free, c.start ≤ i ∧ i < c.stop := by
      intro i hai hia
      obtain ⟨c, hc, hin⟩ := (hs.covers i).2 ⟨by omega, by omega⟩
      rcases List.mem_append.1 hc with hc | hc
      · exact absurd hin (hunused c hc i hai hia)
      · exact ⟨c, hc, hin⟩
    obtain ⟨c, hc, hstart, hstop⟩ := hfree a (Nat.le_refl a) (by omega)
    refine ⟨c, hc, hstart, Nat.le_of_not_lt fun hshort => ?_⟩
    -- The byte behind `c` is free too, and the block that it lies in would touch `c`.
    obtain ⟨d, hd, hdstart, hdstop⟩ := hfree c.stop (by omega) hshort
    rcases hs.spaced.eq_or_before hc hd with rfl | hbefore | hbefore <;> omega
  · rintro ⟨c, hc, hstart, hstop⟩
    have hin := hs.inside (List.mem_append_right _ hc)
    refine ⟨by omega, fun b hb i hai hia hbi => ?_⟩
    have hapart := (List.pairwise_append.1 hs.apart).2.2 b hb c hc
    rw [HeapBlock.Apart] at hapart
    omega

/-! The search. -/

theorem carve_eq_none_iff : carve size bs = none ↔ ∀ b ∈ bs, b.size < size := by
  induction bs with
  | nil => simp [carve]
  | cons b bs ih =>
    rw [carve, List.forall_mem_cons]
    split
    · next hfits => simp [Nat.not_lt.2 hfits]
    · next hshort => rw [Option.map_eq_none_iff, ih, and_iff_right (Nat.lt_of_not_le hshort)]

theorem carve_le_start (hs : Spaced bs) (h : carve size bs = some (address, cs)) (hc : c ∈ bs)
    (hsize : size ≤ c.size) : address ≤ c.start := by
  induction bs generalizing cs with
  | nil => cases hc
  | cons b bs ih =>
    obtain ⟨hfirst, hrest⟩ := List.pairwise_cons.1 hs
    rw [carve] at h
    split at h
    · obtain ⟨rfl, -⟩ := Prod.mk.inj (Option.some.inj h)
      rcases List.mem_cons.1 hc with rfl | hc
      · exact Nat.le_refl _
      · have hbc := hfirst c hc
        rw [HeapBlock.stop] at hbc
        omega
    · next hshort =>
      obtain ⟨⟨_, rest⟩, hcarve, hr⟩ := Option.map_eq_some_iff.1 h
      obtain ⟨rfl, -⟩ := Prod.mk.inj hr
      rcases List.mem_cons.1 hc with rfl | hc
      · exact absurd hsize hshort
      · exact ih hrest hcarve hc

theorem Sound.carve_eq_none_iff (hs : h.Sound) (hpos : 0 < size) :
    carve size h.free = none ↔ ∀ a, ¬h.Vacant a size := by
  simp only [Heap.carve_eq_none_iff, hs.vacant_iff hpos, not_exists, not_and]
  constructor
  · intro hshort a c hc hstart
    have := hshort c hc
    rw [HeapBlock.stop]
    omega
  · intro hnone c hc
    have := hnone c.start c hc (Nat.le_refl _)
    rw [HeapBlock.stop] at this
    omega

theorem Sound.carve_isLeast (hs : h.Sound) (hpos : 0 < size)
    (hc : carve size h.free = some (address, cs)) : IsLeast {a | h.Vacant a size} address := by
  refine ⟨(hs.vacant_iff hpos).2 ?_, fun a ha => ?_⟩
  · obtain ⟨b, hb, rfl, hfits⟩ := carve_start hc
    exact ⟨b, hb, Nat.le_refl _, Nat.add_le_add_left hfits _⟩
  · obtain ⟨b, hb, hstart, hstop⟩ := (hs.vacant_iff hpos).1 ha
    rw [HeapBlock.stop] at hstop
    exact Nat.le_trans (carve_le_start hs.spaced hc hb (by omega)) hstart

theorem insertBlock_perm : (insertBlock b bs).Perm (b :: bs) := by
  induction bs with
  | nil => exact .refl _
  | cons c cs ih =>
    rw [insertBlock]
    split
    · exact .refl _
    · exact (ih.cons c).trans (.swap b c cs)

theorem rounded_eq {size r : Nat} (hr : IsLeast {n | 4 ∣ n ∧ max size 1 ≤ n} r) :
    rounded size = r := by
  have hle : r ≤ rounded size := hr.2 ⟨Nat.dvd_mul_left 4 _, by unfold rounded; omega⟩
  obtain ⟨⟨hwhole, hfits⟩, -⟩ := hr
  unfold rounded at hle ⊢
  omega

/-- A request is met where bytes for it stand in a row and none of them is live, and it is met at
the lowest such place. The block that it gets joins the live ones, which stay as they are. -/
theorem allocate_takes_first_fit {base limit : Nat} {calls : List HeapCall} {h : Heap}
    (hh : h = (empty base limit).after calls) {size r : Nat} (hsize : size ≤ 0x7fffffff)
    (hr : IsLeast {n | 4 ∣ n ∧ max size 1 ≤ n} r) :
    ((∃ a h', h.allocate size = .ok (a, h')) ↔ ∃ a, h.Vacant a r) ∧
    (∀ a h', h.allocate size = .ok (a, h') →
      IsLeast {a | h.Vacant a r} a ∧ h'.live.Perm (⟨a, r⟩ :: h.live)) ∧
    ((¬∃ a, h.Vacant a r) → h.allocate size = .error (.outOfMemory size)) := by
  have hs : h.Sound := hh ▸ (kept_after base limit calls).sound
  obtain rfl := rounded_eq hr
  have hpos := rounded_pos size
  have hword : ¬UInt32.size ≤ rounded size := Nat.not_le.2 (rounded_lt (Nat.lt_succ_of_le hsize))
  cases hc : carve (rounded size) h.free with
  | none =>
    have hnone := (hs.carve_eq_none_iff hpos).1 hc
    have hfail : h.allocate size = .error (.outOfMemory size) := by
      simp only [allocate, if_neg hword, hc]
    refine ⟨⟨?_, fun hvacant => absurd hvacant (not_exists.2 hnone)⟩, ?_, fun _ => hfail⟩
    · rintro ⟨a, h', hok⟩
      cases hfail.symm.trans hok
    · intro a h' hok
      cases hfail.symm.trans hok
  | some found =>
    have hleast := hs.carve_isLeast hpos hc
    obtain ⟨h₁, hok⟩ : ∃ h', h.allocate size = .ok (found.1, h') := by
      simp only [allocate, if_neg hword, hc]
      exact ⟨_, rfl⟩
    refine ⟨⟨fun _ => ⟨_, hleast.1⟩, fun _ => ⟨_, _, hok⟩⟩, fun a h' ha => ?_,
      fun hnone => absurd ⟨_, hleast.1⟩ hnone⟩
    obtain ⟨rfl, rfl⟩ := Prod.mk.inj (Except.ok.inj (ha.symm.trans hok))
    obtain ⟨free, -, -, rfl⟩ := allocate_ok hok
    exact ⟨hleast, insertBlock_perm⟩

/-- Eight bytes are free in front of a live block and more behind it; a request for nine bytes
passes the first hole by, and one for five hundred is refused. -/
theorem allocate_takes_first_fit_passingBy :
    ∃ h, h = (empty 8 51).after mixedCalls ∧ h.live = [⟨16, 4⟩] ∧
      (∃ h', h.allocate 9 = .ok (20, h')) ∧ IsLeast {a | h.Vacant a 12} 20 ∧
      ¬(∃ a, h.Vacant a 500) ∧ h.allocate 500 = .error (.outOfMemory 500) := by
  have hh : _ = (empty 8 51).after mixedCalls := rfl
  have hnine := allocate_takes_first_fit (r := 12) hh (show 9 ≤ 0x7fffffff by decide)
    ⟨⟨by decide, by decide⟩, fun n ⟨hwhole, hn⟩ => by omega⟩
  have hmany := allocate_takes_first_fit (r := 500) hh (show 500 ≤ 0x7fffffff by decide)
    ⟨⟨by decide, by decide⟩, fun n ⟨hwhole, hn⟩ => by omega⟩
  obtain ⟨h', hok⟩ : ∃ h', ((empty 8 51).after mixedCalls).allocate 9 = .ok (20, h') := ⟨_, rfl⟩
  have hfail : ((empty 8 51).after mixedCalls).allocate 500 = .error (.outOfMemory 500) := rfl
  have hnone : ¬∃ a, ((empty 8 51).after mixedCalls).Vacant a 500 := by
    intro hsome
    obtain ⟨a, h', hsome⟩ := hmany.1.2 hsome
    cases hfail.symm.trans hsome
  exact ⟨_, rfl, by decide, ⟨h', hok⟩, (hnine.2.1 20 h' hok).1, hnone, hmany.2.2 hnone⟩

end IntervalStack.Heap
