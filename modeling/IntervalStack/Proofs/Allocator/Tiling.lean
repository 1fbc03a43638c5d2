import IntervalStack.Proofs.HeapBlocks

/-! The blocks of the allocator tile its range. The tiling is kept as an equation for each address:
the number of blocks that it lies in, which all operations on lists of blocks change in a plain
way. -/

namespace IntervalStack

namespace HeapBlock

def layer (b : HeapBlock) (a : Nat) : Nat := if b.start ≤ a ∧ a < b.stop then 1 else 0

def Apart (b c : HeapBlock) : Prop := b.stop ≤ c.start ∨ c.stop ≤ b.start

variable {b c : HeapBlock} {a : Nat}

theorem layer_of_mem (h : b.start ≤ a) (h' : a < b.stop) : b.layer a = 1 := if_pos ⟨h, h'⟩

theorem layer_merged (h : b.stop = c.start) :
    layer ⟨b.start, b.size + c.size⟩ a = b.layer a + c.layer a := by
  rw [stop] at h
  unfold layer stop
  grind

theorem layer_parts {n : Nat} (h : n ≤ b.size) :
    b.layer a = layer ⟨b.start, n⟩ a + layer ⟨b.start + n, b.size - n⟩ a := by
  rw [← layer_merged rfl, Nat.add_sub_cancel' h]

theorem apart_of_layer_le (hb : 0 < b.size) (hc : 0 < c.size)
    (h : ∀ a, b.layer a + c.layer a ≤ 1) : b.Apart c := by
  have hboth := h (max b.start c.start)
  unfold layer stop at hboth
  unfold Apart stop
  grind

end HeapBlock

namespace Heap

def layers (bs : List HeapBlock) (a : Nat) : Nat := (bs.map (·.layer a)).sum

variable {h h' : Heap} {b c : HeapBlock} {bs cs : List HeapBlock} {a size address : Nat}

@[simp] theorem layers_cons : layers (b :: bs) a = b.layer a + layers bs a := by simp [layers]

@[simp] theorem layers_append : layers (bs ++ cs) a = layers bs a + layers cs a := by simp [layers]

theorem layer_le_layers (hb : b ∈ bs) : b.layer a ≤ layers bs a := by
  obtain ⟨pre, post, rfl⟩ := List.append_of_mem hb
  rw [layers_append, layers_cons]
  omega

theorem exists_of_layers_pos (h : 0 < layers bs a) : ∃ b ∈ bs, b.start ≤ a ∧ a < b.stop := by
  induction bs with
  | nil => cases h
  | cons b bs ih =>
    rw [layers_cons] at h
    by_cases hb : b.start ≤ a ∧ a < b.stop
    · exact ⟨b, List.mem_cons_self, hb⟩
    · rw [HeapBlock.layer, if_neg hb, Nat.zero_add] at h
      obtain ⟨c, hc, hin⟩ := ih h
      exact ⟨c, List.mem_cons_of_mem b hc, hin⟩

theorem pairwise_apart (hpos : ∀ b ∈ bs, 0 < b.size) (h : ∀ a, layers bs a ≤ 1) :
    bs.Pairwise HeapBlock.Apart := by
  induction bs with
  | nil => exact .nil
  | cons b bs ih =>
    simp only [layers_cons] at h
    refine .cons (fun c hc => ?_)
      (ih (fun c hc => hpos c (List.mem_cons_of_mem b hc)) fun a => by have := h a; omega)
    refine HeapBlock.apart_of_layer_le (hpos b List.mem_cons_self)
      (hpos c (List.mem_cons_of_mem b hc)) fun a => ?_
    have hc := layer_le_layers (a := a) hc
    have hall := h a
    omega

theorem layers_carve (h : carve size bs = some (address, cs)) :
    layers bs a = layers cs a + HeapBlock.layer ⟨address, size⟩ a := by
  induction bs generalizing cs with
  | nil => cases h
  | cons b bs ih =>
    rw [carve] at h
    split at h
    · next hsize =>
      obtain ⟨rfl, rfl⟩ := Prod.mk.inj (Option.some.inj h)
      split
      · rw [layers_cons, layers_cons, HeapBlock.layer_parts hsize]
        omega
      · obtain rfl : size = b.size := by omega
        rw [layers_cons, Nat.add_comm]
    · obtain ⟨⟨_, rest⟩, hcarve, hr⟩ := Option.map_eq_some_iff.1 h
      obtain ⟨rfl, rfl⟩ := Prod.mk.inj hr
      rw [layers_cons, layers_cons, ih hcarve, Nat.add_assoc]

theorem layers_insertBlock : layers (insertBlock b bs) a = b.layer a + layers bs a := by
  induction bs with
  | nil => rfl
  | cons c cs ih =>
    rw [insertBlock]
    split
    · rw [layers_cons]
    · rw [layers_cons, ih, layers_cons]
      omega

theorem layers_giveBack : layers (giveBack b bs) a = b.layer a + layers bs a := by
  induction bs generalizing b with
  | nil => rfl
  | cons c cs ih =>
    rw [giveBack]
    split
    · next htouch =>
      rw [ih, layers_cons, HeapBlock.layer_merged htouch]
      omega
    · split
      · next htouch =>
        rw [layers_cons, layers_cons, HeapBlock.layer_merged htouch, Nat.add_assoc]
      · split
        · rw [layers_cons]
        · rw [layers_cons, ih, layers_cons]
          omega

theorem mem_insertBlock : c ∈ insertBlock b bs ↔ c = b ∨ c ∈ bs := by
  induction bs with
  | nil => simp [insertBlock]
  | cons d ds ih =>
    rw [insertBlock]
    split
    · rw [List.mem_cons]
    · rw [List.mem_cons, ih, List.mem_cons]
      exact or_left_comm

/-- The blocks that are left where one was carved: those from before, and the end of one of them. -/
theorem mem_carve (h : carve size bs = some (address, cs)) (hc : c ∈ cs) :
    c ∈ bs ∨ c.start = address + size ∧ 0 < c.size := by
  induction bs generalizing cs with
  | nil => cases h
  | cons b bs ih =>
    rw [carve] at h
    split at h
    · obtain ⟨rfl, rfl⟩ := Prod.mk.inj (Option.some.inj h)
      split at hc
      · rcases List.mem_cons.1 hc with rfl | hc
        · exact .inr ⟨rfl, by dsimp only; omega⟩
        · exact .inl (List.mem_cons_of_mem b hc)
      · exact .inl (List.mem_cons_of_mem b hc)
    · obtain ⟨⟨address', rest⟩, hcarve, hr⟩ := Option.map_eq_some_iff.1 h
      obtain ⟨rfl, rfl⟩ := Prod.mk.inj hr
      rcases List.mem_cons.1 hc with rfl | hc
      · exact .inl List.mem_cons_self
      · exact (ih hcarve hc).imp_left (List.mem_cons_of_mem b)

theorem carve_start (h : carve size bs = some (address, cs)) :
    ∃ b ∈ bs, b.start = address ∧ size ≤ b.size := by
  induction bs generalizing cs with
  | nil => cases h
  | cons b bs ih =>
    rw [carve] at h
    split at h
    · next hsize =>
      obtain ⟨rfl, rfl⟩ := Prod.mk.inj (Option.some.inj h)
      exact ⟨b, List.mem_cons_self, rfl, hsize⟩
    · obtain ⟨⟨address', rest⟩, hcarve, hr⟩ := Option.map_eq_some_iff.1 h
      obtain ⟨rfl, rfl⟩ := Prod.mk.inj hr
      obtain ⟨c, hc, hin⟩ := ih hcarve
      exact ⟨c, List.mem_cons_of_mem b hc, hin⟩

theorem mem_giveBack (hpos : ∀ c ∈ b :: bs, 0 < c.size) (hc : c ∈ giveBack b bs) :
    0 < c.size ∧ ∃ d ∈ b :: bs, c.start = d.start := by
  induction bs generalizing b with
  | nil =>
    obtain rfl := List.mem_singleton.1 hc
    exact ⟨hpos c List.mem_cons_self, c, List.mem_cons_self, rfl⟩
  | cons d ds ih =>
    have hb : 0 < b.size := hpos b List.mem_cons_self
    have hd : 0 < d.size := hpos d (by simp)
    have hds : ∀ c ∈ ds, 0 < c.size := fun c hc => hpos c (by simp [hc])
    rw [giveBack] at hc
    split at hc
    · obtain ⟨hsize, e, he, hstart⟩ :=
        ih (List.forall_mem_cons.2 ⟨Nat.add_pos_left hd _, hds⟩) hc
      rcases List.mem_cons.1 he with rfl | he
      · exact ⟨hsize, d, by simp, hstart⟩
      · exact ⟨hsize, e, by simp [he], hstart⟩
    · split at hc
      · rcases List.mem_cons.1 hc with rfl | hc
        · exact ⟨Nat.add_pos_left hb _, b, List.mem_cons_self, rfl⟩
        · exact ⟨hds c hc, c, by simp [hc], rfl⟩
      · split at hc
        · exact ⟨hpos c hc, c, hc, rfl⟩
        · rcases List.mem_cons.1 hc with rfl | hc
          · exact ⟨hd, c, by simp, rfl⟩
          · obtain ⟨hsize, e, he, hstart⟩ := ih (List.forall_mem_cons.2 ⟨hb, hds⟩) hc
            rcases List.mem_cons.1 he with rfl | he
            · exact ⟨hsize, e, List.mem_cons_self, hstart⟩
            · exact ⟨hsize, e, by simp [he], hstart⟩

/-! The order of the blocks. -/

def Sorted (bs : List HeapBlock) : Prop := bs.Pairwise fun b c => b.stop ≤ c.start

def Spaced (bs : List HeapBlock) : Prop := bs.Pairwise fun b c => b.stop < c.start

theorem Spaced.stop_ne (hs : Spaced bs) (hpos : ∀ b ∈ bs, 0 < b.size) (hb : b ∈ bs) (hc : c ∈ bs) :
    b.stop ≠ c.start := by
  induction bs with
  | nil => cases hb
  | cons d ds ih =>
    obtain ⟨hfirst, hrest⟩ := List.pairwise_cons.1 hs
    have hbpos := hpos b hb
    have hcpos := hpos c hc
    rcases List.mem_cons.1 hb with rfl | hb' <;> rcases List.mem_cons.1 hc with rfl | hc'
    · rw [HeapBlock.stop]
      omega
    · exact Nat.ne_of_lt (hfirst c hc')
    · have hlt := hfirst b hb'
      rw [HeapBlock.stop] at hlt ⊢
      omega
    · exact ih hrest (fun b hb => hpos b (List.mem_cons_of_mem d hb)) hb' hc'

theorem sorted_insertBlock (hs : Sorted bs) (hapart : ∀ c ∈ bs, b.Apart c)
    (hpos : ∀ c ∈ b :: bs, 0 < c.size) : Sorted (insertBlock b bs) := by
  induction bs with
  | nil => exact List.pairwise_singleton _ b
  | cons c cs ih =>
    obtain ⟨hfirst, hrest⟩ := List.pairwise_cons.1 hs
    have hbc := hapart c List.mem_cons_self
    have hb := hpos b List.mem_cons_self
    have hc := hpos c (by simp)
    rw [HeapBlock.Apart, HeapBlock.stop, HeapBlock.stop] at hbc
    rw [insertBlock]
    split
    · refine List.pairwise_cons.2 ⟨fun d hd => ?_, hs⟩
      rw [HeapBlock.stop]
      rcases List.mem_cons.1 hd with rfl | hd
      · omega
      · have hcd := hfirst d hd
        rw [HeapBlock.stop] at hcd
        omega
    · refine List.pairwise_cons.2 ⟨fun d hd => ?_, ih hrest (fun d hd => hapart d (by simp [hd]))
        fun d hd => hpos d ?_⟩
      · rcases mem_insertBlock.1 hd with rfl | hd
        · rw [HeapBlock.stop]
          omega
        · exact hfirst d hd
      · rcases List.mem_cons.1 hd with rfl | hd <;> simp [*]

theorem spaced_carve (hs : Spaced bs) (h : carve size bs = some (address, cs)) : Spaced cs := by
  induction bs generalizing cs with
  | nil => cases h
  | cons b bs ih =>
    obtain ⟨hfirst, hrest⟩ := List.pairwise_cons.1 hs
    rw [carve] at h
    split at h
    · obtain ⟨rfl, rfl⟩ := Prod.mk.inj (Option.some.inj h)
      split
      · refine List.pairwise_cons.2 ⟨fun c hc => ?_, hrest⟩
        have hbc := hfirst c hc
        rw [HeapBlock.stop] at hbc ⊢
        dsimp only
        omega
      · exact hrest
    · obtain ⟨⟨address', rest⟩, hcarve, hr⟩ := Option.map_eq_some_iff.1 h
      obtain ⟨rfl, rfl⟩ := Prod.mk.inj hr
      refine List.pairwise_cons.2 ⟨fun c hc => ?_, ih hrest hcarve⟩
      obtain ⟨d, hd, hstart, -⟩ := carve_start hcarve
      rcases mem_carve hcarve hc with hc | ⟨hc, -⟩
      · exact hfirst c hc
      · have hbd := hfirst d hd
        rw [hc]
        omega

theorem spaced_giveBack (hs : Spaced bs) (hapart : ∀ c ∈ bs, b.Apart c)
    (hpos : ∀ c ∈ b :: bs, 0 < c.size) : Spaced (giveBack b bs) := by
  induction bs generalizing b with
  | nil => exact List.pairwise_singleton _ b
  | cons c cs ih =>
    obtain ⟨hfirst, hrest⟩ := List.pairwise_cons.1 hs
    have hbc := hapart c List.mem_cons_self
    have hb : 0 < b.size := hpos b List.mem_cons_self
    have hc : 0 < c.size := hpos c (by simp)
    have hcs : ∀ d ∈ cs, 0 < d.size := fun d hd => hpos d (by simp [hd])
    simp only [HeapBlock.Apart, HeapBlock.stop] at hbc
    rw [giveBack]
    split
    · next htouch =>
      refine ih hrest (fun d hd => ?_) (List.forall_mem_cons.2 ⟨Nat.add_pos_left hc _, hcs⟩)
      -- The blocks behind `c` are behind `b` too, as none of them fits between the two.
      have hcd := hfirst d hd
      have hbd := hapart d (by simp [hd])
      have hd := hcs d hd
      simp only [HeapBlock.Apart, HeapBlock.stop] at hbd hcd htouch ⊢
      omega
    · next hleft =>
      split
      · next htouch =>
        refine List.pairwise_cons.2 ⟨fun d hd => ?_, hrest⟩
        have hcd := hfirst d hd
        simp only [HeapBlock.stop] at hcd htouch ⊢
        omega
      · next hright =>
        simp only [HeapBlock.stop] at hleft hright
        split
        · refine List.pairwise_cons.2 ⟨fun d hd => ?_, hs⟩
          rw [HeapBlock.stop]
          rcases List.mem_cons.1 hd with rfl | hd
          · omega
          · have hcd := hfirst d hd
            rw [HeapBlock.stop] at hcd
            omega
        · have hbcs : ∀ d ∈ b :: cs, 0 < d.size := List.forall_mem_cons.2 ⟨hb, hcs⟩
          refine List.pairwise_cons.2
            ⟨fun d hd => ?_, ih hrest (fun d hd => hapart d (by simp [hd])) hbcs⟩
          obtain ⟨-, e, he, hstart⟩ := mem_giveBack hbcs hd
          rw [hstart]
          rcases List.mem_cons.1 he with rfl | he
          · rw [HeapBlock.stop]
            omega
          · exact hfirst e he

/-! The invariant. -/

theorem manages_iff : h.manages a ↔ h.base ≤ a ∧ a < h.limit := by simp [manages]

structure Sound (h : Heap) : Prop where
  tiles : ∀ a, layers (h.live ++ h.free) a = if h.manages a then 1 else 0
  nonempty : ∀ b ∈ h.live ++ h.free, 0 < b.size
  sorted : Sorted h.live
  spaced : Spaced h.free
  aligned : ∀ b ∈ h.live ++ h.free, ∃ k, b.start = h.base + 4 * k
  whole : ∀ b ∈ h.live, 4 ∣ b.size

theorem Sound.layers_le (hs : h.Sound) (a : Nat) : layers (h.live ++ h.free) a ≤ 1 := by
  rw [hs.tiles]
  split <;> omega

theorem Sound.apart (hs : h.Sound) : (h.live ++ h.free).Pairwise HeapBlock.Apart :=
  pairwise_apart hs.nonempty hs.layers_le

theorem Sound.covers (hs : h.Sound) (a : Nat) :
    (∃ b ∈ h.live ++ h.free, b.start ≤ a ∧ a < b.stop) ↔ h.base ≤ a ∧ a < h.limit := by
  rw [← manages_iff]
  constructor
  · rintro ⟨b, hb, hstart, hstop⟩
    have hle := layer_le_layers (a := a) hb
    rw [HeapBlock.layer_of_mem hstart hstop, hs.tiles] at hle
    split at hle
    · assumption
    · cases hle
  · intro hin
    refine exists_of_layers_pos ?_
    rw [hs.tiles, if_pos hin]
    exact Nat.one_pos

theorem Sound.inside (hs : h.Sound) (hb : b ∈ h.live ++ h.free) :
    h.base ≤ b.start ∧ b.stop ≤ h.limit := by
  have hpos := hs.nonempty b hb
  have hfirst := (hs.covers b.start).1 ⟨b, hb, Nat.le_refl _, by rw [HeapBlock.stop]; omega⟩
  have hlast := (hs.covers (b.stop - 1)).1 ⟨b, hb, by rw [HeapBlock.stop]; omega,
    by rw [HeapBlock.stop]; omega⟩
  omega

theorem Sound.tidy (hs : h.Sound) : h.Tidy :=
  ⟨hs.sorted, fun _ hb => hs.inside (List.mem_append_left _ hb)⟩

theorem sound_empty {base limit : Nat} (hle : base ≤ limit) : (empty base limit).Sound := by
  have hmanages (a : Nat) : (empty base limit).manages a ↔ base ≤ a ∧ a < limit := manages_iff
  have hfree : (empty base limit).free = if base < limit then [⟨base, limit - base⟩] else [] := rfl
  split at hfree
  · next hlt =>
    have hstop : (⟨base, limit - base⟩ : HeapBlock).stop = limit := Nat.add_sub_cancel' hle
    refine ⟨fun a => ?_, ?_, .nil, ?_, ?_, nofun⟩
    all_goals rw [hfree]
    · show HeapBlock.layer _ a = _
      simp only [hmanages, HeapBlock.layer, hstop]
    · intro b hb
      obtain rfl := List.mem_singleton.1 hb
      exact Nat.sub_pos_of_lt hlt
    · exact List.pairwise_singleton _ _
    · intro b hb
      obtain rfl := List.mem_singleton.1 hb
      exact ⟨0, rfl⟩
  · refine ⟨fun a => ?_, ?_, .nil, ?_, ?_, nofun⟩
    all_goals rw [hfree]
    · rw [if_neg (by rw [hmanages]; omega)]
      rfl
    · nofun
    · exact .nil
    · nofun

theorem allocate_ok (h₁ : h.allocate size = .ok (address, h')) :
    ∃ free, rounded size < UInt32.size ∧ carve (rounded size) h.free = some (address, free) ∧
      h' = { h with
        live := insertBlock ⟨address, rounded size⟩ h.live
        free
        stats := { h.stats with
          allocations := h.stats.allocations + 1
          liveRecords := h.stats.liveRecords + 1
          liveBytes := h.stats.liveBytes + rounded size
          peakLiveRecords := max h.stats.peakLiveRecords (h.stats.liveRecords + 1) } } := by
  simp only [allocate] at h₁
  split at h₁
  · cases h₁
  · split at h₁
    · cases h₁
    · next hsize _ _ free hcarve =>
      obtain ⟨rfl, rfl⟩ := Prod.mk.inj (Except.ok.inj h₁)
      exact ⟨free, by omega, hcarve, rfl⟩

theorem deallocate_ok (h₁ : h.deallocate address = .ok h') :
    ∃ b ∈ h.live, b.start = address ∧ h' = { h with
      live := h.live.filter (·.start != address)
      free := giveBack b h.free
      stats := { h.stats with
        deallocations := h.stats.deallocations + 1
        liveRecords := h.stats.liveRecords - 1
        liveBytes := h.stats.liveBytes - b.size } } := by
  simp only [deallocate] at h₁
  split at h₁
  · cases h₁
  · next b hfind =>
    obtain rfl := Except.ok.inj h₁
    have hstart := List.find?_some hfind
    exact ⟨b, List.mem_of_find?_eq_some hfind, by simpa using hstart, rfl⟩

theorem Sound.filter_live (hs : h.Sound) (hb : b ∈ h.live) :
    ∃ pre post, h.live = pre ++ b :: post ∧ h.live.filter (·.start != b.start) = pre ++ post := by
  obtain ⟨pre, post, heq⟩ := List.append_of_mem hb
  have hsorted : Sorted (pre ++ b :: post) := heq ▸ hs.sorted
  obtain ⟨-, hpost, hpre⟩ := List.pairwise_append.1 hsorted
  have hpos : ∀ c ∈ pre ++ b :: post, 0 < c.size := fun c hc =>
    hs.nonempty c (List.mem_append_left _ (heq ▸ hc))
  have hbpos : 0 < b.size := hpos b (by simp)
  have hbefore : ∀ c ∈ pre, (c.start != b.start) = true := by
    intro c hc
    have hle := hpre c hc b List.mem_cons_self
    have hcpos := hpos c (by simp [hc])
    rw [HeapBlock.stop] at hle
    exact bne_iff_ne.2 (by omega)
  have hbehind : ∀ c ∈ post, (c.start != b.start) = true := by
    intro c hc
    have hle := (List.pairwise_cons.1 hpost).1 c hc
    rw [HeapBlock.stop] at hle
    exact bne_iff_ne.2 (by omega)
  refine ⟨pre, post, heq, ?_⟩
  rw [heq, List.filter_append, List.filter_cons_of_neg (by simp), List.filter_eq_self.2 hbefore,
    List.filter_eq_self.2 hbehind]

theorem Sound.allocate (hs : h.Sound) (h₁ : h.allocate size = .ok (address, h')) : h'.Sound := by
  obtain ⟨free, -, hcarve, rfl⟩ := allocate_ok h₁
  obtain ⟨from', hfrom, hstart, -⟩ := carve_start hcarve
  obtain ⟨k, hk⟩ := hs.aligned from' (List.mem_append_right _ hfrom)
  have hwhole : 4 ∣ rounded size := Nat.dvd_mul_left 4 _
  have hnew : 0 < rounded size := rounded_pos size
  have htiles : ∀ a, HeapBlock.layer ⟨address, rounded size⟩ a + layers (h.live ++ free) a
      = layers (h.live ++ h.free) a := by
    intro a
    rw [layers_append, layers_append, layers_carve hcarve]
    omega
  -- The new block is apart from the live ones, as no address may lie in two blocks.
  have hnonempty : ∀ b ∈ ⟨address, rounded size⟩ :: (h.live ++ free), 0 < b.size := by
    intro b hb
    rcases List.mem_cons.1 hb with rfl | hb
    · exact hnew
    rcases List.mem_append.1 hb with hb | hb
    · exact hs.nonempty b (List.mem_append_left _ hb)
    · rcases mem_carve hcarve hb with hb | ⟨-, hpos⟩
      · exact hs.nonempty b (List.mem_append_right _ hb)
      · exact hpos
  have hapart : (⟨address, rounded size⟩ :: (h.live ++ free)).Pairwise HeapBlock.Apart :=
    pairwise_apart hnonempty fun a => by
      rw [layers_cons, htiles]
      exact hs.layers_le a
  have hlive : ∀ b ∈ insertBlock ⟨address, rounded size⟩ h.live ++ free,
      b ∈ ⟨address, rounded size⟩ :: (h.live ++ free) := by
    intro b hb
    rw [List.mem_append, mem_insertBlock] at hb
    rwa [List.mem_cons, List.mem_append, ← or_assoc]
  refine ⟨fun a => ?_, fun b hb => hnonempty b (hlive b hb), ?_, spaced_carve hs.spaced hcarve,
    fun b hb => ?_, fun b hb => ?_⟩
  · show layers (insertBlock _ h.live ++ free) a = if h.manages a then 1 else 0
    rw [← hs.tiles, ← htiles, layers_append, layers_insertBlock, layers_append]
    omega
  · refine sorted_insertBlock hs.sorted (fun c hc => ?_) fun c hc => hnonempty c ?_
    · exact (List.pairwise_cons.1 hapart).1 c (List.mem_append_left _ hc)
    · exact (List.cons_subset_cons _ (List.subset_append_left _ _)) hc
  · show ∃ k, b.start = h.base + 4 * k
    rcases List.mem_cons.1 (hlive b hb) with rfl | hb
    · exact ⟨k, hstart.symm.trans hk⟩
    rcases List.mem_append.1 hb with hb | hb
    · exact hs.aligned b (List.mem_append_left _ hb)
    · rcases mem_carve hcarve hb with hb | ⟨hb, -⟩
      · exact hs.aligned b (List.mem_append_right _ hb)
      · obtain ⟨n, hn⟩ := hwhole
        exact ⟨k + n, by omega⟩
  · rcases mem_insertBlock.1 hb with rfl | hb
    · exact hwhole
    · exact hs.whole b hb

theorem Sound.deallocate (hs : h.Sound) (h₁ : h.deallocate address = .ok h') : h'.Sound := by
  obtain ⟨b, hb, rfl, rfl⟩ := deallocate_ok h₁
  obtain ⟨pre, post, heq, hfilter⟩ := hs.filter_live hb
  have hkept : ∀ c ∈ h.live.filter (·.start != b.start), c ∈ h.live := fun c hc =>
    (List.mem_filter.1 hc).1
  have hpos : ∀ c ∈ b :: h.free, 0 < c.size := by
    intro c hc
    rcases List.mem_cons.1 hc with rfl | hc
    · exact hs.nonempty c (List.mem_append_left _ hb)
    · exact hs.nonempty c (List.mem_append_right _ hc)
  refine ⟨fun a => ?_, fun c hc => ?_, hs.sorted.filter _, ?_, fun c hc => ?_, fun c hc => ?_⟩
  · show layers (h.live.filter _ ++ giveBack b h.free) a = if h.manages a then 1 else 0
    rw [← hs.tiles, hfilter, heq]
    simp only [layers_append, layers_giveBack, layers_cons]
    omega
  · rcases List.mem_append.1 hc with hc | hc
    · exact hs.nonempty c (List.mem_append_left _ (hkept c hc))
    · exact (mem_giveBack hpos hc).1
  · refine spaced_giveBack hs.spaced (fun c hc => ?_) hpos
    exact (List.pairwise_append.1 hs.apart).2.2 b hb c hc
  · show ∃ k, c.start = h.base + 4 * k
    rcases List.mem_append.1 hc with hc | hc
    · exact hs.aligned c (List.mem_append_left _ (hkept c hc))
    · obtain ⟨-, d, hd, hstart⟩ := mem_giveBack hpos hc
      rw [hstart]
      rcases List.mem_cons.1 hd with rfl | hd
      · exact hs.aligned d (List.mem_append_left _ hb)
      · exact hs.aligned d (List.mem_append_right _ hd)
  · exact hs.whole c (hkept c hc)

end Heap
end IntervalStack
