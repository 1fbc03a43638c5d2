import IntervalStack.Proofs.Building.Context
import IntervalStack.Proofs.Frames.Params

/-! Bindings side by side: the parameters of a routine above its frame pointer, and the members of a
struct behind the header of its records. -/

namespace IntervalStack

open Builder (byteLimit)

namespace Binding

def Tiles : Int → List Binding → Int → Prop
  | lo, [], hi => lo = hi
  | lo, x :: xs, hi => x.start = lo ∧ Tiles x.stop xs hi

variable {lo hi : Int} {x : Binding} {xs : List Binding}

theorem Tiles.concat (h : Tiles lo xs hi) (hx : x.start = hi) : Tiles lo (xs ++ [x]) x.stop := by
  induction xs generalizing lo with
  | nil => exact ⟨hx.trans (Eq.symm h), rfl⟩
  | cons y ys ih => exact ⟨h.1, ih h.2⟩

theorem Tiles.bounds (h : Tiles lo xs hi) : lo ≤ hi ∧ ∀ x ∈ xs, lo ≤ x.start ∧ x.stop ≤ hi := by
  induction xs generalizing lo with
  | nil => exact ⟨Int.le_of_eq h, nofun⟩
  | cons y ys ih =>
    obtain ⟨hstart, htail⟩ := h
    obtain ⟨hle, hbounds⟩ := ih htail
    have hstop : y.start ≤ y.stop := Int.le_add_of_nonneg_right (Int.natCast_nonneg _)
    refine ⟨by omega, List.forall_mem_cons.2 ⟨⟨by omega, hle⟩, fun x hx => ?_⟩⟩
    have := hbounds x hx
    omega

theorem Tiles.pairwise (h : Tiles lo xs hi) : xs.Pairwise fun x y => x.stop ≤ y.start := by
  induction xs generalizing lo with
  | nil => exact .nil
  | cons y ys ih => exact .cons (fun x hx => (h.2.bounds.2 x hx).1) (ih h.2)

end Binding

open Binding (Tiles)

/-! Parameters. -/

/-- The declared parameters fill the bytes from the frame pointer upward, the first one highest and
the last one at it. -/
def Function.Stacked (f : Function) : Prop :=
  (∃ n, f.paramsSize = .ok n ∧ Tiles 0 f.params.reverse n.toNat) ∧
    ∀ x ∈ f.params, x.storage = .aboveFrame x.storage.offset

namespace Frame

variable {params : List (String × Ty)}

theorem tiles_placed (h : declaredSize params < 2 ^ 31) :
    Tiles 0 (placed params).reverse (declaredSize params) := by
  induction params with
  | nil => rfl
  | cons p params ih =>
    obtain ⟨name, ty⟩ := p
    rw [declaredSize_cons] at h ⊢
    have hstart : Binding.start ⟨name, ty, .aboveFrame (Int32.ofNat (declaredSize params))⟩
        = declaredSize params := Word.toInt_ofNat (by omega)
    have htiles := (ih (by omega)).concat hstart
    rwa [Binding.stop, hstart, ← Int.natCast_add, Nat.add_comm, ← List.reverse_cons] at htiles

theorem storage_placed {x : Binding} (hx : x ∈ placed params) :
    x.storage = .aboveFrame x.storage.offset := by
  induction params with
  | nil => cases hx
  | cons p params ih =>
    rcases List.mem_cons.1 hx with rfl | hx
    · rfl
    · exact ih hx

theorem stacked_of_placed {f : Function} (hf : f.params = placed params)
    (h : declaredSize params < byteLimit) : f.Stacked := by
  have hlimit : byteLimit = 2 ^ 31 - 16 := rfl
  have hsize : declaredSize params < UInt32.size := Nat.lt_trans h (by decide)
  refine ⟨⟨_, paramsSize_eq hf hsize, ?_⟩, fun x hx => storage_placed (hf ▸ hx)⟩
  rw [hf, UInt32.toNat_ofNat_of_lt' hsize]
  exact tiles_placed (by omega)

end Frame

/-! Members. -/

namespace StructDef

variable {d : StructDef}

/-- The members fill the bytes behind the header and the own address of a record, in the order in
which they are declared. -/
structure Laid (d : StructDef) : Prop where
  tiles : Tiles 16 d.members (16 + d.memberArea.toNat)
  storage : ∀ x ∈ d.members, x.storage = .member x.storage.offset

/-- The slot is that of one member, behind the own address of the record and apart from every other
member. -/
def HoldsApart (d : StructDef) (slot : Int32) : Prop :=
  Layout.selfOffset.toInt + Layout.pointerSize.toNat ≤ slot.toInt ∧
    ∃ before x after, d.members = before ++ x :: after ∧ x.start = slot.toInt ∧
      x.stop = slot.toInt + Layout.pointerSize.toNat ∧ ∀ y ∈ before ++ after, x.Apart y

theorem Laid.add (h : d.Laid) {name : String} {ty : Ty} {offset area : UInt32}
    (hoffset : offset.toNat = 16 + d.memberArea.toNat)
    (harea : area.toNat = d.memberArea.toNat + ty.size.toNat) (hlt : area.toNat < byteLimit) :
    Laid { d with
      memberArea := area, members := d.members ++ [⟨name, ty, .member offset.toInt32⟩] } := by
  have hlimit : byteLimit = 2 ^ 31 - 16 := rfl
  have hstart : Binding.start ⟨name, ty, .member offset.toInt32⟩ = 16 + d.memberArea.toNat := by
    show offset.toInt32.toInt = _
    rw [Word.toInt_toInt32, if_pos (by omega)]
    omega
  constructor
  · have htiles := h.tiles.concat hstart
    rwa [Binding.stop, hstart, Int.add_assoc, ← Int.natCast_add, ← harea] at htiles
  · exact List.forall_mem_append.2 ⟨h.storage, List.forall_mem_singleton.2 rfl⟩

theorem Laid.holdsApart (h : d.Laid) {l : StructLayout} (hl : StructLayout.ofDef d = .ok l)
    {slot : Int32} (hslot : slot ∈ l.referenceSlots) : d.HoldsApart slot := by
  obtain ⟨typeCode, -, hl⟩ := Word.bind_eq_ok_iff.1 hl
  obtain ⟨size, -, hl⟩ := Word.bind_eq_ok_iff.1 hl
  obtain rfl := Except.ok.inj hl
  obtain ⟨x, hx, hslot⟩ := List.mem_filterMap.1 hslot
  obtain ⟨hheap, hstorage⟩ : x.ty.isHeap = true ∧ x.storage = .member slot := by
    unfold StructLayout.referenceSlot? at hslot
    grind
  have hstart : x.start = slot.toInt := by rw [Binding.start, hstorage, Storage.offset]
  obtain ⟨before, after, hmembers⟩ := List.append_of_mem hx
  refine ⟨?_, before, x, after, hmembers, hstart, ?_, ?_⟩
  · rw [← hstart]
    exact (h.tiles.bounds.2 x hx).1
  · rw [Binding.stop, hstart, Ty.size_of_isHeap hheap]
    rfl
  · have hordered := h.tiles.pairwise
    rw [hmembers, List.pairwise_append, List.pairwise_cons] at hordered
    obtain ⟨-, ⟨hafter, -⟩, hbefore⟩ := hordered
    intro y hy
    rcases List.mem_append.1 hy with hy | hy
    · exact .inr (hbefore y hy x List.mem_cons_self)
    · exact .inl (hafter y hy)

end StructDef
end IntervalStack
