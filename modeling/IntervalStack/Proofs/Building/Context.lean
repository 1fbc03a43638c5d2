import IntervalStack.Proofs.Words
import IntervalStack.Tree.Builder

/-! The storage that one context gives out. Every binding of an open block stands in bytes that were
given out before the block inside it was opened, so that closing the inner one gives back nothing
that an open block still holds. -/

namespace IntervalStack

namespace Word

theorem exists_negateSigned {n : UInt32} (h : n.toNat < 2 ^ 31) :
    ∃ o, negateSigned n.toInt32 = .ok o ∧ o.toInt = -n.toNat := by
  have hint : n.toInt32.toInt = n.toNat := by rw [toInt_toInt32, if_pos h]
  refine ⟨-n.toInt32, ?_, ?_⟩
  · rw [negateSigned, if_pos]
    simp only [fitsSigned, hint, Bool.and_eq_true, decide_eq_true_eq]
    omega
  · rw [Int32.toInt_neg, hint, Int.bmod_eq_of_le (by omega) (by omega)]

theorem toNat_max (a b : UInt32) : (max a b).toNat = max a.toNat b.toNat := by
  show (if a ≤ b then b else a).toNat = _
  simp only [Nat.max_def, UInt32.le_iff_toNat_le]
  split <;> rfl

end Word

namespace Binding

def start (x : Binding) : Int := x.storage.offset.toInt

def stop (x : Binding) : Int := x.start + x.ty.size.toNat

def Apart (x y : Binding) : Prop := x.stop ≤ y.start ∨ y.stop ≤ x.start

/-- The binding is a local, below the two words at the top of its frame, and stands in the bytes
from `lo` to `hi`, which are counted downward. -/
def InFrame (lo hi : Nat) (x : Binding) : Prop :=
  x.storage = .belowFrame x.storage.offset ∧ -8 - hi ≤ x.start ∧ x.stop ≤ -8 - lo

/-- The binding is a global in the bytes from `lo` to `hi`. -/
def InGlobals (lo hi : Nat) (x : Binding) : Prop :=
  x.storage = .global x.storage.offset ∧ lo ≤ x.start ∧ x.stop ≤ hi

theorem Apart.symm {x y : Binding} (h : x.Apart y) : y.Apart x := Or.symm h

instance {x y : Binding} : Decidable (x.Apart y) := inferInstanceAs (Decidable (_ ∨ _))

instance {lo hi : Nat} {x : Binding} : Decidable (x.InFrame lo hi) :=
  inferInstanceAs (Decidable (_ ∧ _))

end Binding

/-! The bindings of all scopes of a tree. -/

mutual

def Block.bindings : Block → List Binding
  | ⟨scope, body⟩ => scope.bindings ++ LocatedStmt.bindingsOf body

def LocatedStmt.bindingsOf : List LocatedStmt → List Binding
  | [] => []
  | s :: ss => s.bindings ++ LocatedStmt.bindingsOf ss

def LocatedStmt.bindings : LocatedStmt → List Binding
  | ⟨node, _⟩ => node.bindings

def Stmt.bindings : Stmt → List Binding
  | .ifElse _ yes none => yes.bindings
  | .ifElse _ yes (some no) => yes.bindings ++ no.bindings
  | .loop _ body => body.bindings
  | .block b => b.bindings
  | .declaration _ _ | .update _ _ | .print _ _ _ | .leave | .ret _ | .call _ => []

end

@[simp] theorem LocatedStmt.bindingsOf_append (ss ss' : List LocatedStmt) :
    LocatedStmt.bindingsOf (ss ++ ss')
      = LocatedStmt.bindingsOf ss ++ LocatedStmt.bindingsOf ss' := by
  induction ss with
  | nil => rfl
  | cons s ss ih => rw [List.cons_append, bindingsOf, ih, bindingsOf, List.append_assoc]

namespace Builder

def byteLimit : Nat := 2 ^ 31 - 16

namespace Target

/-- The binding stands in the bytes from `lo` to `hi` in the order in which the target gives them
out. -/
def Spans (t : Target) (lo hi : Nat) (x : Binding) : Prop :=
  if t.isFrame then x.InFrame lo hi else x.InGlobals lo hi

variable {t : Target} {lo mid hi lo' hi' : Nat} {x y : Binding}

theorem spans_iff_inFrame (ht : t.isFrame = true) : t.Spans lo hi x ↔ x.InFrame lo hi := by
  rw [Spans, if_pos ht]

theorem spans_iff_inGlobals (ht : t.isFrame = false) : t.Spans lo hi x ↔ x.InGlobals lo hi := by
  rw [Spans, ht, if_neg Bool.false_ne_true]

theorem Spans.mono (h : t.Spans lo hi x) (hlo : lo' ≤ lo) (hhi : hi ≤ hi') : t.Spans lo' hi' x := by
  cases ht : t.isFrame with
  | true =>
    rw [spans_iff_inFrame ht] at h ⊢
    exact ⟨h.1, by have := h.2.1; omega, by have := h.2.2; omega⟩
  | false =>
    rw [spans_iff_inGlobals ht] at h ⊢
    exact ⟨h.1, by have := h.2.1; omega, by have := h.2.2; omega⟩

theorem Spans.apart (hx : t.Spans lo mid x) (hy : t.Spans mid hi y) : y.Apart x := by
  cases ht : t.isFrame with
  | true =>
    rw [spans_iff_inFrame ht] at hx hy
    exact .inl (Int.le_trans hy.2.2 hx.2.1)
  | false =>
    rw [spans_iff_inGlobals ht] at hx hy
    exact .inr (Int.le_trans hx.2.2 hy.2.1)

end Target

namespace Context

variable {c : Context}

def live (c : Context) : List Binding := c.blocks.flatMap (·.block.scope.bindings)

/-- What all scopes in the open blocks hold, those of inner statements too. -/
def bindings (c : Context) : List Binding := c.blocks.flatMap (·.block.bindings)

/-- The marks do not grow outward, and each block holds what was given out before the next inner one
was opened. -/
def Nested (t : Target) : Nat → List OpenBlock → Prop
  | _, [] => True
  | used, b :: bs =>
    b.mark.toNat ≤ used ∧ (∀ x ∈ b.block.scope.bindings, t.Spans 0 used x) ∧
      Nested t b.mark.toNat bs

theorem Nested.mono {t : Target} {used used' : Nat} {bs : List OpenBlock} (h : Nested t used bs)
    (hle : used ≤ used') : Nested t used' bs := by
  cases bs with
  | nil => trivial
  | cons b bs =>
    obtain ⟨hmark, hheld, houter⟩ := h
    exact ⟨Nat.le_trans hmark hle, fun x hx => (hheld x hx).mono (Nat.le_refl _) hle, houter⟩

theorem Nested.mark_le {t : Target} {used : Nat} {bs : List OpenBlock} (h : Nested t used bs) :
    ∀ b ∈ bs, b.mark.toNat ≤ used := by
  induction bs generalizing used with
  | nil => nofun
  | cons b bs ih =>
    obtain ⟨hmark, -, houter⟩ := h
    exact List.forall_mem_cons.2 ⟨hmark, fun b' hb' => Nat.le_trans (ih houter b' hb') hmark⟩

theorem Nested.spans {t : Target} {used : Nat} {bs : List OpenBlock} (h : Nested t used bs) :
    ∀ x ∈ bs.flatMap (·.block.scope.bindings), t.Spans 0 used x := by
  induction bs generalizing used with
  | nil => nofun
  | cons b bs ih =>
    obtain ⟨hmark, hheld, houter⟩ := h
    rw [List.flatMap_cons]
    exact List.forall_mem_append.2
      ⟨hheld, fun x hx => (ih houter x hx).mono (Nat.le_refl _) hmark⟩

/-! Changes to the innermost block. -/

@[simp] theorem target_editBlock (edit : Block → Block) : (c.editBlock edit).target = c.target := by
  unfold editBlock
  split <;> rfl

@[simp] theorem used_editBlock (edit : Block → Block) : (c.editBlock edit).used = c.used := by
  unfold editBlock
  split <;> rfl

@[simp] theorem peak_editBlock (edit : Block → Block) : (c.editBlock edit).peak = c.peak := by
  unfold editBlock
  split <;> rfl

theorem Nested.editBlock {edit : Block → Block} (h : Nested c.target c.used.toNat c.blocks)
    (hedit : ∀ b : Block, (∀ x ∈ b.scope.bindings, c.target.Spans 0 c.used.toNat x) →
      ∀ x ∈ (edit b).scope.bindings, c.target.Spans 0 c.used.toNat x) :
    Nested c.target c.used.toNat (c.editBlock edit).blocks := by
  unfold Context.editBlock
  split
  · exact ⟨Nat.le_refl _, hedit _ nofun, trivial⟩
  · next b bs hblocks =>
    rw [hblocks] at h
    obtain ⟨hmark, hheld, houter⟩ := h
    exact ⟨hmark, hedit _ hheld, houter⟩

theorem live_addBinding (x : Binding) : (c.addBinding x).live.Perm (x :: c.live) := by
  unfold addBinding editBlock live
  split
  · next hblocks => simp [hblocks, Block.empty, Scope.empty]
  · next b bs hblocks =>
    rw [hblocks, List.flatMap_cons, List.flatMap_cons, List.append_assoc, List.singleton_append]
    exact List.perm_middle

theorem live_addStmt (s : Stmt) : (c.addStmt s).live = c.live := by
  unfold addStmt editBlock live
  split
  · next hblocks => simp [hblocks, Block.empty, Scope.empty]
  · next b bs hblocks => simp [hblocks]

theorem mem_bindings_addBinding {x y : Binding} :
    y ∈ (c.addBinding x).bindings ↔ y = x ∨ y ∈ c.bindings := by
  unfold addBinding editBlock bindings
  split
  · next hblocks => simp [hblocks, Block.empty, Scope.empty, Block.bindings, LocatedStmt.bindingsOf]
  · next b bs hblocks =>
    obtain ⟨⟨scope, body⟩, mark⟩ := b
    simp only [hblocks, Block.bindings, List.flatMap_cons, List.mem_append, List.mem_singleton]
    grind

theorem mem_bindings_addStmt {s : Stmt} {y : Binding} :
    y ∈ (c.addStmt s).bindings ↔ y ∈ c.bindings ∨ y ∈ s.bindings := by
  unfold addStmt editBlock bindings
  split
  · next hblocks =>
    simp [hblocks, Block.empty, Scope.empty, Block.bindings, LocatedStmt.bindingsOf,
      LocatedStmt.bindings]
  · next b bs hblocks =>
    obtain ⟨⟨scope, body⟩, mark⟩ := b
    simp only [hblocks, Block.bindings, List.flatMap_cons, List.mem_append,
      LocatedStmt.bindingsOf_append, LocatedStmt.bindingsOf, LocatedStmt.bindings,
      List.append_nil]
    grind

/-! Closing blocks. -/

theorem exists_sealBlock {b : OpenBlock} {used : UInt32} (h : b.mark.toNat ≤ used.toNat) :
    ∃ k, sealBlock b used = .ok k ∧ k.bindings = b.block.bindings := by
  have hsize : Word.subtract used b.mark = .ok (used - b.mark) :=
    Word.subtract_eq_ok_iff.2 ⟨UInt32.le_iff_toNat_le.2 h, rfl⟩
  refine ⟨_, Word.bind_eq_ok_iff.2 ⟨_, hsize, rfl⟩, ?_⟩
  obtain ⟨⟨scope, body⟩, mark⟩ := b
  rfl

theorem exists_sealBlock_empty (used : UInt32) :
    ∃ k, sealBlock ⟨.empty, 0⟩ used = .ok k ∧ k.bindings = [] :=
  exists_sealBlock (b := ⟨.empty, 0⟩) (Nat.zero_le _)

theorem exists_foldBlocks {t : Target} {used : UInt32} {b : OpenBlock} {bs : List OpenBlock}
    (h : Nested t used.toNat (b :: bs)) : ∃ k, foldBlocks used b bs = .ok k ∧
      ∀ x ∈ k.bindings, x ∈ (b :: bs).flatMap (·.block.bindings) := by
  induction bs generalizing used b with
  | nil =>
    obtain ⟨k, hk, hbindings⟩ := exists_sealBlock h.1
    exact ⟨k, hk, by simp [hbindings]⟩
  | cons outer bs ih =>
    obtain ⟨hmark, -, houter⟩ := h
    obtain ⟨inner, hinner, hbindings⟩ := exists_sealBlock hmark
    -- the statement that goes into the outer block leaves its scope as it was
    obtain ⟨k, hk, hmem⟩ := @ih b.mark { outer with block := { outer.block with
      stmts := outer.block.stmts ++ [⟨.block inner, .none⟩] } } houter
    refine ⟨k, Word.bind_eq_ok_iff.2 ⟨inner, hinner, hk⟩, fun x hx => ?_⟩
    obtain ⟨⟨scope, body⟩, mark⟩ := outer
    have hx := hmem x hx
    simp only [List.flatMap_cons, Block.bindings, LocatedStmt.bindingsOf_append,
      LocatedStmt.bindingsOf, LocatedStmt.bindings, Stmt.bindings, hbindings, List.mem_append,
      List.append_nil] at hx ⊢
    grind

/-! What holds of a context between two calls. -/

/-- The bytes in use are in order. `given` is all that the context has given out so far; with `own`,
no block of another context was placed in it. -/
structure Sound (own : Prop) (c : Context) (given : List Binding) : Prop where
  nested : Nested c.target c.used.toNat c.blocks
  used_le : c.used.toNat ≤ c.peak.toNat
  peak_lt : c.peak.toNat < byteLimit
  apart : c.live.Pairwise Binding.Apart
  within : ∀ x ∈ given, c.target.Spans 0 c.peak.toNat x
  filled : own → ∀ x ∈ c.bindings, x ∈ given

variable {own : Prop} {given : List Binding}

theorem sound_new (t : Target) : (new t).Sound own [] where
  nested := ⟨Nat.le_refl _, nofun, trivial⟩
  used_le := Nat.le_refl _
  peak_lt := show 0 < byteLimit by decide
  apart := .nil
  within := nofun
  filled := fun _ => nofun

theorem Sound.addStmt (h : c.Sound own given) {s : Stmt}
    (hown : own → ∀ x ∈ s.bindings, x ∈ given) : (c.addStmt s).Sound own given where
  nested := by
    rw [Context.addStmt, target_editBlock, used_editBlock]
    exact h.nested.editBlock fun _ hheld => hheld
  used_le := by simpa [Context.addStmt] using h.used_le
  peak_lt := by simpa [Context.addStmt] using h.peak_lt
  apart := by
    rw [live_addStmt]
    exact h.apart
  within := by simpa [Context.addStmt] using h.within
  filled := fun ho x hx => (mem_bindings_addStmt.1 hx).elim (h.filled ho x) (hown ho x)

theorem Sound.openBlock (h : c.Sound own given) : c.openBlock.Sound own given where
  nested := ⟨Nat.le_refl _, nofun, h.nested⟩
  used_le := h.used_le
  peak_lt := h.peak_lt
  apart := h.apart
  within := h.within
  filled := h.filled

theorem Sound.closeBlock (h : c.Sound own given) : ∃ k c', c.closeBlock = .ok (k, c') ∧
    c'.target = c.target ∧ c'.Sound own given ∧ (own → ∀ x ∈ k.bindings, x ∈ given) := by
  have hnested := h.nested
  have happart := h.apart
  have hfilled := h.filled
  unfold Context.closeBlock
  split
  · next hblocks =>
    obtain ⟨k, hk, hbindings⟩ := exists_sealBlock_empty c.used
    refine ⟨k, _, Word.bind_eq_ok_iff.2 ⟨k, hk, rfl⟩, rfl, ?_, fun _ => by simp [hbindings]⟩
    exact ⟨by simp [hblocks, Nested], Nat.zero_le _, h.peak_lt, happart, h.within, hfilled⟩
  · next b bs hblocks =>
    simp only [hblocks, live, bindings, List.flatMap_cons] at hnested happart hfilled
    obtain ⟨k, hk, hbindings⟩ := exists_sealBlock hnested.1
    refine ⟨k, _, Word.bind_eq_ok_iff.2 ⟨k, hk, rfl⟩, rfl, ?_, fun ho x hx => ?_⟩
    · exact ⟨hnested.2.2, Nat.le_trans hnested.1 h.used_le, h.peak_lt,
        (List.pairwise_append.1 happart).2.1, h.within,
        fun ho x hx => hfilled ho x (List.mem_append_right _ hx)⟩
    · exact hfilled ho x (List.mem_append_left _ (hbindings ▸ hx))

theorem Sound.closeAll (h : c.Sound own given) :
    ∃ k, c.closeAll = .ok k ∧ (own → ∀ x ∈ k.bindings, x ∈ given) := by
  have hnested := h.nested
  have hfilled := h.filled
  unfold Context.closeAll
  split
  · next hblocks =>
    obtain ⟨k, hk, hbindings⟩ := exists_sealBlock_empty c.used
    exact ⟨k, hk, fun _ => by simp [hbindings]⟩
  · next b bs hblocks =>
    rw [hblocks] at hnested
    obtain ⟨k, hk, hmem⟩ := exists_foldBlocks hnested
    refine ⟨k, hk, fun ho x hx => hfilled ho x ?_⟩
    rw [bindings, hblocks]
    exact hmem x hx

/-! Giving out. -/

theorem exists_allocate (name : String) (ty : Ty)
    (hfits : c.used.toNat + ty.size.toNat < byteLimit) : ∃ storage c',
      c.allocate ty.size = .ok (storage, c') ∧ c'.target = c.target ∧ c'.blocks = c.blocks ∧
      c'.used.toNat = c.used.toNat + ty.size.toNat ∧
      c'.peak.toNat = max c.peak.toNat c'.used.toNat ∧
      c.target.Spans c.used.toNat c'.used.toNat ⟨name, ty, storage⟩ := by
  have hlimit : byteLimit = 2 ^ 31 - 16 := rfl
  obtain ⟨used, hused⟩ : ∃ used, Word.add c.used ty.size = .ok used :=
    Word.exists_add_iff.2 (by omega)
  have husedNat := Word.toNat_of_add hused
  cases ht : c.target.isFrame with
  | true =>
    have hheader : Frame.headerSize.toNat = 8 := rfl
    obtain ⟨above, habove⟩ : ∃ above, Word.add Frame.headerSize c.used = .ok above :=
      Word.exists_add_iff.2 (by omega)
    have haboveNat := Word.toNat_of_add habove
    obtain ⟨extent, hextent⟩ : ∃ extent, Word.add above ty.size = .ok extent :=
      Word.exists_add_iff.2 (by omega)
    have hextentNat := Word.toNat_of_add hextent
    obtain ⟨offset, hoffset, hoffsetInt⟩ :=
      Word.exists_negateSigned (show extent.toNat < 2 ^ 31 by omega)
    refine ⟨.belowFrame offset, { c with used, peak := max c.peak used }, ?_, rfl, rfl, husedNat,
      Word.toNat_max _ _, ?_⟩
    · simp only [allocate, ht, if_true, habove, hextent, hoffset, hused, bind, Except.bind, pure,
        Except.pure]
    · rw [Target.spans_iff_inFrame ht]
      refine ⟨rfl, ?_, ?_⟩
      · show -8 - (used.toNat : Int) ≤ offset.toInt
        omega
      · show offset.toInt + ty.size.toNat ≤ -8 - (c.used.toNat : Int)
        omega
  | false =>
    have hoffset : c.used.toInt32.toInt = c.used.toNat := by
      rw [Word.toInt_toInt32, if_pos (by omega)]
    refine ⟨.global c.used.toInt32, { c with used, peak := max c.peak used }, ?_, rfl, rfl,
      husedNat, Word.toNat_max _ _, ?_⟩
    · simp only [allocate, ht, Bool.false_eq_true, if_false, hused, bind, Except.bind, pure,
        Except.pure]
    · rw [Target.spans_iff_inGlobals ht]
      refine ⟨rfl, Int.le_of_eq hoffset.symm, ?_⟩
      show c.used.toInt32.toInt + ty.size.toNat ≤ used.toNat
      omega

theorem Sound.declare (h : c.Sound own given) (name : String) (ty : Ty)
    (hfits : c.used.toNat + ty.size.toNat < byteLimit) : ∃ storage c',
      c.allocate ty.size = .ok (storage, c') ∧ c'.target = c.target ∧
      (∀ y ∈ c.live, Binding.Apart ⟨name, ty, storage⟩ y) ∧
      c.target.Spans c.used.toNat c'.used.toNat ⟨name, ty, storage⟩ ∧
      (c'.addBinding ⟨name, ty, storage⟩).Sound own (⟨name, ty, storage⟩ :: given) := by
  obtain ⟨storage, c', hallocate, htarget, hblocks, hused, hpeak, hspans⟩ :=
    exists_allocate name ty hfits
  have hle : c.used.toNat ≤ c'.used.toNat := by omega
  have happart : ∀ y ∈ c.live, Binding.Apart ⟨name, ty, storage⟩ y := fun y hy =>
    (h.nested.spans y hy).apart hspans
  have hlive : c'.live = c.live := by rw [live, hblocks, live]
  refine ⟨storage, c', hallocate, htarget, happart, hspans, ?_, ?_, ?_, ?_, ?_, ?_⟩
  · rw [Context.addBinding, target_editBlock, used_editBlock]
    refine Nested.editBlock ?_ fun b hheld => List.forall_mem_append.2 ⟨hheld, ?_⟩
    · rw [htarget, hblocks]
      exact h.nested.mono hle
    · rw [List.forall_mem_singleton, htarget]
      exact hspans.mono (Nat.zero_le _) (Nat.le_refl _)
  · simp only [Context.addBinding, used_editBlock, peak_editBlock]
    omega
  · have := h.peak_lt
    simp only [Context.addBinding, peak_editBlock]
    omega
  · refine (live_addBinding _).symm.pairwise (.cons ?_ ?_) fun hxy => hxy.symm
    · rwa [hlive]
    · rw [hlive]
      exact h.apart
  · simp only [Context.addBinding, target_editBlock, peak_editBlock, htarget]
    refine List.forall_mem_cons.2 ⟨hspans.mono (Nat.zero_le _) (by omega), fun y hy => ?_⟩
    exact (h.within y hy).mono (Nat.le_refl _) (by omega)
  · intro ho y hy
    rw [mem_bindings_addBinding, bindings, hblocks] at hy
    exact List.mem_cons.2 (hy.imp_right (h.filled ho y))

end Context
end Builder
end IntervalStack
