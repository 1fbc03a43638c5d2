import IntervalStack.Proofs.Building.Session
import IntervalStack.Proofs.Stepping
import IntervalStack.Proofs.WellTyped

/-! Bytes that are given out again. A block that is closed gives its bytes back, and the scope around
it gives them to its next binding, although that scope is open as long as the block runs. -/

namespace IntervalStack.Builder

theorem Target.Spans.not_apart {t : Target} {lo : Nat} {x y : Binding}
    (hx : t.Spans lo (lo + x.ty.size.toNat) x) (hy : t.Spans lo (lo + y.ty.size.toNat) y)
    (hxpos : 0 < x.ty.size.toNat) (hypos : 0 < y.ty.size.toNat) : ¬ x.Apart y := by
  have hxstop : x.stop = x.start + x.ty.size.toNat := rfl
  have hystop : y.stop = y.start + y.ty.size.toNat := rfl
  rw [Binding.Apart, not_or]
  cases ht : t.isFrame with
  | true =>
    obtain ⟨-, hxlow, hxhigh⟩ := (spans_iff_inFrame ht).1 hx
    obtain ⟨-, hylow, hyhigh⟩ := (spans_iff_inFrame ht).1 hy
    omega
  | false =>
    obtain ⟨-, hxlow, hxhigh⟩ := (spans_iff_inGlobals ht).1 hx
    obtain ⟨-, hylow, hyhigh⟩ := (spans_iff_inGlobals ht).1 hy
    omega

theorem closed_bytes_given_again (b : Builder) (name name' : String) {ty ty' : Ty}
    (hpos : 0 < ty.size.toNat) (hpos' : 0 < ty'.size.toNat)
    (hfits : b.current.used.toNat + ty.size.toNat < byteLimit)
    (hfits' : b.current.used.toNat + ty'.size.toNat < byteLimit) :
    ∃ x b₁ k b₂ y b₃, b.openBlock.declare name ty = .ok (x, b₁) ∧ b₁.closeBlock = .ok (k, b₂) ∧
      k.scope.bindings = [x] ∧ b₂.declare name' ty' = .ok (y, b₃) ∧ ¬ x.Apart y := by
  obtain ⟨storage, c₁, hallocate, htarget, hblocks, hused, -, hspans⟩ :=
    Context.exists_allocate (c := b.current.openBlock) name ty hfits
  let x : Binding := ⟨name, ty, storage⟩
  have hdeclare : b.openBlock.declare name ty
      = .ok (x, b.openBlock.setCurrent (c₁.addBinding x)) := by
    simp only [Builder.declare, Builder.openBlock, current_setCurrent, hallocate, sized, bind,
      Except.bind, pure, Except.pure]
    rfl
  -- closing takes the bytes in use back to what they were in front of the block
  obtain ⟨k, hk, hbindings⟩ : ∃ k,
      Context.sealBlock ⟨⟨⟨0, [x]⟩, []⟩, b.current.used⟩ c₁.used = .ok k ∧
        k.scope.bindings = [x] := by
    have hsize : Word.subtract c₁.used b.current.used = .ok (c₁.used - b.current.used) :=
      Word.subtract_eq_ok_iff.2 ⟨UInt32.le_iff_toNat_le.2 (hused ▸ Nat.le_add_right _ _), rfl⟩
    exact ⟨_, Word.bind_eq_ok_iff.2 ⟨_, hsize, rfl⟩, rfl⟩
  let c₂ : Context := { c₁ with used := b.current.used, blocks := b.current.blocks }
  have hclose : (c₁.addBinding x).closeBlock = .ok (k, c₂) := by
    simp only [Context.addBinding, Context.editBlock, hblocks, Context.openBlock,
      Context.closeBlock]
    exact Word.bind_eq_ok_iff.2 ⟨k, hk, rfl⟩
  obtain ⟨storage', c₃, hallocate', -, -, hused', -, hspans'⟩ :=
    Context.exists_allocate (c := c₂) name' ty' hfits'
  let y : Binding := ⟨name', ty', storage'⟩
  let b₁ := b.openBlock.setCurrent (c₁.addBinding x)
  let b₂ := b₁.setCurrent c₂
  refine ⟨x, b₁, k, b₂, y, b₂.setCurrent (c₃.addBinding y), hdeclare, ?_, hbindings, ?_, ?_⟩
  · simp only [Builder.closeBlock, b₁, current_setCurrent, hclose, sized, bind, Except.bind, pure,
      Except.pure]
    rfl
  · simp only [Builder.declare, b₂, current_setCurrent, hallocate', sized, bind, Except.bind, pure,
      Except.pure]
    rfl
  · rw [hused] at hspans
    rw [hused', htarget] at hspans'
    exact hspans.not_apart hspans' hpos hpos'

/-! Runs in which the sharing shows. -/

/-- A block whose variable a function changes by way of a global; the global is declared in front of
the block or behind it. -/
def aroundBlock (inFront : Bool) : List Call :=
  let a : Binding := ⟨"a", .int, .global (if inFront then 4 else 0)⟩
  let b : Binding := ⟨"b", .int, .global 0⟩
  let inBlock : List Stmt := [.call (.call "f" [] .void), .print [.ident a] false false]
  let block : Block := ⟨⟨4, [a]⟩,
    (.declaration a (.int 1) :: inBlock).map fun node => ⟨node, .none⟩⟩
  (if inFront then [.declare "b" .int] else [])
    ++ [.openBlock, .declareInit "a" (.int 1)] ++ inBlock.map .stmt
    ++ [.closeBlock, .stmt (.block block)] ++ (if inFront then [] else [.declare "b" .int])
    ++ [.beginFunction "f" [] .void, .stmt (.update (.ident b) (.int 5)), .endFunction,
      .stmt (.print [.ident b] false true)]

/-- The two programs differ in the bytes of their variables only, and yet in what they print. -/
theorem declared_behind_block_prints_otherwise :
    (∀ inFront, Session.start.Along Call.Fits (aroundBlock inFront) ∧
      Session.start.Along Call.Own (aroundBlock inFront)) ∧
    ∀ inFront, ∃ s p code e, Session.start.run (aroundBlock inFront) = .ok s ∧
      s.builder.finish = .ok p ∧ p.wellTyped ∧ Generator.generate p 4 = .ok code ∧
      Machine.executeCode code ⟨1024, 256, 1000⟩ = .ok e ∧
      e.output = if inFront then "15\n" else "55\n" := by
  have htest : ∀ inFront, (Session.start.run (aroundBlock inFront)).toOption.any (fun s =>
      s.builder.finish.toOption.any fun p => p.wellTyped &&
        (Generator.generate p 4).toOption.any fun code =>
          (Machine.executeCode code ⟨1024, 256, 1000⟩).toOption.any fun e =>
            e.output == if inFront then "15\n" else "55\n") = true := by decide +kernel
  refine ⟨by decide +kernel, fun inFront => ?_⟩
  obtain ⟨s, hs, hok⟩ := exists_ok_of_any (htest inFront)
  obtain ⟨p, hp, hok⟩ := exists_ok_of_any hok
  obtain ⟨htyped, hok⟩ := Bool.and_eq_true_iff.1 hok
  obtain ⟨code, hcode, hok⟩ := exists_ok_of_any hok
  obtain ⟨e, he, hout⟩ := exists_ok_of_any hok
  exact ⟨s, p, code, e, hs, hp, htyped, hcode, he, beq_iff_eq.1 hout⟩

/-- A function that returns in front of the declaration of a second interval, behind a block that has
released the first one. -/
def earlyReturn : List Call :=
  let a : Binding := ⟨"a", .interval .int, .belowFrame (-12)⟩
  let first := Expr.interval (.int 1) (.int 2)
  [.beginFunction "f" [("c", .bool)] .void, .openBlock, .declareInit "a" first, .closeBlock,
    .stmt (.block ⟨⟨4, [a]⟩, [⟨.declaration a first, .none⟩]⟩),
    .openBlock, .stmt (.ret none), .closeBlock,
    .stmt (.ifElse (.ident ⟨"c", .bool, .aboveFrame 0⟩) ⟨.empty, [⟨.ret none, .none⟩]⟩ none),
    .declareInit "b" (.interval (.int 3) (.int 4)), .endFunction,
    .stmt (.call (.call "f" [.bool true] .void))]

/-- The return releases the first interval once more, by way of the second one. -/
theorem early_return_releases_again :
    Session.start.Along Call.Fits earlyReturn ∧ Session.start.Along Call.Own earlyReturn ∧
    ∃ s p code m₀ m, Session.start.run earlyReturn = .ok s ∧ s.builder.finish = .ok p ∧
      p.wellTyped ∧ Generator.generate p 4 = .ok code ∧
      Machine.load code ⟨1024, 256, 1000⟩ = .ok m₀ ∧
      (Machine.run 1000).run m₀ = .error (.heap (.unallocated 152)) m := by
  have htest : (Session.start.run earlyReturn).toOption.any (fun s =>
      s.builder.finish.toOption.any fun p => p.wellTyped &&
        (Generator.generate p 4).toOption.any fun code =>
          (Machine.load code ⟨1024, 256, 1000⟩).toOption.any fun m₀ =>
            Machine.fault? ((Machine.run 1000).run m₀)
              == some (.heap (.unallocated 152))) = true := by decide +kernel
  obtain ⟨s, hs, hok⟩ := exists_ok_of_any htest
  obtain ⟨p, hp, hok⟩ := exists_ok_of_any hok
  obtain ⟨htyped, hok⟩ := Bool.and_eq_true_iff.1 hok
  obtain ⟨code, hcode, hok⟩ := exists_ok_of_any hok
  obtain ⟨m₀, hload, hfault⟩ := exists_ok_of_any hok
  obtain ⟨m, hm⟩ := Machine.exists_error_of_fault (beq_iff_eq.1 hfault)
  exact ⟨by decide +kernel, by decide +kernel, s, p, code, m₀, m, hs, hp, htyped, hcode, hload, hm⟩

end IntervalStack.Builder
