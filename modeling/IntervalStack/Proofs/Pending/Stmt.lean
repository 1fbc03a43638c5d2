import IntervalStack.Proofs.Pending.Expr

/-! Pending decrements in the code of statements and blocks. A block leaves nothing behind: either
nothing is scheduled in it, or it drains at its end. A break or a return that does not drain leaves
only scopes in which nothing was scheduled. -/

namespace IntervalStack.Generator
open Outline (plain wrap)
open IntervalStack.Flow (Assignable)

namespace Context

structure Inside (ctx : Context) : Prop where
  scope : ctx.scope.isSome = true
  loop : ∀ loop, ctx.loop = some loop → loop.depth < ctx.depth

theorem inside_enter {ctx : Context} (h : ∀ loop, ctx.loop = some loop → loop.depth ≤ ctx.depth)
    (scope : Scope) (before : Bool) : (ctx.enter scope before).Inside := by
  refine ⟨rfl, fun loop hl => ?_⟩
  rw [depth_enter]
  exact Nat.lt_succ_of_le (h loop hl)

theorem Inside.depth_pos {ctx : Context} (h : ctx.Inside) : 0 < ctx.depth := by
  unfold depth
  rw [h.scope]
  exact Nat.succ_pos _

theorem Inside.duePending {ctx : Context} (h : ctx.Inside) {depth : Nat} (hd : depth < ctx.depth)
    (pushed : Bool) : duePending (ctx.leftScopes depth pushed)
      = (pushed || Generator.duePending (ctx.leftScopes depth false)) := by
  obtain ⟨scope, hs⟩ := Option.isSome_iff_exists.1 h.scope
  unfold leftScopes
  rw [length_openScopes, length_openScopes, show ctx.depth - depth = ctx.depth - depth - 1 + 1 by omega]
  simp [openScopes, hs, Generator.duePending, Bool.or_assoc]

end Context

theorem leftBindings_of_quiet {left : List OpenScope} (h : duePending left = false) :
    leftBindings left = [] := by
  simp only [duePending, List.any_eq_false, Bool.or_eq_true, not_or] at h
  simp only [leftBindings, List.flatMap_eq_nil_iff]
  intro s hs
  simpa using (h s hs).2

/-- What the labels around a piece of code must have, if `x` stands in front of it and it stops at
`stop`: the handler lies behind everything; a break or return with nothing to drain keeps `x`; and
the exit of the routine lies behind the code if something is left to it. -/
structure Surrounds (hi : Nat) (Γ : String → Nat) (ctx : Context) (pushed : Bool) (x stop : Nat)
    (exits : Bool) : Prop where
  handler : hi ≤ Γ Environment.divideByZero
  loop : ∀ loop, ctx.loop = some loop → duePending (ctx.leftScopes loop.depth pushed) = false →
    x ≤ Γ loop.endLabel
  quiet : ∀ r, ctx.routine = some r → duePending (ctx.leftScopes 0 pushed) = false →
    x ≤ Γ r.exitLabel
  late : ∀ r, ctx.routine = some r → exits = true → stop ≤ Γ r.exitLabel

def Steady (lo hi : Nat) (ctx : Context) (s : State) (o : Outline) (s' : State) : Prop :=
  ∀ pre m, m ≤ pre.length → (pre ++ o.code).length ≤ hi →
    Assignable s.labels.count s'.labels.count fun Γ =>
      Surrounds hi Γ ctx false m (pre ++ o.code).length s'.exitPushed →
        (pendingFlow lo hi).Fits Γ pre (bound s.pushed m pre.length) o
          (bound s'.pushed m (pre ++ o.code).length)

def Closes (lo hi : Nat) (ctx : Context) (force : Bool) (s : State) (o : Outline) (s' : State) :
    Prop :=
  ∀ pre x y, x ≤ pre.length → (force = false → x ≤ y) → (pre ++ o.code).length ≤ hi →
    Assignable s.labels.count s'.labels.count fun Γ =>
      Surrounds hi Γ ctx s.pushed x (pre ++ o.code).length s'.exitPushed →
        (pendingFlow lo hi).Fits Γ pre x o y

def Task.Settled (lo hi : Nat) (ctx : Context) (s : State) (o : Outline) (s' : State) :
    Task → Prop
  | .item _ => Passes lo hi s.labels.count s'.labels.count s'.pushed o
  | .spaced space _ => space.all Instr.isOrdinary = true →
      Passes lo hi s.labels.count s'.labels.count s'.pushed o
  | .stmt _ _ | .stmts _ => ctx.Inside → Steady lo hi ctx s o s'
  | .block force _ => (∀ loop, ctx.loop = some loop → loop.depth ≤ ctx.depth) →
      Closes lo hi ctx force s o s'

theorem Passes.steady {lo hi : Nat} {ctx : Context} {s s' : State} {o : Outline}
    (h : Passes lo hi s.labels.count s'.labels.count s'.pushed o)
    (hg : s.pushed = true → s'.pushed = true) : Steady lo hi ctx s o s' := by
  intro pre m hm hlen
  have hfits := h.fits pre (bound s.pushed m pre.length) (bound_le hm) hlen
  exact hfits.mono fun Γ hΓ hs => (hΓ hs.handler).weaken_right (bound_bound_le hg)

namespace Surrounds

variable {hi : Nat} {Γ : String → Nat} {ctx : Context} {pushed exits exits' : Bool}
  {m x stop stop' : Nat}

theorem restrict (h : Surrounds hi Γ ctx pushed x stop exits) (hstop : stop' ≤ stop)
    (hexits : exits' = true → exits = true) : Surrounds hi Γ ctx pushed x stop' exits' :=
  ⟨h.handler, h.loop, h.quiet, fun r hr he => Nat.le_trans hstop (h.late r hr (hexits he))⟩

/-- In the middle of a scope, where `x` stands; it is the value at its start if nothing was
scheduled since. -/
theorem later (h : Surrounds hi Γ ctx false m stop exits) (hin : ctx.Inside)
    (hx : pushed = false → x = m) : Surrounds hi Γ ctx pushed x stop exits := by
  refine ⟨h.handler, fun loop hl hd => ?_, fun r hr hd => ?_, h.late⟩
  · rw [hin.duePending (hin.loop loop hl), Bool.or_eq_false_iff] at hd
    rw [hx hd.1]
    exact h.loop loop hl hd.2
  · rw [hin.duePending hin.depth_pos, Bool.or_eq_false_iff] at hd
    rw [hx hd.1]
    exact h.quiet r hr hd.2

theorem enter (h : Surrounds hi Γ ctx pushed x stop exits)
    (hl : ∀ loop, ctx.loop = some loop → loop.depth ≤ ctx.depth) (scope : Scope) :
    Surrounds hi Γ (ctx.enter scope pushed) false x stop exits := by
  have hleft : ∀ {depth}, depth ≤ ctx.depth →
      duePending ((ctx.enter scope pushed).leftScopes depth false) = false →
        duePending (ctx.leftScopes depth pushed) = false := by
    intro depth hdepth hd
    rw [Context.leftScopes_enter hdepth] at hd
    exact (Bool.or_eq_false_iff.1 hd).2
  exact ⟨h.handler, fun loop hloop hd => h.loop loop hloop (hleft (hl loop hloop) hd),
    fun r hr hd => h.quiet r hr (hleft (Nat.zero_le _) hd), h.late⟩

end Surrounds

theorem Clears.ordinary {selfSlot : Option Int32} {bs : List Binding} {c : Code}
    (h : Clears selfSlot bs c) : c.all Instr.isOrdinary = true := by
  induction h with
  | nil => rfl
  | cons ha _ ih =>
    simp only [List.all_append, ordinary_of_local (storageAddress_local ha), ih]
    rfl

theorem Releases.passes {lo hi n : Nat} {selfSlot : Option Int32} {bs : List Binding}
    {o : Outline} (h : Releases selfSlot bs o) : Passes lo hi n n (!bs.isEmpty) o := by
  induction h with
  | nil => exact Passes.straight (c := []) rfl
  | @cons b bs c o ha _ ih =>
    rw [Outline.plain_append]
    have hfirst : Passes lo hi n n true
        (wrap (.release b) (plain c ++ plain [.loadI, RefCounter.push])) :=
      ((Passes.straight (ordinary_of_local (storageAddress_local ha))).append (.noted rfl) fun h => h).wrap (by simp)
    exact hfirst.append (ih.raise fun _ => rfl) fun _ => rfl

section
variable {lo hi : Nat} {ctx : Context} {s s₁ s₂ s₃ : State} {o₁ o₂ o₃ : Outline}

theorem steady_ifThen (h₁ : Passes lo hi s.next.labels.count s₁.labels.count s₁.pushed o₁)
    (h₂ : Closes lo hi ctx false s₁ o₂ s₂) (hg₁ : s.next.Grows s₁) (hg₂ : s₁.Grows s₂)
    (hp : s₂.pushed = s₁.pushed) (hin : ctx.Inside) :
    Steady lo hi ctx s (o₁ ++ plain [.jumpFalse (Labels.part (s.label "if") "end")] ++ o₂
      ++ plain [.label (Labels.part (s.label "if") "end")]) s₂ := by
  intro pre m hm hlen
  let done := Labels.part (s.label "if") "end"
  let x := bound s.pushed m pre.length
  let p₁ := pre ++ o₁.code
  let x₁ := bound s₁.pushed x p₁.length
  let p₂ := p₁ ++ [.jumpFalse done]
  let p₃ := p₂ ++ o₂.code
  have hx : x ≤ pre.length := bound_le hm
  have hp₁ : p₁.length = pre.length + o₁.code.length := List.length_append
  have hp₂ : p₂.length = p₁.length + 1 := List.length_append
  have hp₃ : p₃.length = p₂.length + o₂.code.length := List.length_append
  have hx₁ : x₁ ≤ p₁.length := bound_le (by omega)
  have hall : pre ++ (o₁ ++ plain [.jumpFalse done] ++ o₂ ++ plain [.label done]).code
      = p₃ ++ [.label done] := by simp [p₃, p₂, p₁]
  rw [hall] at hlen ⊢
  have hlast : (p₃ ++ [Instr.label done]).length = p₃.length + 1 := List.length_append
  -- The value behind the condition is kept by the branch, and reaches the label on both ways.
  have hend : x₁ ≤ bound s₂.pushed m p₃.length := by
    rw [hp]
    exact Nat.le_trans (bound_bound_le hg₁.pushed) (by unfold bound; split <;> omega)
  refine ((Assignable.choose s.labels.count fun _ => bound s₂.pushed m p₃.length).and
    ((h₁.fits pre x hx (show p₁.length ≤ hi by omega)).and
      (h₂ p₂ x₁ x₁ (by omega) (fun _ => Nat.le_refl _) (show p₃.length ≤ hi by omega))
      hg₁.count hg₂.count)
    (Nat.le_succ _) (Nat.le_trans hg₁.count hg₂.count)).mono ?_
  rintro Γ ⟨hΓ, hΓ₁, hΓ₂⟩ hs
  have hdone : Γ done = _ := hΓ _ (number?_part s "end" (by decide))
  have hinner : Surrounds hi Γ ctx s₁.pushed x₁ p₃.length s₂.exitPushed := by
    exact (hs.restrict (by omega) id).later hin (bound_of_quiet hg₁.pushed)
  have hrest : (pendingFlow lo hi).Fits Γ p₂ x₁ (o₂ ++ plain [.label done])
      (bound s₂.pushed m (p₃ ++ [Instr.label done]).length) := by
    refine (hΓ₂ hinner).append (fits_label hdone hend (bound_le (by omega)) ?_)
    exact bound_mono (by omega)
  rw [Outline.append_assoc, Outline.append_assoc]
  exact (hΓ₁ hs.handler).append (fits_branch rfl hx₁ (hdone ▸ hend) rfl hrest)

theorem steady_ifElse (h₁ : Passes lo hi s.next.labels.count s₁.labels.count s₁.pushed o₁)
    (h₂ : Closes lo hi ctx false s₁ o₂ s₂) (h₃ : Closes lo hi ctx false s₂ o₃ s₃)
    (hg₁ : s.next.Grows s₁) (hg₂ : s₁.Grows s₂) (hg₃ : s₂.Grows s₃)
    (hp₂ : s₂.pushed = s₁.pushed) (hp₃ : s₃.pushed = s₂.pushed) (hin : ctx.Inside) :
    Steady lo hi ctx s (o₁ ++ plain [.jumpFalse (Labels.part (s.label "if") "else")] ++ o₂
      ++ plain [.jump (Labels.part (s.label "if") "end"),
        .label (Labels.part (s.label "if") "else")] ++ o₃
      ++ plain [.label (Labels.part (s.label "if") "end")]) s₃ := by
  intro pre m hm hlen
  let done := Labels.part (s.label "if") "end"
  let otherwise := Labels.part (s.label "if") "else"
  let x := bound s.pushed m pre.length
  let p₁ := pre ++ o₁.code
  let x₁ := bound s₁.pushed x p₁.length
  let p₂ := p₁ ++ [.jumpFalse otherwise]
  let p₃ := p₂ ++ o₂.code
  let p₄ := p₃ ++ [.jump done] ++ [.label otherwise]
  let p₅ := p₄ ++ o₃.code
  have hx : x ≤ pre.length := bound_le hm
  have hp₁ : p₁.length = pre.length + o₁.code.length := List.length_append
  have hlen₂ : p₂.length = p₁.length + 1 := List.length_append
  have hlen₃ : p₃.length = p₂.length + o₂.code.length := List.length_append
  have hlen₄ : p₄.length = p₃.length + 2 := by simp [p₄]
  have hlen₅ : p₅.length = p₄.length + o₃.code.length := List.length_append
  have hx₁ : x₁ ≤ p₁.length := bound_le (by omega)
  have hall : pre ++ (o₁ ++ plain [.jumpFalse otherwise] ++ o₂ ++ plain [.jump done,
      .label otherwise] ++ o₃ ++ plain [.label done]).code = p₅ ++ [.label done] := by
    simp [p₅, p₄, p₃, p₂, p₁]
  rw [hall] at hlen ⊢
  have hlast : (p₅ ++ [Instr.label done]).length = p₅.length + 1 := List.length_append
  have hend : x₁ ≤ bound s₃.pushed m p₅.length := by
    rw [hp₃, hp₂]
    exact Nat.le_trans (bound_bound_le hg₁.pushed) (bound_mono (by omega))
  have hne : done ≠ otherwise := fun h => absurd (part_inj h) (by decide)
  refine ((Assignable.choose s.labels.count fun l =>
      if l = done then bound s₃.pushed m p₅.length else x₁).and
    (((h₁.fits pre x hx (show p₁.length ≤ hi by omega)).and
      (h₂ p₂ x₁ x₁ (by omega) (fun _ => Nat.le_refl _) (show p₃.length ≤ hi by omega))
      hg₁.count hg₂.count).and
      (h₃ p₄ x₁ x₁ (by omega) (fun _ => Nat.le_refl _) (show p₅.length ≤ hi by omega))
      (hg₁.trans hg₂).count hg₃.count)
    (Nat.le_succ _) ((hg₁.trans hg₂).trans hg₃).count).mono ?_
  rintro Γ ⟨hΓ, ⟨hΓ₁, hΓ₂⟩, hΓ₃⟩ hs
  have hdone : Γ done = _ := (hΓ _ (number?_part s "end" (by decide))).trans (if_pos rfl)
  have helse : Γ otherwise = x₁ :=
    (hΓ _ (number?_part s "else" (by decide))).trans (if_neg hne.symm)
  have hyes : Surrounds hi Γ ctx s₁.pushed x₁ p₃.length s₂.exitPushed :=
    (hs.restrict (by omega) hg₃.exitPushed).later hin (bound_of_quiet hg₁.pushed)
  have hno : Surrounds hi Γ ctx s₂.pushed x₁ p₅.length s₃.exitPushed :=
    hp₂ ▸ (hs.restrict (by omega) id).later hin (bound_of_quiet hg₁.pushed)
  have hrest₂ : (pendingFlow lo hi).Fits Γ p₄ x₁ (o₃ ++ plain [.label done])
      (bound s₃.pushed m (p₅ ++ [Instr.label done]).length) :=
    (hΓ₃ hno).append (fits_label hdone hend (bound_le (by omega)) (bound_mono (by omega)))
  have hrest₁ : (pendingFlow lo hi).Fits Γ p₂ x₁
      (o₂ ++ (plain [.jump done, .label otherwise] ++ (o₃ ++ plain [.label done])))
      (bound s₃.pushed m (p₅ ++ [Instr.label done]).length) := by
    refine (hΓ₂ hyes).append (fits_jump (z := x₁) (show x₁ ≤ p₃.length by omega) (hdone ▸ hend) ?_)
    exact fits_label helse (Nat.le_refl _) (by rw [List.length_append]; show x₁ ≤ p₃.length + 1; omega) hrest₂
  simp only [Outline.append_assoc]
  exact (hΓ₁ hs.handler).append (fits_branch rfl hx₁ (Nat.le_of_eq helse.symm) rfl hrest₁)

theorem steady_loop
    (h₁ : Passes lo hi s.next.labels.count s₁.labels.count s₁.pushed o₁)
    (h₂ : Closes lo hi { ctx with loop := some ⟨Labels.part (s.label "while") "end", ctx.depth⟩ }
      s₁.pushed (s₁.noting s.pushed) o₂ s₂) (hg₁ : s.next.opened.Grows s₁)
    (hg₂ : (s₁.noting s.pushed).Grows s₂) (hp : s₂.pushed = (s₁.pushed || s.pushed))
    (hin : ctx.Inside) :
    Steady lo hi ctx s (plain [.label (Labels.part (s.label "while") "test")] ++ o₁
      ++ plain [.jumpFalse (Labels.part (s.label "while") "end")] ++ o₂
      ++ plain [.jump (Labels.part (s.label "while") "test"),
        .label (Labels.part (s.label "while") "end")]) s₂ := by
  intro pre m hm hlen
  let test := Labels.part (s.label "while") "test"
  let done := Labels.part (s.label "while") "end"
  let x := bound s.pushed m pre.length
  let p₀ := pre ++ [.label test]
  let p₁ := p₀ ++ o₁.code
  let x₁ := bound s₁.pushed x p₁.length
  let p₂ := p₁ ++ [.jumpFalse done]
  let p₃ := p₂ ++ o₂.code
  let p₄ := p₃ ++ [.jump test]
  have hx : x ≤ pre.length := bound_le hm
  have hlen₀ : p₀.length = pre.length + 1 := List.length_append
  have hlen₁ : p₁.length = p₀.length + o₁.code.length := List.length_append
  have hlen₂ : p₂.length = p₁.length + 1 := List.length_append
  have hlen₃ : p₃.length = p₂.length + o₂.code.length := List.length_append
  have hlen₄ : p₄.length = p₃.length + 1 := List.length_append
  have hx₁ : x₁ ≤ p₁.length := bound_le (by omega)
  have hall : pre ++ (plain [.label test] ++ o₁ ++ plain [.jumpFalse done] ++ o₂
      ++ plain [.jump test, .label done]).code = p₄ ++ [.label done] := by
    simp [p₄, p₃, p₂, p₁, p₀]
  rw [hall] at hlen ⊢
  have hlast : (p₄ ++ [Instr.label done]).length = p₄.length + 1 := List.length_append
  have hend : x₁ ≤ bound s₂.pushed m p₄.length := by
    rw [hp]
    cases hc : s₁.pushed with
    | true => exact Nat.le_trans hx₁ (show p₁.length ≤ p₄.length by omega)
    | false =>
      rw [Bool.false_or, show x₁ = x from congrArg (bound · x p₁.length) hc]
      exact bound_mono (by omega)
  have hne : done ≠ test := fun h => absurd (part_inj h) (by decide)
  have hkept : s₁.pushed = false → x₁ ≤ x := fun h => by simp [x₁, h, bound]
  refine ((Assignable.choose s.labels.count fun l =>
      if l = done then bound s₂.pushed m p₄.length else x).and
    ((h₁.fits p₀ x (by omega) (show p₁.length ≤ hi by omega)).and
      (h₂ p₂ x₁ x (by omega) hkept (show p₃.length ≤ hi by omega)) hg₁.count hg₂.count)
    (Nat.le_succ _) (Nat.le_trans hg₁.count hg₂.count)).mono ?_
  rintro Γ ⟨hΓ, hΓ₁, hΓ₂⟩ hs
  have hdone : Γ done = _ := (hΓ _ (number?_part s "end" (by decide))).trans (if_pos rfl)
  have htest : Γ test = x := (hΓ _ (number?_part s "test" (by decide))).trans (if_neg hne.symm)
  have hlater : Surrounds hi Γ ctx (s₁.pushed || s.pushed) x₁ p₃.length s₂.exitPushed := by
    refine (hs.restrict (by omega) id).later hin fun hq => ?_
    obtain ⟨hq₁, hq⟩ := Bool.or_eq_false_iff.1 hq
    simp only [x₁, x, hq₁, hq]
    rfl
  have hbody : Surrounds hi Γ { ctx with loop := some ⟨done, ctx.depth⟩ }
      (s₁.pushed || s.pushed) x₁ p₃.length s₂.exitPushed := by
    refine ⟨hlater.handler, fun loop hl _ => ?_, hlater.quiet, hlater.late⟩
    cases hl
    exact hdone ▸ hend
  have hrest₂ : (pendingFlow lo hi).Fits Γ p₂ x₁ (o₂ ++ plain [.jump test, .label done])
      (bound s₂.pushed m (p₄ ++ [Instr.label done]).length) := by
    refine (hΓ₂ hbody).append (fits_jump (z := 0) (show x ≤ p₃.length by omega)
      (Nat.le_of_eq htest.symm) ?_)
    exact fits_label hdone (Nat.zero_le _) (bound_le (show m ≤ p₄.length by omega))
      (bound_mono (by omega))
  have hrest₁ : (pendingFlow lo hi).Fits Γ p₀ x
      (o₁ ++ (plain [.jumpFalse done] ++ (o₂ ++ plain [.jump test, .label done])))
      (bound s₂.pushed m (p₄ ++ [Instr.label done]).length) :=
    (hΓ₁ hs.handler).append (fits_branch rfl hx₁ (hdone ▸ hend) rfl hrest₂)
  simp only [Outline.append_assoc]
  exact fits_label htest (Nat.le_refl x) hx hrest₁

/-- On a way out on which nothing is due, nothing was scheduled in the scopes that are left, and
they release nothing. -/
theorem quiet_of_not_due {depth : Nat} (hin : ctx.Inside) (hdepth : depth < ctx.depth)
    (hd : duePending (ctx.leftScopes depth s.pushed) = false) :
    (s.noting !(leftBindings (ctx.leftScopes depth s.pushed)).isEmpty).pushed = false := by
  rw [State.pushed_noting, leftBindings_of_quiet hd]
  rw [hin.duePending hdepth, Bool.or_eq_false_iff] at hd
  simp [hd.1]

theorem steady_leave {loop : Loop} {o : Outline} (hl : ctx.loop = some loop)
    (hr : Releases ctx.selfSlot (leftBindings (ctx.leftScopes loop.depth s.pushed)) o)
    (hin : ctx.Inside) :
    Steady lo hi ctx s
      (o ++ plain (drainIf (duePending (ctx.leftScopes loop.depth s.pushed))
        ++ [.jump loop.endLabel]))
      (s.noting !(leftBindings (ctx.leftScopes loop.depth s.pushed)).isEmpty) := by
  intro pre m hm hlen
  have hx := bound_le (b := s.pushed) hm
  have hout : Passes lo hi s.labels.count s.labels.count _ o := hr.passes
  rw [Outline.code_append, ← List.append_assoc, List.length_append] at hlen
  refine (hout.fits pre (bound s.pushed m pre.length) hx (by omega)).mono fun Γ hΓ hs => ?_
  have hx₁ := bound_le (b := !(leftBindings (ctx.leftScopes loop.depth s.pushed)).isEmpty)
    (show bound s.pushed m pre.length ≤ (pre ++ o.code).length by rw [List.length_append]; omega)
  refine (hΓ hs.handler).append ?_
  cases hd : duePending (ctx.leftScopes loop.depth s.pushed) with
  | true =>
    exact fits_drain (z := 0) hx₁ (fits_jump (z := 0) (Nat.zero_le _) (Nat.zero_le _)
      (Nat.zero_le _))
  | false =>
    have hquiet := quiet_of_not_due hin (hin.loop loop hl) hd
    rw [State.pushed_noting, Bool.or_eq_false_iff] at hquiet
    have hd' := hd
    rw [hquiet.1] at hd'
    refine fits_jump (z := 0) hx₁ ?_ (Nat.zero_le _)
    rw [hquiet.2, hquiet.1]
    exact hs.loop loop hl hd'

theorem steady_return {r : Routine} {o : Outline} (hr : ctx.routine = some r)
    (h : Passes lo hi s.labels.count s₁.labels.count
      (s₁.noting !(leftBindings (ctx.leftScopes 0 s₁.pushed)).isEmpty).pushed o)
    (hg : s.Grows s₁) (hin : ctx.Inside) :
    Steady lo hi ctx s (o ++ plain [.jump r.exitLabel])
      ((s₁.noting !(leftBindings (ctx.leftScopes 0 s₁.pushed)).isEmpty).leaving
        (duePending (ctx.leftScopes 0 s₁.pushed))) := by
  intro pre m hm hlen
  have hx := bound_le (b := s.pushed) hm
  rw [Outline.code_append, ← List.append_assoc, List.length_append] at hlen ⊢
  refine (h.fits pre (bound s.pushed m pre.length) hx (by omega)).mono fun Γ hΓ hs => ?_
  have hx₁ : bound s.pushed m pre.length ≤ (pre ++ o.code).length := by
    rw [List.length_append]
    omega
  refine (hΓ hs.handler).append (fits_jump (z := 0) (bound_le hx₁) ?_ (Nat.zero_le _))
  cases hd : duePending (ctx.leftScopes 0 s₁.pushed) with
  | true =>
    have hlate := hs.late r hr (by rw [State.exitPushed_leaving, hd, Bool.or_true])
    exact Nat.le_trans (bound_le hx₁) (Nat.le_trans (Nat.le_add_right _ _) hlate)
  | false =>
    have hquiet := quiet_of_not_due hin hin.depth_pos hd
    rw [bound_of_quiet (fun h => (State.Grows.noting _ _).pushed (hg.pushed h)) hquiet]
    rw [State.pushed_noting, Bool.or_eq_false_iff] at hquiet
    exact hs.quiet r hr (hquiet.1 ▸ hd)

theorem closes_block {force : Bool} {scope : Scope} {c : Code}
    (hc : Clears ctx.selfSlot scope.owned c)
    (h : Steady lo hi (ctx.enter scope s.pushed) s.opened o₁ s₁) (hg : s.opened.Grows s₁)
    (hr : Releases ctx.selfSlot scope.owned o₂)
    (hl : ∀ loop, ctx.loop = some loop → loop.depth ≤ ctx.depth) :
    Closes lo hi ctx force s
      (plain c ++ o₁ ++ o₂ ++ plain (drainIf (s₁.pushed || !scope.owned.isEmpty || force)))
      (s₁.closed s.pushed) := by
  intro pre x y hx hy hlen
  let p₁ := pre ++ c
  let p₂ := p₁ ++ o₁.code
  let p₃ := p₂ ++ o₂.code
  let x₂ := bound s₁.pushed x p₂.length
  let x₃ := bound (!scope.owned.isEmpty) x₂ p₃.length
  have hlen₁ : p₁.length = pre.length + c.length := List.length_append
  have hlen₂ : p₂.length = p₁.length + o₁.code.length := List.length_append
  have hlen₃ : p₃.length = p₂.length + o₂.code.length := List.length_append
  have hx₂ : x₂ ≤ p₂.length := bound_le (by omega)
  have hx₃ : x₃ ≤ p₃.length := bound_le (by omega)
  have hall : pre ++ (plain c ++ o₁ ++ o₂
      ++ plain (drainIf (s₁.pushed || !scope.owned.isEmpty || force))).code
      = p₃ ++ drainIf (s₁.pushed || !scope.owned.isEmpty || force) := by simp [p₃, p₂, p₁]
  rw [hall, List.length_append] at hlen ⊢
  have hrel : Passes lo hi s₁.labels.count s₁.labels.count _ o₂ := hr.passes
  refine ((h p₁ x (by omega) (show p₂.length ≤ hi by omega)).and
    (hrel.fits p₂ x₂ hx₂ (show p₃.length ≤ hi by omega)) hg.count (Nat.le_refl _)).mono ?_
  rintro Γ ⟨hΓ₁, hΓ₂⟩ hs
  have hin : Surrounds hi Γ (ctx.enter scope s.pushed) false x p₂.length s₁.exitPushed :=
    (hs.restrict (show p₂.length ≤ _ by omega) id).enter hl scope
  have hrest : (pendingFlow lo hi).Fits Γ p₂ x₂ o₂ x₃ := hΓ₂ hs.handler
  have hdrain : (pendingFlow lo hi).Fits Γ p₃ x₃
      (plain (drainIf (s₁.pushed || !scope.owned.isEmpty || force))) y := by
    cases hd : s₁.pushed || !scope.owned.isEmpty || force with
    | true => exact fits_drain (z := y) hx₃ (Nat.le_refl y)
    | false =>
      simp only [Bool.or_eq_false_iff] at hd
      have hkept : x₃ = x := by simp only [x₃, x₂, hd.1.1, hd.1.2]; rfl
      rw [hkept]
      exact hy hd.2
  simp only [Outline.append_assoc]
  refine (fits_plain hc.ordinary hx).append ?_
  rw [Outline.code_plain]
  exact (hΓ₁ hin).append (hrest.append hdrain)

end

theorem Performs.returnsToStart {ctx : Context} {span : Span} {cond : Expr} {body : Block}
    {s s' : State} {o : Outline} (h : Performs ctx (.stmt span (.loop cond body)) s o s') :
    ReturnsToStart o.code := by
  cases h with
  | @loop _ _ _ _ _ _ _ _ o₁ o₂ _ _ =>
    refine ⟨Labels.part (s.label "while") "test", Labels.part (s.label "while") "end",
      o₁.code ++ [.jumpFalse (Labels.part (s.label "while") "end")] ++ o₂.code, ?_⟩
    simp

theorem dropCode_passes {lo hi n : Nat} (ty : Ty) (shape : Shape) :
    Passes lo hi n n (shape = .value && ty.isHeap) (plain (dropCode ty shape)) := by
  cases shape with
  | void => exact .straight rfl
  | address => exact .straight rfl
  | value =>
    unfold dropCode
    cases ty.isHeap
    · exact .straight rfl
    · exact .noted rfl

theorem releaseOld_passes {lo hi n : Nat} (ty : Ty) :
    Passes lo hi n n ty.isHeap (plain (releaseOld ty)) := by
  unfold releaseOld
  cases ty.isHeap
  · exact .straight rfl
  · exact .noted rfl

theorem releaseReceiver_passes {lo hi n : Nat} (ty : Ty) :
    Passes lo hi n n true (plain (releaseReceiver ty)) := by
  unfold releaseReceiver
  split <;> exact .noted rfl

theorem printScalar_passes {lo hi : Nat} {b : Bool} {k : ScalarKind} {s s' : State} {c : Code}
    (h : printScalar k s = .ok (c, s')) :
    Passes lo hi s.labels.count s'.labels.count b (plain c) := by
  rcases printScalar_ok h with ⟨-, rfl, rfl⟩ | ⟨-, rfl, rfl⟩ | ⟨-, rfl, rfl⟩ | ⟨-, rfl, rfl⟩
  · unfold printBoolCode
    rw [Outline.plain_append]
    exact (Passes.choice (b := b) (by decide) rfl rfl rfl rfl).append (.straight rfl) id
  all_goals exact .straight rfl

section
variable {lo hi : Nat} {ctx : Context} {s s₁ s₂ : State} {o o₁ o₂ : Outline}

theorem Steady.append (h₁ : Steady lo hi ctx s o₁ s₁) (h₂ : Steady lo hi ctx s₁ o₂ s₂)
    (hg₁ : s.Grows s₁) (hg₂ : s₁.Grows s₂) : Steady lo hi ctx s (o₁ ++ o₂) s₂ := by
  intro pre m hm hlen
  rw [Outline.code_append, ← List.append_assoc] at hlen ⊢
  have hmid : (pre ++ o₁.code).length ≤ (pre ++ o₁.code ++ o₂.code).length := by simp
  have hm' : m ≤ (pre ++ o₁.code).length := by
    rw [List.length_append]
    omega
  refine ((h₁ pre m hm (by omega)).and (h₂ _ m hm' hlen) hg₁.count hg₂.count).mono ?_
  rintro Γ ⟨hΓ₁, hΓ₂⟩ hs
  exact (hΓ₁ (hs.restrict hmid hg₂.exitPushed)).append (hΓ₂ hs)

theorem Steady.wrap {p : Part} (h : Steady lo hi ctx s o s₁)
    (hp : ∀ scopes cond body, p = .stmt scopes (.loop cond body) → ReturnsToStart o.code) :
    Steady lo hi ctx s (wrap p o) s₁ := by
  intro pre m hm hlen
  rw [Outline.code_wrap] at hlen ⊢
  exact (h pre m hm hlen).mono fun Γ hΓ hs => (hΓ hs).wrap hp

theorem Closes.steady (h : Closes lo hi ctx false s o s₁) (hp : s₁.pushed = s.pushed)
    (hin : ctx.Inside) : Steady lo hi ctx s o s₁ := by
  intro pre m hm hlen
  let x := bound s.pushed m pre.length
  refine (h pre x x (bound_le hm) (fun _ => Nat.le_refl x) hlen).mono fun Γ hΓ hs => ?_
  refine (hΓ (hs.later hin fun hq => by simp only [x, hq]; rfl)).weaken_right ?_
  rw [hp]
  exact bound_mono (by rw [List.length_append]; omega)

end

theorem Performs.settled (lo hi : Nat) {ctx : Context} {task : Task} {s s' : State} {o : Outline}
    (h : Performs ctx task s o s') : task.Settled lo hi ctx s o s' := by
  induction h with
  | scalar _ he hp =>
    exact he.passes.append (printScalar_passes hp) (printScalar_grows hp).pushed
  | @freshInterval ctx e sub k s s' o _ _ he =>
    simp only [Task.Settled, State.pushed_noting, Bool.or_true]
    refine (he.passes.wrap (by simp)).append (.noted ?_) fun _ => rfl
    cases k <;> rfl
  | @storedInterval ctx e sub k s s' o _ _ he =>
    refine (he.passes.wrap (by simp)).append (.straight ?_) id
    cases k <;> rfl
  | printerMethod _ _ _ _ _ _ he =>
    simp only [Task.Settled, State.pushed_noting, Bool.or_true]
    rw [Outline.plain_append, Outline.plain_append, ← Outline.append_assoc, ← Outline.append_assoc]
    refine ((he.passes.append (.straight ?_) id).append (releaseReceiver_passes _)
      fun _ => rfl).append ((dropCode_passes _ _).raise fun _ => rfl) fun _ => rfl
    simp only [List.all_append, List.all_cons, methodLabel_ordinary,
      fun ty => ordinary_of_local (pushArgument_local ty), fun ty => ordinary_of_local (fetchResult_local ty)]
    rfl
  | structName hty _ _ _ he =>
    simp only [Task.Settled, State.pushed_noting]
    rw [Outline.plain_append, ← Outline.append_assoc]
    refine (he.passes.append ((dropCode_passes _ _).raise fun h => ?_) fun h => ?_).append
      (.straight rfl) fun h => h
    · simp only [Bool.and_eq_true, decide_eq_true_eq] at h
      simp [h.1]
    · simp [h]
  | noItems => exact fun _ => Passes.straight (c := []) rfl
  | items _ hs ih₁ ih₂ =>
    intro hspace
    exact (((Passes.straight hspace).append ih₁ id).append (ih₂ hspace) hs.grows.pushed)
  | @printNone ctx span spaces newline s =>
    intro _
    refine (Passes.straight ?_).steady id
    cases newline <;> rfl
  | @print ctx span e es spaces newline s s₁ s₂ o₁ o₂ he hs ih₁ ih₂ =>
    intro _
    refine Passes.steady ?_ (he.grows.trans hs.grows).pushed
    refine (ih₁.append (ih₂ ?_) hs.grows.pushed).append (.straight ?_) id
    · cases spaces <;> rfl
    · cases newline <;> rfl
  | declaration hs ha he =>
    intro _
    refine Passes.steady ?_ he.grows.pushed
    refine ((Passes.straight (ordinary_of_local (storageAddress_local ha))).append he.passes id).append
      (.straight ?_) id
    simp [isOrdinary_of_isLocal (store_local hs)]
  | update hs he ht =>
    intro _
    refine Passes.steady ?_ (he.grows.trans (ht.grows.trans (.noting _ _))).pushed
    rw [Outline.plain_append, ← Outline.append_assoc]
    refine ((he.passes.append ht.passes ht.grows.pushed).append ((releaseOld_passes _).raise
      fun h => by simp [h]) fun h => by simp [h]).append (.straight ?_) fun h => h
    simp only [List.all_cons, isOrdinary_of_isLocal (store_local hs)]
    rfl
  | ifThen hc hy ih =>
    intro hin
    exact steady_ifThen hc.passes (ih fun loop hl => Nat.le_of_lt (hin.loop loop hl)) hc.grows
      hy.grows hy.pushed_block hin
  | ifElse hc hy hn ih₁ ih₂ =>
    intro hin
    have hl := fun loop hl => Nat.le_of_lt (hin.loop loop hl)
    exact steady_ifElse hc.passes (ih₁ hl) (ih₂ hl) hc.grows hy.grows hn.grows hy.pushed_block
      hn.pushed_block hin
  | loop hc hb ih =>
    intro hin
    refine steady_loop hc.passes (ih ?_) hc.grows hb.grows hb.pushed_block hin
    intro loop hl
    cases hl
    exact Nat.le_refl _
  | leave hl hr => exact steady_leave hl hr
  | retNone hr _ hs =>
    intro hin
    exact steady_return hr (hs.passes.raise fun h => by simp [h]) (.refl _) hin
  | ret hr _ he hs =>
    intro hin
    refine steady_return hr ?_ he.grows hin
    exact he.passes.append (hs.passes.raise fun h => by simp [h]) fun h => by simp [h]
  | call he =>
    intro _
    refine Passes.steady ?_ (he.grows.trans (.noting _ _)).pushed
    exact he.passes.append
      ((dropCode_passes _ _).raise fun h => by rw [State.pushed_noting, h, Bool.or_true])
      fun h => by simp [h]
  | nested hb ih =>
    intro hin
    exact (ih fun loop hl => Nat.le_of_lt (hin.loop loop hl)).steady hb.pushed_block hin
  | noStmts => exact fun _ => (Passes.straight (c := []) rfl).steady id
  | stmts h hs ih₁ ih₂ =>
    intro hin
    refine (Steady.wrap (ih₁ hin) ?_).append (ih₂ hin) h.grows hs.grows
    intro scopes cond body hnode
    cases hnode
    exact h.returnsToStart
  | block hc hb hr ih =>
    intro hl
    exact closes_block hc (ih (Context.inside_enter hl _ _)) hb.grows hr hl

end IntervalStack.Generator
