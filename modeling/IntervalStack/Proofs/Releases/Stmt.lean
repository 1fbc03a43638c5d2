import IntervalStack.Proofs.Releases.Flow

/-! What is owed around statements and blocks. Behind a statement the same is owed as in front of it:
a block ends with its own debts settled, and a break or a return settles those of all the scopes that
it leaves before it jumps. -/

namespace IntervalStack
open Noted (quiet opening Laid Fits Keeps At)
open IntervalStack.Flow (Assignable)

def debtsOf (ws : List Holder) : List Debt := ws.flatMap Holder.debts

theorem debtsOf_cons (w : Holder) (ws : List Holder) :
    debtsOf (w :: ws) = w.debts ++ debtsOf ws := List.flatMap_cons

theorem map_fst_owed (ws : List Holder) : (owed ws).map (·.1) = debtsOf ws := by
  rw [owed, List.map_flatMap]
  rfl

theorem debtsOf_take_drop (ws : List Holder) (k : Nat) :
    debtsOf (ws.take k) ++ debtsOf (ws.drop k) = debtsOf ws := by
  rw [debtsOf, debtsOf, ← List.flatMap_append, List.take_append_drop]
  rfl

namespace Noted

theorem quiet_append (c c' : Code) : quiet (c ++ c') = quiet c ++ quiet c' := List.map_append

end Noted

namespace Generator

variable {Γ : String → List Debt} {x y outer base : List Debt} {pos lo hi : Nat} {c : Code}
  {m m' : List Noted} {bs : List Extent}

def insular : Linkage := ⟨(· = Environment.divideByZero), fun _ => True, fun _ => True, False⟩

theorem insular_serves (program : Program) (structs : StructTable) :
    Serves insular program structs := by
  refine ⟨fun i hi => ?_, fun _ => trivial, fun _ _ _ => trivial, fun _ => trivial, fun _ => trivial⟩
  cases i with
  | jump l | jumpTrue l | jumpFalse l | jumpPos l | jumpNeg l | jumpFZero l | jumpFPos l
  | jumpFNeg l => exact beq_iff_eq.1 hi
  | label | dLabel | ret | halt => cases hi
  | _ => trivial

theorem Closed.keeps (h : Closed insular lo hi [] c) (x : List Debt) :
    Assignable lo hi fun Γ => ∀ i ∈ c, Keeps Γ x i := by
  refine ⟨fun _ => x, fun Γ hΓ i hi => ?_⟩
  obtain ⟨ns, hp, -, hns⟩ := h.labelled
  have hlabel : ∀ l ∈ c.labels, Γ l = x := by
    intro l hl
    obtain ⟨n, hn, hlt, hle⟩ := hns l (by simpa using hp.mem_iff.1 hl)
    exact hΓ l n hn hlt hle
  refine ⟨fun l hl => ?_, fun l hl => ?_, fun _ => rfl, fun hr => ?_⟩
  · obtain rfl : i = .label l := hl
    exact hlabel l (Code.mem_labels.2 hi)
  · exact ((h.within i hi).jumpTarget hl).imp_right (hlabel l)
  · obtain rfl : i = .ret := hr
    exact (h.within _ hi).elim

theorem LetsGo.fits {selfSlot : Option Int32} {ds : List (Debt × Binding)}
    (h : LetsGo selfSlot ds m) (Γ : String → List Debt) (outer y : List Debt) (pos : Nat) :
    Fits Γ outer (ds.map (·.1) ++ y) y pos m [] := by
  induction h generalizing pos with
  | nil => exact .nil Γ outer y pos
  | @cons d b rest c m hc _ ih =>
    have hplain : (c ++ [Instr.loadI]).all Instr.isPlain = true := by
      rw [List.all_append, storageAddress_plain hc]
      rfl
    have hat : At Γ ⟨RefCounter.push, [], some d⟩ (d :: (rest.map (·.1) ++ y)) (rest.map (·.1) ++ y) :=
      ⟨nofun, nofun, fun _ => ⟨rfl, rfl⟩, nofun⟩
    have hread := Fits.plain hplain Γ outer (d :: (rest.map (·.1) ++ y)) pos
    have hpush := hread.append (.single hat nofun rfl outer _) rfl
    exact hpush.append (ih _) rfl

structure ExitDebts (Γ : String → List Debt) (ctx : Context) (ws : List Holder)
    (base : List Debt) : Prop where
  loop : ∀ loop, ctx.loop = some loop → loop.depth ≤ ws.length ∧
    Γ loop.endLabel = debtsOf (ws.drop (ws.length - loop.depth)) ++ base
  exit : ∀ r, ctx.routine = some r → Γ r.exitLabel = base

theorem ExitDebts.enter {ctx : Context} {ws : List Holder} (h : ExitDebts Γ ctx ws base)
    (scope : Scope) (pushed : Bool) (w : Holder) :
    ExitDebts Γ (ctx.enter scope pushed) (w :: ws) base := by
  refine ⟨fun loop hl => ?_, h.exit⟩
  obtain ⟨hle, hΓ⟩ := h.loop loop hl
  refine ⟨Nat.le_succ_of_le hle, ?_⟩
  rw [List.length_cons, show ws.length + 1 - loop.depth = ws.length - loop.depth + 1 by omega,
    List.drop_succ_cons, hΓ]

theorem Clears.ne_nil {selfSlot : Option Int32} {refs : List Binding} (h : Clears selfSlot refs c)
    (hr : refs ≠ []) : c ≠ [] := by
  cases h with
  | nil => exact absurd rfl hr
  | cons => simp

theorem Notes.grows {ctx : Context} {ws : List Holder} {task : Task} {s s' : State}
    (h : Notes ctx ws pos task s m bs s') : s.labels.count ≤ s'.labels.count := by
  induction h with
  | simple _ h => exact h.grows.count
  | ifThen hc _ ih => exact Nat.le_trans (Nat.le_succ _) (Nat.le_trans hc.grows.count ih)
  | ifElse hc _ _ ih₁ ih₂ =>
    exact Nat.le_trans (Nat.le_succ _) (Nat.le_trans hc.grows.count (Nat.le_trans ih₁ ih₂))
  | loop hc _ ih => exact Nat.le_trans (Nat.le_succ _) (Nat.le_trans hc.grows.count ih)
  | leave | retNone | noStmts => exact Nat.le_refl _
  | ret _ _ he => exact he.grows.count
  | nested _ ih | block _ _ _ ih => exact ih
  | stmts _ _ ih₁ ih₂ => exact Nat.le_trans ih₁ ih₂

theorem LetsGo.fits_jump {selfSlot : Option Int32} {ds : List (Debt × Binding)}
    (h : LetsGo selfSlot ds m) {c : Code} (hc : c.all Instr.isPlain = true) {l : String}
    (hl : Γ l = y) (outer x : List Debt) (pos : Nat) :
    Fits Γ outer (ds.map (·.1) ++ y) x pos (m ++ quiet (c ++ [.jump l])) [] := by
  have hat : At Γ ⟨.jump l, [], none⟩ y x :=
    ⟨nofun, fun l' hl' => .inr (Option.some.inj hl' ▸ hl), nofun, nofun⟩
  have hsettled := (h.fits Γ outer y pos).append (Fits.plain hc Γ outer y _) rfl
  rw [Noted.quiet_append, ← List.append_assoc]
  exact hsettled.append (.single hat nofun rfl outer _) rfl

theorem Notes.fits {ctx : Context} {ws : List Holder} {task : Task} {s s' : State}
    (h : Notes ctx ws pos task s m bs s') (hd : ctx.depth = ws.length) (base : List Debt) :
    Assignable s.labels.count s'.labels.count fun Γ => ExitDebts Γ ctx ws base →
      Fits Γ (debtsOf ws ++ base) (debtsOf ws ++ base) (debtsOf ws ++ base) pos m bs := by
  induction h with
  | @simple ctx ws pos span node s o s' hn h =>
    have hclosed := h.closed (insular_serves _ _) (fun hs => by rw [hn] at hs; cases hs)
      (fun _ _ => trivial) nofun
    exact (hclosed.keeps _).mono fun Γ hΓ _ => .keeping hΓ _
  | @ifThen ctx ws pos span cond yes a s s₁ s₂ o m bs hc hy ih =>
    have hclosed := hc.closed (insular_serves _ _)
    have hparts := (Assignable.choose s.labels.count fun _ => debtsOf ws ++ base).and
      ((hclosed.keeps (debtsOf ws ++ base)).and (ih hd) hc.grows.count hy.grows) (Nat.le_succ _)
      (Nat.le_trans hc.grows.count hy.grows)
    refine hparts.mono fun Γ ⟨hlabels, hcond, hyes⟩ hs => ?_
    have hend := hlabels _ (number?_part s "end" (by decide : "if" ∈ stems))
    refine (hyes hs).enclose (by simp; omega) ?_ ?_
    · exact List.forall_mem_append.2 ⟨hcond, List.forall_mem_singleton.2 (.jumpTo rfl hend)⟩
    · exact List.forall_mem_singleton.2 (.define hend)
  | @ifElse ctx ws pos span cond yes no a s s₁ s₂ s₃ o m m' bs bs' hc hy hn ih₁ ih₂ =>
    have hclosed := hc.closed (insular_serves _ _)
    have hblocks := (ih₁ hd).and (ih₂ hd) hy.grows hn.grows
    have hparts := (Assignable.choose s.labels.count fun _ => debtsOf ws ++ base).and
      ((hclosed.keeps (debtsOf ws ++ base)).and hblocks hc.grows.count
        (Nat.le_trans hy.grows hn.grows)) (Nat.le_succ _)
      (Nat.le_trans hc.grows.count (Nat.le_trans hy.grows hn.grows))
    refine hparts.mono fun Γ ⟨hlabels, hcond, hyes, hno⟩ hs => ?_
    have helse := hlabels _ (number?_part s "else" (by decide : "if" ∈ stems))
    have hend := hlabels _ (number?_part s "end" (by decide : "if" ∈ stems))
    have hfirst : Fits Γ (debtsOf ws ++ base) (debtsOf ws ++ base) (debtsOf ws ++ base) pos
        (quiet (o.code ++ [.jumpFalse (Labels.part (s.label "if") "else")]) ++ m
          ++ quiet [.jump (Labels.part (s.label "if") "end"),
            .label (Labels.part (s.label "if") "else")]) bs := by
      refine (hyes hs).enclose (by simp; omega) ?_ ?_
      · exact List.forall_mem_append.2 ⟨hcond, List.forall_mem_singleton.2 (.jumpTo rfl helse)⟩
      · exact List.forall_mem_cons.2 ⟨.jumpTo rfl hend, List.forall_mem_singleton.2 (.define helse)⟩
    have hboth := hfirst.append (hno hs) (by simp; omega)
    have hlast := hboth.append (.keeping (List.forall_mem_singleton.2 (.define hend)) _) rfl
    rwa [List.append_nil] at hlast
  | @loop ctx ws pos span cond body a s s₁ s₂ o m bs hc hb ih =>
    have hclosed := hc.closed (insular_serves _ _)
    have hparts := (Assignable.choose s.labels.count fun _ => debtsOf ws ++ base).and
      ((hclosed.keeps (debtsOf ws ++ base)).and (ih hd) hc.grows.count hb.grows) (Nat.le_succ _)
      (Nat.le_trans hc.grows.count hb.grows)
    refine hparts.mono fun Γ ⟨hlabels, hcond, hbody⟩ hs => ?_
    have htest := hlabels _ (number?_part s "test" (by decide : "while" ∈ stems))
    have hend := hlabels _ (number?_part s "end" (by decide : "while" ∈ stems))
    have hinside : ExitDebts Γ
        { ctx with loop := some ⟨Labels.part (s.label "while") "end", ctx.depth⟩ } ws base := by
      refine ⟨fun loop hl => ?_, hs.exit⟩
      obtain rfl := Option.some.inj hl
      refine ⟨Nat.le_of_eq hd, ?_⟩
      rw [hd, Nat.sub_self, List.drop_zero]
      exact hend
    refine (hbody hinside).enclose (by simp; omega) ?_ ?_
    · refine List.forall_mem_append.2 ⟨List.forall_mem_cons.2 ⟨.define htest, hcond⟩, ?_⟩
      exact List.forall_mem_singleton.2 (.jumpTo rfl hend)
    · exact List.forall_mem_cons.2 ⟨.jumpTo rfl htest, List.forall_mem_singleton.2 (.define hend)⟩
  | @leave ctx ws pos span loop s m hl hr =>
    refine .of_forall fun Γ hs => ?_
    have hfits := hr.fits_jump (drainIf_plain (duePending (ctx.leftScopes loop.depth s.pushed)))
      (hs.loop loop hl).2 (debtsOf ws ++ base) (debtsOf ws ++ base) pos
    rwa [map_fst_owed, ← List.append_assoc, debtsOf_take_drop] at hfits
  | retNone hr hv hl =>
    refine .of_forall fun Γ hs => ?_
    have hfits := hl.fits_jump (c := []) rfl (hs.exit _ hr)
    rw [map_fst_owed] at hfits
    exact hfits _ _ _
  | @ret ctx ws pos span routine e s s₁ o m hr hv he hl =>
    have hclosed := he.closed (insular_serves _ _)
    refine (hclosed.keeps (debtsOf ws ++ base)).mono fun Γ hvalue hs => ?_
    have hfits := hl.fits_jump (c := []) rfl (hs.exit _ hr) (debtsOf ws ++ base)
      (debtsOf ws ++ base) (pos + o.code.length)
    rw [map_fst_owed] at hfits
    rw [List.append_assoc]
    exact (Fits.keeping hvalue pos).append hfits (by simp)
  | nested _ ih => exact ih hd
  | noStmts => exact .of_forall fun Γ _ => .nil Γ _ _ _
  | stmts h hs ih₁ ih₂ =>
    refine ((ih₁ hd).and (ih₂ hd) h.grows hs.grows).mono fun Γ ⟨hfirst, hrest⟩ hsur => ?_
    exact (hfirst hsur).append (hrest hsur) rfl
  | @block ctx ws pos force scope body s s₁ c m m' bs hc hb hr ih =>
    have hdepth : (ctx.enter scope s.pushed).depth = (Holder.mk pos scope.owned :: ws).length := by
      rw [Context.depth_enter, hd, List.length_cons]
    refine (ih hdepth).mono fun Γ hbody hs => ?_
    have hinside := hbody (hs.enter scope s.pushed ⟨pos, scope.owned⟩)
    rw [debtsOf_cons, List.append_assoc] at hinside
    have hsettled := hinside.append (hr.fits Γ _ (debtsOf ws ++ base) _) rfl
    have hdrain := Fits.plain (drainIf_plain (s₁.pushed || !scope.owned.isEmpty || force)) Γ
      (Holder.debts ⟨pos, scope.owned⟩ ++ (debtsOf ws ++ base)) (debtsOf ws ++ base)
      (pos + c.length + (m ++ m').length)
    have hend := hsettled.append hdrain rfl
    rw [List.append_nil, List.append_nil] at hend
    have hscope := Fits.scope (w := ⟨⟨pos, scope.owned⟩, pos + c.length + m.length + m'.length
      + (drainIf (s₁.pushed || !scope.owned.isEmpty || force)).length⟩) rfl hc.isPlain hc.ne_nil hend
      (by simp; omega)
    simpa only [List.append_assoc] using hscope

end Generator
end IntervalStack
