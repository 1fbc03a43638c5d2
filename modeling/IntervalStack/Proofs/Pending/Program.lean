import IntervalStack.Proofs.ListingLabels
import IntervalStack.Proofs.Pending.Stmt
import Mathlib.Data.List.Chain

/-! Pending decrements in the code of routines and whole programs. -/

namespace IntervalStack.Generator
open Outline (plain wrap)
open IntervalStack.Flow (Assignable)

/-- Code that schedules nothing, or lies where decrements are not followed, is passed with nothing
pending. -/
theorem fits_zero {lo hi : Nat} {Γ : String → Nat} {pre c : Code}
    (hl : ∀ l, .label l ∈ c → Γ l = 0)
    (hp : RefCounter.push ∈ c → (pre ++ c).length ≤ lo) :
    (pendingFlow lo hi).Fits Γ pre 0 (plain c) 0 := by
  induction c generalizing pre with
  | nil => exact Nat.le_refl 0
  | cons i c ih =>
    have hpush : i = RefCounter.push → lo ≤ pre.length → False := by
      rintro rfl hlo
      have hlen := hp List.mem_cons_self
      rw [List.length_append, List.length_cons] at hlen
      omega
    refine .instr ⟨?_, ⟨Nat.zero_le _, fun _ _ _ => rfl⟩, ?_, ?_⟩ (ih ?_ ?_)
    · rintro l rfl
      exact hl l List.mem_cons_self
    · exact fun l _ => ⟨fun hi hlo => (hpush hi hlo).elim, fun _ => Nat.zero_le _⟩
    · exact fun _ => ⟨fun hi hlo => (hpush hi hlo).elim, fun _ => Nat.zero_le _⟩
    · exact fun l hmem => hl l (List.mem_cons_of_mem _ hmem)
    · intro hmem
      simpa using hp (List.mem_cons_of_mem _ hmem)

theorem fits_epilogue {lo hi : Nat} {Γ : String → Nat} {pre : Code} {locals params : UInt32}
    {ty : Ty} {c : Code} (h : Frame.epilogue cells locals params ty = .ok c) :
    (pendingFlow lo hi).Fits Γ pre 0 (plain c) 0 := by
  obtain ⟨c', rfl, hc⟩ := epilogue_local h
  refine fits_zero (fun l hl => ?_) fun hp => ?_
  · rcases List.mem_append.1 hl with hl | hl
    · cases List.all_eq_true.1 hc _ hl
    · simp at hl
  · rcases List.mem_append.1 hp with hp | hp
    · cases List.all_eq_true.1 hc _ hp
    · simp [RefCounter.push] at hp

section
variable (lo hi : Nat) {program : Program} {structs : StructTable} {s s' : State} {o : Outline}

theorem RoutineEmits.fits {spec : RoutineSpec} (h : RoutineEmits program structs spec s o s')
    (pre : Code) (hlen : (pre ++ o.code).length ≤ hi) :
    Assignable s.labels.count s'.labels.count fun Γ =>
      hi ≤ Γ Environment.divideByZero → Γ spec.label = 0 → (pendingFlow lo hi).Fits Γ pre 0 o 0 := by
  cases h with
  | @mk prologue epilogue o r s' hp hb hr he =>
    rw [Outline.code_wrap] at hlen
    let exit := s.label "exit"
    let p₁ := pre ++ [.label spec.label] ++ prologue
    let p₂ := p₁ ++ o.code
    let p₃ := p₂ ++ [.label exit]
    let p₄ := p₃ ++ r.code
    let x₂ := bound s'.exitPushed 0 p₂.length
    let x₄ := bound (!spec.owned.isEmpty) x₂ p₄.length
    have hlen₂ : p₂.length = p₁.length + o.code.length := List.length_append
    have hlen₃ : p₃.length = p₂.length + 1 := List.length_append
    have hlen₄ : p₄.length = p₃.length + r.code.length := List.length_append
    have hlast : p₄.length ≤ hi := by
      refine Nat.le_trans ?_ hlen
      simp only [p₄, p₃, p₂, p₁, exit, Outline.code_append, Outline.code_plain, List.length_append,
        List.length_cons, List.length_nil]
      omega
    have hx₂ : x₂ ≤ p₂.length := bound_le (Nat.zero_le _)
    have hx₄ : x₄ ≤ p₄.length := bound_le (by omega)
    have hclosed := hb.settled lo hi (fun loop hl => nomatch hl) p₁ 0 0
      (Nat.zero_le _) (fun _ => Nat.le_refl 0) (show p₂.length ≤ hi by omega)
    have hrel : Passes lo hi s'.labels.count s'.labels.count _ r := hr.passes
    refine ((Assignable.choose s.labels.count fun _ => x₂).and
      (hclosed.and (hrel.fits p₃ x₂ (by omega) (show p₄.length ≤ hi by omega)) hb.grows.count
        (Nat.le_refl _)) (Nat.le_succ _) hb.grows.count).mono ?_
    rintro Γ ⟨hΓ, hΓ₁, hΓ₂⟩ hd hlabel
    have hexit : Γ exit = x₂ := hΓ _ (number?_label s (by decide))
    have hbody : Surrounds hi Γ (routineContext program structs spec exit) (s.entering spec).pushed
        0 p₂.length s'.exitPushed := by
      refine ⟨hd, fun loop hl => (nomatch hl), fun _ _ _ => Nat.zero_le _, fun r hr hex => ?_⟩
      cases hr
      show p₂.length ≤ Γ exit
      rw [hexit]
      simp only [x₂, hex]
      exact Nat.le_refl _
    have hdrain : (pendingFlow lo hi).Fits Γ p₄ x₄ (plain (drainIf s'.exitPushed)) 0 := by
      cases hex : s'.exitPushed with
      | true => exact fits_drain (z := 0) hx₄ (Nat.le_refl 0)
      | false =>
        have howned : (!spec.owned.isEmpty) = false := by
          cases ho : !spec.owned.isEmpty with
          | false => rfl
          | true => exact (hb.grows.exitPushed ho).symm.trans hex
        simp only [x₄, x₂, hex, howned]
        exact Nat.le_refl 0
    have hrest : (pendingFlow lo hi).Fits Γ p₃ x₂ (r ++ (plain (drainIf s'.exitPushed)
        ++ wrap (.epilogue spec.returnType) (plain epilogue))) 0 := by
      refine (hΓ₂ hd).append (hdrain.append (Flow.Fits.wrap (fits_epilogue he) ?_))
      intro scopes cond body h
      cases h
    have hstart : (pendingFlow lo hi).Fits Γ p₁ 0 (o ++ (plain [.label exit] ++ (r
        ++ (plain (drainIf s'.exitPushed) ++ wrap (.epilogue spec.returnType) (plain epilogue)))))
        0 := (hΓ₁ hbody).append (fits_label hexit (Nat.zero_le _) hx₂ hrest)
    refine Flow.Fits.wrap ?_ (fun scopes cond body h => nomatch h)
    simp only [Outline.append_assoc, Outline.plain_cons, Outline.instr_append]
    refine fits_label hlabel (Nat.le_refl 0) (Nat.zero_le _) ?_
    refine (fits_plain (ordinary_of_local (prologue_local hp)) (Nat.zero_le _)).append ?_
    rw [Outline.code_plain]
    exact hstart

theorem Routines.fits {specs : List RoutineSpec} (h : Routines program structs specs s o s')
    (pre : Code) (hlen : (pre ++ o.code).length ≤ hi) :
    Assignable s.labels.count s'.labels.count fun Γ =>
      hi ≤ Γ Environment.divideByZero → (∀ spec ∈ specs, Γ spec.label = 0) →
        (pendingFlow lo hi).Fits Γ pre 0 o 0 := by
  induction h generalizing pre with
  | nil => exact .of_forall fun Γ _ _ => Nat.le_refl 0
  | cons h hs ih =>
    rw [Outline.code_append, ← List.append_assoc] at hlen
    have hlen₁ := hlen
    rw [List.length_append] at hlen₁
    refine ((h.fits lo hi pre (by omega)).and (ih _ hlen) h.grows hs.grows).mono ?_
    rintro Γ ⟨hΓ₁, hΓ₂⟩ hd hspecs
    exact (hΓ₁ hd (hspecs _ List.mem_cons_self)).append
      (hΓ₂ hd fun spec hspec => hspecs spec (List.mem_cons_of_mem _ hspec))

end

theorem fits_errorHandlers {lo hi : Nat} {Γ : String → Nat} {pre : Code}
    (hd : Γ Environment.divideByZero = hi) (hg : Γ Environment.generalError = hi)
    (hlen : hi ≤ pre.length) :
    (pendingFlow lo hi).Fits Γ pre 0 (plain Environment.errorHandlers) hi := by
  refine fits_label hg (Nat.zero_le _) hlen ?_
  refine fits_ordinary rfl (by simp; omega) (fits_ordinary rfl (by simp; omega) ?_)
  refine ⟨hi, hi, Nat.le_refl _, ⟨fun l hl => (nomatch hl), ⟨by simp; omega, fun _ hlt => ?_⟩,
    fun l hl => (nomatch hl), fun hf => (nomatch hf)⟩, ?_⟩
  · simp only [List.length_append, List.length_cons, List.length_nil] at hlt
    omega
  refine fits_label hd (Nat.le_refl _) (by simp; omega) ?_
  refine fits_ordinary rfl (by simp; omega) ?_
  exact fits_jump (z := hi) (by simp; omega) (Nat.le_of_eq hg.symm) (Nat.le_refl _)

theorem push_not_mem_printScalar {k : ScalarKind} {s s' : State} {c : Code}
    (h : printScalar k s = .ok (c, s')) : RefCounter.push ∉ c := by
  rcases printScalar_ok h with ⟨-, -, rfl⟩ | ⟨-, -, rfl⟩ | ⟨-, -, rfl⟩ | ⟨-, -, rfl⟩ <;>
    simp [printBoolCode, Environment.printString, RefCounter.push]

theorem push_not_mem_intervalPrinters {ks : List ScalarKind} {s s' : State} {c : Code}
    (h : intervalPrinters ks s = .ok (c, s')) : RefCounter.push ∉ c := by
  induction ks generalizing s c with
  | nil =>
    rw [intervalPrinters, pure_ok] at h
    simp [h.1]
  | cons k ks ih =>
    simp only [intervalPrinters, bind_ok, pure_ok] at h
    obtain ⟨c₁, s₁, h₁, c₂, s₂, h₂, rfl, rfl⟩ := h
    obtain ⟨low, s₁, high, hlow, hhigh, rfl⟩ := intervalPrinter_ok h₁
    have hload : RefCounter.push ≠ (Instr.load? k.ty).getD .loadI := by
      cases k <;> simp [ScalarKind.ty, Instr.load?, RefCounter.push]
    have hprinter : RefCounter.push ≠ .call k.printer := by
      cases k <;> decide
    simp only [List.mem_append, ih h₂, or_false, printerCode, push_not_mem_printScalar hlow,
      push_not_mem_printScalar hhigh, List.mem_cons, hload, hprinter, Environment.printString]
    simp [RefCounter.push]

section
variable {program : Program} {capacity : UInt32} {o : Outline}

/-- In the listing of a program the flow has a solution, for the decrements that are scheduled in
the parts of the listing. -/
theorem Listing.fits (h : Listing program capacity o) :
    ∃ lo hi Γ, (pendingFlow lo hi).Fits Γ [] 0 o hi ∧
      ∀ p a c, (p, a, c) ∈ o.spans 0 → lo ≤ a ∧ a + c.length ≤ hi := by
  cases h with
  | @mk counter structs specs main routines printers s₁ s₂ s₃ hc hs hm hr hd hp =>
    let start := runtime counter program structs
    let before := start ++ [.label Environment.mainLabel] ++ (Frame.entry cells ++ RefCounter.reset)
    let mainPart := wrap .main (plain (.label Environment.mainLabel :: (Frame.entry cells
      ++ RefCounter.reset)) ++ main ++ plain [.halt])
    let p₁ := start ++ mainPart.code
    let p₂ := p₁ ++ routines.code
    let p₃ := p₂ ++ printers
    let lo := start.length
    let hi := p₃.length
    let q := before ++ main.code
    have hq : q.length = before.length + main.code.length := List.length_append
    have hp₁ : p₁.length = q.length + 1 := by simp [p₁, mainPart, q, before]; omega
    have hp₂ : p₂.length = p₁.length + routines.code.length := List.length_append
    have hp₃ : p₃.length = p₂.length + printers.length := List.length_append
    have hmain := hm.settled lo hi (by rintro _ ⟨⟩) before 0 0 (Nat.zero_le _)
      (fun _ => Nat.le_refl 0) (show q.length ≤ hi by omega)
    have hprint : Assignable s₂.labels.count s₃.labels.count fun Γ : String → Nat =>
        ∀ l, IsBetween s₂.labels.count s₃.labels.count l → Γ l = 0 :=
      ⟨fun _ => 0, fun Γ hΓ l ⟨n, hn, h₂, h₃⟩ => hΓ l n hn h₂ h₃⟩
    have hall := (hmain.and (hr.fits lo hi p₁ (show p₂.length ≤ hi by omega)) hm.grows.count
      hr.grows).and hprint (Nat.le_trans hm.grows.count hr.grows) (intervalPrinters_grows hp).count
    obtain ⟨Γ, hfixed, ⟨hΓ₁, hΓ₂⟩, hΓ₃⟩ := hall.labels fun l =>
      if l = Environment.divideByZero ∨ l = Environment.generalError then hi else 0
    have hdivide : Γ Environment.divideByZero = hi := (hfixed _ (by decide)).trans (if_pos (.inl rfl))
    have hgeneral : Γ Environment.generalError = hi :=
      (hfixed _ (by decide)).trans (if_pos (.inr rfl))
    have hzero : ∀ l, IsFixed l → Γ l = 0 := fun l hl =>
      (hfixed l hl.number).trans (if_neg (not_or.2 ⟨hl.notDivide, hl.notGeneral⟩))
    have hbody : Surrounds hi Γ (mainContext program structs) State.initial.pushed 0 q.length
        s₁.exitPushed :=
      ⟨Nat.le_of_eq hdivide.symm, by rintro _ ⟨⟩, by rintro _ ⟨⟩, by rintro _ ⟨⟩⟩
    have hruntime : (pendingFlow lo hi).Fits Γ [] 0 (plain start) 0 :=
      fits_zero (fun l hl => hzero l (isFixed_of_mem_runtime hl)) fun _ => Nat.le_refl _
    have hend : (pendingFlow lo hi).Fits Γ q 0 (plain [.halt]) 0 :=
      fits_zero (fun l hl => by simp at hl) fun hp => by simp [RefCounter.push] at hp
    have hmainPart : (pendingFlow lo hi).Fits Γ start 0 mainPart 0 := by
      refine Flow.Fits.wrap ?_ (by rintro _ _ _ ⟨⟩)
      simp only [Outline.append_assoc, Outline.plain_cons, Outline.instr_append]
      refine fits_label (hzero _ isFixed_main) (Nat.le_refl 0) (Nat.zero_le _) ?_
      refine (fits_plain rfl (Nat.zero_le _)).append ?_
      rw [Outline.code_plain]
      exact (hΓ₁ hbody).append hend
    have hprinters : (pendingFlow lo hi).Fits Γ p₂ 0 (plain printers) 0 :=
      fits_zero (fun l hl => (intervalPrinters_labels hp hl).elim (hΓ₃ l) (hzero l))
        fun h => absurd h (push_not_mem_intervalPrinters hp)
    have hroutines : (pendingFlow lo hi).Fits Γ p₁ 0 routines 0 :=
      hΓ₂ (Nat.le_of_eq hdivide.symm) fun spec hspec => hzero _ ((hd spec).1 hspec).isRoutineLabel.isFixed
    have hhandlers : (pendingFlow lo hi).Fits Γ p₃ 0 (plain Environment.errorHandlers) hi :=
      fits_errorHandlers hdivide hgeneral (Nat.le_refl _)
    refine ⟨lo, hi, Γ, ?_, fun p a c hspan => ?_⟩
    · have htail : (pendingFlow lo hi).Fits Γ p₂ 0
          (plain printers ++ plain Environment.errorHandlers) hi :=
        hprinters.append (by rw [Outline.code_plain]; exact hhandlers)
      simp only [Outline.append_assoc]
      refine hruntime.append ?_
      rw [Outline.code_plain, List.nil_append]
      exact hmainPart.append (hroutines.append htail)
    · simp only [Outline.append_assoc, Outline.spans_append, Outline.spans_plain, List.nil_append,
        List.append_nil, List.mem_append, Outline.code_plain, Nat.zero_add] at hspan
      rcases hspan with hspan | hspan
      · have hb := Outline.spans_bounds hspan
        have hlen : start.length + mainPart.code.length = p₁.length := List.length_append.symm
        exact ⟨hb.1, Nat.le_trans hb.2 (by show start.length + mainPart.code.length ≤ hi; omega)⟩
      · have hb := Outline.spans_bounds hspan
        have hlen : start.length + mainPart.code.length = p₁.length := List.length_append.symm
        have hlo : start.length ≤ start.length + mainPart.code.length := Nat.le_add_right _ _
        refine ⟨Nat.le_trans hlo hb.1, Nat.le_trans hb.2 ?_⟩
        show start.length + mainPart.code.length + routines.code.length ≤ hi
        omega

end

end Generator

def Code.DrainsBetween (code : Code) (i k : Nat) : Prop :=
  ∀ path, (i :: path).IsChain code.Edge → (i :: path).getLast? = some k →
    ∃ j ∈ path, code[j]? = some RefCounter.drain

/-- No scheduled decrement is lost: from a place in the main program or in a routine at which one is
scheduled, every way to the end of that code passes a drain, and so does every way to the jump back
to the start of a loop around the place. -/
def Outline.LosesNone (o : Outline) : Prop :=
  ∀ p start c, (p, start, c) ∈ o.spans 0 → p = .main ∨ (∃ spec, p = .routine spec) →
    ∀ i, start ≤ i → i < start + c.length → o.code[i]? = some RefCounter.push →
      (∀ k, start ≤ k → k < start + c.length → o.code[k]? = some .ret ∨ o.code[k]? = some .halt →
        o.code.DrainsBetween i k) ∧
      ∀ scopes cond body a d, (.stmt scopes (.loop cond body), a, d) ∈ o.spans 0 →
        a ≤ i → i < a + d.length →
          ∃ l, o.code[a]? = some (.label l) ∧ o.code[a + d.length - 2]? = some (.jump l) ∧
            o.code.DrainsBetween i (a + d.length - 2)

namespace Generator

variable {lo hi : Nat} {Γ : String → Nat} {A : Nat → Nat} {code : Code}

theorem pending_along (hA : (pendingFlow lo hi).Solves Γ A [] code) {path : List Nat} {i k v : Nat}
    (hpath : (i :: path).IsChain code.Edge) (hk : (i :: path).getLast? = some k)
    (hn : ∀ j ∈ i :: path, code[j]? ≠ some RefCounter.drain) (hv : v ≤ A i) : v ≤ A k := by
  induction path generalizing i with
  | nil =>
    obtain rfl : i = k := by simpa using hk
    exact hv
  | cons j path ih =>
    obtain ⟨hedge, hrest⟩ := List.isChain_cons_cons.1 hpath
    obtain ⟨x, l, hx, hstep⟩ := hA.edge hedge
    refine ih hrest (by simpa using hk) (fun q hq => hn q (List.mem_cons_of_mem _ hq)) ?_
    refine Nat.le_trans hv (hstep.2 ?_)
    rintro rfl
    exact hn i List.mem_cons_self hx

theorem drainsBetween_of_le (hA : (pendingFlow lo hi).Solves Γ A [] code) {i k : Nat}
    (hi : code[i]? = some RefCounter.push) (hlo : lo ≤ i) (hne : i ≠ k) (hk : A k ≤ i) :
    code.DrainsBetween i k := by
  intro path hpath hlast
  cases path with
  | nil => exact absurd (by simpa using hlast) hne
  | cons j path =>
    obtain ⟨hedge, hrest⟩ := List.isChain_cons_cons.1 hpath
    obtain ⟨x, l, hx, hstep⟩ := hA.edge hedge
    obtain rfl : RefCounter.push = x := Option.some.inj (hi.symm.trans hx)
    have hlt : i < code.length := (List.getElem?_eq_some_iff.1 hi).1
    have hj : i < A j := by
      have h := hstep.1 rfl
      rw [List.length_take, Nat.min_eq_left (Nat.le_of_lt hlt)] at h
      exact h hlo
    false_or_by_contra
    rename_i hcontra
    have hnone : ∀ q ∈ j :: path, code[q]? ≠ some RefCounter.drain :=
      fun q hq hd => hcontra ⟨q, hq, hd⟩
    have := pending_along hA hrest (by simpa using hlast) hnone hj
    omega

theorem Listing.losesNone {program : Program} {capacity : UInt32} {o : Outline}
    (ho : Listing program capacity o) : o.LosesNone := by
  intro p start c hspan _ i hstart hstop hpush
  obtain ⟨lo, hi, Γ, hfits, hbounds⟩ := ho.fits
  obtain ⟨A, -, -, hA, hparts⟩ := hfits.solution
  have hlo := (hbounds p start c hspan).1
  have hhi := (hbounds p start c hspan).2
  have hat : ∀ {q : Nat} {x : Instr}, o.code[q]? = some x →
      (pendingFlow lo hi).At Γ (o.code.take q) x (A q) (A (q + 1)) := by
    intro q x hq
    have h := hA.at hq
    simpa only [List.nil_append, List.length_nil, Nat.zero_add] using h
  have hlength : ∀ {q : Nat} {x : Instr}, o.code[q]? = some x → (o.code.take q).length = q := by
    intro q x hq
    rw [List.length_take, Nat.min_eq_left (Nat.le_of_lt (List.getElem?_eq_some_iff.1 hq).1)]
  refine ⟨fun k hk hk' hend => ?_, fun scopes cond body a d hloop ha hd => ?_⟩
  · obtain ⟨x, hx, hx'⟩ : ∃ x, o.code[k]? = some x ∧ (x = .ret ∨ x = .halt) := by
      rcases hend with hend | hend
      · exact ⟨_, hend, .inl rfl⟩
      · exact ⟨_, hend, .inr rfl⟩
    have hzero : A k = 0 := by
      refine (hat hx).check.2 ?_ ?_ hx'
      · rw [hlength hx]
        omega
      · rw [hlength hx]
        omega
    refine drainsBetween_of_le hA hpush (by omega) ?_ (by omega)
    rintro rfl
    rw [hpush] at hx
    cases hx
    rcases hx' with hx' | hx' <;> cases hx'
  · obtain ⟨l, l', d', rfl⟩ := hparts _ a d hloop scopes cond body rfl
    have hlen : (.label l :: d' ++ [.jump l, .label l'] : Code).length = d'.length + 3 := by simp
    have hfirst : o.code[a]? = some (.label l) :=
      Outline.getElem?_of_mem_spans (q := 0) hloop (by omega)
    have hback : o.code[a + (d'.length + 1)]? = some (.jump l) := by
      rw [Outline.getElem?_of_mem_spans hloop (by omega)]
      simp
    rw [hlen] at hd ⊢
    rw [show a + (d'.length + 3) - 2 = a + (d'.length + 1) by omega]
    refine ⟨l, hfirst, hback, drainsBetween_of_le hA hpush (by omega) ?_ ?_⟩
    · rintro rfl
      rw [hpush] at hback
      cases hback
    · -- The jump back reaches the start of the loop, which lies in front of `i`.
      obtain ⟨x, _, hx, hstep⟩ := hA.edge (.jump hback rfl hfirst)
      obtain rfl : .jump l = x := Option.some.inj (hback.symm.trans hx)
      have hle := (hat hfirst).check.1
      rw [hlength hfirst] at hle
      exact Nat.le_trans (hstep.2 (by simp [RefCounter.drain])) (Nat.le_trans hle ha)

theorem drain_on_every_path {program : Program} {capacity : UInt32} {code : Code}
    (h : generate program capacity = .ok code) :
    (∃ o, Listing program capacity o ∧ o.code = code) ∧
      ∀ o, Listing program capacity o → o.code = code → o.LosesNone :=
  ⟨generate_listing h, fun _ ho _ => ho.losesNone⟩

/-- A loop whose condition makes a new record in every turn. -/
def looping : Program :=
  ⟨0, [], [], ⟨.empty, [⟨.loop (.binary .less
    (.bound (.interval (.int 1) (.int 2)) .low) (.int 3)) .empty, .none⟩]⟩⟩

theorem drain_on_every_path_looping :
    ∃ code, generate looping 4 = .ok code ∧ code[187]? = some RefCounter.push ∧
      (∃ o, Listing looping 4 o ∧ o.code = code) ∧
        ∀ o, Listing looping 4 o → o.code = code → o.LosesNone := by
  have h : generate looping 4 = .ok _ := rfl
  exact ⟨_, h, by decide, drain_on_every_path h⟩

end IntervalStack.Generator
