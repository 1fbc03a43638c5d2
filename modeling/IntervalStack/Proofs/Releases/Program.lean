import IntervalStack.Proofs.Linking.Program
import IntervalStack.Proofs.Releases.Stmt

/-! What is owed in whole listings: nothing outside of the main program and the routines, and nothing
where a routine starts and where it ends. -/

namespace IntervalStack.Generator
open Noted (quiet opening Fits Keeps At)
open IntervalStack.Flow (Assignable)

def Cleared (Γ : String → List Debt) : Prop := ∀ l, number? l = none → Γ l = []

def numberless : Linkage := ⟨fun l => number? l = none, fun _ => True, fun _ => True, True⟩

variable {program : Program} {structs : StructTable} {pos lo hi : Nat} {c : Code} {f : List String}
  {m : List Noted} {bs rs : List Extent} {r : Extent}

theorem numberless_serves (program : Program) (structs : StructTable) :
    Serves numberless program structs := by
  refine ⟨fun i hi => ?_, fun _ => trivial, fun _ _ _ => trivial, fun _ => trivial, fun _ => trivial⟩
  have hdivide : number? Environment.divideByZero = none := by decide
  cases i with
  | jump l | jumpTrue l | jumpFalse l | jumpPos l | jumpNeg l | jumpFZero l | jumpFPos l
  | jumpFNeg l =>
    obtain rfl := beq_iff_eq.1 hi
    exact hdivide
  | label | dLabel | ret | halt => cases hi
  | _ => trivial

theorem numberless_servesCounter : ServesCounter numberless := by
  refine ⟨?_, ?_, trivial, trivial, fun _ _ => trivial, trivial⟩
  · change number? RefCounter.overflowHandler = none
    decide
  · change number? Environment.generalError = none
    decide

theorem Closed.idle (h : Closed numberless lo hi f c) (hf : ∀ l ∈ f, number? l = none) :
    Assignable lo hi fun Γ => Cleared Γ → ∀ i ∈ c, Keeps Γ [] i := by
  refine ⟨fun _ => [], fun Γ hΓ hcleared i hi => ?_⟩
  obtain ⟨ns, hp, -, hns⟩ := h.labelled
  have hlabel : ∀ l ∈ c.labels, Γ l = [] := by
    intro l hl
    rcases List.mem_append.1 (hp.mem_iff.1 hl) with hl | hl
    · exact hcleared l (hf l hl)
    · obtain ⟨n, hn, hlt, hle⟩ := hns l hl
      exact hΓ l n hn hlt hle
  refine ⟨fun l hl => ?_, fun l hl => .inr ?_, fun _ => rfl, fun _ => rfl⟩
  · obtain rfl : i = .label l := hl
    exact hlabel l (Code.mem_labels.2 hi)
  · exact ((h.within i hi).jumpTarget hl).elim (hcleared l) (hlabel l)

theorem prologue_ne_nil {size : UInt32} (h : Frame.prologue cells size = .ok c) : c ≠ [] := by
  simp only [Frame.prologue, bind, Except.bind] at h
  split at h
  · cases h
  split at h
  · cases h
  cases h
  simp

theorem RoutineNotes.fits {spec : RoutineSpec} {s s' : State}
    (h : RoutineNotes program structs spec pos s m bs r s') (hl : number? spec.label = none) :
    Assignable s.labels.count s'.labels.count fun Γ => Cleared Γ →
      Fits Γ [] [] [] pos m (bs ++ [r]) := by
  cases h with
  | @mk prologue epilogue m bs m' s' hp hb hr he =>
    obtain ⟨epilogue, rfl, hep⟩ := epilogue_plain he
    have hbody := hb.fits rfl (Holder.debts ⟨pos + 1, spec.owned⟩)
    have hparts := (Assignable.choose s.labels.count fun _ => Holder.debts ⟨pos + 1, spec.owned⟩).and
      hbody (Nat.le_succ _) hb.grows
    refine hparts.mono fun Γ ⟨hlabels, hbody⟩ hΓ => ?_
    have hexit := hlabels _ (number?_label s (by decide : "exit" ∈ stems))
    have hinside := hbody ⟨nofun, fun r hr => Option.some.inj hr ▸ hexit⟩
    have hret : At Γ ⟨.ret, [], none⟩ [] [] := ⟨nofun, nofun, nofun, fun _ => rfl⟩
    have hplain : (drainIf s'.exitPushed ++ epilogue).all Instr.isPlain = true := by
      rw [List.all_append, drainIf_plain, hep]
      rfl
    have hmet := hinside.append (.keeping (List.forall_mem_singleton.2 (.define hexit)) _) rfl
    have hrefs := hr.fits Γ (Holder.debts ⟨pos + 1, spec.owned⟩) []
    simp only [List.append_nil] at hrefs
    have hdone := (hmet.append (hrefs _) rfl).append (Fits.plain hplain Γ _ [] _) rfl
    have hend : Fits Γ (Holder.debts ⟨pos + 1, spec.owned⟩ ++ [])
        (Holder.debts ⟨pos + 1, spec.owned⟩ ++ []) [] (pos + 1 + prologue.length)
        (m ++ quiet [.label (s.label "exit")] ++ m'
          ++ quiet (drainIf s'.exitPushed ++ (epilogue ++ [.ret]))) bs := by
      have hlast := hdone.append (.single hret nofun rfl _ _) rfl
      simp only [List.append_nil, debtsOf, List.flatMap_nil, List.nil_append] at hlast ⊢
      rw [← List.append_assoc, Noted.quiet_append, ← List.append_assoc]
      exact hlast
    have hscope := Fits.scope (w := ⟨⟨pos + 1, spec.owned⟩, pos + 1 + prologue.length + m.length + 1
      + m'.length + (drainIf s'.exitPushed ++ (epilogue ++ [Instr.ret])).length⟩) rfl
      (prologue_plain hp) (fun _ => prologue_ne_nil hp) hend (by simp; omega)
    have hlabel := Fits.keeping (List.forall_mem_singleton.2 (Keeps.define (hΓ _ hl))) pos
    exact hlabel.append hscope rfl

theorem RoutineNotes.grows {spec : RoutineSpec} {s s' : State}
    (h : RoutineNotes program structs spec pos s m bs r s') : s.labels.count ≤ s'.labels.count := by
  cases h with
  | mk _ hb _ _ => exact Nat.le_trans (Nat.le_succ _) hb.grows

theorem RoutinesNotes.grows {specs : List RoutineSpec} {s s' : State}
    (h : RoutinesNotes program structs specs pos s m bs rs s') :
    s.labels.count ≤ s'.labels.count := by
  induction h with
  | nil => exact Nat.le_refl _
  | cons h _ ih => exact Nat.le_trans h.grows ih

theorem RoutinesNotes.fits {specs : List RoutineSpec} {s s' : State}
    (h : RoutinesNotes program structs specs pos s m bs rs s')
    (hl : ∀ spec ∈ specs, number? spec.label = none) :
    ∃ es : List Extent, (∀ e, e ∈ es ↔ e ∈ bs ++ rs) ∧
      Assignable s.labels.count s'.labels.count fun Γ => Cleared Γ → Fits Γ [] [] [] pos m es := by
  induction h with
  | nil => exact ⟨[], fun e => Iff.rfl, .of_forall fun Γ _ => .nil Γ _ _ _⟩
  | @cons spec specs pos s s₁ s₂ m m' bs bs' r rs h hs ih =>
    obtain ⟨es, hes, hfits⟩ := ih fun spec hspec => hl spec (List.mem_cons_of_mem _ hspec)
    refine ⟨bs ++ [r] ++ es, fun e => ?_, ?_⟩
    · simp only [List.mem_append, List.mem_cons, List.not_mem_nil, or_false, hes]
      grind
    · refine ((h.fits (hl spec List.mem_cons_self)).and hfits h.grows hs.grows).mono ?_
      exact fun Γ ⟨hfirst, hrest⟩ hΓ => (hfirst hΓ).append (hrest hΓ) rfl

theorem keeps_of_isData {Γ : String → List Debt} {x : List Debt} {i : Instr}
    (h : i.isData = true) : Keeps Γ x i := by
  refine ⟨fun l hl => ?_, fun l hl => ?_, fun _ => rfl, fun hr => ?_⟩
  · obtain rfl : i = .label l := hl
    cases h
  · cases i <;> first | cases h; done | cases hl
  · obtain rfl : i = .ret := hr
    cases h

theorem keeps_preamble (counter : RefCounter) (program : Program) (structs : StructTable)
    {Γ : String → List Debt} (hΓ : Cleared Γ) :
    ∀ i ∈ preamble counter program structs, Keeps Γ [] i := by
  have hlabels : ∀ l ∈ counterLabels structs, number? l = none := fun l hl =>
    number?_fixedLabels (mem_fixedLabels_of_counter hl : l ∈ fixedLabels program structs [])
  have hclosed : Closed numberless 0 0 (counterLabels structs) (counter.subroutines structs) :=
    subroutines_closed numberless_servesCounter counter
  obtain ⟨δ, hidle⟩ := hclosed.idle hlabels
  have hsubroutines := hidle Γ (fun l n _ hn hn' => by omega) hΓ
  have hmain : number? Environment.mainLabel = none := isFixed_main.number
  have hruntime : runtime counter program structs = .jump Environment.mainLabel
      :: dataSegment counter program structs ++ counter.subroutines structs := by
    simp [runtime, dataSegment, Environment.opening]
  intro i hi
  rcases List.mem_append.1 hi with hi | hi
  · rw [hruntime] at hi
    rcases mem_listing hi with rfl | hi | hi
    · exact .jumpTo rfl (hΓ _ hmain)
    · exact keeps_of_isData hi
    · exact hsubroutines i hi
  · rcases List.mem_cons.1 hi with rfl | hi
    · exact .define (hΓ _ hmain)
    · have hplain : (Frame.entry cells ++ RefCounter.reset).all Instr.isPlain = true := rfl
      exact .of_isPlain (List.all_eq_true.1 hplain i hi)

theorem Annotates.fits {capacity : UInt32} {a : Annotated} (h : Annotates program capacity a) :
    ∃ Γ es, (∀ e, e ∈ es ↔ e ∈ a.blocks ++ a.routines) ∧ Fits Γ [] [] [] 0 a.notes es := by
  cases h with
  | @mk counter structs specs m bs m' bs' rs printers s₁ s₂ s₃ hc hs hm hr hd hp =>
    obtain ⟨es, hes, hroutines⟩ := hr.fits fun spec hspec =>
      ((hd spec).1 hspec).isRoutineLabel.isFixed.number
    have hmain := hm.fits rfl []
    have hprinters := (intervalPrinters_closed hp (numberless_serves program structs)
      (fun _ _ => trivial) trivial).idle fun l hl => by
        obtain ⟨k, -, rfl⟩ := List.mem_map.1 hl
        exact (isFixed_printer k).number
    have hall := (hmain.and hroutines hm.grows hr.grows).and hprinters
      (Nat.le_trans hm.grows hr.grows) (intervalPrinters_grows hp).count
    obtain ⟨Γ, hΓ, ⟨hmain, hroutines⟩, hprinters⟩ := hall.labels fun _ => []
    have hstart := Fits.keeping (keeps_preamble counter program structs hΓ) 0
    have hhalt : Keeps Γ [] .halt :=
      ⟨by simp, by simp [Instr.jumpTarget?], by simp [Instr.fallsThrough], by simp⟩
    have hhalts := List.forall_mem_singleton.2 hhalt
    have hcode := hmain ⟨by simp [mainContext], by simp [mainContext]⟩
    have hbody := (hstart.append hcode (by simp)).append (.keeping hhalts _) rfl
    have hfront := hbody.append (hroutines hΓ) (by simp; omega)
    have hhandlers : ∀ i ∈ Environment.errorHandlers, Keeps Γ [] i := by
      have hgeneral : Γ Environment.generalError = [] := hΓ _ (by decide)
      have hdivide : Γ Environment.divideByZero = [] := hΓ _ (by decide)
      simp only [Environment.errorHandlers, List.forall_mem_cons]
      exact ⟨.define hgeneral, .of_isPlain rfl, .of_isPlain rfl, hhalt, .define hdivide,
        .of_isPlain rfl, .jumpTo rfl hgeneral, List.forall_mem_nil _⟩
    have hend := hfront.append (.keeping (List.forall_mem_append.2 ⟨hprinters hΓ, hhandlers⟩) _) rfl
    refine ⟨Γ, _, fun e => ?_, hend⟩
    simp only [List.mem_append, List.not_mem_nil, or_false, false_or, hes]
    grind

end IntervalStack.Generator
