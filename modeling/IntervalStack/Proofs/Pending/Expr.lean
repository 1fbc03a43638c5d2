import IntervalStack.Proofs.Flow
import IntervalStack.Proofs.LocalCode
import IntervalStack.Proofs.ProgramEmission

/-! No scheduled decrement is lost: on its way to the end of a routine, or round a loop, control
passes a drain behind every place where a decrement is scheduled.

The number that the flow gives to a position lies above all places at which a decrement may have
been scheduled since the last drain. It never lies above the position itself; this is what the start
of a loop demands of the jump back to it. -/

namespace IntervalStack

def Instr.isOrdinary : Instr → Bool
  | .label _ | .ret | .halt | .jump _ | .jumpTrue _ | .jumpFalse _ | .jumpPos _ | .jumpNeg _
  | .jumpFZero _ | .jumpFPos _ | .jumpFNeg _ => false
  | .call l => l != RefCounter.pushRoutine
  | _ => true

theorem Instr.jumpTarget?_of_isOrdinary {i : Instr} (h : i.isOrdinary = true) :
    i.jumpTarget? = none := by
  cases i <;> simp_all [isOrdinary, jumpTarget?]

namespace Generator
open Outline (plain wrap)
open IntervalStack.Flow (Assignable)

def ReturnsToStart (c : Code) : Prop := ∃ l l' c', c = .label l :: c' ++ [.jump l, .label l']

def pendingFlow (lo hi : Nat) : Flow Nat where
  le := (· ≤ ·)
  refl := Nat.le_refl
  trans := Nat.le_trans
  check pre i x := x ≤ pre.length ∧
    (lo ≤ pre.length → pre.length < hi → i = .ret ∨ i = .halt → x = 0)
  step pre i _ x y := (i = RefCounter.push → lo ≤ pre.length → pre.length < y) ∧
    (i ≠ RefCounter.drain → x ≤ y)
  step_le h hz := ⟨fun hi hlo => Nat.lt_of_lt_of_le (h.1 hi hlo) hz,
    fun hi => Nat.le_trans (h.2 hi) hz⟩
  part p c _ _ := ∀ scopes cond body, p = .stmt scopes (.loop cond body) → ReturnsToStart c
  part_le h _ _ := h

/-- The values around a stretch of code: `x` in front of it if nothing is scheduled in it. -/
def bound (pushed : Bool) (x q : Nat) : Nat := if pushed then q else x

theorem bound_le {b : Bool} {x q : Nat} (h : x ≤ q) : bound b x q ≤ q := by
  cases b
  · exact h
  · exact Nat.le_refl q

theorem le_bound {b : Bool} {x q : Nat} (h : x ≤ q) : x ≤ bound b x q := by
  cases b
  · exact Nat.le_refl x
  · exact h

theorem bound_mono {b : Bool} {x q q' : Nat} (h : q ≤ q') : bound b x q ≤ bound b x q' := by
  cases b
  · exact Nat.le_refl x
  · exact h

theorem bound_bound_le {b b' : Bool} {x q q' : Nat} (hb : b = true → b' = true) :
    bound b' (bound b x q) q' ≤ bound b' x q' := by
  cases b'
  · cases b
    · exact Nat.le_refl _
    · cases hb rfl
  · exact Nat.le_refl _

theorem bound_of_quiet {b b' : Bool} {x q q' : Nat} (hb : b = true → b' = true)
    (hq : b' = false) : bound b' (bound b x q) q' = x := by
  subst hq
  cases b
  · rfl
  · cases hb rfl

/-- Control runs from one end of the code to the other, and a decrement is scheduled in between only
if `pushed` says so. The labels of the code have numbers from `n` to `n'`. -/
structure Passes (lo hi n n' : Nat) (pushed : Bool) (o : Outline) : Prop where
  le : n ≤ n'
  fits : ∀ pre x, x ≤ pre.length → (pre ++ o.code).length ≤ hi →
    Assignable n n' fun Γ => hi ≤ Γ Environment.divideByZero →
      (pendingFlow lo hi).Fits Γ pre x o (bound pushed x (pre ++ o.code).length)

section
variable {lo hi n m n' : Nat} {Γ : String → Nat} {pre : Code} {x y : Nat} {i : Instr}
  {rest o o' : Outline} {b b' : Bool} {c : Code}

theorem fits_ordinary (hord : i.isOrdinary = true) (hx : x ≤ pre.length)
    (h : (pendingFlow lo hi).Fits Γ (pre ++ [i]) x rest y) :
    (pendingFlow lo hi).Fits Γ pre x (.instr i rest) y := by
  refine .instr ⟨?_, ⟨hx, ?_⟩, ?_, fun _ => ⟨?_, fun _ => Nat.le_refl _⟩⟩ h
  · rintro l rfl
    cases hord
  · rintro _ _ (rfl | rfl) <;> cases hord
  · intro l hl
    rw [Instr.jumpTarget?_of_isOrdinary hord] at hl
    cases hl
  · rintro rfl
    cases hord

theorem fits_push (hx : x ≤ pre.length)
    (h : (pendingFlow lo hi).Fits Γ (pre ++ [RefCounter.push]) (pre.length + 1) rest y) :
    (pendingFlow lo hi).Fits Γ pre x (.instr RefCounter.push rest) y := by
  refine .instr ⟨?_, ⟨hx, ?_⟩, ?_, fun _ => ⟨fun _ _ => Nat.lt_succ_self _, fun _ => ?_⟩⟩ h
  · intro l hl
    cases hl
  · rintro _ _ (hr | hr) <;> cases hr
  · intro l hl
    cases hl
  · exact Nat.le_succ_of_le hx

theorem fits_label {l : String} (hl : Γ l = y) (hx : x ≤ y) (hy : y ≤ pre.length)
    {z : Nat} (h : (pendingFlow lo hi).Fits Γ (pre ++ [.label l]) y rest z) :
    (pendingFlow lo hi).Fits Γ pre x (.instr (.label l) rest) z := by
  refine ⟨y, y, hx, ⟨?_, ⟨hy, ?_⟩, ?_, fun _ => ⟨?_, fun _ => Nat.le_refl _⟩⟩, h⟩
  · intro l' hl'
    cases hl'
    exact hl
  · rintro _ _ (hr | hr) <;> cases hr
  · intro l' hl'
    cases hl'
  · intro hp
    cases hp

theorem fits_branch {l : String} (ht : i.jumpTarget? = some l) (hx : x ≤ pre.length)
    (hl : x ≤ Γ l) (hf : i.fallsThrough = true)
    (h : (pendingFlow lo hi).Fits Γ (pre ++ [i]) x rest y) :
    (pendingFlow lo hi).Fits Γ pre x (.instr i rest) y := by
  refine .instr ⟨?_, ⟨hx, ?_⟩, ?_, fun _ => ⟨?_, fun _ => Nat.le_refl _⟩⟩ h
  · rintro l rfl
    cases ht
  · rintro _ _ (rfl | rfl) <;> cases ht
  · intro l' hl'
    obtain rfl : l = l' := Option.some.inj (ht.symm.trans hl')
    refine ⟨?_, fun _ => hl⟩
    rintro rfl
    cases ht
  · rintro rfl
    cases ht

theorem fits_jump {l : String} (hx : x ≤ pre.length) (hl : x ≤ Γ l) {z : Nat}
    (h : (pendingFlow lo hi).Fits Γ (pre ++ [.jump l]) z rest y) :
    (pendingFlow lo hi).Fits Γ pre x (.instr (.jump l) rest) y := by
  refine ⟨x, z, Nat.le_refl x, ⟨?_, ⟨hx, ?_⟩, ?_, ?_⟩, h⟩
  · intro l' hl'
    cases hl'
  · rintro _ _ (hr | hr) <;> cases hr
  · intro l' hl'
    cases hl'
    exact ⟨fun hp => (nomatch hp), fun _ => hl⟩
  · intro hf
    cases hf

theorem fits_drain (hx : x ≤ pre.length) {z : Nat}
    (h : (pendingFlow lo hi).Fits Γ (pre ++ [RefCounter.drain]) z rest y) :
    (pendingFlow lo hi).Fits Γ pre x (.instr RefCounter.drain rest) y := by
  refine ⟨x, z, Nat.le_refl x, ⟨?_, ⟨hx, ?_⟩, ?_, fun _ => ⟨?_, ?_⟩⟩, h⟩
  · intro l' hl'
    cases hl'
  · rintro _ _ (hr | hr) <;> cases hr
  · intro l' hl'
    cases hl'
  · intro hp
    simp [RefCounter.push, RefCounter.drain, RefCounter.pushRoutine,
      RefCounter.drainRoutine] at hp
  · intro hd
    exact absurd rfl hd

theorem fits_plain (hc : c.all Instr.isOrdinary = true) (hx : x ≤ pre.length) :
    (pendingFlow lo hi).Fits Γ pre x (plain c) x := by
  induction c generalizing pre with
  | nil => exact Nat.le_refl x
  | cons i c ih =>
    rw [List.all_cons, Bool.and_eq_true] at hc
    exact fits_ordinary hc.1 hx (ih hc.2 (by rw [List.length_append]; omega))

theorem fits_noted (hc : c.all (fun i => i.isOrdinary || i == RefCounter.push) = true)
    (hx : x ≤ pre.length) :
    (pendingFlow lo hi).Fits Γ pre x (plain c) (pre ++ c).length := by
  induction c generalizing pre x with
  | nil =>
    rw [List.append_nil]
    exact hx
  | cons i c ih =>
    rw [show pre ++ i :: c = pre ++ [i] ++ c by simp]
    simp only [List.all_cons, Bool.and_eq_true, Bool.or_eq_true, beq_iff_eq] at hc
    rcases hc.1 with h | rfl
    · exact fits_ordinary h hx (ih hc.2 (by rw [List.length_append]; omega))
    · exact fits_push hx (ih hc.2 (by simp))

theorem Passes.straight (hc : c.all Instr.isOrdinary = true) :
    Passes lo hi n n b (Outline.plain c) := by
  refine ⟨Nat.le_refl n, fun pre x hx _ => .of_forall fun Γ _ => ?_⟩
  refine (fits_plain hc hx).weaken_right (le_bound ?_)
  rw [List.length_append]
  omega

theorem Passes.noted (hc : c.all (fun i => i.isOrdinary || i == RefCounter.push) = true) :
    Passes lo hi n n true (Outline.plain c) := by
  refine ⟨Nat.le_refl n, fun pre x hx _ => .of_forall fun Γ _ => ?_⟩
  rw [Outline.code_plain]
  exact fits_noted hc hx

theorem Passes.append (h : Passes lo hi n m b o) (h' : Passes lo hi m n' b' o')
    (hb : b = true → b' = true) : Passes lo hi n n' b' (o ++ o') := by
  refine ⟨Nat.le_trans h.le h'.le, fun pre x hx hlen => ?_⟩
  rw [Outline.code_append, ← List.append_assoc] at hlen ⊢
  have hmid : bound b x (pre ++ o.code).length ≤ (pre ++ o.code).length := by
    refine bound_le ?_
    rw [List.length_append]
    omega
  have h₁ := h.fits pre x hx (by rw [List.length_append] at hlen; omega)
  refine (h₁.and (h'.fits _ _ hmid hlen) h.le h'.le).mono fun Γ hΓ hd => ?_
  exact ((hΓ.1 hd).append (hΓ.2 hd)).weaken_right (bound_bound_le hb)

theorem Passes.raise (h : Passes lo hi n n' b o) (hb : b = true → b' = true) :
    Passes lo hi n n' b' o := by
  refine ⟨h.le, fun pre x hx hlen => (h.fits pre x hx hlen).mono fun Γ hΓ hd => ?_⟩
  refine (hΓ hd).weaken_right ?_
  cases b'
  · cases b
    · exact Nat.le_refl x
    · cases hb rfl
  · exact bound_le (by rw [List.length_append]; omega)

theorem Passes.wrap (h : Passes lo hi n n' b o) {p : Part}
    (hp : ∀ scopes cond body, p ≠ .stmt scopes (.loop cond body)) :
    Passes lo hi n n' b (wrap p o) := by
  refine ⟨h.le, fun pre x hx hlen => ?_⟩
  rw [Outline.code_wrap] at hlen ⊢
  refine (h.fits pre x hx hlen).mono fun Γ hΓ hd => (hΓ hd).wrap ?_
  intro scopes cond body h
  exact absurd h (hp scopes cond body)

theorem Passes.choice {s : State} {stem yes join : String} {j₁ j₂ : Instr} (hs : stem ∈ stems)
    (ht : i.jumpTarget? = some (Labels.part (s.label stem) yes)) (hf : i.fallsThrough = true)
    (h₁ : j₁.isOrdinary = true) (h₂ : j₂.isOrdinary = true) :
    Passes lo hi s.labels.count s.next.labels.count b
      (Outline.plain [i, j₁, .jump (Labels.part (s.label stem) join),
        .label (Labels.part (s.label stem) yes), j₂,
        .label (Labels.part (s.label stem) join)]) := by
  refine ⟨Nat.le_succ _, fun pre x hx _ => ?_⟩
  -- Nothing is scheduled here, so that the value in front can stay up to the end.
  refine (Assignable.choose s.labels.count fun _ => x).mono fun Γ hΓ _ => ?_
  have hyes := hΓ _ (number?_part s yes hs)
  have hjoin := hΓ _ (number?_part s join hs)
  refine Flow.Fits.weaken_right ?_ (le_bound (by rw [List.length_append]; omega))
  refine fits_branch ht hx (Nat.le_of_eq hyes.symm) hf ?_
  refine fits_ordinary h₁ (by simp; omega) ?_
  refine fits_jump (z := x) (by simp; omega) (Nat.le_of_eq hjoin.symm) ?_
  refine fits_label hyes (Nat.le_refl x) (by simp; omega) ?_
  refine fits_ordinary h₂ (by simp; omega) ?_
  exact fits_label hjoin (Nat.le_refl x) (by simp; omega) (Nat.le_refl x)

end

theorem isOrdinary_call {l : String} (h : l.toList.head? = some '-' → l.toList[1]? ≠ some 'r') :
    (Instr.call l).isOrdinary = true := by
  simp only [Instr.isOrdinary, bne_iff_ne, ne_eq]
  rintro rfl
  exact h rfl rfl

theorem functionLabel_ordinary (name : String) :
    (Instr.call (functionLabel name)).isOrdinary = true := by
  simp [isOrdinary_call, functionLabel]

theorem methodLabel_ordinary (typeCode : Int32) (name : String) :
    (Instr.call (methodLabel typeCode name)).isOrdinary = true := by
  simp [isOrdinary_call, methodLabel]

theorem initializerLabel_ordinary (typeCode : Int32) :
    (Instr.call (initializerLabel typeCode)).isOrdinary = true := by
  simp [isOrdinary_call, initializerLabel]

theorem isOrdinary_of_isLocal {i : Instr} (h : i.isLocal = true) : i.isOrdinary = true := by
  cases i <;> first | rfl | cases h

theorem ordinary_of_local {c : Code} (h : c.all Instr.isLocal = true) :
    c.all Instr.isOrdinary = true :=
  List.all_eq_true.2 fun i hi => isOrdinary_of_isLocal (List.all_eq_true.1 h i hi)

theorem arithmetic_passes {lo hi n : Nat} {b float : Bool} {op : BinOp} {c : Code}
    (h : arithmetic? op float = some c) : Passes lo hi n n b (plain c) := by
  -- Only a division jumps, to the handler behind all code.
  have hjump : ∀ {i j : Instr}, i.jumpTarget? = some Environment.divideByZero →
      i.fallsThrough = true → j.isOrdinary = true →
        Passes lo hi n n b (plain [.duplicate, i, j]) := by
    intro i j ht hf hj
    refine ⟨Nat.le_refl n, fun pre x hx hlen => .of_forall fun Γ hd => ?_⟩
    rw [Outline.code_plain] at hlen ⊢
    rw [List.length_append] at hlen
    refine Flow.Fits.weaken_right ?_ (le_bound (by rw [List.length_append]; omega))
    refine fits_ordinary rfl hx (fits_branch ht (by simp; omega) (by omega) hf ?_)
    exact fits_ordinary hj (by simp; omega) (Nat.le_refl x)
  cases op <;> cases float <;> cases h <;> first | exact .straight rfl | exact hjump rfl rfl rfl

theorem unaryCode_passes {lo hi : Nat} {b : Bool} {op : UnaryOp} {ty : Ty} {span : Span}
    {s s' : State} {c : Code} (h : unaryCode op ty span s = .ok (c, s')) :
    Passes lo hi s.labels.count s'.labels.count b (plain c) := by
  rcases unaryCode_ok h with ⟨rfl, hc⟩ | ⟨-, -, rfl, rfl⟩
  · refine .straight ?_
    clear h
    revert c
    decide
  · exact .choice (by decide) rfl rfl rfl rfl

theorem Passes.skipped {lo hi n' : Nat} {b : Bool} {o : Outline} {i : Instr} {s : State}
    {stem : String} (h : Passes lo hi s.next.labels.count n' b o) (hs : stem ∈ stems)
    (ht : i.jumpTarget? = some (s.label stem)) (hf : i.fallsThrough = true) :
    Passes lo hi s.labels.count n' b
      (plain [.duplicate, i, .pop] ++ o ++ plain [.label (s.label stem)]) := by
  refine ⟨Nat.le_trans (Nat.le_succ _) h.le, fun pre x hx hlen => ?_⟩
  let before := pre ++ [.duplicate] ++ [i] ++ [.pop]
  have hbefore : before.length = pre.length + 3 := by simp [before]
  have hall : (pre ++ (plain [.duplicate, i, .pop] ++ o ++ plain [.label (s.label stem)]).code)
      = before ++ o.code ++ [.label (s.label stem)] := by simp [before]
  rw [hall] at hlen ⊢
  rw [List.length_append] at hlen
  have hx' : x ≤ (before ++ o.code).length := by rw [List.length_append]; omega
  refine ((Assignable.choose s.labels.count fun _ => bound b x (before ++ o.code).length).and
    (h.fits before x (by omega) (by omega)) (Nat.le_succ _) h.le).mono fun Γ hΓ hd => ?_
  have hl := hΓ.1 _ (number?_label s hs)
  refine fits_ordinary rfl hx (fits_branch ht (by simp; omega) (hl ▸ le_bound hx') hf ?_)
  refine fits_ordinary rfl (by simp; omega) (Flow.Fits.append (hΓ.2 hd) ?_)
  refine fits_label hl (Nat.le_refl _) (bound_le hx') ?_
  cases b
  · exact Nat.le_refl x
  · exact (List.length_append ▸ Nat.le_add_right _ _ : (before ++ o.code).length ≤ _)

theorem Emits.passes {lo hi : Nat} {ctx : Context} {job : Job} {s s' : State} {o : Outline}
    (h : Emits ctx job s o s') :
    Passes lo hi s.labels.count s'.labels.count s'.pushed o := by
  induction h with
  | expr _ ih => exact ih.wrap (by simp)
  | bool | char | int | float | self => exact .straight rfl
  | ident h => exact .straight (ordinary_of_local (storageAddress_local h))
  | logical hop hty hl hr ih₁ ih₂ =>
    rw [Outline.append_assoc, Outline.append_assoc, ← Outline.append_assoc (plain _)]
    refine ih₁.append (ih₂.skipped ?_ ?_ ?_) hr.grows.pushed
    · unfold logicalStem
      split <;> decide
    · unfold decidingJump
      split <;> rfl
    · unfold decidingJump
      split <;> rfl
  | @compare op l r ty span a b s s₁ s₂ o₁ o₂ hop hty hl hr ih₁ ih₂ =>
    rw [Outline.plain_append, ← Outline.append_assoc]
    refine (((ih₁.append ih₂ hr.grows.pushed).append (.straight ?_) id).append
      (.choice (by decide) ?_ ?_ rfl rfl) id)
    · cases l.ty.isFloat <;> rfl
    · cases op <;> cases l.ty.isFloat <;> rfl
    · cases op <;> cases l.ty.isFloat <;> rfl
  | arithmetic _ _ hc _ hr ih₁ ih₂ =>
    exact (ih₁.append ih₂ hr.grows.pushed).append (arithmetic_passes hc) id
  | unary _ _ hc ih => exact ih.append (unaryCode_passes hc) (unaryCode_grows hc).pushed
  | interval hs hl hh ih₁ ih₂ =>
    have hstore := isOrdinary_of_isLocal (store_local hs)
    refine (((((Passes.straight rfl).append ih₁ id).append (.straight ?_) id).append ih₂
      hh.grows.pushed).append (.straight ?_) id)
    · simp only [List.all_cons, hstore]
      rfl
    · simp only [List.all_cons, hstore]
      rfl
  | bound _ _ ih | field _ _ ih | used _ ih | moved _ _ ih => exact ih
  | methodCall _ _ _ _ _ _ ha ih₁ ih₂ =>
    rw [State.pushed_noting, Bool.or_true, Outline.plain_append _ (releaseReceiver _),
      ← Outline.append_assoc]
    refine (((ih₁.append (.straight rfl) id).append ih₂ ha.grows.pushed).append (.straight ?_)
      id).append (.noted ?_) fun _ => rfl
    · simp only [List.all_append, List.all_cons, methodLabel_ordinary,
        fun ty => ordinary_of_local (fetchResult_local ty)]
      rfl
    · unfold releaseReceiver
      split <;> rfl
  | call _ _ _ ih =>
    refine ih.append (.straight ?_) id
    simp only [List.all_append, List.all_cons, functionLabel_ordinary,
      fun ty => ordinary_of_local (fetchResult_local ty)]
    rfl
  | @new id ty span l s hl =>
    refine .straight ?_
    have hslots : (l.referenceSlots.flatMap fun slot =>
        [.duplicate, .pushI slot, .add, .pushI 0, .storeI]).all Instr.isOrdinary = true := by
      simp [List.all_flatMap, Instr.isOrdinary]
    simp only [newStructCode, Frame.callInitializer, List.all_append, hslots,
      fun ty => ordinary_of_local (pushArgument_local ty), List.all_cons, initializerLabel_ordinary]
    rfl
  | loaded hl _ ih => exact ih.append (.straight (by simp [isOrdinary_of_isLocal (load_local hl)])) id
  | counted _ _ ih => exact ih.append (.straight rfl) id
  | stored _ _ ih => exact (ih.wrap (by simp)).append (.straight rfl) id
  | @readOut object offset ty load s o s' _ hl _ ih =>
    rw [State.pushed_noting, Bool.or_true, Outline.plain_append, ← Outline.append_assoc]
    refine ((ih.wrap (by simp)).append (.straight ?_) id).append (.noted rfl) fun _ => rfl
    simp only [List.all_append, List.all_cons, isOrdinary_of_isLocal (load_local hl), countIfHeap]
    cases ty.isHeap <;> rfl
  | noArgs => exact Passes.straight (c := []) rfl
  | arg he hs ih₁ ih₂ =>
    exact (ih₁.append (.straight (ordinary_of_local (pushArgument_local _))) id).append ih₂ hs.grows.pushed

end Generator
end IntervalStack
