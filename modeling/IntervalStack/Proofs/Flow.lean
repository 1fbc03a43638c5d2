import IntervalStack.Proofs.LabelNumber
import IntervalStack.Proofs.Outline

/-! Facts about the control flow of a listing, proved along its outline. A flow says which values may
stand at the two ends of an instruction; a stretch of code fits between two values if values for all
positions inside of it can be found. -/

namespace IntervalStack

namespace Instr

def jumpTarget? : Instr → Option String
  | .jump l | .jumpTrue l | .jumpFalse l | .jumpPos l | .jumpNeg l
  | .jumpFZero l | .jumpFPos l | .jumpFNeg l => some l
  | _ => none

def fallsThrough : Instr → Bool
  | .jump _ | .ret | .halt => false
  | _ => true

end Instr

inductive Code.Edge (code : Code) : Nat → Nat → Prop
  | fall {i x} (h : code[i]? = some x) (hf : x.fallsThrough) : Edge code i (i + 1)
  | jump {i j x l} (h : code[i]? = some x) (ht : x.jumpTarget? = some l)
    (hl : code[j]? = some (.label l)) : Edge code i j

/-- What may stand at the positions of a listing, in the order `le`. An instruction and what it
leads to are judged together with the code in front of them. -/
structure Flow (D : Type) where
  le : D → D → Prop
  refl : ∀ x, le x x
  trans : ∀ {x y z}, le x y → le y z → le x z
  check : Code → Instr → D → Prop
  step : Code → Instr → Option String → D → D → Prop
  step_le : ∀ {pre i l x y z}, step pre i l x y → le y z → step pre i l x z
  part : Part → Code → D → D → Prop
  part_le : ∀ {p c x y x' y'}, part p c x y → le x x' → le y y' → part p c x' y'

namespace Flow

variable {D : Type} (F : Flow D) (Γ : String → D)

structure At (pre : Code) (i : Instr) (x z : D) : Prop where
  label : ∀ l, i = .label l → Γ l = x
  check : F.check pre i x
  jump : ∀ l, i.jumpTarget? = some l → F.step pre i (some l) x (Γ l)
  fall : i.fallsThrough = true → F.step pre i none x z

def Fits (pre : Code) (x : D) : Outline → D → Prop
  | .nil, y => F.le x y
  | .instr i rest, y => ∃ x' z, F.le x x' ∧ F.At Γ pre i x' z ∧ Fits (pre ++ [i]) z rest y
  | .part p body rest, y => ∃ x' z, F.le x x' ∧ Fits pre x' body z ∧
      (body.code ≠ [] → F.part p body.code x' z) ∧ Fits (pre ++ body.code) z rest y

variable {F Γ} {pre : Code} {x y z : D} {o o' : Outline}

theorem Fits.weaken_left (hx : F.le x z) (h : F.Fits Γ pre z o y) : F.Fits Γ pre x o y := by
  cases o with
  | nil => exact F.trans hx h
  | instr i rest =>
    obtain ⟨x', z', hle, h⟩ := h
    exact ⟨x', z', F.trans hx hle, h⟩
  | part p body rest =>
    obtain ⟨x', z', hle, h⟩ := h
    exact ⟨x', z', F.trans hx hle, h⟩

theorem Fits.append (h : F.Fits Γ pre x o z) (h' : F.Fits Γ (pre ++ o.code) z o' y) :
    F.Fits Γ pre x (o ++ o') y := by
  induction o generalizing pre x with
  | nil => exact .weaken_left h (by simpa using h')
  | instr i rest ih =>
    obtain ⟨x', z', hle, hat, h⟩ := h
    exact ⟨x', z', hle, hat, ih h (by simpa using h')⟩
  | part p body rest _ ih =>
    obtain ⟨x', z', hle, hb, hp, h⟩ := h
    exact ⟨x', z', hle, hb, hp, ih h (by simpa using h')⟩

theorem Fits.weaken_right (h : F.Fits Γ pre x o z) (hy : F.le z y) : F.Fits Γ pre x o y := by
  rw [← o.append_nil]
  exact h.append hy

theorem Fits.nil (F : Flow D) (Γ : String → D) (pre : Code) (x : D) : F.Fits Γ pre x .nil x :=
  F.refl x

theorem Fits.instr {i : Instr} {rest : Outline} (hat : F.At Γ pre i x z)
    (h : F.Fits Γ (pre ++ [i]) z rest y) : F.Fits Γ pre x (.instr i rest) y :=
  ⟨x, z, F.refl x, hat, h⟩

theorem Fits.wrap {p : Part} (h : F.Fits Γ pre x o y) (hp : F.part p o.code x y) :
    F.Fits Γ pre x (Outline.wrap p o) y :=
  ⟨x, y, F.refl x, h, fun _ => hp, F.refl y⟩

def Solves (F : Flow D) (Γ : String → D) (A : Nat → D) : Code → Code → Prop
  | _, [] => True
  | pre, i :: c => F.At Γ pre i (A pre.length) (A (pre.length + 1)) ∧ Solves F Γ A (pre ++ [i]) c

theorem At.raise {i : Instr} {z' : D} (h : F.At Γ pre i x z) (hz : F.le z z') :
    F.At Γ pre i x z' :=
  ⟨h.label, h.check, h.jump, fun hf => F.step_le (h.fall hf) hz⟩

theorem Solves.congr {A B : Nat → D} {c : Code} (h : Solves F Γ A pre c)
    (hB : ∀ q, pre.length ≤ q → q < pre.length + c.length → B q = A q)
    (hend : F.le (A (pre.length + c.length)) (B (pre.length + c.length))) :
    Solves F Γ B pre c := by
  induction c generalizing pre with
  | nil => trivial
  | cons i c ih =>
    obtain ⟨hat, h⟩ := h
    rw [List.length_cons] at hB hend
    have hlen : (pre ++ [i]).length = pre.length + 1 := by simp
    refine ⟨?_, ih h (fun q h₁ h₂ => hB q (by omega) (by omega)) ?_⟩
    · rw [hB pre.length (by omega) (by omega)]
      refine hat.raise ?_
      by_cases hc : c.length = 0
      · rwa [hc] at hend
      · rw [hB (pre.length + 1) (by omega) (by omega)]
        exact F.refl _
    · rwa [hlen, Nat.add_assoc, Nat.add_comm 1]

theorem Solves.append {A : Nat → D} {c c' : Code} (h : Solves F Γ A pre c)
    (h' : Solves F Γ A (pre ++ c) c') : Solves F Γ A pre (c ++ c') := by
  induction c generalizing pre with
  | nil => simpa using h'
  | cons i c ih => exact ⟨h.1, ih h.2 (by simpa using h')⟩

theorem Solves.at {A : Nat → D} {code : Code} (h : Solves F Γ A pre code) {q : Nat} {i : Instr}
    (hi : code[q]? = some i) :
    F.At Γ (pre ++ code.take q) i (A (pre.length + q)) (A (pre.length + q + 1)) := by
  induction code generalizing pre q with
  | nil => simp at hi
  | cons j code ih =>
    cases q with
    | zero =>
      obtain rfl : j = i := by simpa using hi
      simpa using h.1
    | succ q =>
      have hq := ih h.2 (q := q) (by simpa using hi)
      simpa [Nat.add_assoc, Nat.add_comm 1] using hq

def splice (n : Nat) (A B : Nat → D) : Nat → D := fun q => if q < n then A q else B q

theorem splice_of_lt {n q : Nat} {A B : Nat → D} (h : q < n) : splice n A B q = A q := if_pos h

theorem splice_of_le {n q : Nat} {A B : Nat → D} (h : n ≤ q) : splice n A B q = B q :=
  if_neg (by omega)

theorem le_splice {n q : Nat} {A B : Nat → D} (hle : F.le (A n) (B n)) (hq : q ≤ n) :
    F.le (A q) (splice n A B q) := by
  rcases Nat.lt_or_ge q n with h | h
  · rw [splice_of_lt h]
    exact F.refl _
  · obtain rfl : q = n := by omega
    rwa [splice_of_le h]

theorem Solves.glue {A B : Nat → D} {c c' : Code} (h : Solves F Γ A pre c)
    (h' : Solves F Γ B (pre ++ c) c')
    (hle : F.le (A (pre.length + c.length)) (B (pre.length + c.length))) :
    Solves F Γ (splice (pre.length + c.length) A B) pre (c ++ c') := by
  have hlen : (pre ++ c).length = pre.length + c.length := List.length_append
  refine (h.congr (fun q _ hq => splice_of_lt hq) (le_splice hle (Nat.le_refl _))).append
    (h'.congr (fun q hq _ => splice_of_le (hlen ▸ hq)) ?_)
  rw [splice_of_le (by omega)]
  exact F.refl _

theorem Fits.solution (h : F.Fits Γ pre x o y) :
    ∃ A : Nat → D, F.le x (A pre.length) ∧ A (pre.length + o.code.length) = y ∧
      Solves F Γ A pre o.code ∧
      ∀ p a c, (p, a, c) ∈ o.spans pre.length → F.part p c (A a) (A (a + c.length)) := by
  induction o generalizing pre x y with
  | nil => exact ⟨fun _ => y, h, rfl, trivial, fun _ _ _ hs => nomatch hs⟩
  | instr i rest ih =>
    obtain ⟨x', z, hle, hat, h⟩ := h
    obtain ⟨B, hz, hy, hB, hspans⟩ := ih h
    have hlen : (pre ++ [i]).length = pre.length + 1 := by simp
    rw [hlen] at hz hy hspans
    let A : Nat → D := fun q => if q = pre.length then x' else z
    have hstart : A pre.length = x' := if_pos rfl
    have hend : A (pre.length + 1) = z := if_neg (by omega)
    have hA : Solves F Γ A pre [i] := ⟨by rwa [hstart, hend], trivial⟩
    refine ⟨_, ?_, ?_, hA.glue hB (by rwa [List.length_singleton, hend]), ?_⟩
    · rwa [splice_of_lt (by simp), hstart]
    · rw [splice_of_le (by simp), ← hy, Outline.code_instr, List.length_cons]
      congr 1
      omega
    · intro p a c hs
      have hrest : (p, a, c) ∈ rest.spans (pre.length + 1) := hs
      have ha := (Outline.spans_bounds hrest).1
      rw [List.length_singleton, splice_of_le ha, splice_of_le (by omega)]
      exact hspans p a c hrest
  | part p body rest ih₁ ih₂ =>
    obtain ⟨x', z, hle, hbody, hpart, h⟩ := h
    obtain ⟨A, hx, rfl, hA, hspans₁⟩ := ih₁ hbody
    obtain ⟨B, hz, hy, hB, hspans₂⟩ := ih₂ h
    rw [List.length_append] at hz hy hspans₂
    have hraise := fun q => le_splice (q := q) hz
    refine ⟨_, F.trans hle (F.trans hx (hraise _ (Nat.le_add_right _ _))), ?_, hA.glue hB hz, ?_⟩
    · rw [splice_of_le (by simp), ← hy, Outline.code_part, List.length_append, Nat.add_assoc]
    · intro p' a c hs
      rcases Outline.mem_spans_part.1 hs with ⟨hne, rfl, rfl, rfl⟩ | hs | hs
      · exact F.part_le (hpart hne) (F.trans hx (hraise _ (Nat.le_add_right _ _)))
          (hraise _ (Nat.le_refl _))
      · have ha := (Outline.spans_bounds hs).2
        exact F.part_le (hspans₁ p' a c hs) (hraise _ (by omega)) (hraise _ ha)
      · have ha := (Outline.spans_bounds hs).1
        rw [splice_of_le ha, splice_of_le (by omega)]
        exact hspans₂ p' a c hs

theorem Solves.edge {A : Nat → D} {code : Code} (h : Solves F Γ A [] code) {i j : Nat}
    (he : code.Edge i j) : ∃ k l, code[i]? = some k ∧ F.step (code.take i) k l (A i) (A j) := by
  cases he with
  | fall hi hf =>
    have hat := h.at hi
    simp only [List.nil_append, List.length_nil, Nat.zero_add] at hat
    exact ⟨_, none, hi, hat.fall hf⟩
  | jump hi ht hl =>
    have hat := h.at hi
    have hlabel := (h.at hl).label _ rfl
    simp only [List.nil_append, List.length_nil, Nat.zero_add] at hat hlabel
    exact ⟨_, _, hi, hlabel ▸ hat.jump _ ht⟩

end Flow

namespace Flow
open Generator (number?)

variable {D : Type} {P Q : (String → D) → Prop} {lo mid hi : Nat}

/-- Values can be given to the labels with numbers above `lo` and up to `hi` such that `P` holds
whatever values the other labels have. -/
def Assignable (lo hi : Nat) (P : (String → D) → Prop) : Prop :=
  ∃ δ : String → D, ∀ Γ, (∀ l n, number? l = some n → lo < n → n ≤ hi → Γ l = δ l) → P Γ

theorem Assignable.mono (h : Assignable lo hi P) (hPQ : ∀ Γ, P Γ → Q Γ) : Assignable lo hi Q := by
  obtain ⟨δ, h⟩ := h
  exact ⟨δ, fun Γ hΓ => hPQ Γ (h Γ hΓ)⟩

theorem Assignable.of_forall [Inhabited D] (h : ∀ Γ, P Γ) : Assignable lo hi P :=
  ⟨fun _ => default, fun Γ _ => h Γ⟩

theorem Assignable.and (h₁ : Assignable lo mid P) (h₂ : Assignable mid hi Q) (hlo : lo ≤ mid)
    (hhi : mid ≤ hi) : Assignable lo hi fun Γ => P Γ ∧ Q Γ := by
  obtain ⟨δ₁, h₁⟩ := h₁
  obtain ⟨δ₂, h₂⟩ := h₂
  refine ⟨fun l => if (number? l).getD 0 ≤ mid then δ₁ l else δ₂ l, fun Γ hΓ => ⟨?_, ?_⟩⟩
  · refine h₁ Γ fun l n hl hn hn' => ?_
    simp [hΓ l n hl hn (by omega), hl, hn']
  · refine h₂ Γ fun l n hl hn hn' => ?_
    simp [hΓ l n hl (by omega) hn', hl, Nat.not_le.2 hn]

theorem Assignable.choose (n : Nat) (δ : String → D) :
    Assignable n (n + 1) fun Γ => ∀ l, number? l = some (n + 1) → Γ l = δ l :=
  ⟨δ, fun _ hΓ l hl => hΓ l (n + 1) hl (Nat.lt_succ_self n) (Nat.le_refl _)⟩

theorem Assignable.labels (h : Assignable lo hi P) (Γ₀ : String → D) :
    ∃ Γ, (∀ l, number? l = none → Γ l = Γ₀ l) ∧ P Γ := by
  obtain ⟨δ, h⟩ := h
  refine ⟨fun l => if (number? l).isSome then δ l else Γ₀ l, fun l hl => by simp [hl],
    h _ fun l n hl _ _ => by simp [hl]⟩

end Flow
end IntervalStack
