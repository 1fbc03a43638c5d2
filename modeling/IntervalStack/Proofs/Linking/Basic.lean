import IntervalStack.Machine.Image
import IntervalStack.Proofs.Flow

/-! Listings in which everything that is referred to is defined, and nothing is defined twice. The
code of a piece of the program is closed: it has its own labels, numbered in a range of its own, and
refers to these and to what a linkage grants. -/

namespace IntervalStack

namespace Code

def labels (c : Code) : List String :=
  c.filterMap fun i => match i with
    | .label l => some l
    | _ => none

def dataLabels (c : Code) : List String :=
  c.filterMap fun i => match i with
    | .dLabel l => some l
    | _ => none

structure Links (c : Code) : Prop where
  labels : c.labels.Nodup
  dataLabels : c.dataLabels.Nodup
  jumps : ∀ i ∈ c, ∀ l, i.jumpTarget? = some l → l ∈ c.labels
  calls : ∀ l, .call l ∈ c → l ∈ c.labels ∨ Image.isHostEntry l = true
  names : ∀ l, .pushD l ∈ c → l ∈ c.dataLabels

variable {c : Code} {l : String}

@[simp] theorem labels_nil : labels [] = [] := rfl

@[simp] theorem labels_append (c c' : Code) : labels (c ++ c') = labels c ++ labels c' :=
  List.filterMap_append

@[simp] theorem dataLabels_append (c c' : Code) :
    dataLabels (c ++ c') = dataLabels c ++ dataLabels c' := List.filterMap_append

@[simp] theorem labels_cons_label (l : String) (c : Code) :
    labels (.label l :: c) = l :: labels c := rfl

theorem labels_cons {i : Instr} (c : Code) (h : ∀ l, i ≠ .label l) : labels (i :: c) = labels c := by
  cases i with
  | label l => exact absurd rfl (h l)
  | _ => rfl

theorem mem_labels : l ∈ c.labels ↔ .label l ∈ c := by
  simp only [labels, List.mem_filterMap]
  constructor
  · rintro ⟨i, hi, hl⟩
    cases i <;> cases hl
    exact hi
  · exact fun h => ⟨_, h, rfl⟩

theorem mem_dataLabels : l ∈ c.dataLabels ↔ .dLabel l ∈ c := by
  simp only [dataLabels, List.mem_filterMap]
  constructor
  · rintro ⟨i, hi, hl⟩
    cases i <;> cases hl
    exact hi
  · exact fun h => ⟨_, h, rfl⟩

end Code

structure Linkage where
  jump : String → Prop
  call : String → Prop
  name : String → Prop
  ends : Prop

/-- The linkage that also grants jumps to the given labels. -/
def Linkage.with (E : Linkage) (ls : List String) : Linkage :=
  { E with jump := fun l => E.jump l ∨ l ∈ ls }

def Instr.Within (E : Linkage) : Instr → Prop
  | .jump l | .jumpTrue l | .jumpFalse l | .jumpPos l | .jumpNeg l
  | .jumpFZero l | .jumpFPos l | .jumpFNeg l => E.jump l
  | .call l => E.call l
  | .pushD l => E.name l
  | .ret | .halt => E.ends
  | .dLabel _ => False
  | _ => True

theorem Instr.Within.mono {E : Linkage} {i : Instr} {jump : String → Prop} (h : i.Within E)
    (hj : ∀ l, E.jump l → jump l) : i.Within { E with jump } := by
  cases i with
  | jump l | jumpTrue l | jumpFalse l | jumpPos l | jumpNeg l | jumpFZero l | jumpFPos l
  | jumpFNeg l => exact hj l h
  | _ => exact h

theorem Instr.Within.with {E : Linkage} {i : Instr} {ls ls' : List String} (h : i.Within (E.with ls))
    (hls : ∀ l ∈ ls, l ∈ ls') : i.Within (E.with ls') :=
  h.mono fun l hl => hl.imp_right (hls l)

theorem Instr.Within.plus {E : Linkage} {i : Instr} (ls : List String) (h : i.Within E) :
    i.Within (E.with ls) := h.mono fun _ => .inl

theorem Instr.Within.jumpTarget {E : Linkage} {i : Instr} {l : String} (h : i.Within E)
    (hl : i.jumpTarget? = some l) : E.jump l := by
  cases i <;> cases hl
  all_goals exact h

namespace Generator

/-- The labels of the code are the given ones and others, all different, with numbers above `lo` and
up to `hi`. -/
def Labelled (lo hi : Nat) (fixed : List String) (c : Code) : Prop :=
  ∃ ns, c.labels.Perm (fixed ++ ns) ∧ ns.Nodup ∧ ∀ l ∈ ns, IsBetween lo hi l

structure Closed (E : Linkage) (lo hi : Nat) (fixed : List String) (c : Code) : Prop where
  within : ∀ i ∈ c, i.Within (E.with c.labels)
  labelled : Labelled lo hi fixed c

variable {E : Linkage} {lo mid hi : Nat} {f f' : List String} {c c' : Code}

theorem Closed.straight (hl : c.labels = f) (h : ∀ i ∈ c, i.Within E) : Closed E lo hi f c :=
  ⟨fun i hi => (h i hi).plus _, [], by rw [hl, List.append_nil], .nil, fun _ hl => nomatch hl⟩

theorem Closed.nil : Closed E lo hi [] [] := .straight rfl fun _ hi => nomatch hi

theorem Closed.fixedLabel (l : String) : Closed E lo hi [l] [.label l] :=
  .straight rfl fun i hi => by rw [List.mem_singleton.1 hi]; trivial

theorem Closed.fixed_subset (h : Closed E lo hi f c) {l : String} (hl : l ∈ f) : l ∈ c.labels := by
  obtain ⟨ns, hp, -⟩ := h.labelled
  exact hp.mem_iff.2 (List.mem_append_left _ hl)

theorem Closed.append (h : Closed E lo mid f c) (h' : Closed E mid hi f' c') (hlo : lo ≤ mid)
    (hhi : mid ≤ hi) : Closed E lo hi (f ++ f') (c ++ c') := by
  obtain ⟨ns, hp, hd, hb⟩ := h.labelled
  obtain ⟨ns', hp', hd', hb'⟩ := h'.labelled
  refine ⟨fun i hi => ?_, ns ++ ns', ?_, ?_, fun l hl => ?_⟩
  · rw [Code.labels_append]
    rcases List.mem_append.1 hi with hi | hi
    · exact (h.within i hi).with fun l hl => List.mem_append_left _ hl
    · exact (h'.within i hi).with fun l hl => List.mem_append_right _ hl
  · rw [Code.labels_append]
    refine (hp.append hp').trans (List.perm_iff_count.2 fun l => ?_)
    simp only [List.count_append]
    omega
  · -- Numbers up to `mid` on one side and above it on the other.
    refine List.nodup_append.2 ⟨hd, hd', fun l hl l' hl' heq => ?_⟩
    obtain ⟨k, hk, -, hle⟩ := hb l hl
    obtain ⟨k', hk', hlt, -⟩ := hb' l' hl'
    rw [heq, hk', Option.some.injEq] at hk
    omega
  · rcases List.mem_append.1 hl with hl | hl
    · exact (hb l hl).mono (Nat.le_refl _) hhi
    · exact (hb' l hl).mono hlo (Nat.le_refl _)

theorem Closed.append_left (h : Closed E lo lo [] c) (h' : Closed E lo hi f c') (hhi : lo ≤ hi) :
    Closed E lo hi f (c ++ c') := h.append h' (Nat.le_refl _) hhi

theorem Closed.append_right (h : Closed E lo hi f c) (h' : Closed E hi hi [] c') (hlo : lo ≤ hi) :
    Closed E lo hi f (c ++ c') := by
  rw [← f.append_nil]
  exact h.append h' hlo (Nat.le_refl _)

theorem Closed.jump {i : Instr} {g : List String} {l : String} (h : i.jumpTarget? = some l)
    (hl : l ∈ g) : Closed (E.with g) lo hi [] [i] := by
  refine .straight ?_ fun j hj => ?_
  · cases i <;> cases h <;> rfl
  · obtain rfl := List.mem_singleton.1 hj
    cases j <;> cases h <;> exact .inr hl

/-- Labels with the next number that the code defines are its own: nothing else has to grant jumps to
them. -/
theorem Closed.own {n : Nat} {g : List String} (h : Closed (E.with g) (n + 1) hi (f ++ g) c)
    (hhi : n + 1 ≤ hi) (hg : g.Nodup) (hn : ∀ l ∈ g, number? l = some (n + 1)) :
    Closed E n hi f c := by
  obtain ⟨ns, hp, hd, hb⟩ := h.labelled
  refine ⟨fun i hi => (h.within i hi).mono ?_, g ++ ns, ?_, ?_, fun l hl => ?_⟩
  · rintro l ((hl | hl) | hl)
    · exact .inl hl
    · exact .inr (h.fixed_subset (List.mem_append_right _ hl))
    · exact .inr hl
  · rwa [← List.append_assoc]
  · refine List.nodup_append.2 ⟨hg, hd, fun l hl l' hl' heq => ?_⟩
    obtain ⟨k, hk, hlt, -⟩ := hb l' hl'
    rw [← heq, hn l hl, Option.some.injEq] at hk
    omega
  · rcases List.mem_append.1 hl with hl | hl
    · exact ⟨_, hn l hl, Nat.lt_succ_self n, hhi⟩
    · exact (hb l hl).mono (Nat.le_succ n) (Nat.le_refl _)

theorem Closed.nodup (h : Closed E lo hi f c) (hf : f.Nodup) (hn : ∀ l ∈ f, number? l = none) :
    c.labels.Nodup := by
  obtain ⟨ns, hp, hd, hb⟩ := h.labelled
  refine hp.nodup_iff.2 (List.nodup_append.2 ⟨hf, hd, fun l hl l' hl' heq => ?_⟩)
  obtain ⟨k, hk, -⟩ := hb l' hl'
  rw [← heq, hn l hl] at hk
  cases hk

end Generator
end IntervalStack
