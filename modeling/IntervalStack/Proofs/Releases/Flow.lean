import IntervalStack.Proofs.Linking.Emission
import IntervalStack.Proofs.Releases.Notes

/-! What scopes owe at each position of a listing. The debts form a stack: a scope puts its debts on
top where it starts, and every instruction that lets go of a reference takes the topmost debt. -/

namespace IntervalStack

namespace Extent

def owedAt (bs : List Extent) (j : Nat) : List Debt :=
  (bs.filter fun w => w.start < j ∧ j < w.stop).flatMap (·.debts)

/-- An extent lies in front of another one, or inside of it. A scope with references has an
instruction in front of all that is inside of it. -/
def Nests (u v : Extent) : Prop :=
  u.stop ≤ v.start ∨ v.start ≤ u.start ∧ u.stop ≤ v.stop ∧ (v.refs ≠ [] → v.start < u.start)

theorem owedAt_append (bs bs' : List Extent) (j : Nat) :
    owedAt (bs ++ bs') j = owedAt bs j ++ owedAt bs' j := by
  simp only [owedAt, List.filter_append, List.flatMap_append]

theorem owedAt_eq_nil {bs : List Extent} {j : Nat} (h : ∀ w ∈ bs, j ≤ w.start ∨ w.stop ≤ j) :
    owedAt bs j = [] := by
  have hnone : (bs.filter fun w => w.start < j ∧ j < w.stop) = [] := by
    rw [List.filter_eq_nil_iff]
    intro w hw
    have := h w hw
    rw [decide_eq_true_eq]
    omega
  rw [owedAt, hnone, List.flatMap_nil]

theorem owedAt_singleton {w : Extent} {j : Nat} (h : w.debts ≠ [] → w.start < j ∧ j < w.stop) :
    owedAt [w] j = w.debts := by
  by_cases hj : w.start < j ∧ j < w.stop
  · simp [owedAt, hj]
  · have hd : w.debts = [] := Classical.byContradiction fun hd => hj (h hd)
    rw [hd]
    exact owedAt_eq_nil fun v hv => by rw [List.mem_singleton.1 hv]; omega

end Extent

namespace Noted
open IntervalStack.Flow (splice splice_of_lt splice_of_le)

def Moves (n : Noted) (x z : List Debt) : Prop :=
  match n.releases with
  | some d => n.opens = [] ∧ x = d :: z
  | none => z = n.opens ++ x

/-- `x` may be owed in front of the instruction, and `z` behind it, if the debts at the labels are
`Γ`. The handler of divisions by zero ends the run, whatever is owed. -/
structure At (Γ : String → List Debt) (n : Noted) (x z : List Debt) : Prop where
  label : ∀ l, n.instr = .label l → Γ l = x
  jump : ∀ l, n.instr.jumpTarget? = some l → l = Environment.divideByZero ∨ n.Moves x (Γ l)
  fall : n.instr.fallsThrough = true → n.Moves x z
  ret : n.instr = .ret → x = []

def Solves (Γ : String → List Debt) (A : Nat → List Debt) (pos : Nat) (m : List Noted) : Prop :=
  ∀ q n, m[q]? = some n → At Γ n (A (pos + q)) (A (pos + q + 1))

/-- The positions for which it is known which scopes are open: those of labels, and those at which
scopes start. -/
def Anchored (pos : Nat) (m : List Noted) (bs : List Extent) (j : Nat) : Prop :=
  (∃ q n l, j = pos + q ∧ m[q]? = some n ∧ n.instr = .label l) ∨
    ∃ w ∈ bs, w.start = j ∧ w.start < w.stop

def Bounded (pos : Nat) (m : List Noted) (bs : List Extent) : Prop :=
  ∀ w ∈ bs, pos ≤ w.start ∧ w.start ≤ w.stop ∧ w.stop ≤ pos + m.length

structure Laid (pos : Nat) (m : List Noted) (bs : List Extent) : Prop where
  bounds : Bounded pos m bs
  nests : bs.Pairwise Extent.Nests
  opens : ∀ q n, m[q]? = some n → n.opens ≠ [] →
    n.instr.isPlain = true ∧ ∃ w ∈ bs, w.start = pos + q ∧ n.opens = w.debts
  opened : ∀ w ∈ bs, w.refs ≠ [] → w.start < w.stop ∧
    ∃ q n, w.start = pos + q ∧ m[q]? = some n ∧ n.opens = w.debts

structure Runs (Γ : String → List Debt) (outer x y : List Debt) (pos : Nat) (m : List Noted)
    (bs : List Extent) (A : Nat → List Debt) : Prop where
  first : A pos = x
  last : A (pos + m.length) = y
  solves : Solves Γ A pos m
  block : ∀ w ∈ bs, A w.stop = A w.start
  anchor : ∀ j, Anchored pos m bs j → A j = Extent.owedAt bs j ++ outer

variable {Γ : String → List Debt} {outer x y z : List Debt} {pos : Nat} {m m' : List Noted}
  {bs bs' : List Extent} {A B : Nat → List Debt}

theorem Laid.append {p : Nat} (h : Laid pos m bs) (h' : Laid p m' bs') (hp : p = pos + m.length) :
    Laid pos (m ++ m') (bs ++ bs') := by
  subst hp
  refine ⟨fun w hw => ?_, ?_, fun q n hq ho => ?_, fun w hw hr => ?_⟩
  · rw [List.length_append]
    rcases List.mem_append.1 hw with hw | hw
    · have := h.bounds w hw
      omega
    · have := h'.bounds w hw
      omega
  · refine List.pairwise_append.2 ⟨h.nests, h'.nests, fun u hu v hv => .inl ?_⟩
    exact Nat.le_trans (h.bounds u hu).2.2 (h'.bounds v hv).1
  · rcases Nat.lt_or_ge q m.length with hlt | hge
    · rw [List.getElem?_append_left hlt] at hq
      obtain ⟨hp, w, hw, he⟩ := h.opens q n hq ho
      exact ⟨hp, w, List.mem_append_left _ hw, he⟩
    · rw [List.getElem?_append_right hge] at hq
      obtain ⟨hp, w, hw, he, heq⟩ := h'.opens _ n hq ho
      exact ⟨hp, w, List.mem_append_right _ hw, by omega, heq⟩
  · rcases List.mem_append.1 hw with hw | hw
    · obtain ⟨hlt, q, n, hs, hq, he⟩ := h.opened w hw hr
      exact ⟨hlt, q, n, hs, List.getElem?_append_left (List.getElem?_eq_some_iff.1 hq).1 ▸ hq, he⟩
    · obtain ⟨hlt, q, n, hs, hq, he⟩ := h'.opened w hw hr
      refine ⟨hlt, m.length + q, n, by omega, ?_, he⟩
      rw [List.getElem?_append_right (Nat.le_add_right _ _), Nat.add_sub_cancel_left]
      exact hq

theorem Solves.append (h : Solves Γ A pos m) (h' : Solves Γ A (pos + m.length) m') :
    Solves Γ A pos (m ++ m') := by
  intro q n hq
  rcases Nat.lt_or_ge q m.length with hlt | hge
  · rw [List.getElem?_append_left hlt] at hq
    exact h q n hq
  · rw [List.getElem?_append_right hge] at hq
    have hat := h' _ n hq
    rwa [show pos + m.length + (q - m.length) = pos + q by omega] at hat

theorem Solves.congr (h : Solves Γ A pos m) (hB : ∀ q, q ≤ m.length → B (pos + q) = A (pos + q)) :
    Solves Γ B pos m := by
  intro q n hq
  have hlt := (List.getElem?_eq_some_iff.1 hq).1
  have hnext : B (pos + q + 1) = A (pos + q + 1) := hB (q + 1) (by omega)
  rw [hB q (by omega), hnext]
  exact h q n hq

theorem Anchored.append (hl : Bounded pos m bs) (hl' : Bounded (pos + m.length) m' bs') {j : Nat}
    (h : Anchored pos (m ++ m') (bs ++ bs') j) :
    j < pos + m.length ∧ Anchored pos m bs j ∨
      pos + m.length ≤ j ∧ Anchored (pos + m.length) m' bs' j := by
  rcases h with ⟨q, n, l, rfl, hq, hi⟩ | ⟨w, hw, rfl, hlt⟩
  · rcases Nat.lt_or_ge q m.length with hlt | hge
    · rw [List.getElem?_append_left hlt] at hq
      exact .inl ⟨by omega, .inl ⟨q, n, l, rfl, hq, hi⟩⟩
    · rw [List.getElem?_append_right hge] at hq
      exact .inr ⟨by omega, .inl ⟨_, n, l, by omega, hq, hi⟩⟩
  · rcases List.mem_append.1 hw with hw | hw
    · have := hl w hw
      exact .inl ⟨by omega, .inr ⟨w, hw, rfl, hlt⟩⟩
    · exact .inr ⟨(hl' w hw).1, .inr ⟨w, hw, rfl, hlt⟩⟩

theorem Runs.append {p : Nat} (h : Runs Γ outer x y pos m bs A) (h' : Runs Γ outer y z p m' bs' B)
    (hl : Bounded pos m bs) (hl' : Bounded p m' bs') (hp : p = pos + m.length) :
    Runs Γ outer x z pos (m ++ m') (bs ++ bs') (splice p A B) := by
  subst hp
  -- Up to the seam the values are those of `A`, from the seam on those of `B`.
  have hA : ∀ q, q ≤ pos + m.length → splice (pos + m.length) A B q = A q := by
    intro q hq
    rcases Nat.lt_or_ge q (pos + m.length) with hlt | hge
    · exact splice_of_lt hlt
    · obtain rfl : q = pos + m.length := by omega
      rw [splice_of_le hge, h'.first, h.last]
  have hB : ∀ q, pos + m.length ≤ q → splice (pos + m.length) A B q = B q :=
    fun q hq => splice_of_le hq
  refine ⟨?_, ?_, ?_, fun w hw => ?_, fun j hj => ?_⟩
  · rw [hA pos (by omega), h.first]
  · rw [List.length_append, hB _ (by omega), ← h'.last, Nat.add_assoc]
  · exact (h.solves.congr fun q hq => hA _ (by omega)).append
      (h'.solves.congr fun q _ => hB _ (by omega))
  · rcases List.mem_append.1 hw with hw | hw
    · have := hl w hw
      rw [hA _ (by omega), hA _ (by omega), h.block w hw]
    · have := hl' w hw
      rw [hB _ (by omega), hB _ (by omega), h'.block w hw]
  · rw [Extent.owedAt_append]
    rcases hj.append hl hl' with ⟨hlt, hj⟩ | ⟨hge, hj⟩
    · have hlater : Extent.owedAt bs' j = [] := Extent.owedAt_eq_nil fun w hw => by
        have := hl' w hw
        omega
      rw [hA j (by omega), h.anchor j hj, hlater, List.append_nil]
    · have hearlier : Extent.owedAt bs j = [] := Extent.owedAt_eq_nil fun w hw => by
        have := hl w hw
        omega
      rw [hB j hge, h'.anchor j hj, hearlier, List.nil_append]

/-- Values for all positions of the code can be found. -/
def Fits (Γ : String → List Debt) (outer x y : List Debt) (pos : Nat) (m : List Noted)
    (bs : List Extent) : Prop :=
  Laid pos m bs ∧ ∃ A, Runs Γ outer x y pos m bs A

theorem Fits.append {p : Nat} (h : Fits Γ outer x y pos m bs) (h' : Fits Γ outer y z p m' bs')
    (hp : p = pos + m.length) : Fits Γ outer x z pos (m ++ m') (bs ++ bs') := by
  obtain ⟨hl, A, hA⟩ := h
  obtain ⟨hl', B, hB⟩ := h'
  exact ⟨hl.append hl' hp, _, hA.append hB hl.bounds hl'.bounds hp⟩

theorem Laid.nil (pos : Nat) (h : ∀ n ∈ m, n.opens = []) : Laid pos m [] :=
  ⟨nofun, .nil, fun _ n hq ho => absurd (h n (List.mem_of_getElem? hq)) ho, nofun⟩

theorem Runs.single {n : Noted} (hat : At Γ n x y) (hn : ∀ l, n.instr ≠ .label l)
    (outer : List Debt) (pos : Nat) : ∃ A, Runs Γ outer x y pos [n] [] A := by
  have hzero : ∀ {q : Nat} {n' : Noted}, [n][q]? = some n' → q = 0 ∧ n' = n := by
    intro q n' hq
    cases q with
    | zero => exact ⟨rfl, by simpa using hq.symm⟩
    | succ q => simp at hq
  refine ⟨fun q => if q ≤ pos then x else y, if_pos (Nat.le_refl _), if_neg (by simp),
    fun q n' hq => ?_, nofun, fun j hj => ?_⟩
  · obtain ⟨rfl, rfl⟩ := hzero hq
    show At Γ n' (if pos + 0 ≤ pos then x else y) (if pos + 0 + 1 ≤ pos then x else y)
    rw [if_pos (by omega), if_neg (by omega)]
    exact hat
  · rcases hj with ⟨q, n', l, rfl, hq, hi⟩ | ⟨w, hw, -⟩
    · obtain ⟨-, rfl⟩ := hzero hq
      exact absurd hi (hn l)
    · cases hw

theorem Fits.single {n : Noted} (hat : At Γ n x y) (hn : ∀ l, n.instr ≠ .label l)
    (ho : n.opens = []) (outer : List Debt) (pos : Nat) : Fits Γ outer x y pos [n] [] :=
  ⟨.nil pos fun _ hn' => List.mem_singleton.1 hn' ▸ ho, Runs.single hat hn outer pos⟩

/-- The instruction can stand anywhere where `x` is owed, and leaves it at that. -/
def Keeps (Γ : String → List Debt) (x : List Debt) (i : Instr) : Prop := At Γ ⟨i, [], none⟩ x x

theorem jumpTarget_of_isPlain {i : Instr} {l : String} (h : i.isPlain = true)
    (hl : i.jumpTarget? = some l) : l = Environment.divideByZero := by
  cases i <;> cases hl
  all_goals exact beq_iff_eq.1 h

theorem not_label_of_isPlain {i : Instr} (h : i.isPlain = true) (l : String) : i ≠ .label l := by
  rintro rfl
  cases h

theorem Keeps.of_isPlain {i : Instr} (h : i.isPlain = true) : Keeps Γ x i := by
  refine ⟨fun l hl => absurd hl (not_label_of_isPlain h l),
    fun l hl => .inl (jumpTarget_of_isPlain h hl), fun _ => rfl, fun hr => ?_⟩
  obtain rfl : i = .ret := hr
  cases h

theorem Keeps.jumpTo {i : Instr} {l : String} (hi : i.jumpTarget? = some l) (hl : Γ l = x) :
    Keeps Γ x i := by
  refine ⟨fun l' hl' => ?_, fun l' hl' => .inr ?_, fun _ => rfl, fun hr => ?_⟩
  · obtain rfl : i = .label l' := hl'
    cases hi
  · obtain rfl := Option.some.inj (hi.symm.trans hl')
    exact hl
  · obtain rfl : i = .ret := hr
    cases hi

theorem Keeps.define {l : String} (hl : Γ l = x) : Keeps Γ x (.label l) :=
  ⟨fun _ h => Instr.label.inj h ▸ hl, nofun, fun _ => rfl, nofun⟩

theorem mem_quiet {c : Code} {n : Noted} (h : n ∈ quiet c) : ∃ i ∈ c, n = ⟨i, [], none⟩ := by
  obtain ⟨i, hi, rfl⟩ := List.mem_map.1 h
  exact ⟨i, hi, rfl⟩

theorem Fits.keeping {c : Code} (h : ∀ i ∈ c, Keeps Γ x i) (pos : Nat) :
    Fits Γ x x x pos (quiet c) [] := by
  refine ⟨.nil pos fun n hn => ?_, fun _ => x, rfl, rfl, fun q n hq => ?_, nofun, fun _ _ => rfl⟩
  · obtain ⟨i, -, rfl⟩ := mem_quiet hn
    rfl
  · obtain ⟨i, hi, rfl⟩ := mem_quiet (List.mem_of_getElem? hq)
    exact h i hi

theorem Fits.enclose {c c' : Code} {p : Nat} (h : Fits Γ x x x p m bs) (hp : p = pos + c.length)
    (hc : ∀ i ∈ c, Keeps Γ x i) (hc' : ∀ i ∈ c', Keeps Γ x i) :
    Fits Γ x x x pos (Noted.quiet c ++ m ++ Noted.quiet c') bs := by
  have hfront := (Fits.keeping hc pos).append h (by rw [hp, length_quiet])
  have hall := hfront.append (.keeping hc' _) rfl
  rwa [List.nil_append, List.append_nil] at hall

theorem Fits.plain {c : Code} (h : c.all Instr.isPlain = true) (Γ : String → List Debt)
    (outer x : List Debt) (pos : Nat) : Fits Γ outer x x pos (quiet c) [] := by
  obtain ⟨hl, A, hA⟩ := Fits.keeping (Γ := Γ) (x := x)
    (fun i hi => Keeps.of_isPlain (List.all_eq_true.1 h i hi)) pos
  refine ⟨hl, A, hA.first, hA.last, hA.solves, hA.block, fun j hj => ?_⟩
  rcases hj with ⟨q, n, l, -, hq, hi⟩ | ⟨w, hw, -⟩
  · obtain ⟨i, hc, rfl⟩ := mem_quiet (List.mem_of_getElem? hq)
    exact absurd hi (not_label_of_isPlain (List.all_eq_true.1 h i hc) l)
  · cases hw

theorem Fits.nil (Γ : String → List Debt) (outer x : List Debt) (pos : Nat) :
    Fits Γ outer x x pos [] [] := Fits.plain (c := []) rfl Γ outer x pos

theorem getElem?_opening {c : Code} {q : Nat} {n : Noted} {ds : List Debt}
    (hc : c.all Instr.isPlain = true) (hq : (opening ds c)[q]? = some n) :
    n.instr.isPlain = true ∧ (n.opens ≠ [] → q = 0 ∧ n.opens = ds) := by
  cases c with
  | nil => simp [opening] at hq
  | cons i c =>
    rw [List.all_cons, Bool.and_eq_true] at hc
    cases q with
    | zero =>
      obtain rfl : ⟨i, ds, none⟩ = n := by simpa [opening] using hq
      exact ⟨hc.1, fun _ => ⟨rfl, rfl⟩⟩
    | succ q =>
      obtain ⟨j, hj, rfl⟩ := mem_quiet (List.mem_of_getElem? (i := q) (by simpa [opening] using hq))
      exact ⟨List.all_eq_true.1 hc.2 j hj, fun ho => absurd rfl ho⟩

theorem runs_opening {c : Code} {ds : List Debt} (hc : c.all Instr.isPlain = true)
    (hne : ds ≠ [] → c ≠ []) (Γ : String → List Debt) (outer x : List Debt) (pos : Nat) :
    ∃ A, Runs Γ outer x (ds ++ x) pos (opening ds c) [] A := by
  cases c with
  | nil =>
    obtain rfl : ds = [] := Classical.byContradiction fun h => hne h rfl
    exact (Fits.nil Γ outer x pos).2
  | cons i c =>
    rw [List.all_cons, Bool.and_eq_true] at hc
    have hs : Keeps Γ x i := .of_isPlain hc.1
    have hat : At Γ ⟨i, ds, none⟩ x (ds ++ x) :=
      ⟨hs.label, fun l hl => .inl (jumpTarget_of_isPlain hc.1 hl), fun _ => rfl, hs.ret⟩
    obtain ⟨A, hA⟩ := Runs.single hat (not_label_of_isPlain hc.1) outer pos
    obtain ⟨-, B, hB⟩ := Fits.plain hc.2 Γ outer (ds ++ x) (pos + 1)
    exact ⟨_, hA.append hB nofun nofun rfl⟩

section

variable {c : Code} {w : Extent}

theorem Laid.scope (hw : w.start = pos) (hc : c.all Instr.isPlain = true)
    (hne : w.refs ≠ [] → c ≠ []) (h : Laid (pos + c.length) m bs)
    (hstop : w.stop = pos + c.length + m.length) :
    Laid pos (opening w.debts c ++ m) (bs ++ [w]) := by
  have hpos : w.refs ≠ [] → 0 < c.length := fun hr => List.length_pos_iff.2 (hne hr)
  refine ⟨fun u hu => ?_, ?_, fun q n hq ho => ?_, fun u hu hr => ?_⟩
  · rw [List.length_append, length_opening]
    rcases List.mem_append.1 hu with hu | hu
    · have := h.bounds u hu
      omega
    · obtain rfl := List.mem_singleton.1 hu
      omega
  · refine List.pairwise_append.2 ⟨h.nests, List.pairwise_singleton _ _, fun u hu v hv => .inr ?_⟩
    obtain rfl := List.mem_singleton.1 hv
    have := h.bounds u hu
    refine ⟨by omega, by omega, fun hr => ?_⟩
    have := hpos hr
    omega
  · rcases Nat.lt_or_ge q (opening w.debts c).length with hlt | hge
    · rw [List.getElem?_append_left hlt] at hq
      obtain ⟨hp, hopens⟩ := getElem?_opening hc hq
      obtain ⟨rfl, heq⟩ := hopens ho
      exact ⟨hp, w, by simp, by omega, heq⟩
    · rw [List.getElem?_append_right hge] at hq
      rw [length_opening] at hge hq
      obtain ⟨hp, u, hu, hs, heq⟩ := h.opens _ n hq ho
      exact ⟨hp, u, List.mem_append_left _ hu, by omega, heq⟩
  · rcases List.mem_append.1 hu with hu | hu
    · obtain ⟨hlt, q, n, hs, hq, heq⟩ := h.opened u hu hr
      refine ⟨hlt, c.length + q, n, by omega, ?_, heq⟩
      rw [List.getElem?_append_right (by simp), length_opening, Nat.add_sub_cancel_left]
      exact hq
    · obtain rfl := List.mem_singleton.1 hu
      have hlen := hpos hr
      cases c with
      | nil => cases hlen
      | cons i c => exact ⟨by omega, 0, ⟨i, u.debts, none⟩, by omega, rfl, rfl⟩

theorem Runs.scope (hw : w.start = pos) (hc : c.all Instr.isPlain = true)
    (hne : w.debts ≠ [] → c ≠ []) (hl : Bounded (pos + c.length) m bs)
    (h : Runs Γ (w.debts ++ outer) outer outer pos (opening w.debts c ++ m) bs A)
    (hstop : w.stop = pos + c.length + m.length) :
    Runs Γ outer outer outer pos (opening w.debts c ++ m) (bs ++ [w]) A := by
  have hlast := h.last
  rw [List.length_append, length_opening, ← Nat.add_assoc, ← hstop] at hlast
  refine ⟨h.first, h.last, h.solves, fun u hu => ?_, fun j hj => ?_⟩
  · rcases List.mem_append.1 hu with hu | hu
    · exact h.block u hu
    · obtain rfl := List.mem_singleton.1 hu
      rw [hlast, hw, h.first]
  · rw [Extent.owedAt_append, List.append_assoc]
    rcases hj with ⟨q, n, l, rfl, hq, hi⟩ | ⟨u, hu, rfl, hlt⟩
    · -- Behind its first instruction the scope owes all of its debts.
      rw [h.anchor _ (.inl ⟨q, n, l, rfl, hq, hi⟩), Extent.owedAt_singleton fun hd => ?_]
      have hlen := (List.getElem?_eq_some_iff.1 hq).1
      rw [List.length_append, length_opening] at hlen
      have hclen := List.length_pos_iff.2 (hne hd)
      refine ⟨Nat.lt_of_le_of_ne (by omega) fun heq => ?_, by omega⟩
      obtain rfl : q = 0 := by omega
      rw [List.getElem?_append_left (by rw [length_opening]; exact hclen)] at hq
      exact not_label_of_isPlain (getElem?_opening hc hq).1 l hi
    · rcases List.mem_append.1 hu with hu | hu
      · rw [h.anchor _ (.inr ⟨u, hu, rfl, hlt⟩), Extent.owedAt_singleton fun hd => ?_]
        have := hl u hu
        have := List.length_pos_iff.2 (hne hd)
        omega
      · obtain rfl := List.mem_singleton.1 hu
        have hnone : Extent.owedAt bs u.start = [] := by
          refine Extent.owedAt_eq_nil fun v hv => .inl ?_
          have := hl v hv
          omega
        rw [hnone, Extent.owedAt_eq_nil (by simp), hw, h.first]
        rfl

/-- A scope around code: it takes charge of its references in front of the code, and owes nothing
behind it. -/
theorem Fits.scope (hw : w.start = pos) (hc : c.all Instr.isPlain = true)
    (hne : w.refs ≠ [] → c ≠ [])
    (h : Fits Γ (w.debts ++ outer) (w.debts ++ outer) outer (pos + c.length) m bs)
    (hstop : w.stop = pos + c.length + m.length) :
    Fits Γ outer outer outer pos (opening w.debts c ++ m) (bs ++ [w]) := by
  obtain ⟨hl, B, hB⟩ := h
  have hne' : w.debts ≠ [] → c ≠ [] := fun hd => hne fun hr => hd (by simp [Holder.debts, Holder.owed, hr])
  obtain ⟨A, hA⟩ := runs_opening hc hne' Γ (w.debts ++ outer) outer pos
  have hrun := hA.append hB (List.forall_mem_nil _) hl.bounds (by rw [length_opening])
  exact ⟨hl.scope hw hc hne hstop, _, Runs.scope hw hc hne' hl.bounds hrun hstop⟩

end

end Noted
end IntervalStack
