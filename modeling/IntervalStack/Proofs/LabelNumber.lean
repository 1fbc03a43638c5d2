import IntervalStack.Proofs.Generation

/-! The number in a generated label can be read off its text, so that the labels handed out in one
stretch of the generation differ from all those handed out in another, and from the labels that
carry names of the program. -/

namespace IntervalStack.Generator

def stems : List String :=
  ["and", "or", "compare", "to-bool", "if", "while", "exit", "print-bool", "interval-printer"]

def notDigit (c : Char) : Bool := !c.isDigit

def number? (l : String) : Option Nat :=
  if l.toList.takeWhile notDigit ∈ stems.map (fun stem => ("-" ++ stem ++ "-").toList) then
    some (Nat.ofDigitChars 10 ((l.toList.dropWhile notDigit).takeWhile Char.isDigit) 0)
  else none

theorem notDigit_of_mem_stem {stem : String} (h : stem ∈ stems) :
    ∀ c ∈ ("-" ++ stem ++ "-").toList, notDigit c = true := by
  have hall : stems.all (fun stem => ("-" ++ stem ++ "-").toList.all notDigit) = true := by decide
  exact List.all_eq_true.1 (List.all_eq_true.1 hall stem h)

theorem isDigit_of_mem_repr {n : Nat} {c : Char} (h : c ∈ (toString n).toList) :
    c.isDigit = true := by
  rw [Nat.toString_eq_repr, Nat.toList_repr] at h
  exact Nat.isDigit_of_mem_toDigits (by decide) (by decide) h

theorem repr_toList_ne_nil (n : Nat) : (toString n).toList ≠ [] := by
  rw [Nat.toString_eq_repr, Nat.toList_repr]
  exact Nat.toDigits_ne_nil

theorem number?_append {stem : String} {n : Nat} {rest : String} (h : stem ∈ stems)
    (hr : rest.toList.takeWhile Char.isDigit = []) :
    number? ("-" ++ stem ++ "-" ++ toString n ++ rest) = some n := by
  obtain ⟨c, cs, hc⟩ := List.exists_cons_of_ne_nil (repr_toList_ne_nil n)
  have hdigit : notDigit c = false := by
    simp [notDigit, isDigit_of_mem_repr (hc ▸ List.mem_cons_self : c ∈ (toString n).toList)]
  have htake : (("-" ++ stem ++ "-" ++ toString n ++ rest).toList).takeWhile notDigit
      = ("-" ++ stem ++ "-").toList := by
    rw [String.toList_append, String.toList_append, List.append_assoc,
      List.takeWhile_append_of_pos (notDigit_of_mem_stem h), hc]
    simp [hdigit]
  have hdrop : (("-" ++ stem ++ "-" ++ toString n ++ rest).toList).dropWhile notDigit
      = (toString n).toList ++ rest.toList := by
    rw [String.toList_append, String.toList_append, List.append_assoc,
      List.dropWhile_append_of_pos (notDigit_of_mem_stem h), hc]
    simp [hdigit]
  have hnumber : ((toString n).toList ++ rest.toList).takeWhile Char.isDigit
      = Nat.toDigits 10 n := by
    rw [List.takeWhile_append_of_pos fun c hc => isDigit_of_mem_repr hc, hr, List.append_nil,
      Nat.toString_eq_repr, Nat.toList_repr]
  unfold number?
  rw [htake, hdrop, hnumber, if_pos (List.mem_map_of_mem h), Nat.ofDigitChars_ten_toDigits]

theorem number?_label (s : State) {stem : String} (h : stem ∈ stems) :
    number? (s.label stem) = some (s.labels.count + 1) := by
  have hempty : "".toList.takeWhile Char.isDigit = [] := rfl
  have hn := number?_append (n := s.labels.count + 1) h hempty
  rwa [String.append_empty] at hn

theorem number?_part (s : State) {stem : String} (part : String) (h : stem ∈ stems) :
    number? (Labels.part (s.label stem) part) = some (s.labels.count + 1) := by
  have hpart : ("-" ++ part).toList.takeWhile Char.isDigit = [] := by
    rw [String.toList_append]
    rfl
  have hn := number?_append (n := s.labels.count + 1) h hpart
  rwa [← String.append_assoc] at hn

def IsBetween (n n' : Nat) (l : String) : Prop := ∃ k, number? l = some k ∧ n < k ∧ k ≤ n'

theorem IsBetween.mono {n m m' n' : Nat} {l : String} (h : IsBetween m m' l) (hn : n ≤ m)
    (hn' : m' ≤ n') : IsBetween n n' l := by
  obtain ⟨k, hk, hlo, hhi⟩ := h
  exact ⟨k, hk, by omega, by omega⟩

theorem isBetween_label (s : State) {stem : String} (h : stem ∈ stems) :
    IsBetween s.labels.count s.next.labels.count (s.label stem) :=
  ⟨_, number?_label s h, Nat.lt_succ_self _, Nat.le_refl _⟩

theorem isBetween_part (s : State) {stem : String} (part : String) (h : stem ∈ stems) :
    IsBetween s.labels.count s.next.labels.count (Labels.part (s.label stem) part) :=
  ⟨_, number?_part s part h, Nat.lt_succ_self _, Nat.le_refl _⟩

theorem part_inj {group a b : String} (h : Labels.part group a = Labels.part group b) : a = b := by
  unfold Labels.part at h
  exact String.append_right_inj _ |>.1 h

theorem number?_eq_none {l rest : String} {start : List Char} (hl : l.toList = start ++ rest.toList)
    (hn : start.all notDigit = true)
    (hs : stems.all (fun stem => !start.isPrefixOf ("-" ++ stem ++ "-").toList) = true) :
    number? l = none := by
  unfold number?
  rw [if_neg]
  intro hmem
  obtain ⟨stem, hstem, heq⟩ := List.mem_map.1 hmem
  rw [hl, List.takeWhile_append_of_pos (List.all_eq_true.1 hn)] at heq
  have hpre : start.isPrefixOf ("-" ++ stem ++ "-").toList = true := by
    rw [heq]
    exact List.isPrefixOf_iff_prefix.2 (List.prefix_append _ _)
  have hnot := List.all_eq_true.1 hs stem hstem
  rw [hpre] at hnot
  cases hnot

end IntervalStack.Generator
