import IntervalStack.Machine.Format
import Mathlib.Data.List.Chain

/-! The grammar of print formats. A format is read from left to right; whatever stands between two
directives becomes one text. Reading a format and writing it out again undo each other. -/

namespace IntervalStack.Format

/-- Read from left to right, every sign that starts a directive has a letter behind it, or a second
sign. -/
inductive WellFormed : List Char → Prop
  | nil : WellFormed []
  | plain {c : Char} {cs : List Char} (hc : c ≠ '%') (h : WellFormed cs) : WellFormed (c :: cs)
  | directive {c : Char} {cs : List Char} (hc : c ∈ ['%', 'd', 'g', 'c', 's'])
      (h : WellFormed cs) : WellFormed ('%' :: c :: cs)

structure Normal (pieces : List Piece) : Prop where
  filled : .text "" ∉ pieces
  apart : pieces.IsChain fun p q => p.takesArgument = true ∨ q.takesArgument = true

def doubled (c : Char) : List Char := if c = '%' then ['%', '%'] else [c]

variable {c : Char} {cs : List Char} {p : Piece} {ps : List Piece} {s : String}

theorem written_text (s : String) : (Piece.text s).written = s.toList.flatMap doubled := rfl

theorem ofLetter?_eq_some :
    Piece.ofLetter? c = some p ↔ p.takesArgument = true ∧ p.written = ['%', c] := by
  constructor
  · intro h
    unfold Piece.ofLetter? at h
    split at h <;> cases h <;> exact ⟨rfl, rfl⟩
  · rintro ⟨hp, h⟩
    cases p with
    | text => cases hp
    | _ =>
      cases h
      rfl

theorem exists_ofLetter? (hc : c ≠ '%') :
    (∃ p, Piece.ofLetter? c = some p) ↔ c ∈ ['%', 'd', 'g', 'c', 's'] := by
  constructor
  · rintro ⟨p, h⟩
    unfold Piece.ofLetter? at h
    split at h <;> cases h <;> decide
  · intro h
    simp only [List.mem_cons, List.not_mem_nil, or_false] at h
    rcases h with rfl | rfl | rfl | rfl | rfl
    · exact absurd rfl hc
    all_goals exact ⟨_, rfl⟩

/-! A character in front of the pieces. -/

theorem cons_written (c : Char) (ps : List Piece) :
    (cons c ps).flatMap Piece.written = doubled c ++ ps.flatMap Piece.written := by
  unfold cons
  split <;> simp [written_text]

theorem Normal.nil : Normal [] := ⟨List.not_mem_nil, .nil⟩

theorem Normal.directive (hp : p.takesArgument = true) (h : Normal ps) : Normal (p :: ps) := by
  refine ⟨fun hmem => ?_, List.isChain_cons.2 ⟨fun _ _ => .inl hp, h.apart⟩⟩
  rcases List.mem_cons.1 hmem with rfl | hmem
  · cases hp
  · exact h.filled hmem

theorem Normal.tail (h : Normal (p :: ps)) : Normal ps :=
  ⟨fun hmem => h.filled (List.mem_cons_of_mem _ hmem), (List.isChain_cons.1 h.apart).2⟩

theorem Normal.text (hs : s ≠ "") (hps : ∀ q ∈ ps.head?, q.takesArgument = true) (h : Normal ps) :
    Normal (.text s :: ps) := by
  refine ⟨fun hmem => ?_, List.isChain_cons.2 ⟨fun q hq => .inr (hps q hq), h.apart⟩⟩
  rcases List.mem_cons.1 hmem with heq | hmem
  · exact hs (Piece.text.inj heq).symm
  · exact h.filled hmem

theorem Normal.head_tail (h : Normal (.text s :: ps)) : ∀ q ∈ ps.head?, q.takesArgument = true :=
  fun q hq => ((List.isChain_cons.1 h.apart).1 q hq).resolve_left Bool.false_ne_true

/-- The character goes into the text that the pieces start with, or becomes a text of its own. -/
theorem Normal.cons (c : Char) (h : Normal ps) : Normal (cons c ps) := by
  unfold Format.cons
  split
  · next s ps =>
    refine .text (fun hempty => ?_) h.head_tail h.tail
    simpa using congrArg String.toList hempty
  · next hps =>
    refine .text (fun hempty => ?_) (fun q hq => ?_) h
    · simpa using congrArg String.toList hempty
    · obtain ⟨qs, rfl⟩ : ∃ qs, ps = q :: qs := by
        cases ps with
        | nil => cases hq
        | cons r qs => exact ⟨qs, by rw [Option.mem_some.1 hq]⟩
      cases q with
      | text t => exact absurd rfl (hps t qs)
      | _ => rfl

/-! Reading. -/

theorem parseChars_percent (cs : List Char) :
    parseChars ('%' :: '%' :: cs) = (parseChars cs).map (cons '%') := by
  rw [parseChars, if_pos rfl]

theorem parseChars_directive (h : Piece.ofLetter? c = some p) (cs : List Char) :
    parseChars ('%' :: c :: cs) = (parseChars cs).map (p :: ·) := by
  have hc : c ≠ '%' := by
    rintro rfl
    cases h
  rw [parseChars, if_neg hc, h]

theorem parseChars_plain (hc : c ≠ '%') (cs : List Char) :
    parseChars (c :: cs) = (parseChars cs).map (cons c) := by
  rw [parseChars]
  · rintro rfl
    exact absurd rfl hc
  · rintro c' rest rfl
    exact absurd rfl hc

theorem parseChars_doubled (c : Char) (cs : List Char) :
    parseChars (doubled c ++ cs) = (parseChars cs).map (cons c) := by
  unfold doubled
  split
  · next hc =>
    rw [hc]
    exact parseChars_percent cs
  · next hc => exact parseChars_plain hc cs

theorem map_eq_ok {α β ε : Type} {f : α → β} {x : Except ε α} {b : β} :
    x.map f = .ok b ↔ ∃ a, x = .ok a ∧ f a = b := by
  cases x with
  | error e => simp [Except.map]
  | ok a => simp [Except.map]

theorem parseChars_ok (h : parseChars cs = .ok ps) :
    Normal ps ∧ ps.flatMap Piece.written = cs := by
  fun_induction parseChars cs generalizing ps with
  | case1 =>
    cases h
    exact ⟨.nil, rfl⟩
  | case2 => cases h
  | case3 rest ih =>
    obtain ⟨qs, hqs, rfl⟩ := map_eq_ok.1 h
    obtain ⟨hnormal, hwritten⟩ := ih hqs
    exact ⟨hnormal.cons _, by rw [cons_written, hwritten]; rfl⟩
  | case4 c rest hc p hp ih =>
    obtain ⟨qs, hqs, rfl⟩ := map_eq_ok.1 h
    obtain ⟨hnormal, hwritten⟩ := ih hqs
    obtain ⟨htakes, hletter⟩ := ofLetter?_eq_some.1 hp
    exact ⟨hnormal.directive htakes, by rw [List.flatMap_cons, hletter, hwritten]; rfl⟩
  | case5 => cases h
  | case6 c rest hlone hpair ih =>
    obtain ⟨qs, hqs, rfl⟩ := map_eq_ok.1 h
    obtain ⟨hnormal, hwritten⟩ := ih hqs
    have hc : c ≠ '%' := by
      rintro rfl
      cases rest with
      | nil => exact hlone rfl rfl
      | cons c' rest => exact hpair c' rest rfl rfl
    exact ⟨hnormal.cons _, by rw [cons_written, hwritten, doubled, if_neg hc]; rfl⟩

theorem WellFormed.doubled (c : Char) (h : WellFormed cs) : WellFormed (doubled c ++ cs) := by
  unfold Format.doubled
  split
  · exact .directive (List.mem_cons_self) h
  · next hc => exact .plain hc h

theorem WellFormed.written (p : Piece) (h : WellFormed cs) : WellFormed (p.written ++ cs) := by
  cases p with
  | text s =>
    rw [written_text]
    induction s.toList with
    | nil => exact h
    | cons c cs' ih =>
      rw [List.flatMap_cons, List.append_assoc]
      exact ih.doubled c
  | _ => exact .directive (by decide) h

theorem wellFormed_written (ps : List Piece) : WellFormed (ps.flatMap Piece.written) := by
  induction ps with
  | nil => exact .nil
  | cons p ps ih => exact ih.written p

theorem WellFormed.parses (h : WellFormed cs) : ∃ ps, parseChars cs = .ok ps := by
  induction h with
  | nil => exact ⟨[], rfl⟩
  | @plain c cs hc _ ih =>
    obtain ⟨ps, ih⟩ := ih
    exact ⟨cons c ps, by rw [parseChars_plain hc, ih]; rfl⟩
  | @directive c cs hletter _ ih =>
    obtain ⟨ps, ih⟩ := ih
    by_cases hc : c = '%'
    · exact ⟨cons '%' ps, by rw [hc, parseChars_percent, ih]; rfl⟩
    · obtain ⟨p, hp⟩ := (exists_ofLetter? hc).2 hletter
      exact ⟨p :: ps, by rw [parseChars_directive hp, ih]; rfl⟩

/-! Reading what was written. -/

theorem foldr_cons (hcs : cs ≠ []) (hps : ∀ q ∈ ps.head?, q.takesArgument = true) :
    cs.foldr cons ps = .text (String.ofList cs) :: ps := by
  induction cs with
  | nil => exact absurd rfl hcs
  | cons c cs ih =>
    cases cs with
    | nil =>
      rw [List.foldr_cons, List.foldr_nil]
      unfold cons
      split
      · next s ps => cases hps _ rfl
      · rw [String.singleton_eq_ofList]
    | cons c' cs =>
      rw [List.foldr_cons, ih (List.cons_ne_nil _ _)]
      simp [cons]

theorem parseChars_text (cs rest : List Char) :
    parseChars (cs.flatMap doubled ++ rest) = (parseChars rest).map fun ps => cs.foldr cons ps := by
  induction cs with
  | nil =>
    rw [List.flatMap_nil, List.nil_append]
    cases parseChars rest <;> rfl
  | cons c cs ih =>
    rw [List.flatMap_cons, List.append_assoc, parseChars_doubled, ih]
    cases parseChars rest <;> rfl

theorem parseChars_argument (hp : p.takesArgument = true) (rest : List Char) :
    parseChars (p.written ++ rest) = (parseChars rest).map (p :: ·) := by
  cases p with
  | text => cases hp
  | _ => exact parseChars_directive rfl rest

theorem parseChars_written (h : Normal ps) : parseChars (ps.flatMap Piece.written) = .ok ps := by
  induction ps with
  | nil => rfl
  | cons p ps ih =>
    have ih := ih h.tail
    rw [List.flatMap_cons]
    cases p with
    | text s =>
      have hs : s.toList ≠ [] := fun hempty => h.filled (by
        rw [← String.ofList_toList (s := s), hempty]
        exact List.mem_cons_self)
      rw [written_text, parseChars_text, ih, Except.map, foldr_cons hs h.head_tail,
        String.ofList_toList]
    | _ =>
      rw [parseChars_argument rfl, ih]
      rfl

/-- Formats and the pieces that they stand for. A format is read exactly if it is well formed; the
pieces have no empty texts and no two texts in a row, and a list of such pieces is what its written
form is read as. -/
theorem parse_inverts_written :
    (∀ s, (∃ ps, parse s = .ok ps) ↔ WellFormed s.toList) ∧
    ∀ s ps, parse s = .ok ps ↔ Normal ps ∧ written ps = s := by
  have hread (s : String) (ps : List Piece) : parse s = .ok ps ↔ Normal ps ∧ written ps = s := by
    constructor
    · intro h
      obtain ⟨hnormal, hwritten⟩ := parseChars_ok h
      exact ⟨hnormal, by rw [written, hwritten, String.ofList_toList]⟩
    · rintro ⟨hnormal, rfl⟩
      rw [parse, written, String.toList_ofList]
      exact parseChars_written hnormal
  refine ⟨fun s => ⟨?_, fun h => h.parses⟩, hread⟩
  rintro ⟨ps, hps⟩
  rw [← ((hread s ps).1 hps).2, written, String.toList_ofList]
  exact wellFormed_written ps

end IntervalStack.Format
