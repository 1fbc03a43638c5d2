import IntervalStack.Text.Escape
import Mathlib.Data.List.Basic

/-! Escaped texts can be read back. The escape of a character tells where it ends, whether it stands
at the start of a text or further on, so two texts that are escaped alike are the same. None of them
has a line break. -/

namespace IntervalStack.Text

theorem cut_inj {sep : Char} {as bs cs ds : List Char} (has : sep ∉ as) (hcs : sep ∉ cs)
    (hbs : ∀ c ∈ bs.head?, c = sep) (hds : ∀ c ∈ ds.head?, c = sep) (h : as ++ bs = cs ++ ds) :
    as = cs ∧ bs = ds := by
  induction as generalizing cs with
  | nil =>
    cases cs with
    | nil => exact ⟨rfl, h⟩
    | cons c cs =>
      have hc : c = sep := hbs c (by rw [List.nil_append] at h; rw [h]; rfl)
      exact absurd (hc ▸ List.mem_cons_self) hcs
  | cons a as ih =>
    cases cs with
    | nil =>
      have ha : a = sep := hds a (by rw [List.nil_append] at h; rw [← h]; rfl)
      exact absurd (ha ▸ List.mem_cons_self) has
    | cons c cs =>
      obtain ⟨rfl, hrest⟩ := List.cons.inj h
      obtain ⟨rfl, rfl⟩ :=
        ih (List.not_mem_of_not_mem_cons has) (List.not_mem_of_not_mem_cons hcs) hrest
      exact ⟨rfl, rfl⟩

/-! Hexadecimal numbers. -/

theorem digitChar_inj {m n : ℕ} (hm : m < 16) (hn : n < 16)
    (h : Nat.digitChar m = Nat.digitChar n) : m = n := by
  have hall : ∀ a b : Fin 16, Nat.digitChar a = Nat.digitChar b → a = b := by decide
  exact congrArg Fin.val (hall ⟨m, hm⟩ ⟨n, hn⟩ h)

theorem toDigits_hex_injective {m n : ℕ} (h : Nat.toDigits 16 m = Nat.toDigits 16 n) : m = n := by
  induction m using Nat.strongRecOn generalizing n with
  | ind m ih =>
    have hshort : m < 16 ^ 1 ↔ n < 16 ^ 1 := by
      rw [← Nat.length_toDigits_le_iff (by decide) Nat.one_pos,
        ← Nat.length_toDigits_le_iff (by decide) Nat.one_pos, h]
    by_cases hm : m < 16
    · have hn : n < 16 := hshort.1 hm
      rw [Nat.toDigits_of_lt_base hm, Nat.toDigits_of_lt_base hn] at h
      exact digitChar_inj hm hn (List.singleton_inj.1 h)
    · have hn : ¬ n < 16 := fun hn => hm (hshort.2 hn)
      rw [Nat.toDigits_of_base_le (by decide) (Nat.le_of_not_lt hm),
        Nat.toDigits_of_base_le (by decide) (Nat.le_of_not_lt hn)] at h
      obtain ⟨hfront, hlast⟩ := List.append_inj' h rfl
      have hdiv := ih (m / 16) (by omega) hfront
      have hmod := digitChar_inj (Nat.mod_lt m (by decide)) (Nat.mod_lt n (by decide))
        (List.singleton_inj.1 hlast)
      omega

theorem mem_toDigits_hex {n : ℕ} {c : Char} (h : c ∈ Nat.toDigits 16 n) :
    ∃ d < 16, c = Nat.digitChar d := by
  induction n using Nat.strongRecOn with
  | ind n ih =>
    by_cases hn : n < 16
    · rw [Nat.toDigits_of_lt_base hn] at h
      exact ⟨n, hn, List.mem_singleton.1 h⟩
    · rw [Nat.toDigits_of_base_le (by decide) (Nat.le_of_not_lt hn)] at h
      rcases List.mem_append.1 h with h | h
      · exact ih (n / 16) (by omega) h
      · exact ⟨n % 16, Nat.mod_lt n (by decide), List.mem_singleton.1 h⟩

theorem notMem_toDigits_hex {n : ℕ} {c : Char} (hc : ∀ d : Fin 16, Nat.digitChar d ≠ c) :
    c ∉ Nat.toDigits 16 n := by
  intro h
  obtain ⟨d, hd, rfl⟩ := mem_toDigits_hex h
  exact hc ⟨d, hd⟩ rfl

/-! Single characters. -/

def shortEscapes : List (Char × Char) :=
  [('\x00', '0'), ('\t', 't'), ('\r', 'r'), ('\n', 'n'), ('\\', '\\'), ('"', '"'), ('\'', '\'')]

theorem escapeChar_cases (first : Bool) (c : Char) :
    (∃ e, (c, e) ∈ shortEscapes ∧ escapeChar first c = ['\\', e]) ∨
      (c ≠ '\\' ∧ c ≠ '\n' ∧ escapeChar first c = [c]) ∨ escapeChar first c = numericEscape c := by
  unfold escapeChar
  split
  iterate 7 exact .inl ⟨_, by decide, rfl⟩
  · next hbreak hbackslash _ _ =>
    split
    · exact .inr (.inl ⟨hbackslash, hbreak, rfl⟩)
    · exact .inr (.inr rfl)

theorem shortEscapes_inj {c d e : Char} (hc : (c, e) ∈ shortEscapes) (hd : (d, e) ∈ shortEscapes) :
    c = d := by
  have hall : shortEscapes.all fun p => shortEscapes.all fun q => p.2 != q.2 || p.1 == q.1 := by decide
  have h := List.all_eq_true.1 (List.all_eq_true.1 hall _ hc) _ hd
  simpa using h

theorem shortEscapes_ne {c e : Char} (h : (c, e) ∈ shortEscapes) : e ≠ 'u' ∧ e ≠ '\n' := by
  have hall : shortEscapes.all fun p => p.2 != 'u' && p.2 != '\n' := by decide
  have h := List.all_eq_true.1 hall _ h
  simpa using h

theorem numericEscape_append_inj {c d : Char} {r s : List Char}
    (h : numericEscape c ++ r = numericEscape d ++ s) : c = d ∧ r = s := by
  simp only [numericEscape, List.append_assoc, List.cons_append, List.nil_append, List.cons.injEq,
    true_and] at h
  have hbrace (n : ℕ) : '\x7d' ∉ Nat.toDigits 16 n := notMem_toDigits_hex (by decide)
  obtain ⟨hdigits, hrest⟩ := cut_inj (hbrace _) (hbrace _) (by simp) (by simp) h
  exact ⟨Char.toNat_inj.1 (toDigits_hex_injective hdigits), (List.cons.inj hrest).2⟩

theorem escapeChar_append_inj {first first' : Bool} {c d : Char} {r s : List Char}
    (h : escapeChar first c ++ r = escapeChar first' d ++ s) : c = d ∧ r = s := by
  rcases escapeChar_cases first c with ⟨e, he, hc⟩ | ⟨hc', -, hc⟩ | hc <;>
  rcases escapeChar_cases first' d with ⟨e', he', hd⟩ | ⟨hd', -, hd⟩ | hd <;>
  rw [hc, hd] at h
  · obtain ⟨rfl, rfl⟩ : e = e' ∧ r = s := by simpa using h
    exact ⟨shortEscapes_inj he he', rfl⟩
  · exact absurd (List.cons.inj h).1.symm hd'
  · exact absurd (List.cons.inj (List.cons.inj h).2).1 (shortEscapes_ne he).1
  · exact absurd (List.cons.inj h).1 hc'
  · exact List.cons.inj h
  · exact absurd (List.cons.inj h).1 hc'
  · exact absurd (List.cons.inj (List.cons.inj h).2).1.symm (shortEscapes_ne he').1
  · exact absurd (List.cons.inj h).1.symm hd'
  · exact numericEscape_append_inj h

theorem escapeChar_ne_nil (first : Bool) (c : Char) : escapeChar first c ≠ [] := by
  rcases escapeChar_cases first c with ⟨e, -, hc⟩ | ⟨-, -, hc⟩ | hc <;>
    exact hc ▸ List.cons_ne_nil _ _

theorem lineBreak_notMem_escapeChar (first : Bool) (c : Char) : '\n' ∉ escapeChar first c := by
  rcases escapeChar_cases first c with ⟨e, he, hc⟩ | ⟨-, hbreak, hc⟩ | hc
  · have := (shortEscapes_ne he).2.symm
    simp [hc, this]
  · simpa [hc] using hbreak.symm
  · have hdigits : '\n' ∉ Nat.toDigits 16 c.toNat := notMem_toDigits_hex (by decide)
    simp [hc, numericEscape, hdigits]

/-! Texts. -/

theorem flatMap_escapeChar_injective {cs ds : List Char}
    (h : cs.flatMap (escapeChar false) = ds.flatMap (escapeChar false)) : cs = ds := by
  induction cs generalizing ds with
  | nil =>
    cases ds with
    | nil => rfl
    | cons d ds =>
      rw [List.flatMap_nil, List.flatMap_cons] at h
      exact absurd (List.append_eq_nil_iff.1 h.symm).1 (escapeChar_ne_nil false d)
  | cons c cs ih =>
    cases ds with
    | nil =>
      rw [List.flatMap_nil, List.flatMap_cons] at h
      exact absurd (List.append_eq_nil_iff.1 h).1 (escapeChar_ne_nil false c)
    | cons d ds =>
      rw [List.flatMap_cons, List.flatMap_cons] at h
      obtain ⟨rfl, hrest⟩ := escapeChar_append_inj h
      rw [ih hrest]

theorem escapeChars_injective {cs ds : List Char} (h : escapeChars cs = escapeChars ds) :
    cs = ds := by
  cases cs with
  | nil =>
    cases ds with
    | nil => rfl
    | cons d ds => exact absurd (List.append_eq_nil_iff.1 h.symm).1 (escapeChar_ne_nil true d)
  | cons c cs =>
    cases ds with
    | nil => exact absurd (List.append_eq_nil_iff.1 h).1 (escapeChar_ne_nil true c)
    | cons d ds =>
      obtain ⟨rfl, hrest⟩ := escapeChar_append_inj h
      rw [flatMap_escapeChar_injective hrest]

theorem escape_injective {s t : String} (h : escape s = escape t) : s = t :=
  String.toList_inj.1 (escapeChars_injective (String.ofList_injective h))

theorem lineBreak_notMem_escape (s : String) : '\n' ∉ (escape s).toList := by
  rw [escape, String.toList_ofList]
  cases s.toList with
  | nil => exact List.not_mem_nil
  | cons c cs =>
    rw [escapeChars, List.mem_append, List.mem_flatMap, not_or]
    exact ⟨lineBreak_notMem_escapeChar true c,
      fun ⟨d, _, hd⟩ => lineBreak_notMem_escapeChar false d hd⟩

end IntervalStack.Text
