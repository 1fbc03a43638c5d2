import IntervalStack.Json.Printer
import IntervalStack.Proofs.Json.Numerals

/-! What is written is read back: the indented text of a value whose strings are texts and whose
numbers are proper. -/

namespace IntervalStack.Json

/-! Blanks. -/

def Blanks (cs : List Char) : Prop := ∀ c ∈ cs, isBlank c

theorem skipBlanks_append {ws cs : List Char} (hws : Blanks ws) :
    skipBlanks (ws ++ cs) = skipBlanks cs :=
  List.dropWhile_append_of_pos hws

theorem skipBlanks_cons {c : Char} {cs : List Char} (hc : isBlank c = false) :
    skipBlanks (c :: cs) = c :: cs :=
  List.dropWhile_cons_of_neg (by simp [hc])

theorem blanks_singleton : Blanks [' '] := by
  intro c hc
  obtain rfl := List.mem_singleton.1 hc
  decide

theorem newline_toList (level : Nat) :
    (newline level).toList = '\n' :: List.replicate (2 * level) ' ' := by
  simp [newline]

theorem blanks_newline (level : Nat) : Blanks (newline level).toList := by
  intro c hc
  rw [newline_toList] at hc
  rcases List.mem_cons.1 hc with rfl | hc
  · decide
  · obtain rfl := List.eq_of_mem_replicate hc
    decide

theorem endsNumber_newline (level : Nat) (rest : List Char) :
    EndsNumber ((newline level).toList ++ rest) := by
  intro c hc
  rw [newline_toList] at hc
  obtain rfl : '\n' = c := by simpa using hc
  decide

theorem isBlank_of_isDigit {c : Char} (hc : isDigit c) : isBlank c = false := by
  simp only [isDigit, Bool.and_eq_true, decide_eq_true_eq] at hc
  have hne : ∀ d : Char, d < '0' → c ≠ d := fun d hd h =>
    absurd (h ▸ hc.1) (Nat.not_le_of_lt hd)
  simp [isBlank, hne ' ' (by decide), hne '\n' (by decide), hne '\t' (by decide),
    hne '\r' (by decide)]

theorem readValue_numeral {n : Numeral} (hn : n.Proper) {rest : List Char} (hrest : EndsNumber rest)
    {ws : List Char} (hws : Blanks ws) (fuel : Nat) :
    readValue (fuel + 1) (ws ++ (n.text.toList ++ rest)) = some (.num n, rest) := by
  obtain ⟨c, cs, heq, hc⟩ := Numeral.text_start hn
  have hread := Numeral.readNumeral_text hn hrest
  have hblank : isBlank c = false := hc.elim (fun h => h ▸ by decide) isBlank_of_isDigit
  have hother : c ∉ ['n', 't', 'f', '"', '[', '\x7b'] := by
    intro hmem
    rcases hc with rfl | hc
    · exact absurd hmem (by decide)
    · have hnone : ['n', 't', 'f', '"', '[', '\x7b'].all (!isDigit ·) = true := by decide
      simpa [hc] using List.all_eq_true.1 hnone c hmem
  rw [heq, List.cons_append] at hread
  rw [heq, List.cons_append, readValue, skipBlanks_append hws, skipBlanks_cons hblank]
  split <;> simp_all

/-! Strings. -/

theorem hexValue?_digitChar {n : Nat} (hn : n < 16) : hexValue? (Nat.digitChar n) = some n := by
  have hall : ∀ k : Fin 16, hexValue? (Nat.digitChar k.val) = some k.val := by decide
  exact hall ⟨n, hn⟩

theorem unit?_control {n : Nat} (hn : n < 0x20) :
    unit? '0' '0' (Nat.digitChar (n / 16)) (Nat.digitChar (n % 16)) = some n := by
  have hzero : hexValue? '0' = some 0 := by decide
  simp only [unit?, hzero, hexValue?_digitChar (show n / 16 < 16 by omega),
    hexValue?_digitChar (Nat.mod_lt n (show 16 > 0 by decide)), Option.bind_eq_bind,
    Option.bind_some, Option.pure_def, Option.some.injEq]
  omega

structure Spells (cs : List Char) (part : StringPart) (c : Char) : Prop where
  read : ∀ {rest parts behind}, readParts rest = some (parts, behind) →
    readParts (cs ++ rest) = some (part :: parts, behind)
  joined : ∀ {parts text}, joinParts parts = some text →
    joinParts (part :: parts) = some (c :: text)

theorem spells_control {c : Char} (hc : c.toNat < 0x20) :
    Spells ['\\', 'u', '0', '0', Nat.digitChar (c.toNat / 16), Nat.digitChar (c.toNat % 16)]
      (.unit c.toNat) c := by
  refine ⟨fun h => ?_, fun h => ?_⟩
  · simp only [List.cons_append, List.nil_append]
    rw [readParts.eq_def]
    simp [unit?_control hc, h]
  · have hhigh : isHighUnit c.toNat = false := by simp [isHighUnit]; omega
    have hlow : isLowUnit c.toNat = false := by simp [isLowUnit]; omega
    rw [joinParts.eq_def]
    simp [hhigh, hlow, h]

theorem spells_plain {c : Char} (hc : ¬c.toNat < 0x20) (hquote : c ≠ '"') (hescape : c ≠ '\\') :
    Spells [c] (.char c) c := by
  refine ⟨fun {rest parts behind} h => ?_, fun h => by simp [joinParts, h]⟩
  rw [List.singleton_append, readParts.eq_def]
  split <;> simp_all

theorem spells_short {c e : Char} (hunit : e ≠ 'u') (he : shortEscape? e = some c) :
    Spells ['\\', e] (.char c) c := by
  refine ⟨fun {rest parts behind} h => ?_, fun h => by simp [joinParts, h]⟩
  simp [readParts, hunit, he, h]

theorem exists_spells (c : Char) : ∃ part, Spells (escapeChar c) part c := by
  unfold escapeChar
  split
  · exact ⟨_, spells_short (by decide) rfl⟩
  · exact ⟨_, spells_short (by decide) rfl⟩
  · exact ⟨_, spells_short (by decide) rfl⟩
  · exact ⟨_, spells_short (by decide) rfl⟩
  · exact ⟨_, spells_short (by decide) rfl⟩
  · exact ⟨_, spells_short (by decide) rfl⟩
  · exact ⟨_, spells_short (by decide) rfl⟩
  · next hquote hescape _ _ _ _ _ =>
    split
    · next hc => exact ⟨_, spells_control hc⟩
    · next hc => exact ⟨_, spells_plain hc hquote hescape⟩

theorem readParts_escaped (cs rest : List Char) :
    ∃ parts, readParts (cs.flatMap escapeChar ++ '"' :: rest) = some (parts, rest) ∧
      joinParts parts = some cs := by
  induction cs with
  | nil => exact ⟨[], by simp [readParts], rfl⟩
  | cons c cs ih =>
    obtain ⟨parts, hread, hjoin⟩ := ih
    obtain ⟨part, hspells⟩ := exists_spells c
    refine ⟨part :: parts, ?_, hspells.joined hjoin⟩
    rw [List.flatMap_cons, List.append_assoc]
    exact hspells.read hread

theorem quote_append (s : String) (rest : List Char) :
    (quote s).toList ++ rest = '"' :: (s.toList.flatMap escapeChar ++ '"' :: rest) := by
  simp [quote, String.toList_append]

theorem readString_quoted (s : String) (rest : List Char) :
    readString (s.toList.flatMap escapeChar ++ '"' :: rest) = some (some s, rest) := by
  obtain ⟨parts, hread, hjoin⟩ := readParts_escaped s.toList rest
  simp only [readString, hread, hjoin, Option.bind_eq_bind, Option.bind_some, Option.map_some,
    Option.pure_def, String.ofList_toList]

/-! Values. -/

inductive Written : Json → Prop
  | null : Written .null
  | bool (b : Bool) : Written (.bool b)
  | num {n : Numeral} (proper : n.Proper) : Written (.num n)
  | str (s : String) : Written (ofString s)
  | arr {items : List Json} (written : ∀ v ∈ items, Written v) : Written (.arr items)
  | obj {members : List (String × Json)} (written : ∀ m ∈ members, Written m.2) :
    Written (record members)

def Reads (j : Json) : Prop :=
  ∀ (level fuel : Nat) {ws rest : List Char}, Blanks ws → EndsNumber rest →
    (j.pretty level).toList.length ≤ fuel →
    readValue (fuel + 1) (ws ++ ((j.pretty level).toList ++ rest)) = some (j, rest)

theorem pretty_arr_toList (level : Nat) (v : Json) (vs : List Json) :
    (pretty level (.arr (v :: vs))).toList = '[' :: ((newline (level + 1)).toList ++
      ((v.pretty (level + 1)).toList ++ ((prettyItems level vs).toList ++
        ((newline level).toList ++ [']'])))) := by
  simp [pretty]

theorem prettyItems_toList (level : Nat) (v : Json) (vs : List Json) :
    (prettyItems level (v :: vs)).toList = ',' :: ((newline (level + 1)).toList ++
      ((v.pretty (level + 1)).toList ++ (prettyItems level vs).toList)) := by
  simp [prettyItems]

theorem pretty_obj_toList (level : Nat) (k : String) (v : Json)
    (members : List (Option String × Json)) :
    (pretty level (.obj ((some k, v) :: members))).toList
      = '\x7b' :: ((newline (level + 1)).toList ++
        ((quote k).toList ++ (':' :: ' ' :: ((v.pretty (level + 1)).toList ++
          ((prettyMembers level members).toList ++ ((newline level).toList ++ ['\x7d'])))))) := by
  simp [pretty, quoteAny]

theorem prettyMembers_toList (level : Nat) (k : String) (v : Json)
    (members : List (Option String × Json)) :
    (prettyMembers level ((some k, v) :: members)).toList = ',' :: ((newline (level + 1)).toList ++
      ((quote k).toList ++ (':' :: ' ' :: ((v.pretty (level + 1)).toList ++
        (prettyMembers level members).toList)))) := by
  simp [prettyMembers, quoteAny]

theorem Written.pretty_start {j : Json} (hj : j.Written) (level : Nat) :
    ∃ c cs, (j.pretty level).toList = c :: cs ∧ isBlank c = false ∧ c ≠ ']' := by
  cases hj with
  | null => exact ⟨'n', ['u', 'l', 'l'], by simp [pretty], by decide, by decide⟩
  | bool b =>
    cases b with
    | false => exact ⟨'f', ['a', 'l', 's', 'e'], by simp [pretty], by decide, by decide⟩
    | true => exact ⟨'t', ['r', 'u', 'e'], by simp [pretty], by decide, by decide⟩
  | num hn =>
    obtain ⟨c, cs, heq, hc⟩ := Numeral.text_start hn
    refine ⟨c, cs, by rw [pretty, heq], ?_⟩
    rcases hc with rfl | hc
    · decide
    · refine ⟨isBlank_of_isDigit hc, ?_⟩
      rintro rfl
      exact absurd hc (by decide)
  | str s =>
    refine ⟨'"', s.toList.flatMap escapeChar ++ ['"'], ?_, by decide, by decide⟩
    simp [ofString, pretty, quoteAny, quote]
  | @arr items _ =>
    cases items with
    | nil => exact ⟨'[', [']'], by simp [pretty], by decide, by decide⟩
    | cons v vs => exact ⟨'[', _, pretty_arr_toList level v vs, by decide, by decide⟩
  | @obj members _ =>
    cases members with
    | nil => exact ⟨'\x7b', ['\x7d'], by simp [record, pretty], by decide, by decide⟩
    | cons m ms => exact ⟨'\x7b', _, pretty_obj_toList level m.1 m.2 _, by decide, by decide⟩

theorem endsNumber_comma (cs : List Char) : EndsNumber (',' :: cs) := by
  intro c hc
  obtain rfl : ',' = c := by simpa using hc
  decide

theorem skipBlanks_newline {c : Char} (hc : isBlank c = false) (level : Nat) (cs : List Char) :
    skipBlanks ((newline level).toList ++ c :: cs) = c :: cs := by
  rw [skipBlanks_append (blanks_newline level), skipBlanks_cons hc]

theorem readItems_pretty (level : Nat) (rest : List Char) {v : Json} {vs : List Json}
    (hv : v.Reads) (hvs : ∀ w ∈ vs, Reads w) {fuel : Nat} {ws : List Char} (hws : Blanks ws)
    (hfuel : (v.pretty (level + 1)).toList.length + (prettyItems level vs).toList.length ≤ fuel) :
    readItems (fuel + 2) (ws ++ ((v.pretty (level + 1)).toList ++ ((prettyItems level vs).toList ++
      ((newline level).toList ++ ']' :: rest)))) = some (v :: vs, rest) := by
  induction vs generalizing v fuel ws with
  | nil =>
    have hread := hv (level + 1) fuel hws (endsNumber_newline level (']' :: rest)) (by omega)
    rw [show (prettyItems level []).toList = [] by simp [prettyItems], List.nil_append]
    rw [readItems]
    simp (disch := decide) only [hread, skipBlanks_newline, Option.bind_eq_bind, Option.bind_some,
      Option.pure_def]
  | cons w vs ih =>
    rw [prettyItems_toList] at hfuel ⊢
    simp only [List.length_cons, List.length_append] at hfuel
    simp only [List.cons_append, List.append_assoc]
    obtain ⟨fuel, rfl⟩ : ∃ k, fuel = k + 1 := ⟨fuel - 1, by omega⟩
    have hread := fun cs => hv (level + 1) (fuel + 1) hws (endsNumber_comma cs) (by omega)
    have hrest := ih (hvs w List.mem_cons_self) (fun u hu => hvs u (List.mem_cons_of_mem w hu))
      (blanks_newline (level + 1)) (show _ ≤ fuel by omega)
    rw [readItems]
    simp (disch := decide) only [hread, skipBlanks_cons, hrest, Option.bind_eq_bind,
      Option.bind_some, Option.pure_def]

def keyed (members : List (String × Json)) : List (Option String × Json) :=
  members.map fun m => (some m.1, m.2)

theorem readMembers_pretty (level : Nat) (rest : List Char) (k : String) {v : Json}
    {members : List (String × Json)} (hv : v.Reads) (hmembers : ∀ m ∈ members, Reads m.2)
    {fuel : Nat} {ws : List Char} (hws : Blanks ws)
    (hfuel : (quote k).toList.length + (v.pretty (level + 1)).toList.length
      + (prettyMembers level (keyed members)).toList.length ≤ fuel) :
    readMembers (fuel + 2) (ws ++ ((quote k).toList ++ (':' :: ' ' ::
      ((v.pretty (level + 1)).toList ++ ((prettyMembers level (keyed members)).toList ++
        ((newline level).toList ++ '\x7d' :: rest)))))) = some (keyed ((k, v) :: members), rest) := by
  induction members generalizing k v fuel ws with
  | nil =>
    have hread := hv (level + 1) fuel blanks_singleton
      (endsNumber_newline level ('\x7d' :: rest)) (by omega)
    rw [List.singleton_append] at hread
    rw [show (prettyMembers level (keyed [])).toList = [] by simp [keyed, prettyMembers],
      List.nil_append, quote_append, readMembers]
    simp (disch := decide) only [skipBlanks_append hws, skipBlanks_cons, readString_quoted, hread,
      skipBlanks_newline, Option.bind_eq_bind, Option.bind_some, Option.pure_def]
    rfl
  | cons m members ih =>
    obtain ⟨k', v'⟩ := m
    rw [show keyed ((k', v') :: members) = (some k', v') :: keyed members from rfl,
      prettyMembers_toList] at hfuel ⊢
    simp only [List.length_cons, List.length_append] at hfuel
    simp only [List.cons_append, List.append_assoc]
    obtain ⟨fuel, rfl⟩ : ∃ k, fuel = k + 1 := ⟨fuel - 1, by omega⟩
    have hread := fun cs =>
      hv (level + 1) (fuel + 1) blanks_singleton (endsNumber_comma cs) (by omega)
    have hv' : v'.Reads := hmembers (k', v') List.mem_cons_self
    have hrest := ih k' hv' (fun u hu => hmembers u (List.mem_cons_of_mem _ hu))
      (blanks_newline (level + 1)) (show _ ≤ fuel by omega)
    simp only [List.singleton_append] at hread
    rw [quote_append, readMembers]
    simp (disch := decide) only [skipBlanks_append hws, skipBlanks_cons, readString_quoted, hread,
      hrest, Option.bind_eq_bind, Option.bind_some, Option.pure_def]
    rfl

theorem reads_arr {v : Json} {vs : List Json} (hwritten : v.Written) (hv : v.Reads)
    (hvs : ∀ w ∈ vs, Reads w) : (Json.arr (v :: vs)).Reads := by
  intro level fuel ws rest hws _ hfuel
  rw [pretty_arr_toList] at hfuel ⊢
  simp only [List.length_cons, List.length_append] at hfuel
  obtain ⟨fuel, rfl⟩ : ∃ k, fuel = k + 2 := ⟨fuel - 2, by omega⟩
  have hread := readItems_pretty level rest hv hvs (show Blanks [] from nofun)
    (show _ ≤ fuel by omega)
  obtain ⟨c, cs, hstart, hblank, hclose⟩ := hwritten.pretty_start (level + 1)
  simp only [List.cons_append, List.append_assoc, List.nil_append] at hread ⊢
  simp (disch := decide) only [readValue, skipBlanks_append hws, skipBlanks_cons,
    skipBlanks_append (blanks_newline _)]
  rw [hstart, List.cons_append] at hread ⊢
  rw [skipBlanks_cons hblank]
  split
  · next h => exact absurd (List.cons.inj h).1 hclose
  · simp only [hread, Option.bind_eq_bind, Option.bind_some, Option.pure_def]

theorem reads_obj {k : String} {v : Json} {members : List (String × Json)} (hv : v.Reads)
    (hmembers : ∀ m ∈ members, Reads m.2) : (record ((k, v) :: members)).Reads := by
  intro level fuel ws rest hws _ hfuel
  rw [show record ((k, v) :: members) = .obj ((some k, v) :: keyed members) from rfl,
    pretty_obj_toList] at hfuel ⊢
  simp only [List.length_cons, List.length_append] at hfuel
  obtain ⟨fuel, rfl⟩ : ∃ k, fuel = k + 2 := ⟨fuel - 2, by omega⟩
  have hread := readMembers_pretty level rest k hv hmembers (show Blanks [] from nofun)
    (show _ ≤ fuel by omega)
  simp only [List.cons_append, List.append_assoc, List.nil_append, quote_append] at hread ⊢
  simp (disch := decide) only [readValue, skipBlanks_append hws, skipBlanks_cons,
    skipBlanks_append (blanks_newline _)]
  split
  · next h => exact absurd (List.cons.inj h).1 (by decide)
  · simp only [hread, Option.bind_eq_bind, Option.bind_some, Option.pure_def]
    rfl

theorem Written.reads {j : Json} (hj : j.Written) : j.Reads := by
  induction hj with
  | num hn =>
    intro level fuel ws rest hws hrest _
    rw [pretty]
    exact readValue_numeral hn hrest hws fuel
  | str s =>
    intro level fuel ws rest hws _ _
    have hpretty : pretty level (ofString s) = quote s := by rw [ofString, pretty]; rfl
    rw [hpretty, quote_append]
    simp (disch := decide) [readValue, skipBlanks_append hws, skipBlanks_cons, readString_quoted,
      ofString]
  | @arr items hitems ih =>
    cases items with
    | nil =>
      intro level fuel ws rest hws _ _
      simp (disch := decide) [pretty, readValue, skipBlanks_append hws, skipBlanks_cons]
    | cons v vs =>
      obtain ⟨hv, hvs⟩ := List.forall_mem_cons.1 ih
      exact reads_arr (hitems v List.mem_cons_self) hv hvs
  | @obj members _ ih =>
    cases members with
    | nil =>
      intro level fuel ws rest hws _ _
      simp (disch := decide) [record, pretty, readValue, skipBlanks_append hws, skipBlanks_cons]
    | cons m members =>
      obtain ⟨hv, hmembers⟩ := List.forall_mem_cons.1 ih
      exact reads_obj hv hmembers
  | null =>
    intro level fuel ws rest hws _ _
    simp (disch := decide) [pretty, readValue, skipBlanks_append hws, skipBlanks_cons]
  | bool b =>
    intro level fuel ws rest hws _ _
    cases b <;>
      simp (disch := decide) [pretty, readValue, skipBlanks_append hws, skipBlanks_cons]

theorem Written.read_pretty {j : Json} (hj : j.Written) : read (j.pretty 0) = some j := by
  have hread := hj.reads 0 (2 * (j.pretty 0).toList.length + 1) (show Blanks [] from nofun)
    (show EndsNumber [] from nofun) (by omega)
  rw [List.nil_append, List.append_nil, Nat.add_assoc] at hread
  rw [read]
  simp only [hread, Option.bind_eq_bind, Option.bind_some]
  rfl

end IntervalStack.Json
