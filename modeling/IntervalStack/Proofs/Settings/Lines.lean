import IntervalStack.Settings

/-! The lines of a settings file. What a line may look like is said as a grammar, and the reader of a
line is shown to follow it: it takes the white space off a line before it cuts it up, where the
grammar lets white space stand around each part. -/

namespace IntervalStack

namespace Text

def Blank (cs : List Char) : Prop := ∀ c ∈ cs, isBlank c = true

def Padded (cs body : List Char) : Prop :=
  ∃ before after, cs = before ++ body ++ after ∧ Blank before ∧ Blank after

structure Tight (cs : List Char) : Prop where
  first : ∀ c ∈ cs.head?, isBlank c = false
  last : ∀ c ∈ cs.getLast?, isBlank c = false

variable {cs before body after : List Char} {sep : Char}

theorem tight_of_forall (h : ∀ c ∈ cs, isBlank c = false) : Tight cs :=
  ⟨fun c hc => h c (List.mem_of_mem_head? hc), fun c hc => h c (List.mem_of_getLast? hc)⟩

theorem tight_of_none (h : cs.any isBlank = false) : Tight cs :=
  tight_of_forall fun c hc => by simpa using List.any_eq_false.1 h c hc

theorem Blank.notMem (h : Blank cs) (hsep : isBlank sep = false) : sep ∉ cs := by
  intro hmem
  rw [h sep hmem] at hsep
  cases hsep

/-! Trimming. -/

theorem trim_append_left (h : Blank before) : trim (before ++ cs) = trim cs := by
  rw [trim, List.dropWhile_append_of_pos h, trim]

theorem trim_append_right (h : Blank after) : trim (cs ++ after) = trim cs := by
  have hback : ∀ c ∈ after.reverse, isBlank c = true := fun c hc => h c (List.mem_reverse.1 hc)
  rw [trim, List.dropWhile_append, trim]
  split
  · next hempty =>
    have hafter : after.dropWhile isBlank = [] := by
      simpa using @List.dropWhile_append_of_pos _ _ _ [] h
    rw [hafter, List.isEmpty_iff.1 hempty]
  · rw [List.reverse_append, List.dropWhile_append_of_pos hback]

theorem dropWhile_of_head? {p : Char → Bool} (h : ∀ c ∈ cs.head?, p c = false) :
    cs.dropWhile p = cs := by
  cases cs with
  | nil => rfl
  | cons c cs => rw [List.dropWhile_cons_of_neg (by simp [h c rfl])]

theorem trim_of_tight (h : Tight cs) : trim cs = cs := by
  have hback : ∀ c ∈ cs.reverse.head?, isBlank c = false := by simpa using h.last
  rw [trim, dropWhile_of_head? h.first, dropWhile_of_head? hback, List.reverse_reverse]

theorem trim_of_padded (h : Padded cs body) (hbody : Tight body) : trim cs = body := by
  obtain ⟨before, after, rfl, hbefore, hafter⟩ := h
  rw [trim_append_right hafter, trim_append_left hbefore, trim_of_tight hbody]

theorem head?_dropWhile {p : Char → Bool} (cs : List Char) :
    ∀ c ∈ (cs.dropWhile p).head?, p c = false := by
  intro c hc
  have := List.head?_dropWhile_not p cs
  rw [Option.mem_def.1 hc] at this
  simpa using this

theorem blank_takeWhile (cs : List Char) : Blank (cs.takeWhile isBlank) :=
  List.all_eq_true.1 List.all_takeWhile

theorem dropEnd_append (cs : List Char) :
    (cs.reverse.dropWhile isBlank).reverse ++ (cs.reverse.takeWhile isBlank).reverse = cs := by
  rw [← List.reverse_append, List.takeWhile_append_dropWhile, List.reverse_reverse]

theorem padded_trim (cs : List Char) : Padded cs (trim cs) := by
  refine ⟨cs.takeWhile isBlank, ((cs.dropWhile isBlank).reverse.takeWhile isBlank).reverse, ?_,
    blank_takeWhile cs, fun c hc => blank_takeWhile _ c (List.mem_reverse.1 hc)⟩
  rw [trim, List.append_assoc, dropEnd_append, List.takeWhile_append_dropWhile]

theorem trim_eq_nil_iff : trim cs = [] ↔ Blank cs := by
  constructor
  · intro h
    obtain ⟨before, after, heq, hbefore, hafter⟩ := padded_trim cs
    rw [h, List.append_nil] at heq
    rw [heq]
    exact List.forall_mem_append.2 ⟨hbefore, hafter⟩
  · intro h
    exact trim_of_padded ⟨cs, [], by simp, h, nofun⟩ ⟨nofun, nofun⟩

theorem head?_trim_cons {c : Char} (hc : isBlank c = false) (cs : List Char) :
    (trim (c :: cs)).head? = some c := by
  obtain ⟨before, after, heq, hbefore, hafter⟩ := padded_trim (c :: cs)
  cases before with
  | cons b before =>
    obtain ⟨rfl, -⟩ := List.cons.inj heq
    exact absurd (hbefore c List.mem_cons_self) (by simp [hc])
  | nil =>
    cases htrim : trim (c :: cs) with
    | nil =>
      rw [htrim] at heq
      have hmem : c ∈ after := heq.subst List.mem_cons_self
      exact absurd (hafter c hmem) (by simp [hc])
    | cons d ds =>
      rw [htrim] at heq
      obtain ⟨rfl, -⟩ := List.cons.inj heq
      rfl

theorem takeWhile_ne (hcs : sep ∉ cs) (hrest : ∀ c ∈ after.head?, c = sep) :
    (cs ++ after).takeWhile (· != sep) = cs := by
  rw [List.takeWhile_append_of_pos fun c hc => by simpa using ne_of_mem_of_not_mem hc hcs]
  cases after with
  | nil => rw [List.takeWhile_nil, List.append_nil]
  | cons c after => rw [List.takeWhile_cons_of_neg (by simp [hrest c rfl]), List.append_nil]

theorem dropWhile_ne (hcs : sep ∉ cs) (hrest : ∀ c ∈ after.head?, c = sep) :
    (cs ++ after).dropWhile (· != sep) = after := by
  rw [List.dropWhile_append_of_pos fun c hc => by simpa using ne_of_mem_of_not_mem hc hcs]
  exact dropWhile_of_head? fun c hc => by simpa using hrest c hc

/-- What stands in front of a separator is the same up to white space, whether or not the white space
at the end has been taken off. -/
theorem trim_takeWhile_append (cs : List Char) (hafter : Blank after) (hsep : isBlank sep = false) :
    trim ((cs ++ after).takeWhile (· != sep)) = trim (cs.takeWhile (· != sep)) := by
  have hall : after.takeWhile (· != sep) = after := by
    simpa using @takeWhile_ne after [] sep (hafter.notMem hsep) nofun
  rw [List.takeWhile_append]
  split
  · next hlength =>
    rw [hall, trim_append_right hafter, (List.takeWhile_sublist _).eq_of_length hlength]
  · rfl

end Text

namespace Settings

theorem Section.ofName?_eq_some_iff {name : String} {s : Section} :
    Section.ofName? name = some s ↔ name = s.name := by
  constructor
  · intro h
    unfold Section.ofName? at h
    have hs := List.find?_some h
    exact (beq_iff_eq.1 hs).symm
  · rintro rfl
    cases s <;> decide

theorem Section.tight_name (s : Section) : Text.Tight s.name.toList :=
  Text.tight_of_none (by cases s <;> decide)

theorem Key.find?_eq_some_iff {s : Section} {name : String} {key : Key} :
    Key.find? s name = some key ↔ key.owner = s ∧ name = key.name := by
  constructor
  · intro h
    have hkey := List.find?_some h
    simp only [Bool.and_eq_true, beq_iff_eq] at hkey
    exact ⟨hkey.1, hkey.2.symm⟩
  · rintro ⟨rfl, rfl⟩
    cases key <;> decide

theorem Key.name_injective {key key' : Key} (h : key.name = key'.name) : key = key' := by
  cases key <;> cases key' <;> first | rfl | exact absurd h (by decide)

theorem Key.tight_name (key : Key) : Text.Tight key.name.toList :=
  Text.tight_of_none (by cases key <;> decide)

theorem Key.name_start (key : Key) : ∃ c rest, key.name.toList = c :: rest ∧ (c ≠ '#' ∧ c ≠ '[') ∧
    Text.isBlank c = false ∧ '=' ∉ c :: rest := by
  cases key <;> exact ⟨_, _, rfl, by decide, by decide, by decide⟩

theorem isBlank_of_isDigit {c : Char} (h : c.isDigit = true) : Text.isBlank c = false := by
  have hrange : 48 ≤ c.toNat ∧ c.toNat ≤ 57 := by
    simpa [Char.isDigit, UInt32.le_iff_toNat_le] using h
  simp only [Text.isBlank, Bool.or_eq_false_iff, Bool.and_eq_false_iff, decide_eq_false_iff_not,
    beq_eq_false_iff_ne]
  omega

def IsDecimal (cs : List Char) (n : Nat) : Prop :=
  ∃ digits, (cs = digits ∨ cs = '+' :: digits) ∧ digits ≠ [] ∧ (∀ c ∈ digits, c.isDigit = true) ∧
    n = Nat.ofDigitChars 10 digits 0

theorem IsDecimal.isBlank {cs : List Char} {n : Nat} (h : IsDecimal cs n) :
    ∀ c ∈ cs, Text.isBlank c = false := by
  obtain ⟨digits, hcs, -, hdigits, -⟩ := h
  intro c hc
  rcases hcs with rfl | rfl
  · exact isBlank_of_isDigit (hdigits c hc)
  · rcases List.mem_cons.1 hc with rfl | hc
    · decide
    · exact isBlank_of_isDigit (hdigits c hc)

theorem number?_eq_some_iff {bound n : Nat} {cs : List Char} :
    number? bound cs = some n ↔ IsDecimal cs n ∧ n < bound := by
  have hnat (digits : List Char) : natOf digits = Nat.ofDigitChars 10 digits 0 :=
    Nat.ofDigitChars_eq_foldl.symm
  unfold number?
  dsimp only
  constructor
  · intro h
    generalize htaken : (if cs.head? == some '+' then cs.drop 1 else cs) = digits at h
    split at h
    · next hgood =>
      simp only [Bool.and_eq_true, Bool.not_eq_true', List.isEmpty_eq_false_iff, List.all_eq_true,
        decide_eq_true_eq] at hgood
      obtain ⟨⟨hne, hdigits⟩, hlt⟩ := hgood
      obtain rfl := Option.some.inj h
      refine ⟨⟨digits, ?_, hne, hdigits, hnat digits⟩, hlt⟩
      split at htaken
      · next hplus =>
        obtain ⟨rest, rfl⟩ := List.head?_eq_some_iff.1 (beq_iff_eq.1 hplus)
        exact .inr (congrArg _ htaken)
      · exact .inl htaken
    · cases h
  · rintro ⟨⟨digits, hcs, hne, hdigits, rfl⟩, hlt⟩
    have htaken : (if cs.head? == some '+' then cs.drop 1 else cs) = digits := by
      rcases hcs with rfl | rfl
      · refine if_neg fun hplus => ?_
        obtain ⟨rest, rfl⟩ := List.head?_eq_some_iff.1 (beq_iff_eq.1 hplus)
        exact absurd (hdigits '+' List.mem_cons_self) (by decide)
      · rfl
    have hall : digits.all isDigit = true := List.all_eq_true.2 hdigits
    simp only [htaken, hall, hnat, hlt]
    simpa using hne

namespace Line

def IsVoid (line : List Char) : Prop :=
  Text.Blank line ∨ ∃ before rest, Text.Blank before ∧ line = before ++ '#' :: rest

def Opens (line : List Char) (s : Section) : Prop :=
  ∃ inner, Text.Padded line ('[' :: inner ++ [']']) ∧ Text.Padded inner s.name.toList

/-- A key, a sign of equality and a value, behind which a comment may stand. Underscores in the value
do not count. -/
def Assigns (line : List Char) (key : Key) (n : Nat) : Prop :=
  ∃ left value comment body, line = left ++ '=' :: (value ++ comment) ∧
    Text.Padded left key.name.toList ∧ '#' ∉ value ∧ (∀ c ∈ comment.head?, c = '#') ∧
    Text.Padded value body ∧ IsDecimal (body.filter (· != '_')) n ∧ n < key.bound

variable {line : List Char} {s : Section} {key : Key} {n : Nat}

theorem header?_eq_some_iff {cs inner : List Char} :
    header? cs = some inner ↔ cs = '[' :: inner ++ [']'] := by
  constructor
  · intro h
    unfold header? at h
    split at h
    · next rest =>
      split at h
      · next back hback =>
        obtain rfl := Option.some.inj h
        have hrest := congrArg List.reverse hback
        rw [List.reverse_reverse, List.reverse_cons] at hrest
        rw [hrest]
        rfl
      · cases h
    · cases h
  · rintro rfl
    simp [header?]

theorem parse_eq (line : List Char) :
    parse line = if (Text.trim line).isEmpty || (Text.trim line).head? == some '#' then .blank
      else match header? (Text.trim line) with
        | some inner => .header (String.ofList (Text.trim inner))
        | none =>
          if (Text.trim line).contains '=' then
            .assignment (String.ofList (Text.trim ((Text.trim line).takeWhile (· != '='))))
              (String.ofList (Text.trim
                ((((Text.trim line).dropWhile (· != '=')).drop 1).takeWhile (· != '#'))))
          else .other (String.ofList (Text.trim line)) := rfl

theorem parse_eq_blank_iff : parse line = .blank ↔ IsVoid line := by
  rw [parse_eq]
  constructor
  · intro h
    split at h
    · next hvoid =>
      rcases Bool.or_eq_true_iff.1 hvoid with hempty | hcomment
      · exact .inl (Text.trim_eq_nil_iff.1 (List.isEmpty_iff.1 hempty))
      · obtain ⟨before, after, heq, hbefore, -⟩ := Text.padded_trim line
        obtain ⟨rest, hrest⟩ := List.head?_eq_some_iff.1 (beq_iff_eq.1 hcomment)
        exact .inr ⟨before, rest ++ after, hbefore, by rw [heq, hrest]; simp⟩
    · split at h
      · cases h
      · split at h <;> cases h
  · rintro (hblank | ⟨before, rest, hbefore, rfl⟩)
    · rw [Text.trim_eq_nil_iff.2 hblank]
      rfl
    · rw [Text.trim_append_left hbefore, Text.head?_trim_cons (by decide), if_pos (by simp)]

theorem parse_eq_header {name : String} (h : parse line = .header name) :
    ∃ inner, Text.trim line = '[' :: inner ++ [']'] ∧ name = String.ofList (Text.trim inner) := by
  rw [parse_eq] at h
  split at h
  · cases h
  · split at h
    · next inner hinner =>
      exact ⟨inner, header?_eq_some_iff.1 hinner, (Line.header.inj h).symm⟩
    · split at h <;> cases h

theorem parse_of_header {inner : List Char} (h : Text.trim line = '[' :: inner ++ [']']) :
    parse line = .header (String.ofList (Text.trim inner)) := by
  rw [parse_eq, h, header?_eq_some_iff.2 rfl]
  rfl

theorem parse_eq_assignment {name value : String} (h : parse line = .assignment name value) :
    ∃ left right, Text.trim line = left ++ '=' :: right ∧ name = String.ofList (Text.trim left) ∧
      value = String.ofList (Text.trim (right.takeWhile (· != '#'))) := by
  rw [parse_eq] at h
  split at h
  · cases h
  · split at h
    · cases h
    · split at h
      · next hequals =>
        obtain ⟨left, right, heq, hleft⟩ :=
          List.eq_append_cons_of_mem (List.contains_iff_mem.1 hequals)
        rw [heq, Text.takeWhile_ne hleft (by simp), Text.dropWhile_ne hleft (by simp)] at h
        obtain ⟨rfl, rfl⟩ := Line.assignment.inj h
        exact ⟨left, right, heq, rfl, rfl⟩
      · cases h

theorem parse_of_assignment {c : Char} {left right : List Char}
    (h : Text.trim line = c :: left ++ '=' :: right) (hc : c ≠ '#' ∧ c ≠ '[')
    (hleft : '=' ∉ c :: left) :
    parse line = .assignment (String.ofList (Text.trim (c :: left)))
      (String.ofList (Text.trim (right.takeWhile (· != '#')))) := by
  have hheader : header? (c :: left ++ '=' :: right) = none := by
    rw [Option.eq_none_iff_forall_ne_some]
    intro inner hinner
    exact hc.2 (List.cons.inj (header?_eq_some_iff.1 hinner)).1
  have hequals : (c :: left ++ '=' :: right).contains '=' = true := by simp
  rw [parse_eq, h, if_neg (by simpa using hc.1), hheader]
  dsimp only
  rw [if_pos hequals, Text.takeWhile_ne hleft (by simp), Text.dropWhile_ne hleft (by simp)]
  rfl

def opened? (line : List Char) : Option Section :=
  match parse line with
  | .header name => Section.ofName? name
  | _ => none

def assigned? (key : Key) (line : List Char) : Option Nat :=
  match parse line with
  | .assignment name value => if name = key.name then value? key value else none
  | _ => none

theorem opened?_eq_some_iff : opened? line = some s ↔ Opens line s := by
  constructor
  · intro h
    unfold opened? at h
    split at h
    · next name hname =>
      obtain ⟨inner, hline, rfl⟩ := parse_eq_header hname
      have hs := congrArg String.toList (Section.ofName?_eq_some_iff.1 h)
      rw [String.toList_ofList] at hs
      exact ⟨inner, hline ▸ Text.padded_trim line, hs ▸ Text.padded_trim inner⟩
    · cases h
  · rintro ⟨inner, hline, hinner⟩
    have hbrackets : Text.Tight ('[' :: inner ++ [']']) := by
      refine ⟨fun c hc => ?_, fun c hc => ?_⟩
      · obtain rfl : '[' = c := by simpa using hc
        decide
      · rw [List.getLast?_concat] at hc
        obtain rfl := Option.some.inj hc
        decide
    rw [opened?, parse_of_header (Text.trim_of_padded hline hbrackets),
      Text.trim_of_padded hinner (Section.tight_name s), String.ofList_toList]
    exact Section.ofName?_eq_some_iff.2 rfl

theorem Assigns.of_assigned? (h : assigned? key line = some n) : Assigns line key n := by
  unfold assigned? at h
  split at h
  · next name value hparse =>
    split at h
    · next hname =>
      subst hname
      obtain ⟨left, right, hline, hkey, rfl⟩ := parse_eq_assignment hparse
      obtain ⟨before, after, heq, hbefore, hafter⟩ := Text.padded_trim line
      have hleft : Text.trim (before ++ left) = key.name.toList := by
        rw [Text.trim_append_left hbefore, hkey, String.toList_ofList]
      -- The white space that was taken off at the end belongs to the value or to the comment.
      have hvalue : _ = Text.trim (right.takeWhile (· != '#')) :=
        Text.trim_takeWhile_append right hafter (by decide)
      rw [value?, String.toList_ofList, ← hvalue, number?_eq_some_iff] at h
      refine ⟨before ++ left, (right ++ after).takeWhile (· != '#'),
        (right ++ after).dropWhile (· != '#'), _, ?_, hleft ▸ Text.padded_trim _, fun hmem => ?_,
        fun c hc => ?_, Text.padded_trim _, h⟩
      · rw [List.takeWhile_append_dropWhile, heq, hline]
        simp
      · simpa using List.all_eq_true.1 List.all_takeWhile _ hmem
      · simpa using Text.head?_dropWhile _ c hc
    · cases h
  · cases h

theorem Assigns.assigned? (h : Assigns line key n) : assigned? key line = some n := by
  obtain ⟨left, value, comment, body, rfl, ⟨before, after, rfl, hbefore, hafter⟩, hvalue, hcomment,
    hbody, hdecimal, hbound⟩ := h
  obtain ⟨c, rest, hname, hc, hblank, hequals⟩ := Key.name_start key
  -- Trimming takes off the white space in front of the key and that behind the value or comment.
  have hright := Text.dropEnd_append (value ++ comment)
  have hlast := Text.head?_dropWhile (p := Text.isBlank) (value ++ comment).reverse
  generalize (value ++ comment).reverse.dropWhile Text.isBlank = back at hright hlast
  have hbehind := Text.blank_takeWhile (value ++ comment).reverse
  generalize (value ++ comment).reverse.takeWhile Text.isBlank = behind at hright hbehind
  have hbehind : Text.Blank behind.reverse := fun d hd => hbehind d (List.mem_reverse.1 hd)
  have htight : Text.Tight (c :: (rest ++ after) ++ '=' :: back.reverse) := by
    refine ⟨fun d hd => ?_, fun d hd => ?_⟩
    · obtain rfl : c = d := by simpa using hd
      exact hblank
    · rw [List.getLast?_append, List.getLast?_cons, List.getLast?_reverse] at hd
      cases hback : back.head? with
      | none =>
        obtain rfl : '=' = d := by simpa [hback] using hd
        decide
      | some e =>
        obtain rfl : e = d := by simpa [hback] using hd
        exact hlast e hback
  have hline : Text.trim (before ++ key.name.toList ++ after ++ '=' :: (value ++ comment))
      = c :: (rest ++ after) ++ '=' :: back.reverse := by
    refine Text.trim_of_padded ⟨before, behind.reverse, ?_, hbefore, hbehind⟩ htight
    rw [← hright, hname]
    simp
  have hkey : Text.trim (c :: (rest ++ after)) = key.name.toList := by
    rw [← List.cons_append, ← hname, Text.trim_append_right hafter]
    exact Text.trim_of_tight (Key.tight_name key)
  have hblanks : ∀ d ∈ body, Text.isBlank d = false := by
    intro d hd
    by_cases hunderscore : d = '_'
    · rw [hunderscore]
      decide
    · exact hdecimal.isBlank d (List.mem_filter.2 ⟨hd, by simpa using hunderscore⟩)
  have hnumber : Text.trim (back.reverse.takeWhile (· != '#')) = body := by
    rw [← Text.trim_takeWhile_append _ hbehind (by decide), hright, Text.takeWhile_ne hvalue hcomment]
    exact Text.trim_of_padded hbody (Text.tight_of_forall hblanks)
  have hleft : '=' ∉ c :: (rest ++ after) := by
    rw [← List.cons_append, List.mem_append]
    exact not_or.2 ⟨hequals, hafter.notMem (by decide)⟩
  rw [Line.assigned?, parse_of_assignment hline hc hleft, hkey, hnumber, String.ofList_toList]
  dsimp only
  rw [if_pos rfl, value?, String.toList_ofList]
  exact number?_eq_some_iff.2 ⟨hdecimal, hbound⟩

theorem assigned?_eq_some_iff : assigned? key line = some n ↔ Assigns line key n :=
  ⟨.of_assigned?, Assigns.assigned?⟩

theorem Assigns.lt_bound (h : Assigns line key n) : n < key.bound := by
  obtain ⟨-, -, -, -, -, -, -, -, -, -, hbound⟩ := h
  exact hbound

theorem parse_of_assigns (h : Assigns line key n) :
    ∃ value, parse line = .assignment key.name value ∧ value? key value = some n := by
  have hassigned := h.assigned?
  unfold Line.assigned? at hassigned
  split at hassigned
  · next name value hparse =>
    split at hassigned
    · next hname => exact ⟨value, hname ▸ hparse, hassigned⟩
    · cases hassigned
  · cases hassigned

theorem parse_of_opens (h : Opens line s) : parse line = .header s.name := by
  have hopened := opened?_eq_some_iff.2 h
  unfold opened? at hopened
  split at hopened
  · next name hparse => exact Section.ofName?_eq_some_iff.1 hopened ▸ hparse
  · cases hopened

end Line
end Settings
end IntervalStack
