import IntervalStack.Proofs.Settings.Lines
import Mathlib.Algebra.Order.Ring.Nat

/-! Whole settings files. A file is read if each of its lines has its place in the grammar and the
settings that come of it are valid; of the lines that open a section or give a value to a key, the
last one counts. -/

namespace IntervalStack

theorem Text.splitOn_eq (sep : Char) (cs : List Char) : splitOn sep cs = cs.splitOn sep := by
  induction cs with
  | nil => rw [List.splitOn_nil]; rfl
  | cons c cs ih =>
    rw [List.splitOn_cons_eq_if_modifyHead, splitOn, ih]
    by_cases hc : c = sep
    · simp [hc]
    · rw [if_neg hc, if_neg (by simpa using hc)]
      cases hparts : cs.splitOn sep with
      | nil => exact absurd hparts (List.splitOn_ne_nil sep cs)
      | cons part parts => rfl

namespace Settings

open Line (IsVoid Opens Assigns opened? assigned? opened?_eq_some_iff assigned?_eq_some_iff)

def lines (text : String) : List (List Char) := text.toList.splitOn '\n'

def get (s : Settings) : Key → Nat
  | .worklistCapacity => s.worklistCapacity.toNat
  | .memorySize => s.machine.memorySize.toNat
  | .heapSize => s.machine.heapSize.toNat
  | .stepLimit => s.machine.stepLimit.toNat

/-- Of all lines that say something of the kind, the last one says this. -/
def Last {α : Type} (Says : List Char → α → Prop) (lines : List (List Char)) (a : α) : Prop :=
  ∃ before line after, lines = before ++ line :: after ∧ Says line a ∧
    ∀ line' ∈ after, ∀ b, ¬ Says line' b

/-- A line has its place in the grammar: it says nothing, opens a section, or gives a value to a key
of the section that was opened last. -/
def Fits (current : Option Section) (line : List Char) : Prop :=
  IsVoid line ∨ (∃ s, Opens line s) ∨ ∃ key n, Assigns line key n ∧ current = some key.owner

/-- Each line has its place, given the lines in front of it. -/
def WellFormed (lines : List (List Char)) : Prop :=
  ∀ before line after, lines = before ++ line :: after → IsVoid line ∨ (∃ s, Opens line s) ∨
    ∃ key n, Assigns line key n ∧ Last Opens before key.owner

/-- Each key has the value that was given to it last, and its default if there is none. -/
def Holds (lines : List (List Char)) (s : Settings) : Prop :=
  ∀ key, Last (Assigns · key) lines (s.get key) ∨
    (∀ line ∈ lines, ∀ n, ¬ Assigns line key n) ∧ s.get key = default.get key

structure Valid (s : Settings) : Prop where
  capacity_pos : 1 ≤ s.get .worklistCapacity
  capacity_le : s.get .worklistCapacity ≤ (2 ^ 31 - 1) / 4
  limit_pos : 0 < s.get .stepLimit
  heap_lt : s.get .heapSize < s.get .memorySize

variable {s s' : Settings} {key key' : Key} {n : Nat} {line : List Char} {ls : List (List Char)}
  {r r' : Reading} {text : String}

/-! Settings as values of keys. -/

theorem ext_get (h : ∀ key, s.get key = s'.get key) : s = s' := by
  obtain ⟨capacity, memory, heap, limit⟩ := s
  obtain ⟨capacity', memory', heap', limit'⟩ := s'
  have hcapacity := UInt32.toNat.inj (h .worklistCapacity)
  have hmemory := UInt32.toNat.inj (h .memorySize)
  have hheap := UInt32.toNat.inj (h .heapSize)
  have hlimit := UInt64.toNat.inj (h .stepLimit)
  simp only at hcapacity hmemory hheap hlimit
  rw [hcapacity, hmemory, hheap, hlimit]

theorem get_assign (hn : n < key.bound) (s : Settings) (key' : Key) :
    (s.assign key n).get key' = if key' = key then n else s.get key' := by
  have hword : n < UInt32.size → (UInt32.ofNat n).toNat = n := UInt32.toNat_ofNat_of_lt'
  have hlong : n < UInt64.size → (UInt64.ofNat n).toNat = n := UInt64.toNat_ofNat_of_lt'
  cases key <;> cases key' <;> first | rfl | exact hword hn | exact hlong hn

theorem validate_eq_ok_iff : validate s = .ok s' ↔ s' = s ∧ s.Valid := by
  have hzero : s.worklistCapacity = 0 ↔ s.get .worklistCapacity = 0 :=
    UInt32.toNat_inj.symm
  have hmax : RefCounter.maxCapacity < s.worklistCapacity ↔
      (2 ^ 31 - 1) / 4 < s.get .worklistCapacity := UInt32.lt_iff_toNat_lt
  have hlimit : s.machine.stepLimit = 0 ↔ s.get .stepLimit = 0 := UInt64.toNat_inj.symm
  have hheap : s.machine.memorySize ≤ s.machine.heapSize ↔ s.get .memorySize ≤ s.get .heapSize :=
    UInt32.le_iff_toNat_le
  unfold validate
  simp only [hzero, hmax, hlimit, hheap]
  constructor
  · intro h
    repeat (split at h; · cases h)
    exact ⟨(Except.ok.inj h).symm, by omega, by omega, by omega, by omega⟩
  · rintro ⟨rfl, hpos, hle, hlimit, hheap⟩
    rw [if_neg (by omega), if_neg (by omega), if_neg (by omega), if_neg (by omega)]

/-! The last line of a kind. -/

def lastOf {α : Type} (f : List Char → Option α) (ls : List (List Char)) : Option α :=
  (ls.filterMap f).getLast?

section Last

variable {α : Type} {f : List Char → Option α} {Says : List Char → α → Prop} {a : α}

theorem lastOf_cons (line : List Char) (ls : List (List Char)) :
    lastOf f (line :: ls) = (lastOf f ls).or (f line) := by
  unfold lastOf
  cases h : f line with
  | none => rw [List.filterMap_cons_none h, Option.or_none]
  | some a =>
    rw [List.filterMap_cons_some h, List.getLast?_cons]
    cases (ls.filterMap f).getLast? <;> rfl

theorem last_iff (hf : ∀ {line a}, f line = some a ↔ Says line a) :
    Last Says ls a ↔ lastOf f ls = some a := by
  have hsilent (line : List Char) : (∀ b, ¬ Says line b) ↔ f line = none := by
    rw [Option.eq_none_iff_forall_ne_some]
    simp only [ne_eq, hf]
  constructor
  · rintro ⟨before, line, after, rfl, hsays, hafter⟩
    have hnone : after.filterMap f = [] :=
      List.filterMap_eq_nil_iff.2 fun line' hmem => (hsilent line').1 (hafter line' hmem)
    rw [lastOf, List.filterMap_append, List.filterMap_cons_some (hf.2 hsays), hnone,
      List.getLast?_concat]
  · intro h
    obtain ⟨told, htold⟩ := List.getLast?_eq_some_iff.1 h
    obtain ⟨before, rest, rfl, -, hrest⟩ := List.filterMap_eq_append_iff.1 htold
    obtain ⟨quiet, line, after, rfl, -, hline, hafter⟩ := List.filterMap_eq_cons_iff.1 hrest
    refine ⟨before ++ quiet, line, after, by simp, hf.1 hline, fun line' hmem => ?_⟩
    exact (hsilent line').2 (List.filterMap_eq_nil_iff.1 hafter line' hmem)

end Last

/-! One line. -/

theorem Reading.line_of_fits (h : Fits r.current line) : ∃ r', r.line line = .ok r' ∧
    r'.current = (opened? line).or r.current ∧
    ∀ key, r'.settings.get key = (assigned? key line).getD (r.settings.get key) := by
  rcases h with hvoid | ⟨s, hopens⟩ | ⟨key, n, hassigns, hcurrent⟩
  · have hparse := Line.parse_eq_blank_iff.2 hvoid
    refine ⟨r, by rw [Reading.line, hparse], by rw [opened?, hparse]; rfl, fun key => ?_⟩
    rw [assigned?, hparse]
    rfl
  · have hparse := Line.parse_of_opens hopens
    refine ⟨{ r with current := some s }, ?_, ?_, fun key => by rw [assigned?, hparse]; rfl⟩
    · have hname : Section.ofName? s.name = some s := Section.ofName?_eq_some_iff.2 rfl
      simp only [Reading.line, hparse, hname]
    · rw [opened?_eq_some_iff.2 hopens]
      rfl
  · obtain ⟨value, hparse, hvalue⟩ := Line.parse_of_assigns hassigns
    refine ⟨{ r with settings := r.settings.assign key n }, ?_, by rw [opened?, hparse]; rfl,
      fun key' => ?_⟩
    · simp only [Reading.line, hparse, hcurrent, Key.find?_eq_some_iff.2 ⟨rfl, rfl⟩, hvalue]
    · rw [get_assign hassigns.lt_bound, assigned?, hparse]
      by_cases hkey : key' = key
      · subst hkey
        simp only [if_true, hvalue, Option.getD_some]
      · have hname : ¬ key.name = key'.name := fun h => hkey (Key.name_injective h).symm
        simp only [if_neg hkey, if_neg hname, Option.getD_none]

theorem Reading.fits_of_line (h : r.line line = .ok r') : Fits r.current line := by
  unfold Reading.line at h
  split at h
  · next hparse => exact .inl (Line.parse_eq_blank_iff.1 hparse)
  · next name hparse =>
    split at h
    · next s hs =>
      refine .inr (.inl ⟨s, opened?_eq_some_iff.1 ?_⟩)
      rw [opened?, hparse]
      exact hs
    · cases h
  · cases h
  · next name value hparse =>
    split at h
    · cases h
    · next s hcurrent =>
      split at h
      · cases h
      · next key hkey =>
        split at h
        · next n hn =>
          obtain ⟨rfl, hname⟩ := Key.find?_eq_some_iff.1 hkey
          refine .inr (.inr ⟨key, n, assigned?_eq_some_iff.1 ?_, hcurrent⟩)
          rw [assigned?, hparse]
          dsimp only
          rw [if_pos hname]
          exact hn
        · cases h

/-! All lines. -/

theorem Reading.lines_cons : r.lines (line :: ls) = .ok r' ↔
    ∃ r₁, r.line line = .ok r₁ ∧ r₁.lines ls = .ok r' := by
  rw [Reading.lines]
  cases r.line line with
  | error e => exact ⟨nofun, nofun⟩
  | ok r₁ => simp [bind, Except.bind]

theorem Reading.ext_get (hcurrent : r.current = r'.current)
    (hsettings : ∀ key, r.settings.get key = r'.settings.get key) : r = r' := by
  obtain ⟨settings, current⟩ := r
  obtain ⟨settings', current'⟩ := r'
  obtain rfl := Settings.ext_get hsettings
  obtain rfl : current = current' := hcurrent
  rfl

theorem Reading.lines_eq_ok_iff : r.lines ls = .ok r' ↔
    (∀ before line after, ls = before ++ line :: after →
      Fits ((lastOf opened? before).or r.current) line) ∧
    r'.current = (lastOf opened? ls).or r.current ∧
    ∀ key, r'.settings.get key = (lastOf (assigned? key) ls).getD (r.settings.get key) := by
  induction ls generalizing r with
  | nil =>
    refine ⟨?_, fun h => ?_⟩
    · rintro ⟨⟩
      exact ⟨by simp, rfl, fun key => rfl⟩
    · exact congrArg _ (Reading.ext_get h.2.1.symm fun key => (h.2.2 key).symm)
  | cons line ls ih =>
    rw [Reading.lines_cons]
    constructor
    · rintro ⟨r₁, hline, hlines⟩
      have hfits := Reading.fits_of_line hline
      obtain ⟨r₂, hline₂, hcurrent, hget⟩ := Reading.line_of_fits hfits
      obtain rfl := Except.ok.inj (hline.symm.trans hline₂)
      obtain ⟨hall, hcurrent', hget'⟩ := ih.1 hlines
      refine ⟨fun before line' after heq => ?_, ?_, fun key => ?_⟩
      · cases before with
        | nil =>
          obtain ⟨rfl, -⟩ := List.cons.inj heq
          exact hfits
        | cons b before =>
          obtain ⟨rfl, htail⟩ := List.cons.inj heq
          rw [lastOf_cons, Option.or_assoc, ← hcurrent]
          exact hall before line' after htail
      · rw [lastOf_cons, Option.or_assoc, ← hcurrent, hcurrent']
      · rw [lastOf_cons, Option.getD_or, ← hget, hget']
    · rintro ⟨hall, hcurrent', hget'⟩
      obtain ⟨r₁, hline, hcurrent, hget⟩ := Reading.line_of_fits (hall [] line ls rfl)
      refine ⟨r₁, hline, ih.2 ⟨fun before line' after heq => ?_, ?_, fun key => ?_⟩⟩
      · have hfits := hall (line :: before) line' after (congrArg _ heq)
        rwa [lastOf_cons, Option.or_assoc, ← hcurrent] at hfits
      · rw [hcurrent', lastOf_cons, Option.or_assoc, ← hcurrent]
      · rw [hget', lastOf_cons, Option.getD_or, ← hget]

theorem wellFormed_iff : WellFormed ls ↔ ∀ before line after, ls = before ++ line :: after →
    Fits ((lastOf opened? before).or none) line := by
  simp only [WellFormed, Fits, Option.or_none, last_iff opened?_eq_some_iff]

theorem holds_iff : Holds ls s ↔
    ∀ key, s.get key = (lastOf (assigned? key) ls).getD (default.get key) := by
  refine forall_congr' fun key => ?_
  rw [last_iff assigned?_eq_some_iff]
  have hnever : (∀ line ∈ ls, ∀ n, ¬ Assigns line key n) ↔ lastOf (assigned? key) ls = none := by
    rw [lastOf, List.getLast?_eq_none_iff, List.filterMap_eq_nil_iff]
    simp only [Option.eq_none_iff_forall_ne_some, ne_eq, assigned?_eq_some_iff]
  rw [hnever]
  cases lastOf (assigned? key) ls with
  | none => simp
  | some n => simp [eq_comm]

theorem parse_eq_ok_iff :
    parse text = .ok s ↔ WellFormed (lines text) ∧ Holds (lines text) s ∧ s.Valid := by
  have hparse : parse text = .ok s ↔
      ∃ r, (Reading.mk default none).lines (lines text) = .ok r ∧ validate r.settings = .ok s := by
    rw [parse, Text.splitOn_eq]
    show ((Reading.mk default none).lines (lines text) >>= fun r => validate r.settings) = .ok s ↔ _
    cases (Reading.mk default none).lines (lines text) with
    | error e => exact ⟨nofun, nofun⟩
    | ok r => simp [bind, Except.bind]
  rw [hparse, wellFormed_iff, holds_iff]
  constructor
  · rintro ⟨r, hlines, hvalidate⟩
    obtain ⟨rfl, hvalid⟩ := validate_eq_ok_iff.1 hvalidate
    obtain ⟨hfits, -, hget⟩ := Reading.lines_eq_ok_iff.1 hlines
    exact ⟨hfits, hget, hvalid⟩
  · rintro ⟨hfits, hget, hvalid⟩
    exact ⟨⟨s, (lastOf opened? (lines text)).or none⟩, Reading.lines_eq_ok_iff.2 ⟨hfits, rfl, hget⟩,
      validate_eq_ok_iff.2 ⟨rfl, hvalid⟩⟩

theorem eq_of_holds {ls' : List (List Char)} (h : Holds ls s) (h' : Holds ls' s')
    (hsame : ∀ key n, Last (Assigns · key) ls n ↔ Last (Assigns · key) ls' n) : s = s' := by
  refine ext_get fun key => ?_
  have hlast : lastOf (assigned? key) ls = lastOf (assigned? key) ls' := by
    refine Option.ext fun n => ?_
    rw [← last_iff assigned?_eq_some_iff, ← last_iff assigned?_eq_some_iff]
    exact hsame key n
  rw [holds_iff.1 h, holds_iff.1 h', hlast]

/-- A text is accepted if and only if its lines follow the grammar and the settings that hold in the
end are valid, and these are what it is read as. Texts that assign the same values last are read as
the same settings. -/
theorem parse_follows_grammar (text : String) :
    (∀ s, parse text = .ok s ↔ WellFormed (lines text) ∧ Holds (lines text) s ∧ s.Valid) ∧
    ∀ text' s s', parse text = .ok s → parse text' = .ok s' →
      (∀ key n, Last (Assigns · key) (lines text) n ↔ Last (Assigns · key) (lines text') n) →
      s = s' := by
  refine ⟨fun s => parse_eq_ok_iff, fun text' s s' h h' hsame => ?_⟩
  exact eq_of_holds (parse_eq_ok_iff.1 h).2.1 (parse_eq_ok_iff.1 h').2.1 hsame

/-- A heap that is too large at first, and the same settings in another order. -/
def scattered : String :=
  "[vm]\r\nheap_size = 9_999_999 # for now\n[codegen]\n worklist_capacity=+16\n[ vm ]\nheap_size=8#"

def gathered : String := "[codegen]\nworklist_capacity = 16\n\n[vm]\nheap_size = 0_8"

theorem parse_follows_grammar_rearranged :
    ∃ s, parse scattered = .ok s ∧ parse gathered = .ok s ∧ WellFormed (lines scattered) ∧
      Holds (lines scattered) s ∧ s.Valid := by
  -- One evaluation for both texts, since their characters are what takes time.
  have hread : ((parse scattered).isOk && (parse gathered).isOk && Key.all.all fun key =>
      lastOf (assigned? key) (lines scattered) == lastOf (assigned? key) (lines gathered)) = true := by
    decide +kernel
  rw [Bool.and_eq_true, Bool.and_eq_true, List.all_eq_true] at hread
  obtain ⟨⟨hok, hok'⟩, hlast⟩ := hread
  cases hs : parse scattered with
  | error => simp [hs, Except.isOk, Except.toBool] at hok
  | ok s =>
    cases hs' : parse gathered with
    | error => simp [hs', Except.isOk, Except.toBool] at hok'
    | ok s' =>
      obtain ⟨hgrammar, hsame⟩ := parse_follows_grammar scattered
      obtain ⟨hformed, hholds, hvalid⟩ := (hgrammar s).1 hs
      have hall : ∀ key, key ∈ Key.all := fun key => by cases key <;> decide
      have heq : s = s' := hsame gathered s s' hs hs' fun key n => by
        rw [last_iff assigned?_eq_some_iff, last_iff assigned?_eq_some_iff,
          beq_iff_eq.1 (hlast key (hall key))]
      exact ⟨s, rfl, by rw [heq], hformed, hholds, hvalid⟩

end Settings
end IntervalStack
