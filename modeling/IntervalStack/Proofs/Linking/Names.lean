import IntervalStack.Proofs.ListingLabels
import IntervalStack.Proofs.Linking.Basic
import IntervalStack.Proofs.Words

/-! Labels made from names of the program and from type codes. Different families of labels differ
in their first characters; within a family a label tells the name and the code it was made from, as
long as type codes are not negative. -/

namespace IntervalStack

/-! The table of struct layouts. -/

namespace StructLayout

variable {d : StructDef} {l l' : StructLayout}

theorem ofDef_eq_ok_iff : ofDef d = .ok l ↔
    Word.fitsSigned (Layout.firstStructCode.toInt + d.id.toInt32.toInt) = true ∧
    Layout.membersOffset.toNat + d.memberArea.toNat < UInt32.size ∧
    l = ⟨d.id, d.name, Layout.firstStructCode + d.id.toInt32, Layout.membersOffset + d.memberArea,
      d.members.filterMap referenceSlot?⟩ := by
  simp only [ofDef, RecordKind.typeCode, Word.addSigned, Word.add]
  split
  · next hcode =>
    split
    · next hsize => simp [hcode, hsize, bind, Except.bind, pure, Except.pure, eq_comm]
    · next hsize => simp [hsize, bind, Except.bind]
  · next hcode => simp [hcode, bind, Except.bind]

theorem ofDef_ok (h : ofDef d = .ok l) :
    l.id = d.id ∧ l.typeCode = Layout.firstStructCode + d.id.toInt32 ∧
      Word.fitsSigned (Layout.firstStructCode.toInt + d.id.toInt32.toInt) = true := by
  obtain ⟨hcode, -, rfl⟩ := ofDef_eq_ok_iff.1 h
  exact ⟨rfl, rfl, hcode⟩

theorem le_recordSize (h : ofDef d = .ok l) : 16 ≤ l.recordSize.toNat := by
  obtain ⟨-, hsize, rfl⟩ := ofDef_eq_ok_iff.1 h
  have hoffset : Layout.membersOffset.toNat = 16 := rfl
  rw [UInt32.toNat_add, Nat.mod_eq_of_lt hsize, hoffset]
  omega

/-- Type codes are the ids counted from the first code on; ids of the upper half count as negative. -/
theorem toInt_typeCode_of_ok (h : ofDef d = .ok l) :
    l.typeCode.toInt =
      if l.id.toNat < 2 ^ 31 then 16 + (l.id.toNat : Int) else 16 + (l.id.toNat : Int) - 2 ^ 32 := by
  obtain ⟨hid, hcode, hfits⟩ := ofDef_ok h
  have hint := Word.toInt_toInt32 d.id
  have hfirst : Layout.firstStructCode.toInt = 16 := rfl
  simp only [Word.fitsSigned, hfirst, Bool.and_eq_true, decide_eq_true_eq] at hfits
  rw [hcode, Int32.toInt_add, hfirst, Int.bmod_eq_of_le_mul_two (by omega) (by omega), hint, hid]
  split
  all_goals omega

/-- With the ids that leave room for it, type codes are the ids counted from the first one on. -/
theorem toInt_typeCode (h : ofDef d = .ok l) (hid : d.id.toNat < 2 ^ 31 - 16) :
    l.typeCode.toInt = 16 + d.id.toNat := by
  rw [toInt_typeCode_of_ok h, (ofDef_ok h).1, if_pos (by omega)]

end StructLayout

namespace StructTable

variable {p : Program} {t : StructTable}

theorem eq_or_mem_of_mem_insert {s l : StructLayout} {ls : List StructLayout}
    (h : l ∈ insert s ls) : l = s ∨ l ∈ ls := by
  induction ls with
  | nil => exact .inl (List.mem_singleton.1 h)
  | cons t ts ih =>
    rw [insert] at h
    split at h
    · exact List.mem_cons.1 h
    · split at h
      · exact (List.mem_cons.1 h).imp_right (List.mem_cons_of_mem _)
      · rcases List.mem_cons.1 h with rfl | h
        · exact .inr List.mem_cons_self
        · exact (ih h).imp_right (List.mem_cons_of_mem _)

theorem pairwise_insert {s : StructLayout} {ls : List StructLayout}
    (h : ls.Pairwise (·.id < ·.id)) : (insert s ls).Pairwise (·.id < ·.id) := by
  induction ls with
  | nil => exact List.pairwise_singleton _ _
  | cons t ts ih =>
    obtain ⟨ht, hts⟩ := List.pairwise_cons.1 h
    rw [insert]
    split
    · next hlt =>
      refine List.pairwise_cons.2 ⟨fun l hl => ?_, h⟩
      rcases List.mem_cons.1 hl with rfl | hl
      · exact hlt
      · exact UInt32.lt_trans hlt (ht l hl)
    · split
      · next heq => exact List.pairwise_cons.2 ⟨fun l hl => heq ▸ ht l hl, hts⟩
      · next hge hne =>
        refine List.pairwise_cons.2 ⟨fun l hl => ?_, ih hts⟩
        rcases eq_or_mem_of_mem_insert hl with rfl | hl
        · exact UInt32.lt_of_le_of_ne (UInt32.not_lt.1 hge) (Ne.symm hne)
        · exact ht l hl

theorem foldlM_layouts {ds : List StructDef} {ls ls' : List StructLayout}
    (h : ds.foldlM (fun ls d => return insert (← StructLayout.ofDef d) ls) ls = .ok ls')
    (hls : ls.Pairwise (·.id < ·.id)) : ls'.Pairwise (·.id < ·.id) ∧
      ∀ l ∈ ls', l ∈ ls ∨ ∃ d ∈ ds, StructLayout.ofDef d = .ok l := by
  induction ds generalizing ls with
  | nil =>
    obtain rfl : ls = ls' := Except.ok.inj h
    exact ⟨hls, fun l hl => .inl hl⟩
  | cons d ds ih =>
    rw [List.foldlM_cons] at h
    cases hd : StructLayout.ofDef d with
    | error e =>
      rw [hd] at h
      cases h
    | ok s =>
      rw [hd] at h
      obtain ⟨hp, hm⟩ := ih h (pairwise_insert hls)
      refine ⟨hp, fun l hl => ?_⟩
      rcases hm l hl with hl | ⟨d', hd', hl⟩
      · rcases eq_or_mem_of_mem_insert hl with rfl | hl
        · exact .inr ⟨d, List.mem_cons_self, hd⟩
        · exact .inl hl
      · exact .inr ⟨d', List.mem_cons_of_mem _ hd', hl⟩

theorem ofProgram_layouts (h : ofProgram p = .ok t) : t.layouts.Pairwise (·.id < ·.id) ∧
    ∀ l ∈ t.layouts, ∃ d ∈ p.structs, StructLayout.ofDef d = .ok l := by
  simp only [ofProgram, bind, Except.bind] at h
  split at h
  · cases h
  · next ls hls =>
    obtain rfl := Except.ok.inj h
    obtain ⟨hp, hm⟩ := foldlM_layouts hls .nil
    exact ⟨hp, fun l hl => (hm l hl).resolve_left List.not_mem_nil⟩

theorem mem_insert_self (s : StructLayout) (ls : List StructLayout) : s ∈ insert s ls := by
  induction ls with
  | nil => exact List.mem_cons_self
  | cons t ts ih =>
    rw [insert]
    split
    · exact List.mem_cons_self
    · split
      · exact List.mem_cons_self
      · exact List.mem_cons_of_mem t ih

theorem mem_insert_of_mem {s l : StructLayout} {ls : List StructLayout} (hl : l ∈ ls)
    (hne : l.id ≠ s.id) : l ∈ insert s ls := by
  induction ls with
  | nil => cases hl
  | cons t ts ih =>
    rw [insert]
    split
    · exact List.mem_cons_of_mem s hl
    · split
      · next heq =>
        rcases List.mem_cons.1 hl with rfl | hl
        · exact absurd heq.symm hne
        · exact List.mem_cons_of_mem s hl
      · rcases List.mem_cons.1 hl with rfl | hl
        · exact List.mem_cons_self
        · exact List.mem_cons_of_mem t (ih hl)

theorem foldlM_mem {ds : List StructDef} {ls ls' : List StructLayout}
    (h : ds.foldlM (fun ls d => return insert (← StructLayout.ofDef d) ls) ls = .ok ls')
    (hids : (ds.map (·.id)).Nodup) :
    (∀ l ∈ ls, l.id ∉ ds.map (·.id) → l ∈ ls') ∧
      ∀ d ∈ ds, ∃ l ∈ ls', StructLayout.ofDef d = .ok l := by
  induction ds generalizing ls with
  | nil =>
    obtain rfl : ls = ls' := Except.ok.inj h
    exact ⟨fun l hl _ => hl, nofun⟩
  | cons d ds ih =>
    rw [List.foldlM_cons] at h
    rw [List.map_cons, List.nodup_cons] at hids
    cases hd : StructLayout.ofDef d with
    | error e =>
      rw [hd] at h
      cases h
    | ok s =>
      rw [hd] at h
      have hid := (StructLayout.ofDef_ok hd).1
      obtain ⟨hkept, hnew⟩ := ih h hids.2
      refine ⟨fun l hl hnot => ?_, fun d' hd' => ?_⟩
      · rw [List.map_cons, List.mem_cons, not_or] at hnot
        exact hkept l (mem_insert_of_mem hl (by rw [hid]; exact hnot.1)) hnot.2
      · rcases List.mem_cons.1 hd' with rfl | hd'
        · exact ⟨s, hkept s (mem_insert_self s ls) (by rw [hid]; exact hids.1), hd⟩
        · exact hnew d' hd'

theorem ofProgram_mem (h : ofProgram p = .ok t) (hids : (p.structs.map (·.id)).Nodup) :
    ∀ d ∈ p.structs, ∃ l ∈ t.layouts, StructLayout.ofDef d = .ok l := by
  simp only [ofProgram, bind, Except.bind] at h
  split at h
  · cases h
  · next ls hls =>
    obtain rfl := Except.ok.inj h
    exact (foldlM_mem hls hids).2

theorem foldlM_ids {ds : List StructDef} {ls ls' : List StructLayout} {id : StructId}
    (h : ds.foldlM (fun ls d => return insert (← StructLayout.ofDef d) ls) ls = .ok ls')
    (hid : (∃ l ∈ ls, l.id = id) ∨ ∃ d ∈ ds, d.id = id) : ∃ l ∈ ls', l.id = id := by
  induction ds generalizing ls with
  | nil =>
    obtain rfl : ls = ls' := Except.ok.inj h
    exact hid.resolve_right nofun
  | cons d ds ih =>
    rw [List.foldlM_cons] at h
    cases hd : StructLayout.ofDef d with
    | error e =>
      rw [hd] at h
      cases h
    | ok s =>
      rw [hd] at h
      refine ih h ?_
      by_cases hs : s.id = id
      · exact .inl ⟨s, mem_insert_self s ls, hs⟩
      · rcases hid with ⟨l, hl, rfl⟩ | ⟨d', hd', rfl⟩
        · exact .inl ⟨l, mem_insert_of_mem hl (Ne.symm hs), rfl⟩
        · rcases List.mem_cons.1 hd' with rfl | hd'
          · exact absurd (StructLayout.ofDef_ok hd).1 hs
          · exact .inr ⟨d', hd', rfl⟩

theorem ofProgram_get? (h : ofProgram p = .ok t) {d : StructDef} (hd : d ∈ p.structs) :
    ∃ l, t.get? d.id = some l := by
  simp only [ofProgram, bind, Except.bind] at h
  split at h
  · cases h
  · next ls hls =>
    obtain rfl := Except.ok.inj h
    obtain ⟨l, hl, hid⟩ := foldlM_ids hls (.inr ⟨d, hd, rfl⟩)
    refine Option.isSome_iff_exists.1 (List.find?_isSome.2 ⟨l, hl, ?_⟩)
    exact beq_iff_eq.2 hid

theorem mem_of_get? {id : StructId} {l : StructLayout} (h : t.get? id = some l) :
    l ∈ t.layouts ∧ l.id = id := by
  refine ⟨List.mem_of_find?_eq_some h, ?_⟩
  have hid := List.find?_some (p := fun s : StructLayout => s.id == id) h
  exact beq_iff_eq.1 hid

end StructTable

namespace Generator

/-- The characters by which the families of labels differ. -/
def start (l : String) : List Char := l.toList.take 4

theorem start_append {p q : String} (h : 4 ≤ p.toList.length) : start (p ++ q) = start p := by
  rw [start, String.toList_append, List.take_append_of_le_length h, start]

theorem toString_nat_inj {m n : Nat} (h : toString m = toString n) : m = n := by
  rw [Nat.toString_eq_repr, Nat.toString_eq_repr] at h
  have hdigits := congrArg String.toList h
  rw [Nat.toList_repr, Nat.toList_repr] at hdigits
  have hvalues := congrArg (Nat.ofDigitChars 10 · 0) hdigits
  simpa only [Nat.ofDigitChars_ten_toDigits] using hvalues

theorem toString_nat_append_inj {m n : Nat} {a b : String}
    (h : toString m ++ "-" ++ a = toString n ++ "-" ++ b) : m = n ∧ a = b := by
  have hdigits : ∀ (k : Nat) (c : String),
      (toString k ++ "-" ++ c).toList.takeWhile Char.isDigit = (toString k).toList := by
    intro k c
    rw [String.toList_append, String.toList_append, List.append_assoc,
      List.takeWhile_append_of_pos fun c hc => isDigit_of_mem_repr hc]
    exact List.append_nil _
  have hmn : toString m = toString n := by
    rw [← String.toList_inj, ← hdigits m a, h, hdigits]
  refine ⟨toString_nat_inj hmn, ?_⟩
  rw [hmn] at h
  exact String.append_right_inj _ |>.1 h

theorem toString_toInt {code : Int32} {n : Nat} (h : code.toInt = n) :
    toString code.toInt = toString n := by
  rw [h]
  rfl

theorem methodLabel_inj {code code' : Int32} {n n' : Nat} {a b : String} (hn : code.toInt = n)
    (hn' : code'.toInt = n') (h : methodLabel code a = methodLabel code' b) : n = n' ∧ a = b := by
  simp only [methodLabel, toString_toInt hn, toString_toInt hn', String.append_assoc,
    String.append_right_inj] at h
  rw [← String.append_assoc, ← String.append_assoc] at h
  exact toString_nat_append_inj h

theorem append_code_inj {p : String} {code code' : Int32} {n n' : Nat} (hn : code.toInt = n)
    (hn' : code'.toInt = n')
    (h : p ++ toString code.toInt = p ++ toString code'.toInt) : n = n' := by
  rw [String.append_right_inj, toString_toInt hn, toString_toInt hn'] at h
  exact toString_nat_inj h

theorem start_functionLabel (name : String) : start (functionLabel name) = "-fun".toList :=
  start_append (by decide)

theorem start_methodLabel (code : Int32) (name : String) :
    start (methodLabel code name) = "-met".toList := by
  rw [methodLabel, String.append_assoc, String.append_assoc]
  exact start_append (by decide)

theorem start_initializerLabel (code : Int32) : start (initializerLabel code) = "-str".toList :=
  start_append (by decide)

theorem start_structRelease (code : Int32) :
    start (RefCounter.structRelease code) = "-rct".toList := start_append (by decide)

theorem start_structName (code : Int32) : start (Environment.structName code) = "$str".toList :=
  start_append (by decide)

theorem start_printer (k : ScalarKind) : start k.printer = "-pri".toList :=
  start_append (by decide)

/-- The names and ids of a program tell its functions, structs and methods apart. -/
structure DistinctNames (program : Program) : Prop where
  functions : (program.functions.map (·.name)).Nodup
  structs : (program.structs.map (·.id)).Nodup
  ids : ∀ d ∈ program.structs, d.id.toNat < 2 ^ 31 - 16
  methods : ∀ d ∈ program.structs, (d.methods.map (·.name)).Nodup

variable {program : Program} {structs : StructTable}

theorem DistinctNames.toInt_typeCode (h : DistinctNames program)
    (hs : StructTable.ofProgram program = .ok structs) {l : StructLayout} (hl : l ∈ structs.layouts) :
    l.typeCode.toInt = ((16 + l.id.toNat : Nat) : Int) := by
  obtain ⟨d, hd, hof⟩ := (StructTable.ofProgram_layouts hs).2 l hl
  rw [StructLayout.toInt_typeCode hof (h.ids d hd), (StructLayout.ofDef_ok hof).1]
  rfl

theorem DistinctNames.typeCode_inj (h : DistinctNames program)
    (hs : StructTable.ofProgram program = .ok structs) {p : String} :
    (structs.layouts.map fun l => p ++ toString l.typeCode.toInt).Nodup := by
  refine List.pairwise_map.2 (List.Pairwise.imp_of_mem ?_ (StructTable.ofProgram_layouts hs).1)
  intro l l' hl hl' hlt heq
  have hcodes := append_code_inj (h.toInt_typeCode hs hl) (h.toInt_typeCode hs hl') heq
  have hlt' := UInt32.lt_iff_toNat_lt.1 hlt
  omega

theorem mem_structLabels {d : StructDef} {x : String} (hx : x ∈ structLabels structs d) :
    ∃ l, structs.get? d.id = some l ∧ (x = initializerLabel l.typeCode ∨
      ∃ f ∈ d.methods, x = methodLabel l.typeCode f.name) := by
  unfold structLabels at hx
  cases hl : structs.get? d.id with
  | none => simp [hl] at hx
  | some l =>
    simp only [hl, List.mem_cons, List.mem_map] at hx
    refine ⟨l, rfl, hx.imp_right ?_⟩
    rintro ⟨f, hf, rfl⟩
    exact ⟨f, hf, rfl⟩

theorem start_structLabels {d : StructDef} {x : String} (hx : x ∈ structLabels structs d) :
    start x = "-str".toList ∨ start x = "-met".toList := by
  obtain ⟨l, -, rfl | ⟨f, -, rfl⟩⟩ := mem_structLabels hx
  · exact .inl (start_initializerLabel _)
  · exact .inr (start_methodLabel _ _)

theorem DistinctNames.nodup_structLabels (h : DistinctNames program)
    (hs : StructTable.ofProgram program = .ok structs) {d : StructDef} (hd : d ∈ program.structs) :
    (structLabels structs d).Nodup := by
  unfold structLabels
  cases hl : structs.get? d.id with
  | none => exact .nil
  | some l =>
    have hcode := h.toInt_typeCode hs (StructTable.mem_of_get? hl).1
    refine List.nodup_cons.2 ⟨fun hm => ?_, ?_⟩
    · obtain ⟨f, -, hf⟩ := List.mem_map.1 hm
      have hstart := congrArg start hf
      rw [start_methodLabel, start_initializerLabel] at hstart
      exact absurd hstart (by decide)
    · refine List.pairwise_map.2 (List.Pairwise.imp ?_ (List.pairwise_map.1 (h.methods d hd)))
      exact fun hne heq => hne (methodLabel_inj hcode hcode heq).2

theorem DistinctNames.structLabels_ne (h : DistinctNames program)
    (hs : StructTable.ofProgram program = .ok structs) {d d' : StructDef} (hne : d.id ≠ d'.id)
    {x y : String} (hx : x ∈ structLabels structs d) (hy : y ∈ structLabels structs d') : x ≠ y := by
  obtain ⟨l, hl, hx⟩ := mem_structLabels hx
  obtain ⟨l', hl', hy⟩ := mem_structLabels hy
  obtain ⟨hmem, hid⟩ := StructTable.mem_of_get? hl
  obtain ⟨hmem', hid'⟩ := StructTable.mem_of_get? hl'
  have hcode := h.toInt_typeCode hs hmem
  have hcode' := h.toInt_typeCode hs hmem'
  have hcodes : 16 + l.id.toNat ≠ 16 + l'.id.toNat := by
    intro heq
    exact hne (hid ▸ hid' ▸ UInt32.toNat_inj.1 (Nat.add_left_cancel heq))
  rintro rfl
  rcases hx with rfl | ⟨f, -, rfl⟩ <;> rcases hy with heq | ⟨g, -, heq⟩
  · exact hcodes (append_code_inj hcode hcode' heq)
  · have hstart := congrArg start heq
    rw [start_methodLabel, start_initializerLabel] at hstart
    exact absurd hstart (by decide)
  · have hstart := congrArg start heq
    rw [start_methodLabel, start_initializerLabel] at hstart
    exact absurd hstart (by decide)
  · exact hcodes (methodLabel_inj hcode hcode' heq).1

theorem DistinctNames.nodup_routineLabels (h : DistinctNames program)
    (hs : StructTable.ofProgram program = .ok structs) : (routineLabels program structs).Nodup := by
  refine List.nodup_append.2 ⟨?_, ?_, ?_⟩
  · refine List.pairwise_map.2 (List.Pairwise.imp ?_ (List.pairwise_map.1 h.functions))
    exact fun hne heq => hne (String.append_right_inj _ |>.1 heq)
  · refine List.pairwise_flatMap.2 ⟨fun d hd => h.nodup_structLabels hs hd, ?_⟩
    refine List.Pairwise.imp ?_ (List.pairwise_map.1 h.structs)
    exact fun hne x hx y hy => h.structLabels_ne hs hne hx hy
  · rintro x hx y hy rfl
    obtain ⟨f, -, rfl⟩ := List.mem_map.1 hx
    obtain ⟨d, -, hy⟩ := List.mem_flatMap.1 hy
    rcases start_structLabels hy with hstart | hstart <;> rw [start_functionLabel] at hstart <;>
      exact absurd hstart (by decide)

end Generator
end IntervalStack
