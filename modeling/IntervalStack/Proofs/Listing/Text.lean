import IntervalStack.Asm.Code
import IntervalStack.Proofs.Decimals.Text
import IntervalStack.Proofs.Listing.Escape

/-! A listing tells the code that it was written for. Its lines are those of the instructions; a line
has a mnemonic, which says what kind of operand follows, and the text of the operand, which two
operands of one kind do not share. -/

namespace IntervalStack

namespace Instr

def labelOperand? : Instr → Option String
  | .dLabel l | .label l | .pushD l => some l
  | i => i.target?

def floatOperand? : Instr → Option Double
  | .dataF x | .pushF x => some x
  | _ => none

/-- The instructions whose lines can be told apart: a label stands on one line, and a float is a number
or infinite. -/
structure Legible (i : Instr) : Prop where
  label : ∀ l ∈ i.labelOperand?, '\n' ∉ l.toList
  float : ∀ x ∈ i.floatOperand?, x.isNaN = false

instance (i : Instr) : Decidable i.Legible :=
  decidable_of_iff ((∀ l ∈ i.labelOperand?, '\n' ∉ l.toList) ∧ ∀ x ∈ i.floatOperand?, x.isNaN = false)
    ⟨fun h => ⟨h.1, h.2⟩, fun h => ⟨h.label, h.float⟩⟩

inductive Form
  | plain (i : Instr)
  | named (make : String → Instr)
  | counted (make : UInt32 → Instr)
  | integer (make : Int32 → Instr)
  | float (make : Double → Instr)
  | byte (make : UInt8 → Instr)
  | quoted (make : String → Instr)

def forms : List (String × Form) :=
  [("DLabel", .named .dLabel), ("DataZ", .counted .dataZ), ("DataI", .integer .dataI),
    ("DataF", .float .dataF), ("DataC", .byte .dataC), ("DataS", .quoted .dataS),
    ("Label", .named .label), ("PushI", .integer .pushI), ("PushF", .float .pushF),
    ("PushD", .named .pushD), ("Duplicate", .plain .duplicate), ("Exchange", .plain .exchange),
    ("Pop", .plain .pop), ("LoadC", .plain .loadC), ("LoadI", .plain .loadI),
    ("LoadF", .plain .loadF), ("StoreC", .plain .storeC), ("StoreI", .plain .storeI),
    ("StoreF", .plain .storeF), ("Add", .plain .add), ("Subtract", .plain .subtract),
    ("Multiply", .plain .multiply), ("Divide", .plain .divide), ("Negate", .plain .negate),
    ("FAdd", .plain .fAdd), ("FSubtract", .plain .fSubtract), ("FMultiply", .plain .fMultiply),
    ("FDivide", .plain .fDivide), ("FNegate", .plain .fNegate), ("ConvertF", .plain .convertF),
    ("ConvertI", .plain .convertI), ("BTAnd", .plain .btAnd), ("BTOr", .plain .btOr),
    ("BNegate", .plain .bNegate), ("Jump", .named .jump), ("JumpTrue", .named .jumpTrue),
    ("JumpFalse", .named .jumpFalse), ("JumpPos", .named .jumpPos), ("JumpNeg", .named .jumpNeg),
    ("JumpFZero", .named .jumpFZero), ("JumpFPos", .named .jumpFPos),
    ("JumpFNeg", .named .jumpFNeg), ("Call", .named .call), ("Return", .plain .ret),
    ("Halt", .plain .halt), ("Printf", .plain .printf), ("Memtop", .plain .memtop),
    ("Nop", .plain .nop)]

inductive Form.Makes : Form → Option String → Instr → Prop
  | plain (i : Instr) : Makes (.plain i) none i
  | named (make : String → Instr) (l : String) (hl : '\n' ∉ l.toList) :
      Makes (.named make) (some l) (make l)
  | counted (make : UInt32 → Instr) (n : UInt32) :
      Makes (.counted make) (some (toString n.toNat)) (make n)
  | integer (make : Int32 → Instr) (n : Int32) :
      Makes (.integer make) (some (toString n.toInt)) (make n)
  | float (make : Double → Instr) (x : Double) (hx : x.isNaN = false) :
      Makes (.float make) (some x.text) (make x)
  | byte (make : UInt8 → Instr) (c : UInt8) : Makes (.byte make) (some (toString c.toNat)) (make c)
  | quoted (make : String → Instr) (s : String) :
      Makes (.quoted make) (some ("\"" ++ Text.escape s ++ "\"")) (make s)

variable {i j : Instr}

theorem Form.Makes.unique {form : Form} {o p : Option String} (hi : form.Makes o i)
    (hj : form.Makes p j) (h : o = p) : i = j := by
  cases hi with
  | plain => cases hj; rfl
  | named make l =>
    cases hj
    exact congrArg make (Option.some.inj h)
  | counted make n =>
    cases hj with
    | counted _ m => exact congrArg make (UInt32.toNat_inj.1 (Numeral.nat_injective (Option.some.inj h)))
  | integer make n =>
    cases hj with
    | integer _ m => exact congrArg make (Int32.toInt_inj.1 (Numeral.int_injective (Option.some.inj h)))
  | float make x hx =>
    cases hj with
    | float _ y hy => exact congrArg make (Double.text_injective hx hy (Option.some.inj h))
  | byte make c =>
    cases hj with
    | byte _ d => exact congrArg make (UInt8.toNat_inj.1 (Numeral.nat_injective (Option.some.inj h)))
  | quoted make s =>
    cases hj with
    | quoted _ t =>
      have hquoted := String.append_left_inj _ |>.1 (Option.some.inj h)
      exact congrArg make (Text.escape_injective (String.append_right_inj _ |>.1 hquoted))

theorem lineBreak_notMem_nat (n : ℕ) : '\n' ∉ (toString n).toList := by
  rw [Nat.toString_eq_ofList_toDigits, String.toList_ofList]
  exact Numeral.lineBreak_notMem_digits fun _ => Json.isDigit_of_mem_toDigits

theorem Form.Makes.lineBreak_notMem {form : Form} {o : Option String} (h : form.Makes o i) :
    ∀ t ∈ o, '\n' ∉ t.toList := by
  rintro t ht
  cases h with
  | plain => cases ht
  | named _ _ hl => exact Option.some.inj ht ▸ hl
  | counted _ n => exact Option.some.inj ht ▸ lineBreak_notMem_nat n.toNat
  | integer _ n =>
    rw [← Option.some.inj ht, Numeral.int_toList, List.mem_append, not_or]
    refine ⟨?_, Numeral.lineBreak_notMem_digits fun _ => Json.isDigit_of_mem_toDigits⟩
    split <;> decide
  | float _ x => exact Option.some.inj ht ▸ x.lineBreak_notMem_text
  | byte _ c => exact Option.some.inj ht ▸ lineBreak_notMem_nat c.toNat
  | quoted _ s =>
    have hs := Text.lineBreak_notMem_escape s
    rw [← Option.some.inj ht]
    simp [hs]

theorem exists_form (hi : i.Legible) :
    ∃ form, forms[i.ctorIdx]? = some (i.mnemonic, form) ∧ form.Makes i.operand? i := by
  obtain ⟨hlabel, hfloat⟩ := hi
  cases i <;> refine ⟨_, rfl, ?_⟩ <;> constructor
  -- What is left are the conditions on labels and floats.
  all_goals first | exact hlabel _ rfl | exact hfloat _ rfl

theorem nodup_mnemonics : (forms.map Prod.fst).Nodup := by decide +kernel

theorem eq_of_mnemonic (hi : i.Legible) (hj : j.Legible) (hmnemonic : i.mnemonic = j.mnemonic)
    (hoperand : i.operand? = j.operand?) : i = j := by
  obtain ⟨form, hform, hmakes⟩ := exists_form hi
  obtain ⟨form', hform', hmakes'⟩ := exists_form hj
  have hpair := List.inj_on_of_nodup_map nodup_mnemonics (List.mem_of_getElem? hform)
    (List.mem_of_getElem? hform') hmnemonic
  obtain rfl : form = form' := (Prod.mk.inj hpair).2
  exact hmakes.unique hmakes' hoperand

/-! The text of an instruction. -/

theorem isAlpha_mnemonic (i : Instr) : ∀ c ∈ i.mnemonic.toList, c.isAlpha := by
  cases i <;> simp [mnemonic]

theorem mnemonic_toList_ne_nil (i : Instr) : i.mnemonic.toList ≠ [] := by
  cases i <;> simp [mnemonic]

theorem blank_notMem_mnemonic (i : Instr) : ' ' ∉ i.mnemonic.toList :=
  fun h => absurd (i.isAlpha_mnemonic _ h) (by decide)

def operandText (o : Option String) : List Char :=
  match o with
  | some operand => ' ' :: operand.toList
  | none => []

theorem text_toList (i : Instr) : i.text.toList = i.mnemonic.toList ++ operandText i.operand? := by
  unfold text
  cases i.operand? with
  | none => exact (List.append_nil _).symm
  | some operand =>
    rw [String.toList_append, String.toList_append, List.append_assoc]
    rfl

theorem operandText_injective {o p : Option String} (h : operandText o = operandText p) : o = p := by
  cases o <;> cases p
  · rfl
  · cases h
  · cases h
  · exact congrArg some (String.toList_inj.1 (List.cons.inj h).2)

theorem head?_operandText (o : Option String) : ∀ c ∈ (operandText o).head?, c = ' ' := by
  cases o with
  | none => nofun
  | some operand => exact fun c hc => (Option.some.inj hc).symm

theorem text_injective (hi : i.Legible) (hj : j.Legible) (h : i.text.toList = j.text.toList) :
    i = j := by
  rw [text_toList, text_toList] at h
  obtain ⟨hmnemonic, hoperand⟩ := Text.cut_inj i.blank_notMem_mnemonic j.blank_notMem_mnemonic
    (head?_operandText _) (head?_operandText _) h
  exact eq_of_mnemonic hi hj (String.toList_inj.1 hmnemonic) (operandText_injective hoperand)

theorem lineBreak_notMem_text (hi : i.Legible) : '\n' ∉ i.text.toList := by
  obtain ⟨form, -, hmakes⟩ := exists_form hi
  rw [text_toList, List.mem_append, not_or]
  refine ⟨fun h => absurd (i.isAlpha_mnemonic _ h) (by decide), ?_⟩
  cases hoperand : i.operand? with
  | none => exact List.not_mem_nil
  | some operand =>
    exact List.not_mem_cons_of_ne_of_not_mem (by decide) (hmakes.lineBreak_notMem operand hoperand)

end Instr

namespace Code

variable {i j : Instr} {c d : Code}

theorem line_toList (i : Instr) :
    ∃ blanks, (line i).toList = blanks ++ i.text.toList ∧ ∀ c ∈ blanks, c = ' ' := by
  unfold line
  split
  · exact ⟨[], rfl, nofun⟩
  · exact ⟨[], rfl, nofun⟩
  · exact ⟨"    ".toList, String.toList_append, by simp⟩

theorem dropWhile_line (i : Instr) : (line i).toList.dropWhile (· == ' ') = i.text.toList := by
  obtain ⟨blanks, hline, hblanks⟩ := line_toList i
  obtain ⟨c, cs, heq⟩ := List.exists_cons_of_ne_nil i.mnemonic_toList_ne_nil
  have hc : c ≠ ' ' := fun h => i.blank_notMem_mnemonic (by rw [heq, h]; exact List.mem_cons_self)
  rw [hline, List.dropWhile_append_of_pos fun c hc => by simpa using hblanks c hc,
    Instr.text_toList, heq, List.cons_append, List.dropWhile_cons_of_neg (by simpa using hc)]

theorem line_injective (hi : i.Legible) (hj : j.Legible) (h : (line i).toList = (line j).toList) :
    i = j := by
  have htext := congrArg (List.dropWhile (· == ' ')) h
  rw [dropWhile_line, dropWhile_line] at htext
  exact Instr.text_injective hi hj htext

theorem lineBreak_notMem_line (hi : i.Legible) : '\n' ∉ (line i).toList := by
  obtain ⟨blanks, hline, hblanks⟩ := line_toList i
  rw [hline, List.mem_append, not_or]
  exact ⟨fun h => absurd (hblanks _ h) (by decide), Instr.lineBreak_notMem_text hi⟩

theorem text_cons (i : Instr) (c : Code) :
    (text (i :: c)).toList = (line i).toList ++ '\n' :: (text c).toList := by
  rw [text, List.map_cons, String.join_cons, String.toList_append, String.toList_append,
    List.append_assoc]
  rfl

theorem splitOn_text (hc : ∀ i ∈ c, i.Legible) :
    c.text.toList.splitOn '\n' = c.map (fun i => (line i).toList) ++ [[]] := by
  induction c with
  | nil => rfl
  | cons i c ih =>
    obtain ⟨hi, hc⟩ := List.forall_mem_cons.1 hc
    rw [text_cons, List.splitOn_append_cons_self_of_not_mem (lineBreak_notMem_line hi), ih hc]
    rfl

theorem lines_injective (hc : ∀ i ∈ c, i.Legible) (hd : ∀ i ∈ d, i.Legible)
    (h : c.map (fun i => (line i).toList) = d.map (fun i => (line i).toList)) : c = d := by
  induction c generalizing d with
  | nil => exact (List.map_eq_nil_iff.1 h.symm).symm
  | cons i c ih =>
    cases d with
    | nil => cases h
    | cons j d =>
      obtain ⟨hi, hc⟩ := List.forall_mem_cons.1 hc
      obtain ⟨hj, hd⟩ := List.forall_mem_cons.1 hd
      obtain ⟨hline, hrest⟩ := List.cons.inj h
      rw [line_injective hi hj hline, ih hc hd hrest]

/-- The listing of a code has one line for each instruction, and no two codes share a listing. -/
theorem listing_determines_code (hc : ∀ i ∈ c, i.Legible) (hd : ∀ i ∈ d, i.Legible) :
    c.text.toList.splitOn '\n' = c.map (fun i => (line i).toList) ++ [[]] ∧
      (c.text = d.text ↔ c = d) := by
  refine ⟨splitOn_text hc, fun h => ?_, congrArg text⟩
  have hlines := splitOn_text hc
  rw [h, splitOn_text hd] at hlines
  exact lines_injective hc hd (List.append_cancel_right hlines).symm

/-- A text with a line break and a label that reads like instructions. -/
def breaking : Code :=
  [.dLabel "text", .dataS "\n\"Halt\\", .label "text", .pushF ⟨0x8000000000000000⟩, .jump "Pop  Nop"]

/-- The same with a backslash and a letter in place of the line break. -/
def spelled : Code :=
  [.dLabel "text", .dataS "\\n\"Halt\\", .label "text", .pushF ⟨0⟩, .jump "Pop  Nop"]

theorem listing_determines_code_breaking :
    ((∀ i ∈ breaking, i.Legible) ∧ ∀ i ∈ spelled, i.Legible) ∧
      breaking.text.toList.splitOn '\n' = breaking.map (fun i => (line i).toList) ++ [[]] ∧
      (breaking.text = spelled.text ↔ breaking = spelled) :=
  ⟨⟨by decide +kernel, by decide +kernel⟩,
    listing_determines_code (by decide +kernel) (by decide +kernel)⟩

end Code
end IntervalStack
