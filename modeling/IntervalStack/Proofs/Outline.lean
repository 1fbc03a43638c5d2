import IntervalStack.Generator.Program

/-! Listings with their parts marked. An outline is a listing in which stretches of code are named
after the piece of the program that they are the code of; erasing the names gives the listing. -/

namespace IntervalStack

inductive Part
  | expr (e : Expr) (shape : Shape)
  | record (e : Expr)
  | stmt (scopes : List Scope) (s : Stmt)
  /-- The release of a reference at the end of its scope or on the way out of it. -/
  | release (b : Binding)
  | main
  | routine (spec : Generator.RoutineSpec)
  | epilogue (result : Ty)

inductive Outline
  | nil
  | instr (i : Instr) (rest : Outline)
  | part (p : Part) (body rest : Outline)

namespace Outline

def append : Outline → Outline → Outline
  | .nil, o => o
  | .instr i rest, o => .instr i (rest.append o)
  | .part p body rest, o => .part p body (rest.append o)

instance : Append Outline := ⟨append⟩

def plain : Code → Outline
  | [] => .nil
  | i :: c => .instr i (plain c)

def wrap (p : Part) (body : Outline) : Outline := .part p body .nil

def code : Outline → Code
  | .nil => []
  | .instr i rest => i :: rest.code
  | .part _ body rest => body.code ++ rest.code

def spans (pos : Nat) : Outline → List (Part × Nat × Code)
  | .nil => []
  | .instr _ rest => rest.spans (pos + 1)
  | .part p body rest =>
    (if body.code.isEmpty then [] else [(p, pos, body.code)]) ++ body.spans pos
      ++ rest.spans (pos + body.code.length)

@[simp] theorem nil_append (o : Outline) : Outline.nil ++ o = o := rfl

@[simp] theorem instr_append (i : Instr) (rest o : Outline) :
    Outline.instr i rest ++ o = .instr i (rest ++ o) := rfl

@[simp] theorem part_append (p : Part) (body rest o : Outline) :
    Outline.part p body rest ++ o = .part p body (rest ++ o) := rfl

@[simp] theorem append_nil (o : Outline) : o ++ Outline.nil = o := by
  induction o with
  | nil => rfl
  | instr i rest ih => rw [instr_append, ih]
  | part p body rest _ ih => rw [part_append, ih]

theorem append_assoc (o₁ o₂ o₃ : Outline) : o₁ ++ o₂ ++ o₃ = o₁ ++ (o₂ ++ o₃) := by
  induction o₁ with
  | nil => rfl
  | instr i rest ih => simp only [instr_append, ih]
  | part p body rest _ ih => simp only [part_append, ih]

@[simp] theorem plain_nil : plain [] = .nil := rfl

@[simp] theorem plain_cons (i : Instr) (c : Code) : plain (i :: c) = .instr i (plain c) := rfl

theorem plain_append (c c' : Code) : plain (c ++ c') = plain c ++ plain c' := by
  induction c with
  | nil => rfl
  | cons i c ih => rw [List.cons_append, plain_cons, ih, plain_cons, instr_append]

@[simp] theorem code_nil : code .nil = [] := rfl

@[simp] theorem code_instr (i : Instr) (rest : Outline) :
    code (.instr i rest) = i :: rest.code := rfl

@[simp] theorem code_part (p : Part) (body rest : Outline) :
    code (.part p body rest) = body.code ++ rest.code := rfl

@[simp] theorem code_wrap (p : Part) (body : Outline) : (wrap p body).code = body.code :=
  List.append_nil _

@[simp] theorem code_append (o₁ o₂ : Outline) : (o₁ ++ o₂).code = o₁.code ++ o₂.code := by
  induction o₁ with
  | nil => rfl
  | instr i rest ih => simp only [instr_append, code_instr, ih, List.cons_append]
  | part p body rest _ ih => simp only [part_append, code_part, ih, List.append_assoc]

@[simp] theorem code_plain (c : Code) : (plain c).code = c := by
  induction c with
  | nil => rfl
  | cons i c ih => simp only [plain_cons, code_instr, ih]

theorem spans_append (o₁ o₂ : Outline) (pos : Nat) :
    (o₁ ++ o₂).spans pos = o₁.spans pos ++ o₂.spans (pos + o₁.code.length) := by
  induction o₁ generalizing pos with
  | nil => rfl
  | instr i rest ih =>
    rw [instr_append, spans, ih, spans, code_instr, List.length_cons]
    congr 2
    omega
  | part p body rest _ ih =>
    rw [part_append, spans, ih, spans, code_part, List.length_append, Nat.add_assoc]
    simp

@[simp] theorem spans_plain (c : Code) (pos : Nat) : (plain c).spans pos = [] := by
  induction c generalizing pos with
  | nil => rfl
  | cons i c ih => rw [plain_cons, spans, ih]

theorem mem_spans_part {p p' : Part} {body rest : Outline} {pos a : Nat} {c : Code} :
    (p', a, c) ∈ (Outline.part p body rest).spans pos ↔
      (body.code ≠ [] ∧ p' = p ∧ a = pos ∧ c = body.code) ∨ (p', a, c) ∈ body.spans pos ∨
        (p', a, c) ∈ rest.spans (pos + body.code.length) := by
  cases h : body.code with
  | nil => simp [spans, h]
  | cons i d => simp [spans, h]

theorem spans_bounds {o : Outline} {pos a : Nat} {p : Part} {c : Code}
    (h : (p, a, c) ∈ o.spans pos) : pos ≤ a ∧ a + c.length ≤ pos + o.code.length := by
  induction o generalizing pos with
  | nil => cases h
  | instr i rest ih =>
    obtain ⟨ha, hc⟩ := ih h
    rw [code_instr, List.length_cons]
    omega
  | part p' body rest ih₁ ih₂ =>
    rw [code_part, List.length_append]
    rcases mem_spans_part.1 h with ⟨-, rfl, rfl, rfl⟩ | h | h
    · omega
    · obtain ⟨ha, hc⟩ := ih₁ h
      omega
    · obtain ⟨ha, hc⟩ := ih₂ h
      omega

theorem spans_code {o : Outline} {pos a : Nat} {p : Part} {c : Code}
    (h : (p, a, c) ∈ o.spans pos) : c <+: o.code.drop (a - pos) := by
  induction o generalizing pos with
  | nil => cases h
  | instr i rest ih =>
    have hrest : (p, a, c) ∈ rest.spans (pos + 1) := h
    have ha := (spans_bounds hrest).1
    rw [code_instr, show a - pos = (a - (pos + 1)) + 1 by omega, List.drop_succ_cons]
    exact ih hrest
  | part p' body rest ih₁ ih₂ =>
    rw [code_part]
    rcases mem_spans_part.1 h with ⟨-, rfl, rfl, rfl⟩ | h | h
    · rw [Nat.sub_self]
      exact List.prefix_append _ _
    · refine (ih₁ h).trans ?_
      rw [List.drop_append]
      exact List.prefix_append _ _
    · have ha := (spans_bounds h).1
      rw [List.drop_append, List.drop_eq_nil_of_le (by omega), List.nil_append, Nat.sub_sub]
      exact ih₂ h

theorem getElem?_of_mem_spans {o : Outline} {a q : Nat} {p : Part} {d : Code}
    (h : (p, a, d) ∈ o.spans 0) (hq : q < d.length) : o.code[a + q]? = d[q]? := by
  obtain ⟨rest, hrest⟩ := spans_code h
  rw [← List.getElem?_drop, show o.code.drop a = d ++ rest from hrest.symm,
    List.getElem?_append_left hq]

end Outline
end IntervalStack
