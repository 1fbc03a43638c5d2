import IntervalStack.Proofs.ErrorHandlers
import IntervalStack.Proofs.Frames.Operands
import IntervalStack.Proofs.HeapBlocks
import IntervalStack.Proofs.StmtEmission

/-! Code that prints. It reads the memory, and changes neither the memory nor the heap. -/

namespace IntervalStack

theorem Heap.Tidy.check {m : Machine} {b : HeapBlock} {a w : Nat} (ht : m.heap.Tidy)
    (hb : b ∈ m.heap.live) (hstart : b.start ≤ a) (hstop : a + w ≤ b.stop) (hw : 0 < w)
    (hlow : b.stop ≤ 0x80000000) (hsize : m.heap.limit ≤ m.memory.size) :
    m.check (Int32.ofNat a).toInt w = .ok a := by
  have hin := ht.inside b hb
  have hword : UInt32.size = 0x100000000 := rfl
  have haccess : m.heap.checkAccess a w = .ok () := by
    rw [checkAccess, ht.blockBelow hb hstart (by omega)]
    dsimp only
    rw [if_neg (by omega), if_pos hstop]
  rw [Word.toInt_ofNat (by omega), Machine.check, if_neg (by omega), Int.toNat_natCast]
  simp only [haccess, ite_self]

theorem Placed.call {image : Image} {p : Nat} {l : String}
    (h : image.code[p]? = some (.call l)) : Placed image p [.call l] := by
  refine ⟨fun k i hk => ?_, fun pre l' post hc => ?_⟩
  · cases k with
    | zero =>
      cases hk
      exact h
    | succ k => cases hk
  · cases pre with
    | nil => cases hc
    | cons _ pre => cases pre <;> cases hc

namespace Machine

variable {m : Machine} {c c' : Code} {i : Instr} {p q r : Nat} {n : Int32}
  {st st₁ st' : List Value} {label text text' format : String} {pieces : List Piece}

/-- With its memory and its heap as they are, the machine gets from one place in the code, with a
stack, to another one without a fault, and prints the text on its way. -/
def Prints (m : Machine) (text : String) (p : Nat) (st : List Value) (q : Nat) (st' : List Value) :
    Prop :=
  ∃ n, ∀ output steps limit, steps + n ≤ limit →
    Advances limit n (View.machine ⟨p, st, m.memory, m.heap⟩ m.image output steps)
      (View.machine ⟨q, st', m.memory, m.heap⟩ m.image (output ++ text) (steps + n))

theorem Prints.of_goes
    (h : Goes m.image ⟨p, st, m.memory, m.heap⟩ ⟨q, st', m.memory, m.heap⟩) :
    m.Prints "" p st q st' := by
  obtain ⟨n, h⟩ := h
  refine ⟨n, fun output steps limit hlimit => ?_⟩
  rw [String.append_empty]
  exact h output steps limit hlimit

theorem Prints.trans (h : m.Prints text p st q st₁) (h' : m.Prints text' q st₁ r st') :
    m.Prints (text ++ text') p st r st' := by
  obtain ⟨n, h⟩ := h
  obtain ⟨n', h'⟩ := h'
  refine ⟨n + n', fun output steps limit hlimit => ?_⟩
  rw [← Nat.add_assoc, ← String.append_assoc]
  exact (h output steps limit (by omega)).trans (h' (output ++ text) (steps + n) limit (by omega))

theorem Prints.after (h : m.Prints text q st₁ r st')
    (hg : Goes m.image ⟨p, st, m.memory, m.heap⟩ ⟨q, st₁, m.memory, m.heap⟩) :
    m.Prints text p st r st' := by
  simpa using (Prints.of_goes hg).trans h

theorem Prints.next (h : m.Prints text p st q st₁)
    (hg : Goes m.image ⟨q, st₁, m.memory, m.heap⟩ ⟨r, st', m.memory, m.heap⟩) :
    m.Prints text p st r st' := by
  simpa using h.trans (Prints.of_goes hg)

/-- One formatted output; its arguments lie under the address of the format, the last one on top. -/
theorem Prints.formatted (hi : m.image.code[p]? = some .printf)
    (hformat : m.readText n.toUInt32 = .ok format) (hparse : Format.parse format = .ok pieces)
    {args : List Value} (hargs : Format.argumentCount pieces = args.length)
    (hrender : Format.render m.readText pieces args.reverse = .ok text) :
    m.Prints text p (.int n :: (args ++ st)) (p + 1) st := by
  refine ⟨1, fun output steps limit hlimit => ?_⟩
  have hcount : Format.argumentCount pieces ≤ (args ++ st).length := by
    rw [hargs, List.length_append]
    omega
  have htaken : Format.render m.readText pieces
      ((args ++ st).take (Format.argumentCount pieces)).reverse = .ok text := by
    rw [hargs, List.take_left]
    exact hrender
  have hrun : (printf p).run (View.machine ⟨p + 1, .int n :: (args ++ st), m.memory, m.heap⟩
      m.image output (steps + 1)) = .ok () _ :=
    printf_run (args ++ st) rfl hformat hparse hcount htaken
  rw [hargs, List.drop_left] at hrun
  have hlt : ¬ limit ≤ steps := by omega
  refine .step rfl ?_ (.refl _)
  simp only [step, View.machine, EStateM.run_bind, EStateM.run_get, hlt, if_false,
    EStateM.run_modify, hi]
  exact hrun

theorem reaches_of_prints (hrunning : m.halted = false) (h : m.Prints text m.pc m.stack q st') :
    ∃ steps, Reaches m { m with pc := q, stack := st', output := m.output ++ text, steps } := by
  obtain ⟨n, h⟩ := h
  refine ⟨m.steps + n, n, fun limit hlimit => ?_⟩
  have hrun := h m.output m.steps limit hlimit
  rw [show View.machine ⟨m.pc, m.stack, m.memory, m.heap⟩ m.image m.output m.steps = m from
    machine_view hrunning] at hrun
  rwa [View.machine, ← hrunning] at hrun

/-! Pieces of code, wherever they stand. -/

def Writes (m : Machine) (c : Code) (st : List Value) (text : String) (st' : List Value) : Prop :=
  ∀ p, Placed m.image p c → m.Prints text p st (p + c.executable.length) st'

theorem Writes.append (h : m.Writes c st text st₁) (h' : m.Writes c' st₁ text' st') :
    m.Writes (c ++ c') st (text ++ text') st' := by
  intro p hp
  rw [Code.executable_append, List.length_append, ← Nat.add_assoc]
  exact (h p hp.left).trans (h' _ hp.right)

theorem Writes.quiet
    (h : Code.act m.image m.heap m.memory c.executable st = some (st', m.memory)) :
    m.Writes c st "" st' :=
  fun _ hp => .of_goes (.straight hp.code h)

theorem Writes.load {ty : Ty} {a : Nat} (hi : Instr.load? ty = some i)
    (ha : m.check n.toInt ty.size.toNat = .ok a) :
    m.Writes [i] (.int n :: st) "" (m.memory.operands ty a ++ st) := by
  intro p hp
  have hone : Code.executable [i] = [i] := by cases ty <;> cases hi <;> rfl
  have hcode := hp.code 0
  rw [hone] at hcode ⊢
  exact .of_goes (.one ⟨i, hcode i rfl, fun output steps => execute_load (m := View.machine
    ⟨p + 1, .int n :: st, m.memory, m.heap⟩ m.image output steps) hi rfl ha⟩)

/-! The texts that printing needs. -/

/-- The formats, the words and the signs that values are printed with, and where they stand. -/
def printTexts : List (String × String) :=
  [(Environment.integerFormat, "%d"), (Environment.floatFormat, "%g"),
    (Environment.characterFormat, "%c"), (Environment.stringFormat, "%s"),
    (Environment.trueString, "true"), (Environment.falseString, "false"),
    (Environment.openBracketString, "["), (Environment.closeBracketString, "]"),
    (Environment.separatorString, ", ")]

/-- The texts still stand in a memory that is not larger than what addresses reach. -/
structure Legible (m : Machine) : Prop where
  size : m.memory.size ≤ UInt32.size
  shows : ∀ t ∈ printTexts, m.Shows t.1 t.2

theorem printTexts_plain : ∀ t ∈ printTexts, '\x00' ∉ t.2.toList := by decide

theorem Legible.readText (h : m.Legible) (ht : (label, text) ∈ printTexts) :
    ∃ a, m.image.dataLabel? label = some a ∧ m.readText (Int32.ofNat a).toUInt32 = .ok text := by
  have hshows := h.shows _ ht
  obtain ⟨a, ha, -⟩ := id hshows
  exact ⟨a, ha, hshows.readText ha h.size (printTexts_plain _ ht)⟩

theorem Legible.writes (h : m.Legible) (ht : (label, format) ∈ printTexts)
    (hparse : Format.parse format = .ok pieces) (args : List Value)
    (hargs : Format.argumentCount pieces = args.length)
    (hrender : Format.render m.readText pieces args.reverse = .ok text) :
    m.Writes (Environment.printString label) (args ++ st) text st := by
  intro p hp
  obtain ⟨a, ha, hread⟩ := h.readText ht
  exact (Prints.formatted (hp.code 1 _ rfl) hread hparse hargs hrender).after
    (.one (.act (hp.code 0 _ rfl) (Instr.act_pushD ha)))

theorem Legible.writes_sign (h : m.Legible) (ht : (label, text) ∈ printTexts)
    (hparse : Format.parse text = .ok [.text text]) :
    m.Writes (Environment.printString label) st text st := by
  refine h.writes ht hparse [] rfl ?_
  simp [Format.render, bind, Except.bind, pure, Except.pure]

theorem Legible.writes_argument (h : m.Legible) {piece : Piece} (ht : (label, format) ∈ printTexts)
    (hparse : Format.parse format = .ok [piece]) (hpiece : piece.takesArgument = true) {v : Value}
    (hrender : Format.renderArgument m.readText piece v = .ok text) :
    m.Writes (Environment.printString label) (v :: st) text st := by
  refine h.writes ht hparse [v] ?_ ?_
  · simp [Format.argumentCount, hpiece]
  · cases piece with
    | text => cases hpiece
    | _ => simp [Format.render, hrender, bind, Except.bind, pure, Except.pure]

end Machine
end IntervalStack
