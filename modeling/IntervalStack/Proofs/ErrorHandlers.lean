import IntervalStack.Proofs.DataSegment

/-! The handlers of run-time errors. A handler prints a message that was laid out with the program, as
long as its text still stands in memory, and halts the machine. -/

namespace IntervalStack

namespace Machine

def Shows (m : Machine) (label text : String) : Prop :=
  ∃ a, m.image.dataLabel? label = some a ∧ a + (Instr.dataS text).dataSize ≤ m.memory.size ∧
    m.memory.read a (Instr.dataS text).dataSize = (Instr.dataS text).bytes

variable {m m' m₀ : Machine} {c : Code} {settings : MachineSettings} {label text : String}

theorem load_shows (h : load c settings = .ok m)
    (hc : Environment.dataString label text <:+: c) : m.Shows label text := by
  obtain ⟨pre, post, hc⟩ := hc
  have hsplit : c = pre ++ .dLabel label :: .dataS text :: post := by
    rw [← hc]
    simp [Environment.dataString]
  have hlabel := (load_loaded h).dataLabel pre label (.dataS text :: post) hsplit
  have hbehind : c = (pre ++ [.dLabel label]) ++ .dataS text :: post := by
    rw [hsplit, List.append_cons]
  have htext := load_text h hbehind
  rw [Code.dataSize_append, show Code.dataSize [.dLabel label] = 0 from rfl, Nat.add_zero] at htext
  exact ⟨_, hlabel, htext⟩

theorem Shows.readText {a : Nat} (h : m.Shows label text) (ha : m.image.dataLabel? label = some a)
    (hsize : m.memory.size ≤ UInt32.size) (hplain : '\x00' ∉ text.toList) :
    m.readText (Int32.ofNat a).toUInt32 = .ok text := by
  obtain ⟨a', ha', hin, hread⟩ := h
  obtain rfl := Option.some.inj (ha.symm.trans ha')
  exact readText_of_read hin hread hsize hplain

theorem Shows.of_get (h : m.Shows label text) (himage : m'.image = m.image)
    (hsize : m'.memory.size = m.memory.size)
    (hget : ∀ a, m.image.dataLabel? label = some a → ∀ i < (Instr.dataS text).dataSize,
      m'.memory.get (a + i) = m.memory.get (a + i)) : m'.Shows label text := by
  obtain ⟨a, ha, hin, hread⟩ := h
  refine ⟨a, himage ▸ ha, hsize ▸ hin, ?_⟩
  rw [Memory.read_congr (hget a ha), hread]

theorem Reaches.one {i : Instr} (hi : m.image.code[m.pc]? = some i) (hrunning : m.halted = false)
    (he : (execute m.pc i).run { m with steps := m.steps + 1, pc := m.pc + 1 } = .ok () m') :
    Reaches m m' := by
  refine ⟨1, fun limit hlimit => .step hrunning ?_ (.refl _)⟩
  rw [step_run m (by omega), hi]
  exact he

theorem printf_run {pc : Nat} {n : Int32} (rest : List Value) {format : String}
    {pieces : List Piece} (hstack : m.stack = .int n :: rest)
    (hformat : m.readText n.toUInt32 = .ok format) (hparse : Format.parse format = .ok pieces)
    (hcount : Format.argumentCount pieces ≤ rest.length)
    (hrender : Format.render m.readText pieces (rest.take (Format.argumentCount pieces)).reverse
      = .ok text) :
    (printf pc).run m = .ok () { m with
      stack := rest.drop (Format.argumentCount pieces), output := m.output ++ text } := by
  have hread (stack : List Value) : Machine.readText { m with stack } = m.readText := rfl
  simp only [printf, popInt, pop, EStateM.run_bind, EStateM.run_get, EStateM.run_modify,
    EStateM.run_pure, hstack, hread, hformat, hparse, if_neg (Nat.not_lt.2 hcount), hrender]

structure Reports (m m' : Machine) (text : String) : Prop where
  reaches : Reaches m m'
  output : m'.output = m.output ++ ("Runtime error: " ++ text ++ "\n")
  halted : m'.halted = true
  memory : m'.memory = m.memory
  heap : m'.heap = m.heap

theorem Reports.after (h : Reports m' m₀ text) (hreaches : Reaches m m')
    (houtput : m'.output = m.output) (hmemory : m'.memory = m.memory) (hheap : m'.heap = m.heap) :
    Reports m m₀ text :=
  ⟨hreaches.trans h.reaches, houtput ▸ h.output, h.halted, h.memory.trans hmemory,
    h.heap.trans hheap⟩

theorem general_reports {p : Nat} {n : Int32} {rest : List Value}
    (hp : Placed m.image p Environment.errorHandlers) (hrunning : m.halted = false) (hpc : m.pc = p)
    (hstack : m.stack = .int n :: rest) (hsize : m.memory.size ≤ UInt32.size)
    (hformat : m.Shows Environment.errorFormat "Runtime error: %s\n")
    (htext : m.readText n.toUInt32 = .ok text) : ∃ m', Reports m m' text := by
  obtain ⟨a, ha, hat⟩ := hformat
  have hread : m.readText (Int32.ofNat a).toUInt32 = .ok "Runtime error: %s\n" :=
    Shows.readText ⟨a, ha, hat⟩ ha hsize (by decide)
  have hparse : Format.parse "Runtime error: %s\n"
      = .ok [.text "Runtime error: ", .str, .text "\n"] := by cbv
  have hrender : Format.render m.readText [.text "Runtime error: ", .str, .text "\n"] [.int n]
      = .ok ("Runtime error: " ++ text ++ "\n") := by
    simp [Format.render, Format.renderArgument, htext, bind, Except.bind, pure, Except.pure,
      String.append_assoc]
  subst hpc
  let m₁ : Machine := { m with
    steps := m.steps + 1, pc := m.pc + 1, stack := .int (Int32.ofNat a) :: .int n :: rest }
  let m₂ : Machine := { m₁ with
    steps := m.steps + 2, pc := m.pc + 2, stack := rest,
    output := m.output ++ ("Runtime error: " ++ text ++ "\n") }
  let m₃ : Machine := { m₂ with steps := m.steps + 3, pc := m.pc + 3, halted := true }
  have h₁ : Reaches m m₁ := by
    refine .one (hp.code 0 _ rfl) hrunning ?_
    simp only [execute, push, EStateM.run_bind, EStateM.run_get, EStateM.run_modify, ha, hstack]
    rfl
  have h₂ : Reaches m₁ m₂ :=
    .one (hp.code 1 _ rfl) hrunning
      (printf_run (m := { m₁ with steps := m.steps + 2, pc := m.pc + 2 }) (.int n :: rest) rfl hread
        hparse (Nat.le_add_left 1 _) hrender)
  have h₃ : Reaches m₂ m₃ := .one (hp.code 2 _ rfl) hrunning rfl
  exact ⟨m₃, h₁.trans (h₂.trans h₃), rfl, rfl, rfl, rfl⟩

theorem message_reports {p : Nat} (hp : Placed m.image p Environment.errorHandlers)
    (hfirst : m.image.code[m.pc]? = some (.pushD label))
    (hnext : m.image.code[m.pc + 1]? = some (.jump Environment.generalError))
    (hrunning : m.halted = false) (hsize : m.memory.size ≤ UInt32.size)
    (hformat : m.Shows Environment.errorFormat "Runtime error: %s\n") (htext : m.Shows label text)
    (hplain : '\x00' ∉ text.toList) : ∃ m', Reports m m' text := by
  obtain ⟨a, ha, hat⟩ := htext
  have hread := Shows.readText ⟨a, ha, hat⟩ ha hsize hplain
  have hpush : Goes m.image ⟨m.pc, m.stack, m.memory, m.heap⟩
      ⟨m.pc + 1, .int (Int32.ofNat a) :: m.stack, m.memory, m.heap⟩ :=
    .one (.act hfirst (Instr.act_pushD ha))
  obtain ⟨steps, hreaches⟩ := reaches_of_goes hrunning (hpush.trans (.one (.jump hnext hp.head)))
  obtain ⟨m', hm'⟩ := general_reports (m := View.machine ⟨p, _, m.memory, m.heap⟩ m.image m.output steps)
    hp rfl rfl rfl hsize hformat hread
  exact ⟨m', hm'.after hreaches rfl rfl rfl⟩

theorem division_reports {p : Nat} (hp : Placed m.image p Environment.errorHandlers)
    (hpc : m.image.label? Environment.divideByZero = some m.pc) (hrunning : m.halted = false)
    (hsize : m.memory.size ≤ UInt32.size)
    (hformat : m.Shows Environment.errorFormat "Runtime error: %s\n")
    (htext : m.Shows Environment.divideByZeroMessage "division by zero") :
    ∃ m', Reports m m' "division by zero" := by
  have hlabel := hp.label (Environment.errorHandlers.take 4) Environment.divideByZero
    (Environment.errorHandlers.drop 5) rfl
  have hpc : m.pc = p + 3 := Option.some.inj (hpc.symm.trans hlabel)
  exact message_reports hp (hpc ▸ hp.code 3 _ rfl) (hpc ▸ hp.code 4 _ rfl) hrunning hsize hformat htext
    (by decide)

end Machine
end IntervalStack
