import IntervalStack.Proofs.Integrity

/-! What holds behind every instruction of a run, and not only at its end. A view is safe for a number
of steps if the memory and the heap have a property there and behind each of so many instructions,
until one of them faults or the run gets to where it is not looked at any longer. -/

namespace IntervalStack

variable {image : Image} {I : Memory → Heap → Prop} {Q : View → Prop} {n p : Nat} {v v' : View}
  {i : Instr} {stack stack' : List Value} {memory memory' : Memory} {heap heap' : Heap}

/-- The property `I` is kept for `n` steps, unless a view in `Q` comes first. A fault changes nothing
in memory. -/
def Safe (image : Image) (I : Memory → Heap → Prop) (Q : View → Prop) : Nat → View → Prop
  | 0, v => I v.memory v.heap
  | n + 1, v => I v.memory v.heap ∧ (Q v ∨ ∀ output steps limit,
      match (Machine.step limit).run (v.machine image output steps) with
      | .ok () m' => ∃ v', m' = View.machine v' image output (steps + 1) ∧ Safe image I Q n v'
      | .error _ m' => m'.memory = v.memory)

namespace Safe

theorem holds (h : Safe image I Q n v) : I v.memory v.heap := by
  cases n with
  | zero => exact h
  | succ n => exact h.1

theorem stop (h : I v.memory v.heap) (hq : Q v) : Safe image I Q n v := by
  cases n with
  | zero => exact h
  | succ n => exact ⟨h, .inl hq⟩

theorem pred (h : Safe image I Q (n + 1) v) : Safe image I Q n v := by
  induction n generalizing v with
  | zero => exact h.1
  | succ n ih =>
    refine ⟨h.1, h.2.imp_right fun hstep output steps limit => ?_⟩
    have hnext := hstep output steps limit
    split at hnext
    · obtain ⟨v', hm, hsafe⟩ := hnext
      exact ⟨v', hm, ih hsafe⟩
    · exact hnext

theorem of_execute (h : I v.memory v.heap) (hi : image.code[v.pc]? = some i)
    (hexecute : ∀ output steps,
      match (Machine.execute v.pc i).run
        (View.machine { v with pc := v.pc + 1 } image output steps) with
      | .ok () m' => ∃ v', m' = View.machine v' image output steps ∧ Safe image I Q n v'
      | .error _ m' => m'.memory = v.memory) : Safe image I Q (n + 1) v := by
  refine ⟨h, .inr fun output steps limit => ?_⟩
  by_cases hlimit : steps < limit
  · have hrun : (Machine.step limit).run (v.machine image output steps) = (Machine.execute v.pc i).run
        (View.machine { v with pc := v.pc + 1 } image output (steps + 1)) := by
      rw [Machine.step_run _ hlimit]
      simp only [View.machine, hi]
    rw [hrun]
    exact hexecute output (steps + 1)
  · rw [show (Machine.step limit).run (v.machine image output steps) = _ from
      Machine.step_limited (Nat.not_lt.1 hlimit)]
    rfl

theorem next (h : I v.memory v.heap) (hstep : View.Step image v v') (hnext : Safe image I Q n v') :
    Safe image I Q (n + 1) v := by
  obtain ⟨i, hi, hexecute⟩ := hstep
  refine of_execute h hi fun output steps => ?_
  rw [hexecute]
  exact ⟨v', rfl, hnext⟩

theorem step (h : I v.memory v.heap) (hstep : View.Step image v v') (hnext : Safe image I Q n v') :
    Safe image I Q n v := (next h hstep hnext).pred

theorem load {a : Int32} (h : I memory heap) (hi : image.code[p]? = some .loadI)
    (hnext : Safe image I Q n ⟨p + 1, .int (memory.word a.toInt.toNat) :: stack, memory, heap⟩) :
    Safe image I Q n ⟨p, .int a :: stack, memory, heap⟩ := by
  by_cases hgrants : heap.grants memory.size a.toInt
  · exact .step h (.act hi (if_pos hgrants)) hnext
  · refine (of_execute h hi fun output steps => ?_).pred
    cases hcheck : (View.machine ⟨p + 1, stack, memory, heap⟩ image output steps).check a.toInt 4 with
    | ok b => exact absurd (grants_of_check hcheck) hgrants
    | error e =>
      simp only [Machine.execute, Machine.loadBytes, Machine.popInt, Machine.pop, View.machine,
        EStateM.run_bind, EStateM.run_get, EStateM.run_modify, EStateM.run_pure,
        Machine.readBytes] at hcheck ⊢
      simp only [hcheck, bind, Except.bind]
      rfl

theorem store {a x : Int32} (h : I memory heap) (hi : image.code[p]? = some .storeI)
    (hnext : heap.grants memory.size a.toInt → Safe image I Q n
      ⟨p + 1, stack, memory.setWord a.toInt.toNat x, heap⟩) :
    Safe image I Q n ⟨p, .int x :: .int a :: stack, memory, heap⟩ := by
  by_cases hgrants : heap.grants memory.size a.toInt
  · exact .step h (.act hi (if_pos hgrants)) (hnext hgrants)
  · refine (of_execute h hi fun output steps => ?_).pred
    cases hcheck : (View.machine ⟨p + 1, stack, memory, heap⟩ image output steps).check a.toInt 4 with
    | ok b => exact absurd (grants_of_check hcheck) hgrants
    | error e =>
      have hlen : (LittleEndian.encode 4 x.toUInt32.toNat).length = 4 := rfl
      simp only [Machine.execute, Machine.storeBytes, Machine.popInt, Machine.pop, View.machine,
        EStateM.run_bind, EStateM.run_get, EStateM.run_modify, EStateM.run_pure, hlen] at hcheck ⊢
      simp only [hcheck]
      rfl

theorem deallocate {a : Int32} (h : I memory heap)
    (hi : image.code[p]? = some (.call Environment.deallocateEntry))
    (hl : image.label? Environment.deallocateEntry = none)
    (hnext : ∀ heap', heap.deallocate a.toUInt32.toNat = .ok heap' →
      Safe image I Q n ⟨p + 1, stack, memory, heap'⟩) :
    Safe image I Q n ⟨p, .int a :: stack, memory, heap⟩ := by
  cases hd : heap.deallocate a.toUInt32.toNat with
  | ok heap' => exact .step h (.deallocate hi hl hd) (hnext heap' hd)
  | error e =>
    refine (of_execute h hi fun output steps => ?_).pred
    have hhost : image.callsHost Environment.deallocateEntry = true := by
      rw [Image.callsHost, hl]
      decide
    have hother : (Environment.deallocateEntry == Environment.allocateEntry) = false := by decide
    simp only [Machine.execute, Machine.call, Machine.deallocate, Machine.popInt, Machine.pop,
      View.machine, EStateM.run_bind, EStateM.run_get, EStateM.run_modify, EStateM.run_pure, hhost,
      if_true, hother, Bool.false_eq_true, if_false, hd]
    rfl

theorem straight {d : Code} (hd : ∀ k i, d[k]? = some i → image.code[p + k]? = some i)
    (hstore : .storeI ∉ d.dropLast) (h : I memory heap)
    (hact : d.act image heap memory stack = some (stack', memory'))
    (hnext : Safe image I Q n ⟨p + d.length, stack', memory', heap⟩) :
    Safe image I Q n ⟨p, stack, memory, heap⟩ := by
  induction d generalizing p stack memory with
  | nil =>
    cases hact
    exact hnext
  | cons i d ih =>
    obtain ⟨⟨stack₁, memory₁⟩, hi, hact'⟩ := Option.bind_eq_some_iff.1 hact
    have hshift : p + (i :: d).length = p + 1 + d.length := by
      rw [List.length_cons]
      omega
    rw [hshift] at hnext
    have hrest : ∀ k j, d[k]? = some j → image.code[p + 1 + k]? = some j := by
      intro k j hk
      rw [Nat.add_assoc, Nat.add_comm 1]
      exact hd (k + 1) j hk
    refine .step h (.act (hd 0 i rfl) hi) ?_
    cases d with
    | nil =>
      cases hact'
      exact hnext
    | cons j d =>
      rw [List.dropLast_cons_cons, List.mem_cons, not_or] at hstore
      obtain rfl : memory₁ = memory := Instr.memory_of_act (Ne.symm hstore.1) hi
      exact ih hrest hstore.2 h hact' hnext

theorem act {c d : Code} (hc : Placed image p c) (k : Nat) (hd : d <+: c.executable.drop k)
    (hstore : .storeI ∉ d.dropLast) (h : I memory heap)
    (hact : d.act image heap memory stack = some (stack', memory'))
    (hnext : Safe image I Q n ⟨p + k + d.length, stack', memory', heap⟩) :
    Safe image I Q n ⟨p + k, stack, memory, heap⟩ := straight (hc.stretch k hd) hstore h hact hnext

/-- A machine that is safe for any number of steps is so behind a step, and a fault does no harm. -/
theorem stepped (output : String) (steps limit : Nat) (h : ∀ n, Safe image I Q n v) (hq : ¬ Q v) :
    (∃ v', (Machine.step limit).run (v.machine image output steps)
        = .ok () (v'.machine image output (steps + 1)) ∧ ∀ n, Safe image I Q n v') ∨
      ∃ e m', (Machine.step limit).run (v.machine image output steps) = .error e m' ∧
        m'.memory = v.memory := by
  have hstep := fun n => (h (n + 1)).2.resolve_left hq output steps limit
  cases hr : (Machine.step limit).run (v.machine image output steps) with
  | error e m' =>
    have hmemory := hstep 0
    rw [hr] at hmemory
    exact .inr ⟨e, m', rfl, hmemory⟩
  | ok _ m' =>
    rw [hr] at hstep
    obtain ⟨v', rfl, -⟩ := hstep 0
    refine .inl ⟨v', rfl, fun n => ?_⟩
    obtain ⟨v'', hv, hsafe⟩ := hstep n
    cases v'
    cases v''
    cases hv
    exact hsafe

end Safe
end IntervalStack
