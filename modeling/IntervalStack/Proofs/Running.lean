import IntervalStack.Proofs.Actions

/-! Runs of the machine as a whole: what every step keeps, and the states that it gets to if the
number of steps is not limited. -/

namespace IntervalStack

theorem Machine.Loaded.placed {c c' pre post : Code} {settings : MachineSettings} {m : Machine}
    (h : Loaded c settings m) (hc : c = pre ++ c' ++ post) :
    Placed m.image (Code.executable pre).length c' := by
  refine ⟨fun k i hk => ?_, fun pre' l post' hc' => ?_⟩
  · rw [← Array.getElem?_toList, h.code, hc, Code.executable_append, Code.executable_append,
      List.append_assoc, List.getElem?_append_right (by omega), Nat.add_sub_cancel_left,
      List.getElem?_append_left (List.getElem?_eq_some_iff.1 hk).1, hk]
  · rw [h.label (pre ++ pre') l (post' ++ post) (by simp [hc, hc']), Code.executable_append,
      List.length_append]

namespace Machine

/-- A machine in any state that has the listing of the first one. -/
structure Continues (m₀ m : Machine) : Prop where
  image : m.image = m₀.image
  size : m.memory.size = m₀.memory.size
  base : m.heap.base = m₀.heap.base
  limit : m.heap.limit = m₀.heap.limit

variable {α : Type} {m m₁ m' : Machine} {limit n : Nat}

theorem Continues.refl (m : Machine) : Continues m m := ⟨rfl, rfl, rfl, rfl⟩

theorem Continues.trans (h : Continues m m₁) (h' : Continues m₁ m') : Continues m m' :=
  ⟨h'.image.trans h.image, h'.size.trans h.size, h'.base.trans h.base, h'.limit.trans h.limit⟩

/-- An action keeps the listing, the extent of the memory and of the heap, and the number of steps,
also where it faults. -/
def Steady (a : Exec α) : Prop :=
  ∀ m, match a m with
    | .ok _ m' | .error _ m' => Continues m m' ∧ m'.steps = m.steps

theorem execute_steady (pc : Nat) (i : Instr) : Steady (execute pc i) := by
  intro m
  have hsteady :
      HeapInvariant (fun m' => Continues m m' ∧ m'.steps = m.steps) fun _ => True := {
    stack := fun hm _ => ⟨hm.1.trans ⟨rfl, rfl, rfl, rfl⟩, hm.2⟩
    pc := fun hm _ => ⟨hm.1.trans ⟨rfl, rfl, rfl, rfl⟩, hm.2⟩
    output := fun hm _ => ⟨hm.1.trans ⟨rfl, rfl, rfl, rfl⟩, hm.2⟩
    halt := fun hm => ⟨hm.1.trans ⟨rfl, rfl, rfl, rfl⟩, hm.2⟩
    write := fun hm _ => ⟨hm.1.trans ⟨rfl, Memory.size_write _ _ _, rfl, rfl⟩, hm.2⟩
    answered := fun hm _ hanswer =>
      ⟨hm.1.trans ⟨rfl, rfl, (Heap.answer_range hanswer).1, (Heap.answer_range hanswer).2⟩, hm.2⟩
    access := fun _ _ => trivial
    plain := fun _ => trivial
    refused := fun _ _ _ => trivial }
  have h := hsteady.execute pc (i := i) (fun _ _ _ _ => trivial) ⟨.refl m, rfl⟩
  cases hr : execute pc i m with
  | ok _ m' =>
    rw [hr] at h
    exact h
  | error e m' =>
    rw [hr] at h
    exact h.2

theorem step_run (m : Machine) (h : m.steps < limit) :
    (step limit).run m = match m.image.code[m.pc]? with
      | none => .error .ranOffEnd { m with steps := m.steps + 1 }
      | some i => (execute m.pc i).run { m with steps := m.steps + 1, pc := m.pc + 1 } := by
  have hlt : ¬ limit ≤ m.steps := by omega
  cases hi : m.image.code[m.pc]? with
  | none =>
    simp only [step, EStateM.run_bind, EStateM.run_get, hlt, if_false, EStateM.run_modify, hi]
    rfl
  | some i =>
    simp only [step, EStateM.run_bind, EStateM.run_get, hlt, if_false, EStateM.run_modify, hi]

theorem lt_of_step (h : (step limit).run m = .ok () m') : m.steps < limit := by
  by_cases hlt : m.steps < limit
  · exact hlt
  · have hle : limit ≤ m.steps := by omega
    simp only [step, EStateM.run_bind, EStateM.run_get, hle, if_true] at h
    cases h

theorem step_continues (h : (step limit).run m = .ok () m') :
    Continues m m' ∧ m'.steps = m.steps + 1 := by
  rw [step_run m (lt_of_step h)] at h
  split at h
  · cases h
  · next i _ =>
    have hsteady := execute_steady m.pc i { m with steps := m.steps + 1, pc := m.pc + 1 }
    rw [show execute m.pc i _ = .ok () m' from h] at hsteady
    exact ⟨⟨hsteady.1.image, hsteady.1.size, hsteady.1.base, hsteady.1.limit⟩, hsteady.2⟩

theorem Advances.continues (h : Advances limit n m m') :
    Continues m m' ∧ m'.steps = m.steps + n := by
  induction h with
  | refl m => exact ⟨.refl m, rfl⟩
  | step _ hstep _ ih =>
    have hfirst := step_continues hstep
    exact ⟨hfirst.1.trans ih.1, by omega⟩

/-- Given enough steps, the machine gets from one state to the other without a fault. -/
def Reaches (m m' : Machine) : Prop :=
  ∃ n, ∀ limit, m.steps + n ≤ limit → Advances limit n m m'

theorem Reaches.continues (h : Reaches m m') : Continues m m' := by
  obtain ⟨n, h⟩ := h
  exact (h _ (Nat.le_refl _)).continues.1

theorem Reaches.refl (m : Machine) : Reaches m m := ⟨0, fun _ _ => .refl m⟩

theorem Reaches.trans (h : Reaches m m₁) (h' : Reaches m₁ m') : Reaches m m' := by
  obtain ⟨n, h⟩ := h
  obtain ⟨n', h'⟩ := h'
  have hsteps := (h _ (Nat.le_refl _)).continues.2
  exact ⟨n + n', fun limit hlimit => (h limit (by omega)).trans (h' limit (by omega))⟩

/-- A limit that a run has not come up to plays no part in it. -/
def view (m : Machine) : View := ⟨m.pc, m.stack, m.memory, m.heap⟩

theorem machine_view (h : m.halted = false) : m.view.machine m.image m.output m.steps = m := by
  rw [View.machine, ← h]
  rfl

theorem reaches_of_goes {v : View} (hrunning : m.halted = false) (h : Goes m.image m.view v) :
    ∃ steps, Reaches m (v.machine m.image m.output steps) := by
  obtain ⟨n, h⟩ := h
  refine ⟨m.steps + n, n, fun limit hlimit => ?_⟩
  have hrun := h m.output m.steps limit hlimit
  rwa [machine_view hrunning] at hrun

/-! Straight stretches of code, instruction by instruction. -/

def Before (m : Machine) (block : Code) : Prop :=
  ∀ k i, block[k]? = some i → m.image.code[m.pc + k]? = some i

inductive Performs (W : Nat → Prop) : Code → Machine → Machine → Prop
  | nil (m : Machine) : Performs W [] m m
  | cons {i : Instr} {c : Code} {m m₁ m' : Machine} (hi : m.image.code[m.pc]? = some i)
      (hrunning : m.halted = false)
      (hstep : ∀ limit, m.steps < limit → (step limit).run m = .ok () m₁)
      (hwrites : ∀ a < 0x100000000, ¬ W a → m₁.memory.get a = m.memory.get a)
      (hrest : Performs W c m₁ m') : Performs W (i :: c) m m'

variable {W : Nat → Prop} {c c' : Code}

theorem Performs.append (h : Performs W c m m₁) (h' : Performs W c' m₁ m') :
    Performs W (c ++ c') m m' := by
  induction h with
  | nil => exact h'
  | cons hi hrunning hstep hwrites _ ih => exact .cons hi hrunning hstep hwrites (ih h')

theorem Performs.reaches (h : Performs W c m m') : Reaches m m' := by
  induction h with
  | nil m => exact .refl m
  | cons _ hrunning hstep _ _ ih =>
    exact .trans ⟨1, fun limit hlimit => .step hrunning (hstep limit (by omega)) (.refl _)⟩ ih

theorem Performs.get (h : Performs W c m m') {a : Nat} (ha : a < 0x100000000) (hout : ¬ W a) :
    m'.memory.get a = m.memory.get a := by
  induction h with
  | nil => rfl
  | cons _ _ _ hwrites _ ih => rw [ih, hwrites a ha hout]

end Machine
end IntervalStack
