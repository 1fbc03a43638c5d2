import IntervalStack.Proofs.Integrity

/-! What the step limit does to a run. Steps are counted before anything else is done in them, so the
limit ends every run; apart from that it plays no part, and a run that ends below one limit ends in
the same way below every larger one. -/

namespace IntervalStack

def Fault.isStepLimit : Fault → Bool
  | .stepLimit _ => true
  | _ => false

namespace Machine

variable {code : Code} {settings : MachineSettings} {m₀ m m' : Machine} {e : Fault}
  {limit limit' n k : Nat} {r : EStateM.Result Fault Machine Unit}

def ended : EStateM.Result Fault Machine Unit → Machine
  | .ok _ m | .error _ m => m

def CutShort (r : EStateM.Result Fault Machine Unit) : Prop :=
  ∃ limit m, r = .error (.stepLimit limit) m

/-- How a run comes to its end: the machine has halted, or the next step is refused, or it is
executed and faults. The number is that of the instructions that are still executed. -/
inductive Stops (limit : Nat) (m : Machine) : Nat → EStateM.Result Fault Machine Unit → Prop
  | halted (h : m.halted = true) : Stops limit m 0 (.ok () m)
  | refused (hrunning : m.halted = false) (h : limit ≤ m.steps) :
      Stops limit m 0 (.error (.stepLimit limit) m)
  | faulted {e : Fault} {m' : Machine} (hrunning : m.halted = false) (h : m.steps < limit)
      (hstep : (step limit).run m = .error e m') : Stops limit m 1 (.error e m')

/-! One step. -/

theorem execute_isStepLimit {pc : Nat} {i : Instr} (h : execute pc i m = .error e m') :
    e.isStepLimit = false := by
  have hfaults : HeapInvariant (fun _ => True) fun e => e.isStepLimit = false := {
    stack := fun _ _ => trivial
    pc := fun _ _ => trivial
    output := fun _ _ => trivial
    halt := fun _ => trivial
    write := fun _ _ => trivial
    answered := fun _ _ _ => trivial
    access := fun _ he => by
      rcases check_error he with rfl | ⟨-, _, -, rfl⟩
      · rfl
      · rfl
    plain := fun {e} he => by
      cases e with
      | stepLimit => cases he
      | _ => rfl
    refused := fun _ _ _ => rfl }
  have hout := hfaults.execute pc (i := i) (fun _ _ _ _ => rfl) (m := m) trivial
  rw [h] at hout
  exact hout.1

theorem step_isStepLimit (hlt : m.steps < limit) (h : (step limit).run m = .error e m') :
    e.isStepLimit = false := by
  rw [step_run m hlt] at h
  split at h
  · cases h
    rfl
  · exact execute_isStepLimit h

theorem step_eq_of_lt (h : m.steps < limit) (h' : m.steps < limit') :
    (step limit').run m = (step limit).run m := by
  rw [step_run m h, step_run m h']

theorem Advances.mono (h : Advances limit n m m') (hle : limit ≤ limit') :
    Advances limit' n m m' := by
  induction h with
  | refl m => exact .refl m
  | step hrunning hstep _ ih =>
    have hlt := lt_of_step hstep
    exact .step hrunning ((step_eq_of_lt hlt (by omega)).trans hstep) ih

theorem Advances.steps_le (h : Advances limit n m m') (hm : m.steps ≤ limit) :
    m'.steps ≤ limit := by
  induction h with
  | refl m => exact hm
  | step _ hstep _ ih =>
    have hlt := lt_of_step hstep
    have hcount := (step_continues hstep).2
    exact ih (by omega)

theorem Stops.mono (h : Stops limit m k r) (hcut : ¬ CutShort r) (hle : limit ≤ limit') :
    Stops limit' m k r := by
  cases h with
  | halted h => exact .halted h
  | refused => exact absurd ⟨limit, m, rfl⟩ hcut
  | faulted hrunning h hstep =>
    exact .faulted hrunning (by omega) ((step_eq_of_lt h (by omega)).trans hstep)

theorem Stops.steps (h : Stops limit m k r) : (ended r).steps = m.steps + k := by
  cases h with
  | halted | refused => rfl
  | faulted _ h hstep =>
    have hcount := steps_stepped h
    rwa [stepped, show step limit m = _ from hstep] at hcount

theorem Stops.le (h : Stops limit m k r) (hm : m.steps ≤ limit) : m.steps + k ≤ limit := by
  cases h with
  | halted | refused => exact hm
  | faulted _ h _ => exact h

theorem Stops.cutShort_iff (h : Stops limit m k r) :
    CutShort r ↔ m.halted = false ∧ limit ≤ m.steps := by
  cases h with
  | halted h => simp [CutShort, h]
  | refused hrunning h => simp [CutShort, hrunning, h]
  | @faulted e m' _ hlt hstep =>
    have hfault := step_isStepLimit hlt hstep
    refine ⟨?_, fun hlimit => absurd hlimit.2 (by omega)⟩
    rintro ⟨k, m₁, heq⟩
    cases heq
    cases hfault

/-! Whole runs. -/

theorem runFor_succ (limit fuel : Nat) (m : Machine) :
    (runFor limit (fuel + 1)).run m = if m.halted then .ok () m else
      match (step limit).run m with
      | .ok _ m' => (runFor limit fuel).run m'
      | .error e m' => .error e m' := by
  simp only [runFor, EStateM.run_bind, EStateM.run_get]
  split
  · rfl
  · rw [EStateM.run_bind]
    cases (step limit).run m <;> rfl

theorem runFor_stops (fuel : Nat) (hfuel : limit - m.steps < fuel) :
    ∃ n k m', Advances limit n m m' ∧ Stops limit m' k ((runFor limit fuel).run m) := by
  induction fuel generalizing m with
  | zero => omega
  | succ fuel ih =>
    rw [runFor_succ]
    split
    · next hhalted => exact ⟨0, 0, m, .refl m, .halted hhalted⟩
    · next hrunning =>
      rw [Bool.not_eq_true] at hrunning
      by_cases hlt : m.steps < limit
      · cases hstep : (step limit).run m with
        | ok _ m₁ =>
          have hcount := (step_continues hstep).2
          obtain ⟨n, k, m', hrun, hstops⟩ := ih (m := m₁) (by omega)
          exact ⟨n + 1, k, m', .step hrunning hstep hrun, hstops⟩
        | error e m₁ => exact ⟨0, 1, m, .refl m, .faulted hrunning hlt hstep⟩
      · rw [show (step limit).run m = _ from step_limited (Nat.not_lt.1 hlt)]
        exact ⟨0, 0, m, .refl m, .refused hrunning (Nat.not_lt.1 hlt)⟩

theorem Stops.runFor (h : Stops limit m k r) (fuel : Nat) :
    (Machine.runFor limit (fuel + 1)).run m = r := by
  rw [runFor_succ]
  cases h with
  | halted h => rw [if_pos h]
  | refused hrunning h =>
    rw [hrunning, if_neg Bool.false_ne_true, show (step limit).run m = _ from step_limited h]
  | faulted hrunning _ hstep => rw [hrunning, if_neg Bool.false_ne_true, hstep]

theorem run_eq_iff (hm : m.steps ≤ limit) :
    (run limit).run m = r ↔ ∃ n k m', Advances limit n m m' ∧ Stops limit m' k r := by
  have hrun : (run limit).run m = (runFor limit (limit - m.steps + 1)).run m := rfl
  rw [hrun]
  constructor
  · rintro rfl
    exact runFor_stops _ (Nat.lt_succ_self _)
  · rintro ⟨n, k, m', hadvances, hstops⟩
    have hcount := hadvances.continues.2
    have hbelow := hadvances.steps_le hm
    rw [show limit - m.steps + 1 = (limit - m'.steps + 1) + n by omega, hadvances.runFor]
    exact hstops.runFor _

theorem run_mono (hm : m.steps ≤ limit) (hle : limit ≤ limit')
    (hcut : ¬ CutShort ((run limit).run m)) : (run limit').run m = (run limit).run m := by
  obtain ⟨n, k, m', hadvances, hstops⟩ := (run_eq_iff hm).1 rfl
  exact (run_eq_iff (by omega)).2 ⟨n, k, m', hadvances.mono hle, hstops.mono hcut hle⟩

theorem executeCode_of_load (hload : load code settings = .ok m) (limit : UInt64) :
    executeCode code { settings with stepLimit := limit } =
      match (run limit.toNat).run m with
      | .ok () m => .ok ⟨m.output, m.steps, m.heap.stats⟩
      | .error e _ => .error e := by
  have hsame : load code { settings with stepLimit := limit } = .ok m := hload
  simp only [executeCode, hsame, bind, Except.bind]
  cases (run limit.toNat).run m <;> rfl

theorem executeCode_mono (hload : load code settings = .ok m) {limit : UInt64}
    (hle : settings.stepLimit ≤ limit) (hcut : ∀ k, executeCode code settings ≠ .error (.stepLimit k)) :
    executeCode code { settings with stepLimit := limit } = executeCode code settings := by
  have hsame := executeCode_of_load hload settings.stepLimit
  have hm := (load_fresh hload).1
  have hrun : ¬ CutShort ((run settings.stepLimit.toNat).run m) := by
    rintro ⟨k, m', heq⟩
    rw [heq] at hsame
    exact hcut k hsame
  rw [executeCode_of_load hload, run_mono (by omega) (UInt64.le_iff_toNat_le.1 hle) hrun]
  exact hsame.symm

/-- A listing that is loaded and run executes as many instructions as it reports, and no more than
the limit; it is cut short if and only if the first `limit` steps go through without a halt; and if
it is not, every larger limit gives the same result in the same state. -/
theorem step_limit_only_cuts_short (hload : load code settings = .ok m₀) (limit : Nat) :
    (∃ n k m, Advances limit n m₀ m ∧ Stops limit m k ((run limit).run m₀) ∧ n + k ≤ limit ∧
      (ended ((run limit).run m₀)).steps = n + k) ∧
    (CutShort ((run limit).run m₀) ↔ ∃ m, Advances limit limit m₀ m ∧ m.halted = false) ∧
    (∀ limit', limit ≤ limit' → ¬ CutShort ((run limit).run m₀) →
      (run limit').run m₀ = (run limit).run m₀) ∧
    ∀ longer, settings.stepLimit ≤ longer → (∀ k, executeCode code settings ≠ .error (.stepLimit k)) →
      executeCode code { settings with stepLimit := longer } = executeCode code settings := by
  have hstart := (load_fresh hload).1
  obtain ⟨n, k, m, hadvances, hstops⟩ := (run_eq_iff (by omega)).1 (rfl : (run limit).run m₀ = _)
  have hcount := hadvances.continues.2
  have hbelow := hadvances.steps_le (by omega)
  refine ⟨⟨n, k, m, hadvances, hstops, ?_, ?_⟩, ?_, fun limit' hle => run_mono (by omega) hle,
    fun longer hle => executeCode_mono hload hle⟩
  · have := hstops.le hbelow
    omega
  · rw [hstops.steps]
    omega
  · constructor
    · intro hcut
      obtain ⟨hrunning, hlimit⟩ := hstops.cutShort_iff.1 hcut
      obtain rfl : n = limit := by omega
      exact ⟨m, hadvances, hrunning⟩
    · -- The state after `limit` steps is the one in which the run has ended.
      rintro ⟨m₁, hadvances₁, hrunning₁⟩
      have hcount₁ := hadvances₁.continues.2
      have hlimit₁ : limit ≤ m₁.steps := by omega
      exact ⟨limit, m₁, (run_eq_iff (by omega)).2
        ⟨limit, 0, m₁, hadvances₁, .refused hrunning₁ hlimit₁⟩⟩

/-- Counts down from three and halts with its fourteenth step. -/
def countdown : Code :=
  [.pushI 3, .label "again", .pushI 1, .subtract, .duplicate, .jumpTrue "again", .halt]

theorem step_limit_only_cuts_short_countdown :
    ∃ m₀, load countdown ⟨64, 16, 14⟩ = .ok m₀ ∧
      (∃ m, Advances 13 13 m₀ m ∧ m.halted = false) ∧
      (¬ ∃ m, Advances 14 14 m₀ m ∧ m.halted = false) ∧
      (ended ((run 14).run m₀)).steps = 14 ∧
      ∀ limit, 14 ≤ limit → (run limit).run m₀ = (run 14).run m₀ := by
  have htest : (load countdown ⟨64, 16, 14⟩).toOption.any (fun m₀ =>
      fault? ((run 13).run m₀) == some (.stepLimit 13) &&
        (completed? ((run 14).run m₀)).any (·.steps == 14)) = true := by decide +kernel
  obtain ⟨m₀, hload, hok⟩ := exists_ok_of_any htest
  simp only [Bool.and_eq_true, beq_iff_eq] at hok
  obtain ⟨hcut, hends⟩ := hok
  obtain ⟨-, hshort, -, -⟩ := step_limit_only_cuts_short hload 13
  obtain ⟨-, hhalts, hlonger, -⟩ := step_limit_only_cuts_short hload 14
  have hrun₁₃ : CutShort ((run 13).run m₀) := ⟨13, exists_error_of_fault hcut⟩
  obtain ⟨m, hm, hsteps⟩ := exists_ok_of_completed hends
  have hrun₁₄ : ¬ CutShort ((run 14).run m₀) := by
    rintro ⟨k, m', heq⟩
    rw [hm] at heq
    cases heq
  refine ⟨m₀, hload, hshort.1 hrun₁₃, fun h => hrun₁₄ (hhalts.2 h), ?_, fun limit hle =>
    hlonger limit hle hrun₁₄⟩
  rw [hm]
  exact beq_iff_eq.1 hsteps

end Machine
end IntervalStack
