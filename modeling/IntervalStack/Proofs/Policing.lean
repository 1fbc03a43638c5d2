import IntervalStack.Proofs.Integrity

/-! Which loads and stores the machine grants. An access that starts in the range of the heap has to
stay in one live block. One that starts in front of the range is taken for an access to the data, and
its last bytes may lie in the heap where nothing is live. -/

namespace IntervalStack

namespace Heap

variable {h : Heap} {b : HeapBlock} {a width : Nat}

theorem mem_of_blockBelow (hb : h.blockBelow? a = some b) : b ∈ h.live ∧ b.start ≤ a := by
  have hmem := List.mem_of_getLast? hb
  have hbelow := List.all_eq_true.1 List.all_takeWhile b hmem
  exact ⟨(List.takeWhile_sublist _).mem hmem, of_decide_eq_true hbelow⟩

theorem Sound.checkAccess_ok_iff (hs : h.Sound) (hin : a + width < UInt32.size) (hw : 0 < width) :
    h.checkAccess a width = .ok () ↔ ∃ b ∈ h.live, b.start ≤ a ∧ a + width ≤ b.stop := by
  unfold checkAccess
  constructor
  · intro hok
    split at hok
    · cases hok
    · next b hb =>
      rw [if_neg (by omega)] at hok
      split at hok
      · next hstop =>
        obtain ⟨hmem, hstart⟩ := mem_of_blockBelow hb
        exact ⟨b, hmem, hstart, hstop⟩
      · cases hok
  · rintro ⟨b, hb, hstart, hstop⟩
    rw [hs.tidy.blockBelow hb hstart (by omega)]
    dsimp only
    rw [if_neg (by omega), if_pos hstop]

end Heap

def Instr.isAccess : Instr → Bool
  | .loadC | .loadI | .loadF | .storeC | .storeI | .storeF => true
  | _ => false

/-- The address that a load or a store finds on the stack and the number of its bytes, if it finds
the operands that it asks for. -/
def Instr.access? : Instr → List Value → Option (Int × Nat)
  | .loadC, .int a :: _ => some (a.toInt, 1)
  | .loadI, .int a :: _ => some (a.toInt, 4)
  | .loadF, .int a :: _ => some (a.toInt, 8)
  | .storeC, .int _ :: .int a :: _ => some (a.toInt, 1)
  | .storeI, .int _ :: .int a :: _ => some (a.toInt, 4)
  | .storeF, .float _ :: .int a :: _ => some (a.toInt, 8)
  | _, _ => none

theorem Instr.width_of_access {i : Instr} {stack : List Value} {a : Int} {w : Nat}
    (h : i.access? stack = some (a, w)) : w = 1 ∨ w = 4 ∨ w = 8 := by
  unfold access? at h
  split at h
  all_goals cases h
  all_goals decide

namespace Machine

variable {m : Machine} {pc w : Nat} {address : Int}

def Grants (m : Machine) (address : Int) (w : Nat) : Prop :=
  0 ≤ address ∧ address + w ≤ m.memory.size ∧
    (m.heap.manages address.toNat →
      ∃ b ∈ m.heap.live, b.start ≤ address.toNat ∧ address.toNat + w ≤ b.stop)

theorem exists_check_iff (hs : m.heap.Sound) (hsize : m.memory.size < UInt32.size) (hw : 0 < w) :
    (∃ p, m.check address w = .ok p) ↔ m.Grants address w := by
  unfold check Grants
  by_cases hin : address < 0 ∨ m.memory.size < address + w
  · rw [if_pos hin]
    constructor
    · rintro ⟨p, hp⟩
      cases hp
    · rintro ⟨hneg, hle, -⟩
      omega
  · rw [if_neg hin]
    have haccess := hs.checkAccess_ok_iff (a := address.toNat) (show _ < UInt32.size by omega) hw
    dsimp only
    by_cases hmanages : m.heap.manages address.toNat
    · rw [if_pos hmanages]
      cases hcheck : m.heap.checkAccess address.toNat w with
      | ok u => exact ⟨fun _ => ⟨by omega, by omega, fun _ => haccess.1 hcheck⟩, fun _ => ⟨_, rfl⟩⟩
      | error e =>
        rw [hcheck] at haccess
        constructor
        · rintro ⟨p, hp⟩
          cases hp
        · rintro ⟨-, -, hlive⟩
          cases haccess.2 (hlive hmanages)
    · rw [if_neg hmanages]
      exact ⟨fun _ => ⟨by omega, by omega, fun h => absurd h hmanages⟩, fun _ => ⟨_, rfl⟩⟩

theorem bind_eq_ok_iff {α β : Type} {a : Exec α} {f : α → Exec β} {r : β} {m' : Machine} :
    (a >>= f) m = .ok r m' ↔ ∃ s m₁, a m = .ok s m₁ ∧ f s m₁ = .ok r m' := by
  show a.bind f m = _ ↔ _
  unfold EStateM.bind
  cases a m with
  | ok s m₁ =>
    constructor
    · intro h
      exact ⟨s, m₁, rfl, h⟩
    · rintro ⟨_, _, h, h'⟩
      cases h
      exact h'
  | error e m₁ =>
    constructor
    · nofun
    · rintro ⟨_, _, h, -⟩
      cases h

theorem popInt_eq_ok_iff {n : Int32} {m' : Machine} :
    popInt pc m = .ok n m' ↔ ∃ st, m.stack = .int n :: st ∧ m' = { m with stack := st } := by
  obtain ⟨image, memory, heap, stack, p, output, steps, halted⟩ := m
  rcases stack with _ | ⟨k | x, stack⟩
  · exact ⟨nofun, nofun⟩
  · show EStateM.Result.ok k _ = _ ↔ _
    simp [eq_comm, and_assoc]
  · exact ⟨nofun, nofun⟩

theorem popFloat_eq_ok_iff {x : Double} {m' : Machine} :
    popFloat pc m = .ok x m' ↔ ∃ st, m.stack = .float x :: st ∧ m' = { m with stack := st } := by
  obtain ⟨image, memory, heap, stack, p, output, steps, halted⟩ := m
  rcases stack with _ | ⟨k | y, stack⟩
  · exact ⟨nofun, nofun⟩
  · exact ⟨nofun, nofun⟩
  · show EStateM.Result.ok y _ = _ ↔ _
    simp [eq_comm, and_assoc]

theorem exists_load_iff (f : List UInt8 → Value) :
    (∃ m', (loadBytes pc w >>= fun bytes => push (f bytes)) m = .ok () m') ↔
      ∃ a st, m.stack = .int a :: st ∧ ∃ p, m.check a.toInt w = .ok p := by
  constructor
  · rintro ⟨m', hm'⟩
    obtain ⟨bytes, m₁, hload, -⟩ := bind_eq_ok_iff.1 hm'
    obtain ⟨a, m₂, hpop, hread⟩ := bind_eq_ok_iff.1 hload
    obtain ⟨st, hst, rfl⟩ := popInt_eq_ok_iff.1 hpop
    refine ⟨a, st, hst, ?_⟩
    rw [get_bind_apply] at hread
    cases hcheck : m.check a.toInt w with
    | ok p => exact ⟨p, rfl⟩
    | error e =>
      have hsame : ({ m with stack := st } : Machine).check a.toInt w = .error e := hcheck
      rw [readBytes, hsame] at hread
      cases hread
  · rintro ⟨a, st, hst, p, hcheck⟩
    have hsame : ({ m with stack := st } : Machine).readBytes a.toInt w = .ok (m.memory.read p w) := by
      have hsame : ({ m with stack := st } : Machine).check a.toInt w = .ok p := hcheck
      rw [readBytes, hsame]
      rfl
    refine ⟨_, bind_eq_ok_iff.2 ⟨m.memory.read p w, { m with stack := st }, ?_, rfl⟩⟩
    refine bind_eq_ok_iff.2 ⟨a, _, popInt_eq_ok_iff.2 ⟨st, hst, rfl⟩, ?_⟩
    rw [get_bind_apply, hsame]
    rfl

theorem exists_store_iff (bytes : List UInt8) :
    (∃ m', storeBytes pc bytes m = .ok () m') ↔
      ∃ a st, m.stack = .int a :: st ∧ ∃ p, m.check a.toInt bytes.length = .ok p := by
  constructor
  · rintro ⟨m', hm'⟩
    obtain ⟨a, m₂, hpop, hstore⟩ := bind_eq_ok_iff.1 hm'
    obtain ⟨st, hst, rfl⟩ := popInt_eq_ok_iff.1 hpop
    refine ⟨a, st, hst, ?_⟩
    rw [get_bind_apply] at hstore
    cases hcheck : m.check a.toInt bytes.length with
    | ok p => exact ⟨p, rfl⟩
    | error e =>
      have hsame : ({ m with stack := st } : Machine).check a.toInt bytes.length = .error e := hcheck
      rw [hsame] at hstore
      cases hstore
  · rintro ⟨a, st, hst, p, hcheck⟩
    have hsame : ({ m with stack := st } : Machine).check a.toInt bytes.length = .ok p := hcheck
    refine ⟨{ m with stack := st, memory := m.memory.write p bytes },
      bind_eq_ok_iff.2 ⟨a, _, popInt_eq_ok_iff.2 ⟨st, hst, rfl⟩, ?_⟩⟩
    rw [get_bind_apply, hsame]
    rfl

theorem exists_bind_iff {α : Type} {a : Exec α} {f : α → Exec Unit} :
    (∃ m', (a >>= f) m = .ok () m') ↔ ∃ s m₁, a m = .ok s m₁ ∧ ∃ m', f s m₁ = .ok () m' := by
  simp only [bind_eq_ok_iff]
  constructor
  · rintro ⟨m', s, m₁, ha, hf⟩
    exact ⟨s, m₁, ha, m', hf⟩
  · rintro ⟨s, m₁, ha, m', hf⟩
    exact ⟨m', s, m₁, ha, hf⟩

theorem exists_execute_iff {i : Instr} (hi : i.isAccess = true) :
    (∃ m', execute pc i m = .ok () m') ↔
      ∃ a w, i.access? m.stack = some (a, w) ∧ ∃ p, m.check a w = .ok p := by
  have hcheck (st : List Value) : ({ m with stack := st } : Machine).check = m.check := rfl
  cases i with
  | loadC | loadI | loadF =>
    refine (exists_load_iff _).trans ?_
    rcases hst : m.stack with _ | ⟨a | x, st⟩
    · simp [Instr.access?]
    · simp [Instr.access?, and_assoc]
    · simp [Instr.access?]
  | storeC | storeI =>
    refine exists_bind_iff.trans ?_
    simp only [popInt_eq_ok_iff]
    rcases hst : m.stack with _ | ⟨n | x, _ | ⟨a | y, st⟩⟩
    all_goals
      simp [Instr.access?, exists_store_iff, LittleEndian.length_encode, hcheck, and_assoc]
  | storeF =>
    refine exists_bind_iff.trans ?_
    simp only [popFloat_eq_ok_iff]
    rcases hst : m.stack with _ | ⟨n | x, _ | ⟨a | y, st⟩⟩
    all_goals
      simp [Instr.access?, exists_store_iff, LittleEndian.length_encode, hcheck, and_assoc]
  | _ => cases hi

/-- In the range of the heap an access goes through where one live block has all its bytes, and
elsewhere wherever they lie in memory. Of its bytes that belong to the heap, all are live then, but
for an access that starts in front of the heap; such a one is not aligned. -/
theorem access_granted_iff {code : Code} {settings : MachineSettings} {m₀ m : Machine} {n : Nat}
    (hload : load code settings = .ok m₀) (hm : m = after settings.stepLimit.toNat n m₀)
    (hsteps : m.steps < settings.stepLimit.toNat) {i : Instr}
    (hi : m.image.code[m.pc]? = some i) (haccess : i.isAccess = true) :
    ((∃ m', step settings.stepLimit.toNat m = .ok () m') ↔
      ∃ a w, i.access? m.stack = some (a, w) ∧ m.Grants a w) ∧
    ∀ m' a w, step settings.stepLimit.toNat m = .ok () m' → i.access? m.stack = some (a, w) →
      ∀ x : Nat, a ≤ x → x < a + w → m.heap.manages x →
        (∃ b ∈ m.heap.live, b.start ≤ x ∧ x < b.stop) ∨ a < m.heap.base ∧ ¬ (w : Int) ∣ a := by
  have hloaded := load_loaded hload
  have hsmall : m₀.memory.size < UInt32.size := by
    rw [hloaded.size]
    exact settings.memorySize.toNat_lt
  have hintact : Intact m₀ m := by
    rw [hm]
    exact after_intact hsmall (hloaded.intact (load_fresh hload).2) settings.stepLimit.toNat n
  have hbase : m.heap.base = (code.dataSize + 7) / 8 * 8 := by
    rw [hintact.heap.base_eq, hloaded.heap]
    rfl
  have hstep : step settings.stepLimit.toNat m
      = execute m.pc i { m with steps := m.steps + 1, pc := m.pc + 1 } := by
    have hrun : step settings.stepLimit.toNat m = _ := step_run m hsteps
    rw [hrun, hi]
    rfl
  have hiff : (∃ m', step settings.stepLimit.toNat m = .ok () m') ↔
      ∃ a w, i.access? m.stack = some (a, w) ∧ m.Grants a w := by
    rw [hstep, exists_execute_iff haccess]
    refine exists_congr fun a => exists_congr fun w => and_congr_right fun hfound => ?_
    have hwidth := Instr.width_of_access hfound
    exact exists_check_iff hintact.heap.sound (hintact.size ▸ hsmall) (by omega)
  refine ⟨hiff, fun m' a w hok hfound x hle hlt hmanages => ?_⟩
  obtain ⟨a', w', hfound', hnonneg, -, hlive⟩ := hiff.1 ⟨m', hok⟩
  rw [hfound] at hfound'
  cases hfound'
  have hwidth := Instr.width_of_access hfound
  rw [Heap.manages_iff] at hmanages
  -- The range starts at a multiple of eight, which no aligned access reaches across.
  by_cases hfront : a < m.heap.base
  · refine .inr ⟨hfront, fun hdvd => ?_⟩
    rcases hwidth with rfl | rfl | rfl
    all_goals omega
  · obtain ⟨b, hb, hstart, hstop⟩ := hlive (Heap.manages_iff.2 (by omega))
    exact .inl ⟨b, hb, by omega, by omega⟩

/-- Eight bytes of data; behind them a record is allocated and given back, and then a word is stored
that has two bytes in front of the heap and two in the record. -/
def straddling : Code :=
  [.dLabel "x", .dataZ 8, .pushI 4, .call Environment.allocateEntry,
    .call Environment.deallocateEntry, .pushI 6, .pushI (-1), .storeI, .halt]

theorem access_granted_iff_straddling :
    ∃ m₀ m, load straddling ⟨64, 32, 1000⟩ = .ok m₀ ∧ m = after 1000 5 m₀ ∧ m.steps < 1000 ∧
      m.image.code[m.pc]? = some .storeI ∧ Instr.storeI.access? m.stack = some (6, 4) ∧
      ((∃ m', step 1000 m = .ok () m') ↔
        ∃ a w, Instr.storeI.access? m.stack = some (a, w) ∧ m.Grants a w) := by
  have htest : (load straddling ⟨64, 32, 1000⟩).toOption.any (fun m₀ =>
      decide ((after 1000 5 m₀).steps < 1000) &&
        (after 1000 5 m₀).image.code[(after 1000 5 m₀).pc]? == some .storeI &&
        Instr.storeI.access? (after 1000 5 m₀).stack == some (6, 4)) = true := by decide +kernel
  obtain ⟨m₀, h, hok⟩ := exists_ok_of_any htest
  simp only [Bool.and_eq_true, beq_iff_eq, decide_eq_true_eq] at hok
  obtain ⟨⟨hsteps, hcode⟩, haccess⟩ := hok
  generalize hm : after 1000 5 m₀ = m at hsteps hcode haccess
  have hgranted := (access_granted_iff h (show m = after (1000 : UInt64).toNat 5 m₀ from hm.symm)
    hsteps hcode rfl).1
  exact ⟨m₀, m, h, hm.symm, hsteps, hcode, haccess, hgranted⟩

/-- Bytes of the heap can be overwritten while no block is live. -/
theorem dead_bytes_overwritten :
    ∃ m₀ m', load straddling ⟨64, 32, 1000⟩ = .ok m₀ ∧ (after 1000 5 m₀).heap.live = [] ∧
      Instr.storeI.access? (after 1000 5 m₀).stack = some (6, 4) ∧
      (after 1000 5 m₀).heap.manages 8 ∧ step 1000 (after 1000 5 m₀) = .ok () m' ∧
      (after 1000 5 m₀).memory.get 8 = 0 ∧ m'.memory.get 8 = 255 := by
  have htest : (load straddling ⟨64, 32, 1000⟩).toOption.any (fun m₀ =>
      (after 1000 5 m₀).heap.live == [] &&
        Instr.storeI.access? (after 1000 5 m₀).stack == some (6, 4) &&
        (after 1000 5 m₀).heap.manages 8 && (after 1000 5 m₀).memory.get 8 == 0 &&
        (completed? (step 1000 (after 1000 5 m₀))).any (·.memory.get 8 == 255)) = true := by
    decide +kernel
  obtain ⟨m₀, h, hok⟩ := exists_ok_of_any htest
  simp only [Bool.and_eq_true, beq_iff_eq] at hok
  generalize hm : after 1000 5 m₀ = m at hok
  obtain ⟨⟨⟨⟨hlive, haccess⟩, hmanages⟩, hzero⟩, hstore⟩ := hok
  obtain ⟨m', hr, hbyte⟩ := exists_ok_of_completed hstore
  refine ⟨m₀, m', h, ?_⟩
  rw [hm]
  exact ⟨hlive, haccess, hmanages, hr, hzero, beq_iff_eq.1 hbyte⟩

end Machine
end IntervalStack
