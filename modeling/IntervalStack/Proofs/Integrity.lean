import IntervalStack.Proofs.Running

/-! Machines that run any listing at all, sensible or not. No sum leaves its word, no byte outside of
the memory is read or written, and the blocks of the heap keep tiling its range, however many steps
are taken and however many of them fault. -/

namespace IntervalStack

/-- Whether a fault stands for a computation that left its word. -/
def Fault.isOverflow : Fault → Bool
  | .overflow _ | .heap (.overflow _) => true
  | _ => false

theorem Fault.isOverflow_of_isPlain {e : Fault} (h : e.isPlain = true) : e.isOverflow = false := by
  cases e <;> first | rfl | cases h

namespace Memory

variable {m m' : Memory} {a n : Nat} {bytes : List UInt8}

/-- Nothing has been written behind the end of the memory. -/
def Blank (m : Memory) : Prop := ∀ a, m.size ≤ a → a < UInt32.size → m.get a = 0

theorem Blank.write (h : m.Blank) (hin : a + bytes.length ≤ m.size) (hsize : m.size ≤ UInt32.size) :
    (m.write a bytes).Blank := by
  intro b hb hlt
  rw [size_write] at hb
  rw [get_write_of_outside bytes (by omega) hlt (by omega), h b hb hlt]

theorem Blank.setWords (h : m.Blank) (hsize : m.size ≤ UInt32.size) (ws : List (Nat × Int32))
    (hin : ∀ w ∈ ws, w.1 + 4 ≤ m.size) : (ws.foldl (fun m w => m.setWord w.1 w.2) m).Blank := by
  induction ws generalizing m with
  | nil => exact h
  | cons w ws ih =>
    have hsame : (m.setWord w.1 w.2).size = m.size := size_setWord
    refine ih (h.write (hin w List.mem_cons_self) hsize) (hsame ▸ hsize) fun w' hw' => ?_
    rw [hsame]
    exact hin w' (List.mem_cons_of_mem _ hw')

theorem get_write_congr (h : ∀ b < n, m'.get b = m.get b) (hin : a + bytes.length ≤ n)
    (hn : n ≤ UInt32.size) : ∀ b < n, (m'.write a bytes).get b = (m.write a bytes).get b := by
  induction bytes generalizing m m' a with
  | nil => exact h
  | cons v bytes ih =>
    rw [List.length_cons] at hin
    apply ih
    · intro b hb
      rw [get_set m' v (by omega) (by omega), get_set m v (by omega) (by omega), h b hb]
    · omega

theorem readText_congr (h : ∀ b, a ≤ b → b < a + n → m'.get b = m.get b) :
    m'.readText a n = m.readText a n := by
  induction n generalizing a with
  | zero => rfl
  | succ n ih =>
    have hfirst : m'.get a = m.get a := h a (Nat.le_refl a) (by omega)
    have hrest : m'.readText (a + 1) n = m.readText (a + 1) n :=
      ih fun b hb hlt => h b (by omega) (by omega)
    rw [readText, readText, hfirst, hrest]

end Memory

/-! Loading. -/

namespace Loading

variable {l l' : Loading} {c : Code} {i : Instr} {e : Fault}

structure Fits (l : Loading) : Prop where
  cursor : l.cursor ≤ l.memory.size
  size : l.memory.size ≤ UInt32.size
  blank : l.memory.Blank

theorem length_bytes_le (i : Instr) : i.bytes.length ≤ i.dataSize := by
  cases i with
  | dataZ n => exact Nat.zero_le _
  | _ => exact Nat.le_refl _

theorem Fits.data (h : l.Fits) (hd : l.data i = .ok l') : l'.Fits := by
  unfold Loading.data at hd
  split at hd
  · cases hd
  · next hroom =>
    obtain rfl := Except.ok.inj hd
    have hlength := length_bytes_le i
    have hsize := h.size
    refine ⟨?_, ?_, h.blank.write (by omega) hsize⟩
    · show l.cursor + i.dataSize ≤ (l.memory.write l.cursor i.bytes).size
      rw [Memory.size_write]
      omega
    · rwa [Memory.size_write]

theorem Fits.place (h : l.Fits) (hp : l.place i = .ok l') : l'.Fits := by
  cases i with
  | label name | dLabel name =>
    simp only [Loading.place] at hp
    split at hp
    · cases hp
    · obtain rfl := Except.ok.inj hp
      exact ⟨h.cursor, h.size, h.blank⟩
  | dataZ | dataI | dataF | dataC | dataS => exact h.data hp
  | _ =>
    obtain rfl := Except.ok.inj hp
    exact ⟨h.cursor, h.size, h.blank⟩

theorem Fits.placeAll (h : l.Fits) (hp : l.placeAll c = .ok l') : l'.Fits := by
  induction c generalizing l with
  | nil =>
    obtain rfl := Except.ok.inj hp
    exact h
  | cons i c ih =>
    simp only [Loading.placeAll, bind, Except.bind] at hp
    split at hp
    · cases hp
    · next l₁ h₁ => exact ih (h.place h₁) hp

theorem data_error (h : l.data i = .error e) : e.isOverflow = false := by
  unfold data at h
  split at h
  · obtain rfl := Except.error.inj h
    rfl
  · cases h

theorem place_error (h : l.place i = .error e) : e.isOverflow = false := by
  cases i with
  | label name | dLabel name =>
    simp only [place] at h
    split at h
    · obtain rfl := Except.error.inj h
      rfl
    · cases h
  | dataZ | dataI | dataF | dataC | dataS => exact data_error h
  | _ => cases h

theorem placeAll_error (h : l.placeAll c = .error e) : e.isOverflow = false := by
  induction c generalizing l with
  | nil => cases h
  | cons i c ih =>
    simp only [placeAll, bind, Except.bind] at h
    split at h
    · next he =>
      obtain rfl := Except.error.inj h
      exact place_error he
    · exact ih h

end Loading

namespace Machine

variable {code : Code} {settings : MachineSettings} {m₀ m m' : Machine} {e : Fault} {limit n : Nat}

theorem fits_start (settings : MachineSettings) :
    (Loading.start settings.memorySize.toNat).Fits :=
  ⟨Nat.zero_le _, Nat.le_of_lt settings.memorySize.toNat_lt, fun a _ _ => ByteTree.get_zeros _ a⟩

theorem load_fresh (h : load code settings = .ok m) : m.steps = 0 ∧ m.memory.Blank := by
  obtain ⟨l, hl, -, -, rfl⟩ := load_ok h
  exact ⟨rfl, ((fits_start settings).placeAll hl).blank⟩

theorem load_error (hsize : settings.memorySize.toNat ≤ 2 ^ 32 - 8)
    (h : load code settings = .error e) : e.isOverflow = false := by
  simp only [load, bind, Except.bind, throw, throwThe, MonadExceptOf.throw, pure, Except.pure] at h
  split at h
  · next he =>
    obtain rfl := Except.error.inj h
    exact Loading.placeAll_error he
  · next l hl =>
    have hcursor := ((fits_start settings).placeAll hl).cursor
    have hext : l.memory.size = settings.memorySize.toNat := (Loading.placeAll_extends hl).size
    split at h
    · obtain rfl := Except.error.inj h
      rfl
    · split at h
      · next hover =>
        simp only [UInt32.size] at hover
        omega
      · split at h
        · obtain rfl := Except.error.inj h
          rfl
        · cases h

/-! Steps. -/

structure Intact (m₀ m : Machine) : Prop where
  image : m.image = m₀.image
  size : m.memory.size = m₀.memory.size
  heap : Heap.Kept m₀.heap.base m₀.heap.limit m.heap
  blank : m.memory.Blank

theorem Intact.machine_view (h : Intact m₀ m) (hrunning : m.halted = false) :
    m.view.machine m₀.image m.output m.steps = m := by
  rw [← h.image, Machine.machine_view hrunning]

inductive Alike (m : Machine) : Machine → Prop
  | intro {memory : Memory} (hsize : memory.size = m.memory.size)
      (hbytes : ∀ a < m.memory.size, memory.get a = m.memory.get a) : Alike m { m with memory }

theorem Alike.refl (m : Machine) : Alike m m := .intro rfl fun _ _ => rfl

theorem Alike.check (h : Alike m m') : m'.check = m.check := by
  obtain ⟨hsize, -⟩ := h
  funext address width
  simp only [Machine.check, hsize]

theorem Alike.readBytes (h : Alike m m') : m'.readBytes = m.readBytes := by
  funext address width
  rw [Machine.readBytes, Machine.readBytes, h.check]
  cases hcheck : m.check address width with
  | error e => rfl
  | ok a =>
    obtain ⟨-, hin⟩ := check_ok hcheck
    obtain ⟨hsize, hbytes⟩ := h
    show Except.ok _ = Except.ok _
    rw [Memory.read_congr fun i hi => hbytes (a + i) (by omega)]

theorem Alike.readText (h : Alike m m') : m'.readText = m.readText := by
  funext address
  obtain ⟨hsize, hbytes⟩ := h
  simp only [Machine.readText, hsize]
  by_cases hin : m.memory.size < address.toNat
  · rw [if_pos hin, if_pos hin]
  · rw [if_neg hin, if_neg hin, Memory.readText_congr fun b _ hb => hbytes b (by omega)]

end Machine

namespace Heap

variable {h h' : Heap} {call : HeapCall} {e : HeapError} {a width : Nat}

theorem checkAccess_error (hin : a + width < UInt32.size) (he : h.checkAccess a width = .error e) :
    (Fault.heap e).isOverflow = false := by
  unfold checkAccess at he
  split at he
  · obtain rfl := Except.error.inj he
    rfl
  · rw [if_neg (by omega)] at he
    split at he
    · cases he
    · obtain rfl := Except.error.inj he
      rfl

theorem answer_error (hsmall : call.IsSmall) (he : h.answer call = .error e) :
    (Fault.heap e).isOverflow = false := by
  cases call with
  | allocate size =>
    have hrounded : rounded size < UInt32.size := rounded_lt hsmall
    simp only [answer, allocate, if_neg (Nat.not_le.2 hrounded)] at he
    split at he
    · obtain rfl := Except.error.inj he
      rfl
    · cases he
  | deallocate address =>
    simp only [answer, deallocate] at he
    split at he
    · obtain rfl := Except.error.inj he
      rfl
    · cases he

theorem next_of_answer (ha : h.answer call = .ok h') : h.next call = h' := by rw [next, ha]

end Heap

namespace Machine

variable {code : Code} {settings : MachineSettings} {m₀ m m' : Machine} {e : Fault} {limit n : Nat}

/-- An instruction keeps the machine intact, and it does not notice what stands behind the end of
the memory. -/
theorem intact_alike (hsize : m₀.memory.size < UInt32.size) :
    HeapSimulation (fun m m' => Intact m₀ m ∧ Alike m m') fun e => e.isOverflow = false where
  stack_eq := fun ⟨_, ⟨_, _⟩⟩ => rfl
  image_eq := fun ⟨_, ⟨_, _⟩⟩ => rfl
  heap_eq := fun ⟨_, ⟨_, _⟩⟩ => rfl
  size_eq := fun ⟨_, ⟨hsize, _⟩⟩ => hsize
  check_eq := fun hm => hm.2.check
  readBytes_eq := fun hm => hm.2.readBytes
  readText_eq := fun hm => hm.2.readText
  stack := fun ⟨⟨hi, hs, hh, hb⟩, ⟨hsize, hbytes⟩⟩ _ => ⟨⟨hi, hs, hh, hb⟩, .intro hsize hbytes⟩
  pc := fun ⟨⟨hi, hs, hh, hb⟩, ⟨hsize, hbytes⟩⟩ _ => ⟨⟨hi, hs, hh, hb⟩, .intro hsize hbytes⟩
  output := fun ⟨⟨hi, hs, hh, hb⟩, ⟨hsize, hbytes⟩⟩ _ => ⟨⟨hi, hs, hh, hb⟩, .intro hsize hbytes⟩
  halt := fun ⟨⟨hi, hs, hh, hb⟩, ⟨hsize, hbytes⟩⟩ => ⟨⟨hi, hs, hh, hb⟩, .intro hsize hbytes⟩
  write := by
    rintro m _ a bytes ⟨⟨hi, hs, hh, hb⟩, ⟨hsize', hbytes⟩⟩ hin
    refine ⟨⟨hi, (Memory.size_write _ _ _).trans hs, hh, hb.write hin (by omega)⟩, .intro ?_ ?_⟩
    · rw [Memory.size_write, Memory.size_write, hsize']
    · rw [Memory.size_write]
      exact Memory.get_write_congr hbytes hin (by omega)
  access := by
    rintro m _ address width e ⟨hm, -⟩ he
    rcases check_error he with rfl | ⟨hin, e', he', rfl⟩
    · rfl
    · have hsame := hm.size
      exact Heap.checkAccess_error (by omega) he'
  plain := Fault.isOverflow_of_isPlain
  answered := by
    rintro m _ call heap ⟨⟨hi, hs, hh, hb⟩, ⟨hsize, hbytes⟩⟩ - hanswer
    exact ⟨⟨hi, hs, Heap.next_of_answer hanswer ▸ hh.next, hb⟩, .intro hsize hbytes⟩
  refused := fun _ hsmall he => Heap.answer_error hsmall he

theorem step_intact (hsize : m₀.memory.size < UInt32.size) (limit : Nat) :
    Relates (fun m m' => Intact m₀ m ∧ Alike m m') (fun e => e.isOverflow = false) (step limit)
      (step limit) := by
  -- A step looks at the count, the program counter and the listing before it executes anything.
  refine .get_bind fun m m' hm => ?_
  have hsteps : m'.steps = m.steps := by
    obtain ⟨-, ⟨-, -⟩⟩ := hm
    rfl
  rw [hsteps]
  split
  · exact .throw rfl
  · refine .bind (.modify ?_) fun _ => .get_bind fun m m' hm => .get_bind fun m₁ m₁' hm₁ => ?_
    · rintro m _ ⟨⟨hi, hs, hh, hb⟩, ⟨hsize, hbytes⟩⟩
      exact ⟨⟨hi, hs, hh, hb⟩, .intro hsize hbytes⟩
    · have hpc : m'.pc = m.pc := by
        obtain ⟨-, ⟨-, -⟩⟩ := hm
        rfl
      rw [hpc, (intact_alike hsize).image_eq hm₁]
      split
      · exact .throw rfl
      · exact .bind (.modify fun _ _ hm => (intact_alike hsize).pc hm _) fun _ =>
          (intact_alike hsize).execute fun _ _ _ _ _ => rfl

theorem step_limited (h : limit ≤ m.steps) : step limit m = .error (.stepLimit limit) m := by
  show (step limit).run m = _
  simp only [step, EStateM.run_bind, EStateM.run_get, if_pos h]
  rfl

theorem step_asks (limit : Nat) (m : Machine) : Asks m.heap (step limit m) := by
  by_cases hlimit : m.steps < limit
  · show Asks m.heap ((step limit).run m)
    rw [step_run m hlimit]
    split
    · rfl
    · exact execute_asks { m with steps := m.steps + 1, pc := m.pc + 1 } m.pc _
  · rw [step_limited (Nat.not_lt.1 hlimit)]
    rfl

/-- The state behind a step, also behind one that faults. -/
def stepped (limit : Nat) (m : Machine) : Machine :=
  match step limit m with
  | .ok _ m' | .error _ m' => m'

/-- The state behind `n` steps; faults do not keep anyone from asking for the next one. -/
def after (limit : Nat) : Nat → Machine → Machine
  | 0, m => m
  | n + 1, m => after limit n (m.stepped limit)

theorem Intact.stepped (h : Intact m₀ m) (hsize : m₀.memory.size < UInt32.size) (limit : Nat) :
    Intact m₀ (m.stepped limit) := by
  have hstep := step_intact hsize limit m m ⟨h, .refl m⟩
  unfold Machine.stepped
  cases hr : step limit m with
  | ok _ m' =>
    rw [hr] at hstep
    exact hstep.2.1
  | error e m' =>
    rw [hr] at hstep
    exact hstep.2.2.1

theorem stepped_limited (h : limit ≤ m.steps) : m.stepped limit = m := by
  rw [stepped, step_limited h]

theorem steps_stepped (h : m.steps < limit) : (m.stepped limit).steps = m.steps + 1 := by
  have hrun : step limit m = _ := step_run m h
  rw [stepped, hrun]
  cases hi : m.image.code[m.pc]? with
  | none => rfl
  | some i =>
    have hsteady := execute_steady m.pc i { m with steps := m.steps + 1, pc := m.pc + 1 }
    show (match execute m.pc i { m with steps := m.steps + 1, pc := m.pc + 1 } with
      | .ok _ m' | .error _ m' => m').steps = m.steps + 1
    cases hr : execute m.pc i { m with steps := m.steps + 1, pc := m.pc + 1 } with
    | ok _ m' | error _ m' =>
      rw [hr] at hsteady
      exact hsteady.2

theorem allocations_stepped (limit : Nat) (m : Machine) :
    (m.stepped limit).heap.stats.allocations ≤ m.heap.stats.allocations + 1 := by
  have hasks := step_asks limit m
  unfold stepped
  cases hr : step limit m with
  | error e m' =>
    rw [hr] at hasks
    have hsame : m'.heap = m.heap := hasks
    rw [hsame]
    exact Nat.le_succ _
  | ok _ m' =>
    rw [hr] at hasks
    rcases hasks with heq | ⟨call, -, hanswer⟩
    · rw [heq]
      exact Nat.le_succ _
    · rw [← Heap.next_of_answer hanswer]
      exact Heap.allocations_next m.heap call

theorem after_intact (hsize : m₀.memory.size < UInt32.size) (h : Intact m₀ m) (limit n : Nat) :
    Intact m₀ (after limit n m) := by
  induction n generalizing m with
  | zero => exact h
  | succ n ih => exact ih (h.stepped hsize limit)

theorem Reaches.intact (hsize : m₀.memory.size < UInt32.size) (h : Reaches m m')
    (hm : Intact m₀ m) : Intact m₀ m' := by
  obtain ⟨n, h⟩ := h
  generalize hlimit : m.steps + n = limit at h
  have hrun := h limit (Nat.le_refl _)
  clear h hlimit
  induction hrun with
  | refl _ => exact hm
  | step _ hstep _ ih =>
    have hnext := hm.stepped hsize limit
    rw [Machine.stepped, show step limit _ = _ from hstep] at hnext
    exact ih hnext

theorem after_steps (hsteps : m.steps ≤ limit) (hcalls : m.heap.stats.allocations ≤ m.steps)
    (n : Nat) : (after limit n m).steps ≤ limit ∧
      (after limit n m).heap.stats.allocations ≤ (after limit n m).steps := by
  induction n generalizing m with
  | zero => exact ⟨hsteps, hcalls⟩
  | succ n ih =>
    by_cases hlimit : m.steps < limit
    · have hcount := steps_stepped hlimit
      have hgrows := allocations_stepped limit m
      exact ih (by omega) (by omega)
    · -- At the limit nothing is executed any more.
      rw [after, stepped_limited (by omega)]
      exact ih hsteps hcalls

theorem Loaded.intact (h : Loaded code settings m) (hblank : m.memory.Blank) : Intact m m := by
  refine ⟨rfl, rfl, ?_, hblank⟩
  rw [h.heap]
  exact Heap.kept_empty (Nat.le_add_right _ _)

/-- A machine of a size that leaves room for the rounding of the heap's start loads any listing or
refuses it, and after any number of steps, faulty ones included, it still has its listing and its
memory, its blocks tile the range of the heap, and the next step ends in the same way whatever stands
behind the end of the memory. Nothing that is computed on the way leaves its word. -/
theorem machine_stays_intact {settings : MachineSettings}
    (hsize : settings.memorySize.toNat ≤ 2 ^ 32 - 8) (code : Code) :
    (∀ e, load code settings = .error e → e.isOverflow = false) ∧
    ∀ m₀, load code settings = .ok m₀ → ∀ n m, m = after settings.stepLimit.toNat n m₀ →
      m.image = m₀.image ∧ m.memory.size = settings.memorySize.toNat ∧ m.memory.Blank ∧
      m.steps ≤ settings.stepLimit.toNat ∧
      heapBase code + settings.heapSize.toNat ≤ settings.memorySize.toNat ∧
      m.heap.Partitions (heapBase code) (heapBase code + settings.heapSize.toNat) ∧
      m.heap.Counted ∧ m.heap.stats.allocations ≤ m.steps ∧
      (∀ call : HeapCall, call.IsSmall → m.heap.Computes call) ∧
      Asks m.heap (step settings.stepLimit.toNat m) ∧
      ∀ m', Alike m m' → Outcomes Alike (fun e => e.isOverflow = false)
        (step settings.stepLimit.toNat m) (step settings.stepLimit.toNat m') := by
  refine ⟨fun e he => load_error hsize he, fun m₀ hload n m hm => ?_⟩
  subst hm
  have hloaded := load_loaded hload
  have hsmall : m₀.memory.size < UInt32.size := by
    rw [hloaded.size]
    exact settings.memorySize.toNat_lt
  have hfits := hloaded.fits
  have hbase : m₀.heap.base = heapBase code := by rw [hloaded.heap]; rfl
  have hlimit : m₀.heap.limit = heapBase code + settings.heapSize.toNat := by rw [hloaded.heap]; rfl
  obtain ⟨hstart, hblank⟩ := load_fresh hload
  have hnone : m₀.heap.stats.allocations = 0 := by rw [hloaded.heap]; rfl
  have hintact := after_intact hsmall (hloaded.intact hblank) settings.stepLimit.toNat n
  obtain ⟨hsteps, hcalls⟩ : (after settings.stepLimit.toNat n m₀).steps ≤ _ ∧ _ :=
    after_steps (by omega) (by omega) n
  have hparts := hintact.heap.sound.partitions
  rw [hintact.heap.base_eq, hintact.heap.limit_eq, hbase, hlimit] at hparts
  refine ⟨hintact.image, hintact.size.trans hloaded.size, hintact.blank, hsteps, hfits, hparts,
    hintact.heap.counted, hcalls, fun call hcall => ?_, step_asks _ _, fun m' halike => ?_⟩
  · refine hintact.heap.sound.computes hintact.heap.counted ?_ hcall
    rw [hintact.heap.limit_eq, hlimit]
    exact Nat.lt_of_le_of_lt hfits settings.memorySize.toNat_lt
  · exact (step_intact hsmall _ _ m' ⟨hintact, halike⟩).mono fun _ _ h => h.2

/-- A listing without sense: it writes through and behind a record, jumps to a number, prints by a
format that is none, and takes operands that are not there. -/
def senseless : Code :=
  [.dLabel "x", .dataC 37, .pushI 9, .call Environment.allocateEntry, .duplicate, .pushI (-1), .storeI,
    .pushI 0, .printf, .pushI 18, .loadF, .pushI 8, .call Environment.deallocateEntry, .convertI, .ret]

theorem machine_stays_intact_senseless :
    ∃ m₀, load senseless ⟨64, 40, 14⟩ = .ok m₀ ∧ (after 14 3 m₀).heap.live = [⟨8, 12⟩] ∧
      (after 14 20 m₀).steps = 14 ∧ (after 14 20 m₀).image = m₀.image ∧
      (after 14 20 m₀).heap.Partitions 8 48 ∧
      ∀ m', Alike (after 14 20 m₀) m' → Outcomes Alike (fun e => e.isOverflow = false)
        (step 14 (after 14 20 m₀)) (step 14 m') := by
  have hsize : (⟨64, 40, 14⟩ : MachineSettings).memorySize.toNat ≤ 2 ^ 32 - 8 := by decide
  have hok : (match load senseless ⟨64, 40, 14⟩ with
      | .ok m₀ => (after 14 3 m₀).heap.live == [⟨8, 12⟩] && (after 14 20 m₀).steps == 14
      | .error _ => false) = true := by decide +kernel
  have hbase : heapBase senseless = 8 := by decide
  have hheap : (40 : UInt32).toNat = 40 := rfl
  have hlimit : (14 : UInt64).toNat = 14 := rfl
  cases h : load senseless ⟨64, 40, 14⟩ with
  | error => simp [h] at hok
  | ok m₀ =>
    simp only [h, Bool.and_eq_true, beq_iff_eq] at hok
    have hkept := (machine_stays_intact hsize senseless).2 m₀ h 20 _ rfl
    simp only [hbase, hheap, hlimit, Nat.reduceAdd] at hkept
    obtain ⟨himage, -, -, -, -, hparts, -, -, -, -, hnext⟩ := hkept
    refine ⟨m₀, rfl, hok.1, hok.2, himage, hparts, ?_⟩
    -- The run is not to be computed once more.
    generalize after 14 20 m₀ = m at hnext ⊢
    exact hnext

end Machine
end IntervalStack
