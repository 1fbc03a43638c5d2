import IntervalStack.Proofs.Frames.Call
import IntervalStack.Proofs.Policing
import IntervalStack.Proofs.Settings.Reading

/-! What the settings of a file are good for. The reference counter takes every capacity that is
accepted. The size of the memory is a word without a sign, while programs compute with addresses
that have one: where the size has its highest bit set, the top of memory is a negative number, and
the frame stack, which grows down from there, is out of reach but for the first bytes. -/

namespace IntervalStack

def MachineSettings.top (s : MachineSettings) : Int32 := s.memorySize.toInt32

theorem Word.toInt_ofNat_eq {n : Nat} (h : n < UInt32.size) :
    (Int32.ofNat n).toInt = if n < 2 ^ 31 then (n : Int) else n - 2 ^ 32 := by
  have hword : (UInt32.ofNat n).toNat = n := UInt32.toNat_ofNat_of_lt' h
  have hint := Word.toInt_toInt32 (UInt32.ofNat n)
  rwa [hword] at hint

namespace Machine

variable {m : Machine} {W : Nat → Prop} {c c' : Code} {limit p : Nat}

theorem after_continues {code : Code} {settings : MachineSettings} {m₀ : Machine}
    (hload : Machine.load code settings = .ok m₀) (limit n : Nat) :
    m₀.Continues (after limit n m₀) := by
  have hloaded := load_loaded hload
  have hintact := after_intact (by rw [hloaded.size]; exact settings.memorySize.toNat_lt)
    (hloaded.intact (load_fresh hload).2) limit n
  exact ⟨hintact.image, hintact.size, hintact.heap.base_eq, hintact.heap.limit_eq⟩

theorem step_of_code {i : Instr} (hsteps : m.steps < limit) (hi : m.image.code[m.pc]? = some i) :
    step limit m = execute m.pc i { m with steps := m.steps + 1, pc := m.pc + 1 } := by
  have hrun : step limit m = _ := step_run m hsteps
  rw [hrun, hi]
  rfl

theorem exists_check_behind_iff {w : Nat} (hlimit : m.heap.limit ≤ p) (hin : p + w ≤ m.memory.size)
    (hsize : m.memory.size < UInt32.size) :
    (∃ a, m.check (Int32.ofNat p).toInt w = .ok a) ↔ p < 2 ^ 31 := by
  rw [Word.toInt_ofNat_eq (by omega)]
  split
  · next hlow =>
    have hout : m.heap.manages p = false := by
      simp only [Heap.manages, Bool.and_eq_false_iff, decide_eq_false_iff_not]
      omega
    refine iff_of_true ⟨p, ?_⟩ hlow
    rw [check, if_neg (by omega)]
    exact if_neg (by simp [hout])
  · next hhigh =>
    have hsize' : UInt32.size = 2 ^ 32 := rfl
    refine iff_of_false ?_ hhigh
    rintro ⟨a, ha⟩
    rw [check, if_pos (.inl (by omega))] at ha
    cases ha

theorem exists_step_storeI_iff {v : Int32} {st : List Value} (hlimit : m.heap.limit ≤ p)
    (hin : p + 4 ≤ m.memory.size) (hsize : m.memory.size < UInt32.size) (hsteps : m.steps < limit)
    (hi : m.image.code[m.pc]? = some .storeI)
    (hst : m.stack = .int v :: .int (Int32.ofNat p) :: st) :
    (∃ m', step limit m = .ok () m') ↔ p < 2 ^ 31 := by
  have haccess : Instr.storeI.access? m.stack = some ((Int32.ofNat p).toInt, 4) := by
    rw [hst]
    rfl
  rw [step_of_code hsteps hi, exists_execute_iff rfl, ← exists_check_behind_iff hlimit hin hsize]
  constructor
  · rintro ⟨a, w, hfound, hcheck⟩
    obtain ⟨rfl, rfl⟩ := Prod.mk.inj (Option.some.inj (haccess.symm.trans hfound))
    exact hcheck
  · exact fun hcheck => ⟨_, _, haccess, hcheck⟩

theorem step_memtop (hsteps : m.steps < limit) (hi : m.image.code[m.pc]? = some .memtop) :
    step limit m = .ok () (m.moved 1 (.int (Int32.ofNat m.memory.size) :: m.stack) m.memory) := by
  rw [step_of_code hsteps hi]
  rfl

theorem Traverses.append {m₁ m' : Machine} (h : Traverses W c m m₁) (h' : Traverses W c' m₁ m') :
    Traverses W (c ++ c') m m' := by
  refine ⟨h.performs.append h'.performs, h'.running, ?_⟩
  rw [h'.pc, h.pc, List.length_append, Nat.add_assoc]

theorem traverses_memtop {memory : Memory} (hrunning : m.halted = false)
    (hb : m.Before ([.memtop] ++ c))
    (hacts : Acts W m.image m.heap c (.int (Int32.ofNat m.memory.size) :: m.stack) m.memory m.stack
      memory) :
    Traverses W ([.memtop] ++ c) m (m.moved (1 + c.length) m.stack memory) := by
  have htop : Performs W [.memtop] m
      (m.moved 1 (.int (Int32.ofNat m.memory.size) :: m.stack) m.memory) :=
    .cons (hb 0 _ rfl) hrunning (fun limit hlimit => step_memtop hlimit (hb 0 _ rfl))
      (fun _ _ _ => rfl) (.nil _)
  have hrest :=
    hacts.performs (k := m.moved 1 _ m.memory) rfl rfl rfl rfl (hb.right rfl rfl) hrunning
  refine ⟨?_, hrunning, by rw [List.length_append]; rfl⟩
  have hmoved : (m.moved 1 (.int (Int32.ofNat m.memory.size) :: m.stack) m.memory).moved c.length
      m.stack memory = m.moved (1 + c.length) m.stack memory := by
    simp only [Machine.moved, Nat.add_assoc]
  rw [← hmoved]
  exact htop.append hrest

end Machine

namespace Frame

open Machine

variable {c : Cells} {code : Code} {m : Machine} {low top cell : Nat}

theorem Stage.entry (h : Stage c m.image m.heap m.memory.size cell low top)
    (hrunning : m.halted = false) (hb : m.Before (Frame.entry c)) :
    ∃ m', Traverses (Touched cell (cell + 4) low top) (Frame.entry c) m m' ∧ m'.stack = m.stack ∧
      m'.image = m.image ∧
      Points m.memory.size cell m'.memory (Int32.ofNat m.memory.size) m.memory.size := by
  have hentry : Frame.entry c
      = ([Instr.memtop] ++ c.storeFrame) ++ ([Instr.memtop] ++ c.storeStack) := by
    simp only [Frame.entry, List.append_assoc]
  rw [hentry] at hb ⊢
  have hbounds := h.bounds
  have hframe := traverses_memtop hrunning hb.left (h.storeFrame rfl _ m.stack)
  generalize hm₁ : m.moved _ m.stack (m.memory.setWord cell _) = m₁ at hframe
  have hsize : m₁.memory.size = m.memory.size := by
    rw [← hm₁]
    exact Memory.size_setWord
  have hstage : Stage c m₁.image m₁.heap m₁.memory.size cell low top := by
    rw [hsize, ← hm₁]
    exact h
  have hstack := traverses_memtop hframe.running
    (hb.right hframe.performs.reaches.continues.image hframe.pc) (hstage.storeStack rfl _ m₁.stack)
  refine ⟨_, hframe.append hstack, by rw [← hm₁]; rfl, by rw [← hm₁]; rfl, ?_, ?_, ?_⟩
  · exact Memory.size_setWord.trans hsize
  · show (m₁.memory.setWord (cell + 4) _).word cell = _
    rw [Memory.word_setWord_of_apart (by omega) (by omega) (by omega), ← hm₁]
    exact Memory.word_setWord_self (by omega)
  · rw [← hsize]
    exact Memory.word_setWord_self (by omega)

theorem Stage.saves {image : Image} {heap : Heap} {size sp : Nat} {memory : Memory} {fp : Int32}
    (h : Stage c image heap size cell low top) (hp : Points size cell memory fp sp)
    (hlow : low + 8 ≤ sp) (htop : sp ≤ top) (delta ret : Int32) (st : List Value) :
    ∃ memory', Acts (Touched cell (cell + 4) low top) image heap (Frame.enterBy c delta)
        (.int ret :: st) memory st memory' ∧
      memory'.word (sp - 4) = fp ∧ memory'.word (sp - 8) = ret := by
  have hbounds := h.bounds
  refine ⟨_, h.enterBy hp hlow htop delta ret st, ?_, ?_⟩
  all_goals simp (disch := omega) only [Memory.word_setWord_of_apart, Memory.word_setWord_self]

/-- The first frame of a program is made at the top of a memory of `size` bytes. -/
structure OpensAtTop (c : Cells) (m : Machine) (size : Nat) : Prop where
  entry : m.Before (Frame.entry c) →
    ∃ m', Traverses (Touched (m.address c.frame) (m.address c.stack) size size) (Frame.entry c) m
        m' ∧
      m'.stack = m.stack ∧ m'.cell c.frame = Int32.ofNat size ∧ m'.cell c.stack = Int32.ofNat size
  /-- A routine that finds the stack pointer there saves the frame pointer and the return address,
  unless the heap takes the room for them. -/
  prologue : m.heap.limit + 8 ≤ size → m.cell c.stack = Int32.ofNat size →
    ∀ locals body ret st, Frame.prologue c locals = .ok body → m.stack = .int ret :: st →
      m.Before body →
      ∃ m', Traverses (Touched (m.address c.frame) (m.address c.stack) (size - 8) size) body m m' ∧
        m'.stack = st ∧ m'.memory.word (size - 4) = m.cell c.frame ∧ m'.memory.word (size - 8) = ret

variable {settings : MachineSettings} {m₀ : Machine}

theorem room_behind_heap (hload : Machine.load code settings = .ok m₀) (hm : m₀.Continues m)
    (hcells : c.declare <:+: code) (hsmall : m.memory.size < 2 ^ 31) (hlow : m.heap.limit ≤ low) :
    Room c code m low m.memory.size := by
  have hlimit : m.heap.limit = heapBase code + settings.heapSize.toNat := by
    rw [hm.limit, (load_loaded hload).heap]
    rfl
  refine ⟨⟨settings, m₀, hload, hm⟩, hcells, hsmall, Nat.le_refl _, ?_, fun a ha _ => ?_⟩
  · rw [heapBase] at hlimit
    omega
  · simp only [Heap.manages, Bool.and_eq_false_iff, decide_eq_false_iff_not]
    exact .inr (by omega)

theorem opensAtTop (hload : Machine.load code settings = .ok m₀) (hm : m₀.Continues m)
    (hcells : c.declare <:+: code) (hsmall : m.memory.size < 2 ^ 31) (hrunning : m.halted = false) :
    OpensAtTop c m m.memory.size := by
  have hloaded := load_loaded hload
  have hfits : m.heap.limit ≤ m.memory.size := by
    rw [hm.limit, hm.size, hloaded.size, hloaded.heap]
    exact hloaded.fits
  constructor
  · intro hb
    obtain ⟨cell, hframe, hstack, hstage⟩ :=
      (room_behind_heap hload hm hcells hsmall hfits).stage (Nat.le_refl _)
    obtain ⟨m', htraverses, hst, himage, hpoints⟩ := hstage.entry hrunning hb
    rw [← hstack, ← hframe] at htraverses
    refine ⟨m', htraverses, hst, ?_, ?_⟩
    · rw [Machine.cell, address, himage, hstage.frame]
      exact hpoints.frame
    · rw [Machine.cell, address, himage, hstage.stack]
      exact hpoints.stack
  · intro hroom hsp locals body ret st hbody hst hb
    obtain ⟨delta, rfl⟩ := prologue_ok hbody
    have hframe : Room c code m (m.memory.size - 8) m.memory.size :=
      room_behind_heap hload hm hcells hsmall (by omega)
    obtain ⟨hactive, hstack⟩ := hframe.active hrunning (Nat.sub_le _ _) hsp
    obtain ⟨memory, hacts, hsaved, hret⟩ :=
      hactive.stage.saves hactive.points (by omega) (Nat.le_refl _) delta ret st
    have hperforms := hacts.performs rfl rfl hst rfl hb hrunning
    rw [hstack]
    exact ⟨m.moved _ st memory, ⟨hperforms, hrunning, rfl⟩, rfl, hsaved, hret⟩

end Frame

namespace Settings

open Machine IntervalStack.Frame

variable {s : Settings}

theorem Valid.exists_refCounter (h : s.Valid) :
    ∃ r, RefCounter.ofCapacity? s.worklistCapacity = some r ∧ r.capacity = s.worklistCapacity := by
  have hpos : 0 < s.worklistCapacity := UInt32.lt_iff_toNat_lt.2 h.capacity_pos
  have hle : s.worklistCapacity ≤ RefCounter.maxCapacity := UInt32.le_iff_toNat_le.2 h.capacity_le
  rw [RefCounter.ofCapacity?, dif_pos ⟨hpos, hle⟩]
  exact ⟨_, rfl, rfl⟩

/-- With settings that are accepted, the reference counter takes the capacity. `Memtop` pushes the
size of the memory if that has no sign as a word, and else a negative number. A word at four or
eight bytes below the top and behind the heap can be stored if and only if its own address has no
sign. So up to 2 GiB the cells are set at program start, and the first routine saves its header. -/
theorem accepted_usable_below_sign {text : String} {s : Settings} (hs : parse text = .ok s) :
    (∃ r, RefCounter.ofCapacity? s.worklistCapacity = some r ∧ r.capacity = s.worklistCapacity) ∧
    (s.machine.top.toInt = if s.get .memorySize < 2 ^ 31 then (s.get .memorySize : Int)
      else s.get .memorySize - 2 ^ 32) ∧
    ∀ code m₀ m, Machine.load code s.machine = .ok m₀ → m₀.Continues m →
      (∀ limit, m.steps < limit → m.image.code[m.pc]? = some .memtop →
        step limit m = .ok () (m.moved 1 (.int s.machine.top :: m.stack) m.memory)) ∧
      (∀ k ∈ [4, 8], ∀ place, place + k = s.get .memorySize → m.heap.limit ≤ place →
        ∀ limit v st, m.steps < limit → m.image.code[m.pc]? = some .storeI →
          m.stack = .int v :: .int (s.machine.top - Int32.ofNat k) :: st →
          ((∃ m', step limit m = .ok () m') ↔ place < 2 ^ 31)) ∧
      (s.get .memorySize < 2 ^ 31 → m.halted = false → ∀ c : Cells, c.declare <:+: code →
        OpensAtTop c m (s.get .memorySize)) := by
  have hvalid := (parse_eq_ok_iff.1 hs).2.2
  refine ⟨hvalid.exists_refCounter, Word.toInt_toInt32 _, fun code m₀ m hload hm => ?_⟩
  have hsize : m.memory.size = s.get .memorySize := hm.size.trans (load_loaded hload).size
  have hword : s.get .memorySize < UInt32.size := s.machine.memorySize.toNat_lt
  have htop : s.machine.top = Int32.ofNat (s.get .memorySize) := Word.toInt32_eq_ofNat _
  refine ⟨fun limit hsteps hi => ?_, fun k hk place hplace hlimit limit v st hsteps hi hst => ?_,
    fun hsmall hrunning c hcells => ?_⟩
  · rw [htop, ← hsize]
    exact step_memtop hsteps hi
  · have hk : 4 ≤ k := by
      rcases List.mem_cons.1 hk with rfl | hk
      · exact Nat.le_refl _
      · rw [List.mem_singleton.1 hk]
        decide
    rw [htop, Word.ofNat_sub_of_le (by omega), show s.get .memorySize - k = place by omega] at hst
    exact exists_step_storeI_iff hlimit (by omega) (hsize ▸ hword) hsteps hi hst
  · rw [← hsize] at hsmall ⊢
    exact opensAtTop hload hm hcells hsmall hrunning

/-- A program that starts and at once calls a routine without locals. -/
def firstCall : Code :=
  Cells.standard.declare ++ (Frame.entry .standard
    ++ ([Instr.call "routine", .halt, .label "routine"] ++ enter .standard 8))

def brimful : String := "[vm]\nmemory_size=2147483647"

theorem accepted_usable_below_sign_brimful :
    ∃ s m₀ m m', parse brimful = .ok s ∧ Machine.load firstCall s.machine = .ok m₀ ∧
      s.machine.top.toInt = 2147483647 ∧
      step 9 m₀ = .ok () (m₀.moved 1 (.int s.machine.top :: m₀.stack) m₀.memory) ∧
      m = after 9 9 m₀ ∧ m.stack = [.int 9] ∧
      Traverses (Touched 0 4 2147483639 2147483647) (enter .standard 8) m m' ∧
      m'.memory.word 2147483643 = s.machine.top ∧ m'.memory.word 2147483639 = 9 := by
  have htest : (parse brimful).toOption.any (fun s =>
      (Machine.load firstCall s.machine).toOption.any fun m₀ =>
        s.get .memorySize == 2147483647 && m₀.steps == 0 &&
          m₀.image.code[m₀.pc]? == some .memtop &&
          let m := after 9 9 m₀
          m.heap.limit == 524296 && m.pc == 10 && m.stack == [.int 9] && m.halted == false &&
            m.address "$frame-pointer" == 0 && m.address "$stack-pointer" == 4 &&
            m.cell "$frame-pointer" == s.machine.top &&
            m.cell "$stack-pointer" == s.machine.top) = true := by decide +kernel
  obtain ⟨s, hs, hloads⟩ := exists_ok_of_any htest
  obtain ⟨m₀, hload, hok⟩ := exists_ok_of_any hloads
  obtain ⟨-, htop, huse⟩ := accepted_usable_below_sign hs
  have hm := after_continues hload 9 9
  simp only [Bool.and_eq_true, beq_iff_eq] at hok
  generalize hafter : after 9 9 m₀ = m at hok hm
  obtain ⟨⟨⟨hsize, hsteps⟩, hi⟩,
    ⟨⟨⟨⟨⟨⟨hlimit, hpc⟩, hst⟩, hrunning⟩, hframe⟩, hstack⟩, hfp⟩, hsp⟩ := hok
  rw [hsize] at htop huse
  have hbody : Frame.prologue .standard 0 = .ok (enter .standard 8) := prologue_eq _ (by decide)
  have hbefore : m.Before (enter .standard 8) :=
    before_of_load hload hm.image 15 _ (by decide +kernel) rfl hpc
  obtain ⟨m', htraverses, -, hsaved, hret⟩ :=
    ((huse firstCall m₀ m hload hm).2.2 (by decide) hrunning .standard
      (List.infix_append' [] _ _)).prologue (by omega)
      (hsp.trans (by rw [← hsize]; exact Word.toInt32_eq_ofNat _)) 0 _ 9 [] hbody hst hbefore
  rw [show m.address Cells.standard.frame = 0 from hframe,
    show m.address Cells.standard.stack = 4 from hstack] at htraverses
  exact ⟨s, m₀, m, m', hs, hload, htop.trans (by decide),
    (huse firstCall m₀ m₀ hload (.refl _)).1 9 (by omega) hi, hafter.symm, hst, htraverses,
    hsaved.trans hfp, hret⟩

def excessive : String := "[vm]\nmemory_size=3000000000"

/-- The top of memory is negative, and the first store of a frame faults, though there is room for
it behind the heap. -/
theorem top_with_sign_faults :
    ∃ s m₀ m', parse excessive = .ok s ∧ Machine.load firstCall s.machine = .ok m₀ ∧
      m₀.heap.limit + 8 ≤ s.get .memorySize ∧ s.get .memorySize = 3000000000 ∧
      (after 50 1 m₀).stack = [.int (-1294967296)] ∧
      step 50 (after 50 15 m₀) = .error (.invalidAddress (-1294967300) 4) m' := by
  have htest : (parse excessive).toOption.any (fun s =>
      (Machine.load firstCall s.machine).toOption.any fun m₀ =>
        decide (m₀.heap.limit + 8 ≤ s.get .memorySize) &&
          s.get .memorySize == 3000000000 && (after 50 1 m₀).stack == [.int (-1294967296)] &&
          fault? (step 50 (after 50 15 m₀)) == some (.invalidAddress (-1294967300) 4)) = true := by
    decide +kernel
  obtain ⟨s, hs, hloads⟩ := exists_ok_of_any htest
  obtain ⟨m₀, hload, hok⟩ := exists_ok_of_any hloads
  simp only [Bool.and_eq_true, beq_iff_eq, decide_eq_true_eq] at hok
  obtain ⟨⟨⟨hroom, hsize⟩, htop⟩, hfault⟩ := hok
  obtain ⟨m', hstep⟩ := exists_error_of_fault hfault
  exact ⟨s, m₀, m', hs, hload, hroom, hsize, htop, hstep⟩

end Settings
end IntervalStack
