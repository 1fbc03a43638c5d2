import IntervalStack.Frame
import IntervalStack.Proofs.Frames.Operands

/-! The code of the calling convention, block by block: what it does to the two cells and to the
frame. -/

namespace IntervalStack.Frame

/-- The bytes that a call touches: the two cells, and the frame from `low` up to `top`. -/
def Touched (frame stack low top a : Nat) : Prop :=
  frame ≤ a ∧ a < frame + 4 ∨ stack ≤ a ∧ a < stack + 4 ∨ low ≤ a ∧ a < top

/-- A place for a call: the cells stand next to each other, and the frame is inside the memory and
apart from the cells and the heap. -/
structure Stage (c : Cells) (image : Image) (heap : Heap) (size cell low top : Nat) : Prop where
  frame : image.dataLabel? c.frame = some cell
  stack : image.dataLabel? c.stack = some (cell + 4)
  below : cell + 8 ≤ low
  ordered : low ≤ top
  inside : top ≤ size
  small : size < 0x80000000
  unmanaged : ∀ a, Touched cell (cell + 4) low top a → heap.manages a = false

structure Points (size cell : Nat) (m : Memory) (fp : Int32) (sp : Nat) : Prop where
  size : m.size = size
  frame : m.word cell = fp
  stack : m.word (cell + 4) = Int32.ofNat sp

variable {c : Cells} {image : Image} {heap : Heap} {size cell low top sp a : Nat} {m : Memory}
  {st vs : List Value} {fp : Int32} {W : Nat → Prop}

namespace Stage

theorem bounds (h : Stage c image heap size cell low top) :
    cell + 8 ≤ low ∧ low ≤ top ∧ top ≤ size ∧ size < 0x80000000 :=
  ⟨h.below, h.ordered, h.inside, h.small⟩

theorem open_frame (h : Stage c image heap size cell low top) (hm : m.size = size) :
    Open heap m.size cell 4 := by
  have hbounds := h.bounds
  exact ⟨by omega, hm ▸ h.small, h.unmanaged cell (.inl ⟨by omega, by omega⟩)⟩

theorem open_stack (h : Stage c image heap size cell low top) (hm : m.size = size) :
    Open heap m.size (cell + 4) 4 := by
  have hbounds := h.bounds
  exact ⟨by omega, hm ▸ h.small, h.unmanaged (cell + 4) (.inr (.inl ⟨by omega, by omega⟩))⟩

theorem open_slot (h : Stage c image heap size cell low top) (hm : m.size = size) {width : Nat}
    (hlow : low ≤ a) (htop : a + width ≤ top) (hwidth : 0 < width) : Open heap m.size a width := by
  have hbounds := h.bounds
  exact ⟨by omega, hm ▸ h.small, h.unmanaged a (.inr (.inr ⟨hlow, by omega⟩))⟩

theorem loadFrame (h : Stage c image heap size cell low top) (hm : m.size = size)
    (st : List Value) :
    Acts W image heap c.loadFrame st m (.int (m.word cell) :: st) m :=
  .quiet (Instr.act_pushD h.frame)
    (.load (show Instr.load? .int = _ from rfl) (h.open_frame hm) (.nil _ _))

theorem loadStack (h : Stage c image heap size cell low top) (hm : m.size = size)
    (st : List Value) :
    Acts W image heap c.loadStack st m (.int (m.word (cell + 4)) :: st) m :=
  .quiet (Instr.act_pushD h.stack)
    (.load (show Instr.load? .int = _ from rfl) (h.open_stack hm) (.nil _ _))

theorem storeFrame (h : Stage c image heap size cell low top) (hm : m.size = size) (v : Int32)
    (st : List Value) :
    Acts (Touched cell (cell + 4) low top) image heap c.storeFrame (.int v :: st) m st
      (m.setWord cell v) :=
  .quiet (Instr.act_pushD h.frame) <| .quiet rfl <|
    .store (show Instr.store? .int = _ from rfl) ⟨v, rfl⟩ (h.open_frame hm)
      (fun _ hb hb' => .inl ⟨hb, hb'⟩) (.nil _ _)

theorem storeStack (h : Stage c image heap size cell low top) (hm : m.size = size) (v : Int32)
    (st : List Value) :
    Acts (Touched cell (cell + 4) low top) image heap c.storeStack (.int v :: st) m st
      (m.setWord (cell + 4) v) :=
  .quiet (Instr.act_pushD h.stack) <| .quiet rfl <|
    .store (show Instr.store? .int = _ from rfl) ⟨v, rfl⟩ (h.open_stack hm)
      (fun _ hb hb' => .inr (.inl ⟨hb, hb'⟩)) (.nil _ _)

theorem adjustStack (h : Stage c image heap size cell low top) (hm : m.size = size) (delta : Int32)
    (st : List Value) :
    Acts (Touched cell (cell + 4) low top) image heap (c.adjustStack delta) st m st
      (m.setWord (cell + 4) (m.word (cell + 4) + delta)) := by
  refine .quiet (Instr.act_pushD h.stack) ((h.loadStack hm _).append ?_)
  refine .quiet rfl (.quiet rfl ?_)
  exact .store (show Instr.store? .int = _ from rfl) ⟨_, rfl⟩ (h.open_stack hm)
    (fun _ hb hb' => .inr (.inl ⟨hb, hb'⟩)) (.nil _ _)

theorem storeValue (h : Stage c image heap size cell low top) {ty : Ty} {store : Instr}
    (hstore : Instr.store? ty = some store) (hvs : ty.Operands vs) (hp : Points size cell m fp sp)
    (hlow : low ≤ sp) (htop : sp + ty.size.toNat ≤ top) (st : List Value) :
    Acts (Touched cell (cell + 4) low top) image heap (c.loadStack ++ [Instr.exchange, store])
      (vs ++ st) m st (m.write sp (ty.bytes vs)) := by
  rcases hvs.cases with ⟨_, _, v, hload, _, rfl⟩ | ⟨rfl, -⟩
  · refine (h.loadStack hp.size _).append (.quiet rfl ?_)
    rw [hp.stack]
    exact .store hstore hvs (h.open_slot hp.size hlow htop (Ty.size_pos hload))
      (fun b hb hb' => .inr (.inr ⟨by omega, by omega⟩)) (.nil _ _)
  · cases hstore

theorem lowerStack (h : Stage c image heap size cell low top) (hp : Points size cell m fp sp)
    {n : UInt32} (hn : n.toNat ≤ sp) (st : List Value) :
    Acts (Touched cell (cell + 4) low top) image heap (c.adjustStack (-n.toInt32)) st m st
      (m.setWord (cell + 4) (Int32.ofNat (sp - n.toNat))) := by
  have hacts := h.adjustStack hp.size (-Int32.ofNat n.toNat) st
  rw [hp.stack, Word.ofNat_add_neg hn] at hacts
  rwa [Word.toInt32_eq_ofNat]

theorem raiseStack (h : Stage c image heap size cell low top) (hp : Points size cell m fp sp)
    (n : Nat) (st : List Value) :
    Acts (Touched cell (cell + 4) low top) image heap (c.adjustStack (Int32.ofNat n)) st m st
      (m.setWord (cell + 4) (Int32.ofNat (sp + n))) := by
  have hacts := h.adjustStack hp.size (Int32.ofNat n) st
  rwa [hp.stack, ← Int32.ofNat_add] at hacts

theorem setStack (h : Stage c image heap size cell low top) (hp : Points size cell m fp sp)
    (n : Nat) : Points size cell (m.setWord (cell + 4) (Int32.ofNat n)) fp n := by
  have hbounds := h.bounds
  refine ⟨by rw [Memory.size_setWord, hp.size], ?_, Memory.word_setWord_self (by omega)⟩
  rw [Memory.word_setWord_of_apart (by omega) (by omega) (by omega), hp.frame]

theorem setFrame (h : Stage c image heap size cell low top) (hp : Points size cell m fp sp)
    (v : Int32) : Points size cell (m.setWord cell v) v sp := by
  have hbounds := h.bounds
  refine ⟨by rw [Memory.size_setWord, hp.size], Memory.word_setWord_self (by omega), ?_⟩
  rw [Memory.word_setWord_of_apart (by omega) (by omega) (by omega), hp.stack]

theorem setSlot (h : Stage c image heap size cell low top) (hp : Points size cell m fp sp)
    (bs : List UInt8) (hlow : low ≤ a) (htop : a + bs.length ≤ top) :
    Points size cell (m.write a bs) fp sp := by
  have hbounds := h.bounds
  have hkeep (b : Nat) (hb : b + 4 ≤ cell + 8) : (m.write a bs).word b = m.word b :=
    Memory.word_congr fun i hi => Memory.get_write_of_outside bs (by simp only [UInt32.size]; omega)
      (by simp only [UInt32.size]; omega) (.inl (by omega))
  exact ⟨by rw [Memory.size_write, hp.size], by rw [hkeep cell (by omega), hp.frame],
    by rw [hkeep (cell + 4) (by omega), hp.stack]⟩

theorem pushArgument (h : Stage c image heap size cell low top) {ty : Ty} (hvs : ty.Operands vs)
    (hp : Points size cell m fp sp) (hlow : low + ty.size.toNat ≤ sp) (htop : sp ≤ top)
    (st : List Value) :
    ∃ m', Acts (Touched cell (cell + 4) low top) image heap (Frame.pushArgument c ty) (vs ++ st) m
        st m' ∧
      Points size cell m' fp (sp - ty.size.toNat) ∧
      m'.operands ty (sp - ty.size.toNat) = ty.stored vs ∧
      ∀ b, sp ≤ b → b < top → m'.get b = m.get b := by
  have hbounds := h.bounds
  have hlength := Ty.length_bytes hvs
  have hlower := h.setStack hp (sp - ty.size.toNat)
  refine ⟨(m.setWord (cell + 4) (Int32.ofNat (sp - ty.size.toNat))).write (sp - ty.size.toNat)
    (ty.bytes vs), (h.lowerStack hp (by omega) _).append ?_,
    h.setSlot hlower _ (by omega) (by omega),
    Ty.operands_write hvs (by simp only [UInt32.size]; omega), fun b hb hb' => ?_⟩
  · rcases hvs.cases with ⟨_, store, v, -, hstore, rfl⟩ | ⟨rfl, rfl⟩
    · simp only [hstore]
      exact h.storeValue hstore hvs hlower (by omega) (by omega) st
    · exact .nil _ _
  · rw [Memory.get_write_of_outside _ (by simp only [UInt32.size]; omega)
      (by simp only [UInt32.size]; omega) (.inr (by omega)),
      Memory.get_setWord (by omega) (by omega) (.inr (by omega))]

end Stage

/-! The blocks of the callee. -/

def enterBy (c : Cells) (delta : Int32) : Code :=
  (c.loadStack ++ [Instr.pushI savedFrameOffset, .add] ++ c.loadFrame ++ [Instr.storeI])
    ++ ((c.loadStack ++ [Instr.pushI returnAddressOffset, .add, .exchange, .storeI])
    ++ ((c.loadStack ++ c.storeFrame) ++ c.adjustStack delta))

/-- The prologue of a routine whose header and locals take `n` bytes. -/
def enter (c : Cells) (n : Nat) : Code := enterBy c (-Int32.ofNat n)

def leave (c : Cells) (n : Nat) (result : Ty) : Code :=
  (c.loadFrame ++ [Instr.pushI returnAddressOffset, .add, .loadI])
    ++ ((c.loadFrame ++ [Instr.pushI savedFrameOffset, .add, .loadI]) ++ (c.storeFrame
    ++ match Instr.store? result with
      | some store => [Instr.exchange] ++ (c.adjustStack (Int32.ofNat (n - result.size.toNat))
          ++ (c.loadStack ++ [Instr.exchange, store]))
      | none => c.adjustStack (Int32.ofNat n)))

theorem prologue_eq (c : Cells) {locals : UInt32} (h : 8 + locals.toNat < 0x80000000) :
    prologue c locals = .ok (enter c (8 + locals.toNat)) := by
  have hadd : Word.add headerSize locals = .ok (headerSize + locals) :=
    Word.add_eq_ok_iff.2 ⟨by show 8 + _ < 4294967296; omega, rfl⟩
  have hsize : (headerSize + locals).toInt32 = Int32.ofNat (8 + locals.toNat) := by
    rw [Word.toInt32_eq_ofNat, Word.toNat_of_add hadd]
    rfl
  have hnegate : Word.negateSigned (Int32.ofNat (8 + locals.toNat))
      = .ok (-Int32.ofNat (8 + locals.toNat)) := by
    rw [Word.negateSigned, if_pos]
    rw [Word.toInt_ofNat h]
    simp only [Word.fitsSigned, Bool.and_eq_true, decide_eq_true_eq]
    omega
  simp only [prologue, hadd, bind, Except.bind, hsize, hnegate, pure, Except.pure, enter,
    enterBy, List.append_assoc]

theorem prologue_ok {locals : UInt32} {body : Code} (h : prologue c locals = .ok body) :
    ∃ delta, body = enterBy c delta := by
  simp only [prologue, Word.bind_eq_ok_iff] at h
  obtain ⟨size, -, delta, -, hbody⟩ := h
  refine ⟨delta, (Except.ok.inj hbody).symm.trans ?_⟩
  simp only [enterBy, List.append_assoc]

theorem epilogue_eq (c : Cells) {locals params : UInt32} (result : Ty)
    (h : 8 + locals.toNat + params.toNat < 0x80000000) :
    epilogue c locals params result
      = .ok (leave c (8 + locals.toNat + params.toNat) result ++ [Instr.ret]) := by
  have hadd : Word.add headerSize locals = .ok (headerSize + locals) :=
    Word.add_eq_ok_iff.2 ⟨by show 8 + _ < 4294967296; omega, rfl⟩
  have hlocals : (headerSize + locals).toNat = 8 + locals.toNat := Word.toNat_of_add hadd
  have hadd' : Word.add (headerSize + locals) params = .ok (headerSize + locals + params) :=
    Word.add_eq_ok_iff.2 ⟨by show _ < 4294967296; omega, rfl⟩
  have hsize : (headerSize + locals + params).toInt32
      = Int32.ofNat (8 + locals.toNat + params.toNat) := by
    rw [Word.toInt32_eq_ofNat, Word.toNat_of_add hadd', hlocals]
  have hle := result.size_le
  have hsubtract : Word.subtractSigned (Int32.ofNat (8 + locals.toNat + params.toNat))
      (Int32.ofNat result.size.toNat)
      = .ok (Int32.ofNat (8 + locals.toNat + params.toNat - result.size.toNat)) := by
    rw [Word.subtractSigned, if_pos, Word.ofNat_sub_of_le (by omega)]
    rw [Word.toInt_ofNat h, Word.toInt_ofNat (by omega)]
    simp only [Word.fitsSigned, Bool.and_eq_true, decide_eq_true_eq]
    omega
  simp only [epilogue, hadd, hadd', bind, Except.bind, hsize, Word.toInt32_eq_ofNat result.size,
    hsubtract, pure, Except.pure, leave, List.append_assoc]
  cases Instr.store? result <;> simp

namespace Stage

theorem loadSlot (h : Stage c image heap size cell low top) (hm : m.size = size) (hlow : low ≤ a)
    (htop : a + 4 ≤ top) (st : List Value) :
    Acts W image heap [.loadI] (.int (Int32.ofNat a) :: st) m (.int (m.word a) :: st) m :=
  .load (show Instr.load? .int = _ from rfl) (h.open_slot hm hlow htop (Nat.zero_lt_succ _))
    (.nil _ _)

theorem storeSlot (h : Stage c image heap size cell low top) (hm : m.size = size) (hlow : low ≤ a)
    (htop : a + 4 ≤ top) (v : Int32) (st : List Value) :
    Acts (Touched cell (cell + 4) low top) image heap [.storeI]
      (.int v :: .int (Int32.ofNat a) :: st) m st (m.setWord a v) :=
  .store (show Instr.store? .int = _ from rfl) ⟨v, rfl⟩
    (h.open_slot hm hlow htop (Nat.zero_lt_succ _))
    (fun b hb hb' => .inr (.inr ⟨by omega, Nat.lt_of_lt_of_le hb' htop⟩)) (.nil _ _)

theorem setHeader (h : Stage c image heap size cell low top) (hp : Points size cell m fp sp)
    (hlow : low + 8 ≤ sp) (htop : sp ≤ top) (ret : Int32) :
    Points size cell ((m.setWord (sp - 4) fp).setWord (sp - 8) ret) fp sp := by
  have hp₁ : Points size cell (m.setWord (sp - 4) fp) fp sp :=
    h.setSlot hp _ (by omega) (show _ + 4 ≤ _ by omega)
  exact h.setSlot hp₁ _ (by omega) (show _ + 4 ≤ _ by omega)

/-- A prologue goes through if there is room for the header, however far it moves the stack
pointer. -/
theorem enterBy (h : Stage c image heap size cell low top) (hp : Points size cell m fp sp)
    (hlow : low + 8 ≤ sp) (htop : sp ≤ top) (delta ret : Int32) (st : List Value) :
    Acts (Touched cell (cell + 4) low top) image heap (Frame.enterBy c delta) (.int ret :: st) m st
      ((((m.setWord (sp - 4) fp).setWord (sp - 8) ret).setWord cell (Int32.ofNat sp)).setWord
        (cell + 4) (Int32.ofNat sp + delta)) := by
  have hsaved : Int32.ofNat sp + savedFrameOffset = Int32.ofNat (sp - 4) :=
    Word.ofNat_add_neg (show 4 ≤ sp by omega)
  have hreturn : Int32.ofNat sp + returnAddressOffset = Int32.ofNat (sp - 8) :=
    Word.ofNat_add_neg (show 8 ≤ sp by omega)
  -- the header is written below the stack pointer, which moves only at the end
  have hp₁ : Points size cell (m.setWord (sp - 4) fp) fp sp :=
    h.setSlot hp _ (by omega) (show _ + 4 ≤ _ by omega)
  have hp₂ := h.setHeader hp hlow htop ret
  have hp₃ := h.setFrame hp₂ (Int32.ofNat sp)
  have hsave : Acts (Touched cell (cell + 4) low top) image heap
      (c.loadStack ++ [Instr.pushI savedFrameOffset, .add] ++ c.loadFrame ++ [Instr.storeI])
      (.int ret :: st) m (.int ret :: st) (m.setWord (sp - 4) fp) := by
    refine (((h.loadStack hp.size _).append (.quiet rfl (.quiet rfl (.nil _ _)))).append
      (h.loadFrame hp.size _)).append ?_
    rw [hp.stack, hp.frame, hsaved]
    exact h.storeSlot hp.size (by omega) (by omega) fp _
  have hkeep : Acts (Touched cell (cell + 4) low top) image heap
      (c.loadStack ++ [Instr.pushI returnAddressOffset, .add, .exchange, .storeI])
      (.int ret :: st) (m.setWord (sp - 4) fp) st
      ((m.setWord (sp - 4) fp).setWord (sp - 8) ret) := by
    refine (h.loadStack hp₁.size _).append (.quiet rfl (.quiet rfl (.quiet rfl ?_)))
    rw [hp₁.stack, hreturn]
    exact h.storeSlot hp₁.size (by omega) (by omega) ret _
  have hframe := (h.loadStack hp₂.size st).append (h.storeFrame hp₂.size _ st)
  rw [hp₂.stack] at hframe
  have hmove := h.adjustStack hp₃.size delta st
  rw [hp₃.stack] at hmove
  exact hsave.append (hkeep.append (hframe.append hmove))

theorem enter (h : Stage c image heap size cell low top) (hp : Points size cell m fp sp) {n : Nat}
    (hn : 8 ≤ n) (hlow : low + n ≤ sp) (htop : sp ≤ top) (ret : Int32) (st : List Value) :
    ∃ m', Acts (Touched cell (cell + 4) low top) image heap (Frame.enter c n) (.int ret :: st) m
        st m' ∧
      Points size cell m' (Int32.ofNat sp) (sp - n) ∧ m'.word (sp - 4) = fp ∧
      m'.word (sp - 8) = ret ∧ ∀ b, sp ≤ b → b < top → m'.get b = m.get b := by
  have hbounds := h.bounds
  have hacts := h.enterBy hp (by omega) htop (-Int32.ofNat n) ret st
  rw [Word.ofNat_add_neg (by omega)] at hacts
  have hp' := h.setFrame (h.setHeader hp (by omega) htop ret) (Int32.ofNat sp)
  refine ⟨_, hacts, h.setStack hp' (sp - n), ?_, ?_, fun b hb hb' => ?_⟩
  · simp (disch := omega) only [Memory.word_setWord_of_apart, Memory.word_setWord_self]
  · simp (disch := omega) only [Memory.word_setWord_of_apart, Memory.word_setWord_self]
  · simp (disch := omega) only [Memory.get_setWord]

theorem restore (h : Stage c image heap size cell low top) {fp₀ : Nat} {saved ret : Int32}
    (hp : Points size cell m (Int32.ofNat fp₀) sp) (hlow : low + 8 ≤ fp₀) (htop : fp₀ ≤ top)
    (hsaved : m.word (fp₀ - 4) = saved) (hret : m.word (fp₀ - 8) = ret) {rest : Code}
    {st' : List Value} {m' : Memory}
    (hrest : Acts (Touched cell (cell + 4) low top) image heap rest (.int ret :: st)
      (m.setWord cell saved) st' m') :
    Acts (Touched cell (cell + 4) low top) image heap
      ((c.loadFrame ++ [Instr.pushI returnAddressOffset, .add, .loadI])
        ++ ((c.loadFrame ++ [Instr.pushI savedFrameOffset, .add, .loadI])
        ++ (c.storeFrame ++ rest)))
      st m st' m' := by
  have hsavedAt : Int32.ofNat fp₀ + savedFrameOffset = Int32.ofNat (fp₀ - 4) :=
    Word.ofNat_add_neg (show 4 ≤ fp₀ by omega)
  have hreturnAt : Int32.ofNat fp₀ + returnAddressOffset = Int32.ofNat (fp₀ - 8) :=
    Word.ofNat_add_neg (show 8 ≤ fp₀ by omega)
  have hfirst : Acts (Touched cell (cell + 4) low top) image heap
      (c.loadFrame ++ [Instr.pushI returnAddressOffset, .add, .loadI]) st m (.int ret :: st) m := by
    refine (h.loadFrame hp.size _).append (.quiet rfl (.quiet rfl ?_))
    rw [hp.frame, hreturnAt, ← hret]
    exact h.loadSlot hp.size (by omega) (by omega) _
  have hsecond : Acts (Touched cell (cell + 4) low top) image heap
      (c.loadFrame ++ [Instr.pushI savedFrameOffset, .add, .loadI]) (.int ret :: st) m
      (.int saved :: .int ret :: st) m := by
    refine (h.loadFrame hp.size _).append (.quiet rfl (.quiet rfl ?_))
    rw [hp.frame, hsavedAt, ← hsaved]
    exact h.loadSlot hp.size (by omega) (by omega) _
  exact hfirst.append (hsecond.append ((h.storeFrame hp.size _ _).append hrest))

theorem leave (h : Stage c image heap size cell low top) {fp₀ n : Nat} {saved ret : Int32}
    {result : Ty} (hvs : result.Operands vs) (hp : Points size cell m (Int32.ofNat fp₀) sp)
    (hlow : low ≤ sp) (hfp : sp + 8 ≤ fp₀) (hn : sp + n = top) (hfp' : fp₀ ≤ top)
    (hsaved : m.word (fp₀ - 4) = saved) (hret : m.word (fp₀ - 8) = ret) (st : List Value) :
    ∃ m', Acts (Touched cell (cell + 4) low top) image heap (Frame.leave c n result) (vs ++ st) m
        (.int ret :: st) m' ∧
      Points size cell m' saved (top - result.size.toNat) ∧
      m'.operands result (top - result.size.toNat) = result.stored vs := by
  have hbounds := h.bounds
  have hsize := result.size_le
  have hlength := Ty.length_bytes hvs
  have hp₁ := h.setFrame hp saved
  have hp₂ := h.setStack hp₁ (top - result.size.toNat)
  refine ⟨_, h.restore hp (by omega) hfp' hsaved hret ?_, h.setSlot hp₂ (result.bytes vs)
    (a := top - result.size.toNat) (by omega) (by omega),
    Ty.operands_write hvs (by simp only [UInt32.size]; omega)⟩
  -- the header has been read, so that the result may be stored over the frame
  rcases hvs.cases with ⟨_, store, v, -, hstore, rfl⟩ | ⟨rfl, rfl⟩
  · have hraise := h.raiseStack hp₁ (n - result.size.toNat) (v :: .int ret :: st)
    rw [show sp + (n - result.size.toNat) = top - result.size.toNat by omega] at hraise
    simp only [hstore]
    exact .quiet rfl (hraise.append
      (h.storeValue hstore hvs hp₂ (by omega) (by omega) (.int ret :: st)))
  · -- nothing is stored, and the stack pointer is back at the top
    have hnothing (m : Memory) : m.write (top - Ty.void.size.toNat) (Ty.void.bytes []) = m := rfl
    have hraise := h.raiseStack hp₁ n (.int ret :: st)
    rw [hn] at hraise
    rw [hnothing, show top - Ty.void.size.toNat = top from rfl]
    exact hraise

theorem fetchResult (h : Stage c image heap size cell low top) {ty : Ty}
    (hvs : ty.Operands vs) (hp : Points size cell m fp sp) (hlow : low ≤ sp)
    (htop : sp + ty.size.toNat ≤ top) (hresult : m.operands ty sp = ty.stored vs)
    (st : List Value) :
    ∃ m', Acts (Touched cell (cell + 4) low top) image heap (Frame.fetchResult c ty) st m
        (ty.stored vs ++ st) m' ∧
      Points size cell m' fp (sp + ty.size.toNat) := by
  rcases hvs.cases with ⟨load, _, v, hload, _, rfl⟩ | ⟨rfl, rfl⟩
  · refine ⟨_, ?_, h.setStack hp (sp + ty.size.toNat)⟩
    have hvalue : Acts (Touched cell (cell + 4) low top) image heap [load]
        (.int (Int32.ofNat sp) :: st) m (m.operands ty sp ++ st) m :=
      .load hload (h.open_slot hp.size hlow htop (Ty.size_pos hload)) (.nil _ _)
    rw [hresult, ← hp.stack] at hvalue
    have hraise := h.raiseStack hp ty.size.toNat (ty.stored [v] ++ st)
    simp only [Frame.fetchResult, hload, Word.toInt32_eq_ofNat]
    exact ((h.loadStack hp.size _).append hvalue).append hraise
  · exact ⟨m, .nil _ _, hp⟩

end Stage
end IntervalStack.Frame
