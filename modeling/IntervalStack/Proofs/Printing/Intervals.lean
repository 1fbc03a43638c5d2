import IntervalStack.Proofs.Linking.Machine
import IntervalStack.Proofs.Printing.Output

/-! The routines that print intervals. An interval is a tree with scalars at its leaves; its records
may be shared. A routine follows the records and prints the tree. -/

namespace IntervalStack

inductive Scalar
  | int (n : Int32)
  | float (x : Double)
  | char (c : UInt8)
  | bool (b : Bool)

namespace Scalar

def kind : Scalar → ScalarKind
  | int _ => .int
  | float _ => .float
  | char _ => .char
  | bool _ => .bool

def text : Scalar → String
  | int n => toString n.toInt
  | float x => x.general
  | char c => String.singleton (Char.ofNat c.toNat)
  | bool b => if b then "true" else "false"

def StoredAt (memory : Memory) (a : Nat) : Scalar → Prop
  | int n => memory.word a = n
  | float x => UInt64.ofNat (LittleEndian.decode (memory.read a 8)) = x.bits
  | char c => memory.get a = c
  | bool b => b = (memory.get a != 0)

end Scalar

/-- An interval with scalar bounds, or with intervals as bounds. -/
inductive Interval
  | flat (low high : Scalar)
  | nested (low high : Interval)

namespace Interval

def text : Interval → String
  | flat low high => "[" ++ low.text ++ ", " ++ high.text ++ "]"
  | nested low high => "[" ++ low.text ++ ", " ++ high.text ++ "]"

/-- The interval, whose leaves are of the kind `k`, is laid out in live records that lie where signed
addresses reach, the first one at the address. Nothing keeps two bounds from being one record. -/
inductive LaidOut (k : ScalarKind) (memory : Memory) (heap : Heap) : Interval → Nat → Prop
  | flat {b : HeapBlock} {low high : Scalar} (hb : b ∈ heap.live) (hreach : b.stop ≤ 0x80000000)
      (hroom : (Layout.intervalSize k.ty).toNat ≤ b.size)
      (hcode : memory.word (b.start + 4) = Layout.flatIntervalCode)
      (hwidth : (memory.get (b.start + 11)).toNat = k.ty.size.toNat)
      (hkinds : low.kind = k ∧ high.kind = k) (hlow : low.StoredAt memory (b.start + 12))
      (hhigh : high.StoredAt memory (b.start + (12 + k.ty.size.toNat))) :
      LaidOut k memory heap (.flat low high) b.start
  | nested {b : HeapBlock} {low high : Interval} {x y : Nat} (hb : b ∈ heap.live)
      (hreach : b.stop ≤ 0x80000000)
      (hroom : (Layout.intervalSize (.interval k.ty)).toNat ≤ b.size)
      (hcode : memory.word (b.start + 4) = Layout.nestedIntervalCode)
      (hx : memory.word (b.start + 12) = Int32.ofNat x)
      (hy : memory.word (b.start + 16) = Int32.ofNat y) (hlow : LaidOut k memory heap low x)
      (hhigh : LaidOut k memory heap high y) : LaidOut k memory heap (.nested low high) b.start

end Interval

open Generator Environment

variable {image : Image} {m : Machine} {k : ScalarKind} {c : Code} {st : List Value} {a : Nat}
  {group : String} {s s' : State}

namespace Machine

theorem Legible.writes_bool (h : m.Legible) (n : Int32) :
    m.Writes (printBoolCode group) (.int n :: st) (if n = 0 then "false" else "true") st := by
  intro p hp
  have hyesText : (trueString, "true") ∈ printTexts := by simp [printTexts]
  have hnoText : (falseString, "false") ∈ printTexts := by simp [printTexts]
  have hformat : (stringFormat, "%s") ∈ printTexts := by simp [printTexts]
  have hparse : Format.parse "%s" = .ok [.str] := by cbv
  obtain ⟨yes, hyes, hreadYes⟩ := h.readText hyesText
  obtain ⟨no, hno, hreadNo⟩ := h.readText hnoText
  have hnoLabel : m.image.label? (Labels.part group "false") = some (p + 3) :=
    hp.label [.jumpFalse (Labels.part group "false"), .pushD trueString,
      .jump (Labels.part group "join")] _ _ rfl
  have hjoin : m.image.label? (Labels.part group "join") = some (p + 4) :=
    hp.label [.jumpFalse (Labels.part group "false"), .pushD trueString,
      .jump (Labels.part group "join"), .label (Labels.part group "false"),
      .pushD falseString] _ _ rfl
  have hword {v : Nat} {word : String} (hread : m.readText (Int32.ofNat v).toUInt32 = .ok word) :
      m.Prints word (p + 4) (.int (Int32.ofNat v) :: st) (p + 6) st := by
    have hrender : Format.renderArgument m.readText .str (.int (Int32.ofNat v)) = .ok word := hread
    exact h.writes_argument hformat hparse rfl hrender (p + 4)
      (@Placed.right _ _ _ (printString stringFormat) hp)
  have hbranch : View.Step m.image ⟨p, .int n :: st, m.memory, m.heap⟩
      ⟨if n = 0 then p + 3 else p + 1, st, m.memory, m.heap⟩ :=
    .jumpFalse (hp.code 0 _ rfl) hnoLabel n
  by_cases hn : n = 0
  · rw [if_pos hn] at hbranch ⊢
    exact (hword hreadNo).after ((Goes.one hbranch).trans
      (.one (.act (hp.code 3 _ rfl) (Instr.act_pushD hno))))
  · rw [if_neg hn] at hbranch ⊢
    exact (hword hreadYes).after ((Goes.one hbranch).trans
      ((Goes.one (.act (hp.code 1 _ rfl) (Instr.act_pushD hyes))).trans
        (.one (.jump (hp.code 2 _ rfl) hjoin))))

theorem Legible.writes_scalar (h : m.Legible) {x : Scalar} {i : Instr} {n : Int32}
    (hi : Instr.load? x.kind.ty = some i) (hc : printScalar x.kind s = .ok (c, s'))
    (ha : m.check n.toInt x.kind.ty.size.toNat = .ok a) (hx : x.StoredAt m.memory a) :
    m.Writes ([i] ++ c) (.int n :: st) x.text st := by
  have hload : m.Writes [i] (.int n :: st) "" (m.memory.operands x.kind.ty a ++ st) := .load hi ha
  suffices hprint : m.Writes c (m.memory.operands x.kind.ty a ++ st) x.text st by
    simpa using hload.append hprint
  have hbyte : LittleEndian.decode (m.memory.read a 1) = (m.memory.get a).toNat := by
    simp [Memory.read, LittleEndian.decode]
  have hlt := (m.memory.get a).toNat_lt
  have hword : (Int32.ofNat (m.memory.get a).toNat).toUInt32.toNat = (m.memory.get a).toNat :=
    UInt32.toNat_ofNat_of_lt' (by simp only [UInt32.size]; omega)
  rcases printScalar_ok hc with ⟨hk, -, rfl⟩ | ⟨hk, -, rfl⟩ | ⟨hk, -, rfl⟩ | ⟨hk, -, rfl⟩ <;>
    cases x <;> cases hk
  case inl.bool.refl b =>
    have hzero : (Int32.ofNat (m.memory.get a).toNat = 0) ↔ m.memory.get a = 0 := by
      refine ⟨fun h => ?_, fun h => by rw [h]; rfl⟩
      rw [h] at hword
      exact UInt8.toNat_inj.1 hword.symm
    have hbool : m.Writes (printBoolCode (s.label "print-bool"))
        (.int (Int32.ofNat (m.memory.get a).toNat) :: st) _ st := h.writes_bool _
    have htext : (if Int32.ofNat (m.memory.get a).toNat = 0 then "false" else "true")
        = (Scalar.bool b).text := by
      rw [show b = (m.memory.get a != 0) from hx]
      by_cases h0 : m.memory.get a = 0 <;> simp [Scalar.text, hzero, h0]
    rw [htext, ← hbyte] at hbool
    exact hbool
  case inr.inl.char.refl ch =>
    have ht : (characterFormat, "%c") ∈ printTexts := by simp [printTexts]
    refine h.writes_argument ht (by cbv) rfl ?_
    rw [hbyte, ← show m.memory.get a = ch from hx]
    simp only [Format.renderArgument, hword, Scalar.text, Nat.mod_eq_of_lt hlt]
  case inr.inr.inl.int.refl n' =>
    have ht : (integerFormat, "%d") ∈ printTexts := by simp [printTexts]
    refine h.writes_argument ht (by cbv) rfl ?_
    rw [show m.memory.word a = n' from hx]
    rfl
  case inr.inr.inr.float.refl x' =>
    have ht : (floatFormat, "%g") ∈ printTexts := by simp [printTexts]
    refine h.writes_argument ht (by cbv) rfl ?_
    rw [show UInt64.ofNat (LittleEndian.decode (m.memory.read a 8)) = x'.bits from hx]
    rfl

/-! The parts of a printer. -/

def printerEntry (k : ScalarKind) : Code :=
  [Instr.label k.printer, .exchange] ++ printString openBracketString
    ++ [Instr.duplicate, .pushI Layout.typeCodeOffset, .add, .loadI]
    ++ [Instr.pushI Layout.nestedIntervalCode, .subtract]

def flatBounds (load : Instr) (low high : Code) : Code :=
  [Instr.duplicate, .pushI Layout.payloadOffset, .add] ++ ([load] ++ low)
    ++ printString separatorString
    ++ ([Instr.duplicate] ++ [Instr.duplicate, .pushI Layout.subtypeSizeOffset, .add, .loadC]
      ++ [Instr.pushI Layout.payloadOffset, .add, .add]) ++ ([load] ++ high)

def nestedBound (k : ScalarKind) (offset : Int32) : Code :=
  [Instr.duplicate, .pushI offset, .add, .loadI] ++ [Instr.call k.printer]

def nestedBounds (k : ScalarKind) : Code :=
  nestedBound k Layout.payloadOffset ++ printString separatorString
    ++ nestedBound k (Layout.payloadOffset + Layout.pointerSize.toInt32)

def printerExit (close : String) : Code :=
  [Instr.label close, .pop] ++ printString closeBracketString

structure Printer (image : Image) (k : ScalarKind) where
  entryAt : Nat
  flatAt : Nat
  nestedAt : Nat
  closeAt : Nat
  load : Instr
  low : Code
  high : Code
  close : String
  hload : Instr.load? k.ty = some load
  hlow : ∃ s s', printScalar k s = .ok (low, s')
  hhigh : ∃ s s', printScalar k s = .ok (high, s')
  hlabel : image.label? k.printer = some entryAt
  entry : Placed image entryAt (printerEntry k)
  branch : ∃ l, image.code[entryAt + (printerEntry k).executable.length]? = some (.jumpFalse l) ∧
    image.label? l = some nestedAt
  hflatAt : flatAt = entryAt + (printerEntry k).executable.length + 1
  flat : Placed image flatAt (flatBounds load low high)
  skip : image.code[flatAt + (flatBounds load low high).executable.length]? = some (.jump close)
  hclose : image.label? close = some closeAt
  nested : Placed image nestedAt (nestedBounds k)
  hcloseAt : closeAt = nestedAt + (nestedBounds k).executable.length
  exit : Placed image closeAt (printerExit close)
  ret : image.code[closeAt + (printerExit close).executable.length]? = some .ret

theorem printerCode_eq {load : Instr} {low high : Code} (hload : Instr.load? k.ty = some load) :
    printerCode k group low high = printerEntry k
      ++ ([Instr.jumpFalse (Labels.part group "nested")] ++ (flatBounds load low high
      ++ ([Instr.jump (Labels.part group "close")] ++ ([Instr.label (Labels.part group "nested")]
      ++ (nestedBounds k ++ (printerExit (Labels.part group "close") ++ [Instr.ret])))))) := by
  simp [printerCode, printerEntry, flatBounds, nestedBounds, nestedBound, printerExit, hload]

theorem exists_printer {p : Nat} (h : intervalPrinter k s = .ok (c, s')) (hp : Placed image p c) :
    Nonempty (Printer image k) := by
  obtain ⟨low, s₁, high, hlow, hhigh, rfl⟩ := intervalPrinter_ok h
  obtain ⟨load, hload⟩ : ∃ load, Instr.load? k.ty = some load := by cases k <;> exact ⟨_, rfl⟩
  rw [printerCode_eq hload] at hp
  have hflat := hp.right.right
  have hnested := hflat.right.right
  have hexit := hnested.right.right
  exact ⟨{
    entryAt := p
    flatAt := _
    nestedAt := _
    closeAt := _
    load := load
    low := low
    high := high
    close := Labels.part (s.label "interval-printer") "close"
    hload := hload
    hlow := ⟨_, _, hlow⟩
    hhigh := ⟨_, _, hhigh⟩
    hlabel := hp.head
    entry := hp.left
    branch := ⟨_, hp.right.code 0 _ rfl, hnested.head⟩
    hflatAt := rfl
    flat := hflat.left
    skip := hflat.right.code 0 _ rfl
    hclose := hexit.head
    nested := hnested.right.left
    hcloseAt := rfl
    exit := hexit.left
    ret := hexit.right.code 0 _ rfl }⟩

/-! What the parts print. -/

structure Prepared (m : Machine) : Prop where
  legible : m.Legible
  tidy : m.heap.Tidy
  limit : m.heap.limit ≤ m.memory.size
  short : m.image.code.size < 0x80000000

variable {b : HeapBlock} {text text' : String}

theorem Prepared.writes_field (h : m.Prepared) (ty : Ty) (st : List Value) {i : Instr}
    {offset : Int32} (o : Nat)
    (hi : Instr.load? ty = some i) (ho : offset = Int32.ofNat o) (hb : b ∈ m.heap.live)
    (hreach : b.stop ≤ 0x80000000) (hroom : o + ty.size.toNat ≤ b.size) :
    m.Writes ([Instr.duplicate, .pushI offset, .add] ++ [i]) (.int (Int32.ofNat b.start) :: st) ""
      (m.memory.operands ty (b.start + o) ++ .int (Int32.ofNat b.start) :: st) := by
  have haddress : m.Writes [Instr.duplicate, .pushI offset, .add]
      (.int (Int32.ofNat b.start) :: st) ""
      (.int (Int32.ofNat (b.start + o)) :: .int (Int32.ofNat b.start) :: st) := by
    rw [Int32.ofNat_add, ← ho]
    exact .quiet rfl
  have hstop : b.stop = b.start + b.size := rfl
  exact haddress.append (.load hi (h.tidy.check hb (Nat.le_add_right _ _) (by omega)
    (Ty.size_pos hi) hreach h.limit))

theorem Prepared.writes_entry (h : m.Prepared) (v : Value) (st : List Value) (hb : b ∈ m.heap.live)
    (hreach : b.stop ≤ 0x80000000) (hroom : 8 ≤ b.size) :
    m.Writes (printerEntry k) (v :: .int (Int32.ofNat b.start) :: st) "["
      (.int (m.memory.word (b.start + 4) - Layout.nestedIntervalCode)
        :: .int (Int32.ofNat b.start) :: v :: st) := by
  have hexchange : m.Writes [Instr.label k.printer, .exchange]
      (v :: .int (Int32.ofNat b.start) :: st) "" (.int (Int32.ofNat b.start) :: v :: st) :=
    .quiet rfl
  have hopen : m.Writes (printString openBracketString) (.int (Int32.ofNat b.start) :: v :: st) "["
      (.int (Int32.ofNat b.start) :: v :: st) :=
    h.legible.writes_sign (by simp [printTexts]) (by cbv)
  have hcode := h.writes_field .int (v :: st) 4 rfl (rfl : Layout.typeCodeOffset = _) hb hreach hroom
  have hdifference : m.Writes [Instr.pushI Layout.nestedIntervalCode, .subtract]
      (.int (m.memory.word (b.start + 4)) :: .int (Int32.ofNat b.start) :: v :: st) "" _ :=
    .quiet rfl
  exact ((hexchange.append hopen).append hcode).append hdifference

theorem Prepared.writes_exit (h : m.Prepared) {close : String} (u v : Value) (st : List Value) :
    m.Writes (printerExit close) (u :: v :: st) "]" (v :: st) := by
  have hpop : m.Writes [Instr.label close, .pop] (u :: v :: st) "" (v :: st) := .quiet rfl
  have hclose : m.Writes (printString closeBracketString) (v :: st) "]" (v :: st) :=
    h.legible.writes_sign (by simp [printTexts]) (by cbv)
  exact hpop.append hclose

theorem Prepared.writes_separator (h : m.Prepared) (st : List Value) :
    m.Writes (printString separatorString) st ", " st :=
  h.legible.writes_sign (by simp [printTexts]) (by cbv)

theorem Prepared.writes_flat (h : m.Prepared) (P : Printer m.image k) {low high : Scalar}
    (hb : b ∈ m.heap.live) (hreach : b.stop ≤ 0x80000000)
    (hroom : (Layout.intervalSize k.ty).toNat ≤ b.size)
    (hwidth : (m.memory.get (b.start + 11)).toNat = k.ty.size.toNat)
    (hkinds : low.kind = k ∧ high.kind = k) (hlow : low.StoredAt m.memory (b.start + 12))
    (hhigh : high.StoredAt m.memory (b.start + (12 + k.ty.size.toNat))) :
    m.Writes (flatBounds P.load P.low P.high) (.int (Int32.ofNat b.start) :: st)
      (low.text ++ ", " ++ high.text) (.int (Int32.ofNat b.start) :: st) := by
  have hstop : b.stop = b.start + b.size := rfl
  have hpos := Ty.size_pos P.hload
  have hsize : (Layout.intervalSize k.ty).toNat = 12 + 2 * k.ty.size.toNat := by cases k <;> rfl
  have hload := P.hload
  obtain ⟨_, _, hlowCode⟩ := P.hlow
  obtain ⟨_, _, hhighCode⟩ := P.hhigh
  have haddress : m.Writes [Instr.duplicate, .pushI Layout.payloadOffset, .add]
      (.int (Int32.ofNat b.start) :: st) ""
      (.int (Int32.ofNat (b.start + 12)) :: .int (Int32.ofNat b.start) :: st) := by
    rw [Int32.ofNat_add]
    exact .quiet rfl
  have hfirst : m.Writes ([P.load] ++ P.low)
      (.int (Int32.ofNat (b.start + 12)) :: .int (Int32.ofNat b.start) :: st) low.text
      (.int (Int32.ofNat b.start) :: st) := by
    obtain ⟨rfl, -⟩ := hkinds
    exact h.legible.writes_scalar hload hlowCode
      (h.tidy.check hb (by omega) (by omega) hpos hreach h.limit) hlow
  have hseparator := h.writes_separator (.int (Int32.ofNat b.start) :: st)
  have htwice : m.Writes [Instr.duplicate] (.int (Int32.ofNat b.start) :: st) ""
      (.int (Int32.ofNat b.start) :: .int (Int32.ofNat b.start) :: st) := .quiet rfl
  have hbyte := h.writes_field .char (.int (Int32.ofNat b.start) :: st) 11 rfl
    (rfl : Layout.subtypeSizeOffset = _) hb hreach (by show 11 + 1 ≤ b.size; omega)
  have hread : m.memory.operands .char (b.start + 11) = [.int (Int32.ofNat k.ty.size.toNat)] := by
    simp [Memory.operands, Memory.read, LittleEndian.decode, hwidth]
  rw [hread] at hbyte
  -- the second bound stands behind as many bytes as the header says
  have hbehind : m.Writes [Instr.pushI Layout.payloadOffset, .add, .add]
      (.int (Int32.ofNat k.ty.size.toNat) :: .int (Int32.ofNat b.start)
        :: .int (Int32.ofNat b.start) :: st) ""
      (.int (Int32.ofNat (b.start + (12 + k.ty.size.toNat))) :: .int (Int32.ofNat b.start) :: st) := by
    rw [Nat.add_comm 12, Int32.ofNat_add, Int32.ofNat_add]
    exact .quiet rfl
  have hsecond : m.Writes ([P.load] ++ P.high)
      (.int (Int32.ofNat (b.start + (12 + k.ty.size.toNat))) :: .int (Int32.ofNat b.start) :: st)
      high.text (.int (Int32.ofNat b.start) :: st) := by
    obtain ⟨-, rfl⟩ := hkinds
    exact h.legible.writes_scalar hload hhighCode
      (h.tidy.check hb (by omega) (by omega) hpos hreach h.limit) hhigh
  have hall := (((haddress.append hfirst).append hseparator).append
    ((htwice.append hbyte).append hbehind)).append hsecond
  simp only [String.empty_append, String.append_empty] at hall
  exact hall

theorem Prepared.writes_bound (h : m.Prepared) (st : List Value) {offset : Int32} (o : Nat) {x : Nat}
    (ho : offset = Int32.ofNat o) (hb : b ∈ m.heap.live) (hreach : b.stop ≤ 0x80000000)
    (hroom : o + 4 ≤ b.size) (hx : m.memory.word (b.start + o) = Int32.ofNat x)
    (hcall : ∀ st, m.Writes [.call k.printer] (.int (Int32.ofNat x) :: st) text st) :
    m.Writes (nestedBound k offset) (.int (Int32.ofNat b.start) :: st) text
      (.int (Int32.ofNat b.start) :: st) := by
  have hfield := h.writes_field .int st o rfl ho hb hreach hroom
  rw [show m.memory.operands .int (b.start + o) = [.int (Int32.ofNat x)] by
    rw [← hx]
    rfl] at hfield
  have hall := hfield.append (hcall _)
  rwa [String.empty_append] at hall

/-- A call prints what the way through the one or the other kind of bounds prints, between
brackets. -/
theorem Prepared.writes_call (h : m.Prepared) (text : String) (st : List Value)
    (P : Printer m.image k) (hb : b ∈ m.heap.live)
    (hreach : b.stop ≤ 0x80000000) (hroom : 8 ≤ b.size)
    (hbody : ∀ st, m.Prints text
      (if m.memory.word (b.start + 4) = Layout.nestedIntervalCode then P.nestedAt else P.flatAt)
      (.int (Int32.ofNat b.start) :: st) P.closeAt (.int (Int32.ofNat b.start) :: st)) :
    m.Writes [.call k.printer] (.int (Int32.ofNat b.start) :: st) ("[" ++ text ++ "]") st := by
  intro p hp
  have hcode := hp.code 0 _ rfl
  have hlt : p < m.image.code.size := (Array.getElem?_eq_some_iff.1 hcode).1
  have hshort := h.short
  have hentry := h.writes_entry (.int (Int32.ofNat (p + 1))) st hb hreach hroom P.entryAt P.entry
  obtain ⟨l, hbranch, hlabel⟩ := P.branch
  have hstep : View.Step m.image ⟨_, .int (m.memory.word (b.start + 4) - Layout.nestedIntervalCode)
      :: .int (Int32.ofNat b.start) :: .int (Int32.ofNat (p + 1)) :: st, m.memory, m.heap⟩ _ :=
    .jumpFalse hbranch hlabel _
  simp only [Word.sub_eq_zero_iff, ← P.hflatAt] at hstep
  have hexit := h.writes_exit (.int (Int32.ofNat b.start)) (.int (Int32.ofNat (p + 1))) st P.closeAt P.exit
  exact (((hentry.trans ((hbody _).after (.one hstep))).trans hexit).after
    (.one (.call hcode (isHostEntry_printer k) P.hlabel))).next (.one (.ret P.ret (by omega)))

theorem Prepared.writes_interval (h : m.Prepared) (P : Printer m.image k) {i : Interval}
    (hi : i.LaidOut k m.memory m.heap a) :
    ∀ st, m.Writes [.call k.printer] (.int (Int32.ofNat a) :: st) i.text st := by
  induction hi with
  | @flat b low high hb hreach hroom hcode hwidth hkinds hlow hhigh =>
    intro st
    have hsize : (Layout.intervalSize k.ty).toNat = 12 + 2 * k.ty.size.toNat := by cases k <;> rfl
    have hcall := h.writes_call (low.text ++ ", " ++ high.text) st P hb hreach
      (by omega) fun st => by
        rw [hcode, if_neg (by decide)]
        exact (h.writes_flat P hb hreach hroom hwidth hkinds hlow hhigh _ P.flat).next
          (.one (.jump P.skip P.hclose))
    rwa [← String.append_assoc, ← String.append_assoc] at hcall
  | @nested b low high x y hb hreach hroom hcode hx hy hlow hhigh ihlow ihhigh =>
    intro st
    have hroom : 20 ≤ b.size := hroom
    have hcall := h.writes_call (low.text ++ ", " ++ high.text) st P hb hreach
      (by omega) fun st => by
        have hfirst := h.writes_bound st 12 (rfl : Layout.payloadOffset = _) hb hreach
          (by omega) hx ihlow
        have hseparator := h.writes_separator (.int (Int32.ofNat b.start) :: st)
        have hsecond := h.writes_bound st 16
          (rfl : Layout.payloadOffset + Layout.pointerSize.toInt32 = _) hb hreach (by omega) hy ihhigh
        rw [hcode, if_pos rfl, P.hcloseAt]
        exact ((hfirst.append hseparator).append hsecond) _ P.nested
    rwa [← String.append_assoc, ← String.append_assoc] at hcall

/-- Printing an interval. At a call of the printer for a kind of scalar, with the record of an
interval over that kind on the stack and the texts of the program in their places, the machine prints
the interval and goes on behind the call. The record has been taken from the stack, and nothing else
has changed. -/
theorem interval_is_printed {program : Program} {capacity : UInt32} {settings : MachineSettings}
    {m₀ : Machine} {i : Interval} (hgenerate : generate program capacity = .ok c)
    (hload : load c settings = .ok m₀) (hm : Continues m₀ m) (htidy : m.heap.Tidy)
    (htexts : ∀ t ∈ printTexts, m.Shows t.1 t.2) (hshort : m.image.code.size < 0x80000000)
    (hrunning : m.halted = false) (hcall : m.image.code[m.pc]? = some (.call k.printer))
    (hstack : m.stack = .int (Int32.ofNat a) :: st) (hi : i.LaidOut k m.memory m.heap a) :
    ∃ steps, Reaches m { m with
      pc := m.pc + 1, stack := st, output := m.output ++ i.text, steps } := by
  have hl := load_loaded hload
  have hmem : Instr.call k.printer ∈ c.executable := by
    rw [← hl.code, ← hm.image]
    exact Array.mem_toList_iff.2 (Array.mem_of_getElem? hcall)
  obtain ⟨code, s, s', hprinter, pre, post, rfl⟩ :=
    (generate_assembled hgenerate).printer_of_call (List.mem_filter.1 hmem).1
  have hplaced := hl.placed rfl
  rw [← hm.image] at hplaced
  obtain ⟨P⟩ := exists_printer hprinter hplaced
  have hfits := hl.fits
  have hprepared : m.Prepared := {
    legible := ⟨by rw [hm.size, hl.size]; exact Nat.le_of_lt settings.memorySize.toNat_lt, htexts⟩
    tidy := htidy
    limit := by
      rw [hm.limit, hm.size, hl.size, hl.heap]
      exact hfits
    short := hshort }
  refine reaches_of_prints hrunning ?_
  rw [hstack]
  exact hprepared.writes_interval P hi st m.pc (.call hcall)

def twinBounds : Program :=
  let x : Binding := ⟨"x", .interval .char, .global 0⟩
  ⟨4, [], [], ⟨⟨4, [x]⟩, [⟨.declaration x (.interval (.char 'a') (.char 'z')), .none⟩,
    ⟨.print [.interval (.ident x) (.ident x)] false true, .none⟩]⟩⟩

def printsTwins (m : Machine) : Bool :=
  decide (m.halted = false ∧ m.image.code.size < 0x80000000 ∧
    m.image.code[m.pc]? = some (.call ScalarKind.char.printer) ∧ m.stack = [.int 176, .int 176] ∧
    m.output = "" ∧ m.heap.live = [⟨160, 16⟩, ⟨176, 20⟩] ∧
    m.memory.word 164 = Layout.flatIntervalCode ∧ m.memory.get 171 = 1 ∧ m.memory.get 172 = 97 ∧
    m.memory.get 173 = 122 ∧ m.memory.word 180 = Layout.nestedIntervalCode ∧
    m.memory.word 188 = 160 ∧ m.memory.word 192 = 160) &&
  printTexts.all fun t => match m.image.dataLabel? t.1 with
    | some a => decide (a + (Instr.dataS t.2).dataSize ≤ m.memory.size ∧
      m.memory.read a (Instr.dataS t.2).dataSize = (Instr.dataS t.2).bytes)
    | none => false

theorem interval_is_printed_twinBounds :
    ∃ code m₀, generate twinBounds 4 = .ok code ∧ load code ⟨1024, 256, 1000⟩ = .ok m₀ ∧
      ∃ m m', m = after 1000 92 m₀ ∧ m.stack = [.int 176, .int 176] ∧ Reaches m m' ∧
        m'.stack = [.int 176] ∧ m'.output = "[[a, z], [a, z]]" := by
  have htest : (generate twinBounds 4).toOption.any (fun code =>
      (load code ⟨1024, 256, 1000⟩).toOption.any fun m₀ => printsTwins (after 1000 92 m₀)) = true := by
    decide +kernel
  obtain ⟨code, hgenerate, hloads⟩ := exists_ok_of_any htest
  obtain ⟨m₀, hload, hok⟩ := exists_ok_of_any hloads
  have hl := load_loaded hload
  have hintact : Intact m₀ (after 1000 92 m₀) :=
    after_intact (by rw [hl.size]; decide) (hl.intact (load_fresh hload).2) _ _
  generalize hm : after 1000 92 m₀ = m at hok hintact
  simp only [printsTwins, Bool.and_eq_true, decide_eq_true_eq, List.all_eq_true] at hok
  obtain ⟨⟨hrunning, hshort, hcall, hstack, houtput, hlive, hflat, hwidth, hlow, hhigh, hnested, hx,
    hy⟩, htexts⟩ := hok
  have hfirst : (Interval.flat (.char 97) (.char 122)).LaidOut .char m.memory m.heap 160 :=
    .flat (b := ⟨160, 16⟩) (by simp [hlive]) (by decide) (by decide) hflat (by simp [hwidth]; rfl)
      ⟨rfl, rfl⟩ hlow hhigh
  have hlaid : (Interval.nested _ _).LaidOut .char m.memory m.heap 176 :=
    .nested (b := ⟨176, 20⟩) (by simp [hlive]) (by decide) (by decide) hnested hx hy hfirst hfirst
  obtain ⟨steps, hreaches⟩ := interval_is_printed hgenerate hload
    ⟨hintact.image, hintact.size, hintact.heap.base_eq, hintact.heap.limit_eq⟩ hintact.heap.sound.tidy
    (fun t ht => by
      have ht := htexts t ht
      split at ht
      · next a ha => exact ⟨a, ha, of_decide_eq_true ht⟩
      · cases ht) hshort hrunning hcall hstack hlaid
  refine ⟨code, m₀, hgenerate, hload, m, _, hm.symm, hstack, hreaches, rfl, ?_⟩
  show m.output ++ _ = _
  rw [houtput]
  decide +kernel

end Machine
end IntervalStack
