import IntervalStack.Proofs.Evaluation.Places
import IntervalStack.Proofs.Printing.Output

/-! Characters in variables. A character takes one byte in memory and is printed from one byte, so
that the first 256 come back from a variable as they were. -/

namespace IntervalStack

namespace Machine

variable {m m' : Machine} {slot : Option Int32} {b : Binding} {storage : Storage} {ty : Ty}
  {a : Int32} {v : Value} {place value : Code} {store : Instr} {bytes : List UInt8}

def Stores (m : Machine) (c : Code) (a : Int32) (bytes : List UInt8) : Prop :=
  ∀ p stack, Placed m.image p c → Goes m.image ⟨p, stack, m.memory, m.heap⟩
    ⟨p + c.executable.length, stack, m.memory.write a.toInt.toNat bytes, m.heap⟩

theorem Stores.behind {c : Code} (hs : Instr.store? ty = some store) (hv : ty.Operands [v])
    (ha : m.readable a ty.size.toNat)
    (h : ∀ p stack, Placed m.image p c → Goes m.image ⟨p, stack, m.memory, m.heap⟩
      ⟨p + c.executable.length, v :: .int a :: stack, m.memory, m.heap⟩) :
    m.Stores (c ++ [store]) a (ty.bytes [v]) := by
  intro p stack hp
  have hone : Code.executable [store] = [store] := by cases ty <;> cases hs <;> rfl
  have hcode := hp.right.code 0 store (by rw [hone]; rfl)
  rw [Code.executable_append, List.length_append, hone, ← Nat.add_assoc]
  exact (h p stack hp.left).trans (.one ⟨store, hcode, fun output steps => execute_store
    (m := View.machine ⟨_, v :: .int a :: stack, m.memory, m.heap⟩ m.image output steps) hs hv rfl
    (check_of_readable ha)⟩)

theorem Stores.declared (hs : Instr.store? ty = some store) (hv : ty.Operands [v])
    (ha : m.readable a ty.size.toNat) (hplace : m.Produces place [] (some (.int a)))
    (hvalue : m.Produces value [] (some v)) :
    m.Stores (place ++ value ++ [store]) a (ty.bytes [v]) := by
  refine .behind hs hv ha fun p stack hp => ?_
  rw [Code.executable_append, List.length_append, ← Nat.add_assoc]
  exact (hplace p stack hp.left).trans (hvalue _ _ hp.right)

theorem Stores.updated (hs : Instr.store? ty = some store) (hv : ty.Operands [v])
    (ha : m.readable a ty.size.toNat) (hplace : m.Produces place [] (some (.int a)))
    (hvalue : m.Produces value [] (some v)) :
    m.Stores (value ++ place ++ [.exchange, store]) a (ty.bytes [v]) := by
  rw [List.append_cons]
  refine .behind hs hv ha fun p stack hp => ?_
  have hexchange := hp.right.code 0 .exchange rfl
  rw [Code.executable_append, List.length_append, ← Nat.add_assoc] at hexchange ⊢
  rw [Code.executable_append, List.length_append, ← Nat.add_assoc]
  exact ((hvalue p stack hp.left.left).trans (hplace _ _ hp.left.right)).trans
    (.one (.act hexchange rfl))

/-! Where variables are. -/

def waypoints (m : Machine) (slot : Option Int32) : Storage → List Int32
  | .global _ => []
  | .aboveFrame _ | .belowFrame _ => [m.dataAddress Generator.cells.frame]
  | .member _ => [m.dataAddress Generator.cells.frame, m.framePointer + slot.getD 0]

def addressOf (m : Machine) (slot : Option Int32) (b : Binding) : Int32 :=
  m.storageBase slot b.storage + b.storage.offset

/-- The variable is found and can be used, and it is no part of the words that lead to it. -/
structure Hosts (m : Machine) (slot : Option Int32) (b : Binding) : Prop where
  leads : m.storageReadable slot b.storage
  readable : m.readable (m.addressOf slot b) b.ty.size.toNat
  apart : ∀ w ∈ m.waypoints slot b.storage,
    (m.addressOf slot b).toInt.toNat + b.ty.size.toNat ≤ w.toInt.toNat ∨
      w.toInt.toNat + 4 ≤ (m.addressOf slot b).toInt.toNat

theorem storage_congr (himage : m'.image = m.image) (hcheck : m'.check = m.check)
    (hwords : ∀ w ∈ m.waypoints slot storage, m'.wordAt w = m.wordAt w) :
    m'.storageBase slot storage = m.storageBase slot storage ∧
      m'.storageReadable slot storage = m.storageReadable slot storage ∧
      m'.waypoints slot storage = m.waypoints slot storage := by
  have hdata (l : String) : m'.dataAddress l = m.dataAddress l := by
    rw [dataAddress, dataAddress, himage]
  have hhas (l : String) : m'.hasData l = m.hasData l := by rw [hasData, hasData, himage]
  have hreadable (a : Int32) (w : Nat) : m'.readable a w = m.readable a w := by
    rw [Machine.readable, Machine.readable, hcheck]
  have hframe : m'.frameReadable = m.frameReadable := by
    rw [frameReadable, frameReadable, hhas, hdata, hreadable]
  have hpointer (hw : m'.wordAt (m.dataAddress Generator.cells.frame)
      = m.wordAt (m.dataAddress Generator.cells.frame)) : m'.framePointer = m.framePointer := by
    rw [framePointer, framePointer, hdata, hw]
  cases storage with
  | global o => exact ⟨hdata _, hhas _, rfl⟩
  | aboveFrame o | belowFrame o =>
    have hsame := hpointer (hwords _ List.mem_cons_self)
    exact ⟨hsame, hframe, congrArg (fun w => [w]) (hdata _)⟩
  | member o =>
    have hsame := hpointer (hwords _ List.mem_cons_self)
    have hself := hwords _ (List.mem_cons_of_mem _ List.mem_cons_self)
    refine ⟨?_, ?_, ?_⟩
    · rw [storageBase, storageBase, selfPointer, selfPointer, hsame, hself]
    · rw [storageReadable, storageReadable, hframe, hsame, hreadable]
    · rw [waypoints, waypoints, hdata, hsame]

theorem Hosts.write (h : m.Hosts slot b) (himage : m'.image = m.image) (hheap : m'.heap = m.heap)
    (hlength : bytes.length = b.ty.size.toNat)
    (hmemory : m'.memory = m.memory.write (m.addressOf slot b).toInt.toNat bytes) :
    m'.Hosts slot b ∧ m'.addressOf slot b = m.addressOf slot b := by
  have hcheck : m'.check = m.check := by
    funext address width
    simp only [Machine.check, hheap, hmemory, Memory.size_write]
  have hwords : ∀ w ∈ m.waypoints slot b.storage, m'.wordAt w = m.wordAt w := by
    intro w hw
    have hapart := h.apart w hw
    have hreach := w.toInt_lt
    have hreach' := (m.addressOf slot b).toInt_lt
    have hsmall : b.ty.size.toNat ≤ 8 := by cases b.ty <;> simp [Ty.size]
    have hword : UInt32.size = 0x100000000 := rfl
    rw [wordAt, wordAt, hmemory]
    exact Memory.word_congr fun i hi =>
      Memory.get_write_of_outside _ (by omega) (by omega) (by omega)
  obtain ⟨hbase, hleads, hway⟩ := storage_congr himage hcheck hwords
  have hsame : m'.addressOf slot b = m.addressOf slot b := by rw [addressOf, addressOf, hbase]
  refine ⟨⟨?_, ?_, ?_⟩, hsame⟩
  · rw [hleads]
    exact h.leads
  · rw [hsame, Machine.readable, hcheck]
    exact h.readable
  · rw [hway, hsame]
    exact h.apart

theorem Legible.write {a : Nat} (h : m.Legible) (himage : m'.image = m.image)
    (hmemory : m'.memory = m.memory.write a bytes) (hin : a + bytes.length ≤ UInt32.size)
    (hfront : ∀ t ∈ printTexts, ∀ d, m.image.dataLabel? t.1 = some d → a + bytes.length ≤ d) :
    m'.Legible := by
  have hsize : m'.memory.size = m.memory.size := by rw [hmemory, Memory.size_write]
  refine ⟨hsize ▸ h.size, fun t ht => ?_⟩
  have hshows := h.shows t ht
  obtain ⟨d, hd, hstop, -⟩ := id hshows
  have hle := h.size
  refine hshows.of_get himage hsize fun d' hd' i hi => ?_
  obtain rfl := Option.some.inj (hd.symm.trans hd')
  have hapart := hfront t ht d hd
  rw [hmemory]
  exact Memory.get_write_of_outside _ hin (by omega) (by omega)

end Machine

namespace Generator

variable {ctx : Context} {b : Binding} {e target : Expr} {store : Instr} {place code : Code}
  {s s' : State}

theorem stmt_declaration (span : Span) (hs : Instr.store? b.ty = some store)
    (hplace : Frame.storageAddress? cells b.storage ctx.selfSlot = some place)
    (hplain : e.ty.isHeap = false) (hvalue : (expr ctx e >>= valueOf e) s = .ok (code, s')) :
    stmt ctx span (.declaration b e) s = .ok (place ++ code ++ [store], s') := by
  obtain ⟨f, s₁, hf, hvalue⟩ := bind_ok.1 hvalue
  simp only [stmt, declare, ownedValueOf, bind_ok, shaped_ok, storeOf_ok, bindingAddress_ok, pure_ok]
  exact ⟨store, s, ⟨hs, rfl⟩, place, s, ⟨hplace, rfl⟩, f, s₁, hf, code, s',
    ⟨code, s', hvalue, by simp [hplain], rfl⟩, rfl, rfl⟩

theorem stmt_update (span : Span) (hs : Instr.store? target.ty = some store)
    (hplain : e.ty.isHeap = false) (hplain' : target.ty.isHeap = false)
    (hvalue : (expr ctx e >>= valueOf e) s = .ok (code, s'))
    (hplace : expr ctx target s' = .ok (address place, s')) :
    stmt ctx span (.update target e) s = .ok (code ++ place ++ [.exchange, store], s') := by
  obtain ⟨f, s₁, hf, hvalue⟩ := bind_ok.1 hvalue
  simp only [stmt, update, ownedValueOf, bind_ok, shaped_ok, storeOf_ok, require_ok, hplain',
    Bool.false_eq_true, if_false, pure_ok]
  exact ⟨store, s, ⟨hs, rfl⟩, f, s₁, hf, code, s', ⟨code, s', hvalue, by simp [hplain], rfl⟩,
    address place, s', hplace, (), s', ⟨rfl, rfl⟩, place, s', ⟨rfl, rfl⟩, rfl, rfl⟩

end Generator

/-! Characters. -/

variable {m m' : Machine} {slot : Option Int32} {b : Binding} {c : Char}

theorem Memory.value_char (memory : Memory) (a : Int32) :
    memory.value .char a = .int (Int32.ofNat (memory.get a.toInt.toNat).toNat) := by
  simp [Memory.value, Memory.operands, Memory.read, LittleEndian.decode]

structure Machine.Keeps (m : Machine) (slot : Option Int32) (b : Binding) (c : Char) : Prop
    extends m.Hosts slot b where
  byte : (m.memory.get (m.addressOf slot b).toInt.toNat).toNat = c.toNat

theorem Ty.bytes_char (hc : c.toNat < 256) :
    Ty.bytes .char [.int c.val.toInt32] = [UInt8.ofNat c.toNat] := by
  show [UInt8.ofNat (c.toNat % 256)] = _
  rw [Nat.mod_eq_of_lt hc]

theorem Machine.Hosts.keeps (h : m.Hosts slot b) (hb : b.ty = .char) (hc : c.toNat < 256)
    (himage : m'.image = m.image) (hheap : m'.heap = m.heap)
    (hmemory : m'.memory
      = m.memory.write (m.addressOf slot b).toInt.toNat [UInt8.ofNat c.toNat]) :
    m'.Keeps slot b c := by
  have hlength : [UInt8.ofNat c.toNat].length = b.ty.size.toNat := by
    rw [hb]
    rfl
  obtain ⟨hhosts, hsame⟩ := h.write himage hheap hlength hmemory
  have hreach := (m.addressOf slot b).toInt_lt
  have hread : m'.memory.read (m.addressOf slot b).toInt.toNat 1 = [UInt8.ofNat c.toNat] := by
    rw [hmemory]
    refine Memory.read_write [UInt8.ofNat c.toNat] ?_
    show (m.addressOf slot b).toInt.toNat + 1 ≤ 0x100000000
    omega
  refine ⟨hhosts, ?_⟩
  rw [hsame, List.head_eq_of_cons_eq hread, UInt8.toNat_ofNat_of_lt' hc]

namespace Generator

inductive Spells (b : Binding) (c : Char) : Expr → Prop
  | ident (span : Span) : Spells b c ⟨.ident b, .char, span⟩
  | literal (span : Span) : Spells b c ⟨.char c, .char, span⟩

variable {ctx : Context} {e l r : Expr}

theorem Spells.ty (h : Spells b c e) : e.ty = .char := by cases h <;> rfl

theorem Spells.produces (h : Spells b c e) (hb : b.ty = .char)
    (hself : b.storage.isMember = true → ctx.selfSlot.isSome) :
    ∃ code, (∀ s, (expr ctx e >>= valueOf e) s = .ok (code, s)) ∧
      ∀ m : Machine, m.Keeps ctx.selfSlot b c →
        m.Produces code [] (some (.int c.val.toInt32)) := by
  cases h with
  | ident span =>
    obtain ⟨place, hplace⟩ := storageAddress_of_self hself
    refine ⟨place ++ [.loadC], fun s => bind_ok.2
      ⟨address place, s, expr_ident hplace _ _ s, valueOf_address rfl⟩, fun m hm => ?_⟩
    have hvalue : m.memory.value .char (m.addressOf ctx.selfSlot b) = .int c.val.toInt32 := by
      rw [Memory.value_char, hm.byte, Word.toInt32_eq_ofNat]
      rfl
    have hreadable := hm.readable
    rw [hb] at hreadable
    rw [← hvalue]
    exact (Machine.produces_storage hplace hm.leads).followed (.load rfl hreadable)
  | literal span => exact ⟨[.pushI c.val.toInt32], fun _ => rfl, fun m _ => .act rfl fun _ => rfl⟩

theorem Spells.equal (hl : Spells b c l) (hr : Spells b c r) (hb : b.ty = .char)
    (hself : b.storage.isMember = true → ctx.selfSlot.isSome) (span : Span) (s : State) :
    ∃ code s', (expr ctx ⟨.binary .eq l r, .bool, span⟩ >>=
        valueOf ⟨.binary .eq l r, .bool, span⟩) s = .ok (code, s') ∧
      ∀ m : Machine, m.Keeps ctx.selfSlot b c → m.Produces code [] (some (.int 1)) := by
  obtain ⟨left, hleft, hlruns⟩ := hl.produces hb hself
  obtain ⟨right, hright, hrruns⟩ := hr.produces hb hself
  have hop : BinOp.eq.isComparison := rfl
  have hcode := expr_comparison .bool span hop (by rw [hl.ty]; rfl) (hleft s) (hright s)
  refine ⟨_, _, bind_ok.2 ⟨_, _, hcode, rfl⟩, fun m hm => ?_⟩
  have hoperand : l.ty.Operands [.int c.val.toInt32] := by
    rw [hl.ty]
    exact ⟨_, rfl⟩
  have hcompare : m.Produces ([if l.ty.isFloat then Instr.fSubtract else .subtract]
      ++ compareCode .eq l.ty.isFloat (s.label "compare"))
      [.int c.val.toInt32, .int c.val.toInt32] (BinOp.eq.apply _ _) :=
    comparison_produces hop hoperand hoperand
  have htrue : BinOp.eq.apply (.int c.val.toInt32) (.int c.val.toInt32) = some (.int 1) := by
    simp [BinOp.apply, BinOp.onWords, BinOp.holds, Value.ofBool]
  rw [htrue] at hcompare
  show m.Produces (left ++ right ++ _) [] _
  rw [List.append_assoc]
  exact (hlruns m hm).followed ((hrruns m hm).followed hcompare)

theorem Spells.printed (h : Spells b c e) (hb : b.ty = .char) (hc : c.toNat < 256)
    (hself : b.storage.isMember = true → ctx.selfSlot.isSome) (span : Span) (spaces : Bool)
    (s : State) :
    ∃ code, stmt ctx span (.print [e] spaces false) s = .ok (code, s) ∧
      ∀ m : Machine, m.Legible → m.Keeps ctx.selfSlot b c → ∀ stack,
        m.Writes code stack (String.singleton c) stack := by
  obtain ⟨code, hcode, hruns⟩ := h.produces hb hself
  obtain ⟨f, s₁, hf, hvalue⟩ := bind_ok.1 (hcode s)
  refine ⟨code ++ Environment.printString Environment.characterFormat, ?_,
    fun m hlegible hm stack => ?_⟩
  · have hkind : ScalarKind.of? e.ty = some .char := by
      rw [h.ty]
      rfl
    simp only [stmt, print, printItems, printSpaced, printItem, hkind, printScalar, bind_ok, pure_ok,
      Bool.false_eq_true, if_false]
    exact ⟨_, s, ⟨_, s, ⟨f, s₁, hf, code, s, hvalue, _, s, ⟨rfl, rfl⟩, rfl, rfl⟩, [], s, ⟨rfl, rfl⟩,
      rfl, rfl⟩, by simp, rfl⟩
  · have hformat : (Environment.characterFormat, "%c") ∈ Machine.printTexts := by
      simp [Machine.printTexts]
    have hrender : Format.renderArgument m.readText .char (.int c.val.toInt32)
        = .ok (String.singleton c) := by
      show Except.ok (String.singleton (Char.ofNat (c.toNat % 256))) = _
      rw [Nat.mod_eq_of_lt hc, Char.ofNat_toNat]
    have hpush : m.Writes code stack "" (.int c.val.toInt32 :: stack) :=
      fun p hp => .of_goes (hruns m hm p stack hp)
    have hall := hpush.append (hlegible.writes_argument hformat (by cbv) rfl hrender)
    rwa [String.empty_append] at hall

/-- The declaration of the variable with the literal, or its update. -/
inductive Sets (b : Binding) (c : Char) : Stmt → Prop
  | declaration (span : Span) : Sets b c (.declaration b ⟨.char c, .char, span⟩)
  | update (span span' : Span) :
      Sets b c (.update ⟨.ident b, .char, span⟩ ⟨.char c, .char, span'⟩)

theorem Sets.stores {node : Stmt} (h : Sets b c node) (hb : b.ty = .char) (hc : c.toNat < 256)
    (hself : b.storage.isMember = true → ctx.selfSlot.isSome) (span : Span) (s : State) :
    ∃ code, stmt ctx span node s = .ok (code, s) ∧
      ∀ m : Machine, m.Hosts ctx.selfSlot b →
        m.Stores code (m.addressOf ctx.selfSlot b) [UInt8.ofNat c.toNat] := by
  rw [← Ty.bytes_char hc]
  obtain ⟨place, hplace⟩ := storageAddress_of_self hself
  have hstore : Instr.store? b.ty = some .storeC := by
    rw [hb]
    rfl
  have hreadable {m : Machine} (hm : m.Hosts ctx.selfSlot b) :
      m.readable (m.addressOf ctx.selfSlot b) (Ty.size .char).toNat := by
    rw [← hb]
    exact hm.readable
  cases h with
  | declaration span' =>
    refine ⟨_, stmt_declaration span hstore hplace rfl rfl, fun m hm => ?_⟩
    exact .declared rfl ⟨_, rfl⟩ (hreadable hm) (Machine.produces_storage hplace hm.leads)
      (.act rfl fun _ => rfl)
  | update span' span'' =>
    refine ⟨_, stmt_update span rfl rfl rfl rfl (expr_ident hplace _ _ s), fun m hm => ?_⟩
    exact .updated rfl ⟨_, rfl⟩ (hreadable hm) (Machine.produces_storage hplace hm.leads)
      (.act rfl fun _ => rfl)

/-- A character below 256 survives in a variable. The declaration of the variable with it, or an
update, changes the byte of the variable and nothing else, and then the variable holds the character.
As long as it does, the variable and the literal are equal to each other and to themselves, and
printing either of them prints the character. -/
theorem character_survives (hb : b.ty = .char) (hc : c.toNat < 256)
    (hself : b.storage.isMember = true → ctx.selfSlot.isSome) (span : Span) (s : State) :
    (∀ node, Sets b c node → ∃ code, stmt ctx span node s = .ok (code, s) ∧
      ∀ m : Machine, m.halted = false → Placed m.image m.pc code → m.Hosts ctx.selfSlot b →
        ∃ m', m.Reaches m' ∧ m'.Keeps ctx.selfSlot b c ∧ ∃ steps, m' = { m with
          pc := m.pc + code.executable.length
          memory := m.memory.write (m.addressOf ctx.selfSlot b).toInt.toNat [UInt8.ofNat c.toNat]
          steps }) ∧
    (∀ l r, Spells b c l → Spells b c r → ∃ code s',
      (expr ctx ⟨.binary .eq l r, .bool, span⟩ >>= valueOf ⟨.binary .eq l r, .bool, span⟩) s
        = .ok (code, s') ∧
      ∀ m : Machine, m.halted = false → Placed m.image m.pc code → m.Keeps ctx.selfSlot b c →
        ∃ steps, m.Reaches { m with
          pc := m.pc + code.executable.length, stack := .int 1 :: m.stack, steps }) ∧
    ∀ e, Spells b c e → ∀ spaces, ∃ code, stmt ctx span (.print [e] spaces false) s = .ok (code, s) ∧
      ∀ m : Machine, m.halted = false → Placed m.image m.pc code → m.Legible →
        m.Keeps ctx.selfSlot b c → ∃ steps, m.Reaches { m with
          pc := m.pc + code.executable.length, output := m.output ++ String.singleton c, steps } := by
  refine ⟨fun node hnode => ?_, fun l r hl hr => ?_, fun e he spaces => ?_⟩
  · obtain ⟨code, hcode, hstores⟩ := hnode.stores hb hc hself span s
    refine ⟨code, hcode, fun m hrunning hplaced hm => ?_⟩
    obtain ⟨steps, hreaches⟩ := Machine.reaches_of_goes hrunning (hstores m hm m.pc m.stack hplaced)
    rw [View.machine, ← hrunning] at hreaches
    exact ⟨_, hreaches, hm.keeps hb hc rfl rfl rfl, steps, rfl⟩
  · obtain ⟨code, s', hcode, hruns⟩ := hl.equal hr hb hself span s
    refine ⟨code, s', hcode, fun m hrunning hplaced hm => ?_⟩
    obtain ⟨steps, hreaches⟩ := Machine.reaches_of_goes hrunning (hruns m hm m.pc m.stack hplaced)
    rw [View.machine, ← hrunning] at hreaches
    exact ⟨steps, hreaches⟩
  · obtain ⟨code, hcode, hruns⟩ := he.printed hb hc hself span spaces s
    refine ⟨code, hcode, fun m hrunning hplaced hlegible hm => ?_⟩
    exact Machine.reaches_of_prints hrunning (hruns m hlegible hm m.stack m.pc hplaced)

/-! The last of these characters in a global variable, with the texts of the program behind it. -/

def rim : Binding := ⟨"x", .char, .global 0⟩

def rimCode (g : Gen Code) : Code :=
  match g ⟨.none, false, false, []⟩ with
  | .ok (c, _) => c
  | .error _ => []

theorem rimCode_eq {g : Gen Code} {code : Code} {s : State}
    (h : g ⟨.none, false, false, []⟩ = .ok (code, s)) : code = rimCode g := by rw [rimCode, h]

def rimSet : Code := rimCode (stmt bare .none (.declaration rim (.char 'ÿ')))

def rimEqual : Code :=
  rimCode (expr bare (.binary .eq (.ident rim) (.char 'ÿ')) >>=
    valueOf (.binary .eq (.ident rim) (.char 'ÿ')))

def rimPrint : Code := rimCode (stmt bare .none (.print [.ident rim] false false))

def rimTexts : Code :=
  [.dLabel Frame.globalBlock, .dataZ 4]
    ++ Machine.printTexts.flatMap fun t => Environment.dataString t.1 t.2

def rimListing : Code := rimSet ++ (rimEqual ++ rimPrint) ++ rimTexts

theorem rimListing_shows {t : String × String} (ht : t ∈ Machine.printTexts) :
    Environment.dataString t.1 t.2 <:+: rimListing := by
  refine List.IsInfix.trans ?_ (List.suffix_append _ _).isInfix
  refine List.IsInfix.trans ?_ (List.suffix_append _ _).isInfix
  obtain ⟨pre, post, hsplit⟩ := List.append_of_mem ht
  rw [hsplit, List.flatMap_append, List.flatMap_cons, ← List.append_assoc]
  exact List.infix_append _ _ _

theorem rim_legible {settings : MachineSettings} {m : Machine}
    (h : Machine.load rimListing settings = .ok m) : m.Legible := by
  refine ⟨?_, fun t ht => Machine.load_shows h (rimListing_shows ht)⟩
  rw [(Machine.load_loaded h).size]
  exact Nat.le_of_lt settings.memorySize.toNat_lt

def rimReady (m : Machine) : Bool :=
  m.storageReadable none rim.storage && m.readable (m.addressOf none rim) 1
    && decide ((m.addressOf none rim).toInt.toNat = 0)
    && Machine.printTexts.all fun t => (m.image.dataLabel? t.1).any (0 < ·)

theorem character_survives_rim :
    ∃ m₀ m₁ m₂ m₃, Machine.load rimListing ⟨4096, 1024, 1000⟩ = .ok m₀ ∧
      m₀.Reaches m₁ ∧ m₁.memory.get 0 = 255 ∧ m₁.Reaches m₂ ∧ m₂.stack = [.int 1] ∧
      m₂.Reaches m₃ ∧ m₃.output = "ÿ" := by
  obtain ⟨m₀, hload, hok⟩ := exists_ok_of_any
    (show (Machine.load rimListing ⟨4096, 1024, 1000⟩).toOption.any rimReady = true by decide +kernel)
  simp only [rimReady, Bool.and_eq_true, decide_eq_true_eq, List.all_eq_true] at hok
  obtain ⟨⟨⟨hleads, hreadable⟩, haddress⟩, htexts⟩ := hok
  have hl := Machine.load_loaded hload
  obtain ⟨l, -, -, -, hm⟩ := Machine.load_ok hload
  have hrunning : m₀.halted = false := by rw [hm]
  have hpc : m₀.pc = 0 := by rw [hm]
  have hstack : m₀.stack = [] := by rw [hm]
  have houtput : m₀.output = "" := by rw [hm]
  obtain ⟨hsets, hequal, hprints⟩ := @character_survives rim 'ÿ' bare rfl (by decide)
    (absurd · Bool.false_ne_true) .none ⟨.none, false, false, []⟩
  obtain ⟨code, hcode, hset⟩ := hsets _ (.declaration .none)
  obtain ⟨code', s', hcode', hequal⟩ := hequal _ _ (.ident .none) (.literal .none)
  obtain ⟨code'', hcode'', hprint⟩ := hprints _ (.ident .none) false
  obtain rfl : code = rimSet := rimCode_eq hcode
  obtain rfl : code' = rimEqual := rimCode_eq hcode'
  obtain rfl : code'' = rimPrint := rimCode_eq hcode''
  have hall : Placed m₀.image 0 (rimSet ++ (rimEqual ++ rimPrint)) :=
    hl.placed (show rimListing = [] ++ (rimSet ++ (rimEqual ++ rimPrint)) ++ rimTexts from rfl)
  rw [← hpc] at hall
  obtain ⟨m₁, hreaches₁, hkeeps, steps₁, hm₁⟩ :=
    hset m₀ hrunning hall.left ⟨hleads, hreadable, List.forall_mem_nil _⟩
  have hmemory : m₁.memory = m₀.memory.write 0 [255] := by
    rw [hm₁, ← haddress]
    rfl
  have himage : m₁.image = m₀.image := by rw [hm₁]
  have hrunning₁ : m₁.halted = false := by rw [hm₁, hrunning]
  have hall₁ : Placed m₁.image m₁.pc (rimEqual ++ rimPrint) := by
    rw [hm₁]
    exact hall.right
  obtain ⟨steps₂, hreaches₂⟩ := hequal m₁ hrunning₁ hall₁.left hkeeps
  have hlegible : m₁.Legible := by
    refine (rim_legible hload).write himage hmemory (by decide) fun t ht d hd => ?_
    have hbehind := htexts t ht
    rwa [hd, Option.any_some, decide_eq_true_eq] at hbehind
  obtain ⟨steps₃, hreaches₃⟩ := hprint { m₁ with
      pc := m₁.pc + rimEqual.executable.length, stack := .int 1 :: m₁.stack, steps := steps₂ }
    hrunning₁ hall₁.right ⟨hlegible.size, hlegible.shows⟩
    ⟨⟨hkeeps.leads, hkeeps.readable, hkeeps.apart⟩, hkeeps.byte⟩
  refine ⟨m₀, m₁, _, _, hload, hreaches₁, ?_, hreaches₂, ?_, hreaches₃, ?_⟩
  · rw [hmemory]
    exact List.head_eq_of_cons_eq (Memory.read_write [255] (by decide))
  · show Value.int 1 :: m₁.stack = _
    rw [hm₁]
    show Value.int 1 :: m₀.stack = _
    rw [hstack]
  · show m₁.output ++ _ = _
    rw [hm₁]
    show m₀.output ++ _ = _
    rw [houtput]
    decide +kernel

/-- A character of more than one byte in a variable, compared with itself and printed. -/
def wideCharacter : Program :=
  let x : Binding := ⟨"x", .char, .global 0⟩
  ⟨1, [], [], ⟨⟨1, [x]⟩, [⟨.declaration x (.char '€'), .none⟩,
    ⟨.print [.binary .eq (.ident x) (.char '€'), .char '€', .ident x] true true, .none⟩]⟩⟩

/-- It is cut to its last byte in the variable and in print, but not in the comparison. -/
theorem wide_character_is_cut :
    (generate wideCharacter 1).toOption.map (fun code =>
      (Machine.executeCode code ⟨4096, 1024, 1000⟩).toOption.map (·.output)) =
        some (some "false ¬ ¬\n") := by
  decide +kernel

end Generator
end IntervalStack
