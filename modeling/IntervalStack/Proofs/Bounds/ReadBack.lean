import IntervalStack.Proofs.Bounds.Yields
import IntervalStack.Proofs.Comparison

/-! A bound is what it was made of, whether it is read from the record in a place or from the record
that has just been made. -/

namespace IntervalStack

namespace Generator

variable {ctx : Context} {low high : Expr} {sub : Ty} {which : Bound} {span span' : Span} {s s' : State}
  {c : Code}

theorem exists_boundCode
    (h : (expr ctx ⟨.bound ⟨.interval low high, .interval sub, span⟩ which, sub, span'⟩ >>=
      valueOf ⟨.bound ⟨.interval low high, .interval sub, span⟩ which, sub, span'⟩) s = .ok (c, s')) :
    ∃ store load lowCode highCode, Instr.store? sub = some store ∧ Instr.load? sub = some load ∧
      OwnedCode ctx low lowCode ∧ OwnedCode ctx high highCode ∧
      c = intervalCode sub (Layout.kindCode sub) store lowCode highCode
        ++ Drain.readOutCode (Layout.boundOffset sub which) sub load := by
  obtain ⟨f, s₁, hf, hvalue⟩ := bind_ok.1 h
  rw [expr, exprKind] at hf
  obtain ⟨g, s₂, hinterval, hf⟩ := bind_ok.1 hf
  obtain ⟨store, lowCode, highCode, hstore, hlow, hhigh, rfl⟩ := exists_intervalCode hinterval
  obtain ⟨code, s₃, hcode, hf⟩ := bind_ok.1 hf
  cases hcode
  obtain ⟨load, s₄, hload, hf⟩ := bind_ok.1 hf
  obtain ⟨-, s₅, -, hf⟩ := bind_ok.1 hf
  obtain ⟨rfl, -⟩ := pure_ok.1 hf
  cases hvalue
  refine ⟨store, load, lowCode, highCode, hstore, loadOf_ok.1 (shaped_ok.1 hload).1, hlow, hhigh, ?_⟩
  simp only [Drain.readOutCode, countIfHeap, List.append_assoc, List.cons_append, List.nil_append]
  rfl

end Generator

namespace Drain
open RefCounter Generator

variable {counter : RefCounter} {structs : StructTable} {m₀ m m' : Machine}
  {S : Site counter structs m₀.image} {raw own : List Nat} {sub : Ty} {load : Instr} {which : Bound}
  {bounds : Bound → List Value} {b : HeapBlock} {ctx : Context} {e : Expr} {span : Span}

/-- A place holds an interval: it can be read, and the address of the record is in it. -/
structure InPlace (m₀ : Machine) (ctx : Context) (e : Expr) (sub : Ty) (bounds : Bound → List Value)
    (b : HeapBlock) (m : Machine) : Prop where
  typed : ∃ p : Typing, (p.self.isSome → ctx.selfSlot.isSome) ∧ p.exprOk e
  path : e.isPath
  ty : e.ty = .interval sub
  intact : Machine.Intact m₀ m
  running : m.halted = false
  leads : m.leads ctx.selfSlot e
  readable : m.readable (m.locate ctx.selfSlot e) 4
  word : m.wordAt (m.locate ctx.selfSlot e) = Int32.ofNat b.start
  live : b ∈ m.heap.live
  holds : HoldsInterval sub bounds m.memory b

theorem global_place {g k : Nat} (P : Provides m₀ S) (hm : Machine.Intact m₀ m)
    (hg : m₀.image.dataLabel? Frame.globalBlock = some g) (hbelow : g + k + 4 ≤ m₀.heap.base)
    (slot : Option Int32) (name : String) (ty : Ty) :
    m.leadsKind slot (.ident ⟨name, ty, .global (Int32.ofNat k)⟩) ∧
      m.locateKind slot (.ident ⟨name, ty, .global (Int32.ofNat k)⟩) = Int32.ofNat (g + k) ∧
      (Int32.ofNat (g + k)).toInt = (g + k : Nat) ∧ m.readable (Int32.ofNat (g + k)) 4 := by
  have ha := P.addresses hm
  have hbase := hm.heap.base_eq
  have hlimit := ha.limit
  have hlow := ha.low
  have hsmall := P.base
  have hend := hm.heap.limit_eq
  have himage : m.image.dataLabel? Frame.globalBlock = some g := by rw [hm.image, hg]
  have hint : (Int32.ofNat (g + k)).toInt = (g + k : Nat) := Word.toInt_ofNat (by omega)
  refine ⟨Option.isSome_iff_exists.2 ⟨g, himage⟩, ?_, hint, ?_⟩
  · show Int32.ofNat ((m.image.dataLabel? Frame.globalBlock).getD 0) + Int32.ofNat k = _
    rw [himage, Int32.ofNat_add]
    rfl
  · rw [Machine.readable, hint, check_of_grants (Heap.grants_of_below (by omega) (by omega))]
    rfl

theorem inPlace_global {g : Nat} (pc : Nat) (name : String) (P : Provides m₀ S)
    (hm : Machine.Intact m₀ m) (hrunning : m.halted = false) (hb : b ∈ m.heap.live)
    (hholds : HoldsInterval sub bounds m.memory b)
    (hg : m₀.image.dataLabel? Frame.globalBlock = some g) (hbelow : g + 4 ≤ m₀.heap.base) :
    InPlace m₀ ctx (.ident ⟨name, .interval sub, .global 0⟩) sub bounds b
      { m with pc, memory := m.memory.setWord g (Int32.ofNat b.start) } := by
  have ha := P.addresses hm
  have hinside := ha.tidy.inside b hb
  have hend : b.stop = b.start + b.size := rfl
  have hsize := ha.limit
  have hlow := ha.low
  have hbase := hm.heap.base_eq
  have hmax : UInt32.size = 0x100000000 := rfl
  have hin : g + (LittleEndian.encode 4 (Int32.ofNat b.start).toUInt32.toNat).length
      ≤ m.memory.size := by
    rw [LittleEndian.length_encode]
    omega
  have hfit : m.memory.size ≤ UInt32.size := by
    rw [hm.size]
    exact Nat.le_of_lt P.size
  let m' : Machine := { m with pc, memory := m.memory.setWord g (Int32.ofNat b.start) }
  have hm' : Machine.Intact m₀ m' :=
    ⟨hm.image, Memory.size_setWord.trans hm.size, hm.heap, hm.blank.write hin hfit⟩
  obtain ⟨hleads, hlocate, hint, hreadable⟩ :=
    @global_place _ _ _ _ S g 0 P hm' hg hbelow ctx.selfSlot name (.interval sub)
  replace hlocate : m'.locate ctx.selfSlot (.ident ⟨name, .interval sub, .global 0⟩)
      = Int32.ofNat g := hlocate
  exact {
    typed := ⟨⟨⟨0, [], [], .empty⟩, none, none⟩, by simp,
      Bool.and_eq_true_iff.2 ⟨decide_eq_true rfl, rfl⟩⟩
    path := rfl
    ty := rfl
    intact := hm'
    running := hrunning
    leads := hleads
    readable := by
      rw [hlocate]
      exact hreadable
    word := by
      rw [hlocate, Machine.wordAt, show (Int32.ofNat g).toInt = _ from hint]
      exact Memory.word_setWord_self (by omega)
    live := hb
    holds := hholds.congr fun i hi => Memory.get_setWord (by omega) (by omega) (by omega) }

/-- The code of the expression's value leaves the operands on the stack and changes nothing else. -/
def Leaves (ctx : Context) (e : Expr) (vs : List Value) (m : Machine) : Prop :=
  ∃ c, (∀ s, (expr ctx e >>= valueOf e) s = .ok (c, s)) ∧
    (Placed m.image m.pc c → ∃ steps, m.Reaches
      { m with pc := m.pc + c.executable.length, stack := vs ++ m.stack, steps })

theorem InPlace.leaves (h : InPlace m₀ ctx e sub bounds b m) (P : Provides m₀ S)
    (hl : Instr.load? sub = some load) (which : Bound) (span : Span) :
    Leaves ctx ⟨.bound e which, sub, span⟩ (sub.stored (bounds which)) m := by
  obtain ⟨p, hself, hok⟩ := h.typed
  have hbound : p.exprOk ⟨.bound e which, sub, span⟩ :=
    Bool.and_eq_true_iff.2 ⟨hok, decide_eq_true h.ty⟩
  obtain ⟨c, hc, hruns⟩ := path_produces hself ⟨.bound e which, sub, span⟩ hbound h.path
  refine ⟨c ++ [load], fun s => bind_ok.2 ⟨_, _, hc s, valueOf_address hl⟩, fun hp => ?_⟩
  have haddress := hruns m (Bool.and_eq_true_iff.2 ⟨h.leads, h.readable⟩) m.pc m.stack hp.left
  have hlocate : m.locate ctx.selfSlot ⟨.bound e which, sub, span⟩
      = Int32.ofNat (b.start + Layout.boundAt sub which) := by
    rw [Int32.ofNat_add, Layout.ofNat_boundAt, ← h.word]
    show _ + Layout.boundOffset (e.ty.sub?.getD .void) which = _
    rw [h.ty]
    rfl
  have ha := P.addresses h.intact
  have hinside := h.holds.inside which
  have hend : b.stop = b.start + b.size := rfl
  obtain ⟨hloadAt, -⟩ :=
    placed_instr (executable_load hl) (show Placed _ _ ([load] ++ []) from hp.right)
  rw [hlocate] at haddress
  rw [h.intact.image] at haddress hloadAt
  have hgoes := haddress.trans (ha.load h.live hloadAt hl (Nat.le_add_right _ _) (by omega))
  rw [h.holds.bounds which, ← h.intact.image] at hgoes
  obtain ⟨steps, hreach⟩ := Machine.reaches_of_goes h.running hgoes
  rw [View.machine, ← h.running] at hreach
  refine ⟨steps, ?_⟩
  rw [Code.executable_append, executable_load hl, List.length_append, ← Nat.add_assoc]
  exact hreach

/-- The decrements that are scheduled are carried out: what is held stays, and a record with one count
that is scheduled goes. -/
theorem Provides.drains (P : Provides m₀ S) (hm : Machine.Intact m₀ m) (hrunning : m.halted = false)
    (hi : m.image.code[m.pc]? = some drain) (h : S.Balanced [] own m.memory m.heap) :
    ∃ m', Machine.Reaches m m' ∧ (S.Overflown (S.graph m.memory m.heap).size m'.view ∨
      m'.halted = false ∧ m'.pc = m.pc + 1 ∧ m'.stack = m.stack ∧
      ∀ b ∈ m.heap.live, (b.start ∈ own → b ∈ m'.heap.live) ∧
        (b.start ∈ (S.graph m.memory m.heap).pending → m.memory.word b.start = 1 →
          b ∉ m'.heap.live)) := by
  rw [hm.image] at hi
  obtain ⟨v, hgoes, hend⟩ := (h.ready P.codes (P.addresses hm)).call m.stack hi
  rw [← hm.image] at hgoes
  obtain ⟨steps, hreach⟩ := Machine.reaches_of_goes hrunning hgoes
  refine ⟨_, hreach, hend.imp id ?_⟩
  rintro ⟨F, memory', heap', rfl, hbetween⟩
  exact ⟨rfl, rfl, rfl, fun b hb => h.drained hbetween hb⟩

theorem provides_of_load {listing : Code} {settings : MachineSettings}
    (hload : Machine.load listing settings = .ok m₀) (hdata : counter.data <:+: listing)
    (hroutines : counter.subroutines structs <:+: listing)
    (hhandlers : Environment.errorHandlers <:+: listing)
    (hallocate : Environment.allocateEntry ∉ listing.labels)
    (hdeallocate : Environment.deallocateEntry ∉ listing.labels) (hcodes : Codes structs)
    (hlow : m₀.heap.limit ≤ 0x80000000) (S : Site counter structs m₀.image) : Provides m₀ S := by
  have hl := Machine.load_loaded hload
  have hfits := hl.fits
  have hrange : m₀.heap.base = Machine.heapBase listing ∧
      m₀.heap.limit = Machine.heapBase listing + settings.heapSize.toNat := by
    rw [hl.heap]
    exact ⟨rfl, rfl⟩
  obtain ⟨S', hbelow⟩ := exists_site hl hdata hroutines hdeallocate S.short
  obtain ⟨pre, post, hsplit⟩ := hroutines
  obtain ⟨pre', post', hsplit'⟩ := hhandlers
  exact {
    size := by
      rw [hl.size]
      exact settings.memorySize.toNat_lt
    below := by rwa [← Option.some.inj (S'.hindex.symm.trans S.hindex)]
    base := by omega
    limit := by
      rw [hl.size]
      omega
    low := hlow
    allocate := hl.noLabel _ hallocate
    divides := by
      rw [(hl.placed hsplit'.symm).label (Environment.errorHandlers.take 4) Environment.divideByZero
        (Environment.errorHandlers.drop 5) rfl]
      rfl
    increment := ⟨_, (hl.placed hsplit.symm).left.left.left⟩
    codes := hcodes }

/-- The machine has come to the next drain. The record has been left alone since, and is still
scheduled. -/
structure Site.AtDrain (S : Site counter structs m₀.image) (b : HeapBlock) (own : List Nat)
    (m m' : Machine) : Prop where
  reaches : Machine.Reaches m m'
  running : m'.halted = false
  call : m'.image.code[m'.pc]? = some drain
  balanced : S.Balanced [] own m'.memory m'.heap
  pending : b.start ∈ (S.graph m'.memory m'.heap).pending
  spared : Spared [b.start] m m'

/-- Unless the worklist overflows, the drain frees the record and leaves those in `refs`. -/
def Site.Parts (S : Site counter structs m₀.image) (b : HeapBlock) (refs : List Nat) (m : Machine) :
    Prop :=
  ∃ m', Machine.Reaches m m' ∧ (S.Overflown (S.graph m.memory m.heap).size m'.view ∨
    m'.halted = false ∧ m'.pc = m.pc + 1 ∧ m'.stack = m.stack ∧ b ∉ m'.heap.live ∧
    ∀ x ∈ refs, ∃ d ∈ m'.heap.live, d.start = x)

theorem Provides.parts {refs : List Nat} (P : Provides m₀ S) (hm : Machine.Intact m₀ m)
    (hb : b ∈ m.heap.live) (hsize : 4 ≤ b.size) (hone : m.memory.word b.start = 1)
    (h : S.AtDrain b own m m') (hrefs : refs ⊆ own) : S.Parts b refs m' := by
  have hm' := h.reaches.intact P.size hm
  obtain ⟨hb', hbytes⟩ := h.spared b hb List.mem_cons_self
  have hend : b.stop = b.start + b.size := rfl
  have hone' : m'.memory.word b.start = 1 := by
    rw [Memory.word_congr fun i hi => hbytes _ (Nat.le_add_right _ _) (by omega), hone]
  obtain ⟨m₁, hreach, hend⟩ := P.drains hm' h.running h.call h.balanced
  refine ⟨m₁, hreach, hend.imp id ?_⟩
  rintro ⟨hrunning, hpc, hstack, hdrained⟩
  refine ⟨hrunning, hpc, hstack, (hdrained b hb').2 h.pending hone', fun x hx => ?_⟩
  obtain ⟨d, hd, rfl⟩ := Site.Ready.mem_records (h.balanced.accounts.held x (hrefs hx)).1
  exact ⟨d, (hdrained d hd).1 (hrefs hx), rfl⟩

variable {listing : Code} {settings : MachineSettings} {low high : Expr} {span' : Span} {s s' : State}
  {c : Code} {a : Nat} {heap' : Heap} {p : Typing}

/-- Reading a bound back. An interval of any type is made out of what its bounds come to, each of which
gets a reference of its own: what a place holds is counted, and what is new has its count. How calls and
new structs supply a bound is left open. The record has a count of one, the type code of its kind and
the width of its bounds, which stand side by side in it. A bound that is read from the record in a place
is what was stored, and so is a bound that is read from the record on the stack. In the second case the
record has been scheduled once, and what the bound refers to has gained a count, so that the next drain
frees the record and leaves the bound. -/
theorem bound_reads_back (hload : Machine.load listing settings = .ok m₀)
    (hdata : counter.data <:+: listing) (hroutines : counter.subroutines structs <:+: listing)
    (hhandlers : Environment.errorHandlers <:+: listing)
    (hallocate : Environment.allocateEntry ∉ listing.labels)
    (hdeallocate : Environment.deallocateEntry ∉ listing.labels) (hcodes : Codes structs)
    (S : Site counter structs m₀.image) (hlow : m₀.heap.limit ≤ 0x80000000)
    (hm : Machine.Intact m₀ m) (hrunning : m.halted = false)
    (hself : p.self.isSome → ctx.selfSlot.isSome)
    (hok : p.exprOk ⟨.bound ⟨.interval low high, .interval sub, span⟩ which, sub, span'⟩)
    (hcode : (expr ctx ⟨.bound ⟨.interval low high, .interval sub, span⟩ which, sub, span'⟩ >>=
      valueOf ⟨.bound ⟨.interval low high, .interval sub, span⟩ which, sub, span'⟩) s = .ok (c, s'))
    (hp : Placed m.image m.pc c) (h : S.Balanced raw own m.memory m.heap)
    (halloc : m.heap.allocate (Layout.intervalSize sub).toNat = .ok (a, heap')) :
    ∃ b lowCode highCode made rest, b.start = a ∧ OwnedCode ctx low lowCode ∧
      OwnedCode ctx high highCode ∧ c = made ++ rest ∧
      S.Awaits b raw own lowCode heap' m fun m₁ =>
        S.Yields ctx low lowCode (b.start :: raw) own m₁ fun vl m₂ =>
          S.Awaits b raw (sub.refs [vl] ++ own) highCode m₂.heap m₂ fun m₃ =>
            S.Yields ctx high highCode (b.start :: raw) (sub.refs [vl] ++ own) m₃ fun vh m₄ =>
              ∃ m₅, S.Completed b raw own sub made (bothBounds [vl] [vh]) m m₄ m₅ ∧
                (∀ e which' span m', InPlace m₀ ctx e sub (bothBounds [vl] [vh]) b m' →
                  Leaves ctx ⟨.bound e which', sub, span⟩
                    (sub.stored (bothBounds [vl] [vh] which')) m') ∧
                ((∀ x ∈ sub.refs (bothBounds [vl] [vh] which), (m₅.memory.word x).toInt < 0x7fffffff) →
                  ∃ m₆, Machine.Reaches m₅ m₆ ∧
                    (S.Overflown ((S.graph m₅.memory m₅.heap).pending.length + 1) m₆.view ∨
                      S.ReadOut (sub.refs (bothBounds [vl] [vh] which)) b.start m₅ m₆ ∧
                      S.Supplied raw own sub c (sub.stored (bothBounds [vl] [vh] which)) m m₆ ∧
                      ∀ own' m₇, S.AtDrain b own' m₆ m₇ →
                        sub.refs (bothBounds [vl] [vh] which) ⊆ own' →
                        S.Parts b (sub.refs (bothBounds [vl] [vh] which)) m₇)) := by
  have P := provides_of_load hload hdata hroutines hhandlers hallocate hdeallocate hcodes hlow S
  obtain ⟨store, load, lowCode, highCode, hstore, hload', hlowCode, hhighCode, rfl⟩ :=
    exists_boundCode hcode
  have hinterval := (Bool.and_eq_true_iff.1 hok).1
  simp only [Typing.exprOk, Typing.kindOk, Bool.and_eq_true, decide_eq_true_eq] at hinterval
  obtain ⟨⟨⟨hlowOk, hhighOk⟩, hsame⟩, hsub⟩ := hinterval
  obtain rfl : sub = low.ty := Ty.interval.inj hsub
  rw [hm.image] at hp
  obtain ⟨b, rfl, m₁, hawait₁, hnext₁⟩ := P.makes hm hrunning hstore hp.left h halloc
  have hface₁ := hawait₁.facing P hm
  refine ⟨b, lowCode, highCode, _, _, rfl, hlowCode, hhighCode, rfl, m₁, hawait₁,
    P.covers hself low hlowOk hlowCode hface₁ fun vl m₂ hvl => ?_⟩
  obtain ⟨m₃, hawait₃, hnext₃⟩ := hnext₁ [vl] m₂ hvl
  have hface₃ := hawait₃.facing P (hvl.reaches.intact P.size hface₁.intact)
  refine ⟨m₃, hawait₃, P.covers hself high hhighOk hhighCode hface₃ fun vh m₄ hvh => ?_⟩
  obtain ⟨m₅, hmade⟩ := hnext₃ [vh] m₄ (hsame ▸ hvh)
  refine ⟨m₅, hmade, fun e which' span m' hplace => hplace.leaves P hload' which' span,
    fun hfew => ?_⟩
  have hreadOut : Placed m₀.image m₅.pc
      (readOutCode (Layout.boundOffset low.ty which) low.ty load) := by
    rw [hmade.supplied.pc]
    exact hp.right
  obtain ⟨m₆, hreach₆, hend⟩ := P.readsOut hm hmade.toMade which hload' hreadOut hfew
  refine ⟨m₆, hreach₆, hend.imp id ?_⟩
  rintro ⟨hout, hsupplied⟩
  refine ⟨hout, hsupplied, fun own' m₇ hdrain hrefs => ?_⟩
  have hone : m₆.memory.word b.start = 1 := by
    refine Int32.toInt_inj.1 ?_
    rw [hout.counts b hmade.live, hmade.count, List.count_eq_zero.2 hout.other]
    rfl
  have hsize := (hmade.holds.inside .low).1
  have hinside := (hmade.holds.inside .low).2
  exact P.parts (hsupplied.reaches.intact P.size hm) (hout.heap ▸ hmade.live) (by omega) hone hdrain
    hrefs

/-! The upper bound of an interval whose bounds are one variable. -/

def literalCode (x y : Int32) : Code :=
  intervalCode .int (Layout.kindCode .int) .storeI [.pushI x] [.pushI y]

def bareTyping : Typing := ⟨⟨0, [], [], .empty⟩, none, none⟩

theorem Provides.makes_literals {x y : Int32} (P : Provides m₀ S)
    (hface : S.Facing (literalCode x y) raw own m) (halloc : m.heap.allocate 20 = .ok (a, heap')) :
    ∃ b m', b.start = a ∧ m'.heap = heap' ∧
      (∀ i < m₀.heap.base, m'.memory.get i = m.memory.get i) ∧
      S.Made b raw own .int (literalCode x y) (bothBounds [.int x] [.int y]) m m' := by
  have hcode : OwnedCode bare (.interval (.int x) (.int y)) (literalCode x y) :=
    ⟨⟨.none, false, false, []⟩, _, rfl⟩
  have hok : bareTyping.exprOk (.interval (.int x) (.int y)) := rfl
  have hyields := P.covers (p := bareTyping) (fun h => nomatch h) _ hok hcode hface
    (Q := fun _ _ => True) fun _ _ _ => trivial
  obtain ⟨b, c₁, c₂, hstart, -, -, m₁, hawait₁, hlow⟩ := hyields a heap' halloc
  obtain ⟨m₂, hfetched₂, m₃, hawait₃, hhigh⟩ := hlow rfl _ rfl nofun
  obtain ⟨m₄, hfetched₄, m₅, hmade, -⟩ := hhigh rfl _ rfl nofun
  have hm₅ := hmade.supplied.reaches.intact P.size hface.intact
  have ha := P.addresses hm₅
  have hinside := (ha.tidy.inside b hmade.live).1
  have hbase := hm₅.heap.base_eq
  have hsmall := P.base
  have hlow := P.low
  refine ⟨b, m₅, hstart, ?_, fun i hi => ?_, hmade.toMade⟩
  · rw [hmade.heap, hfetched₄.heap, hawait₃.heap, hfetched₂.heap, hawait₁.heap]
  · rw [hmade.fills.get i (by omega) (by omega), hfetched₄.counted.eq_of_nil,
      hawait₃.fills.get i (by omega) (by omega), hfetched₂.counted.eq_of_nil,
      hawait₁.fills.get i (by omega) (by omega)]

def eightCounter : RefCounter := ⟨8, by decide, by decide⟩

def heldSpan : Expr := .ident ⟨"span", .interval .int, .global 4⟩

def upperSpan : Expr :=
  ⟨.bound ⟨.interval heldSpan heldSpan, .interval (.interval .int), .none⟩ .high, .interval .int, .none⟩

def storedSpan : Expr :=
  ⟨.bound (.ident ⟨"spans", .interval (.interval .int), .global 0⟩) .high, .interval .int, .none⟩

def bareCode (e : Expr) : Code :=
  match (expr bare e >>= valueOf e) ⟨.none, false, false, []⟩ with
  | .ok (c, _) => c
  | .error _ => []

def spanCode : Code :=
  [Instr.pushD Frame.globalBlock] ++ [Instr.pushI 4, .add] ++ (literalCode 5 6 ++ [Instr.storeI])

def upperListing : Code :=
  eightCounter.data ++ (Environment.dataString Environment.errorFormat "Runtime error: %s\n"
    ++ ([Instr.dLabel Frame.globalBlock, .dataZ 8]
    ++ (spanCode ++ (bareCode upperSpan ++ ([drain, .halt] ++ (bareCode storedSpan ++ ([Instr.halt]
    ++ (Environment.errorHandlers ++ eightCounter.subroutines ⟨[]⟩))))))))

def storedEntry : Nat := (spanCode ++ (bareCode upperSpan ++ [drain, .halt])).executable.length

def spanHeap (n : Nat) : Heap := (Heap.empty 112 1136).after (List.replicate n (.allocate 20))

theorem allocate_spanHeap :
    ∀ n < 2, (spanHeap n).allocate 20 = .ok (112 + 20 * n, spanHeap (n + 1)) := by
  decide +kernel

theorem balanced_of_empty {memory : Memory} {heap : Heap} (hlive : heap.live = [])
    (hzero : memory.word S.index = 0) : S.Balanced [] [] memory heap := by
  have hrecords : (S.graph memory heap).records = [] := by
    show heap.live.map _ = []
    rw [hlive]
    rfl
  have hpending : (S.graph memory heap).pending = [] := by
    rw [Site.graph_pending, hzero]
    rfl
  refine ⟨by rw [hzero]; exact Nat.zero_le _, fun b hb => ?_, ?_⟩
  · rw [hlive] at hb
    cases hb
  · refine ⟨hrecords ▸ List.nodup_nil, nofun, fun x hx => ?_, fun r hr => ?_, nofun, fun x hx => ?_⟩
    · rw [hpending] at hx
      cases hx
    · rw [hrecords] at hr
      cases hr
    · rw [hrecords] at hx
      cases hx

theorem length_refs_le {S : Site counter ⟨[]⟩ m₀.image} {memory : Memory} {heap : Heap} (r : Nat) :
    ((S.graph memory heap).refs r).length ≤ 2 := by
  rw [Site.graph_refs]
  refine Nat.le_trans (List.length_filter_le _ _) ?_
  rw [List.length_map, slotsOf]
  split
  · exact Nat.zero_le _
  · split
    · exact Nat.le_refl 2
    · exact Nat.zero_le _

/-- A record of a program without structs refers to two others at most. -/
theorem graph_size_le {S : Site counter ⟨[]⟩ m₀.image} {memory : Memory} {heap : Heap} :
    (S.graph memory heap).size
      ≤ (S.graph memory heap).pending.length + 2 * (S.graph memory heap).records.length := by
  rw [Graph.size]
  refine Nat.add_le_add_left ?_ _
  induction (S.graph memory heap).records with
  | nil => exact Nat.zero_le _
  | cons r rs ih =>
    have hr := @length_refs_le _ _ S memory heap r
    rw [List.flatMap_cons, List.length_append, List.length_cons]
    omega

theorem upperListing_routines : eightCounter.subroutines ⟨[]⟩ <:+: upperListing := by
  simp only [upperListing, ← List.append_assoc]
  exact (List.suffix_append _ _).isInfix

theorem upperListing_handlers : Environment.errorHandlers <:+: upperListing := by
  simp only [upperListing, ← List.append_assoc]
  exact List.infix_append _ _ _

theorem upperListing_ready : ∃ m₀, ∃ S : Site eightCounter ⟨[]⟩ m₀.image,
    Machine.load upperListing ⟨4096, 1024, 1000⟩ = .ok m₀ ∧ m₀.halted = false ∧ m₀.stack = [] ∧
      m₀.heap = spanHeap 0 ∧ S.index = 32 ∧ m₀.memory.word 32 = 0 ∧
      Placed m₀.image m₀.pc (spanCode ++ (bareCode upperSpan ++ [drain])) ∧
      m₀.image.dataLabel? Frame.globalBlock = some 99 ∧
      Placed m₀.image storedEntry (bareCode storedSpan) := by
  have htest : (Machine.load upperListing ⟨4096, 1024, 1000⟩).toOption.any (fun m₀ =>
      decide (m₀.pc = 0 ∧ m₀.halted = false ∧ m₀.stack = [] ∧ m₀.memory.word 32 = 0 ∧
        m₀.heap = spanHeap 0 ∧ m₀.image.dataLabel? Frame.globalBlock = some 99)) = true := by
    decide +kernel
  obtain ⟨m₀, hload, hok⟩ := exists_ok_of_any htest
  obtain ⟨hpc, hrunning, hstack, hzero, hheap, hglobal⟩ := of_decide_eq_true hok
  have hl := Machine.load_loaded hload
  have hshort : m₀.image.code.size < 0x80000000 := by
    rw [← Array.length_toList, hl.code]
    decide +kernel
  obtain ⟨S, -⟩ := exists_site hl (List.prefix_append _ _).isInfix upperListing_routines
    (by decide +kernel) hshort
  have hindex : S.index = 32 := Option.some.inj (S.hindex.symm.trans
    (hl.dataLabel (upperListing.take 2) _ (upperListing.drop 3) rfl))
  have hsplit : upperListing = (eightCounter.data
      ++ Environment.dataString Environment.errorFormat "Runtime error: %s\n"
      ++ [Instr.dLabel Frame.globalBlock, .dataZ 8])
      ++ (spanCode ++ (bareCode upperSpan ++ [drain, .halt]) ++ bareCode storedSpan)
      ++ ([Instr.halt] ++ (Environment.errorHandlers ++ eightCounter.subroutines ⟨[]⟩)) := by
    simp only [upperListing, List.append_assoc]
  have hp : Placed m₀.image 0
      (spanCode ++ (bareCode upperSpan ++ [drain, .halt]) ++ bareCode storedSpan) := hl.placed hsplit
  have hstored := hp.right
  rw [Nat.zero_add] at hstored
  have hhalt : spanCode ++ (bareCode upperSpan ++ [drain, .halt])
      = (spanCode ++ (bareCode upperSpan ++ [drain])) ++ [Instr.halt] := by
    simp only [List.append_assoc]
    rfl
  have hcode := hp.left
  rw [hhalt] at hcode
  exact ⟨m₀, S, hload, hrunning, hstack, hheap, hindex, hzero, hpc ▸ hcode.left, hglobal, hstored⟩

structure Held (n : Int32) (m : Machine) : Prop where
  idle : m.memory.word 32 = 0
  span : m.memory.word 103 = 112
  count : m.memory.word 112 = n
  live : ⟨112, 20⟩ ∈ m.heap.live

theorem Held.fills {n : Int32} (h : Held n m) (hf : Memory.Fills b m.memory m'.memory)
    (hstart : b.start = 132) (hlive : ⟨112, 20⟩ ∈ m'.heap.live) : Held n m' := by
  have hword (x : Nat) (hx : x + 4 ≤ 132) : m'.memory.word x = m.memory.word x :=
    Memory.word_congr fun i hi => hf.get _ (by omega) (by omega)
  exact ⟨by rw [hword 32 (by decide), h.idle], by rw [hword 103 (by decide), h.span],
    by rw [hword 112 (by decide), h.count], hlive⟩

theorem Held.fetched {n : Int32} {Q : Value → Machine → Prop} (h : Held n m) (P : Provides m₀ S)
    (hm : Machine.Intact m₀ m) (hg : m₀.image.dataLabel? Frame.globalBlock = some 99)
    (hbase : 107 ≤ m₀.heap.base) (hraw : 112 ∉ raw) (hn : n.toInt < 0x7fffffff)
    (hyields : S.Yields bare heldSpan c raw own m Q) :
    ∃ m', S.Supplied raw own (.interval .int) c [.int 112] m m' ∧ m'.heap = m.heap ∧
      Held (n + 1) m' ∧ Q (.int 112) m' := by
  obtain ⟨hleads, hlocate, hint, hreadable⟩ :=
    @global_place _ _ _ _ S 99 4 P hm hg hbase bare.selfSlot "span" (.interval .int)
  replace hlocate : m.locateKind bare.selfSlot (.ident ⟨"span", .interval .int, .global 4⟩)
      = Int32.ofNat (99 + 4) := hlocate
  have haddress : m.addressable bare.selfSlot heldSpan = true := by
    refine Bool.and_eq_true_iff.2 ⟨hleads, ?_⟩
    rw [hlocate]
    exact hreadable
  have heval : m.eval bare.selfSlot heldSpan = some (.int 112) := by
    show some (Value.int (m.memory.word (m.locateKind bare.selfSlot
      (.ident ⟨"span", .interval .int, .global 4⟩)).toInt.toNat)) = _
    rw [hlocate, hint]
    exact congrArg (some ∘ Value.int) h.span
  have hcount : S.Countable raw (Ty.refs (.interval .int) [.int 112]) m := by
    intro x hx
    obtain rfl := List.mem_singleton.1 hx
    exact ⟨Site.mem_records h.live, hraw, h.count ▸ hn⟩
  obtain ⟨m', hfetched, hQ⟩ := hyields haddress _ heval hcount
  have hmemory : m'.memory = m.memory.setWord 112 (m.memory.word 112 + 1) :=
    hfetched.counted.eq_of_singleton
  refine ⟨m', hfetched.toSupplied, hfetched.heap, ⟨?_, ?_, ?_, hfetched.heap ▸ h.live⟩, hQ⟩
  · rw [hmemory, Memory.word_setWord_of_apart (by decide) (by decide) (by decide), h.idle]
  · rw [hmemory, Memory.word_setWord_of_apart (by decide) (by decide) (by decide), h.span]
  · rw [hmemory, Memory.word_setWord_self (by decide), h.count]

theorem spanCode_stores {S : Site eightCounter ⟨[]⟩ m₀.image} (P : Provides m₀ S)
    (hm : Machine.Intact m₀ m₀) (hrunning : m₀.halted = false) (hstack : m₀.stack = [])
    (hheap : m₀.heap = spanHeap 0) (hindex : S.index = 32) (hzero : m₀.memory.word 32 = 0)
    (hp : Placed m₀.image m₀.pc (spanCode ++ c))
    (hg : m₀.image.dataLabel? Frame.globalBlock = some 99) :
    ∃ m, Machine.Reaches m₀ m ∧ S.Facing c [] [112] m ∧ m.stack = [] ∧ m.heap = spanHeap 1 ∧
      Held 1 m := by
  have hbalanced : S.Balanced [] [] m₀.memory m₀.heap :=
    balanced_of_empty (by rw [hheap]; rfl) (hindex ▸ hzero)
  -- the address of the variable
  have haddress : m₀.Produces ([Instr.pushD Frame.globalBlock] ++ [Instr.pushI 4, .add]) []
      (some (.int (m₀.dataAddress Frame.globalBlock + 4))) :=
    (Machine.produces_data (Option.isSome_iff_exists.2 ⟨99, hg⟩)).followed (Machine.produces_offset _ 4)
  have hplace : m₀.dataAddress Frame.globalBlock + 4 = Int32.ofNat 103 := by
    rw [Machine.dataAddress, hg]
    rfl
  have hgoes := haddress m₀.pc m₀.stack hp.left.left
  rw [hplace] at hgoes
  obtain ⟨steps₁, hreach₁⟩ := Machine.reaches_of_goes hrunning hgoes
  -- the interval
  have hface₁ : S.Facing (literalCode 5 6) [] [] (View.machine _ m₀.image m₀.output steps₁) :=
    ⟨hreach₁.intact P.size hm, rfl, hp.left.right.left, hbalanced⟩
  obtain ⟨b, m₂, hstart, hheap₂, hbelow₂, hmade⟩ :=
    P.makes_literals hface₁ (show m₀.heap.allocate 20 = _ from hheap ▸ allocate_spanHeap 0 (by decide))
  have hm₂ := hmade.supplied.reaches.intact P.size hface₁.intact
  have ha₂ := P.addresses hm₂
  have hbase : m₂.heap.base = 112 := by rw [hheap₂]; rfl
  have hb : b = ⟨112, 20⟩ := by
    have hall : ∀ d ∈ (spanHeap 1).live, d.start = 112 → d = ⟨112, 20⟩ := by decide +kernel
    exact hall b (hheap₂ ▸ hmade.live) hstart
  subst hb
  -- the store
  have hstack₂ : m₂.stack = [.int 112, .int (Int32.ofNat 103)] := by
    rw [hmade.supplied.stack]
    show [Value.int 112] ++ .int (Int32.ofNat 103) :: m₀.stack = _
    rw [hstack]
    rfl
  have hstore : Goes m₂.image m₂.view ⟨m₂.pc + 1, [], m₂.memory.setWord 103 112, m₂.heap⟩ := by
    have hi : m₀.image.code[m₂.pc]? = some .storeI := by
      rw [hmade.supplied.pc]
      exact hp.left.right.right.code 0 _ rfl
    have hsize := ha₂.base
    rw [Machine.view, hstack₂, hm₂.image]
    exact .one (.act hi (Instr.act_storeI (by decide) (Heap.grants_of_below (by omega) (by omega))))
  obtain ⟨steps₃, hreach₃⟩ := Machine.reaches_of_goes hmade.supplied.running hstore
  have hword (x : Nat) (hx : x + 4 ≤ 103 ∨ 107 ≤ x) (hlt : x + 4 ≤ 0x80000000) :
      (m₂.memory.setWord 103 112).word x = m₂.memory.word x :=
    Memory.word_setWord_of_apart (by omega) (by omega) (by omega)
  have hidle : m₂.memory.word 32 = 0 := by
    rw [← hzero]
    refine Memory.word_congr fun i hi => hbelow₂ _ ?_
    rw [hheap, show (spanHeap 0).base = 112 from rfl]
    omega
  refine ⟨_, hreach₁.trans (hmade.supplied.reaches.trans hreach₃),
    ⟨hreach₃.intact P.size hm₂, rfl, ?_, ?_⟩, rfl, hheap₂, ?_⟩
  · have hlength : m₂.pc + 1 = m₀.pc + spanCode.executable.length := by
      rw [hmade.supplied.pc]
      rfl
    show Placed m₀.image (m₂.pc + 1) c
    rw [hlength]
    exact hp.right
  · exact hmade.supplied.balanced.setWord 112 ha₂ (by omega) (by omega) (by decide)
  · exact ⟨(hword 32 (by decide) (by decide)).trans hidle, Memory.word_setWord_self (by decide),
      (hword 112 (by decide) (by decide)).trans hmade.count, hmade.live⟩

theorem bound_reads_back_upper :
    ∃ m₀ m₅ m₆ m₈, Machine.load upperListing ⟨4096, 1024, 1000⟩ = .ok m₀ ∧ Machine.Reaches m₀ m₅ ∧
      (∃ m, Machine.Reaches { m₅ with pc := storedEntry, memory := m₅.memory.setWord 99 132 } m ∧
        m.stack = .int 112 :: m₅.stack) ∧
      Machine.Reaches m₅ m₆ ∧ m₆.stack = [.int 112] ∧ ⟨132, 20⟩ ∈ m₆.heap.live ∧ Machine.Reaches m₆ m₈ ∧
      m₈.stack = [.int 112] ∧ ⟨132, 20⟩ ∉ m₈.heap.live ∧ ∃ d ∈ m₈.heap.live, d.start = 112 := by
  obtain ⟨m₀, S, hload, hrunning, hstack, hheap, hindex, hzero, hp, hg, hstored⟩ := upperListing_ready
  have hm₀ : Machine.Intact m₀ m₀ :=
    (Machine.load_loaded hload).intact (Machine.load_fresh hload).2
  have hdata : eightCounter.data <:+: upperListing := (List.prefix_append _ _).isInfix
  have hallocate : Environment.allocateEntry ∉ upperListing.labels := by decide +kernel
  have hdeallocate : Environment.deallocateEntry ∉ upperListing.labels := by decide +kernel
  have hcodes : Codes ⟨[]⟩ := ⟨List.nodup_nil, nofun, nofun, nofun⟩
  have hlow : m₀.heap.limit ≤ 0x80000000 := by rw [hheap]; decide +kernel
  have hbase : 107 ≤ m₀.heap.base := by rw [hheap]; decide +kernel
  have P := provides_of_load hload hdata upperListing_routines upperListing_handlers hallocate
    hdeallocate hcodes hlow S
  obtain ⟨m, hreach, hface, hempty, hheap', hheld⟩ :=
    spanCode_stores P hm₀ hrunning hstack hheap hindex hzero hp hg
  have hcode : (expr bare upperSpan >>= valueOf upperSpan) ⟨.none, false, false, []⟩
      = .ok (bareCode upperSpan, _) := rfl
  have hok : bareTyping.exprOk upperSpan := rfl
  obtain ⟨b, lowCode, highCode, made, rest, hstart, -, -, -, m₁, hawait₁, hlowYields⟩ :=
    bound_reads_back (p := bareTyping) hload hdata upperListing_routines upperListing_handlers hallocate
      hdeallocate hcodes S hlow hface.intact hface.running (fun h => nomatch h) hok hcode
      (hface.intact.image ▸ hface.placed.left) hface.balanced (hheap' ▸ allocate_spanHeap 1 (by decide))
  have hlive : ⟨112, 20⟩ ∈ (spanHeap 2).live := by decide +kernel
  have hraw : 112 ∉ [b.start] := by rw [hstart]; decide
  -- the lower bound
  have hm₁ := hawait₁.reaches.intact P.size hface.intact
  obtain ⟨m₂, hlow₂, hheap₂, hheld₂, m₃, hawait₃, hhighYields⟩ :=
    (hheld.fills hawait₁.fills hstart (hawait₁.heap ▸ hlive)).fetched P hm₁ hg hbase hraw (by decide)
      hlowYields
  -- the upper bound
  have hm₃ := hawait₃.reaches.intact P.size (hlow₂.reaches.intact P.size hm₁)
  obtain ⟨m₄, hhigh₄, hheap₄, hheld₄, m₅, hmade, hplaces, hout⟩ :=
    (hheld₂.fills hawait₃.fills hstart (hawait₃.heap ▸ hheld₂.live)).fetched P hm₃ hg hbase hraw
      (by decide) hhighYields
  have hheld₅ := hheld₄.fills hmade.fills hstart (hmade.heap ▸ hheld₄.live)
  have hm₅ := hmade.supplied.reaches.intact P.size hface.intact
  have hheap₅ : m₅.heap = spanHeap 2 := by
    rw [hmade.heap, hheap₄, hawait₃.heap, hheap₂, hawait₁.heap]
  have hpending : (S.graph m₅.memory m₅.heap).pending = [] := by
    rw [Site.graph_pending, hindex, hheld₅.idle]
    rfl
  obtain ⟨m₆, hreach₆, hover | ⟨hread, hsupplied, hnext₆⟩⟩ := hout (by
    intro x hx
    obtain rfl := List.mem_singleton.1 hx
    show (m₅.memory.word 112).toInt < _
    rw [hheld₅.count]
    decide)
  · rw [hpending] at hover
    exact absurd hover.2.2 (by decide)
  have hm₆ := hsupplied.reaches.intact P.size hface.intact
  have hscheduled := hread.scheduled
  rw [hpending] at hscheduled
  have hdrains : S.AtDrain b _ m₆ m₆ := {
    reaches := .refl m₆
    running := hsupplied.running
    call := by
      rw [hm₆.image, hsupplied.pc]
      exact hface.placed.right.code 0 _ rfl
    balanced := hsupplied.balanced
    pending := hscheduled ▸ List.mem_cons_self
    spared := .of_eq rfl rfl }
  obtain ⟨m₈, hreach₈, hover | ⟨-, -, hstack₈, hgone, hstays⟩⟩ :=
    hnext₆ _ m₆ hdrains (List.subset_append_left _ _)
  · have hrecords : (S.graph m₆.memory m₆.heap).records = [112, 132] := by
      show m₆.heap.live.map _ = _
      rw [hread.heap, hheap₅]
      decide +kernel
    have hlong := Nat.lt_of_lt_of_le hover.2.2 graph_size_le
    rw [hscheduled, hrecords] at hlong
    exact absurd (show 8 < 5 from hlong) (by decide)
  obtain rfl : b = ⟨132, 20⟩ := by
    have hall : ∀ d ∈ (spanHeap 2).live, d.start = 132 → d = ⟨132, 20⟩ := by decide +kernel
    exact hall b (hheap₅ ▸ hmade.live) hstart
  have hstack₆ : m₆.stack = [.int 112] := by
    rw [hsupplied.stack, hempty]
    rfl
  have hplace := @inPlace_global _ _ _ _ S _ _ _ bare 99 storedEntry "spans" P hm₅
    hmade.supplied.running hmade.live hmade.holds hg (by omega)
  obtain ⟨c, hc, hreads⟩ := hplaces _ .high .none _ hplace
  have hc' : bareCode storedSpan = c := by
    rw [bareCode, storedSpan, hc]
  obtain ⟨steps, hreads⟩ := hreads (by rw [← hc', hm₅.image]; exact hstored)
  exact ⟨m₀, m₅, m₆, m₈, hload, hreach.trans hmade.supplied.reaches, ⟨_, hreads, rfl⟩, hreach₆, hstack₆,
    hread.heap ▸ hmade.live, hreach₈, hstack₈.trans hstack₆, hgone, hstays 112 List.mem_cons_self⟩

end Drain
end IntervalStack
