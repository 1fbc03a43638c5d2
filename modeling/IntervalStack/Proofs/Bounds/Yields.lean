import IntervalStack.Proofs.Bounds.Owned

/-! What running the code of an owned value comes to, by the tree of the expression. Places, literals,
operators, intervals and parts of new records supply the value themselves. Calls and new structs are
left open: however they supply a value, the code behind them goes on from there. -/

namespace IntervalStack.Drain
open RefCounter Generator

variable {counter : RefCounter} {structs : StructTable} {image : Image}
  {S : Site counter structs image} {raw own : List Nat} {m₀ m m₁ m' : Machine} {ty : Ty}
  {c c' : Code} {v : Value} {vs : List Value} {e object low high : Expr} {kind : ExprKind} {span : Span}
  {ctx : Context} {p : Typing} {o : Int32}

structure Site.Fetched (S : Site counter structs image) (raw own : List Nat) (ty : Ty) (c : Code)
    (v : Value) (m m' : Machine) : Prop extends S.Supplied raw own ty c [v] m m' where
  heap : m'.heap = m.heap
  counted : Counted (ty.refs [v]) m.heap m.memory m'.memory

structure Site.Computed (S : Site counter structs image) (raw own : List Nat) (ty : Ty) (c : Code)
    (v : Value) (m m₁ m' : Machine) : Prop extends S.Supplied raw own ty c [v] m m' where
  memory : m'.memory = m₁.memory
  heap : m'.heap = m₁.heap

structure Arrives (c : Code) (m m' : Machine) : Prop where
  reaches : Machine.Reaches m m'
  running : m'.halted = false
  placed : Placed m'.image m'.pc c
  memory : m'.memory = m.memory
  heap : m'.heap = m.heap

/-- A value that is written out or stored in a place that can be read. If it is a reference, the record
is live and complete. -/
def Site.Fetches (S : Site counter structs image) (ctx : Context) (ty : Ty) (kind : ExprKind)
    (c : Code) (raw own : List Nat) (m : Machine) (Q : Value → Machine → Prop) : Prop :=
  m.addressableKind ctx.selfSlot ty kind → ∀ v, m.evalKind ctx.selfSlot ty kind = some v →
    S.Countable raw (ty.refs [v]) m → ∃ m', S.Fetched raw own ty c v m m' ∧ Q v m'

def Site.TakesOut (S : Site counter structs image) (ty : Ty) (o : Int32) (c : Code)
    (raw own : List Nat) (m : Machine) (Q : Value → Machine → Prop) (v : Value) (m₁ : Machine) : Prop :=
  ∀ b w, v = .int (Int32.ofNat b.start) → b ∈ m₁.heap.live → 0 ≤ o.toInt →
    o.toInt.toNat + ty.size.toNat ≤ b.size →
    m₁.memory.operands ty (b.start + o.toInt.toNat) = [w] → S.Countable raw (ty.refs [w]) m₁ →
    ∃ m₂, Machine.Reaches m₁ m₂ ∧
      (S.Overflown ((S.graph m₁.memory m₁.heap).pending.length + 1) m₂.view ∨
        S.Scheduled (ty.refs [w]) b.start m₁ m₂ ∧ S.Supplied raw own ty c [w] m m₂ ∧ Q w m₂)

mutual

/-- What comes of the code of an expression whose value gets an owner, while the records in `raw` are
being filled and the references in `own` are held. The property holds of the value and of the machine
behind the code. -/
def Site.Yields (S : Site counter structs image) (ctx : Context) :
    Expr → Code → List Nat → List Nat → Machine → (Value → Machine → Prop) → Prop
  | ⟨kind, ty, _⟩, c, raw, own, m, Q => S.YieldsKind ctx ty kind c raw own m Q

def Site.YieldsKind (S : Site counter structs image) (ctx : Context) (ty : Ty) :
    ExprKind → Code → List Nat → List Nat → Machine → (Value → Machine → Prop) → Prop
  | .unary op e, c, raw, own, m, Q =>
    ∃ c₁, OwnedCode ctx e c₁ ∧ S.Yields ctx e c₁ raw own m fun v m₁ =>
      ∃ m', S.Computed raw own ty c (op.apply e.ty v) m m₁ m' ∧ Q (op.apply e.ty v) m'
  | .binary op l r, c, raw, own, m, Q =>
    ∃ c₁ c₂, OwnedCode ctx l c₁ ∧ OwnedCode ctx r c₂ ∧ S.Yields ctx l c₁ raw own m fun a m₁ =>
      if op.decidedBy a then ∃ m', S.Computed raw own ty c a m m₁ m' ∧ Q a m'
      else ∃ m₂, Arrives c₂ m₁ m₂ ∧ S.Yields ctx r c₂ raw own m₂ fun b m₃ =>
        ∀ v, op.apply a b = some v → ∃ m', S.Computed raw own ty c v m m₃ m' ∧ Q v m'
  | .interval low high, c, raw, own, m, Q =>
    ∀ a heap', m.heap.allocate (Layout.intervalSize low.ty).toNat = .ok (a, heap') →
      ∃ b c₁ c₂, b.start = a ∧ OwnedCode ctx low c₁ ∧ OwnedCode ctx high c₂ ∧
        S.Awaits b raw own c₁ heap' m fun m₁ =>
          S.Yields ctx low c₁ (b.start :: raw) own m₁ fun vl m₂ =>
            S.Awaits b raw (low.ty.refs [vl] ++ own) c₂ m₂.heap m₂ fun m₃ =>
              S.Yields ctx high c₂ (b.start :: raw) (low.ty.refs [vl] ++ own) m₃ fun vh m₄ =>
                ∃ m₅, S.Completed b raw own low.ty c (bothBounds [vl] [vh]) m m₄ m₅ ∧
                  Q (.int (Int32.ofNat b.start)) m₅
  | .bound object which, c, raw, own, m, Q =>
    if object.isPath then S.Fetches ctx ty (.bound object which) c raw own m Q
    else ∃ c₁, OwnedCode ctx object c₁ ∧
      S.Yields ctx object c₁ raw own m (S.TakesOut ty (Layout.boundOffset ty which) c raw own m Q)
  | .field object member, c, raw, own, m, Q =>
    if object.isPath then S.Fetches ctx ty (.field object member) c raw own m Q
    else ∃ c₁, OwnedCode ctx object c₁ ∧
      S.Yields ctx object c₁ raw own m (S.TakesOut ty member.storage.offset c raw own m Q)
  | .methodCall .., c, raw, own, m, Q | .call .., c, raw, own, m, Q | .new _, c, raw, own, m, Q =>
    ∀ v m', S.Supplied raw own ty c [v] m m' → Q v m'
  | kind, c, raw, own, m, Q => S.Fetches ctx ty kind c raw own m Q

end

theorem not_heap_of_isScalar (h : ty.isScalar = true) : ty.isHeap = false := by
  obtain ⟨k, rfl⟩ := Ty.eq_of_isScalar h
  cases k <;> rfl

theorem Site.Supplied.passed (h : S.Supplied raw own ty c vs m m') (hty : ty.isHeap = false) :
    S.Passed raw own c vs m m' := by
  have hpassed := h.toPassed
  rwa [Ty.refs_of_not_heap hty] at hpassed

theorem Site.Passed.goes (h : S.Passed raw own c vs m m₁) (c' : Code) (ws : List Value)
    (hgoes : Goes m₁.image ⟨m₁.pc, vs ++ m.stack, m₁.memory, m₁.heap⟩
      ⟨m₁.pc + c'.executable.length, ws ++ m.stack, m₁.memory, m₁.heap⟩) :
    ∃ m', Machine.Reaches m₁ m' ∧ m'.memory = m₁.memory ∧ m'.heap = m₁.heap ∧
      S.Passed raw own (c ++ c') ws m m' := by
  rw [← h.stack] at hgoes
  obtain ⟨steps, hreach⟩ := Machine.reaches_of_goes h.running hgoes
  exact ⟨_, hreach, rfl, rfl, {
    reaches := h.reaches.trans hreach
    running := rfl
    pc := by
      rw [Code.executable_append, List.length_append, ← Nat.add_assoc, ← h.pc]
      rfl
    stack := rfl
    balanced := h.balanced
    spared := h.spared.trans (.of_eq rfl rfl) }⟩

theorem Site.Passed.computed (h : S.Passed raw own c [v] m m') (hty : ty.isHeap = false)
    (hv : ty.Operands [v]) (hmemory : m'.memory = m₁.memory) (hheap : m'.heap = m₁.heap) :
    S.Computed raw own ty c v m m₁ m' := by
  have hrefs : own = ty.refs [v] ++ own := by rw [Ty.refs_of_not_heap hty]; rfl
  rw [hrefs] at h
  exact { h with operands := hv, memory := hmemory, heap := hheap }

theorem Site.Passed.computes (h : S.Passed raw own c vs m m₁) (hruns : m₁.Produces c' vs (some v))
    (hp : Placed m₁.image m₁.pc c') (hty : ty.isHeap = false) (hv : ty.Operands [v]) :
    ∃ m', S.Computed raw own ty (c ++ c') v m m₁ m' := by
  obtain ⟨m', -, hmemory, hheap, hpassed⟩ := h.goes c' [v] (hruns m₁.pc m.stack hp)
  exact ⟨m', hpassed.computed hty hv hmemory hheap⟩

variable {S : Site counter structs m₀.image}

structure Site.Facing (S : Site counter structs m₀.image) (c : Code) (raw own : List Nat)
    (m : Machine) : Prop where
  intact : Machine.Intact m₀ m
  running : m.halted = false
  placed : Placed m₀.image m.pc c
  balanced : S.Balanced raw own m.memory m.heap

theorem Site.Facing.left (h : S.Facing (c ++ c') raw own m) : S.Facing c raw own m :=
  { h with placed := h.placed.left }

theorem Site.Facing.passed {own' : List Nat} (h : S.Facing (c ++ c') raw own m) (P : Provides m₀ S)
    (hpassed : S.Passed raw own' c vs m m₁) : S.Facing c' raw own' m₁ where
  intact := hpassed.reaches.intact P.size h.intact
  running := hpassed.running
  placed := hpassed.pc ▸ h.placed.right
  balanced := hpassed.balanced

theorem Site.Awaiting.facing {b : HeapBlock} {heap : Heap} (h : S.Awaiting b raw own c heap m m₁)
    (P : Provides m₀ S) (hm : Machine.Intact m₀ m) : S.Facing c (b.start :: raw) own m₁ where
  intact := h.reaches.intact P.size hm
  running := h.running
  placed := (h.reaches.intact P.size hm).image ▸ h.placed
  balanced := h.balanced

def Site.Covers (S : Site counter structs m₀.image) (ctx : Context) (e : Expr) : Prop :=
  ∀ ⦃c raw own m⦄ ⦃Q : Value → Machine → Prop⦄, OwnedCode ctx e c → S.Facing c raw own m →
    (∀ v m', S.Supplied raw own e.ty c [v] m m' → Q v m') → S.Yields ctx e c raw own m Q

theorem Provides.fetches (P : Provides m₀ S) (h : S.Facing (c ++ countIfHeap ty) raw own m)
    (hruns : m.Produces c [] (some v)) (hv : ty.Operands [v])
    (hcount : S.Countable raw (ty.refs [v]) m) :
    ∃ m', S.Fetched raw own ty (c ++ countIfHeap ty) v m m' := by
  have ha := P.addresses h.intact
  obtain ⟨q, hq⟩ := P.increment
  have hp := h.placed
  obtain ⟨memory', hcounted, hcounts⟩ := h.balanced.counts m.stack ha hq hp.right hv
    fun x hx => (hcount x hx).1
  rw [← h.intact.image] at hp hcounts
  have hgoes := (hruns m.pc m.stack hp.left).trans hcounts
  obtain ⟨steps, hreach⟩ := Machine.reaches_of_goes h.running hgoes
  have hholds : S.Holds ((S.graph m.memory m.heap).pending ++ []) memory' := by
    rw [List.append_nil]
    exact hcounted.holds ha h.balanced.laidOut (S.holds_scheduled h.balanced.room)
  have hbalanced : S.Balanced raw ([] ++ own) m.memory m.heap := h.balanced
  exact ⟨_, {
    reaches := hreach
    running := rfl
    pc := by
      rw [Code.executable_append, List.length_append, ← Nat.add_assoc]
      rfl
    stack := rfl
    balanced := (hbalanced.settled P.codes ha hcount hcounted (.refl S memory') hholds).2
    spared := hcounted.spared ha h.balanced.laidOut (.refl S memory') rfl fun x hx => (hcount x hx).2.1
    operands := hv
    heap := rfl
    counted := hcounted }⟩

theorem Provides.fetchesDirect (P : Provides m₀ S) (hself : p.self.isSome → ctx.selfSlot.isSome)
    (hok : p.kindOk ty kind) (hdirect : kind.isDirect) {Q : Value → Machine → Prop}
    (hcode : OwnedCode ctx ⟨kind, ty, span⟩ c) (hface : S.Facing c raw own m)
    (hQ : ∀ v m', S.Supplied raw own ty c [v] m m' → Q v m') :
    S.Fetches ctx ty kind c raw own m Q := by
  intro haddress v hv hcount
  obtain ⟨cv, rfl, hruns⟩ := exists_directCode hself hok hdirect hcode
  obtain ⟨hoperands, hproduces⟩ := hruns m v haddress hv
  obtain ⟨m', hfetched⟩ := P.fetches hface hproduces hoperands hcount
  exact ⟨m', hfetched, hQ v m' hfetched.toSupplied⟩

namespace Site.Covers

theorem unary {op : UnaryOp} (P : Provides m₀ S) (he : S.Covers ctx e) (hty : ty = op.result e.ty) :
    S.Covers ctx ⟨.unary op e, ty, span⟩ := by
  intro c raw own m Q hcode hface hQ
  obtain ⟨c₁, c₂, hc₁, htakes, rfl, hruns⟩ := exists_unaryCode hcode
  have hscalar := UnaryOp.isScalar_of_takes htakes
  have hplain : ty.isHeap = false := by
    rw [hty]
    cases op with
    | negate => exact not_heap_of_isScalar hscalar
    | _ => rfl
  refine ⟨c₁, hc₁, he hc₁ hface.left fun v m₁ hv => ?_⟩
  have hpassed := hv.passed (not_heap_of_isScalar hscalar)
  have hface₁ := hface.passed P hpassed
  obtain ⟨m', hm'⟩ := hpassed.computes (hruns m₁ v hv.operands) (hface₁.intact.image ▸ hface₁.placed)
    hplain (hty ▸ UnaryOp.operands_apply htakes hv.operands)
  exact ⟨m', hm', hQ _ _ hm'.toSupplied⟩

theorem strict {op : BinOp} {l r : Expr} {c₁ c₂ c₃ : Code} {Q : Value → Machine → Prop}
    (P : Provides m₀ S) (hl : S.Covers ctx l) (hr : S.Covers ctx r) (hsame : r.ty = l.ty)
    (hscalar : l.ty.isScalar = true) (hplain : ty.isHeap = false)
    (htyped : ∀ {a b v}, l.ty.Operands [a] → l.ty.Operands [b] → op.apply a b = some v →
      ty.Operands [v])
    (hc₁ : OwnedCode ctx l c₁) (hc₂ : OwnedCode ctx r c₂)
    (hruns : ∀ (m : Machine) a b, (m.image.label? Environment.divideByZero).isSome →
      l.ty.Operands [a] → l.ty.Operands [b] → m.Produces c₃ [b, a] (op.apply a b))
    (hlogical : op.isLogical = false) (hface : S.Facing (c₁ ++ c₂ ++ c₃) raw own m)
    (hQ : ∀ v m', S.Supplied raw own ty (c₁ ++ c₂ ++ c₃) [v] m m' → Q v m') :
    S.Yields ctx ⟨.binary op l r, ty, span⟩ (c₁ ++ c₂ ++ c₃) raw own m Q := by
  refine ⟨c₁, c₂, hc₁, hc₂, hl hc₁ hface.left.left fun a m₁ ha => ?_⟩
  rw [BinOp.decidedBy_eq_false hlogical, if_neg Bool.false_ne_true]
  have hpassed₁ := ha.passed (not_heap_of_isScalar hscalar)
  have hface₁ := hface.left.passed P hpassed₁
  refine ⟨m₁, ⟨.refl m₁, hface₁.running, hface₁.intact.image ▸ hface₁.placed, rfl, rfl⟩,
    hr hc₂ hface₁ fun b m₂ hb v hv => ?_⟩
  rw [hsame] at hb
  have hpassed₂ := hpassed₁.trans (hb.passed (not_heap_of_isScalar hscalar))
  have hface₂ := hface.passed P hpassed₂
  have hproduces := hruns m₂ a b (hface₂.intact.image ▸ P.divides) ha.operands hb.operands
  rw [hv] at hproduces
  obtain ⟨m', hm'⟩ := hpassed₂.computes hproduces (hface₂.intact.image ▸ hface₂.placed) hplain
    (htyped ha.operands hb.operands hv)
  exact ⟨m', hm', hQ _ _ hm'.toSupplied⟩

theorem logical {op : BinOp} {l r : Expr} {c₁ c₂ : Code} {done : String} {Q : Value → Machine → Prop}
    (P : Provides m₀ S) (hl : S.Covers ctx l) (hr : S.Covers ctx r) (hlty : l.ty = .bool)
    (hrty : r.ty = .bool) (hc₁ : OwnedCode ctx l c₁) (hc₂ : OwnedCode ctx r c₂)
    (hop : op.isLogical = true) (hface : S.Facing (logicalCode op c₁ c₂ done) raw own m)
    (hQ : ∀ v m', S.Supplied raw own .bool (logicalCode op c₁ c₂ done) [v] m m' → Q v m') :
    S.Yields ctx ⟨.binary op l r, .bool, span⟩ (logicalCode op c₁ c₂ done) raw own m Q := by
  rw [logicalCode_eq] at hface hQ ⊢
  refine ⟨c₁, c₂, hc₁, hc₂, hl hc₁ hface.left fun a m₁ ha => ?_⟩
  rw [hlty] at ha
  obtain ⟨n, hn⟩ := ha.operands
  obtain rfl := List.singleton_inj.1 hn
  have hpassed₁ := ha.passed rfl
  have hface₁ := hface.passed P hpassed₁
  have hgoes := logical_skips m.stack n hop (hface₁.intact.image ▸ hface₁.placed)
  cases hdecided : op.decidedBy (.int n) with
  | true =>
    rw [hdecided] at hgoes
    obtain ⟨m', -, hmemory, hheap, hpassed⟩ := hpassed₁.goes _ [.int n] hgoes
    have hm' : S.Computed _ _ .bool _ _ _ _ _ := hpassed.computed rfl ⟨n, rfl⟩ hmemory hheap
    exact ⟨m', hm', hQ _ _ hm'.toSupplied⟩
  | false =>
    rw [hdecided] at hgoes
    obtain ⟨m₂, hreach₂, hmemory₂, hheap₂, hpassed₂⟩ := hpassed₁.goes (decidingCode op done) [] hgoes
    rw [← List.append_assoc, ← List.append_assoc] at hface hQ
    have hface₂ := hface.left.passed P hpassed₂
    refine ⟨m₂, ⟨hreach₂, hface₂.running, hface₂.intact.image ▸ hface₂.placed, hmemory₂, hheap₂⟩,
      hr hc₂ hface₂ fun b m₃ hb v hv => ?_⟩
    rw [BinOp.apply_logical hop] at hv
    cases hv
    rw [hrty] at hb
    obtain ⟨m', -, hmemory, hheap, hpassed⟩ :=
      (hpassed₂.trans (hb.passed rfl)).goes [.label done] [b] (.refl _ _)
    have hm' : S.Computed _ _ .bool _ _ _ _ _ := hpassed.computed rfl hb.operands hmemory hheap
    rw [← List.append_assoc, ← List.append_assoc]
    exact ⟨m', hm', hQ _ _ hm'.toSupplied⟩

theorem binary {op : BinOp} {l r : Expr} (P : Provides m₀ S) (hl : S.Covers ctx l) (hr : S.Covers ctx r)
    (hsame : r.ty = l.ty) (hty : ty = op.result l.ty) : S.Covers ctx ⟨.binary op l r, ty, span⟩ := by
  intro c raw own m Q hcode hface hQ
  obtain ⟨c₁, c₂, hc₁, hc₂, htakes, ⟨hlogical, done, rfl⟩ | ⟨hlogical, c₃, rfl, hruns⟩⟩ :=
    exists_binaryCode hcode hsame
  · have hlty : l.ty = .bool := by
      rw [BinOp.takes, if_pos hlogical] at htakes
      exact of_decide_eq_true htakes
    obtain rfl : ty = .bool := by
      rw [hty, BinOp.result, hlogical, Bool.or_true, if_pos rfl]
    exact logical P hl hr hlty (hsame.trans hlty) hc₁ hc₂ hlogical hface hQ
  · have hscalar : l.ty.isScalar = true := by
      rw [BinOp.takes, hlogical, if_neg Bool.false_ne_true] at htakes
      exact (Bool.and_eq_true_iff.1 htakes).1
    have hplain : ty.isHeap = false := by
      rw [hty, BinOp.result]
      split
      · rfl
      · exact not_heap_of_isScalar hscalar
    exact strict P hl hr hsame hscalar hplain
      (fun ha hb hv => hty ▸ BinOp.operands_apply htakes ha hb hv) hc₁ hc₂ hruns hlogical hface hQ

theorem interval (P : Provides m₀ S) (hlow : S.Covers ctx low) (hhigh : S.Covers ctx high)
    (hsame : high.ty = low.ty) : S.Covers ctx ⟨.interval low high, .interval low.ty, span⟩ := by
  intro c raw own m Q hcode hface hQ a heap' halloc
  obtain ⟨s, s', hcode⟩ := hcode
  obtain ⟨f, s₁, hf, hc⟩ := bind_ok.1 hcode
  obtain ⟨store, c₁, c₂, hstore, hc₁, hc₂, rfl⟩ := exists_intervalCode hf
  obtain rfl := eq_of_ownedValueOf hc
  obtain ⟨b, hstart, m₁, hawait₁, hnext₁⟩ :=
    P.makes hface.intact hface.running hstore hface.placed hface.balanced halloc
  have hface₁ := hawait₁.facing P hface.intact
  refine ⟨b, c₁, c₂, hstart, hc₁, hc₂, m₁, hawait₁, hlow hc₁ hface₁ fun vl m₂ hvl => ?_⟩
  obtain ⟨m₃, hawait₃, hnext₃⟩ := hnext₁ [vl] m₂ hvl
  have hface₃ := hawait₃.facing P (hvl.reaches.intact P.size hface₁.intact)
  refine ⟨m₃, hawait₃, hhigh hc₂ hface₃ fun vh m₄ hvh => ?_⟩
  obtain ⟨m₅, hmade⟩ := hnext₃ [vh] m₄ (hsame ▸ hvh)
  exact ⟨m₅, hmade, hQ _ _ hmade.supplied⟩

theorem part (P : Provides m₀ S) (hok : p.kindOk ty kind) (hpart : kind.part? ty = some (object, o))
    (hpath : kind.isPath = false) (hobject : S.Covers ctx object) {Q : Value → Machine → Prop}
    (hcode : OwnedCode ctx ⟨kind, ty, span⟩ c) (hface : S.Facing c raw own m)
    (hQ : ∀ v m', S.Supplied raw own ty c [v] m m' → Q v m') :
    ∃ c₁, OwnedCode ctx object c₁ ∧
      S.Yields ctx object c₁ raw own m (S.TakesOut ty o c raw own m Q) := by
  obtain ⟨hheap, c₁, load, hc₁, hload, rfl⟩ := exists_readOutCode hok hpart hpath hcode
  refine ⟨c₁, hc₁, hobject hc₁ hface.left fun v m₁ hv => ?_⟩
  rintro b w rfl hb ho hinside hread hcount
  have hplaced : Placed m₀.image m₁.pc (readOutCode o ty load) := hv.pc ▸ hface.placed.right
  obtain ⟨m₂, hreach, hend⟩ :=
    P.takesOut hface.intact hv hheap hb ho hinside hread hload hplaced hcount
  refine ⟨m₂, hreach, hend.imp id ?_⟩
  rintro ⟨hscheduled, hsupplied⟩
  exact ⟨hscheduled, hsupplied, hQ w m₂ hsupplied⟩

end Site.Covers

mutual

/-- The owned value of every well-typed expression is supplied, as far as calls and new structs do
so. -/
theorem Provides.covers (P : Provides m₀ S) (hself : p.self.isSome → ctx.selfSlot.isSome) :
    (e : Expr) → p.exprOk e → S.Covers ctx e
  | ⟨kind, ty, span⟩, hok => P.coversKind hself ty span kind hok

theorem Provides.coversKind (P : Provides m₀ S) (hself : p.self.isSome → ctx.selfSlot.isSome) (ty : Ty)
    (span : Span) : (kind : ExprKind) → p.kindOk ty kind → S.Covers ctx ⟨kind, ty, span⟩
  | .bool _, hok | .char _, hok | .int _, hok | .float _, hok | .ident _, hok | .self, hok =>
    fun _ _ _ _ _ hcode hface hQ => P.fetchesDirect hself hok rfl hcode hface hQ
  | .unary op e, hok => by
    obtain ⟨he, hty⟩ := Bool.and_eq_true_iff.1 hok
    exact .unary P (P.covers hself e he) (of_decide_eq_true hty)
  | .binary op l r, hok => by
    simp only [Typing.kindOk, Bool.and_eq_true, decide_eq_true_eq] at hok
    obtain ⟨⟨⟨hl, hr⟩, hsame⟩, hty⟩ := hok
    exact .binary P (P.covers hself l hl) (P.covers hself r hr) hsame hty
  | .interval low high, hok => by
    simp only [Typing.kindOk, Bool.and_eq_true, decide_eq_true_eq] at hok
    obtain ⟨⟨⟨hlow, hhigh⟩, hsame⟩, rfl⟩ := hok
    exact .interval P (P.covers hself low hlow) (P.covers hself high hhigh) hsame
  | .bound object which, hok => by
    intro c raw own m Q hcode hface hQ
    have hobject := (Bool.and_eq_true_iff.1 hok).1
    rw [Site.Yields, Site.YieldsKind]
    split
    · next hpath => exact P.fetchesDirect hself hok hpath hcode hface hQ
    · next hpath =>
      exact Site.Covers.part P hok rfl (Bool.eq_false_iff.2 hpath) (P.covers hself object hobject) hcode
        hface hQ
  | .field object member, hok => by
    intro c raw own m Q hcode hface hQ
    have hobject := (Bool.and_eq_true_iff.1 (Bool.and_eq_true_iff.1 hok).1).1
    obtain ⟨s, s', hcode'⟩ := hcode
    obtain ⟨f, s₁, hf, -⟩ := bind_ok.1 hcode'
    have hsame : (ExprKind.field object member).isPath = object.isPath := by
      rw [ExprKind.isPath, isMember_of_ok hf, Bool.and_true]
    rw [Site.Yields, Site.YieldsKind]
    split
    · next hpath => exact P.fetchesDirect hself hok (hsame.trans hpath) ⟨s, s', hcode'⟩ hface hQ
    · next hpath =>
      exact Site.Covers.part P hok rfl (hsame.trans (Bool.eq_false_iff.2 hpath))
        (P.covers hself object hobject) ⟨s, s', hcode'⟩ hface hQ
  | .methodCall .., _ | .call .., _ | .new _, _ => fun _ _ _ _ _ _ _ hQ => hQ

end

end IntervalStack.Drain
