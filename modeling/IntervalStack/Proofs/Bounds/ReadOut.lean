import IntervalStack.Proofs.Bounds.Making
import IntervalStack.Proofs.ExprEmission

/-! Reading a bound out of a record that no place holds: the bound is counted if it is a reference,
and the record is scheduled. -/

namespace IntervalStack.Drain
open RefCounter Generator

variable {counter : RefCounter} {structs : StructTable} {image : Image}
  {S : Site counter structs image} {memory memory' : Memory} {heap : Heap} {raw own refs : List Nat}
  {work : List Nat} {m₀ m m' : Machine} {sub ty : Ty} {vs stack : List Value} {b d : HeapBlock}
  {which : Bound} {bounds : Bound → List Value} {load : Instr} {o : Int32} {p q a : Nat}

/-! The routine that adds a reference. -/

theorem increment_null (hq : Placed image q incrementCode) (hi : image.code[p]? = some increment)
    (hlt : p + 1 < 0x80000000) :
    Goes image ⟨p, .int 0 :: stack, memory, heap⟩ ⟨p + 1, stack, memory, heap⟩ := by
  have hroutine : image.label? incrementRoutine = some q := hq.label [] _ (incrementCode.drop 1) rfl
  have hnull : image.label? "-rctr-increment-null" = some (q + 9) :=
    hq.label (incrementCode.take 10) _ (incrementCode.drop 11) rfl
  refine (Goes.one (.call hi (by decide) hroutine)).trans ?_
  refine (hq.act 0 [.exchange, .duplicate] ⟨_, rfl⟩ rfl).trans ?_
  refine (Goes.one (.jumpFalse (hq.code 2 _ rfl) hnull 0)).trans ?_
  rw [if_pos rfl]
  refine (hq.act 9 [.pop] ⟨_, rfl⟩ rfl).trans ?_
  exact .one (.ret (hq.code 10 _ rfl) hlt)

theorem Site.Addresses.increment_live (h : S.Addresses memory heap) (hb : b ∈ heap.live)
    (hcount : Has b 0) (hq : Placed image q incrementCode) (hi : image.code[p]? = some increment)
    (hlt : p + 1 < 0x80000000) :
    Goes image ⟨p, .int (Int32.ofNat b.start) :: stack, memory, heap⟩
      ⟨p + 1, stack, memory.setWord b.start (memory.word b.start + 1), heap⟩ := by
  have hroutine : image.label? incrementRoutine = some q := hq.label [] _ (incrementCode.drop 1) rfl
  have hnull : image.label? "-rctr-increment-null" = some (q + 9) :=
    hq.label (incrementCode.take 10) _ (incrementCode.drop 11) rfl
  obtain ⟨hstart, hstop⟩ := h.start_lt hb hcount
  have hgrants : heap.grants memory.size b.start = true := h.grants_field hb hcount
  have hne : Int32.ofNat b.start ≠ 0 := by
    intro hzero
    have hint := congrArg Int32.toInt hzero
    rw [Word.toInt_ofNat (by omega), Int32.toInt_zero] at hint
    omega
  refine (Goes.one (.call hi (by decide) hroutine)).trans ?_
  refine (hq.act 0 [.exchange, .duplicate] ⟨_, rfl⟩ rfl).trans ?_
  refine (Goes.one (.jumpFalse (hq.code 2 _ rfl) hnull _)).trans ?_
  rw [if_neg hne]
  refine (hq.act 3 [.duplicate] ⟨_, rfl⟩ rfl).trans ?_
  refine (Goes.one (.act (hq.code 4 _ rfl) (Instr.act_loadI (by omega) hgrants))).trans ?_
  refine (hq.act 5 [.pushI 1, .add] ⟨_, rfl⟩ rfl).trans ?_
  refine (Goes.one (.act (hq.code 7 _ rfl) (Instr.act_storeI (by omega) hgrants))).trans ?_
  exact .one (.ret (hq.code 8 _ rfl) hlt)

/-- The references are counted: there are none, or there is one, to a live record. -/
def Counted (refs : List Nat) (heap : Heap) (memory memory' : Memory) : Prop :=
  refs = [] ∧ memory' = memory ∨
    ∃ b ∈ heap.live, refs = [b.start] ∧ memory' = memory.setWord b.start (memory.word b.start + 1)

theorem Counted.eq_of_nil (h : Counted [] heap memory memory') : memory' = memory := by
  rcases h with ⟨-, rfl⟩ | ⟨b, -, hrefs, -⟩
  · rfl
  · cases hrefs

theorem Counted.eq_of_singleton (h : Counted [a] heap memory memory') :
    memory' = memory.setWord a (memory.word a + 1) := by
  rcases h with ⟨hrefs, -⟩ | ⟨b, -, hrefs, rfl⟩
  · cases hrefs
  · obtain rfl := List.singleton_inj.1 hrefs
    rfl

theorem Site.Balanced.counts (stack : List Value) (h : S.Balanced raw own memory heap)
    (ha : S.Addresses memory heap) (hq : Placed image q incrementCode)
    (hp : Placed image p (countIfHeap ty)) (hvs : ty.Operands vs)
    (hrefs : ∀ x ∈ ty.refs vs, x ∈ (S.graph memory heap).records) :
    ∃ memory', Counted (ty.refs vs) heap memory memory' ∧
      Goes image ⟨p, vs ++ stack, memory, heap⟩
        ⟨p + (countIfHeap ty).executable.length, vs ++ stack, memory', heap⟩ := by
  cases hheap : ty.isHeap with
  | false =>
    have hnone : countIfHeap ty = [] := by rw [countIfHeap, hheap]; rfl
    rw [hnone]
    exact ⟨memory, .inl ⟨Ty.refs_of_not_heap hheap vs, rfl⟩, .refl _ _⟩
  | true =>
    have hcode : countIfHeap ty = [Instr.duplicate, increment] := by rw [countIfHeap, hheap]; rfl
    rw [hcode] at hp ⊢
    obtain ⟨n, rfl, -⟩ := Ty.operands_of_heap hheap hvs
    have hlt : p + 2 < 0x80000000 :=
      Nat.lt_of_le_of_lt (Array.getElem?_eq_some_iff.1 (hp.code 1 increment rfl)).1 S.short
    have htwice : Goes image ⟨p, .int n :: stack, memory, heap⟩
        ⟨p + 1, .int n :: .int n :: stack, memory, heap⟩ := hp.act 0 [.duplicate] ⟨_, rfl⟩ rfl
    rw [Ty.refs_of_heap hheap] at hrefs ⊢
    by_cases hzero : n = 0
    · subst hzero
      exact ⟨memory, .inl ⟨rfl, rfl⟩, htwice.trans (increment_null hq (hp.code 1 _ rfl) hlt)⟩
    · have hne : n.toUInt32.toNat ≠ 0 := fun h => hzero (by rw [← Word.ofNat_toNat n, h]; rfl)
      have hone : [n.toUInt32.toNat].filter (· ≠ 0) = [n.toUInt32.toNat] :=
        List.filter_eq_self.2 fun x hx => decide_eq_true (List.mem_singleton.1 hx ▸ hne)
      rw [hone] at hrefs ⊢
      obtain ⟨b, hb, hstart⟩ := Site.Ready.mem_records (hrefs _ List.mem_cons_self)
      have hn : n = Int32.ofNat b.start := by rw [hstart, Word.ofNat_toNat]
      have hcount : Has b 0 := ⟨by decide, Nat.le_trans (by decide) (h.laidOut b hb).1.2⟩
      refine ⟨_, .inr ⟨b, hb, by rw [hstart], rfl⟩, htwice.trans ?_⟩
      rw [hn]
      exact ha.increment_live hb hcount hq (hp.code 1 _ rfl) hlt

namespace Counted

variable (h : Counted refs heap memory memory') (ha : S.Addresses memory heap)
  (hlaid : LaidOut structs memory heap)
include h ha hlaid

theorem spares : S.Spares heap memory memory' := by
  have hsame : S.Spares heap memory memory := ⟨rfl, fun _ _ _ _ => rfl⟩
  rcases h with ⟨-, rfl⟩ | ⟨b, hb, -, rfl⟩
  · exact hsame
  · exact hsame.setCount hb (Nat.le_trans (by omega) (ha.start_lt hb (hlaid b hb).1).2) _

theorem holds (hw : S.Holds work memory) : S.Holds work memory' := by
  rcases h with ⟨-, rfl⟩ | ⟨b, hb, -, rfl⟩
  · exact hw
  · obtain ⟨hstart, hstop⟩ := ha.start_lt hb (hlaid b hb).1
    exact hw.setWord hstart (by omega)

theorem get_of_not_mem {x : Nat} (hd : d ∈ heap.live) (hrefs : d.start ∉ refs) (hx : d.start ≤ x)
    (hx' : x < d.stop) : memory'.get x = memory.get x := by
  rcases h with ⟨-, rfl⟩ | ⟨b, hb, rfl, rfl⟩
  · rfl
  · have hne : d ≠ b := fun heq => hrefs (heq ▸ List.mem_cons_self)
    have hsize : 8 ≤ b.size := (hlaid b hb).1.2
    have hfills : Memory.Fills b memory (memory.setWord b.start (memory.word b.start + 1)) :=
      .setWord (Nat.le_refl _) (by rw [HeapBlock.stop]; omega) (ha.block_bounds hb).2
    exact get_of_fills hfills ha.tidy ha.low hb hd hne hx hx'

theorem word_start (hd : d ∈ heap.live) :
    memory'.word d.start = memory.word d.start + Int32.ofNat (refs.count d.start) := by
  have hsize : 8 ≤ d.size := (hlaid d hd).1.2
  have hend : d.stop = d.start + d.size := rfl
  by_cases hmem : d.start ∈ refs
  · rcases h with ⟨rfl, -⟩ | ⟨b, hb, rfl, rfl⟩
    · cases hmem
    · obtain ⟨-, hstop⟩ := ha.start_lt hb (hlaid b hb).1
      rw [List.mem_singleton.1 hmem, Memory.word_setWord_self (by omega), List.count_singleton_self]
      rfl
  · rw [List.count_eq_zero.2 hmem, Memory.word_congr fun i hi =>
      h.get_of_not_mem ha hlaid hd hmem (Nat.le_add_right _ _) (by omega)]
    exact (Int32.add_zero _).symm

theorem toInt_word_start (hfew : ∀ x ∈ refs, (memory.word x).toInt < 0x7fffffff) (hd : d ∈ heap.live) :
    (memory'.word d.start).toInt = (memory.word d.start).toInt + refs.count d.start := by
  rw [h.word_start ha hlaid hd]
  by_cases hmem : d.start ∈ refs
  · have hless := hfew _ hmem
    have hone : refs.count d.start = 1 := by
      rcases h with ⟨rfl, -⟩ | ⟨b, -, rfl, -⟩
      · cases hmem
      · rw [List.mem_singleton.1 hmem, List.count_singleton_self]
    have hge := Int32.le_toInt (memory.word d.start)
    rw [hone, Int32.toInt_add, show (Int32.ofNat 1).toInt = 1 from rfl]
    exact Int.bmod_eq_of_le (by omega) (by omega)
  · rw [List.count_eq_zero.2 hmem]
    exact (congrArg Int32.toInt (Int32.add_zero _)).trans (Int.add_zero _).symm

end Counted

theorem Counted.spared {S : Site counter structs image} {memory₁ : Memory}
    (h : Counted refs m.heap m.memory memory₁) (ha : S.Addresses m.memory m.heap)
    (hlaid : LaidOut structs m.memory m.heap) (hkeeps : S.Keeps memory₁ m'.memory)
    (hheap : m'.heap = m.heap) (hrefs : ∀ x ∈ refs, x ∉ raw) : Spared raw m m' := by
  intro d hd hraw
  have hstart := (ha.start_lt hd (hlaid d hd).1).1
  have hstop := (ha.block_bounds hd).2
  have hapart := S.apart
  refine ⟨hheap ▸ hd, fun x hx hx' => ?_⟩
  rw [hkeeps.get x (by omega) (by rw [Site.Owns]; omega)]
  exact h.get_of_not_mem ha hlaid hd (fun hmem => hrefs _ hmem hraw) hx hx'

/-- The references can be counted: the records are live and complete, and their counts have not come
to their end. -/
def Site.Countable (S : Site counter structs image) (raw refs : List Nat) (m : Machine) : Prop :=
  ∀ x ∈ refs, x ∈ (S.graph m.memory m.heap).records ∧ x ∉ raw ∧
    (m.memory.word x).toInt < 0x7fffffff

theorem Site.Balanced.settled {given : List Nat} {memory₁ : Memory}
    (h : S.Balanced raw (given ++ own) m.memory m.heap) (hcodes : Codes structs)
    (ha : S.Addresses m.memory m.heap) (hcount : S.Countable raw refs m)
    (hcounted : Counted refs m.heap m.memory memory₁) (hkeeps : S.Keeps memory₁ memory')
    (hw : S.Holds ((S.graph m.memory m.heap).pending ++ given) memory') :
    (∀ d ∈ m.heap.live, (memory'.word d.start).toInt
        = (m.memory.word d.start).toInt + refs.count d.start) ∧
      S.Balanced raw (refs ++ own) memory' m.heap := by
  have hcounts : ∀ d ∈ m.heap.live, (memory'.word d.start).toInt
      = (m.memory.word d.start).toInt + refs.count d.start := by
    intro d hd
    obtain ⟨hstart, hstop⟩ := ha.start_lt hd (h.laidOut d hd).1
    rw [hkeeps.word hstart (by omega)]
    exact hcounted.toInt_word_start ha h.laidOut (fun x hx => (hcount x hx).2.2) hd
  exact ⟨hcounts, h.traded hcodes ha ((hcounted.spares ha h.laidOut).keeps hkeeps) hw
    (fun x hx => ⟨(hcount x hx).1, (hcount x hx).2.1⟩) hcounts⟩

/-! The code behind that of the record. -/

def readOutCode (o : Int32) (ty : Ty) (load : Instr) : Code :=
  [Instr.duplicate, .pushI o, .add] ++ ([load] ++ (countIfHeap ty ++ [Instr.exchange, push]))

theorem executable_load (hl : Instr.load? ty = some load) : Code.executable [load] = [load] := by
  cases ty with
  | void => cases hl
  | _ => cases hl; rfl

theorem operands_single (hl : Instr.load? ty = some load) (hvs : ty.Operands vs) : ∃ v, vs = [v] := by
  cases ty with
  | void => cases hl
  | _ =>
    obtain ⟨x, rfl⟩ := hvs
    exact ⟨_, rfl⟩

theorem operands_read (memory : Memory) (ty : Ty) (a : Nat) : ty.Operands (memory.operands ty a) := by
  cases ty with
  | void => rfl
  | _ => exact ⟨_, rfl⟩

theorem length_readOutCode (hl : Instr.load? ty = some load) :
    (readOutCode o ty load).executable.length = 4 + (countIfHeap ty).executable.length + 2 := by
  simp only [readOutCode, Code.executable_append, List.length_append, executable_load hl]
  rw [show (Code.executable [Instr.duplicate, .pushI o, .add]).length = 3 from rfl,
    show (Code.executable [Instr.exchange, push]).length = 2 from rfl, List.length_singleton]
  omega

def Site.TakenOut (S : Site counter structs image) (p : Nat) (stack : List Value) (memory : Memory)
    (heap : Heap) (refs work : List Nat) (v : View) : Prop :=
  ∃ memory₁ memory', v = ⟨p, stack, memory', heap⟩ ∧ Counted refs heap memory memory₁ ∧
    S.Keeps memory₁ memory' ∧ S.Holds work memory'

theorem Site.Balanced.takesOut (stack : List Value) (h : S.Balanced raw own memory heap)
    (ha : S.Addresses memory heap) (hb : b ∈ heap.live) (ho : 0 ≤ o.toInt)
    (hinside : o.toInt.toNat + ty.size.toNat ≤ b.size)
    (hread : memory.operands ty (b.start + o.toInt.toNat) = vs) (hl : Instr.load? ty = some load)
    (hq : Placed image q incrementCode) (hp : Placed image p (readOutCode o ty load))
    (hrefs : ∀ x ∈ ty.refs vs, x ∈ (S.graph memory heap).records) :
    S.Runs ((S.graph memory heap).pending.length + 1)
      ⟨p, .int (Int32.ofNat b.start) :: stack, memory, heap⟩
      (S.TakenOut (p + (readOutCode o ty load).executable.length) (vs ++ stack) memory heap (ty.refs vs)
        ((S.graph memory heap).pending ++ [b.start])) := by
  have hend : b.stop = b.start + b.size := rfl
  have hvs : ty.Operands vs := hread ▸ operands_read memory ty _
  have hplace : Code.act image heap memory [.duplicate, .pushI o, .add]
      (.int (Int32.ofNat b.start) :: stack) = some (.int (Int32.ofNat (b.start + o.toInt.toNat))
        :: .int (Int32.ofNat b.start) :: stack, memory) := by
    rw [← Word.ofNat_add_of_nonneg b.start ho]
    rfl
  obtain ⟨hloadAt, hrest⟩ := placed_instr (executable_load hl)
    (show Placed image (p + 3) ([load] ++ _) from hp.right)
  have hload : Goes image ⟨p + 3, .int (Int32.ofNat (b.start + o.toInt.toNat))
      :: .int (Int32.ofNat b.start) :: stack, memory, heap⟩
      ⟨p + 4, vs ++ .int (Int32.ofNat b.start) :: stack, memory, heap⟩ := by
    rw [← hread]
    exact ha.load hb hloadAt hl (Nat.le_add_right _ _) (by omega)
  have hloads := (hp.left.act 0 _ ⟨[], rfl⟩ hplace).trans hload
  obtain ⟨memory₁, hcounted, hcounts⟩ :=
    h.counts (.int (Int32.ofNat b.start) :: stack) ha hq hrest.left hvs hrefs
  -- the record comes to the top
  obtain ⟨v, rfl⟩ := operands_single hl hvs
  have hends := hrest.right
  have hgoes : Goes image ⟨p, .int (Int32.ofNat b.start) :: stack, memory, heap⟩
      ⟨p + 3 + 1 + (countIfHeap ty).executable.length + 1,
        .int (Int32.ofNat b.start) :: v :: stack, memory₁, heap⟩ :=
    (hloads.trans hcounts).trans (hends.act 0 [.exchange] ⟨_, rfl⟩ rfl)
  have hw : S.Holds (S.graph memory heap).pending memory₁ :=
    hcounted.holds ha h.laidOut (S.holds_scheduled h.room)
  have ha₁ := ha.of_size (hcounted.spares ha h.laidOut).size
  have hself : [(Int32.ofNat b.start).toUInt32.toNat].filter (· ≠ 0) = [b.start] :=
    @refs_ofNat (.interval .int) b rfl (ha.block_bounds hb)
  have hschedule := @Site.schedule _ _ _ S memory₁ heap _ (v :: stack) _ (hends.code 1 _ rfl)
    ha₁.toStores hw (Int32.ofNat b.start)
  rw [hself] at hschedule
  have hlong : ((S.graph memory heap).pending ++ [b.start]).length
      = (S.graph memory heap).pending.length + 1 := List.length_append
  refine .after hgoes ((hschedule.runs (Nat.le_of_eq hlong)).bind ?_)
  rintro _ ⟨memory', rfl, hkeeps, hholds'⟩
  refine .of_goes (.refl _ _) ⟨memory₁, memory', ?_, hcounted, hkeeps, hholds'⟩
  have hpc : p + (4 + (countIfHeap ty).executable.length + 2)
      = p + 3 + 1 + (countIfHeap ty).executable.length + 1 + 1 := by omega
  rw [length_readOutCode hl, hpc]
  rfl

/-- The record at `a` has been scheduled, and the references that were in the part have been
counted. -/
structure Site.Scheduled (S : Site counter structs image) (refs : List Nat) (a : Nat)
    (m m' : Machine) : Prop where
  heap : m'.heap = m.heap
  scheduled : (S.graph m'.memory m'.heap).pending = (S.graph m.memory m.heap).pending ++ [a]
  counts : ∀ b ∈ m.heap.live, (m'.memory.word b.start).toInt
    = (m.memory.word b.start).toInt + refs.count b.start

theorem Provides.takesOut {S : Site counter structs m₀.image} {c : Code} {object : Ty}
    (P : Provides m₀ S) (hm : Machine.Intact m₀ m)
    (h : S.Supplied raw own object c [.int (Int32.ofNat b.start)] m m') (hheap : object.isHeap = true)
    (hb : b ∈ m'.heap.live) (ho : 0 ≤ o.toInt) (hinside : o.toInt.toNat + ty.size.toNat ≤ b.size)
    (hread : m'.memory.operands ty (b.start + o.toInt.toNat) = vs) (hl : Instr.load? ty = some load)
    (hp : Placed m₀.image m'.pc (readOutCode o ty load)) (hcount : S.Countable raw (ty.refs vs) m') :
    ∃ m₁, Machine.Reaches m' m₁ ∧
      (S.Overflown ((S.graph m'.memory m'.heap).pending.length + 1) m₁.view ∨
        S.Scheduled (ty.refs vs) b.start m' m₁ ∧
        S.Supplied raw own ty (c ++ readOutCode o ty load) vs m m₁) := by
  have hm' := h.reaches.intact P.size hm
  have ha := P.addresses hm'
  obtain ⟨q, hq⟩ := P.increment
  have hbalanced := h.balanced
  rw [refs_ofNat hheap (ha.block_bounds hb)] at hbalanced
  obtain ⟨v, hgoes, hend⟩ := hbalanced.takesOut m.stack ha hb ho hinside hread hl hq hp
    fun x hx => (hcount x hx).1
  have hstack : m'.stack = .int (Int32.ofNat b.start) :: m.stack := h.stack
  rw [← hm'.image, ← hstack] at hgoes
  obtain ⟨steps, hreach⟩ := Machine.reaches_of_goes h.running hgoes
  refine ⟨_, hreach, hend.imp id ?_⟩
  rintro ⟨memory₁, memory₂, rfl, hcounted, hkeeps, hholds⟩
  have hsettled := @Site.Balanced.settled _ _ _ S memory₂ raw own _ m' [b.start] memory₁ hbalanced
    P.codes ha hcount hcounted hkeeps hholds
  refine ⟨⟨rfl, hbalanced.pending_of_holds ha hholds, hsettled.1⟩, ?_⟩
  exact {
    reaches := h.reaches.trans hreach
    running := rfl
    pc := by
      rw [Code.executable_append, List.length_append, ← Nat.add_assoc, ← h.pc]
      rfl
    stack := rfl
    operands := hread ▸ operands_read m'.memory ty _
    balanced := hsettled.2
    spared := h.spared.trans
      (hcounted.spared ha hbalanced.laidOut hkeeps rfl fun x hx => (hcount x hx).2.1) }

/-- The record at `a`, which nothing else refers to, has been scheduled once. -/
structure Site.ReadOut (S : Site counter structs image) (refs : List Nat) (a : Nat) (m m' : Machine) :
    Prop extends S.Scheduled refs a m m' where
  once : a ∉ (S.graph m.memory m.heap).pending
  other : a ∉ refs

theorem Provides.readsOut {S : Site counter structs m₀.image} {c : Code} (P : Provides m₀ S)
    (hm : Machine.Intact m₀ m) (h : S.Made b raw own sub c bounds m m') (which : Bound)
    (hl : Instr.load? sub = some load)
    (hp : Placed m₀.image m'.pc (readOutCode (Layout.boundOffset sub which) sub load))
    (hfew : ∀ x ∈ sub.refs (bounds which), (m'.memory.word x).toInt < 0x7fffffff) :
    ∃ m₁, Machine.Reaches m' m₁ ∧
      (S.Overflown ((S.graph m'.memory m'.heap).pending.length + 1) m₁.view ∨
        S.ReadOut (sub.refs (bounds which)) b.start m' m₁ ∧
        S.Supplied raw own sub (c ++ readOutCode (Layout.boundOffset sub which) sub load)
          (sub.stored (bounds which)) m m₁) := by
  have ha := P.addresses (h.supplied.reaches.intact P.size hm)
  have hbalanced := h.supplied.balanced
  rw [refs_ofNat rfl (ha.block_bounds h.live)] at hbalanced
  have hone : (S.graph m'.memory m'.heap).count b.start = 1 := by
    rw [Site.graph_count, h.count]
    rfl
  obtain ⟨honce, halone⟩ := hbalanced.accounts.alone List.mem_cons_self hone
  obtain ⟨hrec, hraw⟩ := hbalanced.accounts.held b.start List.mem_cons_self
  have hinner : sub.refs (bounds which) ⊆ (S.graph m'.memory m'.heap).refs b.start := by
    rw [refs_of_holdsInterval h.holds h.operands]
    cases which with
    | low => exact List.subset_append_left _ _
    | high => exact List.subset_append_right _ _
  have hcount : S.Countable raw (sub.refs (sub.stored (bounds which))) m' := by
    rw [Ty.refs_stored]
    intro x hx
    obtain ⟨hlive, hcomplete⟩ := hbalanced.accounts.refs b.start hrec hraw x (hinner hx)
    exact ⟨hlive, hcomplete, hfew x hx⟩
  obtain ⟨m₁, hreach, hend⟩ := P.takesOut hm h.supplied rfl h.live
    (Layout.boundOffset_nonneg sub which) (h.holds.inside which).2 (h.holds.bounds which) hl hp hcount
  rw [Ty.refs_stored] at hend
  exact ⟨m₁, hreach, hend.imp id fun ⟨hscheduled, hsupplied⟩ =>
    ⟨{ hscheduled with once := honce, other := fun hmem => halone b.start hrec hraw (hinner hmem) },
      hsupplied⟩⟩

end IntervalStack.Drain
