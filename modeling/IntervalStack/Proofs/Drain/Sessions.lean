import IntervalStack.Proofs.Drain.Storage

/-! Programs that call the routines of the reference counter again and again. Between the calls they
may do what they like, if they leave the storage of the worklist and the texts of the overflow
message alone. -/

namespace IntervalStack.Drain
open RefCounter

inductive Routine
  | increment
  | push
  | drain

def Routine.name : Routine → String
  | increment => incrementRoutine
  | push => pushRoutine
  | drain => drainRoutine

def Routine.arity : Routine → Nat
  | increment | push => 1
  | drain => 0

structure Calls (r : Routine) (m : Machine) : Prop where
  running : m.halted = false
  call : m.image.code[m.pc]? = some (.call r.name)

/-- The routine that is called at `m` has returned, or has gone to the general handler of errors. -/
def Over (r : Routine) (m : Machine) (v : View) : Prop :=
  v.pc = m.pc + 1 ∧ v.stack = m.stack.drop r.arity ∨
    m.image.label? Environment.generalError = some v.pc

instance (r : Routine) (m : Machine) (v : View) : Decidable (Over r m v) := instDecidableOr

/-- The states that a call goes through, as long as the routines are given records. -/
inductive During (r : Routine) (m : Machine) : Machine → Prop
  | start : During r m m
  | step {m' m'' : Machine} {limit : Nat} (h : During r m m') (hgoing : ¬ Over r m m'.view)
      (hproper : Proper m.image m'.view) (hstep : (Machine.step limit).run m' = .ok () m'') :
      During r m m''

structure Texts (m : Machine) : Prop where
  format : m.Shows Environment.errorFormat "Runtime error: %s\n"
  message : m.Shows overflowMessage overflowText

/-- The states of a program between calls of the routines, from one with an empty worklist on. -/
inductive Session (counter : RefCounter) (worklist index : Nat) (m₀ : Machine) : Machine → Prop
  | entry {m : Machine} (hm : Machine.Intact m₀ m) (htexts : Texts m)
      (hempty : m.memory.word index = 0) : Session counter worklist index m₀ m
  | other {m m' : Machine} (h : Session counter worklist index m₀ m) (hm : Machine.Intact m₀ m')
      (htexts : Texts m')
      (hcells : ∀ a, worklist ≤ a ∧ a < worklist + 4 * counter.capacity.toNat ∨
        index ≤ a ∧ a < index + 4 → m'.memory.get a = m.memory.get a) :
      Session counter worklist index m₀ m'
  | call {r : Routine} {m m' : Machine} (h : Session counter worklist index m₀ m) (hcall : Calls r m)
      (hduring : During r m m') (hover : Over r m m'.view) : Session counter worklist index m₀ m'

def InRange (counter : RefCounter) (index : Nat) (memory : Memory) : Prop :=
  0 ≤ (memory.word index).toInt ∧ (memory.word index).toInt ≤ counter.capacity.toNat

instance (counter : RefCounter) (index : Nat) (memory : Memory) :
    Decidable (InRange counter index memory) := instDecidableAnd

structure Schedules (counter : RefCounter) (worklist index : Nat) (x : Int32) (rest : List Value)
    (m : Machine) : Prop where
  null : x = 0 → ∃ steps, Machine.Reaches m { m with pc := m.pc + 1, stack := rest, steps }
  store : x ≠ 0 → ∀ k < counter.capacity.toNat, m.memory.word index = Int32.ofNat k →
    ∃ steps, Machine.Reaches m { m with
      pc := m.pc + 1, stack := rest, steps
      memory := (m.memory.setWord (worklist + 4 * k) x).setWord index (Int32.ofNat (k + 1)) }
  full : x ≠ 0 → m.memory.word index = Int32.ofNat counter.capacity.toNat →
    ∃ m', Machine.Reports m m' "reference-count decrement worklist overflow"

variable {counter : RefCounter} {structs : StructTable} {c : Code} {settings : MachineSettings}
  {m₀ m m' : Machine} {r : Routine}

theorem Site.Sane.inRange {S : Site counter structs m₀.image} {memory₀ memory : Memory} {heap : Heap}
    (h : S.Sane memory₀ memory heap) : InRange counter S.index memory := by
  obtain ⟨k, hk, hindex, -⟩ := h.work
  have hcap := capacity_lt counter
  rw [InRange, hindex, Word.toInt_ofNat (by omega)]
  omega

theorem Site.handles (S : Site counter structs m₀.image) (hl : Machine.Loaded c settings m₀)
    (hc : Serves counter structs c) : S.Handles := by
  obtain ⟨pre, post, hmessage⟩ := hc.message
  obtain ⟨pre', post', herrors⟩ := hc.errors
  have hlabel := hl.dataLabel pre overflowMessage (.dataS overflowText :: post)
    (by rw [← hmessage]; simp [Environment.dataString])
  have hgeneral : Placed m₀.image _ Environment.errorHandlers := hl.placed herrors.symm
  exact ⟨S.overflow_placed hl hc.routines, Option.isSome_iff_exists.2 ⟨_, hlabel⟩,
    Option.isSome_iff_exists.2 ⟨_, hgeneral.head⟩⟩

def Lost (r : Routine) (m : Machine) (v : View) : Prop := Over r m v ∨ ¬ Proper m.image v

theorem Site.call_safe {S : Site counter structs m₀.image} (hl : Machine.Loaded c settings m₀)
    (hc : Serves counter structs c) (himage : m.image = m₀.image)
    (h : S.Sane m.memory m.memory m.heap) (hcall : Calls r m) (n : Nat) :
    Safe m₀.image (S.Sane m.memory) (Lost r m) n m.view := by
  have hhandles := S.handles hl hc
  have hi := hcall.call
  rw [himage] at hi
  have hq : Bounds m₀.image (Lost r m) :=
    ⟨fun v hv => .inl (.inr (himage ▸ hv)), fun v hv => .inr (himage ▸ hv)⟩
  have hlt : m.pc + 1 < 0x80000000 :=
    Nat.lt_of_le_of_lt (Array.getElem?_eq_some_iff.1 hi).1 S.short
  obtain ⟨pre, post, hsplit⟩ := hc.routines
  have hincrement : Placed m₀.image _ incrementCode := (hl.placed hsplit.symm).left.left.left
  -- A routine that takes a record is followed only if it is given one.
  have hgiven {p : Nat} (hroutine : m₀.image.label? r.name = some p)
      (hname : r.name ∈ [incrementRoutine, pushRoutine]) (harity : r.arity = 1)
      (hsafe : ∀ x rest, m.stack = .int x :: rest → Refers m.heap x →
        (∀ memory', S.Sane m.memory memory' m.heap → Safe m₀.image (S.Sane m.memory)
          (Lost r m) n ⟨m.pc + 1, rest, memory', m.heap⟩) →
        Safe m₀.image (S.Sane m.memory) (Lost r m) n
          ⟨p, .int (Int32.ofNat (m.pc + 1)) :: .int x :: rest, m.memory, m.heap⟩) :
      Safe m₀.image (S.Sane m.memory) (Lost r m) n
        ⟨p, .int (Int32.ofNat (m.pc + 1)) :: m.stack, m.memory, m.heap⟩ := by
    by_cases hproper : Proper m₀.image
        ⟨p, .int (Int32.ofNat (m.pc + 1)) :: m.stack, m.memory, m.heap⟩
    · have hgiven := hproper r.name hname hroutine
      obtain ⟨x, rest, hstack, hx⟩ := hgiven.exists_int
      rw [hstack]
      refine hsafe x rest hstack hx fun memory' h' => .stop h' (.inl (.inl ⟨rfl, ?_⟩))
      rw [hstack, harity]
      rfl
    · exact .stop h (hq.proper _ hproper)
  cases r with
  | increment =>
    refine .step h (.call hi (by decide) hincrement.head) ?_
    exact hgiven hincrement.head (by decide) rfl fun x rest _ hx hnext =>
      increment_safe hincrement h hlt hx hnext
  | push =>
    have hroutine : m₀.image.label? pushRoutine = some S.pushAt :=
      S.hpush.label [] _ (counter.pushCode.drop 1) rfl
    refine .step h (.call hi (by decide) hroutine) ?_
    exact hgiven hroutine (by decide) rfl fun x rest _ hx hnext =>
      S.push_safe hhandles hq h hlt hx hnext
  | drain =>
    have hroutine : m₀.image.label? drainRoutine = some S.drainAt :=
      S.hdrain.label [] _ ((drainCode structs).drop 1) rfl
    refine .step h (.call hi (by decide) hroutine) ?_
    exact S.drain_safe hhandles hq hlt (fun _ _ => .inl (.inl ⟨rfl, rfl⟩)) h

theorem During.safe {S : Site counter structs m₀.image} (hsize : m₀.memory.size < UInt32.size)
    (hm : Machine.Intact m₀ m) (hrunning : m.halted = false)
    (hsafe : ∀ n, Safe m₀.image (S.Sane m.memory) (Lost r m) n m.view)
    (h : During r m m') : Machine.Intact m₀ m' ∧ m'.halted = false ∧
      ∀ n, Safe m₀.image (S.Sane m.memory) (Lost r m) n m'.view := by
  induction h with
  | start => exact ⟨hm, hrunning, hsafe⟩
  | @step m₁ m₂ limit _ hgoing hproper hstep ih =>
    obtain ⟨hm₁, hrunning₁, hsafe₁⟩ := ih
    have hintact := hm₁.stepped hsize limit
    rw [Machine.stepped, show Machine.step limit m₁ = _ from hstep] at hintact
    have hnext := Safe.stepped m₁.output m₁.steps limit hsafe₁ (by simp [Lost, hgoing, hproper])
    rw [hm₁.machine_view hrunning₁, hstep] at hnext
    rcases hnext with ⟨v, hv, hsafe⟩ | ⟨e, m', he, -⟩
    · cases hv
      exact ⟨hintact, rfl, hsafe⟩
    · cases he

theorem Session.sane {S : Site counter structs m₀.image} (hl : Machine.Loaded c settings m₀)
    (hc : Serves counter structs c) (hbelow : S.index + 4 ≤ m₀.heap.base)
    (hlow : m₀.heap.base ≤ 0x80000000)
    (h : Session counter S.worklist S.index m₀ m) :
    Machine.Intact m₀ m ∧ Texts m ∧ S.Sane m.memory m.memory m.heap := by
  have hsize : m₀.memory.size < UInt32.size := by
    rw [hl.size]
    exact settings.memorySize.toNat_lt
  have hlive {m : Machine} (hm : Machine.Intact m₀ m) : ∀ b ∈ m.heap.live, m.heap.base ≤ b.start :=
    fun b hb => (hm.heap.sound.tidy.inside b hb).1
  have hbase {m : Machine} (hm : Machine.Intact m₀ m) : m.heap.base ≤ 0x80000000 := by
    rw [hm.heap.base_eq]
    exact hlow
  induction h with
  | entry hm htexts hempty =>
    refine ⟨hm, htexts, S.stores_of_intact hl hm hbelow (by omega), rfl, hbase hm, hlive hm,
      ⟨0, Nat.zero_le _, hempty, fun j hj => absurd hj (Nat.not_lt_zero j)⟩, fun _ _ _ => rfl⟩
  | @other m m' _ hm htexts hcells ih =>
    obtain ⟨k, hroom, hindex, hwork⟩ := ih.2.2.work
    have hword : m'.memory.word S.index = m.memory.word S.index :=
      Memory.word_congr fun i hi => hcells _ (.inr (by omega))
    refine ⟨hm, htexts, S.stores_of_intact hl hm hbelow (by omega), rfl, hbase hm, hlive hm,
      ⟨k, hroom, hword.trans hindex, fun j hj => ?_⟩, fun _ _ _ => rfl⟩
    have hentry : m'.memory.word (S.worklist + 4 * j) = m.memory.word (S.worklist + 4 * j) :=
      Memory.word_congr fun i hi => hcells _ (.inl (by omega))
    rw [hentry, hm.heap.base_eq, ← ih.1.heap.base_eq]
    exact hwork j hj
  | @call r m m' _ hcall hduring _ ih =>
    obtain ⟨hm, htexts, hsane⟩ := ih
    obtain ⟨hm', -, hsafe⟩ := hduring.safe hsize hm hcall.running
      (S.call_safe hl hc hm.image hsane hcall)
    have hkept := (hsafe 0).holds
    have hget : ∀ a < m₀.heap.base, ¬ S.Owns a → m'.memory.get a = m.memory.get a :=
      fun a ha hout => hkept.below a (hm'.heap.base_eq ▸ ha) hout
    refine ⟨hm', ⟨?_, ?_⟩, hkept.stores, rfl, hkept.low, hkept.live, hkept.work, fun _ _ _ => rfl⟩
    · exact S.shows_of_keeps hl hc.data hc.format hm.image hm'.image hkept.size hget htexts.format
    · exact S.shows_of_keeps hl hc.data hc.message hm.image hm'.image hkept.size hget htexts.message

theorem Site.schedules (S : Site counter structs m₀.image) (hl : Machine.Loaded c settings m₀)
    (hc : Serves counter structs c) (hm : Machine.Intact m₀ m) (htexts : Texts m)
    (hstores : S.Stores m.memory m.heap) (hcall : Calls .push m) {x : Int32} {rest : List Value}
    (hstack : m.stack = .int x :: rest) : Schedules counter S.worklist S.index x rest m := by
  have hi := hcall.call
  have hrunning := hcall.running
  rw [hm.image] at hi
  have hlt : m.pc + 1 < 0x80000000 :=
    Nat.lt_of_le_of_lt (Array.getElem?_eq_some_iff.1 hi).1 S.short
  have hroutine : m₀.image.label? pushRoutine = some S.pushAt :=
    S.hpush.label [] _ (counter.pushCode.drop 1) rfl
  have henter : Goes m₀.image m.view
      ⟨S.pushAt, .int (Int32.ofNat (m.pc + 1)) :: .int x :: rest, m.memory, m.heap⟩ := by
    rw [← hstack]
    exact .one (.call hi (by decide) hroutine)
  have hreaches {v : View} (hgo : Goes m₀.image
      ⟨S.pushAt, .int (Int32.ofNat (m.pc + 1)) :: .int x :: rest, m.memory, m.heap⟩ v) :
      ∃ steps, Machine.Reaches m (v.machine m.image m.output steps) :=
    Machine.reaches_of_goes hrunning (hm.image ▸ henter.trans hgo)
  refine ⟨?_, fun hx k hroom hk => ?_, fun hx hfull => ?_⟩
  · rintro rfl
    rw [hrunning]
    exact hreaches (S.push_null hlt)
  · rw [hrunning]
    exact hreaches (S.push_store hstores hk hroom hx hlt)
  · rw [ofNat_capacity] at hfull
    obtain ⟨steps, hreaches⟩ := hreaches (S.push_full hstores hfull hx)
    have hsize : m.memory.size ≤ UInt32.size := by
      rw [hm.size, hl.size]
      exact Nat.le_of_lt settings.memorySize.toNat_lt
    obtain ⟨m', hreport⟩ := S.overflow_reports (m := View.machine
      ⟨S.overflowAt, .int x :: .int (Int32.ofNat (m.pc + 1)) :: rest, m.memory, m.heap⟩ m.image
      m.output steps) hl hc.routines hc.errors hm.image rfl rfl hsize htexts.format htexts.message
    exact ⟨m', hreport.after hreaches rfl rfl rfl⟩

/-- The worklist never leaves its storage: behind every instruction of the routines the index is in
range, and scheduling stores a record in the next free entry or reports that there is none. -/
theorem worklist_stays_in_storage {worklist index : Nat} (hload : Machine.load c settings = .ok m₀)
    (hc : Serves counter structs c) (hend : Code.dataSize c < 0x80000000)
    (hshort : m₀.image.code.size < 0x80000000)
    (hworklist : m₀.image.dataLabel? RefCounter.worklist = some worklist)
    (hindex : m₀.image.dataLabel? worklistIndex = some index)
    (hs : Session counter worklist index m₀ m) (hcall : Calls r m) :
    (∀ m', During r m m' → InRange counter index m'.memory ∧
      (¬ Over r m m'.view → Proper m.image m'.view →
        ∀ limit, InRange counter index (m'.stepped limit).memory)) ∧
    (r = .push → ∀ x rest, m.stack = .int x :: rest → Schedules counter worklist index x rest m) := by
  have hl := Machine.load_loaded hload
  obtain ⟨S, hbelow⟩ := exists_site hl hc.data hc.routines hc.host hshort
  obtain rfl : S.worklist = worklist := Option.some.inj (S.hworklist.symm.trans hworklist)
  obtain rfl : S.index = index := Option.some.inj (S.hindex.symm.trans hindex)
  have hlow : m₀.heap.base ≤ 0x80000000 := by
    rw [hl.heap]
    show (Code.dataSize c + 7) / 8 * 8 ≤ _
    omega
  have hsize : m₀.memory.size < UInt32.size := by
    rw [hl.size]
    exact settings.memorySize.toNat_lt
  obtain ⟨hm, htexts, hsane⟩ := hs.sane hl hc hbelow hlow
  have hsafe := S.call_safe hl hc hm.image hsane hcall
  refine ⟨fun m' hduring => ?_, ?_⟩
  · obtain ⟨hm', hrunning, hsafe'⟩ := hduring.safe hsize hm hcall.running hsafe
    refine ⟨(hsafe' 0).holds.inRange, fun hgoing hproper limit => ?_⟩
    have hnext := Safe.stepped m'.output m'.steps limit hsafe' (by simp [Lost, hgoing, hproper])
    rw [hm'.machine_view hrunning] at hnext
    unfold Machine.stepped
    rcases hnext with ⟨v, hv, hsafe⟩ | ⟨e, m'', he, hmemory⟩
    · rw [show Machine.step limit m' = _ from hv]
      exact (hsafe 0).holds.inRange
    · rw [show Machine.step limit m' = _ from he]
      exact hmemory ▸ (hsafe' 0).holds.inRange
  · rintro rfl x rest hstack
    exact S.schedules hl hc hm htexts hsane.stores hcall hstack

def follow (r : Routine) (m : Machine) (limit : Nat) : Nat → Machine → Option Machine
  | 0, m' => some m'
  | n + 1, m' =>
    if ¬ Over r m m'.view ∧ Proper m.image m'.view then
      match Machine.step limit m' with
      | .ok _ m'' => follow r m limit n m''
      | .error .. => none
    else none

theorem During.follow {limit n : Nat} {m₁ : Machine} (h : During r m m₁)
    (hf : Drain.follow r m limit n m₁ = some m') : During r m m' := by
  induction n generalizing m₁ with
  | zero =>
    cases hf
    exact h
  | succ n ih =>
    rw [Drain.follow] at hf
    split at hf
    · next hgoing =>
      split at hf
      · next hstep => exact ih (.step h hgoing.1 hgoing.2 hstep) hf
      · cases hf
    · cases hf

def oneCounter : RefCounter := ⟨1, by decide, by decide⟩

def twiceListing (before : Code) : Code :=
  oneCounter.data ++ (Environment.dataString Environment.errorFormat "Runtime error: %s\n"
    ++ (before ++ [.pushI 8, .call Environment.allocateEntry, .duplicate, push, push, .halt]
      ++ (Environment.errorHandlers ++ oneCounter.subroutines ⟨[]⟩)))

/-- The first call finds room for the record, the second one does not. -/
theorem worklist_stays_in_storage_twice :
    ∃ m₀ m m', Machine.load (twiceListing []) ⟨1024, 64, 1000⟩ = .ok m₀ ∧ Session oneCounter 0 4 m₀ m ∧
      Calls .push m ∧ m.stack = [.int 72] ∧
      Machine.Reports m m' "reference-count decrement worklist overflow" := by
  have htest : (Machine.load (twiceListing []) ⟨1024, 64, 1000⟩).toOption.any (fun m₀ =>
      decide (m₀.image.code.size < 0x80000000) &&
      let m₁ := Machine.after 1000 3 m₀
      decide (m₁.halted = false ∧ m₁.image.code[m₁.pc]? = some push ∧ m₁.memory.word 4 = 0 ∧
        m₁.memory.read 52 19 = (Instr.dataS "Runtime error: %s\n").bytes ∧
        m₁.memory.read 8 44 = (Instr.dataS overflowText).bytes) &&
      (follow .push m₁ 1000 24 m₁).any fun m =>
        decide (m.halted = false ∧ m.image.code[m.pc]? = some push ∧ m.stack = [.int 72] ∧
          m.memory.word 4 = 1 ∧ Over .push m₁ m.view)) = true := by decide +kernel
  obtain ⟨m₀, hload, hok⟩ := exists_ok_of_any htest
  have hl := Machine.load_loaded hload
  have hc : Serves oneCounter ⟨[]⟩ (twiceListing []) := {
    data := (List.prefix_append _ _).isInfix
    format := List.infix_append' _ _ _
    errors := ⟨(twiceListing []).take 14, oneCounter.subroutines ⟨[]⟩, rfl⟩
    routines := ⟨(twiceListing []).take 21, [], rfl⟩
    host := by decide +kernel }
  simp only [Bool.and_eq_true, decide_eq_true_eq] at hok
  obtain ⟨hshort, ⟨hrunning₁, hcall₁, hempty, hformat, hmessage⟩, hfollow⟩ := hok
  have hintact : Machine.Intact m₀ (Machine.after 1000 3 m₀) :=
    Machine.after_intact (by rw [hl.size]; decide) (hl.intact (Machine.load_fresh hload).2) _ _
  generalize Machine.after 1000 3 m₀ = m₁ at hrunning₁ hcall₁ hempty hformat hmessage hfollow hintact
  obtain ⟨m, hf, hm⟩ := (Option.any_eq_true _ _).1 hfollow
  obtain ⟨hrunning, hcall, hstack, hfull, hover⟩ := of_decide_eq_true hm
  have hplace : m₀.image.dataLabel? Environment.errorFormat = some 52 := by
    have hat := hl.dataLabel ((twiceListing []).take 6) Environment.errorFormat ((twiceListing []).drop 7) rfl
    rwa [show Code.dataSize ((twiceListing []).take 6) = 52 by decide +kernel] at hat
  have hplace' : m₀.image.dataLabel? overflowMessage = some 8 :=
    hl.dataLabel ((twiceListing []).take 4) _ ((twiceListing []).drop 5) rfl
  have htexts : Texts m₁ := by
    refine ⟨⟨52, hintact.image ▸ hplace, ?_, hformat⟩, ⟨8, hintact.image ▸ hplace', ?_, hmessage⟩⟩
    all_goals
      rw [hintact.size, hl.size]
      decide +kernel
  have hfirst : Calls .push m₁ := ⟨hrunning₁, hcall₁⟩
  have hsecond : Calls .push m := ⟨hrunning, hcall⟩
  have hsession : Session oneCounter 0 4 m₀ m :=
    .call (.entry hintact htexts hempty) hfirst (During.start.follow hf) hover
  have hworklist : m₀.image.dataLabel? worklist = some 0 := hl.dataLabel [] _ _ rfl
  have hindex : m₀.image.dataLabel? worklistIndex = some 4 :=
    hl.dataLabel ((twiceListing []).take 2) _ ((twiceListing []).drop 3) rfl
  have hschedules := (worklist_stays_in_storage hload hc (by decide +kernel) hshort hworklist hindex
    hsession hsecond).2 rfl 72 [] hstack
  obtain ⟨m', hreports⟩ := hschedules.full (by decide) hfull
  exact ⟨m₀, m, m', hload, hsession, hsecond, hstack, hreports⟩

/-- A record with the place of the index as its lower bound is scheduled, and the decrements are carried
out. -/
def strayListing : Code :=
  smallCounter.data ++ ([.pushI 20, .call Environment.allocateEntry,
      .duplicate, .pushI 1, .storeI,
      .duplicate, .pushI Layout.typeCodeOffset, .add, .pushI Layout.nestedIntervalCode, .storeI,
      .duplicate, .pushI Layout.payloadOffset, .add, .pushD worklistIndex, .storeI,
      push, drain, .halt]
    ++ (Environment.dataString Environment.errorFormat "Runtime error: %s\n"
      ++ (Environment.errorHandlers ++ smallCounter.subroutines ⟨[]⟩)))

/-- Code that calls the routines with records only can still do harm: by what it leaves in the records,
and by what it does to the texts. -/
theorem careless_code_harms_worklist :
    (∃ m₀ m m', Machine.load strayListing ⟨1024, 64, 1000⟩ = .ok m₀ ∧
      m = Machine.after 1000 15 m₀ ∧ Calls .push m ∧ m.stack = [.int 88] ∧ Refers m.heap 88 ∧
      m' = Machine.after 1000 24 m ∧ Calls .drain m' ∧
      ¬ InRange smallCounter 16 (Machine.after 1000 98 m').memory) ∧
    ∃ m₀ m, Machine.load (twiceListing [.pushD overflowMessage, .pushI 82, .storeC]) ⟨1024, 64, 1000⟩
        = .ok m₀ ∧ (Machine.run 1000).run m₀ = .ok () m ∧
      m.output = "Runtime error: Reference-count decrement worklist overflow\n" := by
  constructor
  · have htest : (Machine.load strayListing ⟨1024, 64, 1000⟩).toOption.any (fun m₀ =>
        let m := Machine.after 1000 15 m₀
        let m' := Machine.after 1000 24 m
        decide (m.halted = false ∧ m.image.code[m.pc]? = some push ∧ m.stack = [.int 88] ∧
          Refers m.heap 88 ∧ m'.halted = false ∧ m'.image.code[m'.pc]? = some drain ∧
          ¬ InRange smallCounter 16 (Machine.after 1000 98 m').memory)) = true := by decide +kernel
    obtain ⟨m₀, hload, hok⟩ := exists_ok_of_any htest
    obtain ⟨hrunning, hcall, hstack, hx, hrunning', hcall', hrange⟩ := of_decide_eq_true hok
    exact ⟨m₀, _, _, hload, rfl, ⟨hrunning, hcall⟩, hstack, hx, rfl, ⟨hrunning', hcall'⟩, hrange⟩
  · have htest : (Machine.load (twiceListing [.pushD overflowMessage, .pushI 82, .storeC])
        ⟨1024, 64, 1000⟩).toOption.any (fun m₀ => (Machine.completed? ((Machine.run 1000).run m₀)).any
          (·.output == "Runtime error: Reference-count decrement worklist overflow\n")) = true := by
      decide +kernel
    obtain ⟨m₀, hload, hruns⟩ := exists_ok_of_any htest
    obtain ⟨m, hrun, houtput⟩ := Machine.exists_ok_of_completed hruns
    exact ⟨m₀, m, hload, hrun, beq_iff_eq.1 houtput⟩

end IntervalStack.Drain
