import IntervalStack.Proofs.Releases.Program
import Mathlib.Data.List.Chain

/-! References on the ways through a listing. What is let go of between two positions is what was
owed at the first one or has been taken charge of since, less what is still owed at the second one;
at labels, and where scopes start and end, the open scopes tell what is owed. -/

namespace IntervalStack

def Extent.LeftOn (w : Extent) (path : List Nat) : Prop :=
  ∃ i j, [i, j] <:+: path ∧ w.Covers i ∧ ¬ w.Covers j

namespace Annotated

def released? (a : Annotated) (i : Nat) : Option Debt := a.notes[i]?.bind (·.releases)

def releases (a : Annotated) (path : List Nat) (d : Debt) : Nat :=
  (path.filterMap a.released?).count d

structure Way (a : Annotated) (path : List Nat) : Prop where
  chain : path.IsChain a.code.Edge
  divides : ∀ i ∈ path, a.code[i]? ≠ some (.label Environment.divideByZero)

/-- The way enters a scope, stays in its code, and leaves it for `k`. -/
structure Leaves (a : Annotated) (w : Extent) (path : List Nat) (k : Nat) : Prop where
  way : a.Way (path ++ [k])
  enters : path.head? = some w.start
  inside : ∀ i ∈ path, w.Covers i
  leaves : ¬ w.Covers k

structure Returns (a : Annotated) (r : Extent) (path : List Nat) (k : Nat) : Prop where
  way : a.Way (path ++ [k])
  enters : (path ++ [k]).head? = some r.start
  inside : ∀ i ∈ path ++ [k], r.Covers i
  ret : a.code[k]? = some .ret

structure ReleasesOnce (a : Annotated) : Prop where
  own : ∀ w ∈ a.blocks, ∀ path k, a.Leaves w path k → ∀ d ∈ w.debts, a.releases path d = 1
  /-- A way through a block keeps the references of the scopes that it does not leave. -/
  others : ∀ w ∈ a.blocks, ∀ path k, a.Leaves w path k →
    ∀ v ∈ a.blocks ++ a.routines, ¬ v.LeftOn (path ++ [k]) → ∀ d ∈ v.debts, a.releases path d = 0
  params : ∀ r ∈ a.routines, ∀ path k, a.Returns r path k → ∀ d ∈ r.debts, a.releases path d = 1

end Annotated

namespace Holder

theorem debts_eq (w : Holder) : w.debts = (List.range w.refs.length).map (Debt.mk w.start) := by
  rw [debts, owed, List.map_map, List.range_eq_range', ← List.zipIdx_map_snd 0 w.refs, List.map_map]
  rfl

theorem nodup_debts (w : Holder) : w.debts.Nodup := by
  rw [debts_eq]
  exact List.pairwise_map.2 (List.nodup_range.imp fun hne heq => hne (congrArg Debt.index heq))

theorem mem_debts {w : Holder} {d : Debt} (h : d ∈ w.debts) : d.scope = w.start ∧ w.refs ≠ [] := by
  rw [debts_eq] at h
  obtain ⟨i, hi, rfl⟩ := List.mem_map.1 h
  refine ⟨rfl, fun hr => ?_⟩
  rw [hr] at hi
  simp at hi

end Holder

namespace Extent

theorem Nests.disjoint {u v : Extent} (h : Nests u v) (hu : u.refs ≠ [] → u.start < u.stop)
    {d : Debt} (hd : d ∈ u.debts) : d ∉ v.debts := by
  intro hv
  obtain ⟨hdu, hru⟩ := Holder.mem_debts hd
  obtain ⟨hdv, hrv⟩ := Holder.mem_debts hv
  have hlt := hu hru
  rcases h with h | ⟨-, -, h⟩
  · omega
  · have := h hrv
    omega

theorem count_owedAt {es : List Extent} (hn : es.Pairwise Nests)
    (he : ∀ w ∈ es, w.refs ≠ [] → w.start < w.stop) {w : Extent} (hw : w ∈ es) {d : Debt}
    (hd : d ∈ w.debts) (j : Nat) :
    (owedAt es j).count d = if w.start < j ∧ j < w.stop then 1 else 0 := by
  induction es with
  | nil => cases hw
  | cons u es ih =>
    obtain ⟨hu, hn⟩ := List.pairwise_cons.1 hn
    have hfirst : u.refs ≠ [] → u.start < u.stop := he u List.mem_cons_self
    rw [show u :: es = [u] ++ es from rfl, owedAt_append, List.count_append]
    rcases List.mem_cons.1 hw with rfl | hmem
    · have hrest : (owedAt es j).count d = 0 := by
        refine List.count_eq_zero.2 fun hmem => ?_
        obtain ⟨v, hv, hdv⟩ := List.mem_flatMap.1 hmem
        exact (hu v (List.mem_filter.1 hv).1).disjoint hfirst hd hdv
      rw [hrest, Nat.add_zero]
      split
      · next hj =>
        rw [owedAt_singleton fun _ => hj]
        rw [w.nodup_debts.count, if_pos hd]
      · next hj => rw [owedAt_eq_nil fun v hv => by rw [List.mem_singleton.1 hv]; omega, List.count_nil]
    · have hnone : (owedAt [u] j).count d = 0 := by
        refine List.count_eq_zero.2 fun hopen => ?_
        obtain ⟨v, hv, hdv⟩ := List.mem_flatMap.1 hopen
        obtain rfl := List.mem_singleton.1 (List.mem_filter.1 hv).1
        exact (hu w hmem).disjoint hfirst hdv hd
      rw [hnone, Nat.zero_add]
      exact ih hn (fun w hw => he w (List.mem_cons_of_mem _ hw)) hmem

end Extent

namespace Annotated
open Noted (Fits Laid Runs Solves)

variable {a : Annotated} {Γ : String → List Debt} {A : Nat → List Debt} {es : List Extent}
  {path : List Nat} {i j k : Nat} {d : Debt}

def opened (a : Annotated) (i : Nat) : List Debt := (a.notes[i]?.map (·.opens)).getD []

theorem getElem?_code (i : Nat) : a.code[i]? = a.notes[i]?.map (·.instr) := List.getElem?_map

theorem count_step (hA : Solves Γ A 0 a.notes) (he : a.code.Edge i j)
    (hj : a.code[j]? ≠ some (.label Environment.divideByZero)) (d : Debt) :
    (A i).count d + (a.opened i).count d = (A j).count d + a.releases [i] d := by
  obtain ⟨n, hn, hmove⟩ : ∃ n, a.notes[i]? = some n ∧ n.Moves (A i) (A j) := by
    cases he with
    | fall h hf =>
      rw [getElem?_code, Option.map_eq_some_iff] at h
      obtain ⟨n, hn, rfl⟩ := h
      have hat := hA i n hn
      rw [Nat.zero_add] at hat
      exact ⟨n, hn, hat.fall hf⟩
    | @jump _ _ l h ht hl =>
      have hne : l ≠ Environment.divideByZero := by
        rintro rfl
        exact hj hl
      rw [getElem?_code, Option.map_eq_some_iff] at h hl
      obtain ⟨n, hn, rfl⟩ := h
      obtain ⟨n', hn', hl⟩ := hl
      have hat := hA i n hn
      have hlabel := (hA j n' hn').label l hl
      rw [Nat.zero_add] at hat hlabel
      exact ⟨n, hn, hlabel ▸ (hat.jump l ht).resolve_left hne⟩
  have hreleased : a.released? i = n.releases := by rw [released?, hn, Option.bind_some]
  have hopened : a.opened i = n.opens := by rw [opened, hn, Option.map_some, Option.getD_some]
  rw [hopened]
  unfold Noted.Moves at hmove
  split at hmove
  · next d' hd' =>
    have hone : a.releases [i] d = [d'].count d := by simp [releases, hreleased, hd']
    rw [hone, hmove.1, hmove.2, List.count_nil, ← List.singleton_append, List.count_append]
    omega
  · next hd' =>
    have hzero : a.releases [i] d = 0 := by simp [releases, hreleased, hd']
    rw [hzero, hmove, List.count_append]
    omega

theorem count_way (hA : Solves Γ A 0 a.notes) (hw : a.Way (path ++ [k]))
    (hi : (path ++ [k]).head? = some i) (d : Debt) :
    (A i).count d + (path.flatMap a.opened).count d = (A k).count d + a.releases path d := by
  induction path generalizing i with
  | nil =>
    obtain rfl : k = i := by simpa using hi
    rfl
  | cons j path ih =>
    obtain rfl : j = i := by simpa using hi
    have hsplit : a.releases (j :: path) d = a.releases [j] d + a.releases path d := by
      rw [releases, releases, releases, ← List.singleton_append, List.filterMap_append,
        List.count_append]
    rw [List.flatMap_cons, List.count_append, hsplit]
    cases hrest : path ++ [k] with
    | nil => simp at hrest
    | cons next rest =>
      have hchain := hw.chain
      rw [List.cons_append, hrest] at hchain
      obtain ⟨hedge, hchain⟩ := List.isChain_cons_cons.1 hchain
      have hdivides : ∀ i ∈ path ++ [k], a.code[i]? ≠ some (.label Environment.divideByZero) :=
        fun i hi => hw.divides i (List.mem_cons_of_mem _ hi)
      have hnext := count_step hA hedge (hdivides next (by simp [hrest])) d
      have hend := ih ⟨hrest ▸ hchain, hdivides⟩ (by rw [hrest]; rfl)
      omega

theorem exists_edge (h : (i :: (path ++ [k])).IsChain a.code.Edge) (hj : j ∈ path ++ [k]) :
    ∃ p ∈ i :: path, a.code.Edge p j := by
  induction path generalizing i with
  | nil =>
    obtain rfl := List.mem_singleton.1 hj
    exact ⟨i, List.mem_cons_self, (List.isChain_cons_cons.1 h).1⟩
  | cons next path ih =>
    obtain ⟨hedge, hrest⟩ := List.isChain_cons_cons.1 h
    rcases List.mem_cons.1 hj with rfl | hj
    · exact ⟨i, List.mem_cons_self, hedge⟩
    · obtain ⟨p, hp, he⟩ := ih hrest hj
      exact ⟨p, List.mem_cons_of_mem _ hp, he⟩

theorem covers_last {v : Extent} (h : ¬ v.LeftOn (path ++ [k])) (hi : i ∈ path)
    (hc : v.Covers i) : v.Covers k := by
  induction path generalizing i with
  | nil => cases hi
  | cons p path ih =>
    have htail : ¬ v.LeftOn (path ++ [k]) := by
      rintro ⟨i, j, hij, hcovers⟩
      exact h ⟨i, j, hij.trans (List.suffix_cons p _).isInfix, hcovers⟩
    rcases List.mem_cons.1 hi with rfl | hi
    · cases path with
      | nil => exact Classical.byContradiction fun hk => h ⟨i, k, List.infix_refl _, hc, hk⟩
      | cons next path =>
        refine ih htail List.mem_cons_self (Classical.byContradiction fun hn => h ⟨i, next, ?_, hc, hn⟩)
        exact (List.prefix_append [i, next] (path ++ [k])).isInfix
    · exact ih htail hi hc

structure Settles (a : Annotated) (es : List Extent) (A : Nat → List Debt) : Prop where
  mem : ∀ e, e ∈ es ↔ e ∈ a.blocks ++ a.routines
  laid : Laid 0 a.notes es
  solves : ∃ Γ, Runs Γ [] [] [] 0 a.notes es A

theorem anchored_label {l : String} (hk : a.code[k]? = some (.label l)) :
    Noted.Anchored 0 a.notes es k := by
  rw [getElem?_code, Option.map_eq_some_iff] at hk
  obtain ⟨n, hn, hl⟩ := hk
  exact .inl ⟨k, n, l, (Nat.zero_add k).symm, hn, hl⟩

namespace Settles

variable (h : a.Settles es A) {v w : Extent}
include h

theorem count_owed (hw : w ∈ es) (hd : d ∈ w.debts) (hj : Noted.Anchored 0 a.notes es j) :
    (A j).count d = if w.start < j ∧ j < w.stop then 1 else 0 := by
  obtain ⟨Γ, hA⟩ := h.solves
  rw [hA.anchor j hj, List.append_nil]
  exact Extent.count_owedAt h.laid.nests (fun u hu hr => (h.laid.opened u hu hr).1) hw hd j

theorem lt_stop (hw : w ∈ es) (hd : d ∈ w.debts) : w.start < w.stop :=
  (h.laid.opened w hw (Holder.mem_debts hd).2).1

theorem plain_start (hw : w ∈ es) (hd : d ∈ w.debts) {i : Instr}
    (hi : a.code[w.start]? = some i) : i.isPlain = true := by
  obtain ⟨-, q, n, hq, hn, ho⟩ := h.laid.opened w hw (Holder.mem_debts hd).2
  rw [hq, Nat.zero_add, getElem?_code, hn, Option.map_some, Option.some.injEq] at hi
  subst hi
  refine (h.laid.opens q n hn ?_).1
  rw [ho]
  exact List.ne_nil_of_mem hd

theorem count_opened (hw : w ∈ es) (hd : d ∈ w.debts) (i : Nat) :
    (a.opened i).count d = if i = w.start then 1 else 0 := by
  split
  · next hi =>
    obtain ⟨-, q, n, hq, hn, ho⟩ := h.laid.opened w hw (Holder.mem_debts hd).2
    rw [opened, hi, hq, Nat.zero_add, hn, Option.map_some, Option.getD_some, ho,
      w.nodup_debts.count, if_pos hd]
  · next hi =>
    refine List.count_eq_zero.2 fun hmem => hi ?_
    cases hn : a.notes[i]? with
    | none => simp [opened, hn] at hmem
    | some n =>
      rw [opened, hn, Option.map_some, Option.getD_some] at hmem
      obtain ⟨-, u, -, hu, ho⟩ := h.laid.opens i n hn (List.ne_nil_of_mem hmem)
      rw [ho] at hmem
      have := (Holder.mem_debts hmem).1
      have := (Holder.mem_debts hd).1
      omega

theorem count_opened_way (hw : w ∈ es) (hd : d ∈ w.debts) (path : List Nat) :
    (path.flatMap a.opened).count d = path.count w.start := by
  induction path with
  | nil => rfl
  | cons i path ih =>
    rw [List.flatMap_cons, List.count_append, ih, h.count_opened hw hd i, List.count_cons]
    simp only [beq_iff_eq]
    omega

theorem start_not_mem (hw : w ∈ es) (hd : d ∈ w.debts)
    (hpath : (w.start :: (path ++ [k])).IsChain a.code.Edge)
    (hin : ∀ i ∈ w.start :: path, w.Covers i) : w.start ∉ path := by
  intro hmem
  obtain ⟨p, hp, he⟩ := exists_edge hpath (List.mem_append_left _ hmem)
  have hcover := (hin p hp).1
  generalize hj : w.start = j at he
  cases he with
  | fall => omega
  | jump _ _ hl => cases h.plain_start hw hd (hj ▸ hl)

/-- Where a way leaves a scope, the same is owed as where the scope starts, or there is a label. -/
theorem leaves_target (hw : w ∈ es) (hl : a.Leaves w (w.start :: path) k) :
    A k = A w.start ∨ ∃ l, a.code[k]? = some (.label l) := by
  obtain ⟨p, hp, he⟩ := exists_edge hl.way.chain (List.mem_append_right path List.mem_cons_self)
  have hcover := hl.inside p hp
  have hout := hl.leaves
  cases he with
  | fall =>
    left
    obtain ⟨Γ, hA⟩ := h.solves
    rw [← hA.block w hw]
    congr 1
    unfold Extent.Covers at hcover hout
    omega
  | jump _ _ hk => exact .inr ⟨_, hk⟩

theorem releases_way (hw : w ∈ es) (hd : d ∈ w.debts) (hway : a.Way (i :: (path ++ [k]))) :
    (A i).count d + (i :: path).count w.start = (A k).count d + a.releases (i :: path) d := by
  obtain ⟨Γ, hA⟩ := h.solves
  rw [← h.count_opened_way hw hd]
  exact count_way hA.solves hway rfl d

theorem releases_own (hw : w ∈ es) (hd : d ∈ w.debts) (hl : a.Leaves w (w.start :: path) k) :
    a.releases (w.start :: path) d = 1 := by
  have hway := h.releases_way hw hd hl.way
  have hstart : (A w.start).count d = 0 := by
    rw [h.count_owed hw hd (.inr ⟨w, hw, rfl, h.lt_stop hw hd⟩), if_neg (by omega)]
  have honce : (w.start :: path).count w.start = 1 := by
    have hnot := h.start_not_mem hw hd hl.way.chain hl.inside
    rw [List.count_cons_self, List.count_eq_zero.2 hnot]
  have hend : (A k).count d = 0 := by
    have hout := hl.leaves
    unfold Extent.Covers at hout
    rcases h.leaves_target hw hl with heq | ⟨l, hk⟩
    · rw [heq, hstart]
    · rw [h.count_owed hw hd (anchored_label hk), if_neg (by omega)]
  omega

theorem apart (hw : w ∈ es) (hv : v ∈ es) (hne : w ≠ v) : w.Nests v ∨ v.Nests w := by
  have hpair : es.Pairwise fun u u' => u.Nests u' ∨ u'.Nests u := h.laid.nests.imp Or.inl
  have : Std.Symm fun u u' : Extent => u.Nests u' ∨ u'.Nests u := ⟨fun _ _ => Or.symm⟩
  exact hpair.forall hw hv hne

theorem releases_others (hw : w ∈ es) (hv : v ∈ es) (hl : a.Leaves w (w.start :: path) k)
    (hstay : ¬ v.LeftOn (w.start :: path ++ [k])) (hd : d ∈ v.debts) :
    a.releases (w.start :: path) d = 0 := by
  have hway := h.releases_way hv hd hl.way
  have hlt := h.lt_stop hv hd
  have hout := hl.leaves
  have hin := hl.inside w.start List.mem_cons_self
  have hstart := h.count_owed hv hd (.inr ⟨w, hw, rfl, Nat.lt_of_le_of_lt hin.1 hin.2⟩)
  -- A scope that is met on the way and not left contains `k`, so it is not inside of `w`.
  have hbefore : ∀ i ∈ w.start :: path, v.Covers i → v.start < w.start := by
    intro i hi hc
    have hk := covers_last hstay hi hc
    have hwi := hl.inside i hi
    have hne : w ≠ v := by
      rintro rfl
      exact hout hk
    unfold Extent.Covers at *
    rcases h.apart hw hv hne with (hn | ⟨-, -, hn⟩) | (hn | ⟨hn, hn', -⟩)
    · omega
    · exact hn (Holder.mem_debts hd).2
    · omega
    · omega
  have hnever : (w.start :: path).count v.start = 0 := by
    refine List.count_eq_zero.2 fun hmem => ?_
    have := hbefore _ hmem ⟨Nat.le_refl _, hlt⟩
    have := (hl.inside _ hmem).1
    omega
  by_cases hc : v.Covers w.start
  · have hk := covers_last hstay List.mem_cons_self hc
    have hone : (A w.start).count d = 1 := by
      rw [hstart, if_pos ⟨hbefore _ List.mem_cons_self hc, hc.2⟩]
    have hend : (A k).count d = 1 := by
      rcases h.leaves_target hw hl with heq | ⟨l, hlabel⟩
      · rw [heq, hone]
      · have hlt : v.start < k := Nat.lt_of_le_of_ne hk.1 fun heq => by
          cases h.plain_start hv hd (heq ▸ hlabel)
        rw [h.count_owed hv hd (anchored_label hlabel), if_pos ⟨hlt, hk.2⟩]
    omega
  · unfold Extent.Covers at hc
    rw [if_neg (by omega)] at hstart
    omega

theorem releases_params {r : Extent} (hr : r ∈ es) (hd : d ∈ r.debts) (hp : a.Returns r path k) :
    a.releases path d = 1 := by
  obtain ⟨Γ, hA⟩ := h.solves
  have hend : A k = [] := by
    have hret := hp.ret
    rw [getElem?_code, Option.map_eq_some_iff] at hret
    obtain ⟨n, hn, hi⟩ := hret
    simpa using (hA.solves k n hn).ret hi
  have henters := hp.enters
  cases path with
  | nil =>
    -- The first instruction of a routine is not a return.
    obtain rfl : k = r.start := by simpa using henters
    cases h.plain_start hr hd hp.ret
  | cons i path =>
    obtain rfl : i = r.start := by simpa using henters
    have hway := h.releases_way hr hd hp.way
    have hstart : (A r.start).count d = 0 := by
      rw [h.count_owed hr hd (.inr ⟨r, hr, rfl, h.lt_stop hr hd⟩), if_neg (by omega)]
    have hnot := h.start_not_mem hr hd hp.way.chain fun i hi =>
      hp.inside i (List.mem_append_left _ hi)
    rw [List.count_cons_self, List.count_eq_zero.2 hnot, hend, hstart, List.count_nil] at hway
    omega

theorem releasesOnce : a.ReleasesOnce := by
  have hblock : ∀ w ∈ a.blocks, w ∈ es := fun w hw => (h.mem w).2 (List.mem_append_left _ hw)
  have hstart : ∀ {w path k}, a.Leaves w path k → ∃ rest, path = w.start :: rest := by
    intro w path k hl
    cases path with
    | nil => cases hl.enters
    | cons i rest => exact ⟨rest, congrArg (· :: rest) (Option.some.inj hl.enters)⟩
  constructor
  · intro w hw path k hl d hd
    obtain ⟨rest, rfl⟩ := hstart hl
    exact h.releases_own (hblock w hw) hd hl
  · intro w hw path k hl v hv hstay d hd
    obtain ⟨rest, rfl⟩ := hstart hl
    exact h.releases_others (hblock w hw) ((h.mem v).2 hv) hl hstay hd
  · intro r hr path k hp d hd
    exact h.releases_params ((h.mem r).2 (List.mem_append_right _ hr)) hd hp

end Settles
end Annotated

namespace Generator

theorem Annotates.releasesOnce {program : Program} {capacity : UInt32} {a : Annotated}
    (h : Annotates program capacity a) : a.ReleasesOnce := by
  obtain ⟨Γ, es, hes, hl, A, hA⟩ := h.fits
  exact Annotated.Settles.releasesOnce ⟨hes, hl, Γ, hA⟩

/-- On every way out of a block each of its references is let go of once, and on every way through a
routine each of its parameters. -/
theorem references_released_once {program : Program} {capacity : UInt32} {code : Code}
    (h : generate program capacity = .ok code) :
    (∃ a, Annotates program capacity a ∧ a.code = code) ∧
      ∀ a, Annotates program capacity a → a.code = code → a.ReleasesOnce :=
  ⟨generate_annotates h, fun _ ha _ => ha.releasesOnce⟩

/-- A loop that is left from inside of a block with a reference, and a function with a parameter. -/
def breaking : Program :=
  let pair : Expr := .interval (.int 1) (.int 2)
  let record (name : String) (storage : Storage) : Binding := ⟨name, pair.ty, storage⟩
  ⟨4, [],
    [⟨"f", [record "p" (.aboveFrame 8)], .void, 4,
      ⟨⟨4, [record "q" (.belowFrame 4)]⟩,
        [⟨.declaration (record "q" (.belowFrame 4)) pair, .none⟩, ⟨.ret none, .none⟩]⟩, .none⟩],
    ⟨.empty, [⟨.loop (.bool true) ⟨⟨4, [record "x" (.global 0)]⟩,
        [⟨.declaration (record "x" (.global 0)) pair, .none⟩, ⟨.leave, .none⟩]⟩, .none⟩,
      ⟨.call (.call "f" [pair] .void), .none⟩]⟩⟩

theorem references_released_once_breaking :
    ∃ code, generate breaking 4 = .ok code ∧ code.count RefCounter.push = 7 ∧
      (∃ a, Annotates breaking 4 a ∧ a.code = code) ∧
        ∀ a, Annotates breaking 4 a → a.code = code → a.ReleasesOnce := by
  have hok : (match generate breaking 4 with
      | .ok code => decide (code.count RefCounter.push = 7)
      | .error _ => false) = true := by decide +kernel
  cases h : generate breaking 4 with
  | error => simp [h] at hok
  | ok code =>
    rw [h] at hok
    exact ⟨code, rfl, of_decide_eq_true hok, references_released_once h⟩

end Generator
end IntervalStack
