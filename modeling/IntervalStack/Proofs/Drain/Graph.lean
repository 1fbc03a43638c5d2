import Mathlib.Algebra.Order.Ring.Nat

/-! Reference counting on a graph of records. Decrements that are scheduled are carried out one by
one; a record whose count gets to zero is freed, and its own references are scheduled. What is freed
in the end does not depend on the order: it is the least set of records that lose all their
references to the schedule and to members of the set. -/

namespace IntervalStack.Drain

structure Graph where
  records : List Nat
  count : Nat → Int
  refs : Nat → List Nat
  pending : List Nat

namespace Graph

def refsFrom (g : Graph) (F : Nat → Bool) (r : Nat) : Nat :=
  ((g.records.filter F).flatMap g.refs).count r

/-- How many decrements are scheduled, now or when all records are freed. -/
def size (g : Graph) : Nat := g.pending.length + (g.records.flatMap g.refs).length

structure Sound (g : Graph) : Prop where
  nodup : g.records.Nodup
  pending : ∀ r ∈ g.pending, r ∈ g.records
  refs : ∀ r ∈ g.records, ∀ x ∈ g.refs r, x ∈ g.records
  positive : ∀ r ∈ g.records, 1 ≤ g.count r
  enough : ∀ r ∈ g.records, (g.pending.count r + (g.records.flatMap g.refs).count r : Nat) ≤ g.count r

structure Covered (g : Graph) : Prop where
  nodup : g.records.Nodup
  pending : ∀ r ∈ g.pending, r ∈ g.records
  refs : ∀ r ∈ g.records, ∀ x ∈ g.refs r, x ∈ g.records
  enough : ∀ r ∈ g.records, (g.pending.count r + (g.records.flatMap g.refs).count r : Nat) ≤ g.count r

theorem Sound.covered {g : Graph} (h : g.Sound) : g.Covered := ⟨h.nodup, h.pending, h.refs, h.enough⟩

/-- The records in `F` are those whose counts are used up by the schedule and by references from
records in `F`. -/
def Settled (g : Graph) (F : Nat → Bool) : Prop :=
  ∀ r ∈ g.records, F r = true ↔ g.count r = (g.pending.count r + g.refsFrom F r : Nat)

def Closed (g : Graph) (F : Nat → Bool) : Prop :=
  ∀ r ∈ g.records, 0 < g.pending.count r + g.refsFrom F r →
    g.count r = (g.pending.count r + g.refsFrom F r : Nat) → F r = true

theorem Settled.closed {g : Graph} {F : Nat → Bool} (h : g.Settled F) : g.Closed F :=
  fun r hr _ heq => (h r hr).2 heq

structure IsClosure (g : Graph) (F : Nat → Bool) : Prop where
  inside : ∀ r, F r = true → r ∈ g.records
  settled : g.Settled F
  least : ∀ G, g.Settled G → ∀ r, F r = true → G r = true

variable {g : Graph} {F G : Nat → Bool} {r x : Nat}

theorem sum_filter_le (rs : List Nat) (h : ∀ r ∈ rs, F r = true → G r = true) (f : Nat → Nat) :
    ((rs.filter F).map f).sum ≤ ((rs.filter G).map f).sum := by
  induction rs with
  | nil => exact Nat.le_refl _
  | cons s rs ih =>
    have hrest := ih fun r hr => h r (List.mem_cons_of_mem _ hr)
    have hs := h s List.mem_cons_self
    cases hF : F s with
    | false =>
      rw [List.filter_cons_of_neg (by simp [hF])]
      cases hG : G s with
      | false => rwa [List.filter_cons_of_neg (by simp [hG])]
      | true =>
        rw [List.filter_cons_of_pos hG, List.map_cons, List.sum_cons]
        omega
    | true =>
      rw [List.filter_cons_of_pos hF, List.filter_cons_of_pos (hs hF), List.map_cons, List.map_cons,
        List.sum_cons, List.sum_cons]
      omega

theorem sum_filter_le_all (rs : List Nat) (f : Nat → Nat) :
    ((rs.filter F).map f).sum ≤ (rs.map f).sum := by
  have hall := sum_filter_le (F := F) (G := fun _ => true) rs (fun _ _ _ => rfl) f
  rwa [List.filter_eq_self.2 fun _ _ => rfl] at hall

theorem refsFrom_mono (h : ∀ r, F r = true → G r = true) : g.refsFrom F x ≤ g.refsFrom G x := by
  rw [refsFrom, refsFrom, List.count_flatMap, List.count_flatMap]
  exact sum_filter_le g.records (fun r _ => h r) _

theorem refsFrom_le_all : g.refsFrom F x ≤ (g.records.flatMap g.refs).count x := by
  rw [refsFrom, List.count_flatMap, List.count_flatMap]
  exact sum_filter_le_all g.records _

def adding (F : Nat → Bool) (r : Nat) : Nat → Bool := fun x => F x || x == r

theorem adding_self (F : Nat → Bool) (r : Nat) : adding F r r = true := by simp [adding]

theorem adding_of_ne (h : x ≠ r) : adding F r x = F x := by simp [adding, h]

theorem sum_adding {rs : List Nat} (hn : rs.Nodup) (hr : r ∈ rs) (hF : F r = false)
    (f : Nat → Nat) :
    ((rs.filter (adding F r)).map f).sum = ((rs.filter F).map f).sum + f r := by
  induction rs with
  | nil => cases hr
  | cons s rs ih =>
    obtain ⟨hs, hn⟩ := List.nodup_cons.1 hn
    by_cases hsr : s = r
    · subst hsr
      have hsame : rs.filter (adding F s) = rs.filter F :=
        List.filter_congr fun y hy => adding_of_ne fun h => hs (h ▸ hy)
      rw [List.filter_cons_of_pos (adding_self F s), List.filter_cons_of_neg (by simp [hF]), hsame,
        List.map_cons, List.sum_cons, Nat.add_comm]
    · have hrest := ih hn ((List.mem_cons.1 hr).resolve_left (Ne.symm hsr))
      cases hFs : F s with
      | false =>
        rw [List.filter_cons_of_neg (by simp [adding_of_ne hsr, hFs]),
          List.filter_cons_of_neg (by simp [hFs]), hrest]
      | true =>
        rw [List.filter_cons_of_pos (by rw [adding_of_ne hsr, hFs]), List.filter_cons_of_pos hFs,
          List.map_cons, List.map_cons, List.sum_cons, List.sum_cons, hrest, Nat.add_assoc]

theorem refsFrom_adding (hn : g.records.Nodup) (hr : r ∈ g.records) (hF : F r = false) :
    g.refsFrom (adding F r) x = g.refsFrom F x + (g.refs r).count x := by
  rw [refsFrom, refsFrom, List.count_flatMap, List.count_flatMap]
  exact sum_adding hn hr hF _

theorem length_filter_adding (hn : g.records.Nodup) (hr : r ∈ g.records) (hF : F r = false) :
    (g.records.filter (adding F r)).length = (g.records.filter F).length + 1 := by
  have hsum := sum_adding hn hr hF fun _ => 1
  rwa [List.map_const', List.map_const', List.sum_replicate_nat, List.sum_replicate_nat,
    Nat.mul_one, Nat.mul_one] at hsum

theorem count_snoc (work : List Nat) (r x : Nat) :
    (work ++ [r]).count x = work.count x + if x = r then 1 else 0 := by
  rw [List.count_append, List.count_singleton]
  simp only [beq_iff_eq, eq_comm (a := r)]

/-- What holds while the decrements of `g` are carried out: the records in `F` are free, the others
have the counts `count`, and `work` is scheduled. -/
structure Reached (g : Graph) (F : Nat → Bool) (count : Nat → Int) (work : List Nat) : Prop where
  inside : ∀ r, F r = true → r ∈ g.records
  scheduled : ∀ r ∈ work, r ∈ g.records
  /-- A count is short of its first value by the decrements that have been carried out. -/
  live : ∀ r ∈ g.records, F r = false →
    count r + (g.pending.count r + g.refsFrom F r : Nat) = g.count r + work.count r
  count_le : ∀ r ∈ g.records, F r = false → count r ≤ g.count r
  positive : ∀ r ∈ g.records, F r = false → 1 ≤ count r ∨ count r = g.count r
  freed : ∀ r, F r = true →
    g.count r = (g.pending.count r + g.refsFrom F r : Nat) ∧ work.count r = 0
  least : ∀ G, g.Closed G → ∀ r, F r = true → G r = true
  /-- What is scheduled was scheduled at first or is a reference of a record that is free. -/
  bounded : work.length ≤ g.pending.length + ((g.records.filter F).flatMap g.refs).length

variable {count : Nat → Int} {work : List Nat}

theorem Reached.start (hg : g.Covered) : g.Reached (fun _ => false) g.count g.pending where
  inside _ h := nomatch h
  scheduled := hg.pending
  live r _ _ := by
    have hnone : g.refsFrom (fun _ => false) r = 0 := by
      rw [refsFrom, List.filter_eq_nil_iff.2 (by simp)]
      rfl
    rw [hnone, Nat.add_zero]
  count_le r _ _ := Int.le_refl _
  positive r _ _ := .inr rfl
  freed _ h := nomatch h
  least _ _ _ h := nomatch h
  bounded := Nat.le_add_right _ _

theorem Reached.congr {count' : Nat → Int} (h : g.Reached F count work)
    (hc : ∀ r ∈ g.records, F r = false → count' r = count r) : g.Reached F count' work :=
  { h with
    live := fun r hr hF => by rw [hc r hr hF, h.live r hr hF]
    count_le := fun r hr hF => by rw [hc r hr hF]; exact h.count_le r hr hF
    positive := fun r hr hF => by rw [hc r hr hF]; exact h.positive r hr hF }

theorem Reached.live_of_mem (h : g.Reached F count work) (hr : r ∈ work) : F r = false := by
  cases hF : F r with
  | false => rfl
  | true => exact absurd hr (List.count_eq_zero.1 (h.freed r hF).2)

theorem Reached.pos_of_mem (hg : g.Covered) (h : g.Reached F count work) (hr : r ∈ work) :
    1 ≤ count r := by
  have hrec := h.scheduled r hr
  have hlive := h.live r hrec (h.live_of_mem hr)
  have henough := hg.enough r hrec
  have hsome : 0 < work.count r := List.count_pos_iff.2 hr
  have hall := refsFrom_le_all (g := g) (F := F) (x := r)
  omega

theorem Reached.decrement (h : g.Reached F count (work ++ [r])) (hr : 1 < count r) :
    g.Reached F (fun x => if x = r then count r - 1 else count x) work := by
  refine ⟨h.inside, fun x hx => h.scheduled x (List.mem_append_left _ hx), fun x hx hF => ?_,
    fun x hx hF => ?_, fun x hx hF => ?_, fun x hF => ⟨(h.freed x hF).1, ?_⟩, h.least, ?_⟩
  · have hx' := h.live x hx hF
    rw [count_snoc] at hx'
    by_cases hxr : x = r
    · subst hxr
      simp only [if_true] at hx' ⊢
      omega
    · simp only [hxr, if_false] at hx' ⊢
      omega
  · have hx' := h.count_le x hx hF
    by_cases hxr : x = r
    · subst hxr
      simp only [if_true]
      omega
    · simpa only [hxr, if_false] using hx'
  · have hx' := h.positive x hx hF
    by_cases hxr : x = r
    · simp only [hxr, if_true]
      omega
    · simpa only [hxr, if_false] using hx'
  · have hx' := (h.freed x hF).2
    rw [count_snoc] at hx'
    omega
  · have hlen := h.bounded
    rw [List.length_append] at hlen
    omega

theorem Reached.release (hg : g.Covered) (h : g.Reached F count (work ++ [r])) (hr : count r = 1) :
    g.Reached (adding F r) count (work ++ g.refs r) := by
  have hmem : r ∈ work ++ [r] := List.mem_append_right _ List.mem_cons_self
  have hrec := h.scheduled r hmem
  have hF := h.live_of_mem hmem
  have hrefs : ∀ x, g.refsFrom (adding F r) x = g.refsFrom F x + (g.refs r).count x :=
    fun x => refsFrom_adding hg.nodup hrec hF
  -- No record gets more decrements than it has references.
  have henough : ∀ x ∈ g.records,
      ((g.pending.count x + g.refsFrom (adding F r) x : Nat) : Int) ≤ g.count x := by
    intro x hx
    have := hg.enough x hx
    have := refsFrom_le_all (g := g) (F := adding F r) (x := x)
    omega
  have hself := h.live r hrec hF
  have hbound := henough r hrec
  rw [count_snoc] at hself
  simp only [if_true] at hself
  rw [hrefs] at hbound
  have hne : ∀ {x}, adding F r x = false → x ≠ r := by
    rintro x hFx rfl
    rw [adding_self] at hFx
    cases hFx
  refine ⟨fun x hx => ?_, fun x hx => ?_, fun x hx hFx => ?_, fun x hx hFx => ?_, fun x hx hFx => ?_,
    fun x hx => ?_, fun G hG x hx => ?_, ?_⟩
  · by_cases hxr : x = r
    · exact hxr ▸ hrec
    · exact h.inside x (by rwa [adding_of_ne hxr] at hx)
  · rcases List.mem_append.1 hx with hx | hx
    · exact h.scheduled x (List.mem_append_left _ hx)
    · exact hg.refs r hrec x hx
  · have hxr := hne hFx
    rw [adding_of_ne hxr] at hFx
    have hx' := h.live x hx hFx
    rw [count_snoc] at hx'
    simp only [hxr, if_false] at hx'
    rw [hrefs, List.count_append]
    omega
  · exact h.count_le x hx (by rwa [adding_of_ne (hne hFx)] at hFx)
  · exact h.positive x hx (by rwa [adding_of_ne (hne hFx)] at hFx)
  · rw [hrefs, List.count_append]
    by_cases hxr : x = r
    · subst hxr
      omega
    · rw [adding_of_ne hxr] at hx
      obtain ⟨hx₁, hx₂⟩ := h.freed x hx
      have hx₃ := henough x (h.inside x hx)
      rw [count_snoc] at hx₂
      rw [hrefs] at hx₃
      omega
  · by_cases hxr : x = r
    · subst hxr
      -- All members of `F` are in `G`, and together they use up the count.
      have hmono : g.refsFrom F x ≤ g.refsFrom G x := refsFrom_mono fun y hy => h.least G hG y hy
      have hfirst := h.count_le x hrec hF
      have := hg.enough x hrec
      have := refsFrom_le_all (g := g) (F := G) (x := x)
      exact hG x hrec (by omega) (by omega)
    · exact h.least G hG x (by rwa [adding_of_ne hxr] at hx)
  · have hlen := h.bounded
    rw [List.length_append, List.length_singleton] at hlen
    rw [List.length_append, List.length_flatMap, sum_adding hg.nodup hrec hF, ← List.length_flatMap]
    omega

theorem Reached.length_le (h : g.Reached F count work) : work.length ≤ g.size := by
  have hsome : ((g.records.filter F).flatMap g.refs).length ≤ (g.records.flatMap g.refs).length := by
    rw [List.length_flatMap, List.length_flatMap]
    exact sum_filter_le_all g.records _
  exact Nat.le_trans h.bounded (Nat.add_le_add_left hsome _)

theorem Reached.closed (h : g.Reached F count []) : g.Closed F := by
  intro r hr hsome heq
  cases hF : F r with
  | true => rfl
  | false =>
    have hlive := h.live r hr hF
    have hpos := h.positive r hr hF
    rw [List.count_nil] at hlive
    omega

theorem Reached.isClosure (hg : g.Sound) (h : g.Reached F count []) : g.IsClosure F := by
  refine ⟨h.inside, fun r hr => ⟨fun hF => (h.freed r hF).1, fun heq => ?_⟩,
    fun G hG => h.least G hG.closed⟩
  have hpos := hg.positive r hr
  exact h.closed r hr (by omega) heq

theorem Reached.count_eq (h : g.Reached F count []) (hr : r ∈ g.records) (hF : F r = false) :
    count r = g.count r - (g.pending.count r + g.refsFrom F r : Nat) := by
  have hlive := h.live r hr hF
  rw [List.count_nil] at hlive
  omega

structure Reorders (g g' : Graph) : Prop where
  records : g'.records = g.records
  count : ∀ r ∈ g.records, g'.count r = g.count r
  refs : ∀ r ∈ g.records, g'.refs r = g.refs r
  pending : g'.pending.Perm g.pending

variable {g' : Graph}

theorem Reorders.flatMap (h : g.Reorders g') {rs : List Nat} (hrs : ∀ r ∈ rs, r ∈ g.records) :
    rs.flatMap g'.refs = rs.flatMap g.refs := by
  rw [List.flatMap_def, List.flatMap_def, List.map_congr_left fun r hr => h.refs r (hrs r hr)]

theorem Reorders.refsFrom_eq (h : g.Reorders g') : g'.refsFrom F = g.refsFrom F := by
  funext x
  rw [refsFrom, refsFrom, h.records, h.flatMap fun r hr => (List.mem_filter.1 hr).1]

theorem Reorders.covered (h : g.Reorders g') (hg : g.Covered) : g'.Covered := by
  refine ⟨h.records ▸ hg.nodup, fun r hr => ?_, fun r hr x hx => ?_, fun r hr => ?_⟩
  · rw [h.records]
    exact hg.pending r (h.pending.mem_iff.1 hr)
  all_goals rw [h.records] at hr
  · rw [h.refs r hr] at hx
    rw [h.records]
    exact hg.refs r hr x hx
  · rw [h.count r hr, h.pending.count_eq, h.records, h.flatMap fun _ hr => hr]
    exact hg.enough r hr

theorem Reorders.closed (h : g.Reorders g') (hF : g.Closed F) : g'.Closed F := by
  intro r hr hsome heq
  rw [h.records] at hr
  rw [h.pending.count_eq, h.refsFrom_eq] at hsome heq
  exact hF r hr hsome (h.count r hr ▸ heq)

theorem Reorders.symm (h : g.Reorders g') : g'.Reorders g where
  records := h.records.symm
  count r hr := (h.count r (h.records ▸ hr)).symm
  refs r hr := (h.refs r (h.records ▸ hr)).symm
  pending := h.pending.symm

theorem Reorders.freed_eq {count' : Nat → Int} (h : g.Reorders g') (hF : g.Reached F count [])
    (hG : g'.Reached G count' []) : F = G := by
  funext r
  refine Bool.eq_iff_iff.2 ⟨hF.least G (h.symm.closed hG.closed) r, hG.least F (h.closed hF.closed) r⟩

theorem Reorders.count_eq {count' : Nat → Int} (h : g.Reorders g') (hF : g.Reached F count [])
    (hF' : g'.Reached F count' []) (hr : r ∈ g.records) (hlive : F r = false) :
    count' r = count r := by
  rw [hF.count_eq hr hlive, hF'.count_eq (h.records ▸ hr) hlive, h.count r hr, h.pending.count_eq,
    h.refsFrom_eq]

end Graph
end IntervalStack.Drain
