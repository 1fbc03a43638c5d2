import IntervalStack.Proofs.Drain.Graph

/-! The accounts of reference counting in the middle of an expression. Operands hold references too,
and a record that is being filled must not be looked into. -/

namespace IntervalStack.Drain.Graph

/-- The records in `raw` are being filled, and nothing refers to them. The counts of the others cover
what is scheduled, the references from each other, and the references in `own`, which are held outside
of all records. -/
structure Accounts (g : Graph) (raw own : List Nat) : Prop where
  nodup : g.records.Nodup
  inside : ∀ r ∈ raw, r ∈ g.records
  pending : ∀ x ∈ g.pending, x ∈ g.records ∧ x ∉ raw
  refs : ∀ r ∈ g.records, r ∉ raw → ∀ x ∈ g.refs r, x ∈ g.records ∧ x ∉ raw
  held : ∀ x ∈ own, x ∈ g.records ∧ x ∉ raw
  enough : ∀ x ∈ g.records, x ∉ raw →
    (g.pending.count x + g.refsFrom (fun r => decide (r ∉ raw)) x + own.count x : Nat) ≤ g.count x

variable {g g' : Graph} {raw own gained given : List Nat} {r x : Nat}

theorem refsFrom_congr {F : Nat → Bool} (hrecords : g'.records = g.records)
    (hrefs : ∀ r ∈ g.records, F r = true → g'.refs r = g.refs r) :
    g'.refsFrom F x = g.refsFrom F x := by
  have hmap : (g.records.filter F).map g'.refs = (g.records.filter F).map g.refs :=
    List.map_congr_left fun r hr => hrefs r (List.mem_filter.1 hr).1 (List.mem_filter.1 hr).2
  rw [refsFrom, refsFrom, hrecords, List.flatMap_def, List.flatMap_def, hmap]

theorem Accounts.trade (h : g.Accounts raw (given ++ own)) (hrecords : g'.records = g.records)
    (hpending : g'.pending = g.pending ++ given) (hgained : ∀ x ∈ gained, x ∈ g.records ∧ x ∉ raw)
    (hcount : ∀ x ∈ g.records, x ∉ raw → g'.count x = g.count x + gained.count x)
    (hrefs : ∀ r ∈ g.records, r ∉ raw → g'.refs r = g.refs r) : g'.Accounts raw (gained ++ own) := by
  refine ⟨hrecords ▸ h.nodup, hrecords ▸ h.inside, fun x hx => ?_, fun r hr hraw x hx => ?_,
    fun x hx => ?_, fun x hx hraw => ?_⟩
  · rw [hpending] at hx
    rw [hrecords]
    rcases List.mem_append.1 hx with hx | hx
    · exact h.pending x hx
    · exact h.held x (List.mem_append_left _ hx)
  · rw [hrecords] at hr ⊢
    rw [hrefs r hr hraw] at hx
    exact h.refs r hr hraw x hx
  · rw [hrecords]
    rcases List.mem_append.1 hx with hx | hx
    · exact hgained x hx
    · exact h.held x (List.mem_append_right _ hx)
  · rw [hrecords] at hx
    have henough := h.enough x hx hraw
    have hfrom : g'.refsFrom (fun r => decide (r ∉ raw)) x = g.refsFrom (fun r => decide (r ∉ raw)) x :=
      refsFrom_congr hrecords fun r hr hF => hrefs r hr (of_decide_eq_true hF)
    rw [List.count_append] at henough
    rw [hcount x hx hraw, hpending, hfrom, List.count_append, List.count_append]
    omega

theorem Accounts.perm {own' : List Nat} (h : g.Accounts raw own) (hperm : own.Perm own') :
    g.Accounts raw own' :=
  ⟨h.nodup, h.inside, h.pending, h.refs, fun x hx => h.held x (hperm.mem_iff.2 hx),
    fun x hx hraw => hperm.count_eq x ▸ h.enough x hx hraw⟩

theorem Accounts.alone (h : g.Accounts raw own) (hown : x ∈ own) (hone : g.count x = 1) :
    x ∉ g.pending ∧ ∀ r ∈ g.records, r ∉ raw → x ∉ g.refs r := by
  obtain ⟨hx, hraw⟩ := h.held x hown
  have henough := h.enough x hx hraw
  have hheld : 0 < own.count x := List.count_pos_iff.2 hown
  refine ⟨fun hpending => ?_, fun r hr hcomplete href => ?_⟩
  · have hscheduled : 0 < g.pending.count x := List.count_pos_iff.2 hpending
    omega
  · have hfrom : 0 < g.refsFrom (fun r => decide (r ∉ raw)) x := List.count_pos_iff.2
      (List.mem_flatMap.2 ⟨r, List.mem_filter.2 ⟨hr, decide_eq_true hcomplete⟩, href⟩)
    omega

theorem Accounts.opened (h : g.Accounts raw own) (hr : r ∉ g.records)
    (hrecords : g'.records.Perm (r :: g.records)) (hpending : g'.pending = g.pending)
    (hcount : ∀ x ∈ g.records, x ∉ raw → g'.count x = g.count x)
    (hrefs : ∀ x ∈ g.records, x ∉ raw → g'.refs x = g.refs x) : g'.Accounts (r :: raw) own := by
  have hkept {x : Nat} (hx : x ∈ g.records ∧ x ∉ raw) : x ∈ g'.records ∧ x ∉ r :: raw := by
    refine ⟨hrecords.mem_iff.2 (List.mem_cons_of_mem _ hx.1), fun hmem => ?_⟩
    rcases List.mem_cons.1 hmem with rfl | hmem
    · exact hr hx.1
    · exact hx.2 hmem
  have hold {x : Nat} (hx : x ∈ g'.records) (hraw : x ∉ r :: raw) : x ∈ g.records ∧ x ∉ raw :=
    ⟨(List.mem_cons.1 (hrecords.mem_iff.1 hx)).resolve_left fun heq => hraw (heq ▸ List.mem_cons_self),
      fun hmem => hraw (List.mem_cons_of_mem _ hmem)⟩
  refine ⟨hrecords.nodup_iff.2 (List.nodup_cons.2 ⟨hr, h.nodup⟩), fun x hx => ?_, fun x hx => ?_,
    fun y hy hraw x hx => ?_, fun x hx => hkept (h.held x hx), fun x hx hraw => ?_⟩
  · rcases List.mem_cons.1 hx with rfl | hx
    · exact hrecords.mem_iff.2 List.mem_cons_self
    · exact hrecords.mem_iff.2 (List.mem_cons_of_mem _ (h.inside x hx))
  · exact hkept (h.pending x (hpending ▸ hx))
  · obtain ⟨hy, hraw⟩ := hold hy hraw
    exact hkept (h.refs y hy hraw x (hrefs y hy hraw ▸ hx))
  · obtain ⟨hx, hraw'⟩ := hold hx hraw
    -- what is complete is what was complete before
    have hfilter : (g'.records.filter fun y => decide (y ∉ r :: raw)).Perm
        (g.records.filter fun y => decide (y ∉ raw)) := by
      refine (hrecords.filter _).trans (List.Perm.of_eq ?_)
      rw [List.filter_cons_of_neg (by simp)]
      refine List.filter_congr fun y hy => ?_
      have hne : y ≠ r := fun heq => hr (heq ▸ hy)
      simp [hne]
    have hmap : ((g.records.filter fun y => decide (y ∉ raw)).map g'.refs)
        = (g.records.filter fun y => decide (y ∉ raw)).map g.refs :=
      List.map_congr_left fun y hy =>
        hrefs y (List.mem_filter.1 hy).1 (of_decide_eq_true (List.mem_filter.1 hy).2)
    have hfrom : g'.refsFrom (fun y => decide (y ∉ r :: raw)) x
        = g.refsFrom (fun y => decide (y ∉ raw)) x := by
      rw [refsFrom, refsFrom, (hfilter.flatMap_right g'.refs).count_eq, List.flatMap_def, hmap,
        ← List.flatMap_def]
    rw [hcount x hx hraw', hpending, hfrom]
    exact h.enough x hx hraw'

/-- A record is complete, with a count for the one who filled it. What it refers to is handed over
to it. -/
theorem Accounts.closed (h : g.Accounts (r :: raw) (g.refs r ++ own)) (hr : r ∉ raw)
    (hone : 1 ≤ g.count r) : g.Accounts raw (r :: own) := by
  have hrec : r ∈ g.records := h.inside r List.mem_cons_self
  have hweaken {x : Nat} (hx : x ∈ g.records ∧ x ∉ r :: raw) : x ∈ g.records ∧ x ∉ raw :=
    ⟨hx.1, fun hmem => hx.2 (List.mem_cons_of_mem _ hmem)⟩
  have hrefs : ∀ x ∈ g.refs r, x ∈ g.records ∧ x ∉ r :: raw :=
    fun x hx => h.held x (List.mem_append_left _ hx)
  have hcomplete : (fun x => decide (x ∉ raw)) = adding (fun x => decide (x ∉ r :: raw)) r := by
    funext x
    by_cases hx : x = r
    · rw [hx, adding_self]
      exact decide_eq_true hr
    · rw [adding_of_ne hx]
      simp [hx]
  refine ⟨h.nodup, fun x hx => h.inside x (List.mem_cons_of_mem _ hx),
    fun x hx => hweaken (h.pending x hx), fun y hy hraw x hx => ?_, fun x hx => ?_, fun x hx hraw => ?_⟩
  · by_cases hyr : y = r
    · exact hweaken (hrefs x (hyr ▸ hx))
    · exact hweaken (h.refs y hy (List.not_mem_cons_of_ne_of_not_mem hyr hraw) x hx)
  · rcases List.mem_cons.1 hx with rfl | hx
    · exact ⟨hrec, hr⟩
    · exact hweaken (h.held x (List.mem_append_right _ hx))
  · rw [hcomplete, refsFrom_adding h.nodup hrec (by simp), List.count_cons]
    by_cases hxr : x = r
    · -- Nothing refers to the record but the one who filled it.
      subst hxr
      have hself {xs : List Nat} (hxs : ∀ y ∈ xs, y ∈ g.records ∧ y ∉ x :: raw) : xs.count x = 0 :=
        List.count_eq_zero.2 fun hmem => (hxs x hmem).2 List.mem_cons_self
      have hfrom : g.refsFrom (fun y => decide (y ∉ x :: raw)) x = 0 := by
        refine hself fun y hy => ?_
        obtain ⟨z, hz, hy⟩ := List.mem_flatMap.1 hy
        exact h.refs z (List.mem_filter.1 hz).1 (of_decide_eq_true (List.mem_filter.1 hz).2) y hy
      rw [hself h.pending, hfrom, hself hrefs,
        hself fun y hy => h.held y (List.mem_append_right _ hy)]
      simpa using hone
    · have henough := h.enough x hx (List.not_mem_cons_of_ne_of_not_mem hxr hraw)
      rw [List.count_append] at henough
      rw [if_neg (by simpa using Ne.symm hxr)]
      omega

theorem refsFrom_complete : g.refsFrom (fun r => decide (r ∉ ([] : List Nat))) x
    = (g.records.flatMap g.refs).count x := by
  rw [refsFrom, List.filter_eq_self.2 fun _ _ => by simp]

theorem Accounts.covered (h : g.Accounts [] own) : g.Covered := by
  refine ⟨h.nodup, fun r hr => (h.pending r hr).1, fun r hr x hx => (h.refs r hr (by simp) x hx).1,
    fun r hr => ?_⟩
  have henough := h.enough r hr (by simp)
  rw [refsFrom_complete] at henough
  omega

variable {F : Nat → Bool} {count : Nat → Int}

theorem Accounts.not_freed (h : g.Accounts [] own) (hend : g.Reached F count []) (hx : x ∈ own) :
    F x = false := by
  refine Bool.eq_false_iff.2 fun hF => ?_
  have hfreed := (hend.freed x hF).1
  have henough := h.enough x (h.held x hx).1 (by simp)
  have hall := @refsFrom_le_all g F x
  have hheld : 0 < own.count x := List.count_pos_iff.2 hx
  rw [refsFrom_complete] at henough
  omega

theorem Accounts.freed (h : g.Accounts [] own) (hend : g.Reached F count []) (hr : r ∈ g.pending)
    (hone : g.count r = 1) : F r = true := by
  have hrec := (h.pending r hr).1
  have henough := h.enough r hrec (by simp)
  have hall := @refsFrom_le_all g F r
  have hsome : 0 < g.pending.count r := List.count_pos_iff.2 hr
  rw [refsFrom_complete] at henough
  exact hend.closed r hrec (by omega) (by omega)

end IntervalStack.Drain.Graph
