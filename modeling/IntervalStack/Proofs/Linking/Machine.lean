import IntervalStack.Proofs.Actions
import IntervalStack.Proofs.Linking.Program
import IntervalStack.Proofs.Loading

/-! Linked listings on the machine: they are loaded unless they are too large, and no run of them
comes upon a label that is not there. -/

namespace IntervalStack

namespace Machine

variable {α β : Type} {image : Image}

def Finds (image : Image) (a : Exec α) : Prop :=
  ∀ m, m.image = image → match a m with
    | .ok _ m' => m'.image = image
    | .error e _ => ∀ l, e ≠ .unknownLabel l

theorem Finds.pure (r : α) : Finds image (pure r) := fun _ h => h

theorem Finds.bind {a : Exec α} {f : α → Exec β} (ha : Finds image a)
    (hf : ∀ r, Finds image (f r)) : Finds image (a >>= f) := by
  intro m hm
  have h := ha m hm
  simp only [Bind.bind, EStateM.bind]
  cases hr : a m with
  | ok r m' =>
    rw [hr] at h
    exact hf r m' h
  | error e m' =>
    rw [hr] at h
    exact h

theorem Finds.get_bind {f : Machine → Exec β} (hf : ∀ m, m.image = image → Finds image (f m)) :
    Finds image (MonadState.get >>= f) := fun m hm => hf m hm m hm

theorem Finds.modify {f : Machine → Machine} (hf : ∀ m, (f m).image = m.image) :
    Finds image (modify f) := fun m hm => (hf m).trans hm

theorem Finds.throw {e : Fault} (he : ∀ l, e ≠ .unknownLabel l) :
    Finds image (throw e : Exec α) := fun _ _ => he

structure Resolves (image : Image) (i : Instr) : Prop where
  jump : ∀ l, i.jumpTarget? = some l → (image.label? l).isSome = true
  call : ∀ l, i = .call l → (image.label? l).isSome = true ∨ Image.isHostEntry l = true
  name : ∀ l, i = .pushD l → (image.dataLabel? l).isSome = true

theorem Resolves.finds {i : Instr} {l : String} (hi : Resolves image i) : ¬ i.Misses image l := by
  rintro (⟨htarget, hnone, hhost⟩ | ⟨rfl, hnone⟩)
  · cases i with
    | call _ =>
      obtain rfl := Option.some.inj htarget
      rcases hi.call _ rfl with hsome | hentry
      · simp [hnone] at hsome
      · simp [hhost rfl] at hentry
    | _ => simpa [hnone] using hi.jump l htarget
  · simpa [hnone] using hi.name l rfl

theorem execute_finds {i : Instr} (hi : Resolves image i) (pc : Nat) :
    Finds image (execute pc i) := by
  have hfinds : HeapInvariant (fun m => m.image = image) fun e => ∀ l, e ≠ .unknownLabel l := {
    stack := fun hm _ => hm
    pc := fun hm _ => hm
    output := fun hm _ => hm
    halt := fun hm => hm
    write := fun hm _ => hm
    answered := fun hm _ _ => hm
    access := fun _ he => by
      rcases check_error he with rfl | ⟨-, _, -, rfl⟩
      · nofun
      · nofun
    plain := fun he => by
      rintro l rfl
      cases he
    refused := fun _ _ _ => nofun }
  intro m hm
  have h := hfinds.execute pc (i := i)
    (fun m l hm hmisses => absurd (hm ▸ hmisses) hi.finds) hm
  cases hr : execute pc i m with
  | ok _ m' =>
    rw [hr] at h
    exact h
  | error e m' =>
    rw [hr] at h
    exact h.1

theorem step_finds (h : ∀ i ∈ image.code.toList, Resolves image i) (limit : Nat) :
    Finds image (step limit) := by
  refine .get_bind fun m _ => ?_
  split
  · exact .throw nofun
  · refine .bind (.modify fun _ => rfl) fun _ => .get_bind fun m' _ => .get_bind fun m'' hm'' => ?_
    rw [hm'']
    split
    · exact .throw nofun
    · next i hi =>
      refine .bind (.modify fun _ => rfl) fun _ => execute_finds (h i ?_) _
      exact List.mem_of_getElem? (by simpa using hi)

theorem runFor_finds (h : ∀ i ∈ image.code.toList, Resolves image i) (limit fuel : Nat) :
    Finds image (runFor limit fuel) := by
  induction fuel with
  | zero => exact .throw nofun
  | succ fuel ih =>
    refine .get_bind fun m _ => ?_
    split
    · exact .pure _
    · exact .bind (step_finds h limit) fun _ => ih

theorem Loaded.resolves {code : Code} {settings : MachineSettings} {m : Machine}
    (h : Loaded code settings m) (hl : code.Links) :
    ∀ i ∈ m.image.code.toList, Resolves m.image i := by
  have hlabel : ∀ l ∈ code.labels, (m.image.label? l).isSome = true := by
    intro l hl
    obtain ⟨pre, post, heq⟩ := List.append_of_mem (Code.mem_labels.1 hl)
    rw [h.label pre l post heq]
    rfl
  have hname : ∀ l ∈ code.dataLabels, (m.image.dataLabel? l).isSome = true := by
    intro l hl
    obtain ⟨pre, post, heq⟩ := List.append_of_mem (Code.mem_dataLabels.1 hl)
    rw [h.dataLabel pre l post heq]
    rfl
  intro i hi
  rw [h.code] at hi
  have hmem := (List.mem_filter.1 hi).1
  refine ⟨fun l ht => hlabel l (hl.jumps i hmem l ht), ?_, ?_⟩
  · rintro l rfl
    exact (hl.calls l hmem).imp_left (hlabel l)
  · rintro l rfl
    exact hname l (hl.names l hmem)

theorem run_finds {code : Code} {settings : MachineSettings} {m m' : Machine} {e : Fault}
    {limit : Nat} (h : Loaded code settings m) (hl : code.Links)
    (hr : (run limit).run m = .error e m') : ∀ l, e ≠ .unknownLabel l := by
  have hfinds : Finds m.image (run limit) :=
    .get_bind fun _ _ => runFor_finds (h.resolves hl) _ _
  have hm := hfinds m rfl
  rw [show run limit m = .error e m' from hr] at hm
  exact hm

end Machine

namespace Generator

/-- Generated code links, so that it is loaded unless data and heap are too large for the memory, or
the data end in the last seven bytes of the address space, where the start of the heap overflows; and
no run of it misses a label. -/
theorem generated_code_links {program : Program} {capacity : UInt32} {code : Code}
    (h : generate program capacity = .ok code) (hd : DistinctNames program)
    (settings : MachineSettings) :
    code.Links ∧
    (∀ fault, Machine.load code settings = .error fault →
      fault = .memoryLayout settings.memorySize.toNat ∨
      fault = .overflow .multiply ∧ code.dataSize ≤ settings.memorySize.toNat ∧
        2 ^ 32 - 8 < code.dataSize) ∧
    ∀ m, Machine.load code settings = .ok m → ∀ limit e m',
      (Machine.run limit).run m = .error e m' → ∀ l, e ≠ .unknownLabel l := by
  have hlinks := (generate_assembled h).links hd
  refine ⟨hlinks, fun fault hf => ?_, fun m hm limit e m' hr => ?_⟩
  · rcases Machine.load_of_links hlinks settings with ⟨⟨m, hm⟩, -⟩ | ⟨hm, -⟩ | ⟨hm, hfit, hbase⟩
    · rw [hm] at hf
      cases hf
    · rw [hm] at hf
      cases hf
      exact .inl rfl
    · rw [hm] at hf
      cases hf
      refine .inr ⟨rfl, hfit, ?_⟩
      simp only [Machine.heapBase, UInt32.size] at hbase
      omega
  · exact Machine.run_finds (Machine.load_loaded hm) hlinks hr

/-- Functions, structs and methods whose names look like parts of labels. -/
def hyphenated : Program :=
  let idle (name : String) : Function := ⟨name, [], .void, 0, .empty, .none⟩
  let record (id : StructId) : StructDef :=
    ⟨id, "s", [⟨"next", .struct 1, .member 16⟩], 4, 0, .empty, [idle "1", idle "1-1"], none, .none⟩
  ⟨0, [record 1, record 11], [idle "if-1-end", idle "1"],
    ⟨.empty, [⟨.ifElse (.bool true) .empty none, .none⟩, ⟨.call (.call "1" [] .void), .none⟩]⟩⟩

theorem generated_code_links_hyphenated :
    ∃ code, generate hyphenated 4 = .ok code ∧ DistinctNames hyphenated ∧
      (Machine.load code ⟨4096, 1024, 1000⟩).toBool = true ∧ ∀ settings : MachineSettings,
        code.Links ∧
        (∀ fault, Machine.load code settings = .error fault →
          fault = .memoryLayout settings.memorySize.toNat ∨
          fault = .overflow .multiply ∧ code.dataSize ≤ settings.memorySize.toNat ∧
            2 ^ 32 - 8 < code.dataSize) ∧
        ∀ m, Machine.load code settings = .ok m → ∀ limit e m',
          (Machine.run limit).run m = .error e m' → ∀ l, e ≠ .unknownLabel l := by
  have hd : DistinctNames hyphenated := ⟨by decide, by decide, by decide, by decide⟩
  have hok : (match generate hyphenated 4 with
      | .ok code => (Machine.load code ⟨4096, 1024, 1000⟩).toBool
      | .error _ => false) = true := by decide +kernel
  cases h : generate hyphenated 4 with
  | error => simp [h] at hok
  | ok code =>
    rw [h] at hok
    exact ⟨code, rfl, hd, hok, generated_code_links h hd⟩

/-- A program whose globals leave no room behind the data for a multiple of eight. -/
def brimful : Program := ⟨4294967152, [], [], .empty⟩

/-- Loading can also fail in computing the start of the heap. -/
theorem load_brimful_overflows :
    ∃ code, generate brimful 1 = .ok code ∧ DistinctNames brimful ∧
      code.dataSize ≤ (4294967295 : UInt32).toNat ∧
      Machine.load code ⟨4294967295, 0, 1000⟩ = .error (.overflow .multiply) := by
  have hd : DistinctNames brimful := ⟨by decide, by decide, by decide, by decide⟩
  have hok : (match generate brimful 1 with
      | .ok code => code.dataSize == 4294967290
      | .error _ => false) = true := by decide +kernel
  cases h : generate brimful 1 with
  | error => simp [h] at hok
  | ok code =>
    rw [h] at hok
    have hsize : code.dataSize = 4294967290 := beq_iff_eq.1 hok
    have hlinks := (generate_assembled h).links hd
    have hbase : Machine.heapBase code = 4294967296 := by rw [Machine.heapBase, hsize]
    have hmemory : (4294967295 : UInt32).toNat = 4294967295 := rfl
    refine ⟨code, rfl, hd, by omega, ?_⟩
    rcases Machine.load_of_links hlinks ⟨4294967295, 0, 1000⟩ with ⟨-, hlt⟩ | ⟨-, hlt⟩ | ⟨hload, -⟩
    · simp only [UInt32.size] at hlt
      omega
    · simp only [UInt32.size, hmemory] at hlt
      omega
    · exact hload

end Generator
end IntervalStack
