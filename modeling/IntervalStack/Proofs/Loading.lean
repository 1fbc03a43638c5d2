import IntervalStack.Machine.Basic
import IntervalStack.Proofs.Linking.Basic
import Mathlib.Algebra.Order.Ring.Nat

/-! Loading a listing: where its instructions, labels and data get to, and when it fails. -/

namespace IntervalStack

namespace Code

def executable (c : Code) : List Instr :=
  c.filter fun i => match i with
    | .label _ => false
    | i => !i.isData

def dataSize (c : Code) : Nat := (c.map Instr.dataSize).sum

@[simp] theorem executable_append (c c' : Code) :
    executable (c ++ c') = executable c ++ executable c' := List.filter_append _ _

@[simp] theorem dataSize_nil : dataSize [] = 0 := rfl

@[simp] theorem dataSize_cons (i : Instr) (c : Code) : dataSize (i :: c) = i.dataSize + dataSize c := by
  simp [dataSize]

@[simp] theorem dataSize_append (c c' : Code) : dataSize (c ++ c') = dataSize c + dataSize c' := by
  simp [dataSize]

/-- The names of a listing are in order: no label is defined twice, and every jump and call goes to
a label or to an entry that the machine provides. -/
structure Loadable (c : Code) : Prop where
  labels : c.labels.Nodup
  dataLabels : c.dataLabels.Nodup
  targets : ∀ i ∈ c, ∀ t, i.target? = some t → t ∈ c.labels ∨ Image.isHostEntry t = true

theorem Links.loadable {c : Code} (h : c.Links) : c.Loadable := by
  refine ⟨h.labels, h.dataLabels, fun i hi t ht => ?_⟩
  cases i with
  | call _ =>
    obtain rfl := Option.some.inj ht
    exact h.calls _ hi
  | jump _ | jumpTrue _ | jumpFalse _ | jumpPos _ | jumpNeg _ | jumpFZero _ | jumpFPos _
  | jumpFNeg _ =>
    obtain rfl := Option.some.inj ht
    exact .inl (h.jumps _ hi _ rfl)
  | _ => cases ht

end Code

namespace Loading

variable {l l' : Loading} {c : Code} {i : Instr}

structure Extends (l : Loading) (c : Code) (l' : Loading) : Prop where
  code : l'.image.code.toList = l.image.code.toList ++ c.executable
  cursor : l'.cursor = l.cursor + c.dataSize
  size : l'.memory.size = l.memory.size
  label : ∀ name n, l.image.label? name = some n → l'.image.label? name = some n
  dataLabel : ∀ name n, l.image.dataLabel? name = some n → l'.image.dataLabel? name = some n
  newLabel : ∀ pre name post, c = pre ++ .label name :: post →
    l'.image.label? name = some (l.image.code.size + (Code.executable pre).length)
  newDataLabel : ∀ pre name post, c = pre ++ .dLabel name :: post →
    l'.image.dataLabel? name = some (l.cursor + Code.dataSize pre)
  noLabel : ∀ name, name ∉ c.labels → l'.image.label? name = l.image.label? name
  noDataLabel : ∀ name, name ∉ c.dataLabels → l'.image.dataLabel? name = l.image.dataLabel? name

theorem Extends.refl (l : Loading) : Extends l [] l where
  code := (List.append_nil _).symm
  cursor := rfl
  size := rfl
  label _ _ := id
  dataLabel _ _ := id
  newLabel pre _ _ h := by simp at h
  newDataLabel pre _ _ h := by simp at h
  noLabel _ _ := rfl
  noDataLabel _ _ := rfl

theorem append_split {c c' pre post : Code} (h : c ++ c' = pre ++ i :: post) :
    (∃ rest, c = pre ++ i :: rest) ∨ ∃ rest, pre = c ++ rest ∧ c' = rest ++ i :: post := by
  rcases List.append_eq_append_iff.1 h with ⟨rest, rfl, hr⟩ | ⟨rest, rfl, hr⟩
  · exact .inr ⟨rest, rfl, hr⟩
  · cases rest with
    | nil => exact .inr ⟨[], by simp, hr.symm⟩
    | cons j rest =>
      obtain ⟨rfl, -⟩ := List.cons.inj hr
      exact .inl ⟨rest, rfl⟩

theorem Extends.trans {c' : Code} {l₁ : Loading} (h : Extends l c l₁) (h' : Extends l₁ c' l') :
    Extends l (c ++ c') l' where
  code := by rw [h'.code, h.code, Code.executable_append, List.append_assoc]
  cursor := by rw [h'.cursor, h.cursor, Code.dataSize_append, Nat.add_assoc]
  size := h'.size.trans h.size
  label name n hn := h'.label name n (h.label name n hn)
  dataLabel name n hn := h'.dataLabel name n (h.dataLabel name n hn)
  newLabel pre name post heq := by
    rcases append_split heq with ⟨rest, hc⟩ | ⟨rest, rfl, hc⟩
    · exact h'.label _ _ (h.newLabel pre name rest hc)
    · have hsize : l₁.image.code.size = l.image.code.size + c.executable.length := by
        rw [← Array.length_toList, h.code, List.length_append, Array.length_toList]
      rw [h'.newLabel rest name post hc, hsize, Code.executable_append, List.length_append,
        Nat.add_assoc]
  newDataLabel pre name post heq := by
    rcases append_split heq with ⟨rest, hc⟩ | ⟨rest, rfl, hc⟩
    · exact h'.dataLabel _ _ (h.newDataLabel pre name rest hc)
    · rw [h'.newDataLabel rest name post hc, h.cursor, Code.dataSize_append, Nat.add_assoc]
  noLabel name hn := by
    rw [Code.labels_append, List.mem_append, not_or] at hn
    rw [h'.noLabel name hn.2, h.noLabel name hn.1]
  noDataLabel name hn := by
    rw [Code.dataLabels_append, List.mem_append, not_or] at hn
    rw [h'.noDataLabel name hn.2, h.noDataLabel name hn.1]

theorem singleton_split {pre post : Code} {j : Instr} (h : [i] = pre ++ j :: post) :
    pre = [] ∧ j = i := by
  cases pre with
  | nil => exact ⟨rfl, (List.cons.inj h).1.symm⟩
  | cons k pre => simp at h

theorem data_extends (hi : i.isData = true) (hl : ∀ name, i ≠ .dLabel name)
    (h : l.data i = .ok l') : Extends l [i] l' := by
  unfold data at h
  split at h
  · cases h
  · obtain rfl := Except.ok.inj h
    have hexec : Code.executable [i] = [] := by cases i <;> first | rfl | cases hi
    refine ⟨by simp [hexec], by simp, by simp, fun _ _ => id, fun _ _ => id, ?_, ?_, fun _ _ => rfl,
      fun _ _ => rfl⟩
    · intro pre name post heq
      obtain ⟨-, rfl⟩ := singleton_split heq
      cases hi
    · intro pre name post heq
      obtain ⟨-, rfl⟩ := singleton_split heq
      exact absurd rfl (hl name)

theorem lookup_cons_eq (name name' : String) (n : Nat) (ls : List (String × Nat)) :
    ((name', n) :: ls).lookup name = if name = name' then some n else ls.lookup name := by
  by_cases h : name = name'
  · subst h
    simp
  · have hne : (name == name') = false := by simpa using h
    simp [List.lookup_cons, hne, h]

theorem place_extends (h : l.place i = .ok l') : Extends l [i] l' := by
  cases i with
  | label name =>
    simp only [place] at h
    split at h
    · cases h
    · next hnone =>
      obtain rfl := Except.ok.inj h
      refine ⟨(List.append_nil _).symm, rfl, rfl, ?_, fun _ _ => id, ?_, ?_, ?_, fun _ _ => rfl⟩
      · intro name' n hn
        have hne : name' ≠ name := by
          rintro rfl
          simp [hn] at hnone
        rwa [Image.label?, lookup_cons_eq, if_neg hne]
      · intro pre name' post heq
        obtain ⟨rfl, hsame⟩ := singleton_split heq
        rw [Image.label?, lookup_cons_eq, if_pos (Instr.label.inj hsame)]
        rfl
      · intro pre name' post heq
        cases (singleton_split heq).2
      · intro name' hne
        rw [Image.label?, lookup_cons_eq, if_neg (by simpa using hne)]
        rfl
  | dLabel name =>
    simp only [place] at h
    split at h
    · cases h
    · next hnone =>
      obtain rfl := Except.ok.inj h
      refine ⟨(List.append_nil _).symm, rfl, rfl, fun _ _ => id, ?_, ?_, ?_, fun _ _ => rfl, ?_⟩
      · intro name' n hn
        have hne : name' ≠ name := by
          rintro rfl
          simp [hn] at hnone
        rwa [Image.dataLabel?, lookup_cons_eq, if_neg hne]
      · intro pre name' post heq
        cases (singleton_split heq).2
      · intro pre name' post heq
        obtain ⟨rfl, hsame⟩ := singleton_split heq
        rw [Image.dataLabel?, lookup_cons_eq, if_pos (Instr.dLabel.inj hsame)]
        rfl
      · intro name' hne
        rw [Image.dataLabel?, lookup_cons_eq, if_neg (by simpa [Code.dataLabels] using hne)]
        rfl
  | dataZ | dataI | dataF | dataC | dataS => exact data_extends rfl (by simp) h
  | _ =>
    obtain rfl := Except.ok.inj h
    refine ⟨by simp [Code.executable, Instr.isData], rfl, rfl, fun _ _ => id, fun _ _ => id, ?_, ?_,
      fun _ _ => rfl, fun _ _ => rfl⟩
    · intro pre name post heq
      cases (singleton_split heq).2
    · intro pre name post heq
      cases (singleton_split heq).2

theorem placeAll_extends (h : l.placeAll c = .ok l') : Extends l c l' := by
  induction c generalizing l with
  | nil =>
    obtain rfl := Except.ok.inj h
    exact .refl l
  | cons i c ih =>
    simp only [placeAll, bind, Except.bind] at h
    split at h
    · cases h
    · next l₁ h₁ => exact (place_extends h₁).trans (ih h)

theorem place_of_fresh (hc : l.cursor ≤ l.memory.size)
    (hl : ∀ name, i = .label name → l.image.label? name = none)
    (hd : ∀ name, i = .dLabel name → l.image.dataLabel? name = none) :
    if l.memory.size < l.cursor + i.dataSize then
      l.place i = .error (.memoryLayout l.memory.size)
    else ∃ l', l.place i = .ok l' := by
  cases i with
  | label name =>
    rw [if_neg (by simpa [Instr.dataSize, Instr.bytes] using hc)]
    simp [place, hl name rfl]
  | dLabel name =>
    rw [if_neg (by simpa [Instr.dataSize, Instr.bytes] using hc)]
    simp [place, hd name rfl]
  | dataZ | dataI | dataF | dataC | dataS =>
    simp only [place, data]
    split
    · rfl
    · exact ⟨_, rfl⟩
  | _ =>
    rw [if_neg (by simpa [Instr.dataSize, Instr.bytes] using hc)]
    exact ⟨_, rfl⟩

/-- Labels that differ are all placed, so that only the size of the data can make loading fail. -/
theorem placeAll_of_nodup (hc : l.cursor ≤ l.memory.size) (hl : c.labels.Nodup)
    (hd : c.dataLabels.Nodup) (hnl : ∀ name ∈ c.labels, l.image.label? name = none)
    (hnd : ∀ name ∈ c.dataLabels, l.image.dataLabel? name = none) :
    if l.memory.size < l.cursor + c.dataSize then
      l.placeAll c = .error (.memoryLayout l.memory.size)
    else ∃ l', l.placeAll c = .ok l' := by
  induction c generalizing l with
  | nil =>
    rw [if_neg (by simpa using hc)]
    exact ⟨l, rfl⟩
  | cons i c ih =>
    have hsplit : i :: c = [i] ++ c := rfl
    rw [hsplit, Code.labels_append] at hl hnl
    rw [hsplit, Code.dataLabels_append] at hd hnd
    have hplace := place_of_fresh (i := i) hc
      (fun name h => hnl name (by simp [h])) (fun name h => hnd name (by simp [h, Code.dataLabels]))
    rw [Code.dataSize_cons]
    by_cases hsize : l.memory.size < l.cursor + i.dataSize
    · rw [if_pos hsize] at hplace
      rw [if_pos (by omega)]
      simp [placeAll, hplace, bind, Except.bind]
    · rw [if_neg hsize] at hplace
      obtain ⟨l₁, h₁⟩ := hplace
      have hext := place_extends h₁
      have hcursor : l₁.cursor = l.cursor + i.dataSize := by simpa using hext.cursor
      have hrest := ih (l := l₁) (by rw [hcursor, hext.size]; omega)
        (List.nodup_append.1 hl).2.1 (List.nodup_append.1 hd).2.1 ?_ ?_
      · rw [hcursor, hext.size, Nat.add_assoc] at hrest
        simpa only [placeAll, h₁, bind, Except.bind] using hrest
      · intro name hname
        have hnot : name ∉ Code.labels [i] := fun h => (List.nodup_append.1 hl).2.2 _ h _ hname rfl
        rw [hext.noLabel name hnot]
        exact hnl name (List.mem_append_right _ hname)
      · intro name hname
        have hnot : name ∉ Code.dataLabels [i] :=
          fun h => (List.nodup_append.1 hd).2.2 _ h _ hname rfl
        rw [hext.noDataLabel name hnot]
        exact hnd name (List.mem_append_right _ hname)

theorem unknownTarget?_eq_none {image : Image} :
    unknownTarget? image c = none ↔ ∀ i ∈ c, ∀ t, i.target? = some t →
      Image.isHostEntry t = true ∨ (image.label? t).isSome = true := by
  induction c with
  | nil => simp [unknownTarget?]
  | cons i c ih =>
    rw [unknownTarget?, List.forall_mem_cons, ← ih]
    split
    · next t ht =>
      rw [ht]
      by_cases hknown : Image.isHostEntry t = true ∨ (image.label? t).isSome = true
      · simp [hknown]
      · simp [hknown]
    · next ht => simp [ht]

theorem Extends.exists_label {name : String} (h : Extends l c l') (hname : name ∈ c.labels) :
    ∃ n, l'.image.label? name = some n := by
  obtain ⟨pre, post, hc⟩ := List.append_of_mem (Code.mem_labels.1 hname)
  exact ⟨_, h.newLabel pre name post hc⟩

theorem Extends.exists_dataLabel {name : String} (h : Extends l c l') (hname : name ∈ c.dataLabels) :
    ∃ n, l'.image.dataLabel? name = some n := by
  obtain ⟨pre, post, hc⟩ := List.append_of_mem (Code.mem_dataLabels.1 hname)
  exact ⟨_, h.newDataLabel pre name post hc⟩

end Loading

namespace Machine

variable {code : Code} {settings : MachineSettings} {m : Machine}

/-- Where the heap of a listing starts: at the first multiple of eight behind the data. -/
def heapBase (code : Code) : Nat := (code.dataSize + 7) / 8 * 8

structure Loaded (c : Code) (settings : MachineSettings) (m : Machine) : Prop where
  code : m.image.code.toList = c.executable
  label : ∀ pre name post, c = pre ++ .label name :: post →
    m.image.label? name = some (Code.executable pre).length
  dataLabel : ∀ pre name post, c = pre ++ .dLabel name :: post →
    m.image.dataLabel? name = some (Code.dataSize pre)
  noLabel : ∀ name, name ∉ c.labels → m.image.label? name = none
  size : m.memory.size = settings.memorySize.toNat
  heap : m.heap = .empty (heapBase c) (heapBase c + settings.heapSize.toNat)
  fits : heapBase c + settings.heapSize.toNat ≤ settings.memorySize.toNat

theorem load_ok (h : load code settings = .ok m) :
    ∃ l, (Loading.start settings.memorySize.toNat).placeAll code = .ok l ∧
      Loading.unknownTarget? l.image code = none ∧
      heapBase code + settings.heapSize.toNat ≤ settings.memorySize.toNat ∧
      m = ⟨l.image, l.memory, .empty (heapBase code) (heapBase code + settings.heapSize.toNat),
        [], 0, "", 0, false⟩ := by
  simp only [load, bind, Except.bind, throw, throwThe, MonadExceptOf.throw, pure, Except.pure] at h
  split at h
  · cases h
  · next l hl =>
    have hcursor : l.cursor = code.dataSize :=
      (Loading.placeAll_extends hl).cursor.trans (Nat.zero_add _)
    split at h
    · cases h
    · next hknown =>
      rw [hcursor] at h
      split at h
      · cases h
      · split at h
        · cases h
        · next hfits => exact ⟨l, hl, hknown, Nat.not_lt.1 hfits, (Except.ok.inj h).symm⟩

theorem load_loaded (h : load code settings = .ok m) : Loaded code settings m := by
  obtain ⟨l, hl, -, hfits, rfl⟩ := load_ok h
  have hext := Loading.placeAll_extends hl
  exact {
    code := by simpa [Loading.start] using hext.code
    label := fun pre name post heq => by
      simpa [Loading.start] using hext.newLabel pre name post heq
    dataLabel := fun pre name post heq => by
      simpa [Loading.start] using hext.newDataLabel pre name post heq
    noLabel := hext.noLabel
    size := hext.size
    heap := rfl
    fits := hfits }

def LoadsIfRoom (code : Code) (settings : MachineSettings) : Prop :=
  (∃ m, load code settings = .ok m) ∧ heapBase code < UInt32.size ∨
  load code settings = .error (.memoryLayout settings.memorySize.toNat) ∧
    (settings.memorySize.toNat < code.dataSize ∨ heapBase code < UInt32.size ∧
      settings.memorySize.toNat < heapBase code + settings.heapSize.toNat) ∨
  load code settings = .error (.overflow .multiply) ∧
    code.dataSize ≤ settings.memorySize.toNat ∧ UInt32.size ≤ heapBase code

theorem load_of_loadable (h : code.Loadable) (settings : MachineSettings) :
    LoadsIfRoom code settings := by
  have hplace := Loading.placeAll_of_nodup (l := .start settings.memorySize.toNat) (Nat.zero_le _)
    h.labels h.dataLabels (fun _ _ => rfl) (fun _ _ => rfl)
  have hcursor : (Loading.start settings.memorySize.toNat).cursor = 0 := rfl
  have hsize : (Loading.start settings.memorySize.toNat).memory.size = settings.memorySize.toNat := rfl
  rw [hcursor, hsize, Nat.zero_add] at hplace
  by_cases hfit : settings.memorySize.toNat < code.dataSize
  · rw [if_pos hfit] at hplace
    refine .inr (.inl ⟨?_, .inl hfit⟩)
    simp [load, hplace, bind, Except.bind]
  · rw [if_neg hfit] at hplace
    obtain ⟨l, hl⟩ := hplace
    have hext := Loading.placeAll_extends hl
    have hknown : Loading.unknownTarget? l.image code = none := by
      refine Loading.unknownTarget?_eq_none.2 fun i hi t ht => (h.targets i hi t ht).symm.imp_right ?_
      intro hdefined
      exact Option.isSome_iff_exists.2 (hext.exists_label hdefined)
    have hbase : (l.cursor + 7) / 8 * 8 = heapBase code := by
      rw [hext.cursor, hcursor, Nat.zero_add]
      rfl
    simp only [LoadsIfRoom, load, hl, hknown, hbase, bind, Except.bind, throw, throwThe,
      MonadExceptOf.throw, pure, Except.pure]
    split
    · next hover => exact .inr (.inr ⟨rfl, Nat.not_lt.1 hfit, hover⟩)
    · next hover =>
      split
      · next hlarge => exact .inr (.inl ⟨rfl, .inr ⟨Nat.not_le.1 hover, hlarge⟩⟩)
      · exact .inl ⟨⟨_, rfl⟩, Nat.not_le.1 hover⟩

theorem load_of_links (h : code.Links) (settings : MachineSettings) : LoadsIfRoom code settings :=
  load_of_loadable h.loadable settings

theorem load_of_fits (h : code.Links) {settings : MachineSettings}
    (hfits : heapBase code + settings.heapSize.toNat ≤ settings.memorySize.toNat) :
    ∃ m, load code settings = .ok m := by
  have hbase : heapBase code = (code.dataSize + 7) / 8 * 8 := rfl
  have hlt : settings.memorySize.toNat < UInt32.size := settings.memorySize.toNat_lt
  rcases load_of_links h settings with ⟨hload, -⟩ | ⟨-, hlarge⟩ | ⟨-, -, hover⟩
  · exact hload
  · omega
  · omega

end Machine
end IntervalStack
