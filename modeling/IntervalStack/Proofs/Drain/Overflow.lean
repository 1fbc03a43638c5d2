import IntervalStack.Proofs.Drain.Call
import IntervalStack.Proofs.ErrorHandlers

/-! What a program says when the worklist overflows. The texts of the message stand in the data of the
program outside of the storage of the worklist, so that the routines leave them alone. -/

namespace IntervalStack.Drain
open RefCounter

variable {counter : RefCounter} {structs : StructTable} {c : Code} {settings : MachineSettings}
  {m₀ m : Machine} {label text : String} {a : Nat}

/-- The listing has the reference counter, and all that it needs to report an overflow; the memory is
managed by the machine. -/
structure Serves (counter : RefCounter) (structs : StructTable) (c : Code) : Prop where
  data : counter.data <:+: c
  routines : counter.subroutines structs <:+: c
  errors : Environment.errorHandlers <:+: c
  format : Environment.dataString Environment.errorFormat "Runtime error: %s\n" <:+: c
  host : Environment.deallocateEntry ∉ c.labels

theorem Serves.message (h : Serves counter structs c) :
    Environment.dataString overflowMessage overflowText <:+: c :=
  (List.suffix_append (counter.data.take 4) _).isInfix.trans h.data

theorem split_text {pre post pre' post' : Code}
    (h : pre ++ (counter.data ++ post) = pre' ++ (Environment.dataString label text ++ post')) :
    (∃ rest, pre = pre' ++ Environment.dataString label text ++ rest) ∨
      ∃ rest, pre' = pre ++ counter.data.take 4 ++ rest := by
  rcases List.append_eq_append_iff.1 h with ⟨x, rfl, hx⟩ | ⟨x, rfl, hx⟩
  · -- The text would start within the storage.
    rcases x with _ | ⟨i, _ | ⟨j, _ | ⟨k, _ | ⟨l, x⟩⟩⟩⟩
    case cons.cons.cons.cons =>
      refine .inr ⟨x, ?_⟩
      simp only [data, Environment.dataString, List.cons_append, List.cons.injEq] at hx
      obtain ⟨rfl, rfl, rfl, rfl, -⟩ := hx
      simp [data]
    all_goals
      simp only [data, Environment.dataString, List.cons_append, List.nil_append, List.cons.injEq,
        Instr.dLabel.injEq, reduceCtorEq, false_and, and_false] at hx
  · rcases x with _ | ⟨i, _ | ⟨i', x⟩⟩
    case cons.cons =>
      refine .inl ⟨x, ?_⟩
      simp only [Environment.dataString, List.cons_append, List.nil_append, List.cons.injEq] at hx
      obtain ⟨rfl, rfl, -⟩ := hx
      simp [Environment.dataString]
    all_goals
      simp only [data, Environment.dataString, List.cons_append, List.nil_append, List.cons.injEq,
        Instr.dLabel.injEq, reduceCtorEq, false_and, and_false] at hx

theorem Site.text_apart (S : Site counter structs m₀.image) (hl : Machine.Loaded c settings m₀)
    (hdata : counter.data <:+: c) (htext : Environment.dataString label text <:+: c)
    (ha : m₀.image.dataLabel? label = some a) :
    (a + (Instr.dataS text).dataSize ≤ S.worklist ∨ S.index + 4 ≤ a) ∧
      a + (Instr.dataS text).dataSize ≤ m₀.heap.base := by
  obtain ⟨pre, post, hc⟩ := hdata
  obtain ⟨pre', post', hc'⟩ := htext
  rw [List.append_assoc] at hc hc'
  have hworklist := hl.dataLabel pre RefCounter.worklist (counter.data.drop 1 ++ post)
    (by rw [← hc]; simp [data])
  have hindex := hl.dataLabel (pre ++ counter.data.take 2) worklistIndex (counter.data.drop 3 ++ post)
    (by rw [← hc]; simp [data])
  have hlabel := hl.dataLabel pre' label (.dataS text :: post') (by rw [← hc']; rfl)
  obtain rfl := Option.some.inj (ha.symm.trans hlabel)
  have hworklist : S.worklist = Code.dataSize pre := Option.some.inj (S.hworklist.symm.trans hworklist)
  have hindex : S.index = Code.dataSize (pre ++ counter.data.take 2) :=
    Option.some.inj (S.hindex.symm.trans hindex)
  have hstring : Code.dataSize (Environment.dataString label text) = (Instr.dataS text).dataSize := by
    rw [Environment.dataString, Code.dataSize_cons, Code.dataSize_cons]
    exact Nat.zero_add _
  constructor
  · rcases split_text (hc.trans hc'.symm) with ⟨rest, rfl⟩ | ⟨rest, rfl⟩
    · left
      rw [hworklist, Code.dataSize_append, Code.dataSize_append, hstring]
      exact Nat.le_add_right _ _
    · right
      have hword : Code.dataSize (counter.data.take 4) = Code.dataSize (counter.data.take 2) + 4 := by
        show Code.dataSize (counter.data.take 2 ++ [.dLabel worklistIndex, .dataZ Layout.pointerSize]) = _
        rw [Code.dataSize_append]
        rfl
      rw [hindex, Code.dataSize_append, Code.dataSize_append, Code.dataSize_append, hword]
      omega
  · rw [hl.heap]
    show _ ≤ (Code.dataSize c + 7) / 8 * 8
    rw [← hc', Code.dataSize_append, Code.dataSize_append, hstring]
    omega

theorem Site.shows_of_keeps (S : Site counter structs m₀.image) (hl : Machine.Loaded c settings m₀)
    (hdata : counter.data <:+: c) (htext : Environment.dataString label text <:+: c)
    {m' : Machine} (himage : m.image = m₀.image) (himage' : m'.image = m₀.image)
    (hsize : m'.memory.size = m.memory.size)
    (hget : ∀ b < m₀.heap.base, ¬ S.Owns b → m'.memory.get b = m.memory.get b)
    (h : m.Shows label text) : m'.Shows label text := by
  refine h.of_get (himage'.trans himage.symm) hsize fun a ha i hi => hget _ ?_ ?_
  all_goals
    rw [himage] at ha
    have hapart := S.text_apart hl hdata htext ha
    have horder := S.apart
  · omega
  · rw [Owns]
    omega

theorem Site.overflow_placed (S : Site counter structs m₀.image) (hl : Machine.Loaded c settings m₀)
    (hroutines : counter.subroutines structs <:+: c) : Placed m₀.image S.overflowAt
      [.label overflowHandler, .pushD overflowMessage, .jump Environment.generalError] := by
  obtain ⟨pre, post, hc⟩ := hroutines
  have hplaced : Placed m₀.image _ (counter.subroutines structs) := hl.placed hc.symm
  have hat := hplaced.right
  rwa [Option.some.inj (S.hoverflow.symm.trans hat.head)]

theorem Site.overflow_reports (S : Site counter structs m₀.image) (hl : Machine.Loaded c settings m₀)
    (hroutines : counter.subroutines structs <:+: c) (herrors : Environment.errorHandlers <:+: c)
    (himage : m.image = m₀.image) (hpc : m.pc = S.overflowAt) (hrunning : m.halted = false)
    (hsize : m.memory.size ≤ UInt32.size)
    (hformat : m.Shows Environment.errorFormat "Runtime error: %s\n")
    (htext : m.Shows overflowMessage overflowText) : ∃ m', Machine.Reports m m' overflowText := by
  obtain ⟨pre, post, hc⟩ := herrors
  have herrors : Placed m₀.image _ Environment.errorHandlers := hl.placed hc.symm
  have hat : Placed m.image m.pc
      [.label overflowHandler, .pushD overflowMessage, .jump Environment.generalError] := by
    rw [hpc, himage]
    exact S.overflow_placed hl hroutines
  rw [← himage] at herrors
  exact Machine.message_reports herrors (hat.code 0 _ rfl) (hat.code 1 _ rfl) hrunning hsize hformat
    htext (by decide)

end IntervalStack.Drain
