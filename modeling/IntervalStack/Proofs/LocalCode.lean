import IntervalStack.Proofs.StmtEmission

/-! Code that is run through from one end to the other. -/

namespace IntervalStack

def Instr.isLocal : Instr → Bool
  | .label _ | .ret | .halt | .jump _ | .jumpTrue _ | .jumpFalse _ | .jumpPos _ | .jumpNeg _
  | .jumpFZero _ | .jumpFPos _ | .jumpFNeg _ | .call _ => false
  | _ => true

namespace Generator

variable {ty : Ty} {i : Instr} {c : Code}

theorem displaced_local {base : Code} (h : base.all Instr.isLocal = true) (offset : Int32) :
    (Frame.displaced base offset).all Instr.isLocal = true := by
  unfold Frame.displaced
  split
  · exact h
  · simp [h, Instr.isLocal]

theorem storageAddress_local {storage : Storage} {selfSlot : Option Int32}
    (h : Frame.storageAddress? cells storage selfSlot = some c) : c.all Instr.isLocal = true := by
  unfold Frame.storageAddress? at h
  split at h
  · cases h
    exact displaced_local rfl _
  · cases h
    exact displaced_local rfl _
  · cases h
    exact displaced_local rfl _
  · obtain ⟨slot, -, rfl⟩ := Option.map_eq_some_iff.1 h
    exact displaced_local rfl _

theorem load_local (h : Instr.load? ty = some i) : i.isLocal = true := by
  cases ty <;> cases h <;> rfl

theorem store_local (h : Instr.store? ty = some i) : i.isLocal = true := by
  cases ty <;> cases h <;> rfl

theorem pushArgument_local (ty : Ty) : (Frame.pushArgument cells ty).all Instr.isLocal = true := by
  cases ty <;> rfl

theorem fetchResult_local (ty : Ty) : (Frame.fetchResult cells ty).all Instr.isLocal = true := by
  cases ty <;> rfl

theorem prologue_local {size : UInt32} (h : Frame.prologue cells size = .ok c) :
    c.all Instr.isLocal = true := by
  simp only [Frame.prologue, bind, Except.bind] at h
  split at h
  · cases h
  split at h
  · cases h
  cases h
  rfl

theorem epilogue_local {locals params : UInt32}
    (h : Frame.epilogue cells locals params ty = .ok c) :
    ∃ c', c = c' ++ [.ret] ∧ c'.all Instr.isLocal = true := by
  simp only [Frame.epilogue, bind, Except.bind] at h
  split at h
  · cases h
  split at h
  · cases h
  cases ty <;> simp only [Instr.store?] at h
  case void =>
    cases h
    exact ⟨_, rfl, rfl⟩
  all_goals
    split at h
    · cases h
    · cases h
      rw [List.append_cons _ _ [_, _], List.append_cons _ _ [_]]
      exact ⟨_, rfl, rfl⟩

end Generator
end IntervalStack
