import IntervalStack.RefCounter

/-! The routine that carries out the scheduled decrements, cut into its sections. -/

namespace IntervalStack.RefCounter

def drainTop : String := "-rctr-drain-loop"
def drainDone : String := "-rctr-drain-done"
def drainLive : String := "-rctr-drain-still-live"
def drainFree : String := "-rctr-drain-free"
def releaseNested : String := "-rctr-release-nested"

def parents (structs : StructTable) : List StructLayout :=
  structs.layouts.filter (!·.referenceSlots.isEmpty)

def takeCode : Code :=
  loadIndex ++ [.jumpFalse drainDone] ++ bumpIndex (-1) ++ slotAddress ++ [.loadI]

def decrementCode : Code :=
  [.duplicate, .duplicate, .loadI, .pushI 1, .subtract, .storeI, .duplicate, .loadI,
    .jumpPos drainLive]

def kindCode : Code :=
  [.duplicate, .pushI Layout.typeCodeOffset, .add, .loadI,
    .duplicate, .pushI Layout.nestedIntervalCode, .subtract, .jumpFalse releaseNested]

def dispatchCode (ls : List StructLayout) : Code :=
  ls.flatMap fun s =>
    [.duplicate, .pushI s.typeCode, .subtract, .jumpFalse (structRelease s.typeCode)]

def childrenCode (slots : List Int32) : Code := slots.flatMap pushChild

def boundSlots : List Int32 :=
  [Layout.payloadOffset, Layout.payloadOffset + Layout.pointerSize.toInt32]

def releaseCode (label : String) (slots : List Int32) : Code :=
  [.label label, .pop] ++ childrenCode slots ++ [.jump drainFree]

def releasesCode (ls : List StructLayout) : Code :=
  ls.flatMap fun s => releaseCode (structRelease s.typeCode) s.referenceSlots

def roundEnds : Code :=
  [.label drainFree, .call Environment.deallocateEntry, .jump drainTop,
    .label drainLive, .pop, .jump drainTop,
    .label drainDone, .ret]

theorem drainCode_eq (structs : StructTable) :
    drainCode structs = [.label drainRoutine, .label drainTop] ++ takeCode ++ decrementCode
      ++ kindCode ++ dispatchCode (parents structs) ++ [.pop, .jump drainFree]
      ++ releaseCode releaseNested boundSlots ++ releasesCode (parents structs) ++ roundEnds := by
  simp only [drainCode, takeCode, decrementCode, kindCode, dispatchCode, releaseCode, childrenCode,
    boundSlots, releasesCode, roundEnds, parents, List.append_assoc, List.cons_append,
    List.nil_append, List.flatMap_cons, List.flatMap_nil, List.append_nil]
  rfl

end IntervalStack.RefCounter
