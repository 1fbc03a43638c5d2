/-! Label texts. Labels that belong to one place of a program carry a number that is handed out
once. -/

namespace IntervalStack

structure Labels where
  count : Nat
deriving DecidableEq, Inhabited

namespace Labels

def none : Labels := ⟨0⟩

def fresh (labels : Labels) (stem : String) : String × Labels :=
  ("-" ++ stem ++ "-" ++ toString (labels.count + 1), ⟨labels.count + 1⟩)

def part (group part : String) : String := group ++ "-" ++ part

end Labels
end IntervalStack
