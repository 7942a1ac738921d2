import CommonDecl.Fault

/-!
# Qualifiers by position

Positions and counts are words of 64 bits. An edit whose end would lie past the last qualifier is
refused, also where position and count together exceed a word.
-/

namespace CommonDecl

/-- The sum of two words, where it is a word. -/
def checkedAdd (a b : UInt64) : Option UInt64 :=
  if a + b < a then none else some (a + b)

/-- The sum of two words, or the greatest word where the sum exceeds it. -/
def saturatingAdd (a b : UInt64) : UInt64 :=
  (checkedAdd a b).getD 0xFFFFFFFFFFFFFFFF

namespace Qualifiers

/-- The qualifier at a position. -/
def get (qualifiers : Qualifiers) (position : UInt64) : Except Fault String :=
  match qualifiers.toList[position.toNat]? with
  | some name => .ok name
  | none => .error (.outOfRange position.toNat qualifiers.count)

/-- The qualifiers with one more at a position, which may be the end. -/
def addAt (qualifiers : Qualifiers) (name : String) (position : UInt64) : Except Fault Qualifiers :=
  if qualifiers.count < position.toNat then
    .error (.outOfRange position.toNat qualifiers.count)
  else .ok ⟨qualifiers.toList.insertIdx position.toNat name⟩

/-- The qualifiers without the `length` ones from a position on. The fault names the last position
asked for. -/
def removeRange (qualifiers : Qualifiers) (position length : UInt64) : Except Fault Qualifiers :=
  match checkedAdd position length with
  | some stop =>
    if stop.toNat ≤ qualifiers.count then
      .ok ⟨qualifiers.toList.take position.toNat ++ qualifiers.toList.drop stop.toNat⟩
    else .error (.outOfRange (stop.toNat - 1) qualifiers.count)
  | none => .error (.outOfRange ((saturatingAdd position length).toNat - 1) qualifiers.count)

end Qualifiers

end CommonDecl
