import InstallPolicy.Bytes

/-!
Upper-case hexadecimal text: two digits a byte, the high half first.
-/

namespace InstallPolicy.Bytes

/-- The hexadecimal digit of a number below sixteen, in upper case. -/
def hexDigit (n : Nat) : Char :=
  if n < 10 then Char.ofNat (48 + n) else Char.ofNat (55 + n)

def hexDigits (bs : Bytes) : List Char :=
  bs.flatMap fun b => [hexDigit (b.toNat / 16), hexDigit (b.toNat % 16)]

def toHex (bs : Bytes) : String := String.ofList (hexDigits bs)

theorem length_hexDigits (bs : Bytes) : (hexDigits bs).length = 2 * bs.length := by
  induction bs with
  | nil => rfl
  | cons b bs ih => simp_all [hexDigits]; omega

@[simp] theorem toList_toHex (bs : Bytes) : (toHex bs).toList = hexDigits bs := by
  simp [toHex]

end InstallPolicy.Bytes
