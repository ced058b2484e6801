set_option autoImplicit false

namespace ObjcAtlas.Text

def hexDigits (n : Nat) : String := String.ofList (Nat.toDigits 16 n)

def hex (n : Nat) : String := "0x" ++ hexDigits n

def padLeft (fill : Char) (width : Nat) (s : String) : String :=
  String.ofList (List.replicate (width - s.length) fill) ++ s

def padRight (width : Nat) (s : String) : String :=
  s ++ String.ofList (List.replicate (width - s.length) ' ')

/-- Hexadecimal with its mark, zeros between them up to `width` characters in all. -/
def hexPadded (width n : Nat) : String := "0x" ++ padLeft '0' (width - 2) (hexDigits n)

def byteHex (b : UInt8) : String := padLeft '0' 2 (hexDigits b.toNat)

def bytesHex (bytes : List UInt8) : String := String.join (bytes.map byteHex)

def decimalValue (digits : List Char) : Nat :=
  digits.foldl (fun n c => 10 * n + (c.toNat - '0'.toNat)) 0

def decimal (n : Nat) : String := String.ofList (Nat.toDigits 10 n)

def decimalInt (i : Int) : String := if i < 0 then "-" ++ decimal i.natAbs else decimal i.natAbs

def hexDigitValue? (c : Char) : Option Nat :=
  if '0' ≤ c ∧ c ≤ '9' then some (c.toNat - '0'.toNat)
  else if 'a' ≤ c ∧ c ≤ 'f' then some (c.toNat - 'a'.toNat + 10)
  else if 'A' ≤ c ∧ c ≤ 'F' then some (c.toNat - 'A'.toNat + 10)
  else none

/-- Value of a hexadecimal digit string; refuses the empty one. -/
def hexValue? : List Char → Option Nat
  | [] => none
  | c :: cs => do
    let digits ← (c :: cs).mapM hexDigitValue?
    pure (digits.foldl (fun n d => 16 * n + d) 0)

end ObjcAtlas.Text
