import ObjcAtlas.Image.Reader

set_option autoImplicit false

namespace ObjcAtlas.Reader

/-- Bytes that 64 bits can take. -/
def maxLeb : Nat := 10

/-- The rest of an unsigned number: `left` bytes may follow, the next of them counts for
    `2 ^ shift`, and `value` is what the bytes before it add up to. -/
def ulebFrom (r : Reader) : (left offset shift value : Nat) → Except ImageError (Nat × Nat)
  | 0, offset, _, _ => do
    let _ ← r.u8 offset
    .error (.badValue "ULEB128 overflow")
  | left + 1, offset, shift, value => do
    let byte ← r.u8 offset
    let low := byte.toNat % 128
    if shift = 63 ∧ 1 < low then .error (.badValue "ULEB128 overflow")
    else if byte.toNat < 128 then .ok (value + low <<< shift, shift / 7 + 1)
    else ulebFrom r left (offset + 1) (shift + 7) (value + low <<< shift)

/-- An unsigned number and the bytes it takes; numbers above 64 bits are refused. -/
def uleb (r : Reader) (offset : Nat) : Except ImageError (UInt64 × Nat) :=
  (ulebFrom r maxLeb offset 0 0).map fun (value, length) => (UInt64.ofNat value, length)

/-- The rest of a signed number, modulo `2 ^ 64`: the top bit of its last seven fills the bits
    above them, if there are any. -/
def slebFrom (r : Reader) : (left offset shift value : Nat) → Except ImageError (Nat × Nat)
  | 0, offset, _, _ => do
    let _ ← r.u8 offset
    .error (.badValue "SLEB128 overflow")
  | left + 1, offset, shift, value => do
    let byte ← r.u8 offset
    let value := value + (byte.toNat % 128) <<< shift
    if byte.toNat < 128 then
      if 64 ≤ byte.toNat then .ok (value + (UInt64.size - 1 <<< (shift + 7)), shift / 7 + 1)
      else .ok (value, shift / 7 + 1)
    else slebFrom r left (offset + 1) (shift + 7) value

/-- A signed number and the bytes it takes; bits above the sixty-fourth are lost. -/
def sleb (r : Reader) (offset : Nat) : Except ImageError (Int64 × Nat) :=
  (slebFrom r maxLeb offset 0 0).map fun (value, length) =>
    ((UInt64.ofNat value).toInt64, length)

end ObjcAtlas.Reader
