import ObjcAtlas.Image.Error
import ObjcAtlas.Text.Utf8

set_option autoImplicit false

/-!
# Bounded reads

A reader is a byte string with a byte order. Every read checks that it stays inside, so a read
either gives what the bytes say or names the exact stretch that is missing. `ByteOrder.bytes`
writes what `ByteOrder.value` reads.
-/
namespace ObjcAtlas

inductive Bitness where
  | bits32 | bits64
deriving DecidableEq, Repr

namespace Bitness

def pointerSize : Bitness → Nat
  | .bits32 => 4
  | .bits64 => 8

def label : Bitness → String
  | .bits32 => "Bits32"
  | .bits64 => "Bits64"

end Bitness

inductive ByteOrder where
  | little | big
deriving DecidableEq, Repr

namespace ByteOrder

def label : ByteOrder → String
  | .little => "Little"
  | .big => "Big"

/-- Value of bytes whose first is the least significant. -/
def littleValue : List UInt8 → Nat
  | [] => 0
  | b :: bs => b.toNat + 256 * littleValue bs

def value : ByteOrder → List UInt8 → Nat
  | .little, bytes => littleValue bytes
  | .big, bytes => littleValue bytes.reverse

def littleBytes : (width n : Nat) → List UInt8
  | 0, _ => []
  | width + 1, n => UInt8.ofNat n :: littleBytes width (n / 256)

def bytes : ByteOrder → (width n : Nat) → List UInt8
  | .little, width, n => littleBytes width n
  | .big, width, n => (littleBytes width n).reverse

theorem littleBytes_length (width n : Nat) : (littleBytes width n).length = width := by
  induction width generalizing n with
  | zero => rfl
  | succ width ih => simp [littleBytes, ih]

theorem one_shiftLeft_byte (width : Nat) : 1 <<< (8 * (width + 1)) = 256 * 1 <<< (8 * width) := by
  rw [Nat.mul_succ, Nat.shiftLeft_add, Nat.shiftLeft_eq _ 8, Nat.mul_comm]

theorem littleValue_littleBytes (width n : Nat) :
    littleValue (littleBytes width n) = n % (1 <<< (8 * width)) := by
  induction width generalizing n with
  | zero => simp [littleBytes, littleValue, Nat.mod_one]
  | succ width ih =>
    rw [littleBytes, littleValue, ih, one_shiftLeft_byte, Nat.mod_mul]
    simp

theorem value_bytes (order : ByteOrder) (width n : Nat) :
    order.value (order.bytes width n) = n % (1 <<< (8 * width)) := by
  cases order <;> simp [value, bytes, littleValue_littleBytes]

theorem bytes_length (order : ByteOrder) (width n : Nat) :
    (order.bytes width n).length = width := by
  cases order <;> simp [bytes, littleBytes_length]

end ByteOrder

structure Reader where
  bytes : ByteArray
  order : ByteOrder

namespace Reader

def size (r : Reader) : Nat := r.bytes.size

def slice (r : Reader) (offset length : Nat) : Except ImageError ByteArray :=
  if offset + length ≤ r.size then .ok (r.bytes.extract offset (offset + length))
  else .error (.outOfBounds offset length r.size)

def sub (r : Reader) (offset length : Nat) : Except ImageError Reader :=
  (r.slice offset length).map fun bytes => ⟨bytes, r.order⟩

def number (r : Reader) (width offset : Nat) : Except ImageError Nat :=
  (r.slice offset width).map fun bytes => r.order.value bytes.data.toList

def u8 (r : Reader) (offset : Nat) : Except ImageError UInt8 :=
  (r.number 1 offset).map UInt8.ofNat

def u16 (r : Reader) (offset : Nat) : Except ImageError UInt16 :=
  (r.number 2 offset).map UInt16.ofNat

def u32 (r : Reader) (offset : Nat) : Except ImageError UInt32 :=
  (r.number 4 offset).map UInt32.ofNat

def u64 (r : Reader) (offset : Nat) : Except ImageError UInt64 :=
  (r.number 8 offset).map UInt64.ofNat

def i32 (r : Reader) (offset : Nat) : Except ImageError Int32 :=
  (r.u32 offset).map UInt32.toInt32

def pointer (r : Reader) (bits : Bitness) (offset : Nat) : Except ImageError UInt64 :=
  (r.number bits.pointerSize offset).map UInt64.ofNat

/-- The byte at `i`, zero past the end. -/
def byteAt (bytes : ByteArray) (i : Nat) : UInt8 :=
  if h : i < bytes.size then bytes[i] else 0

/-- The first zero byte among the `count` bytes from `i` on. -/
def zeroFrom (bytes : ByteArray) : (count i : Nat) → Option Nat
  | 0, _ => none
  | count + 1, i => if byteAt bytes i = 0 then some i else zeroFrom bytes count (i + 1)

def untilZero (r : Reader) (offset : Nat) : Except ImageError (List UInt8) :=
  if r.size < offset then .error (.outOfBounds offset 0 r.size)
  else match zeroFrom r.bytes (r.size - offset) offset with
    | some stop => .ok (r.bytes.extract offset stop).data.toList
    | none => .error (.outOfBounds offset (r.size - offset + 1) r.size)

def cstring (r : Reader) (offset : Nat) : Except ImageError String :=
  (r.untilZero offset).map Utf8.decodeLossy

end Reader

/-- The text in a field that a zero byte or its end closes. -/
def fieldText (bytes : ByteArray) : String :=
  Utf8.decodeLossy (bytes.data.toList.takeWhile (· != 0))

end ObjcAtlas
