import ObjcAtlas.Image.Arch

set_option autoImplicit false

namespace ObjcAtlas

namespace ByteOrder

def half (o : ByteOrder) (n : UInt32) : List UInt8 := o.bytes 4 n.toNat

/-- A pointer-sized field; 32-bit ones keep the lower half. -/
def word (o : ByteOrder) (bits : Bitness) (n : UInt64) : List UInt8 :=
  o.bytes bits.pointerSize n.toNat

end ByteOrder

namespace Bytes

def zeros (n : Nat) : List UInt8 := List.replicate n 0

def pad (n : Nat) (bytes : List UInt8) : List UInt8 := bytes ++ zeros (n - bytes.length)

def fit (n : Nat) (bytes : List UInt8) : List UInt8 := pad n (bytes.take n)

def roundUp (unit n : Nat) : Nat := (n + unit - 1) / unit * unit

/-- Replaces bytes from `offset` on, growing the list where they stand out. -/
def overlay (bytes : List UInt8) (offset : Nat) (patch : List UInt8) : List UInt8 :=
  let grown := pad (offset + patch.length) bytes
  grown.take offset ++ patch ++ grown.drop (offset + patch.length)

def name (s : String) : List UInt8 := fit 16 (Utf8.encode s)

def cstring (s : String) : List UInt8 := Utf8.encode s ++ [0]

theorem length_pad (n : Nat) (bytes : List UInt8) :
    (pad n bytes).length = max n bytes.length := by
  simp only [pad, zeros, List.length_append, List.length_replicate]
  omega

theorem length_fit (n : Nat) (bytes : List UInt8) : (fit n bytes).length = n := by
  rw [fit, length_pad, List.length_take]
  omega

theorem length_name (s : String) : (name s).length = 16 := length_fit ..

end Bytes

end ObjcAtlas
