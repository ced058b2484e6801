import ObjcAtlas.Image.Bytes
import ObjcAtlas.Image.Header

set_option autoImplicit false

namespace ObjcAtlas

structure UniversalMember where
  cpuType : UInt32
  subtype : UInt32
  bytes : List UInt8

namespace Universal

/-- Alignment of the members, as a power of two. -/
def alignBits : Nat := 14

def align : Nat := 1 <<< alignBits

def placeFrom : (offset : Nat) → List UniversalMember → List (UniversalMember × Nat)
  | _, [] => []
  | offset, m :: ms => (m, offset) :: placeFrom (offset + Bytes.roundUp align m.bytes.length) ms

def place (members : List UniversalMember) : List (UniversalMember × Nat) :=
  placeFrom align members

def entry (m : UniversalMember) (offset : Nat) : List UInt8 :=
  [m.cpuType.toNat, m.subtype.toNat, offset, m.bytes.length, alignBits].flatMap
    (ByteOrder.bytes .big 4)

def table (members : List UniversalMember) : List UInt8 :=
  ByteOrder.half .big Magic.universal ++ ByteOrder.bytes .big 4 members.length ++
    (place members).flatMap fun (m, offset) => entry m offset

def build (members : List UniversalMember) : List UInt8 :=
  (place members).foldl (fun out (m, offset) => Bytes.fit offset out ++ m.bytes) (table members)

end Universal

end ObjcAtlas
