import ObjcAtlas.Image.Arch

set_option autoImplicit false

namespace ObjcAtlas

inductive FileType where
  | object | execute | dylib | dylinker | bundle | dsym | kextBundle
  | other (n : UInt32)
deriving DecidableEq, Repr

namespace FileType

def ofCode (n : UInt32) : FileType :=
  if n = 1 then .object
  else if n = 2 then .execute
  else if n = 6 then .dylib
  else if n = 7 then .dylinker
  else if n = 8 then .bundle
  else if n = 10 then .dsym
  else if n = 11 then .kextBundle
  else .other n

def name : FileType → String
  | .object => "Object" | .execute => "Execute" | .dylib => "Dylib" | .dylinker => "Dylinker"
  | .bundle => "Bundle" | .dsym => "Dsym" | .kextBundle => "KextBundle"
  | .other n => "Other(" ++ Text.decimal n.toNat ++ ")"

end FileType

namespace Magic

/-- The first four bytes as a number in the given order; zero when there are fewer. -/
def first (order : ByteOrder) (bytes : ByteArray) : UInt32 :=
  if bytes.size < 4 then 0
  else UInt32.ofNat (order.value (bytes.extract 0 4).data.toList)

def image : Bitness → UInt32
  | .bits32 => 0xFEEDFACE
  | .bits64 => 0xFEEDFACF

/-- Width and order that a magic number read in little-endian order declares. -/
def classify (magic : UInt32) : Option (Bitness × ByteOrder) :=
  if magic = 0xFEEDFACE then some (.bits32, .little)
  else if magic = 0xCEFAEDFE then some (.bits32, .big)
  else if magic = 0xFEEDFACF then some (.bits64, .little)
  else if magic = 0xCFFAEDFE then some (.bits64, .big)
  else none

/-- Magic number of a universal file with 32-bit offsets, in big-endian order. -/
def universal : UInt32 := 0xCAFEBABE

/-- Offset width and order that a universal file's magic, read in big-endian order, declares. -/
def classifyUniversal (magic : UInt32) : Option (Bitness × ByteOrder) :=
  if magic = 0xCAFEBABE then some (.bits32, .big)
  else if magic = 0xBEBAFECA then some (.bits32, .little)
  else if magic = 0xCAFEBABF then some (.bits64, .big)
  else if magic = 0xBFBAFECA then some (.bits64, .little)
  else none

end Magic

def isUniversal (bytes : ByteArray) : Bool :=
  (Magic.classifyUniversal (Magic.first .big bytes)).isSome

inductive Container where
  | image | universal | unknown
deriving DecidableEq, Repr

namespace Container

def detect (bytes : ByteArray) : Container :=
  if isUniversal bytes then .universal
  else if (Magic.classify (Magic.first .little bytes)).isSome then .image
  else .unknown

end Container

structure Header where
  /-- As read in little-endian order. -/
  magic : UInt32
  bits : Bitness
  order : ByteOrder
  cpuType : UInt32
  subtype : UInt32
  fileType : FileType
  commandCount : UInt32
  commandsSize : UInt32
  flags : UInt32
deriving DecidableEq, Repr

namespace Header

def sizeFor : Bitness → Nat
  | .bits32 => 28
  | .bits64 => 32

def size (h : Header) : Nat := sizeFor h.bits

def architecture (h : Header) : Architecture := .ofCpu h.cpuType h.subtype

def read (bytes : ByteArray) : Except ImageError Header := do
  if bytes.size < 28 then throw (.tooShort 28 bytes.size)
  let magic := Magic.first .little bytes
  let some (bits, order) := Magic.classify magic
    | throw (.badMagic "Mach-O" (bytes.extract 0 4).data.toList)
  if bytes.size < sizeFor bits then throw (.tooShort (sizeFor bits) bytes.size)
  let r : Reader := ⟨bytes, order⟩
  return {
    magic, bits, order
    cpuType := ← r.u32 4
    subtype := ← r.u32 8
    fileType := .ofCode (← r.u32 12)
    commandCount := ← r.u32 16
    commandsSize := ← r.u32 20
    flags := ← r.u32 24 }

end Header

structure Placement where
  cpuType : UInt32
  subtype : UInt32
  offset : UInt64
  size : UInt64
  /-- Alignment, as a power of two. -/
  align : UInt32
deriving DecidableEq, Repr

namespace Placement

def architecture (p : Placement) : Architecture := .ofCpu p.cpuType p.subtype

def entrySize : Bitness → Nat
  | .bits32 => 20
  | .bits64 => 32

def read (r : Reader) (bits : Bitness) (offset : Nat) : Except ImageError Placement := do
  let p := bits.pointerSize
  return {
    cpuType := ← r.u32 offset
    subtype := ← r.u32 (offset + 4)
    offset := ← r.pointer bits (offset + 8)
    size := ← r.pointer bits (offset + 8 + p)
    align := ← r.u32 (offset + 8 + 2 * p) }

/-- The table of a universal file. The whole table has to fit before any entry is read. -/
def readTable (bytes : ByteArray) : Except ImageError (List Placement) := do
  if bytes.size < 8 then throw (.tooShort 8 bytes.size)
  let some (bits, order) := Magic.classifyUniversal (Magic.first .big bytes)
    | throw (.badMagic "fat Mach-O" (bytes.extract 0 4).data.toList)
  let r : Reader := ⟨bytes, order⟩
  let count := (← r.u32 4).toNat
  let tableEnd := 8 + count * entrySize bits
  if bytes.size < tableEnd then throw (.tooShort tableEnd bytes.size)
  (List.range count).mapM fun i => read r bits (8 + i * entrySize bits)

def list (bytes : ByteArray) : Except ImageError (List Placement) :=
  if isUniversal bytes then readTable bytes else .ok []

end Placement

end ObjcAtlas
