import ObjcAtlas.Image.Reader

set_option autoImplicit false

namespace ObjcAtlas

structure Section where
  name : String
  segmentName : String
  address : UInt64
  size : UInt64
  offset : UInt32
  /-- Alignment, as a power of two. -/
  align : UInt32
  relocationOffset : UInt32
  relocationCount : UInt32
  flags : UInt32
  reserved1 : UInt32
  reserved2 : UInt32
  reserved3 : UInt32
deriving DecidableEq, Repr

structure Segment where
  name : String
  address : UInt64
  size : UInt64
  fileOffset : UInt64
  fileSize : UInt64
  maxProtection : UInt32
  protection : UInt32
  flags : UInt32
  sections : List Section
deriving DecidableEq, Repr

namespace Section

def entrySize : Bitness → Nat
  | .bits32 => 68
  | .bits64 => 80

def read (bits : Bitness) (r : Reader) (base : Nat) : Except ImageError Section := do
  let p := bits.pointerSize
  let rest := base + 32 + 2 * p
  return {
    name := fieldText (← r.slice base 16)
    segmentName := fieldText (← r.slice (base + 16) 16)
    address := ← r.pointer bits (base + 32)
    size := ← r.pointer bits (base + 32 + p)
    offset := ← r.u32 rest
    align := ← r.u32 (rest + 4)
    relocationOffset := ← r.u32 (rest + 8)
    relocationCount := ← r.u32 (rest + 12)
    flags := ← r.u32 (rest + 16)
    reserved1 := ← r.u32 (rest + 20)
    reserved2 := ← r.u32 (rest + 24)
    reserved3 := ← match bits with
      | .bits32 => pure 0
      | .bits64 => r.u32 (rest + 28) }

def fullName (s : Section) : String := s.segmentName ++ "." ++ s.name

/-- Flags of a section that takes no room in the file. -/
def zerofillFlag : UInt32 := 1

def isZerofill (s : Section) : Bool :=
  let kind := s.flags &&& 0xFF
  kind == zerofillFlag || kind == 0xC || kind == 0x12

def isExecutable (s : Section) : Bool := s.flags &&& 0x80000400 != 0

def data (s : Section) (r : Reader) : Except ImageError ByteArray :=
  if s.isZerofill then .ok .empty else r.slice s.offset.toNat s.size.toNat

end Section

namespace Segment

def headerSize : Bitness → Nat
  | .bits32 => 56
  | .bits64 => 72

def readSections (bits : Bitness) (r : Reader) (count : Nat) :
    Except ImageError (List Section) :=
  let needed := headerSize bits + count * Section.entrySize bits
  if r.size < needed then
    .error (.badStructure "segment" 0 (Text.decimal count ++ " sections need " ++
      Text.decimal needed ++ " bytes, command has " ++ Text.decimal r.size))
  else
    (List.range count).mapM fun i =>
      Section.read bits r (headerSize bits + i * Section.entrySize bits)

/-- Reads a segment command; `r` holds all of it. -/
def read (bits : Bitness) (r : Reader) : Except ImageError Segment := do
  if r.size < headerSize bits then throw (.tooShort (headerSize bits) r.size)
  let p := bits.pointerSize
  let rest := 24 + 4 * p
  let sections ← readSections bits r (← r.u32 (rest + 8)).toNat
  return {
    name := fieldText (← r.slice 8 16)
    address := ← r.pointer bits 24
    size := ← r.pointer bits (24 + p)
    fileOffset := ← r.pointer bits (24 + 2 * p)
    fileSize := ← r.pointer bits (24 + 3 * p)
    maxProtection := ← r.u32 rest
    protection := ← r.u32 (rest + 4)
    flags := ← r.u32 (rest + 12)
    sections }

def fileEnd (s : Segment) : Nat := s.fileOffset.toNat + s.fileSize.toNat

def addressEnd (s : Segment) : Nat := s.address.toNat + s.size.toNat

/-- Checks one section against its segment and the size of the image. -/
def checkSection (s : Segment) (imageSize : Nat) (t : Section) : Except ImageError Unit := do
  let addressEnd := t.address.toNat + t.size.toNat
  if UInt64.size ≤ addressEnd then throw (.overflow "section VM range")
  if t.address < s.address ∨ s.addressEnd < addressEnd then
    throw (.badStructure "section" t.offset.toNat
      (t.fullName ++ " lies outside its segment " ++ s.name))
  if !t.isZerofill && t.size != 0 then
    let fileEnd := t.offset.toNat + t.size.toNat
    if UInt64.size ≤ fileEnd then throw (.overflow "section file range")
    if imageSize < fileEnd then
      throw (.badStructure "section" t.offset.toNat (t.fullName ++ " file range past image end"))

def check (s : Segment) (imageSize : Nat) : Except ImageError Unit := do
  if UInt64.size ≤ s.fileEnd then throw (.overflow "segment file range")
  if UInt64.size ≤ s.addressEnd then throw (.overflow "segment VM range")
  if imageSize < s.fileEnd then
    throw (.badStructure "segment" s.fileOffset.toNat (s.name ++ " file range ends at " ++
      Text.hex s.fileEnd ++ ", past image end " ++ Text.hex imageSize))
  s.sections.forM (s.checkSection imageSize)

def hasAddress (s : Segment) (address : UInt64) : Bool :=
  s.address ≤ address && address - s.address < s.size

def hasOffset (s : Segment) (offset : Nat) : Bool :=
  s.fileOffset.toNat ≤ offset && offset < s.fileEnd

def isBacked (s : Segment) : Bool := s.fileSize != 0

def backs (s : Segment) (address : UInt64) : Bool :=
  s.isBacked && s.hasAddress address && address - s.address < s.fileSize

def section? (s : Segment) (name : String) : Option Section := s.sections.find? (·.name == name)

def isReadable (s : Segment) : Bool := s.protection &&& 1 != 0
def isWritable (s : Segment) : Bool := s.protection &&& 2 != 0
def isExecutable (s : Segment) : Bool := s.protection &&& 4 != 0

/-- Whether the segment carries the old mark of encrypted contents. -/
def isProtected (s : Segment) : Bool := s.flags &&& 8 != 0

end Segment

end ObjcAtlas
