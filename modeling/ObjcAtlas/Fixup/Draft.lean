import ObjcAtlas.Fixup.Chain
import ObjcAtlas.Image.Bytes

set_option autoImplicit false

namespace ObjcAtlas

namespace SlotWord

def rebase64 (target next : UInt64) : UInt64 :=
  target &&& (0xFFFFFFFFF : UInt64) ||| next <<< (51 : UInt64)

def bind64 (ordinal : UInt32) (addend : UInt8) (next : UInt64) : UInt64 :=
  (0x8000000000000000 : UInt64) ||| next <<< (51 : UInt64) |||
    addend.toUInt64 <<< (24 : UInt64) ||| ordinal.toUInt64

def rebase32 (target next : UInt32) : UInt32 :=
  target &&& (0x3FFFFFF : UInt32) ||| next <<< (26 : UInt32)

end SlotWord

structure ImportDraft where
  symbol : String
  ordinal : UInt8
  weak : Bool
deriving DecidableEq, Repr

structure ChainDraft where
  segmentCount : Nat
  starts : List SegmentStarts := []
  imports : List ImportDraft := []

def SegmentStarts.plain (format : PointerFormat) (segment : Nat) (segmentOffset : UInt64)
    (pageStarts : List UInt16) : SegmentStarts :=
  { segment, pageSize := 0x4000, format, segmentOffset, maxValidPointer := 0
    pageCount := UInt16.ofNat pageStarts.length, pageStarts }

namespace ChainDraft

def le (width n : Nat) : List UInt8 := ByteOrder.bytes .little width n

/-- The starts of a segment, filled up to a multiple of eight bytes. -/
def encodeStarts (s : SegmentStarts) : List UInt8 :=
  let size := 22 + 2 * s.pageStarts.length
  Bytes.pad (Bytes.roundUp 8 size)
    (le 4 size ++ le 2 s.pageSize.toNat ++ le 2 s.format.code ++ le 8 s.segmentOffset.toNat ++
      le 4 s.maxValidPointer.toNat ++ le 2 s.pageCount.toNat ++
      s.pageStarts.flatMap fun v => le 2 v.toNat)

/-- Number of each segment that has starts, with their place in the table; the first is at
    `offset`. -/
def placeStarts : (offset : Nat) → List SegmentStarts → List (Nat × Nat)
  | _, [] => []
  | offset, s :: rest =>
    (s.segment, offset) :: placeStarts (offset + (encodeStarts s).length) rest

def startsHead (d : ChainDraft) : Nat := Bytes.roundUp 8 (4 + 4 * d.segmentCount)

/-- Where the table has the starts of a segment: the last that were given, zero for none. -/
def startsOffset (d : ChainDraft) (segment : Nat) : Nat :=
  (((placeStarts d.startsHead d.starts).reverse.lookup segment)).getD 0

def encodeStartsTable (d : ChainDraft) : List UInt8 :=
  Bytes.pad d.startsHead
    (le 4 d.segmentCount ++
      (List.range d.segmentCount).flatMap fun i => le 4 (d.startsOffset i)) ++
  d.starts.flatMap encodeStarts

def encodeImport (i : ImportDraft) (name : Nat) : List UInt8 :=
  le 4 (i.ordinal.toNat + (if i.weak then 256 else 0) + 512 * name)

def encodeImports : (name : Nat) → List ImportDraft → List UInt8
  | _, [] => []
  | name, i :: rest =>
    encodeImport i name ++ encodeImports (name + (Bytes.cstring i.symbol).length) rest

/-- The names, behind an empty one. -/
def symbolPool (imports : List ImportDraft) : List UInt8 :=
  0 :: imports.flatMap fun i => Bytes.cstring i.symbol

def headerSize : Nat := 32

def encode (d : ChainDraft) : List UInt8 :=
  let starts := d.encodeStartsTable
  let imports := encodeImports 1 d.imports
  let importsOffset := headerSize + starts.length
  let header := [0, headerSize, importsOffset, importsOffset + imports.length, d.imports.length,
    1, 0].flatMap (le 4)
  Bytes.pad headerSize header ++ starts ++ imports ++ symbolPool d.imports

end ChainDraft

end ObjcAtlas
