import Std.Data.TreeMap
import ObjcAtlas.Fixup.Pointer
import ObjcAtlas.Image.Command

set_option autoImplicit false

/-!
# Fixup chains

An image lists, for each page of a segment, where the first slot of a chain is; every slot leads
to the next. Walking all chains gives a table from file offsets to what the slots stand for.

A chain stays in its page and moves forward, so the page bounds its length. `PageWalk.follow`
counts the steps and `PageWalk.visit` treats one slot.
-/
namespace ObjcAtlas

inductive ImportsFormat where
  | plain | withAddend | withAddend64
deriving DecidableEq, Repr

namespace ImportsFormat

def ofCode (n : UInt32) : Except ImageError ImportsFormat :=
  if n = 1 then .ok .plain
  else if n = 2 then .ok .withAddend
  else if n = 3 then .ok .withAddend64
  else .error (.unsupportedVersion "chained imports" n.toNat)

def name : ImportsFormat → String
  | .plain => "Import" | .withAddend => "ImportAddend" | .withAddend64 => "ImportAddend64"

def entrySize : ImportsFormat → Nat
  | .plain => 4 | .withAddend => 8 | .withAddend64 => 16

end ImportsFormat

structure ChainImport where
  symbol : String
  ordinal : Int32
  weak : Bool
  addend : Int64
deriving DecidableEq, Repr

namespace ChainImport

/-- The library number in a field of `width` bits: the three highest values are -3, -2 and -1. -/
def ordinalOf (raw width : Nat) : Int32 :=
  if -3 ≤ signedField raw width ∧ signedField raw width < 0 then
    Int32.ofInt (signedField raw width)
  else Int32.ofNat raw

/-- Reads the import at `offset`; its name is in the pool that starts at `symbols`. -/
def read (blob : Reader) (format : ImportsFormat) (symbols offset : Nat) :
    Except ImageError ChainImport := do
  match format with
  | .withAddend64 =>
    let raw ← blob.u64 offset
    let addend ← blob.u64 (offset + 8)
    return {
      symbol := ← blob.cstring (symbols + bitField raw 32 32)
      ordinal := ordinalOf (bitField raw 0 16) 16
      weak := bitSet raw 16
      addend := addend.toInt64 }
  | _ =>
    let raw := (← blob.u32 offset).toUInt64
    let addend ← if format = .withAddend then (·.toInt64) <$> blob.i32 (offset + 4) else pure 0
    return {
      symbol := ← blob.cstring (symbols + bitField raw 9 23)
      ordinal := ordinalOf (bitField raw 0 8) 8
      weak := bitSet raw 8
      addend }

def readTable (blob : Reader) (format : ImportsFormat) (offset count symbols : Nat) :
    Except ImageError (List ChainImport) := do
  let _ ← blob.slice offset (count * format.entrySize)
  (List.range count).mapM fun i => read blob format symbols (offset + i * format.entrySize)

end ChainImport

structure SegmentStarts where
  /-- Number of the segment in command order. -/
  segment : Nat
  pageSize : UInt16
  format : PointerFormat
  /-- Address of the segment, from the image's base. -/
  segmentOffset : UInt64
  /-- Greatest target that is a pointer, in the 32-bit format that mixes in other numbers. -/
  maxValidPointer : UInt32
  pageCount : UInt16
  /-- First slot of each page, then the lists of pages with several chains. -/
  pageStarts : List UInt16
deriving DecidableEq, Repr

/-- Marks a page without chains. -/
def noStart : UInt16 := 0xFFFF

/-- Marks a page with several chains, and the last item of a list of chains. -/
def startMark : UInt16 := 0x8000

def plainStart (v : UInt16) : Nat := v.toNat % 0x8000

def isMarked (v : UInt16) : Bool := v &&& startMark != 0

namespace SegmentStarts

/-- Reads on from `offset` through the first marked value; `fuel` exceeds what the blob holds. -/
def readMarked (blob : Reader) : (fuel offset : Nat) → Except ImageError (List UInt16)
  | 0, offset => .error (.outOfBounds offset 2 blob.size)
  | fuel + 1, offset => do
    let v ← blob.u16 offset
    if isMarked v then return [v]
    return v :: (← readMarked blob fuel (offset + 2))

/-- Reads the starts of the segment with this number, placed at `base` in the blob. The 32-bit
    formats may have lists of chains behind the pages; reading ends at the first marked value. -/
def read (blob : Reader) (segment base : Nat) : Except ImageError SegmentStarts := do
  let pageSize ← blob.u16 (base + 4)
  let format ← PointerFormat.ofCode (← blob.u16 (base + 6)).toNat
  let segmentOffset ← blob.u64 (base + 8)
  let maxValidPointer ← blob.u32 (base + 16)
  let pageCount ← blob.u16 (base + 20)
  if pageSize = 0 then throw (.badStructure "chained starts" base "page size of zero")
  let count := pageCount.toNat
  let pages ← (List.range count).mapM fun i => blob.u16 (base + 22 + 2 * i)
  let lists ← if format.is32Bit && pages.any fun v => v != noStart && isMarked v
    then readMarked blob (blob.size + 1) (base + 22 + 2 * count)
    else pure []
  let pageStarts := pages ++ lists
  return { segment, pageSize, format, segmentOffset, maxValidPointer, pageCount, pageStarts }

def readAt (blob : Reader) (table segment : Nat) : Except ImageError (Option SegmentStarts) := do
  let offset := (← blob.u32 (table + 4 + 4 * segment)).toNat
  if offset = 0 then return none
  return some (← read blob segment (table + offset))

def readTable (blob : Reader) (table : Nat) : Except ImageError (List SegmentStarts) := do
  let count := (← blob.u32 table).toNat
  let _ ← blob.slice (table + 4) (count * 4)
  let found ← (List.range count).mapM (readAt blob table)
  return found.filterMap fun s => s

/-- The chains of a list: items through the first marked one, and whether there is one. -/
def headsOf : List UInt16 → List Nat × Bool
  | [] => ([], false)
  | v :: vs =>
    if isMarked v then ([plainStart v], true)
    else
      let (heads, closed) := headsOf vs
      (plainStart v :: heads, closed)

def heads (s : SegmentStarts) (start : UInt16) : List Nat × Bool :=
  if start = noStart then ([], true)
  else if s.format.is32Bit && isMarked start then headsOf (s.pageStarts.drop (plainStart start))
  else ([start.toNat], true)

end SegmentStarts

structure ChainFixup where
  offset : Nat
  format : PointerFormat
  raw : UInt64
  entry : ChainEntry
  target : Option UInt64
deriving DecidableEq, Repr

/-- Slots by file offset. -/
abbrev FixupTable := Std.TreeMap Nat ChainFixup

structure PageWalk where
  image : Reader
  base : UInt64
  importCount : Nat
  segment : Segment
  starts : SegmentStarts
  page : Nat

namespace PageWalk

def slot (w : PageWalk) (offset : Nat) : Nat :=
  w.segment.fileOffset.toNat + w.page * w.starts.pageSize.toNat + offset

def maxSteps (w : PageWalk) : Nat := w.starts.pageSize.toNat / w.starts.format.stride + 1

def cycle (w : PageWalk) (offset : Nat) : ImageError :=
  .chainCycle w.starts.segment w.page (w.slot offset)

/-- Whether a slot holds a number that is not a pointer. -/
def isNumber (w : PageWalk) : ChainEntry → Bool
  | .rebase target .. => w.starts.format == .ptr32 && w.starts.maxValidPointer.toUInt64 < target
  | .bind .. => false

/-- The table entry for a slot, if it holds a pointer. Binds have to name an import. -/
def fixup? (w : PageWalk) (offset : Nat) (raw : UInt64) (entry : ChainEntry) :
    Except ImageError (Option ChainFixup) :=
  let found : ChainFixup := {
    offset := w.slot offset, format := w.starts.format, raw, entry
    target := entry.address? w.starts.format w.base }
  match entry with
  | .bind ordinal .. =>
    if w.importCount ≤ ordinal.toNat then
      .error (.badStructure "fixup chain" (w.slot offset) ("bind ordinal " ++
        Text.decimal ordinal.toNat ++ " with " ++ Text.decimal w.importCount ++ " imports"))
    else .ok (some found)
  | .rebase .. => .ok (if w.isNumber entry then none else some found)

/-- Treats the slot at `offset` in the page: the table with it, and the distance to the next slot
    in bytes. -/
def visit (w : PageWalk) (offset : Nat) (table : FixupTable) :
    Except ImageError (FixupTable × Nat) := do
  let format := w.starts.format
  if table.contains (w.slot offset) then throw (w.cycle offset)
  if w.starts.pageSize.toNat < offset + format.entrySize ∨
      w.segment.hasOffset (w.slot offset) = false then
    throw (.badStructure "fixup chain" (w.slot offset)
      ("entry runs past page " ++ Text.decimal w.page ++ " of " ++ w.segment.name))
  let raw := UInt64.ofNat (← w.image.number format.entrySize (w.slot offset))
  let (entry, next) := ChainEntry.decode format raw
  match ← w.fixup? offset raw entry with
  | some f => return (table.insert f.offset f, next * format.stride)
  | none => return (table, next * format.stride)

/-- Follows a chain from the slot at `offset` for at most `steps` slots. -/
def follow (w : PageWalk) : (steps offset : Nat) → FixupTable → Except ImageError FixupTable
  | 0, offset, _ => .error (w.cycle offset)
  | steps + 1, offset, table => do
    let (table, distance) ← w.visit offset table
    if distance = 0 then return table
    follow w steps (offset + distance) table

def run (w : PageWalk) (start : UInt16) (table : FixupTable) : Except ImageError FixupTable := do
  let (heads, complete) := w.starts.heads start
  let table ← heads.foldlM (fun table head => w.follow w.maxSteps head table) table
  if complete then return table
  throw (.badStructure "chained starts" 0 "overflow chain index out of range")

end PageWalk

structure ChainTable where
  version : UInt32
  importsFormat : ImportsFormat
  imports : Array ChainImport
  starts : List SegmentStarts
  fixups : FixupTable

namespace ChainTable

def walkSegment (image : Reader) (segments : List Segment) (base : UInt64) (importCount : Nat)
    (table : FixupTable) (starts : SegmentStarts) : Except ImageError FixupTable := do
  let some segment := segments[starts.segment]?
    | throw (.badStructure "chained starts" 0
        ("segment index " ++ Text.decimal starts.segment ++ " out of range"))
  (starts.pageStarts.take starts.pageCount.toNat).zipIdx.foldlM
    (fun table (start, page) =>
      PageWalk.run { image, base, importCount, segment, starts, page } start table) table

def walk (image : Reader) (segments : List Segment) (base : UInt64) (importCount : Nat)
    (starts : List SegmentStarts) : Except ImageError FixupTable :=
  starts.foldlM (walkSegment image segments base importCount) ∅

def read (image : Reader) (range : FileRange) (segments : List Segment) (base : UInt64) :
    Except ImageError ChainTable := do
  let blob ← image.sub range.offset.toNat range.size.toNat
  if blob.size < 28 then throw (.tooShort 28 blob.size)
  let version ← blob.u32 0
  let startsOffset := (← blob.u32 4).toNat
  let importsOffset := (← blob.u32 8).toNat
  let symbolsOffset := (← blob.u32 12).toNat
  let importCount := (← blob.u32 16).toNat
  let importsCode ← blob.u32 20
  let symbolsFormat ← blob.u32 24
  if version != 0 then throw (.unsupportedVersion "chained fixups" version.toNat)
  if symbolsFormat != 0 then
    throw (.unsupportedVersion "chained fixups symbol pool" symbolsFormat.toNat)
  let importsFormat ← ImportsFormat.ofCode importsCode
  let imports ← ChainImport.readTable blob importsFormat importsOffset importCount symbolsOffset
  let starts ← SegmentStarts.readTable blob startsOffset
  let fixups ← walk image segments base imports.length starts
  return { version, importsFormat, imports := imports.toArray, starts, fixups }

def resolve? (t : ChainTable) (offset : Nat) (slide : UInt64) : Option SlotValue := do
  let f ← t.fixups[offset]?
  match f.entry with
  | .bind ordinal addend _ =>
    let i ← t.imports[ordinal.toNat]?
    return .symbol ⟨i.symbol, i.ordinal, i.weak, i.addend + addend⟩
  | .rebase .. => return .address ((← f.target) + slide)

end ChainTable

end ObjcAtlas
