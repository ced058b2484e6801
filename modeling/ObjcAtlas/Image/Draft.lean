import ObjcAtlas.Image.Bytes
import ObjcAtlas.Image.Command
import ObjcAtlas.Image.Header

set_option autoImplicit false

/-!
# Drafts of images

A draft collects segments, commands and contents; `ImageDraft.build` lays the header and the
command table over the start of the contents. Segment commands come first, whatever the order in
which things were added.
-/
namespace ObjcAtlas

namespace Section

def encode (order : ByteOrder) (bits : Bitness) (s : Section) : List UInt8 :=
  Bytes.name s.name ++ Bytes.name s.segmentName ++
  order.word bits s.address ++ order.word bits s.size ++
  ([s.offset, s.align, s.relocationOffset, s.relocationCount, s.flags, s.reserved1,
    s.reserved2].flatMap order.half) ++
  match bits with
  | .bits32 => []
  | .bits64 => order.half s.reserved3

end Section

namespace Segment

def commandSize (bits : Bitness) (s : Segment) : Nat :=
  headerSize bits + Section.entrySize bits * s.sections.length

def encode (order : ByteOrder) (bits : Bitness) (s : Segment) : List UInt8 :=
  order.half (CommandKind.segment bits).code ++
  order.bytes 4 (s.commandSize bits) ++
  Bytes.name s.name ++
  ([s.address, s.size, s.fileOffset, s.fileSize].flatMap (order.word bits)) ++
  order.half s.maxProtection ++ order.half s.protection ++
  order.bytes 4 s.sections.length ++ order.half s.flags ++
  s.sections.flatMap (Section.encode order bits)

end Segment

inductive DraftCommand where
  | dylib (name : String)
  | uuid (bytes : List UInt8)
  | encryption (e : Encryption)
  | chainedFixups (range : FileRange)
  | bindProgram (range : FileRange)
  | other (code : UInt32) (body : List UInt8)
deriving DecidableEq, Repr

namespace DraftCommand

def code (bits : Bitness) : DraftCommand → UInt32
  | .dylib _ => (CommandKind.dylib .load).code
  | .uuid _ => CommandKind.uuid.code
  | .encryption _ => (CommandKind.encryption bits).code
  | .chainedFixups _ => (CommandKind.linkedit .chainedFixups).code
  | .bindProgram _ => (CommandKind.dyldInfo true).code
  | .other code _ => code

def dylibNameOffset : UInt32 := 24

/-- What follows code and size. -/
def body (order : ByteOrder) (bits : Bitness) : DraftCommand → List UInt8
  | .dylib name =>
    [dylibNameOffset, 2, 0x10000, 0x10000].flatMap order.half ++ Bytes.cstring name
  | .uuid bytes => bytes
  | .encryption e =>
    [e.offset, e.size, e.id].flatMap order.half ++
      match bits with
      | .bits32 => []
      | .bits64 => order.half 0
  | .chainedFixups range => [range.offset, range.size].flatMap order.half
  | .bindProgram range =>
    [0, 0, range.offset, range.size, 0, 0, 0, 0, 0, 0].flatMap order.half
  | .other _ body => body

def sizeFor (bits : Bitness) (body : List UInt8) : Nat :=
  Bytes.roundUp bits.pointerSize (8 + body.length)

def encode (order : ByteOrder) (bits : Bitness) (c : DraftCommand) : List UInt8 :=
  let body := c.body order bits
  Bytes.pad (sizeFor bits body)
    (order.half (c.code bits) ++ order.bytes 4 (sizeFor bits body) ++ body)

end DraftCommand

structure ImageDraft where
  bits : Bitness
  order : ByteOrder := .little
  cpuType : UInt32
  subtype : UInt32 := 0
  /-- Code of the file type; an executable file unless said otherwise. -/
  fileType : UInt32 := 2
  segments : List Segment := []
  commands : List DraftCommand := []
  contents : List UInt8 := []

namespace ImageDraft

def write (d : ImageDraft) (offset : Nat) (bytes : List UInt8) : ImageDraft :=
  { d with contents := Bytes.overlay d.contents offset bytes }

def writeNumber (d : ImageDraft) (width offset value : Nat) : ImageDraft :=
  d.write offset (d.order.bytes width value)

def writePointer (d : ImageDraft) (offset value : Nat) : ImageDraft :=
  d.writeNumber d.bits.pointerSize offset value

def addSegment (d : ImageDraft) (name : String) (address size fileOffset fileSize : UInt64)
    (protection : UInt32) : ImageDraft :=
  let s : Segment := {
    name, address, size, fileOffset, fileSize, maxProtection := protection, protection
    flags := 0, sections := [] }
  { d with
    segments := d.segments ++ [s]
    contents := Bytes.pad s.fileEnd d.contents }

/-- Adds a section to a segment; `place` gives its file offset and its flags. -/
def addSectionTo (d : ImageDraft) (segment : Nat) (name : String) (address size : UInt64)
    (place : Segment → UInt32 × UInt32) : ImageDraft :=
  let add (s : Segment) : Segment :=
    let (offset, flags) := place s
    let t : Section := {
      name, segmentName := s.name, address, size, offset, align := 3, relocationOffset := 0
      relocationCount := 0, flags, reserved1 := 0, reserved2 := 0, reserved3 := 0 }
    { s with sections := s.sections ++ [t] }
  { d with segments := d.segments.modify segment add }

/-- Adds a section with file data, at the place that its address has in the segment. -/
def addSection (d : ImageDraft) (segment : Nat) (name : String) (address size : UInt64) :
    ImageDraft :=
  d.addSectionTo segment name address size fun s =>
    ((s.fileOffset + (address - s.address)).toUInt32, 0)

def addZerofill (d : ImageDraft) (segment : Nat) (name : String) (address size : UInt64) :
    ImageDraft :=
  d.addSectionTo segment name address size fun _ => (0, Section.zerofillFlag)

def addCommand (d : ImageDraft) (c : DraftCommand) : ImageDraft :=
  { d with commands := d.commands ++ [c] }

def rangeOf (offset : Nat) (bytes : List UInt8) : FileRange :=
  ⟨UInt32.ofNat offset, UInt32.ofNat bytes.length⟩

def addChainedFixups (d : ImageDraft) (offset : Nat) (blob : List UInt8) : ImageDraft :=
  (d.write offset blob).addCommand (.chainedFixups (rangeOf offset blob))

def addBindProgram (d : ImageDraft) (offset : Nat) (program : List UInt8) : ImageDraft :=
  (d.write offset program).addCommand (.bindProgram (rangeOf offset program))

/-- All commands, those of the segments first. -/
def encodedCommands (d : ImageDraft) : List (List UInt8) :=
  d.segments.map (Segment.encode d.order d.bits) ++
    d.commands.map (DraftCommand.encode d.order d.bits)

def header (d : ImageDraft) (count size : Nat) : List UInt8 :=
  [Magic.image d.bits, d.cpuType, d.subtype, d.fileType].flatMap d.order.half ++
  [count, size, 0].flatMap (d.order.bytes 4) ++
  match d.bits with
  | .bits32 => []
  | .bits64 => d.order.half 0

def front (d : ImageDraft) : List UInt8 :=
  let commands := d.encodedCommands
  d.header commands.length commands.flatten.length ++ commands.flatten

def fileEnd (d : ImageDraft) : Nat := ((d.segments.map Segment.fileEnd).max?).getD 0

def build (d : ImageDraft) : List UInt8 :=
  Bytes.overlay (Bytes.pad d.fileEnd d.contents) 0 d.front

end ImageDraft

end ObjcAtlas
