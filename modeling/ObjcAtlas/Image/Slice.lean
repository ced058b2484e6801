import ObjcAtlas.Fixup.Bind
import ObjcAtlas.Fixup.Chain
import ObjcAtlas.Image.Header

set_option autoImplicit false

/-!
# Images

A slice is one image with its commands read and its fixups applied: addresses can be translated
to file offsets and back, and pointer slots resolved. A fixup table that cannot be read is left
out and its error kept; everything else in the image stays usable.
-/
namespace ObjcAtlas

structure Fixups where
  chains : Option ChainTable := none
  binds : BindTable := ∅
  errors : List ImageError := []

/-- Address that an image with these segments is made for: that of the start of the file, else the
    lowest with file data. -/
def preferredBase (segments : List Segment) : UInt64 :=
  match segments.find? fun s => s.fileOffset == 0 && s.isBacked with
  | some s => s.address
  | none => (((segments.filter Segment.isBacked).map (·.address)).min?).getD 0

namespace Fixups

/-- Takes in the table of one command, which replaces an earlier one of its kind if it can be
    read. -/
def take (image : Reader) (bits : Bitness) (segments : List Segment) (f : Fixups) :
    Command → Fixups
  | .linkedit .chainedFixups range =>
    match ChainTable.read image range segments (preferredBase segments) with
    | .ok table => { f with chains := some table }
    | .error e => { f with errors := f.errors ++ [e] }
  | .dyldInfo _ info =>
    match BindTable.read image info.bind info.weakBind segments bits with
    | .ok table => { f with binds := table }
    | .error e => { f with errors := f.errors ++ [e] }
  | _ => f

def read (image : Reader) (bits : Bitness) (segments : List Segment) (commands : List Command) :
    Fixups :=
  commands.foldl (take image bits segments) {}

/-- What the slot at a file offset holds in an image that is moved by `slide`: chains come first,
    then bind programs, then the bytes of the slot. -/
def resolve (f : Fixups) (image : Reader) (bits : Bitness) (offset : Nat) (slide : UInt64) :
    Except ImageError SlotValue := do
  if let some value := f.chains.bind (·.resolve? offset slide) then return value
  if let some target := f.binds[offset]? then return .symbol target
  let raw ← image.pointer bits offset
  return if raw = 0 then .null else .address (raw + slide)

end Fixups

structure Slice where
  /-- The image's own bytes; file offsets count from their start. -/
  reader : Reader
  /-- Where the image stands in a universal file. -/
  offset : Nat
  header : Header
  commands : List Command
  segments : List Segment
  fixups : Fixups

namespace Slice

/-- Reads `count` commands from `offset` in their table on; `start` is where the table stands and
    `index` the number of the first. -/
def readCommands (table : Reader) (start : Nat) :
    (count index offset : Nat) → Except ImageError (List Command)
  | 0, _, _ => .ok []
  | count + 1, index, offset => do
    let malformed (reason : String) : ImageError := .malformedCommand index (start + offset) reason
    if table.size < offset + 8 then throw (malformed "command header past sizeofcmds")
    let size := (← table.u32 (offset + 4)).toNat
    if size = 0 then throw (malformed "cmdsize is zero")
    if size < 8 then
      throw (malformed ("cmdsize " ++ Text.decimal size ++ " is smaller than a command header"))
    if table.size < offset + size then
      throw (malformed ("cmdsize " ++ Text.decimal size ++ " runs past sizeofcmds " ++
        Text.decimal table.size))
    let body ← table.sub offset size
    let command ← (Command.read body).mapError fun e => malformed e.message
    return command :: (← readCommands table start count (index + 1) (offset + size))

def readCommandTable (r : Reader) (h : Header) : Except ImageError (List Command) := do
  let table ← (r.sub h.size h.commandsSize.toNat).mapError fun _ =>
    .malformedCommand 0 h.size
      (Text.decimal h.commandsSize.toNat ++ " bytes of commands exceed the image")
  readCommands table h.size h.commandCount.toNat 0 0

def checkSegments (imageSize : Nat) (segments : List Segment) : Except ImageError Unit :=
  segments.zipIdx.forM fun (s, index) =>
    (s.check imageSize).mapError fun e =>
      .malformedCommand index s.fileOffset.toNat e.message

/-- Reads the image in `bytes`, which stand at `offset` in their file. -/
def read (bytes : ByteArray) (offset : Nat) : Except ImageError Slice := do
  let header ← Header.read bytes
  let reader : Reader := ⟨bytes, header.order⟩
  let commands ← readCommandTable reader header
  let segments := commands.filterMap Command.segment?
  checkSegments reader.size segments
  let fixups := Fixups.read reader header.bits segments commands
  return { reader, offset, header, commands, segments, fixups }

/-- The image of a universal file that is read when none is asked for: the first for x86-64, else
    the first for arm64, else the first. -/
def preferred? (images : List Placement) : Option Placement :=
  (images.find? (·.cpuType == Cpu.x86_64)).or
    ((images.find? (·.cpuType == Cpu.arm64)).or images.head?)

def choose (images : List Placement) : Option ArchSelector → Except ImageError Placement
  | some selector =>
    match images.find? fun p => selector.accepts p.cpuType p.subtype with
    | some p => .ok p
    | none => .error (.sliceNotFound selector.cpuType.toNat)
  | none =>
    match preferred? images with
    | some p => .ok p
    | none => .error (.badStructure "fat header" 0 "no architectures in fat binary")

/-- Reads the image that a selector asks for, out of a universal file or a file of its own, which
    then has to be the one asked for. -/
def load (bytes : ByteArray) (selector : Option ArchSelector) : Except ImageError Slice := do
  if isUniversal bytes then
    let p ← choose (← Placement.readTable bytes) selector
    let image ← (Reader.slice ⟨bytes, .little⟩ p.offset.toNat p.size.toNat).mapError fun _ =>
      .badStructure "fat arch" p.offset.toNat
        ("slice of " ++ Text.hex p.size.toNat ++ " bytes runs past end of file")
    read image p.offset.toNat
  else
    let s ← read bytes 0
    match selector with
    | some selector =>
      if selector.accepts s.header.cpuType s.header.subtype then return s
      else throw (.sliceNotFound selector.cpuType.toNat)
    | none => return s

def bits (s : Slice) : Bitness := s.header.bits

def segment? (s : Slice) (name : String) : Option Segment := s.segments.find? (·.name == name)

def sections (s : Slice) : List Section := s.segments.flatMap (·.sections)

def section? (s : Slice) (segmentName name : String) : Option Section :=
  (s.segment? segmentName).bind (·.section? name)

/-- The section of this name in the first of the named segments that has it. -/
def findSection? (s : Slice) (name : String) (segmentNames : List String) : Option Section :=
  segmentNames.findSome? (s.section? · name)

def dylibNames (s : Slice) : List String := (s.commands.filterMap Command.dylib?).map (·.name)

/-- Name of the library with this number; numbers start at one. -/
def library? (s : Slice) (ordinal : Int32) : Option String :=
  if ordinal < 1 then none else s.dylibNames[ordinal.toInt.toNat - 1]?

def installName? (s : Slice) : Option String :=
  (s.commands.findSome? Command.idDylib?).map (·.name)

def uuid? (s : Slice) : Option ByteArray := s.commands.findSome? Command.uuid?

def encryption? (s : Slice) : Option Encryption := s.commands.findSome? Command.encryption?

def isEncrypted (s : Slice) : Bool :=
  s.encryption?.any Encryption.isActive || s.segments.any Segment.isProtected

def isEncryptedOffset (s : Slice) (offset : Nat) : Bool := s.encryption?.any (·.covers offset)

def segmentFor? (s : Slice) (address : UInt64) : Option Segment :=
  s.segments.find? fun t => t.size != 0 && t.hasAddress address

def segmentAt? (s : Slice) (offset : Nat) : Option Segment :=
  s.segments.find? fun t => t.isBacked && t.hasOffset offset

def fileOffset (s : Slice) (address : UInt64) : Except ImageError Nat :=
  match s.segments.find? (·.backs address) with
  | some t => .ok (t.fileOffset.toNat + (address - t.address).toNat)
  | none => .error (.unmapped address.toNat)

/-- The address of a file offset, modulo `2 ^ 64`. -/
def address (s : Slice) (offset : Nat) : Except ImageError UInt64 :=
  match s.segmentAt? offset with
  | some t => .ok (t.address + UInt64.ofNat (offset - t.fileOffset.toNat))
  | none => .error (.unmapped offset)

def isMapped (s : Slice) (address : UInt64) : Bool := (s.fileOffset address).isOk

def base (s : Slice) : UInt64 := preferredBase s.segments

/-- The file data of the segment at an address, and the address's place in it. -/
def region (s : Slice) (address : UInt64) : Except ImageError (Reader × Nat) := do
  let offset ← s.fileOffset address
  let some t := s.segmentAt? offset | throw (.unmapped address.toNat)
  let data ← s.reader.sub t.fileOffset.toNat t.fileSize.toNat
  return (data, offset - t.fileOffset.toNat)

def bytesAt (s : Slice) (address : UInt64) (length : Nat) : Except ImageError ByteArray := do
  let (data, offset) ← s.region address
  data.slice offset length

def cstringAt (s : Slice) (address : UInt64) : Except ImageError String := do
  let (data, offset) ← s.region address
  data.cstring offset

def resolve (s : Slice) (offset : Nat) (slide : UInt64) : Except ImageError SlotValue :=
  s.fixups.resolve s.reader s.bits offset slide

end Slice

end ObjcAtlas
