import Std.Data.TreeMap
import ObjcAtlas.Fixup.Pointer
import ObjcAtlas.Image.Command
import ObjcAtlas.Image.Leb128

set_option autoImplicit false

/-!
# Bind programs

Images without fixup chains describe their bound slots by a byte-coded program. Its machine keeps
a library, a symbol, an addend and a place in a segment, and `bind` writes them into the table.

An instruction is one byte, a code and an operand of four bits each, and further operands behind
it. Running the program is recursion on the bytes that are left, since each instruction takes at
least one.
-/
namespace ObjcAtlas

abbrev BindTable := Std.TreeMap Nat BindTarget

structure BindState where
  ordinal : Int32
  symbol : String := ""
  flags : Nat := 0
  addend : Int64 := 0
  segment : Option Segment := none
  offset : UInt64 := 0

/-- What stays the same while a program runs. -/
structure BindProgram where
  code : Reader
  segments : List Segment
  bits : Bitness
  /-- Whether the program lists symbols that several images may define. -/
  weak : Bool

inductive BindStep where
  | done (table : BindTable)
  | next (pc : Nat) (state : BindState) (table : BindTable)

namespace BindState

def initial (weak : Bool) : BindState := { ordinal := if weak then -3 else 0 }

def isWeakImport (s : BindState) : Bool := s.flags % 2 == 1

/-- Whether the symbol is only announced, so that nothing is written. -/
def isAnnouncement (s : BindState) : Bool := s.flags / 8 % 2 == 1

def target (s : BindState) : BindTarget := ⟨s.symbol, s.ordinal, s.isWeakImport, s.addend⟩

/-- The place `distance` bytes on, modulo `2 ^ 64`. -/
def advance (s : BindState) (distance : UInt64) : BindState :=
  { s with offset := s.offset + distance }

def bind (s : BindState) (pc : Nat) (table : BindTable) : Except ImageError BindTable :=
  match s.segment with
  | none => .error (.badStructure "bind opcodes" pc "bind before segment was set")
  | some segment =>
    if segment.fileSize ≤ s.offset then
      .error (.badStructure "bind opcodes" pc
        ("offset " ++ Text.hex s.offset.toNat ++ " outside " ++ segment.name))
    else if s.isAnnouncement then .ok table
    else .ok (table.insert (segment.fileOffset.toNat + s.offset.toNat) s.target)

/-- Binds `count` slots, each `distance` bytes behind the one before. -/
def bindTimes (distance : UInt64) (pc : Nat) :
    (count : Nat) → BindState → BindTable → Except ImageError (BindState × BindTable)
  | 0, s, table => .ok (s, table)
  | count + 1, s, table => do
    let table ← s.bind pc table
    bindTimes distance pc count (s.advance distance) table

end BindState

namespace BindProgram

def pointerSize (p : BindProgram) : UInt64 := UInt64.ofNat p.bits.pointerSize

def specialOrdinal (operand : Nat) : Int32 :=
  if operand = 0 then 0 else Int32.ofInt (operand - 16 : Int)

/-- Carries out the instruction whose byte is `byte`; its operands start at `pc`. -/
def step (p : BindProgram) (byte pc : Nat) (s : BindState) (table : BindTable) :
    Except ImageError BindStep := do
  let operand := byte % 16
  match byte / 16 with
  | 0x0 => return if p.weak then .next pc s table else .done table
  | 0x1 => return .next pc { s with ordinal := Int32.ofNat operand } table
  | 0x2 =>
    let (value, length) ← p.code.uleb pc
    return .next (pc + length) { s with ordinal := value.toUInt32.toInt32 } table
  | 0x3 => return .next pc { s with ordinal := specialOrdinal operand } table
  | 0x4 =>
    let symbol ← p.code.cstring pc
    return .next (pc + symbol.utf8ByteSize + 1) { s with symbol, flags := operand } table
  | 0x5 => return .next pc s table
  | 0x6 =>
    let (value, length) ← p.code.sleb pc
    return .next (pc + length) { s with addend := value } table
  | 0x7 =>
    let (value, length) ← p.code.uleb pc
    match p.segments[operand]? with
    | some found =>
      return .next (pc + length) { s with segment := some found, offset := value } table
    | none =>
      throw (.badStructure "bind opcodes" (pc + length)
        ("segment " ++ Text.decimal operand ++ " out of range"))
  | 0x8 =>
    let (value, length) ← p.code.uleb pc
    return .next (pc + length) (s.advance value) table
  | 0x9 =>
    let table ← s.bind pc table
    return .next pc (s.advance p.pointerSize) table
  | 0xA =>
    let table ← s.bind pc table
    let (value, length) ← p.code.uleb pc
    return .next (pc + length) (s.advance (value + p.pointerSize)) table
  | 0xB =>
    let table ← s.bind pc table
    return .next pc (s.advance (UInt64.ofNat operand * p.pointerSize + p.pointerSize)) table
  | 0xC =>
    let (count, length) ← p.code.uleb pc
    let (skip, length') ← p.code.uleb (pc + length)
    let pc := pc + length + length'
    let (s, table) ← BindState.bindTimes (skip + p.pointerSize) pc count.toNat s table
    return .next pc s table
  | 0xD => throw (.unsupportedVersion "threaded bind opcodes" operand)
  | _ =>
    throw (.badStructure "bind opcodes" (pc - 1)
      ("unknown opcode 0x" ++ Text.padLeft '0' 2 (Text.hexDigits byte)))

/-- Runs from `pc` on; `fuel` is at least the number of bytes left. -/
def runFrom (p : BindProgram) :
    (fuel pc : Nat) → BindState → BindTable → Except ImageError BindTable
  | 0, _, _, table => .ok table
  | fuel + 1, pc, s, table =>
    if pc < p.code.size then do
      let byte ← p.code.u8 pc
      match ← p.step byte.toNat (pc + 1) s table with
      | .done table => return table
      | .next pc s table => runFrom p fuel pc s table
    else .ok table

def run (p : BindProgram) (table : BindTable) : Except ImageError BindTable :=
  p.runFrom p.code.size 0 (.initial p.weak) table

end BindProgram

namespace BindTable

def runRange (image : Reader) (segments : List Segment) (bits : Bitness) (weak : Bool)
    (range : FileRange) (table : BindTable) : Except ImageError BindTable :=
  if range.size = 0 then .ok table
  else do
    let code ← image.sub range.offset.toNat range.size.toNat
    BindProgram.run { code, segments, bits, weak } table

def read (image : Reader) (bind weakBind : FileRange) (segments : List Segment) (bits : Bitness) :
    Except ImageError BindTable := do
  let table ← runRange image segments bits false bind ∅
  runRange image segments bits true weakBind table

end BindTable

end ObjcAtlas
