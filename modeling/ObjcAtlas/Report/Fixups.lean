import ObjcAtlas.Fixup.Json
import ObjcAtlas.Image.Slice
import ObjcAtlas.Report.Lines

set_option autoImplicit false

namespace ObjcAtlas

structure FixupEntry where
  /-- Address of the slot, moved. -/
  address : UInt64
  offset : Nat
  value : SlotValue
  library : Option String

namespace FixupEntry

def ofSlot (s : Slice) (slide : UInt64) (offset : Nat) : Except ImageError FixupEntry := do
  let address ← s.address offset
  let value ← s.resolve offset slide
  let library := value.symbol?.bind fun t => s.library? t.ordinal
  return { address := address + slide, offset, value, library }

def isBind (e : FixupEntry) : Bool := e.value.symbol?.isSome

/-- The library is shown only where there is one. -/
def toJson (e : FixupEntry) : Json :=
  .object ([("address", .word e.address), ("file_offset", .nat e.offset),
      ("resolved", e.value.toJson)] ++
    (e.library.map fun l => ("library", Json.string l)).toList)

/-- A negative addend is shown as the word that holds it. -/
def addendText (addend : Int64) : String :=
  if addend = 0 then "" else " + " ++ Text.hex addend.toUInt64.toNat

def valueText (e : FixupEntry) : String :=
  match e.value with
  | .null => "null"
  | .address a => "rebase  " ++ Text.hex a.toNat
  | .symbol t =>
    "bind    " ++ t.symbol ++ addendText t.addend ++ (if t.weak then " (weak)" else "") ++
      (e.library.map fun l => "  [" ++ l ++ "]").getD ""

def line (e : FixupEntry) : String :=
  Text.hexPadded 14 e.address.toNat ++ "  " ++ e.valueText

end FixupEntry

def Slice.fixupOffsets (s : Slice) : List Nat :=
  match s.fixups.chains with
  | some t => t.fixups.keys
  | none => s.fixups.binds.keys

def Slice.fixupEntries (s : Slice) (slide : UInt64) (bindsOnly : Bool) :
    Except ImageError (List FixupEntry) := do
  let entries ← s.fixupOffsets.mapM (FixupEntry.ofSlot s slide)
  return entries.filter fun e => !bindsOnly || e.isBind

namespace Report

def ignoredFixups (s : Slice) : ReportFormat → String
  | .text => lines (s.fixups.errors.map fun e => "warning: fixups ignored: " ++ e.message)
  | .json => ""

def fixups (entries : List FixupEntry) (format : ReportFormat) : String :=
  render format (entries.map FixupEntry.line ++ [Text.decimal entries.length ++ " entries"])
    (.list FixupEntry.toJson entries)

end Report

end ObjcAtlas
