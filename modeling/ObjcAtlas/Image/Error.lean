import ObjcAtlas.Text.Number

set_option autoImplicit false

namespace ObjcAtlas

inductive ImageError where
  | badMagic (expected : String) (actual : List UInt8)
  | tooShort (expected actual : Nat)
  /-- A read of `length` bytes at `offset` does not fit in `size` bytes. -/
  | outOfBounds (offset length size : Nat)
  | malformedCommand (index offset : Nat) (reason : String)
  | unmapped (address : Nat)
  /-- A fixup chain came back to a slot. -/
  | chainCycle (segment page offset : Nat)
  | dangling (address : Nat)
  | unknownPointerFormat (format : Nat)
  | sliceNotFound (cpuType : Nat)
  | badValue (what : String)
  | unsupportedVersion (format : String) (version : Nat)
  | badStructure (kind : String) (offset : Nat) (reason : String)
  | overflow (context : String)
deriving DecidableEq, Repr

namespace ImageError

open Text (hex decimal)

def byteList (bytes : List UInt8) : String :=
  "[" ++ ", ".intercalate (bytes.map Text.byteHex) ++ "]"

def message : ImageError → String
  | .badMagic expected actual =>
    "invalid magic number: expected " ++ expected ++ ", got " ++ byteList actual
  | .tooShort expected actual =>
    "file too short: expected at least " ++ decimal expected ++ " bytes, got " ++ decimal actual
  | .outOfBounds offset length size =>
    "read of " ++ decimal length ++ " bytes at offset " ++ hex offset ++
      " is out of bounds (image size " ++ hex size ++ ")"
  | .malformedCommand index offset reason =>
    "malformed load command #" ++ decimal index ++ " at offset " ++ hex offset ++ ": " ++ reason
  | .unmapped address => "address " ++ hex address ++ " is not mapped by any segment"
  | .chainCycle segment page offset =>
    "fixup chain in segment " ++ decimal segment ++ " page " ++ decimal page ++
      " loops at offset " ++ hex offset
  | .dangling address => "dangling reference to " ++ hex address
  | .unknownPointerFormat format => "unsupported chained pointer format " ++ decimal format
  | .sliceNotFound cpuType =>
    "no architecture matching cputype " ++ hex cpuType ++ " in fat binary"
  | .badValue what => "invalid value: " ++ what
  | .unsupportedVersion format version =>
    "unsupported " ++ format ++ " version: " ++ decimal version
  | .badStructure kind offset reason =>
    "invalid " ++ kind ++ " at offset " ++ hex offset ++ ": " ++ reason
  | .overflow context => "integer overflow while parsing " ++ context

def isFatal : ImageError → Bool
  | .badMagic .. | .tooShort .. | .malformedCommand .. => true
  | _ => false

end ImageError

end ObjcAtlas
