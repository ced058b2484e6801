import ObjcAtlas.Image.Error

set_option autoImplicit false

namespace ObjcAtlas

inductive WarningKind where
  /-- A pointer to memory that the file has no data for. -/
  | danglingReference
  | typeSyntax
  | outOfBounds
  | encryptedRegion
  /-- A symbol where a local pointer was due. -/
  | unexpectedBind
  | malformedRecord
  | fixupTable
deriving DecidableEq, Repr

structure Warning where
  kind : WarningKind
  address : UInt64
  message : String
deriving DecidableEq, Repr

namespace WarningKind

def label : WarningKind → String
  | .danglingReference => "dangling_reference"
  | .typeSyntax => "type_syntax"
  | .outOfBounds => "out_of_bounds"
  | .encryptedRegion => "encrypted_region"
  | .unexpectedBind => "unexpected_bind"
  | .malformedRecord => "malformed_record"
  | .fixupTable => "fixup_table"

def title : WarningKind → String
  | .danglingReference => "DanglingReference"
  | .typeSyntax => "TypeSyntax"
  | .outOfBounds => "OutOfBounds"
  | .encryptedRegion => "EncryptedRegion"
  | .unexpectedBind => "UnexpectedBind"
  | .malformedRecord => "MalformedRecord"
  | .fixupTable => "FixupTable"

def ofError : ImageError → WarningKind
  | .unmapped _ | .dangling _ => .danglingReference
  | .outOfBounds .. => .outOfBounds
  | .chainCycle .. | .unknownPointerFormat _ => .fixupTable
  | _ => .malformedRecord

end WarningKind

namespace Warning

def ofError (address : UInt64) (what : String) (e : ImageError) : Warning :=
  ⟨.ofError e, address, what ++ ": " ++ e.message⟩

def text (w : Warning) : String := Text.hex w.address.toNat ++ ": " ++ w.message

end Warning

end ObjcAtlas
