import ObjcAtlas.Text.Quoted

set_option autoImplicit false

namespace ObjcAtlas

/-- Offsets count bytes of the encoding. -/
inductive DecodeError where
  | unexpectedEnd (offset : Nat)
  | unexpectedChar (offset : Nat) (found : Char)
  | invalidNumber (offset : Nat)
  | trailingInput (offset : Nat)
  | tooDeep (offset : Nat)
  | empty
deriving DecidableEq, Repr

namespace DecodeError

/-- Where decoding failed; an empty encoding fails at its start. -/
def offset : DecodeError → Nat
  | .unexpectedEnd o | .unexpectedChar o _ | .invalidNumber o | .trailingInput o | .tooDeep o => o
  | .empty => 0

def message : DecodeError → String
  | .unexpectedEnd o => "unexpected end of encoding at offset " ++ Text.decimal o
  | .unexpectedChar o c =>
    "unexpected character " ++ Text.quotedSingle c ++ " at offset " ++ Text.decimal o
  | .invalidNumber o => "invalid number at offset " ++ Text.decimal o
  | .trailingInput o => "trailing input at offset " ++ Text.decimal o
  | .tooDeep o => "encoding nested too deeply at offset " ++ Text.decimal o
  | .empty => "empty encoding"

/-- The same failure in an encoding that stands `n` bytes into a longer text, where a missing
    encoding is an early end. -/
def shift (n : Nat) : DecodeError → DecodeError
  | .unexpectedEnd o => .unexpectedEnd (o + n)
  | .unexpectedChar o c => .unexpectedChar (o + n) c
  | .invalidNumber o => .invalidNumber (o + n)
  | .trailingInput o => .trailingInput (o + n)
  | .tooDeep o => .tooDeep (o + n)
  | .empty => .unexpectedEnd n

end DecodeError

end ObjcAtlas
