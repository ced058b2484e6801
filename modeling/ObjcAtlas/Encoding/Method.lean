import ObjcAtlas.Encoding.Decoder
import ObjcAtlas.Encoding.Printer

set_option autoImplicit false

namespace ObjcAtlas

structure MethodArgument where
  type : ObjcType
  offset : Option Int
deriving DecidableEq

structure MethodSignature where
  returns : ObjcType
  frameSize : Option Nat
  /-- Starts with the receiver and the selector. -/
  arguments : List MethodArgument
deriving DecidableEq

namespace Reading

/-- Reads arguments to the end; `fuel` exceeds their number. -/
def methodArguments : (fuel : Nat) → Reading (List MethodArgument)
  | 0 => return []
  | fuel + 1 => do
    if (← get).rest.isEmpty then return []
    let t ← type
    let o ← offset
    return ⟨t, o⟩ :: (← methodArguments fuel)

def frameSize : Reading (Option Nat) := do
  match ← offset with
  | none => return none
  | some n => if n < 0 then throw (.invalidNumber (← position)) else return some n.toNat

def signature : Reading MethodSignature := do
  nonempty
  let returns ← type
  let size ← frameSize
  let args ← methodArguments ((← get).rest.length + 1)
  return ⟨returns, size, args⟩

end Reading

namespace MethodSignature

def decode (encoding : String) : Except DecodeError MethodSignature :=
  Reading.signature.run (.ofString encoding)

def spellOffset : Option Int → List Char
  | none => []
  | some n => (if n < 0 then ['-'] else []) ++ Nat.toDigits 10 n.natAbs

def spellArgument (a : MethodArgument) : List Char := a.type.spell ++ spellOffset a.offset

def encode (s : MethodSignature) : String :=
  String.ofList (s.returns.spell ++ spellOffset (s.frameSize.map Int.ofNat) ++
    s.arguments.flatMap spellArgument)

def argumentTypes (s : MethodSignature) : List ObjcType := s.arguments.map (·.type)

def explicitArguments (s : MethodSignature) : List MethodArgument := s.arguments.drop 2

/-- Whether two signatures differ in frame layout only. -/
def sameTypes (s t : MethodSignature) : Bool :=
  s.returns == t.returns && s.argumentTypes == t.argumentTypes

def display (s : MethodSignature) : String :=
  let args := s.explicitArguments.map (·.type.display)
  "(" ++ s.returns.display ++ ")" ++
    if args.isEmpty then "" else " (" ++ ", ".intercalate args ++ ")"

end MethodSignature

end ObjcAtlas
