set_option autoImplicit false

/-!
# Text from bytes

Names in an image are byte strings that are meant to be UTF-8. `Utf8.decodeLossy` reads any byte
string: well-formed characters come through, and each longest part that a character could have
started with, but did not continue, becomes one replacement character.

The reader is a machine that looks at one byte at a time, so the loop is recursion on the bytes.
-/
namespace ObjcAtlas.Utf8

def replacement : Char := '\uFFFD'

structure Pending where
  /-- Bytes still to come, at least one. -/
  owed : Nat
  /-- Least value of the next byte. -/
  low : UInt8
  /-- Greatest value of the next byte. -/
  high : UInt8
  value : Nat
deriving DecidableEq, Repr

def start (b : UInt8) : List Char × Option Pending :=
  if b < 0x80 then ([Char.ofNat b.toNat], none)
  else if 0xC2 ≤ b ∧ b ≤ 0xDF then ([], some ⟨1, 0x80, 0xBF, b.toNat % 32⟩)
  else if b = 0xE0 then ([], some ⟨2, 0xA0, 0xBF, 0⟩)
  else if b = 0xED then ([], some ⟨2, 0x80, 0x9F, 13⟩)
  else if 0xE1 ≤ b ∧ b ≤ 0xEF then ([], some ⟨2, 0x80, 0xBF, b.toNat % 16⟩)
  else if b = 0xF0 then ([], some ⟨3, 0x90, 0xBF, 0⟩)
  else if 0xF1 ≤ b ∧ b ≤ 0xF3 then ([], some ⟨3, 0x80, 0xBF, b.toNat % 8⟩)
  else if b = 0xF4 then ([], some ⟨3, 0x80, 0x8F, 4⟩)
  else ([replacement], none)

/-- A byte inside a character. One that does not continue it closes it with a replacement and is
    read afresh. -/
def resume (p : Pending) (b : UInt8) : List Char × Option Pending :=
  if p.low ≤ b ∧ b ≤ p.high then
    let value := p.value * 64 + b.toNat % 64
    if p.owed ≤ 1 then ([Char.ofNat value], none)
    else ([], some ⟨p.owed - 1, 0x80, 0xBF, value⟩)
  else
    let (out, next) := start b
    (replacement :: out, next)

def step : Option Pending → UInt8 → List Char × Option Pending
  | none, b => start b
  | some p, b => resume p b

/-- Everything written from a given state on; an open character at the end is replaced. -/
def run : Option Pending → List UInt8 → List Char
  | none, [] => []
  | some _, [] => [replacement]
  | state, b :: bs => (step state b).1 ++ run (step state b).2 bs

def decodeLossy (bytes : List UInt8) : String := String.ofList (run none bytes)

def encode (s : String) : List UInt8 := s.toList.flatMap String.utf8EncodeChar

end ObjcAtlas.Utf8
