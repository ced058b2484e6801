import ObjcAtlas.Encoding.Error
import ObjcAtlas.Text.Number

set_option autoImplicit false

namespace ObjcAtlas

structure Cursor where
  /-- Bytes already read. -/
  position : Nat
  rest : List Char
deriving DecidableEq, Repr

namespace Cursor

def ofString (s : String) : Cursor := ⟨0, s.toList⟩

def width : List Char → Nat
  | [] => 0
  | c :: cs => c.utf8Size + width cs

def past (c : Cursor) (cs rest : List Char) : Cursor := ⟨c.position + width cs, rest⟩

end Cursor

abbrev Reading := EStateM DecodeError Cursor

namespace Reading

def position : Reading Nat := do return (← get).position

def peek : Reading (Option Char) := do return (← get).rest.head?

def next : Reading (Option Char) := fun c =>
  match c.rest with
  | [] => .ok none c
  | x :: xs => .ok (some x) (c.past [x] xs)

def takeWhile (p : Char → Bool) : Reading (List Char) := fun c =>
  .ok (c.rest.takeWhile p) (c.past (c.rest.takeWhile p) (c.rest.dropWhile p))

def unexpected {α : Type} : Reading α := do
  match (← get).rest with
  | [] => throw (.unexpectedEnd (← position))
  | x :: _ => throw (.unexpectedChar (← position) x)

def any : Reading Char := do
  match ← next with
  | some x => return x
  | none => throw (.unexpectedEnd (← position))

def expect (want : Char) : Reading Unit := do
  let start ← position
  match ← next with
  | some x => if x = want then return () else throw (.unexpectedChar start x)
  | none => throw (.unexpectedEnd start)

def number : Reading UInt64 := do
  let start ← position
  let digits ← takeWhile Char.isDigit
  if digits.isEmpty then unexpected
  else if Text.decimalValue digits < UInt64.size then
    return UInt64.ofNat (Text.decimalValue digits)
  else throw (.invalidNumber start)

/-- Reads an optional number with an optional sign; its magnitude has to be below `2 ^ 63`. -/
def offset : Reading (Option Int) := do
  let start ← position
  let sign ← peek
  if sign = some '-' ∨ sign = some '+' then
    let _ ← next
  match ← peek with
  | some d =>
    if d.isDigit then
      let magnitude ← number
      if magnitude.toNat < UInt64.size / 2 then
        return some (if sign = some '-' then -(magnitude.toNat : Int) else magnitude.toNat)
      else throw (.invalidNumber start)
    else if (← position) = start then return none
    else unexpected
  | none => if (← position) = start then return none else unexpected

/-- Reads up to the closing quote and past it; the opening quote has been read. -/
def quoted : Reading (List Char) := do
  let text ← takeWhile (· != '"')
  let _ ← any
  return text

end Reading

end ObjcAtlas
