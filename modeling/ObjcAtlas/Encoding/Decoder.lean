import ObjcAtlas.Encoding.Cursor
import ObjcAtlas.Encoding.Type
import ObjcAtlas.Text.Split

set_option autoImplicit false

/-!
# Decoding type encodings

A recursive reader of the grammar that compilers emit. Nothing is skipped: a character that no
rule reads fails the whole decode.

The recursion is on the nesting that is still allowed, so a type inside a type is read by the
reader one level down. The lists inside a type (members, block arguments) are read by loops that
take the reader of one item; each item takes at least one character, so the number of characters
left bounds the loop.
-/
namespace ObjcAtlas

def maxNesting : Nat := 256

namespace Reading

def qualifiers : Reading (List Qualifier) := do
  let letters ← takeWhile fun c => (Qualifier.ofCode? c).isSome
  return letters.filterMap Qualifier.ofCode?

/-- Splits at the end of the name of a struct or union: the first `=` or closing character that
    no angle bracket encloses. A closing angle bracket that nothing opened counts for nothing. -/
def splitTag (closing : Char) : (depth : Nat) → List Char → List Char × List Char
  | _, [] => ([], [])
  | depth, c :: cs =>
    if depth = 0 ∧ (c = '=' ∨ c = closing) then ([], c :: cs)
    else
      let inner := if c = '<' then depth + 1 else if c = '>' then depth - 1 else depth
      let (name, rest) := splitTag closing inner cs
      (c :: name, rest)

/-- Reads the name of a struct or union; `?` and the empty name stand for none. -/
def tag (closing : Char) : Reading (Option String) := do
  let c ← get
  let (name, rest) := splitTag closing 0 c.rest
  set (c.past name rest)
  if rest.isEmpty then throw (.unexpectedEnd (← position))
  return if name = [] ∨ name = ['?'] then none else some (String.ofList name)

/-- Reads members up to the closing character and past it; `fuel` exceeds their number. -/
def members (item : Reading ObjcType) (closing : Char) : (fuel : Nat) → Reading (List Member)
  | 0 => do throw (.unexpectedEnd (← position))
  | fuel + 1 => do
    match ← peek with
    | none => throw (.unexpectedEnd (← position))
    | some c =>
      if c = closing then
        let _ ← next
        return []
      else if c = '"' then
        let _ ← next
        let name ← quoted
        let type ← item
        return ⟨some (String.ofList name), type⟩ :: (← members item closing fuel)
      else
        let type ← item
        return ⟨none, type⟩ :: (← members item closing fuel)

/-- Reads a struct or union behind its opening character. Members are read as named ones when the
    first of them has a name. -/
def aggregate (nested : Bool → Reading ObjcType) (kind : AggregateKind) : Reading ObjcType := do
  let name ← tag kind.closing
  if (← peek) = some kind.closing then
    let _ ← next
    return .incomplete kind name
  expect '='
  let named := (← peek) == some '"'
  let ms ← members (nested named) kind.closing ((← get).rest.length + 1)
  return .aggregate kind name ms

def arguments (item : Reading ObjcType) : (fuel : Nat) → Reading (List ObjcType)
  | 0 => do throw (.unexpectedEnd (← position))
  | fuel + 1 => do
    match ← peek with
    | none => throw (.unexpectedEnd (← position))
    | some '>' =>
      let _ ← next
      return []
    | some _ =>
      let type ← item
      return type :: (← arguments item fuel)

def splitPayload (payload : List Char) : ObjcType :=
  let className := payload.takeWhile (· != '<')
  let pieces := Text.splitAtAny (fun c => c == '<' || c == '>' || c == ',')
    (payload.dropWhile (· != '<'))
  let protocols := (pieces.map Text.trim).filter fun p => !p.isEmpty
  .object (if className.isEmpty then none else some (String.ofList className))
    (protocols.map String.ofList)

/-- Whether the quoted text behind an opening quote is followed by the next member's name, by the
    end of an aggregate or by nothing. -/
def closesMember (afterQuote : List Char) : Bool :=
  match afterQuote.dropWhile (· != '"') with
  | [] => false
  | _ :: [] => true
  | _ :: c :: _ => c == '"' || c == '\x7d' || c == ')'

/-- Reads an object or block behind its `@`. Among named members a quoted text is the class only
    if it closes the member; else it is the next member's name. -/
def object (nested : Bool → Reading ObjcType) (named : Bool) : Reading ObjcType := do
  match ← peek with
  | some '?' =>
    let _ ← next
    if (← peek) = some '<' then
      let _ ← next
      let returns ← nested false
      let args ← arguments (nested false) ((← get).rest.length + 1)
      return .blockOf returns args
    else return .block
  | some '"' =>
    if named && !closesMember ((← get).rest.drop 1) then return .id
    else
      let _ ← next
      return splitPayload (← quoted)
  | _ => return .id

def unqualified (nested : Bool → Reading ObjcType) (named : Bool) : Reading ObjcType := do
  let start ← position
  let c ← any
  if c = '^' then return .pointer (← nested named)
  else if c = '[' then
    let length ← number
    let element ← nested false
    expect ']'
    return .array length element
  else if c = AggregateKind.struct.opening then aggregate nested .struct
  else if c = AggregateKind.union.opening then aggregate nested .union
  else if c = 'b' then
    let digits ← position
    let width ← number
    if width.toNat < UInt32.size then return .bitfield (UInt32.ofNat width.toNat)
    else throw (.invalidNumber digits)
  else if c = '@' then object nested named
  else match Primitive.ofCode? c with
    | some p => return .primitive p
    | none => throw (.unexpectedChar start c)

/-- Reads a type with at most `budget` types nested along any path. `named` says that it is a
    member of an aggregate whose members have names. -/
def typeWithin : (budget : Nat) → (named : Bool) → Reading ObjcType
  | 0, _ => do throw (.tooDeep (← position))
  | budget + 1, named => do
    let qs ← qualifiers
    let inner ← unqualified (typeWithin budget) named
    return if qs.isEmpty then inner else .qualified qs inner

def type : Reading ObjcType := typeWithin maxNesting false

end Reading

def Reading.run {α : Type} (r : Reading α) (c : Cursor) : Except DecodeError α :=
  match EStateM.run r c with
  | .ok a _ => .ok a
  | .error e _ => .error e

def Cursor.isBlank (c : Cursor) : Bool := c.position == 0 && c.rest.isEmpty

namespace Reading

def nonempty : Reading Unit := do
  if (← get).isBlank then throw .empty

def complete : Reading ObjcType := do
  nonempty
  let t ← type
  if (← get).rest.isEmpty then return t
  else throw (.trailingInput (← position))

end Reading

namespace ObjcType

def decode (encoding : String) : Except DecodeError ObjcType :=
  Reading.complete.run (.ofString encoding)

def readLeading (encoding : List Char) : Except DecodeError (ObjcType × Cursor) :=
  if encoding.isEmpty then .error .empty
  else match Reading.type ⟨0, encoding⟩ with
    | .ok t c => .ok (t, c)
    | .error e _ => .error e

/-- The type at the front of an encoding, and the number of bytes it takes. -/
def decodeLeading (encoding : String) : Except DecodeError (ObjcType × Nat) :=
  (readLeading encoding.toList).map fun (t, c) => (t, c.position)

end ObjcType

end ObjcAtlas
