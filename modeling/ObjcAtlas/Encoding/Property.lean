import ObjcAtlas.Encoding.Decoder

set_option autoImplicit false

/-!
# Property attributes

A property is a list of attributes between commas, each a letter with an optional value. The type
comes first and may hold commas itself, so it ends where the type decoder says. When an attribute
occurs twice the last one counts.
-/
namespace ObjcAtlas

inductive Ownership where
  | assign | retain | copy | weak
deriving DecidableEq, Repr

namespace Ownership

def keyword : Ownership → String
  | .assign => "assign" | .retain => "strong" | .copy => "copy" | .weak => "weak"

def label : Ownership → String
  | .assign => "assign" | .retain => "retain" | .copy => "copy" | .weak => "weak"

end Ownership

structure PropertyAttributes where
  type : Option ObjcType := none
  ownership : Ownership := .assign
  readonly : Bool := false
  nonatomic : Bool := false
  dynamic : Bool := false
  getter : Option String := none
  setter : Option String := none
  ivar : Option String := none
  other : List String := []
deriving DecidableEq

namespace PropertyAttributes

def apply (p : PropertyAttributes) : List Char → PropertyAttributes
  | [] => p
  | 'R' :: _ => { p with readonly := true }
  | 'C' :: _ => { p with ownership := .copy }
  | '&' :: _ => { p with ownership := .retain }
  | 'W' :: _ => { p with ownership := .weak }
  | 'N' :: _ => { p with nonatomic := true }
  | 'D' :: _ => { p with dynamic := true }
  | 'G' :: value => { p with getter := some (String.ofList value) }
  | 'S' :: value => { p with setter := some (String.ofList value) }
  | 'V' :: value => { p with ivar := some (String.ofList value) }
  | item => { p with other := p.other ++ [String.ofList item] }

def applyAll (p : PropertyAttributes) (text : List Char) : PropertyAttributes :=
  (Text.splitAtAny (· == ',') text).foldl apply p

/-- The attributes in `text`, which starts with the type behind a `T`, if at all. -/
def decodeList : List Char → Except DecodeError PropertyAttributes
  | 'T' :: encoding =>
    match ObjcType.readLeading encoding with
    | .error e => .error (e.shift 1)
    | .ok (t, c) =>
      match c.rest with
      | [] => .ok { type := some t }
      | ',' :: rest => .ok (applyAll { type := some t } rest)
      | found :: _ => .error (.unexpectedChar (1 + c.position) found)
  | text => .ok (applyAll {} text)

def decode (attributes : String) : Except DecodeError PropertyAttributes :=
  decodeList attributes.toList

def keywords (p : PropertyAttributes) : List String :=
  (if p.nonatomic then ["nonatomic"] else []) ++
  (if p.readonly then ["readonly"] else []) ++
  (if p.ownership = .assign then [] else [p.ownership.keyword]) ++
  (p.getter.map ("getter=" ++ ·)).toList ++
  (p.setter.map ("setter=" ++ ·)).toList

end PropertyAttributes

end ObjcAtlas
