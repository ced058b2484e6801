import ObjcAtlas.Encoding.Type
import ObjcAtlas.Json

set_option autoImplicit false

namespace ObjcAtlas

def Primitive.ofJson? (v : Json) : Option Primitive := v.choice?.bind Primitive.ofLabel?

def Qualifier.ofJson? (v : Json) : Option Qualifier := v.choice?.bind Qualifier.ofLabel?

namespace ObjcType

mutual

def ofJson? (v : Json) : Option ObjcType :=
  match v with
  | .object [(tag, payload)] => ofTagged? tag payload
  | _ => none
termination_by (sizeOf v, 0)

def ofTagged? (tag : String) (v : Json) : Option ObjcType :=
  match tag with
  | "primitive" => (Primitive.ofJson? v).map .primitive
  | "pointer" => (ofJson? v).map .pointer
  | "array" =>
    match h : v.named? "length" "element" with
    | some (length, element) => do
      have := Json.sizeOf_named?_lt h
      return .array (.ofNat (← length.below? UInt64.size)) (← ofJson? element)
    | none => none
  | "struct" => ofAggregate? .struct v
  | "union" => ofAggregate? .union v
  | "bitfield" => (v.below? UInt32.size).map fun width => .bitfield (.ofNat width)
  | "object" => do
    let (name, protocols) ← v.pair? "class_name" "protocols"
    return .object (← name.optionalText?) (← (← protocols.items?).mapM Json.text?)
  | "block" =>
    match h : v.pair? "return_type" "arguments" with
    | some (returns, arguments) => do
      have := Json.sizeOf_pair?_lt h
      return .blockOf (← ofJson? returns) (← ofArguments? arguments)
    | none => match v with
      | .null => some .block
      | _ => none
  | "qualified" =>
    match h : v.named? "qualifiers" "inner" with
    | some (qualifiers, inner) => do
      have := Json.sizeOf_named?_lt h
      return .qualified (← (← qualifiers.items?).mapM Qualifier.ofJson?) (← ofJson? inner)
    | none => none
  | _ => none
termination_by (sizeOf v, 1)

/-- A struct or union; without members if they are null. -/
def ofAggregate? (kind : AggregateKind) (v : Json) : Option ObjcType :=
  match h : v.pair? "name" "fields" with
  | some (name, .null) => name.optionalText?.map (.incomplete kind)
  | some (name, members) =>
    match hm : members.items? with
    | some items => do
      have := (Json.sizeOf_pair?_lt h).2
      have := Json.sizeOf_items?_lt hm
      return .aggregate kind (← name.optionalText?) (← ofMembers? items)
    | none => none
  | none => none
termination_by (sizeOf v, 0)

def ofMembers? (items : List Json) : Option (List Member) :=
  match items with
  | [] => some []
  | v :: vs =>
    match h : v.pair? "name" "type" with
    | some (name, type) => do
      have := (Json.sizeOf_pair?_lt h).2
      return ⟨← name.optionalText?, ← ofJson? type⟩ :: (← ofMembers? vs)
    | none => none
termination_by (sizeOf items, 0)

def ofArguments? (v : Json) : Option (List ObjcType) :=
  match h : v.items? with
  | some items =>
    have := Json.sizeOf_items?_lt h
    ofTypes? items
  | none => none
termination_by (sizeOf v, 0)

def ofTypes? (items : List Json) : Option (List ObjcType) :=
  match items with
  | [] => some []
  | v :: vs => do return (← ofJson? v) :: (← ofTypes? vs)
termination_by (sizeOf items, 0)

end

end ObjcType

end ObjcAtlas
