import ObjcAtlas.Text.Number

set_option autoImplicit false

namespace ObjcAtlas

inductive Json where
  | null
  | bool (b : Bool)
  | number (n : Int)
  | string (s : String)
  | array (items : List Json)
  | object (fields : List (String × Json))

namespace Json

def escaped (c : Char) : String :=
  if c = '"' then "\\\""
  else if c = '\\' then "\\\\"
  else if c = '\x08' then "\\b"
  else if c = '\t' then "\\t"
  else if c = '\n' then "\\n"
  else if c = '\x0c' then "\\f"
  else if c = '\r' then "\\r"
  else if c.toNat < 0x20 then "\\u" ++ Text.padLeft '0' 4 (Text.hexDigits c.toNat)
  else c.toString

def quote (s : String) : String := "\"" ++ String.join (s.toList.map escaped) ++ "\""

def indent (depth : Nat) : String := String.ofList (List.replicate (2 * depth) ' ')

mutual
def compact : Json → String
  | .null => "null"
  | .bool b => if b then "true" else "false"
  | .number n => Text.decimalInt n
  | .string s => quote s
  | .array items => "[" ++ ",".intercalate (compactItems items) ++ "]"
  | .object fields => "\x7b" ++ ",".intercalate (compactFields fields) ++ "\x7d"
termination_by structural v => v

def compactItems : List Json → List String
  | [] => []
  | v :: vs => compact v :: compactItems vs
termination_by structural vs => vs

def compactFields : List (String × Json) → List String
  | [] => []
  | f :: fs => compactField f :: compactFields fs
termination_by structural fs => fs

def compactField : String × Json → String
  | (name, v) => quote name ++ ":" ++ compact v
termination_by structural f => f
end

def block (opening closing : String) (depth : Nat) (items : List String) : String :=
  if items.isEmpty then opening ++ closing
  else
    let lines := items.map fun item => indent (depth + 1) ++ item
    opening ++ "\n" ++ ",\n".intercalate lines ++ "\n" ++ indent depth ++ closing

mutual
/-- The value over several lines, as it stands at nesting `depth`. -/
def prettyAt : Json → Nat → String
  | .null, _ => "null"
  | .bool b, _ => if b then "true" else "false"
  | .number n, _ => Text.decimalInt n
  | .string s, _ => quote s
  | .array items, depth => block "[" "]" depth (prettyItems items depth)
  | .object fields, depth => block "\x7b" "\x7d" depth (prettyFields fields depth)
termination_by structural v => v

def prettyItems : List Json → Nat → List String
  | [], _ => []
  | v :: vs, depth => prettyAt v (depth + 1) :: prettyItems vs depth
termination_by structural vs => vs

def prettyFields : List (String × Json) → Nat → List String
  | [], _ => []
  | f :: fs, depth => prettyField f depth :: prettyFields fs depth
termination_by structural fs => fs

def prettyField : String × Json → Nat → String
  | (name, v), depth => quote name ++ ": " ++ prettyAt v (depth + 1)
termination_by structural f => f
end

def pretty (v : Json) : String := prettyAt v 0

def nat (n : Nat) : Json := .number n
def word (n : UInt64) : Json := .number n.toNat
def half (n : UInt32) : Json := .number n.toNat

def option {α : Type} (f : α → Json) : Option α → Json
  | none => .null
  | some a => f a

def list {α : Type} (f : α → Json) (items : List α) : Json := .array (items.map f)

/-- An object with a single field, which names the alternative that a value takes. -/
def tagged (tag : String) (payload : Json) : Json := .object [(tag, payload)]

def lookup (name : String) : List (String × Json) → Json
  | [] => .null
  | (key, v) :: fs => if key = name then v else lookup name fs

def named? (first second : String) : Json → Option (Json × Json)
  | .object fields => some (lookup first fields, lookup second fields)
  | _ => none

/-- The two parts of a record, by name or as an array of both in their order. -/
def pair? (first second : String) : Json → Option (Json × Json)
  | .array [a, b] => some (a, b)
  | v => v.named? first second

def text? : Json → Option String
  | .string s => some s
  | _ => none

def optionalText? : Json → Option (Option String)
  | .null => some none
  | v => v.text?.map some

def items? : Json → Option (List Json)
  | .array items => some items
  | _ => none

/-- A word out of a fixed list: a text, or a field with that name and nothing behind it. -/
def choice? : Json → Option String
  | .object [(word, .null)] => some word
  | v => v.text?

/-- A number from zero on and below `bound`. -/
def below? (bound : Nat) : Json → Option Nat
  | .number n => if 0 ≤ n ∧ n.toNat < bound then some n.toNat else none
  | _ => none

theorem sizeOf_lookup_lt (name : String) (fields : List (String × Json)) :
    sizeOf (lookup name fields) < sizeOf (Json.object fields) := by
  induction fields with
  | nil => simp [lookup]
  | cons f fs ih =>
    obtain ⟨key, v⟩ := f
    simp only [lookup, object.sizeOf_spec, List.cons.sizeOf_spec, Prod.mk.sizeOf_spec] at ih ⊢
    split <;> omega

theorem sizeOf_named?_lt {first second : String} {v a b : Json}
    (h : v.named? first second = some (a, b)) : sizeOf a < sizeOf v ∧ sizeOf b < sizeOf v := by
  cases v with
  | object fields =>
    simp only [named?, Option.some.injEq, Prod.mk.injEq] at h
    obtain ⟨rfl, rfl⟩ := h
    exact ⟨sizeOf_lookup_lt first fields, sizeOf_lookup_lt second fields⟩
  | _ => simp [named?] at h

theorem sizeOf_pair?_lt {first second : String} {v a b : Json}
    (h : v.pair? first second = some (a, b)) : sizeOf a < sizeOf v ∧ sizeOf b < sizeOf v := by
  unfold pair? at h
  split at h
  · simp only [Option.some.injEq, Prod.mk.injEq] at h
    obtain ⟨rfl, rfl⟩ := h
    simp only [array.sizeOf_spec, List.cons.sizeOf_spec]
    omega
  · exact sizeOf_named?_lt h

theorem sizeOf_items?_lt {v : Json} {items : List Json} (h : v.items? = some items) :
    sizeOf items < sizeOf v := by
  cases v with
  | array vs =>
    simp only [items?, Option.some.injEq] at h
    subst h
    simp
  | _ => simp [items?] at h

end Json

end ObjcAtlas
