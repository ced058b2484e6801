import ObjcAtlas.Encoding.Type
import ObjcAtlas.Text.Number

set_option autoImplicit false

namespace ObjcAtlas.ObjcType

def spellQuoted (s : String) : List Char := '"' :: s.toList ++ ['"']

/-- The name of a struct or union; `?` when it has none. -/
def spellTag (name : Option String) : List Char := (name.getD "?").toList

def spellPayload (className : Option String) (protocols : List String) : List Char :=
  (className.getD "").toList ++ protocols.flatMap fun p => '<' :: p.toList ++ ['>']

def spellObject (className : Option String) (protocols : List String) : List Char :=
  if className.isNone && protocols.isEmpty then ['@']
  else '@' :: '"' :: spellPayload className protocols ++ ['"']

mutual

def spell : ObjcType → List Char
  | .primitive p => [p.code]
  | .pointer t => '^' :: spell t
  | .array n t => '[' :: Nat.toDigits 10 n.toNat ++ spell t ++ [']']
  | .aggregate k n ms => k.opening :: spellTag n ++ '=' :: spellMembers ms ++ [k.closing]
  | .incomplete k n => k.opening :: spellTag n ++ [k.closing]
  | .bitfield w => 'b' :: Nat.toDigits 10 w.toNat
  | .object c ps => spellObject c ps
  | .block => ['@', '?']
  | .blockOf r ts => '@' :: '?' :: '<' :: spell r ++ spellTypes ts ++ ['>']
  | .qualified qs t => qs.map Qualifier.code ++ spell t
termination_by structural t => t

def spellMember : Member → List Char
  | ⟨none, t⟩ => spell t
  | ⟨some n, t⟩ => spellQuoted n ++ spell t
termination_by structural m => m

def spellMembers : List Member → List Char
  | [] => []
  | m :: ms => spellMember m ++ spellMembers ms
termination_by structural ms => ms

def spellTypes : List ObjcType → List Char
  | [] => []
  | t :: ts => spell t ++ spellTypes ts
termination_by structural ts => ts

end

def encode (t : ObjcType) : String := String.ofList (spell t)

def displayProtocols (protocols : List String) : String :=
  if protocols.isEmpty then "" else "<" ++ ", ".intercalate protocols ++ ">"

def display : ObjcType → String
  | .primitive p => p.cName
  | .pointer (.primitive .unknown) => "void (*)(void)"
  | .pointer t => display t ++ " *"
  | .array n t => display t ++ "[" ++ Text.decimal n.toNat ++ "]"
  | .aggregate k n _ => k.keyword ++ " " ++ n.getD "?"
  | .incomplete k n => k.keyword ++ " " ++ n.getD "?"
  | .bitfield w => "unsigned int :" ++ Text.decimal w.toNat
  | .object (some c) ps => c ++ displayProtocols ps ++ " *"
  | .object none ps => "id" ++ displayProtocols ps
  | .block => "id /* block */"
  | .blockOf _ _ => "id /* block */"
  | .qualified qs t => String.join (qs.map fun q => q.keyword ++ " ") ++ display t

end ObjcAtlas.ObjcType
