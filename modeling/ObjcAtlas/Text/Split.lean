set_option autoImplicit false

namespace ObjcAtlas.Text

/-- The pieces between separators, one more than there are separators. -/
def splitAtAny (isSeparator : Char → Bool) : List Char → List (List Char)
  | [] => [[]]
  | c :: cs =>
    let pieces := splitAtAny isSeparator cs
    if isSeparator c then [] :: pieces
    else match pieces with
      | [] => [[c]]
      | p :: ps => (c :: p) :: ps

/-- Characters with the property `White_Space`. -/
def isBlank (c : Char) : Bool :=
  let n := c.toNat
  (0x9 ≤ n && n ≤ 0xD) || n == 0x20 || n == 0x85 || n == 0xA0 || n == 0x1680 ||
    (0x2000 ≤ n && n ≤ 0x200A) || n == 0x2028 || n == 0x2029 || n == 0x202F || n == 0x205F ||
    n == 0x3000

def trim (cs : List Char) : List Char :=
  ((cs.dropWhile isBlank).reverse.dropWhile isBlank).reverse

def dropLead? : List Char → List Char → Option (List Char)
  | [], cs => some cs
  | _ :: _, [] => none
  | a :: as, c :: cs => if a = c then dropLead? as cs else none

def afterLead? (lead s : String) : Option String :=
  (dropLead? lead.toList s.toList).map String.ofList

end ObjcAtlas.Text
