import Std.Data.TreeMap
import ObjcAtlas.Encoding.Method
import ObjcAtlas.Encoding.Property

set_option autoImplicit false

namespace ObjcAtlas

inductive EncodingKind where
  | type | signature | property
deriving DecidableEq, Repr

def EncodingKind.noun : EncodingKind → String
  | .type => "type"
  | .signature => "method type"
  | .property => "property attributes"

structure MemoCounts where
  hits : Nat := 0
  misses : Nat := 0
deriving DecidableEq, Repr

abbrev Decodes (α : Type) := Std.TreeMap String (Except DecodeError α)

structure DecodeMemo where
  types : Decodes ObjcType := ∅
  signatures : Decodes MethodSignature := ∅
  properties : Decodes PropertyAttributes := ∅
  counts : MemoCounts := {}

namespace MemoCounts

def hit (c : MemoCounts) : MemoCounts := { c with hits := c.hits + 1 }
def miss (c : MemoCounts) : MemoCounts := { c with misses := c.misses + 1 }

end MemoCounts

/-- The remembered result, or a fresh one that is remembered from now on. -/
def Decodes.lookup {α : Type} (known : Decodes α) (counts : MemoCounts)
    (decode : String → Except DecodeError α) (encoding : String) :
    Except DecodeError α × Decodes α × MemoCounts :=
  match known[encoding]? with
  | some result => (result, known, counts.hit)
  | none => (decode encoding, known.insert encoding (decode encoding), counts.miss)

namespace DecodeMemo

def type (m : DecodeMemo) (encoding : String) : Except DecodeError ObjcType × DecodeMemo :=
  let (result, known, counts) := m.types.lookup m.counts ObjcType.decode encoding
  (result, { m with types := known, counts := counts })

def signature (m : DecodeMemo) (encoding : String) :
    Except DecodeError MethodSignature × DecodeMemo :=
  let (result, known, counts) := m.signatures.lookup m.counts MethodSignature.decode encoding
  (result, { m with signatures := known, counts := counts })

def property (m : DecodeMemo) (encoding : String) :
    Except DecodeError PropertyAttributes × DecodeMemo :=
  let (result, known, counts) := m.properties.lookup m.counts PropertyAttributes.decode encoding
  (result, { m with properties := known, counts := counts })

def type? (m : DecodeMemo) (encoding : String) : Option ObjcType :=
  m.types[encoding]?.bind Except.toOption

def signature? (m : DecodeMemo) (encoding : String) : Option MethodSignature :=
  m.signatures[encoding]?.bind Except.toOption

def property? (m : DecodeMemo) (encoding : String) : Option PropertyAttributes :=
  m.properties[encoding]?.bind Except.toOption

/-- Number of distinct encodings seen, each kind apart. -/
def size (m : DecodeMemo) : Nat := m.types.size + m.signatures.size + m.properties.size

def isEmpty (m : DecodeMemo) : Bool := m.size == 0

end DecodeMemo

end ObjcAtlas
