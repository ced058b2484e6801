import ObjcAtlas.Extraction.Basic

set_option autoImplicit false

namespace ObjcAtlas

structure ListHeader where
  flags : UInt32
  entrySize : UInt64
  count : Nat
deriving DecidableEq, Repr

def ListHeader.entries (h : ListHeader) (list : UInt64) : List UInt64 :=
  (List.range h.count).map fun i => list + 8 + UInt64.ofNat i * h.entrySize

/-- The address `distance` bytes from `place`, modulo `2 ^ 64`. -/
def relativeAddress (place : UInt64) (distance : Int32) : UInt64 :=
  place + distance.toInt64.toUInt64

namespace Extraction

def checkEntrySize (list : UInt64) (h : ListHeader) (least : UInt64) (what : String) :
    Extraction (Option ListHeader) :=
  if h.entrySize < least then
    lost (warn .malformedRecord list (what ++ " entry size " ++ Text.decimal h.entrySize.toNat ++
      " is below " ++ Text.decimal least.toNat))
  else return some h

/-- Reads the header of the list at `list`; `mask` are the bits that hold flags. -/
def listHeader (s : Slice) (list : UInt64) (least : UInt64) (mask : UInt32) (what : String) :
    Extraction (Option ListHeader) := do
  let words : Except ImageError (UInt32 × UInt32) := do
    return (← s.u32At list, ← s.u32At (list + 4))
  let some (first, count) ← read list what words | return none
  let header : ListHeader := ⟨first &&& mask, (first &&& ~~~mask).toUInt64, count.toNat⟩
  let some header ← checkEntrySize list header least what | return none
  if (s.bytesAt (list + 8) (header.entrySize.toNat * header.count)).isOk then return some header
  else lost (warn .outOfBounds list
    (what ++ " of " ++ Text.decimal header.count ++ " entries runs past its segment"))

def decodedMethod (entry : UInt64) (name encoding : String) (implementation : Option UInt64) :
    Extraction (Option MethodRecord) := do
  let signature ← decoded .signature DecodeMemo.signature entry encoding
  return some { name, encoding, signature, implementation }

def pointerMethod (s : Slice) (entry : UInt64) : Extraction (Option MethodRecord) := do
  let some name ← followText s entry "selector" | return none
  let encoding := (← followText s (entry + s.bits.words 1) "method types").getD ""
  let implementation ← match s.target (entry + s.bits.words 2) with
    | .ok (.address a) => some <$> slid a
    | _ => pure none
  decodedMethod entry name encoding implementation

/-- The method in an entry of three distances, each counted from its own place. The selector is
    there, or else a pointer to it. -/
def relativeMethod (s : Slice) (direct : Bool) (entry : UInt64) :
    Extraction (Option MethodRecord) := do
  let distances : Except ImageError (Int32 × Int32 × Int32) := do
    return (← s.i32At entry, ← s.i32At (entry + 4), ← s.i32At (entry + 8))
  let some (toName, toTypes, toCode) ← read entry "relative method" distances | return none
  let selector := relativeAddress entry toName
  let some name ← if direct then text s selector "selector"
    else followText s selector "selector reference" | return none
  let encoding := (← text s (relativeAddress (entry + 4) toTypes) "method types").getD ""
  let implementation ← if toCode = 0 then pure none
    else some <$> slid (relativeAddress (entry + 8) toCode)
  decodedMethod entry name encoding implementation

def method (s : Slice) (flags : UInt32) (entry : UInt64) : Extraction (Option MethodRecord) :=
  if Layout.isRelative flags then relativeMethod s (Layout.hasDirectSelectors flags) entry
  else pointerMethod s entry

def methodsAt (s : Slice) (list : UInt64) (what : String) : Extraction (List MethodRecord) := do
  let some header ← listHeader s list 0 Layout.methodFlagsMask what | return []
  let least := if Layout.isRelative header.flags then Layout.relativeMethodSize
    else Layout.methodSize s.bits
  let some header ← checkEntrySize list header least what | return []
  collect (method s header.flags) (header.entries list)

def methods (s : Slice) (slot : UInt64) (what : String) : Extraction (List MethodRecord) := do
  let some list ← follow s slot what | return []
  methodsAt s list what

/-- The offset that an instance variable keeps outside its entry. -/
def ivarOffset (s : Slice) (slot : UInt64) : Extraction (Option UInt32) := do
  let some address ← follow s slot "ivar offset" | return none
  read address "ivar offset" (s.u32At address)

def ivar (s : Slice) (entry : UInt64) : Extraction (Option IvarRecord) := do
  let offset ← ivarOffset s entry
  let name := (← followText s (entry + s.bits.words 1) "ivar name").getD ""
  let encoding := (← followText s (entry + s.bits.words 2) "ivar type").getD ""
  let alignment ← u32 s (entry + s.bits.words 3) "ivar alignment"
  let size ← u32 s (entry + s.bits.words 3 + 4) "ivar size"
  let type ← decoded .type DecodeMemo.type entry encoding
  return some { name, encoding, type, offset, size, alignment }

def ivars (s : Slice) (slot : UInt64) : Extraction (List IvarRecord) := do
  let some list ← follow s slot "ivar list" | return []
  let some header ← listHeader s list (Layout.ivarSize s.bits) 0 "ivar list" | return []
  collect (ivar s) (header.entries list)

def property (s : Slice) (entry : UInt64) : Extraction (Option PropertyRecord) := do
  let some name ← followText s entry "property name" | return none
  let attributes := (← followText s (entry + s.bits.words 1) "property attributes").getD ""
  let result ← decoded .property DecodeMemo.property entry attributes
  return some { name, attributes, decoded := result }

def properties (s : Slice) (slot : UInt64) (what : String) : Extraction (List PropertyRecord) := do
  let some list ← follow s slot what | return []
  let some header ← listHeader s list (Layout.propertySize s.bits) 0 what | return []
  collect (property s) (header.entries list)

def protocolName (s : Slice) (entry : UInt64) : Extraction (Option String) :=
  match s.target entry with
  | .ok (.address a) => followText s (a + ProtocolField.name.offset s.bits) "protocol name"
  | .ok (.symbol t) => return some (protocolOfSymbol t.symbol)
  | .ok .null => return none
  | .error e => lost (warnUnread entry "protocol reference" e)

def protocolNames (s : Slice) (slot : UInt64) : Extraction (List String) := do
  let some list ← follow s slot "protocol list" | return []
  let some count ← read list "protocol list" (s.wordAt list) | return []
  let first := list + s.bits.words 1
  if (s.bytesAt first (count.toNat * s.bits.pointerSize)).isOk then
    collect (protocolName s) ((List.range count.toNat).map fun i =>
      first + s.bits.words (UInt64.ofNat i))
  else
    warn .outOfBounds list
      ("protocol list of " ++ Text.decimal count.toNat ++ " entries runs past its segment")
    return []

end Extraction

end ObjcAtlas
