import Std.Data.TreeMap
import ObjcAtlas.Metadata.Record
import ObjcAtlas.Text.Quoted

set_option autoImplicit false

/-!
# Extraction

An extraction is one pass over the records of an image. What it cannot read it warns of and leaves
out. Addresses are moved by the slide and encodings are decoded where they are met, so there is one
list of warnings, in the order of the pass. A number that a machine has no room for is a trap.
-/
namespace ObjcAtlas

structure ExtractOptions where
  slide : UInt64 := 0
  decodeTypes : Bool := true
deriving DecidableEq, Repr

namespace Slice

/-- What a pointer slot holds in the unmoved image, without tags. -/
def target (s : Slice) (slot : UInt64) : Except ImageError SlotValue := do
  let offset ← s.fileOffset slot
  match ← s.resolve offset 0 with
  | .address a => return .address (s.bits.untagged a)
  | value => return value

def u32At (s : Slice) (address : UInt64) : Except ImageError UInt32 := do
  s.reader.u32 (← s.fileOffset address)

def i32At (s : Slice) (address : UInt64) : Except ImageError Int32 := do
  s.reader.i32 (← s.fileOffset address)

def wordAt (s : Slice) (address : UInt64) : Except ImageError UInt64 := do
  s.reader.pointer s.bits (← s.fileOffset address)

def isEncryptedAt (s : Slice) (address : UInt64) : Bool :=
  match s.fileOffset address with
  | .ok offset => s.isEncryptedOffset offset
  | .error _ => false

end Slice

structure Progress where
  warnings : Array Warning := #[]
  /-- Names of the classes that were looked up, `none` where there was none to read. -/
  names : Std.TreeMap UInt64 (Option String) := ∅
  memo : DecodeMemo := {}

/-- A step of an extraction, which gives nothing when it traps. -/
abbrev Extraction := ReaderT ExtractOptions (StateT Progress Option)

namespace Extraction

def trap {α : Type} : Extraction α := fun _ _ => none

def slid (address : UInt64) : Extraction UInt64 := fun options => pure (address + options.slide)

def note (w : Warning) : Extraction Unit :=
  modify fun p => { p with warnings := p.warnings.push w }

def warn (kind : WarningKind) (address : UInt64) (message : String) : Extraction Unit := do
  note ⟨kind, ← slid address, message⟩

def warnUnread (address : UInt64) (what : String) (e : ImageError) : Extraction Unit := do
  note (.ofError (← slid address) what e)

def warnDangling (slot address : UInt64) (what : String) : Extraction Unit :=
  warn .danglingReference slot (what ++ " points to unmapped address " ++ Text.hex address.toNat)

def lost {α : Type} (warning : Extraction Unit) : Extraction (Option α) := do
  warning
  return none

/-- Takes a step and tells whether it left a warning about anything but syntax. -/
def watched {α : Type} (step : Extraction α) : Extraction (α × Bool) := do
  let mark := (← get).warnings.size
  let a ← step
  let since := (← get).warnings.extract mark
  return (a, since.any fun w => w.kind != .typeSyntax)

def collect {α β : Type} (step : α → Extraction (Option β)) : List α → Extraction (List β)
  | [] => return []
  | a :: as => do
    let found ← step a
    let rest ← collect step as
    return found.toList ++ rest

/-- What one of the decoders makes of an encoding, after a warning if it fails. An empty encoding is
    not decoded, and none is if that was not asked for. -/
def decoded {α : Type} (kind : EncodingKind)
    (ask : DecodeMemo → String → Except DecodeError α × DecodeMemo) (address : UInt64)
    (text : String) : Extraction (Option α) := do
  if !(← readThe ExtractOptions).decodeTypes || text.isEmpty then return none
  let (result, memo) := ask (← get).memo text
  modify fun p => { p with memo }
  match result with
  | .ok a => return some a
  | .error e =>
    lost (warn .typeSyntax address (kind.noun ++ " " ++ Text.quoted text ++ ": " ++ e.message))

def read {α : Type} (address : UInt64) (what : String) :
    Except ImageError α → Extraction (Option α)
  | .ok a => return some a
  | .error e => lost (warnUnread address what e)

def u32 (s : Slice) (address : UInt64) (what : String) : Extraction UInt32 := do
  return (← read address what (s.u32At address)).getD 0

def follow (s : Slice) (slot : UInt64) (what : String) : Extraction (Option UInt64) :=
  match s.target slot with
  | .ok .null => return none
  | .ok (.address a) => if s.isMapped a then return some a else lost (warnDangling slot a what)
  | .ok (.symbol t) => lost (warn .unexpectedBind slot (what ++ " is bound to " ++ t.symbol))
  | .error e => lost (warnUnread slot what e)

def text (s : Slice) (address : UInt64) (what : String) : Extraction (Option String) :=
  if s.isEncryptedAt address then
    lost (warn .encryptedRegion address (what ++ " lies in the encrypted range"))
  else read address what (s.cstringAt address)

def followText (s : Slice) (slot : UInt64) (what : String) : Extraction (Option String) := do
  let some address ← follow s slot what | return none
  text s address what

end Extraction

end ObjcAtlas
