import ObjcAtlas.Extraction.Basic

set_option autoImplicit false

/-!
# Surveys

A survey is an extraction without the slide and without the decoders. It never traps: what it cannot
read it writes to its log and leaves out. The log also keeps, in its place among the warnings, every
encoding that was met, so that decoding can wait until the survey is over. Addresses are those of
the unmoved image. `Extraction.mirrors_image` compares the two step by step.
-/
namespace ObjcAtlas

inductive Event where
  | warning (w : Warning)
  | encoding (address : UInt64) (kind : EncodingKind) (text : String)
deriving DecidableEq, Repr

def Event.isWarning : Event → Bool
  | .warning _ => true
  | .encoding .. => false

structure Notes where
  log : Array Event := #[]
  names : Std.TreeMap UInt64 (Option String) := ∅

abbrev Survey := StateM Notes

namespace Survey

def note (event : Event) : Survey Unit := modify fun n => { n with log := n.log.push event }

def warn (kind : WarningKind) (address : UInt64) (message : String) : Survey Unit :=
  note (.warning ⟨kind, address, message⟩)

def warnUnread (address : UInt64) (what : String) (e : ImageError) : Survey Unit :=
  note (.warning (.ofError address what e))

def warnDangling (slot address : UInt64) (what : String) : Survey Unit :=
  warn .danglingReference slot (what ++ " points to unmapped address " ++ Text.hex address.toNat)

def lost {α : Type} (warning : Survey Unit) : Survey (Option α) := do
  warning
  return none

/-- Keeps an encoding that a record at `address` holds, unless it is empty. -/
def noteEncoding (address : UInt64) (kind : EncodingKind) (text : String) : Survey Unit :=
  if text.isEmpty then return () else note (.encoding address kind text)

/-- Takes a step and tells whether it left a warning. -/
def watched {α : Type} (step : Survey α) : Survey (α × Bool) := fun n =>
  let (a, n') := step { n with log := #[] }
  ((a, n'.log.any Event.isWarning), { n' with log := n.log ++ n'.log })

def collect {α β : Type} (step : α → Survey (Option β)) : List α → Survey (List β)
  | [] => return []
  | a :: as => do
    let found ← step a
    let rest ← collect step as
    return found.toList ++ rest

def read {α : Type} (address : UInt64) (what : String) :
    Except ImageError α → Survey (Option α)
  | .ok a => return some a
  | .error e => lost (warnUnread address what e)

def u32 (s : Slice) (address : UInt64) (what : String) : Survey UInt32 := do
  return (← read address what (s.u32At address)).getD 0

def follow (s : Slice) (slot : UInt64) (what : String) : Survey (Option UInt64) :=
  match s.target slot with
  | .ok .null => return none
  | .ok (.address a) => if s.isMapped a then return some a else lost (warnDangling slot a what)
  | .ok (.symbol t) => lost (warn .unexpectedBind slot (what ++ " is bound to " ++ t.symbol))
  | .error e => lost (warnUnread slot what e)

def text (s : Slice) (address : UInt64) (what : String) : Survey (Option String) :=
  if s.isEncryptedAt address then
    lost (warn .encryptedRegion address (what ++ " lies in the encrypted range"))
  else read address what (s.cstringAt address)

def followText (s : Slice) (slot : UInt64) (what : String) : Survey (Option String) := do
  let some address ← follow s slot what | return none
  text s address what

end Survey

end ObjcAtlas
