import ObjcAtlas.Report.Lines
import ObjcAtlas.Encoding.Memo

set_option autoImplicit false

namespace ObjcAtlas

inductive Topic where
  | info | classes | protocols | categories | warnings
  | fixups (bindsOnly : Bool)
deriving DecidableEq, Repr

inductive Action where
  | image (topic : Topic)
  | decode (kind : EncodingKind) (encoding : String)
deriving DecidableEq, Repr

structure Invocation where
  path : Option String := none
  action : Action := .image .classes
  arch : Option String := none
  slide : UInt64 := 0
  rawTypes : Bool := false
  format : ReportFormat := .text
deriving DecidableEq, Repr

/-- The address distance that a text spells: hexadecimal digits, a plus sign before them, and
    `0x` before that, the last two at will. -/
def slideOfText? (s : String) : Option UInt64 := do
  let s := (Text.afterLead? "0x" s).getD s
  let digits := (Text.afterLead? "+" s).getD s
  let n ← Text.hexValue? digits.toList
  if n < UInt64.size then some (UInt64.ofNat n) else none

structure Arguments where
  path : Option String := none
  arch : Option String := none
  slide : Option String := none
  flags : List String := []
  command : Option String := none
  encoding : Option String := none
  /-- Option whose value is the next argument. -/
  pending : Option String := none
  /-- Whether `--` has been read. -/
  literal : Bool := false
deriving DecidableEq, Repr

namespace Arguments

def commands : List String :=
  ["info", "classes", "protocols", "categories", "warnings", "fixups", "decode"]

/-- Flags that may stand behind a command, or before any. -/
def flagsAt : Option String → List String
  | none => ["--json", "--raw-types"]
  | some "fixups" => ["--json", "--binds"]
  | some "decode" => ["--json", "--method", "--property"]
  | some _ => ["--json"]

def has (a : Arguments) (flag : String) : Bool := a.flags.contains flag

def isVerbosity (s : String) : Bool :=
  s == "--verbose" || match s.toList with
    | '-' :: 'v' :: vs => vs.all (· == 'v')
    | _ => false

def isOption (s : String) : Bool := s != "-" && (Text.afterLead? "-" s).isSome

def fill? : Option String → String → Option (Option String)
  | none, s => some (some s)
  | some _, _ => none

def value? (a : Arguments) (option value : String) : Option Arguments :=
  match option with
  | "--arch" => (fill? a.arch value).map fun arch => { a with arch }
  | "--slide" => (fill? a.slide value).map fun slide => { a with slide }
  | _ => none

def splitOption? (s : String) : Option (String × String) :=
  match s.toList.span (· != '=') with
  | (option, _ :: value) => some (String.ofList option, String.ofList value)
  | (_, []) => none

def option? (a : Arguments) (s : String) : Option Arguments :=
  if (flagsAt a.command).contains s then
    if a.has s then none else some { a with flags := s :: a.flags }
  else if a.command.isSome then none
  else match splitOption? s with
    | some (option, value) => a.value? option value
    | none => some { a with pending := some s }

/-- Takes in a path, a command or an encoding. Of these only an encoding may be empty. -/
def operand? (a : Arguments) (s : String) : Option Arguments :=
  match a.command with
  | none =>
    if !a.literal && commands.contains s then some { a with command := some s }
    else if s.isEmpty then none
    else (fill? a.path s).map fun path => { a with path }
  | some "decode" => (fill? a.encoding s).map fun encoding => { a with encoding }
  | some _ => none

def step? (a : Arguments) (s : String) : Option Arguments :=
  match a.pending with
  | some option => if isOption s then none else { a with pending := none }.value? option s
  | none =>
    if a.literal then a.operand? s
    else if s == "--" then some { a with literal := true }
    else if isVerbosity s then some a
    else if isOption s then a.option? s
    else a.operand? s

/-- The action that the arguments name; classes are shown where they name none. -/
def action? (a : Arguments) : Option Action :=
  match a.command with
  | none | some "classes" => some (.image .classes)
  | some "info" => some (.image .info)
  | some "protocols" => some (.image .protocols)
  | some "categories" => some (.image .categories)
  | some "warnings" => some (.image .warnings)
  | some "fixups" => some (.image (.fixups (a.has "--binds")))
  | some _ =>
    match a.encoding, a.has "--method", a.has "--property" with
    | none, _, _ | _, true, true => none
    | some s, true, false => some (.decode .signature s)
    | some s, false, true => some (.decode .property s)
    | some s, false, false => some (.decode .type s)

def invocation? (a : Arguments) : Option Invocation := do
  if a.pending.isSome then none
  let action ← a.action?
  let slide ← slideOfText? (a.slide.getD "0")
  return {
    path := a.path, action, arch := a.arch, slide
    rawTypes := a.has "--raw-types"
    format := if a.has "--json" then .json else .text }

end Arguments

def Invocation.ofArguments? (arguments : List String) : Option Invocation := do
  (← arguments.foldlM Arguments.step? {}).invocation?

end ObjcAtlas
