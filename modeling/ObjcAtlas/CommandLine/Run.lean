import ObjcAtlas.CommandLine.Arguments
import ObjcAtlas.Report.Decoded
import ObjcAtlas.Report.Fixups
import ObjcAtlas.Report.Overview

set_option autoImplicit false

namespace ObjcAtlas

structure Outcome where
  exitCode : UInt8 := 0
  output : String := ""
  errors : String := ""
deriving DecidableEq, Repr

structure Failure where
  message : String
  cause : Option String := none
deriving DecidableEq, Repr

namespace Failure

def indented (s : String) : String :=
  "    " ++ "\n    ".intercalate ((Text.splitAtAny (· == '\n') s.toList).map String.ofList)

def text (f : Failure) : String :=
  "Error: " ++ f.message ++ "\n" ++
    ((f.cause.map fun c => "\nCaused by:\n" ++ indented c ++ "\n").getD "")

end Failure

namespace Outcome

def printed (output : String) : Outcome := { output }

def failed (f : Failure) : Outcome := { exitCode := 1, errors := f.text }

/-- A run that ends in a trap. Its message is the machine's and is left out. -/
def trapped : Outcome := { exitCode := 101 }

def misused : Outcome :=
  { exitCode := 2, errors := "Usage: objcray [OPTIONS] [BINARY] [COMMAND]\n" }

end Outcome

namespace Invocation

def slice (i : Invocation) (path : String) (bytes : ByteArray) : Except Failure Slice := do
  if Container.detect bytes = .unknown then
    throw { message := path ++ " is not a Mach-O or fat binary" }
  let selector ← match i.arch with
    | none => pure none
    | some name => match ArchSelector.named? name with
      | some selector => pure (some selector)
      | none => throw { message := "Unknown architecture '" ++ name ++ "'" }
  (Slice.load bytes selector).mapError fun e =>
    { message := "Failed to parse Mach-O file: " ++ path, cause := some e.message }

def options (i : Invocation) : ExtractOptions :=
  { slide := i.slide, decodeTypes := !i.rawTypes }

/-- Shows the metadata of an image, unless there are none for a trap. -/
def showing (i : Invocation) (s : Slice) (text : Metadata → Except Failure String) :
    Except Failure Outcome :=
  match Metadata.extract s i.options with
  | some m => return .printed (← text m)
  | none => return .trapped

def overview (s : Slice) (bytes : ByteArray) (metadata : Metadata) : Except Failure Overview := do
  let images ← (Placement.list bytes).mapError fun e =>
    { message := "Failed to read fat header", cause := some e.message }
  return { slice := s, metadata, siblings := images.map Placement.architecture }

def report (i : Invocation) (s : Slice) (bytes : ByteArray) : Topic → Except Failure Outcome
  | .info => i.showing s fun m => return Report.overview (← overview s bytes m) i.format
  | .classes => i.showing s fun m => return Report.classes m i.format
  | .protocols => i.showing s fun m => return Report.protocols m i.format
  | .categories => i.showing s fun m => return Report.categories m i.format
  | .warnings => i.showing s fun m => return Report.warnings m i.format
  | .fixups bindsOnly => do
    let entries ← (s.fixupEntries i.slide bindsOnly).mapError fun e => { message := e.message }
    return {
      output := Report.fixups entries i.format
      errors := Report.ignoredFixups s i.format }

def decode (i : Invocation) (kind : EncodingKind) (encoding : String) : Except Failure Outcome :=
  match Report.decoded kind encoding i.format with
  | .ok text => .ok (.printed text)
  | .error e =>
    .error { message := "Failed to decode '" ++ encoding ++ "'", cause := some e.message }

def file? (i : Invocation) : Option String :=
  match i.action with
  | .image _ => i.path
  | .decode .. => none

/-- Carries out the invocation; `contents` are the bytes of its file, or why there are none. -/
def perform (i : Invocation) (contents : Except String ByteArray) : Except Failure Outcome :=
  match i.action, i.path with
  | .decode kind encoding, _ => i.decode kind encoding
  | .image _, none =>
    .error { message := "No binary given. Usage: objcray <binary> [command]" }
  | .image topic, some path => do
    let bytes ← contents.mapError fun reason =>
      { message := "Failed to read binary: " ++ path, cause := some reason }
    let s ← i.slice path bytes
    i.report s bytes topic

def run (i : Invocation) (contents : Except String ByteArray) : Outcome :=
  match i.perform contents with
  | .ok outcome => outcome
  | .error f => .failed f

end Invocation

end ObjcAtlas
