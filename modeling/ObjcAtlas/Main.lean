import ObjcAtlas.CommandLine.Run

set_option autoImplicit false

open ObjcAtlas

def readContents : Option String → IO (Except String ByteArray)
  | none => return .error "no file"
  | some path => do
    try return .ok (← IO.FS.readBinFile path)
    catch e => return .error (toString e)

def main (arguments : List String) : IO UInt32 := do
  let outcome ← match Invocation.ofArguments? arguments with
    | some i => pure (i.run (← readContents i.file?))
    | none => pure .misused
  (← IO.getStderr).putStr outcome.errors
  (← IO.getStdout).putStr outcome.output
  return outcome.exitCode.toUInt32
