import ObjcAtlas.Image.Segment

set_option autoImplicit false

namespace ObjcAtlas

inductive DylibLink where
  | load | weak | reexport | lazy | upward
deriving DecidableEq, Repr

inductive MinPlatform where
  | macOS | iPhoneOS | tvOS | watchOS
deriving DecidableEq, Repr

inductive LinkeditTable where
  | chainedFixups | exportsTrie | functionStarts | codeSignature
deriving DecidableEq, Repr

inductive CommandKind where
  | segment (bits : Bitness)
  | symtab
  | dysymtab
  | dylib (link : DylibLink)
  | idDylib
  | rpath
  | uuid
  | buildVersion
  | versionMin (platform : MinPlatform)
  | sourceVersion
  | entryPoint
  | encryption (bits : Bitness)
  | dyldInfo (only : Bool)
  | linkedit (table : LinkeditTable)
deriving DecidableEq, Repr

namespace CommandKind

def all : List CommandKind :=
  [.segment .bits32, .segment .bits64, .symtab, .dysymtab, .dylib .load, .dylib .weak,
    .dylib .reexport, .dylib .lazy, .dylib .upward, .idDylib, .rpath, .uuid, .buildVersion,
    .versionMin .macOS, .versionMin .iPhoneOS, .versionMin .tvOS, .versionMin .watchOS,
    .sourceVersion, .entryPoint, .encryption .bits32, .encryption .bits64, .dyldInfo false,
    .dyldInfo true, .linkedit .chainedFixups, .linkedit .exportsTrie, .linkedit .functionStarts,
    .linkedit .codeSignature]

def code : CommandKind → UInt32
  | .segment .bits32 => 0x1
  | .segment .bits64 => 0x19
  | .symtab => 0x2
  | .dysymtab => 0xB
  | .dylib .load => 0xC
  | .dylib .weak => 0x80000018
  | .dylib .reexport => 0x8000001F
  | .dylib .lazy => 0x20
  | .dylib .upward => 0x80000023
  | .idDylib => 0xD
  | .rpath => 0x8000001C
  | .uuid => 0x1B
  | .buildVersion => 0x32
  | .versionMin .macOS => 0x24
  | .versionMin .iPhoneOS => 0x25
  | .versionMin .tvOS => 0x2F
  | .versionMin .watchOS => 0x30
  | .sourceVersion => 0x2A
  | .entryPoint => 0x80000028
  | .encryption .bits32 => 0x21
  | .encryption .bits64 => 0x2C
  | .dyldInfo false => 0x22
  | .dyldInfo true => 0x80000022
  | .linkedit .chainedFixups => 0x80000034
  | .linkedit .exportsTrie => 0x80000033
  | .linkedit .functionStarts => 0x26
  | .linkedit .codeSignature => 0x1D

def name : CommandKind → String
  | .segment .bits32 => "LC_SEGMENT"
  | .segment .bits64 => "LC_SEGMENT_64"
  | .symtab => "LC_SYMTAB"
  | .dysymtab => "LC_DYSYMTAB"
  | .dylib .load => "LC_LOAD_DYLIB"
  | .dylib .weak => "LC_LOAD_WEAK_DYLIB"
  | .dylib .reexport => "LC_REEXPORT_DYLIB"
  | .dylib .lazy => "LC_LAZY_LOAD_DYLIB"
  | .dylib .upward => "LC_LOAD_UPWARD_DYLIB"
  | .idDylib => "LC_ID_DYLIB"
  | .rpath => "LC_RPATH"
  | .uuid => "LC_UUID"
  | .buildVersion => "LC_BUILD_VERSION"
  | .versionMin .macOS => "LC_VERSION_MIN_MACOSX"
  | .versionMin .iPhoneOS => "LC_VERSION_MIN_IPHONEOS"
  | .versionMin .tvOS => "LC_VERSION_MIN_TVOS"
  | .versionMin .watchOS => "LC_VERSION_MIN_WATCHOS"
  | .sourceVersion => "LC_SOURCE_VERSION"
  | .entryPoint => "LC_MAIN"
  | .encryption .bits32 => "LC_ENCRYPTION_INFO"
  | .encryption .bits64 => "LC_ENCRYPTION_INFO_64"
  | .dyldInfo false => "LC_DYLD_INFO"
  | .dyldInfo true => "LC_DYLD_INFO_ONLY"
  | .linkedit .chainedFixups => "LC_DYLD_CHAINED_FIXUPS"
  | .linkedit .exportsTrie => "LC_DYLD_EXPORTS_TRIE"
  | .linkedit .functionStarts => "LC_FUNCTION_STARTS"
  | .linkedit .codeSignature => "LC_CODE_SIGNATURE"

def ofCode? (c : UInt32) : Option CommandKind := all.find? fun k => k.code == c

theorem code_of_ofCode? {c : UInt32} {k : CommandKind} (h : ofCode? c = some k) : k.code = c := by
  simpa using List.find?_some h

end CommandKind

structure Dylib where
  name : String
  timestamp : UInt32
  currentVersion : UInt32
  compatibilityVersion : UInt32
deriving DecidableEq, Repr

structure FileRange where
  offset : UInt32
  size : UInt32
deriving DecidableEq, Repr

/-- The opcode streams that rebase and bind an image without fixup chains. -/
structure DyldInfo where
  rebase : FileRange
  bind : FileRange
  weakBind : FileRange
  lazyBind : FileRange
  exports : FileRange
deriving DecidableEq, Repr

/-- A stretch of the file that is encrypted when `id` is not zero. -/
structure Encryption where
  offset : UInt32
  size : UInt32
  id : UInt32
deriving DecidableEq, Repr

namespace Encryption

def isActive (e : Encryption) : Bool := e.id != 0 && e.size != 0

def covers (e : Encryption) (offset : Nat) : Bool :=
  e.isActive && e.offset.toNat ≤ offset && offset < e.offset.toNat + e.size.toNat

end Encryption

inductive Command where
  | segment (bits : Bitness) (s : Segment)
  | symtab (symbolOffset symbolCount stringOffset stringSize : UInt32)
  | dysymtab (firstLocal localCount firstExternal externalCount
      firstUndefined undefinedCount : UInt32)
  | dylib (link : DylibLink) (d : Dylib)
  | idDylib (d : Dylib)
  | rpath (path : String)
  | uuid (bytes : ByteArray)
  | buildVersion (platform minimum sdk : UInt32)
  | versionMin (platform : MinPlatform) (version sdk : UInt32)
  | sourceVersion (version : UInt64)
  | entryPoint (offset stackSize : UInt64)
  | encryption (bits : Bitness) (e : Encryption)
  | dyldInfo (only : Bool) (info : DyldInfo)
  | linkedit (table : LinkeditTable) (range : FileRange)
  | unrecognized (code : UInt32) (bytes : ByteArray)

namespace Command

def kind? : Command → Option CommandKind
  | .segment bits _ => some (.segment bits)
  | .symtab .. => some .symtab
  | .dysymtab .. => some .dysymtab
  | .dylib link _ => some (.dylib link)
  | .idDylib _ => some .idDylib
  | .rpath _ => some .rpath
  | .uuid _ => some .uuid
  | .buildVersion .. => some .buildVersion
  | .versionMin platform .. => some (.versionMin platform)
  | .sourceVersion _ => some .sourceVersion
  | .entryPoint .. => some .entryPoint
  | .encryption bits _ => some (.encryption bits)
  | .dyldInfo only _ => some (.dyldInfo only)
  | .linkedit table _ => some (.linkedit table)
  | .unrecognized .. => none

def code : Command → UInt32
  | .unrecognized code _ => code
  | c => (c.kind?.map CommandKind.code).getD 0

/-- The name of the command's code; also a code that was kept unread may have one. -/
def name (c : Command) : String :=
  ((CommandKind.ofCode? c.code).map CommandKind.name).getD "LC_UNRECOGNIZED"

def readRange (r : Reader) (offset : Nat) : Except ImageError FileRange := do
  return ⟨← r.u32 offset, ← r.u32 (offset + 4)⟩

def readText (r : Reader) (offset : Nat) : Except ImageError String := do
  let start := (← r.u32 offset).toNat
  if r.size ≤ start then
    throw (.badStructure "lc_str" start "string offset past end of command")
  return fieldText (← r.slice start (r.size - start))

def readDylib (r : Reader) : Except ImageError Dylib := do
  return {
    name := ← readText r 8
    timestamp := ← r.u32 12
    currentVersion := ← r.u32 16
    compatibilityVersion := ← r.u32 20 }

def readBody (r : Reader) : CommandKind → Except ImageError Command
  | .segment bits => return .segment bits (← Segment.read bits r)
  | .symtab => return .symtab (← r.u32 8) (← r.u32 12) (← r.u32 16) (← r.u32 20)
  | .dysymtab =>
    return .dysymtab (← r.u32 8) (← r.u32 12) (← r.u32 16) (← r.u32 20) (← r.u32 24)
      (← r.u32 28)
  | .dylib link => return .dylib link (← readDylib r)
  | .idDylib => return .idDylib (← readDylib r)
  | .rpath => return .rpath (← readText r 8)
  | .uuid => return .uuid (← r.slice 8 16)
  | .buildVersion => return .buildVersion (← r.u32 8) (← r.u32 12) (← r.u32 16)
  | .versionMin platform => return .versionMin platform (← r.u32 8) (← r.u32 12)
  | .sourceVersion => return .sourceVersion (← r.u64 8)
  | .entryPoint => return .entryPoint (← r.u64 8) (← r.u64 16)
  | .encryption bits => return .encryption bits ⟨← r.u32 8, ← r.u32 12, ← r.u32 16⟩
  | .dyldInfo only =>
    return .dyldInfo only ⟨← readRange r 8, ← readRange r 16, ← readRange r 24,
      ← readRange r 32, ← readRange r 40⟩
  | .linkedit table => return .linkedit table (← readRange r 8)

/-- Reads a command; `r` holds exactly its bytes. -/
def read (r : Reader) : Except ImageError Command := do
  if r.size < 8 then throw (.tooShort 8 r.size)
  let code ← r.u32 0
  match CommandKind.ofCode? code with
  | some kind => readBody r kind
  | none => return .unrecognized code r.bytes

def segment? : Command → Option Segment
  | .segment _ s => some s
  | _ => none

def dylib? : Command → Option Dylib
  | .dylib _ d => some d
  | _ => none

def idDylib? : Command → Option Dylib
  | .idDylib d => some d
  | _ => none

def encryption? : Command → Option Encryption
  | .encryption _ e => some e
  | _ => none

def uuid? : Command → Option ByteArray
  | .uuid bytes => some bytes
  | _ => none

end Command

/-- A version packed as sixteen, eight and eight bits. -/
def versionText (v : UInt32) : String :=
  Text.decimal (v.toNat / 65536) ++ "." ++ Text.decimal (v.toNat / 256 % 256) ++ "." ++
    Text.decimal (v.toNat % 256)

end ObjcAtlas
