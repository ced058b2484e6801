import ObjcAtlas.Image.Command
import ObjcAtlas.Image.Header
import ObjcAtlas.Json

set_option autoImplicit false

namespace ObjcAtlas

def Bitness.toJson (b : Bitness) : Json := .string b.label

def ByteOrder.toJson (o : ByteOrder) : Json := .string o.label

namespace Architecture

def toJson : Architecture → Json
  | .x86_64 => .string "X86_64"
  | .x86 => .string "X86"
  | .arm64 => .string "Arm64"
  | .arm64e => .string "Arm64e"
  | .arm64_32 => .string "Arm64_32"
  | .arm => .string "Arm"
  | .powerPc => .string "PowerPc"
  | .powerPc64 => .string "PowerPc64"
  | .unknown cpuType => .tagged "Unknown" (.half cpuType)

end Architecture

def FileType.toJson : FileType → Json
  | .other n => .tagged "Other" (.half n)
  | t => .string t.name

def Header.toJson (h : Header) : Json :=
  .object [
    ("magic", .half h.magic),
    ("bitness", h.bits.toJson),
    ("endianness", h.order.toJson),
    ("cputype", .half h.cpuType),
    ("cpusubtype", .half h.subtype),
    ("filetype", h.fileType.toJson),
    ("ncmds", .half h.commandCount),
    ("sizeofcmds", .half h.commandsSize),
    ("flags", .half h.flags),
    ("is_64bit", .bool (h.bits == .bits64)),
    ("header_size", .nat h.size),
    ("architecture", h.architecture.toJson)]

def Placement.toJson (p : Placement) : Json :=
  .object [
    ("cputype", .half p.cpuType),
    ("cpusubtype", .half p.subtype),
    ("offset", .word p.offset),
    ("size", .word p.size),
    ("align", .half p.align),
    ("architecture", p.architecture.toJson)]

namespace Section

def fields (s : Section) : List (String × Json) := [
  ("sectname", .string s.name),
  ("segname", .string s.segmentName),
  ("addr", .word s.address),
  ("size", .word s.size),
  ("offset", .half s.offset),
  ("align", .half s.align),
  ("reloff", .half s.relocationOffset),
  ("nreloc", .half s.relocationCount),
  ("flags", .half s.flags),
  ("reserved1", .half s.reserved1),
  ("reserved2", .half s.reserved2),
  ("reserved3", .half s.reserved3)]

def toJson (s : Section) : Json := .object s.fields

def describe (s : Section) : Json :=
  .object (s.fields ++ [
    ("full_name", .string s.fullName),
    ("zerofill", .bool s.isZerofill),
    ("executable", .bool s.isExecutable)])

end Section

def Segment.toJson (s : Segment) : Json :=
  .object [
    ("segname", .string s.name),
    ("vmaddr", .word s.address),
    ("vmsize", .word s.size),
    ("fileoff", .word s.fileOffset),
    ("filesize", .word s.fileSize),
    ("maxprot", .half s.maxProtection),
    ("initprot", .half s.protection),
    ("flags", .half s.flags),
    ("sections", .list Section.toJson s.sections)]

def DylibLink.label : DylibLink → String
  | .load => "Load" | .weak => "Weak" | .reexport => "Reexport" | .lazy => "Lazy"
  | .upward => "Upward"

def Dylib.toJson (d : Dylib) : Json :=
  .object [
    ("name", .string d.name),
    ("timestamp", .half d.timestamp),
    ("current_version", .half d.currentVersion),
    ("compatibility_version", .half d.compatibilityVersion)]

def FileRange.toJson (r : FileRange) : Json :=
  .object [("dataoff", .half r.offset), ("datasize", .half r.size)]

def Encryption.toJson (e : Encryption) : Json :=
  .object [("cryptoff", .half e.offset), ("cryptsize", .half e.size), ("cryptid", .half e.id)]

def DyldInfo.toJson (d : DyldInfo) : Json :=
  let pair (name : String) (r : FileRange) : List (String × Json) :=
    [(name ++ "_off", .half r.offset), (name ++ "_size", .half r.size)]
  .object (pair "rebase" d.rebase ++ pair "bind" d.bind ++ pair "weak_bind" d.weakBind ++
    pair "lazy_bind" d.lazyBind ++ pair "export" d.exports)

def LinkeditTable.label : LinkeditTable → String
  | .chainedFixups => "ChainedFixups" | .exportsTrie => "ExportsTrie"
  | .functionStarts => "FunctionStarts" | .codeSignature => "CodeSignature"

namespace Command

def body : Command → Json
  | .segment .bits32 s => .tagged "Segment" s.toJson
  | .segment .bits64 s => .tagged "Segment64" s.toJson
  | .symtab a b c d => .tagged "Symtab" (.list .half [a, b, c, d])
  | .dysymtab a b c d e f => .tagged "Dysymtab" (.list .half [a, b, c, d, e, f])
  | .dylib link d => .tagged "LoadDylib" (.array [.string link.label, d.toJson])
  | .idDylib d => .tagged "IdDylib" d.toJson
  | .rpath path => .tagged "Rpath" (.string path)
  | .uuid bytes => .tagged "Uuid" (.string (Text.bytesHex bytes.data.toList))
  | .buildVersion a b c => .tagged "BuildVersion" (.list .half [a, b, c])
  | .versionMin p v sdk =>
    .tagged "VersionMin" (.list .half [CommandKind.code (.versionMin p), v, sdk])
  | .sourceVersion v => .tagged "SourceVersion" (.word v)
  | .entryPoint offset stack => .tagged "Main" (.list .word [offset, stack])
  | .encryption bits e => .tagged "EncryptionInfo" (.array [.bool (bits == .bits64), e.toJson])
  | .dyldInfo only d => .tagged "DyldInfo" (.array [.bool only, d.toJson])
  | .linkedit table range => .tagged table.label range.toJson
  | .unrecognized code bytes =>
    .tagged "Unrecognized" (.array [.half code, .string (Text.bytesHex bytes.data.toList)])

def fields (c : Command) : List (String × Json) :=
  [("cmd_type", .half c.code), ("name", .string c.name), ("body", c.body)]

def toJson (c : Command) : Json := .object c.fields

end Command

end ObjcAtlas
