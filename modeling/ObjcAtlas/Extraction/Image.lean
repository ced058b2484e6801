import ObjcAtlas.Extraction.Record

set_option autoImplicit false

namespace ObjcAtlas

inductive RuntimeSection where
  | imageInfo | classes | categories | protocols
deriving DecidableEq, Repr

namespace RuntimeSection

def name : RuntimeSection → String
  | .imageInfo => "__objc_imageinfo"
  | .classes => "__objc_classlist"
  | .categories => "__objc_catlist"
  | .protocols => "__objc_protolist"

/-- Segments that may hold the sections, in the order of search. -/
def segments : List String := ["__DATA_CONST", "__DATA", "__DATA_DIRTY", "__OBJC2"]

def find? (s : Slice) (t : RuntimeSection) : Option Section := s.findSection? t.name segments

def anyIn (s : Slice) : Bool :=
  [imageInfo, classes, categories, protocols].any fun t => (t.find? s).isSome

end RuntimeSection

structure Findings where
  imageInfo : Option ImageInfo
  classes : List ClassRecord
  categories : List CategoryRecord
  protocols : List ProtocolRecord

namespace Extraction

def sum (address offset : UInt64) : Extraction UInt64 :=
  if address.toNat + offset.toNat < UInt64.size then return address + offset else trap

/-- Makes room for a number of addresses. No room has more bytes than a signed word can count. -/
def reserve (count : Nat) : Extraction Unit :=
  if count * 8 < UInt64.size / 2 then return () else trap

/-- The flags are looked for behind the version, however small the section is. -/
def imageInfo (s : Slice) : Extraction (Option ImageInfo) := do
  let some found := RuntimeSection.imageInfo.find? s | return none
  let flags ← sum found.address 4
  read found.address "image info" do return ⟨← s.u32At found.address, ← s.u32At flags⟩

def recordAddresses (s : Slice) (t : RuntimeSection) : Extraction (List UInt64) := do
  let some found := t.find? s | return []
  let count := found.size.toNat / s.bits.pointerSize
  reserve count
  collect (fun i => follow s (found.address + s.bits.words (UInt64.ofNat i)) t.name)
    (List.range count)

/-- Reads all records: each section's pointers first, then the records behind them. -/
def image (s : Slice) : Extraction Findings := do
  let info ← imageInfo s
  let classes ← collect (classAt s) (← recordAddresses s .classes)
  let hasClassProperties := info.any ImageInfo.hasCategoryClassProperties
  let categories ←
    collect (categoryAt s hasClassProperties) (← recordAddresses s .categories)
  let protocols ← collect (protocolAt s) (← recordAddresses s .protocols)
  return { imageInfo := info, classes, categories, protocols }

end Extraction

structure ImageFlags where
  hasObjcData : Bool
  isEncrypted : Bool
  bits : Bitness
  order : ByteOrder
  architecture : Architecture
deriving DecidableEq, Repr

def ImageFlags.of (s : Slice) : ImageFlags := {
  hasObjcData := RuntimeSection.anyIn s
  isEncrypted := s.isEncrypted
  bits := s.bits
  order := s.header.order
  architecture := s.header.architecture }

structure Metadata where
  flags : ImageFlags
  imageInfo : Option ImageInfo
  classes : List ClassRecord
  categories : List CategoryRecord
  protocols : List ProtocolRecord
  warnings : List Warning
  counts : MemoCounts
deriving DecidableEq

def fixupWarning (e : ImageError) : Warning :=
  ⟨.fixupTable, 0, "fixups ignored, pointers read raw: " ++ e.message⟩

def Progress.start (s : Slice) : Progress :=
  { warnings := (s.fixups.errors.map fixupWarning).toArray }

namespace Metadata

/-- The metadata of an image, unless the extraction traps. -/
def extract (s : Slice) (options : ExtractOptions) : Option Metadata := do
  let (found, progress) ← (Extraction.image s).run options (.start s)
  return {
    flags := .of s
    imageInfo := found.imageInfo
    classes := found.classes
    categories := found.categories
    protocols := found.protocols
    warnings := progress.warnings.toList
    counts := progress.memo.counts }

def ofBytes (bytes : ByteArray) (selector : Option ArchSelector) (options : ExtractOptions) :
    Except ImageError (Option Metadata) := do
  return extract (← Slice.load bytes selector) options

def classNamed? (m : Metadata) (name : String) : Option ClassRecord :=
  m.classes.find? (·.name.text == name)

def protocolNamed? (m : Metadata) (name : String) : Option ProtocolRecord :=
  m.protocols.find? (·.name.text == name)

end Metadata

end ObjcAtlas
