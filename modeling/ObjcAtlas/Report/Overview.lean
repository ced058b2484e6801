import ObjcAtlas.Metadata.Json
import ObjcAtlas.Report.Lines

set_option autoImplicit false

namespace ObjcAtlas

def uuidGroups : List Nat := [4, 2, 2, 2, 6]

def cut {α : Type} : List Nat → List α → List (List α)
  | [], _ => []
  | n :: ns, xs => xs.take n :: cut ns (xs.drop n)

def uuidText (uuid : ByteArray) : String :=
  "-".intercalate ((cut uuidGroups uuid.data.toList).map fun group =>
    (Text.bytesHex group).map Char.toUpper)

structure Overview where
  slice : Slice
  metadata : Metadata
  /-- Images of the universal file that holds this one; none if it stands alone. -/
  siblings : List Architecture

namespace Overview

def toJson (o : Overview) : Json :=
  let s := o.slice
  let m := o.metadata
  .object [
    ("architecture", s.header.architecture.toJson),
    ("bitness", s.bits.toJson),
    ("endianness", s.header.order.toJson),
    ("slice_offset", .nat s.offset),
    ("fat_slices", .list (fun a => .string a.name) o.siblings),
    ("preferred_load_address", .word s.base),
    ("uuid", .option (fun u => .string (uuidText u)) s.uuid?),
    ("install_name", .option .string s.installName?),
    ("dylibs", .list .string s.dylibNames),
    ("encrypted", .bool s.isEncrypted),
    ("chained_fixups", .option (fun t => .nat t.fixups.size) s.fixups.chains),
    ("fixup_errors", .list (fun e => .string e.message) s.fixups.errors),
    ("image_info", .option ImageInfo.toJson m.imageInfo),
    ("classes", .nat m.classes.length),
    ("categories", .nat m.categories.length),
    ("protocols", .nat m.protocols.length),
    ("warnings", .nat m.warnings.length)]

def row (title value : String) : String := Text.padRight 15 (title ++ ":") ++ value

def containerLines (o : Overview) : List String :=
  if o.siblings.isEmpty then []
  else [row "Fat Slices" (", ".intercalate (o.siblings.map Architecture.name)),
    row "Slice Offset" (Text.hex o.slice.offset)]

def headerLines (o : Overview) : List String :=
  let s := o.slice
  [ "Binary Information",
    "==================",
    row "Architecture" s.header.architecture.name,
    row "Bitness" s.bits.label,
    row "Endianness" s.header.order.label,
    row "File Type" s.header.fileType.name ] ++
  o.containerLines ++
  [row "Load Address" (Text.hex s.base.toNat)] ++
  (s.uuid?.map fun u => row "UUID" (uuidText u)).toList ++
  (s.installName?.map (row "Install Name")).toList ++
  [row "Encrypted" (if s.isEncrypted then "yes" else "no")]

def fixupLines (s : Slice) : List String :=
  row "Fixups" (match s.fixups.chains with
    | some t => Text.decimal t.fixups.size ++ " chained entries"
    | none => "none") ::
  s.fixups.errors.map fun e => "  ignored: " ++ e.message

def segmentLine (t : Segment) : String :=
  let address (a : UInt64) : String := Text.hexPadded 14 a.toNat
  "  " ++ Text.padRight 16 t.name ++ " " ++ address t.address ++ "-" ++
    address (t.address + t.size) ++ "  file " ++ Text.hex t.fileOffset.toNat ++ "+" ++
    Text.hex t.fileSize.toNat

def segmentLines (s : Slice) : List String := ["", "Segments:"] ++ s.segments.map segmentLine

def libraryLines (s : Slice) : List String :=
  if s.dylibNames.isEmpty then []
  else ["", "Linked Libraries:"] ++ s.dylibNames.zipIdx.map fun (name, i) =>
    "  " ++ Text.padLeft ' ' 3 (Text.decimal (i + 1)) ++ "  " ++ name

def imageInfoLines : Option ImageInfo → List String
  | none => [row "Image Info" "absent"]
  | some i =>
    row "Image Info" ("version " ++ Text.decimal i.version.toNat ++ " flags " ++
      Text.hex i.flags.toNat) ::
    if i.hasSwift then
      [row "Swift" ("stable " ++ Text.decimal i.swiftStableVersion.toNat ++ " / unstable " ++
        Text.decimal i.swiftUnstableVersion.toNat)]
    else []

def metadataLines (m : Metadata) : List String :=
  ["", "Objective-C", "-----------"] ++
  imageInfoLines m.imageInfo ++
  [ row "Classes" (Text.decimal m.classes.length),
    row "Categories" (Text.decimal m.categories.length),
    row "Protocols" (Text.decimal m.protocols.length),
    row "Warnings" (Text.decimal m.warnings.length) ]

def toLines (o : Overview) : List String :=
  o.headerLines ++ fixupLines o.slice ++ segmentLines o.slice ++ libraryLines o.slice ++
    metadataLines o.metadata

end Overview

def Report.overview (o : Overview) (format : ReportFormat) : String :=
  Report.render format o.toLines o.toJson

end ObjcAtlas
