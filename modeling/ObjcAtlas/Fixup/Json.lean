import ObjcAtlas.Fixup.Bind
import ObjcAtlas.Fixup.Chain
import ObjcAtlas.Json

set_option autoImplicit false

namespace ObjcAtlas

def Signing.toJson (s : Signing) : Json :=
  .object [
    ("key", .string s.key.name),
    ("diversity", .nat s.diversity.toNat),
    ("addr_div", .bool s.byAddress)]

def ChainEntry.toJson : ChainEntry → Json
  | .rebase target high8 signing =>
    .tagged "Rebase" (.object [("target", .word target), ("high8", .nat high8.toNat),
      ("auth", .option Signing.toJson signing)])
  | .bind ordinal addend signing =>
    .tagged "Bind" (.object [("ordinal", .half ordinal), ("addend", .number addend.toInt),
      ("auth", .option Signing.toJson signing)])

def BindTarget.toJson (t : BindTarget) : Json :=
  .object [
    ("symbol", .string t.symbol),
    ("lib_ordinal", .number t.ordinal.toInt),
    ("weak", .bool t.weak),
    ("addend", .number t.addend.toInt)]

def SlotValue.toJson : SlotValue → Json
  | .null => .string "Null"
  | .address a => .tagged "Rebase" (.word a)
  | .symbol target => .tagged "Bind" target.toJson

def ChainImport.toJson (i : ChainImport) : Json :=
  .object [
    ("name", .string i.symbol),
    ("lib_ordinal", .number i.ordinal.toInt),
    ("weak", .bool i.weak),
    ("addend", .number i.addend.toInt)]

def SegmentStarts.toJson (s : SegmentStarts) : Json :=
  .object [
    ("segment_index", .nat s.segment),
    ("page_size", .nat s.pageSize.toNat),
    ("pointer_format", .string s.format.name),
    ("segment_offset", .word s.segmentOffset),
    ("max_valid_pointer", .half s.maxValidPointer),
    ("page_count", .nat s.pageCount.toNat),
    ("page_starts", .list (fun v => .nat v.toNat) s.pageStarts)]

def ChainFixup.toJson (f : ChainFixup) : Json :=
  .object [
    ("file_offset", .nat f.offset),
    ("format", .string f.format.name),
    ("raw", .word f.raw),
    ("pointer", f.entry.toJson),
    ("target", .option .word f.target)]

def ChainTable.fields (t : ChainTable) : List (String × Json) := [
  ("version", .half t.version),
  ("imports_format", .string t.importsFormat.name),
  ("imports", .list ChainImport.toJson t.imports.toList),
  ("starts", .list SegmentStarts.toJson t.starts),
  ("len", .nat t.fixups.size),
  ("empty", .bool t.fixups.isEmpty),
  ("fixups", .list ChainFixup.toJson t.fixups.values)]

def BindTable.toJson (t : BindTable) : Json :=
  .object [
    ("len", .nat t.size),
    ("empty", .bool t.isEmpty),
    ("binds", .list (fun (offset, target) => .array [.nat offset, target.toJson]) t.toList)]

end ObjcAtlas
