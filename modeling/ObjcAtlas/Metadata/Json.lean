import ObjcAtlas.Encoding.Json
import ObjcAtlas.Image.Json
import ObjcAtlas.Extraction.Image

set_option autoImplicit false

namespace ObjcAtlas

def ImageInfo.toJson (i : ImageInfo) : Json :=
  .object [("version", .half i.version), ("flags", .half i.flags)]

def Warning.toJson (w : Warning) : Json :=
  .object [
    ("kind", .string w.kind.label),
    ("address", .word w.address),
    ("message", .string w.message)]

def MemoCounts.toJson (c : MemoCounts) : Json :=
  .object [("hits", .nat c.hits), ("misses", .nat c.misses)]

def RecordName.toJson (n : RecordName) : Json := .string n.text

def ClassReference.toJson : ClassReference → Json
  | .none => .object [("kind", .string "none")]
  | .local name address =>
    .object [("kind", .string "local"), ("name", name.toJson), ("address", .word address)]
  | .external name library =>
    .object [("kind", .string "external"), ("name", .string name),
      ("library", .option .string library)]
  | .dangling address => .object [("kind", .string "dangling"), ("address", .word address)]

/-- The extended encoding is shown only where there is one. -/
def MethodRecord.toJson (m : MethodRecord) : Json :=
  .object ([("name", .string m.name), ("type_encoding", .string m.encoding)] ++
    (m.extendedEncoding.map fun e => ("extended_type_encoding", Json.string e)).toList ++
    [("signature", .option MethodSignature.toJson m.signature),
      ("implementation", .option .word m.implementation)])

def IvarRecord.toJson (i : IvarRecord) : Json :=
  .object [
    ("name", .string i.name),
    ("type_encoding", .string i.encoding),
    ("type", .option ObjcType.toJson i.type),
    ("offset", .option .half i.offset),
    ("size", .half i.size),
    ("alignment", .half i.alignment)]

def PropertyRecord.toJson (p : PropertyRecord) : Json :=
  .object [
    ("name", .string p.name),
    ("attributes", .string p.attributes),
    ("decoded", .option PropertyAttributes.toJson p.decoded)]

def ClassRecord.toJson (c : ClassRecord) : Json :=
  .object [
    ("name", c.name.toJson),
    ("address", .word c.address),
    ("superclass", c.superclass.toJson),
    ("flags", .half c.flags),
    ("is_root", .bool c.isRoot),
    ("is_swift", .bool c.isSwift),
    ("instance_start", .half c.instanceStart),
    ("instance_size", .half c.instanceSize),
    ("ivars", .list IvarRecord.toJson c.ivars),
    ("instance_methods", .list MethodRecord.toJson c.instanceMethods),
    ("class_methods", .list MethodRecord.toJson c.classMethods),
    ("protocols", .list .string c.protocols),
    ("properties", .list PropertyRecord.toJson c.properties),
    ("class_properties", .list PropertyRecord.toJson c.classProperties),
    ("partial", .bool c.degraded)]

def CategoryRecord.toJson (c : CategoryRecord) : Json :=
  .object [
    ("name", c.name.toJson),
    ("address", .word c.address),
    ("class", c.target.toJson),
    ("instance_methods", .list MethodRecord.toJson c.instanceMethods),
    ("class_methods", .list MethodRecord.toJson c.classMethods),
    ("protocols", .list .string c.protocols),
    ("properties", .list PropertyRecord.toJson c.properties),
    ("class_properties", .list PropertyRecord.toJson c.classProperties),
    ("partial", .bool c.degraded)]

def ProtocolRecord.toJson (p : ProtocolRecord) : Json :=
  .object [
    ("name", p.name.toJson),
    ("address", .word p.address),
    ("protocols", .list .string p.protocols),
    ("instance_methods", .list MethodRecord.toJson p.instanceMethods),
    ("class_methods", .list MethodRecord.toJson p.classMethods),
    ("optional_instance_methods", .list MethodRecord.toJson p.optionalInstanceMethods),
    ("optional_class_methods", .list MethodRecord.toJson p.optionalClassMethods),
    ("properties", .list PropertyRecord.toJson p.properties),
    ("class_properties", .list PropertyRecord.toJson p.classProperties),
    ("partial", .bool p.degraded)]

def ImageFlags.toJson (f : ImageFlags) : Json :=
  .object [
    ("contains_objc_data", .bool f.hasObjcData),
    ("has_encrypted_region", .bool f.isEncrypted),
    ("bitness", f.bits.toJson),
    ("endianness", f.order.toJson),
    ("architecture", f.architecture.toJson)]

def Metadata.fields (m : Metadata) : List (String × Json) := [
  ("flags", m.flags.toJson),
  ("image_info", .option ImageInfo.toJson m.imageInfo),
  ("classes", .list ClassRecord.toJson m.classes),
  ("categories", .list CategoryRecord.toJson m.categories),
  ("protocols", .list ProtocolRecord.toJson m.protocols),
  ("warnings", .list Warning.toJson m.warnings),
  ("cache", m.counts.toJson)]

end ObjcAtlas
