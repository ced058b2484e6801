import ObjcAtlas.Encoding.Method
import ObjcAtlas.Encoding.Property
import ObjcAtlas.Json

set_option autoImplicit false

namespace ObjcAtlas

namespace ObjcType

def aggregateJson (kind : AggregateKind) (name : Option String) (members : Json) : Json :=
  .tagged kind.keyword (.object [("name", .option .string name), ("fields", members)])

mutual

def toJson : ObjcType → Json
  | .primitive p => .tagged "primitive" (.string p.label)
  | .pointer t => .tagged "pointer" (toJson t)
  | .array n t => .tagged "array" (.object [("length", .word n), ("element", toJson t)])
  | .aggregate k n ms => aggregateJson k n (.array (membersJson ms))
  | .incomplete k n => aggregateJson k n .null
  | .bitfield w => .tagged "bitfield" (.half w)
  | .object c ps =>
    .tagged "object" (.object [("class_name", .option .string c), ("protocols", .list .string ps)])
  | .block => .tagged "block" .null
  | .blockOf r ts =>
    .tagged "block" (.object [("return_type", toJson r), ("arguments", .array (typesJson ts))])
  | .qualified qs t =>
    .tagged "qualified" (.object
      [("qualifiers", .list (fun q => .string q.label) qs), ("inner", toJson t)])
termination_by structural t => t

def memberJson : Member → Json
  | ⟨n, t⟩ => .object [("name", .option .string n), ("type", toJson t)]
termination_by structural m => m

def membersJson : List Member → List Json
  | [] => []
  | m :: ms => memberJson m :: membersJson ms
termination_by structural ms => ms

def typesJson : List ObjcType → List Json
  | [] => []
  | t :: ts => toJson t :: typesJson ts
termination_by structural ts => ts

end

end ObjcType

def MethodArgument.toJson (a : MethodArgument) : Json :=
  .object [("type", a.type.toJson), ("offset", .option .number a.offset)]

def MethodSignature.toJson (s : MethodSignature) : Json :=
  .object [
    ("return_type", s.returns.toJson),
    ("frame_size", .option .nat s.frameSize),
    ("arguments", .list MethodArgument.toJson s.arguments)]

def PropertyAttributes.toJson (p : PropertyAttributes) : Json :=
  .object [
    ("type", .option ObjcType.toJson p.type),
    ("ownership", .string p.ownership.label),
    ("readonly", .bool p.readonly),
    ("nonatomic", .bool p.nonatomic),
    ("dynamic", .bool p.dynamic),
    ("getter", .option .string p.getter),
    ("setter", .option .string p.setter),
    ("ivar", .option .string p.ivar),
    ("other", .list .string p.other)]

end ObjcAtlas
