import ObjcAtlas.Encoding.Json
import ObjcAtlas.Report.Records

set_option autoImplicit false

namespace ObjcAtlas

namespace Report

def pair (title value : String) : String := Text.padRight 12 (title ++ ":") ++ value

def typeLines (t : ObjcType) : List String := [t.display, "encoding: " ++ t.encode]

def argumentLine (a : MethodArgument) (i : Nat) : String :=
  let place := match a.offset with
    | some n => "@" ++ Text.padRight 4 (Text.decimalInt n)
    | none => "     "
  "arg " ++ Text.padRight 2 (Text.decimal i) ++ " " ++ place ++ " " ++ a.type.display

def signatureLines (s : MethodSignature) : List String :=
  [pair "returns" s.returns.display] ++
  (s.frameSize.map fun n => pair "frame size" (Text.decimal n)).toList ++
  s.arguments.zipIdx.map fun (a, i) => argumentLine a i

def attributeLines (p : PropertyAttributes) : List String :=
  [pair "type" p.typeText, pair "attributes" (", ".intercalate p.keywords)] ++
  (p.ivar.map (pair "ivar")).toList ++
  if p.dynamic then ["dynamic"] else []

def decoded (kind : EncodingKind) (encoding : String) (format : ReportFormat) :
    Except DecodeError String :=
  match kind with
  | .type => (ObjcType.decode encoding).map fun t => render format (typeLines t) t.toJson
  | .signature =>
    (MethodSignature.decode encoding).map fun s => render format (signatureLines s) s.toJson
  | .property =>
    (PropertyAttributes.decode encoding).map fun p => render format (attributeLines p) p.toJson

end Report

end ObjcAtlas
