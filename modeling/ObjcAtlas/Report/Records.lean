import ObjcAtlas.Metadata.Json
import ObjcAtlas.Report.Lines

set_option autoImplicit false

namespace ObjcAtlas

def lastComponent (path : String) : String :=
  String.ofList (((Text.splitAtAny (· == '/') path.toList).getLast?).getD [])

def ClassReference.listing : ClassReference → String
  | .none => "-"
  | .local name _ => name.text
  | .external name (some library) => name ++ " (" ++ lastComponent library ++ ")"
  | .external name Option.none => name
  | .dangling address => "<dangling " ++ Text.hex address.toNat ++ ">"

def MethodRecord.listing (sign : String) (m : MethodRecord) : String :=
  "    " ++ sign ++ " " ++ m.name ++ "  " ++
    ((m.signature.map MethodSignature.display).getD m.encoding)

def IvarRecord.listing (i : IvarRecord) : String :=
  let offset := (i.offset.map fun n => "+" ++ Text.decimal n.toNat).getD "?"
  "    " ++ Text.padLeft ' ' 6 offset ++ "  " ++
    ((i.type.map ObjcType.display).getD i.encoding) ++ " " ++ i.name

def PropertyAttributes.typeText (p : PropertyAttributes) : String :=
  (p.type.map ObjcType.display).getD "?"

def PropertyRecord.listing (keyword : String) (p : PropertyRecord) : String :=
  "    " ++ keyword ++ " " ++ match p.decoded with
    | none => p.name ++ "  " ++ p.attributes
    | some a =>
      let keywords := a.keywords
      let shown := if keywords.isEmpty then "" else "(" ++ ", ".intercalate keywords ++ ") "
      shown ++ a.typeText ++ " " ++ p.name

namespace Report

def adopted (protocols : List String) : List String :=
  if protocols.isEmpty then [] else ["    <" ++ ", ".intercalate protocols ++ ">"]

def properties (own classwide : List PropertyRecord) : List String :=
  own.map (PropertyRecord.listing "@property") ++
    classwide.map (PropertyRecord.listing "@property (class)")

def methods (classwide own : List MethodRecord) : List String :=
  classwide.map (MethodRecord.listing "+") ++ own.map (MethodRecord.listing "-")

def tags (marks : List (Bool × String)) : String :=
  let set := (marks.filter (·.1)).map (·.2)
  if set.isEmpty then "" else "  [" ++ " ".intercalate set ++ "]"

def count (n : Nat) (noun : String) : String := Text.decimal n ++ " " ++ noun

def classLines (c : ClassRecord) : List String :=
  [Text.hex c.address.toNat ++ "  " ++ c.name.text ++ " : " ++ c.superclass.listing ++
    tags [(c.isRoot, "root"), (c.isSwift, "swift"), (c.degraded, "partial")]] ++
  adopted c.protocols ++
  c.ivars.map IvarRecord.listing ++
  properties c.properties c.classProperties ++
  methods c.classMethods c.instanceMethods

def categoryLines (c : CategoryRecord) : List String :=
  [Text.hex c.address.toNat ++ "  " ++ c.target.listing ++ " (" ++ c.name.text ++ ")" ++
    tags [(c.degraded, "partial")]] ++
  adopted c.protocols ++
  properties c.properties c.classProperties ++
  methods c.classMethods c.instanceMethods

def protocolLines (p : ProtocolRecord) : List String :=
  [Text.hex p.address.toNat ++ "  @protocol " ++ p.name.text ++ tags [(p.degraded, "partial")]] ++
  adopted p.protocols ++
  properties p.properties p.classProperties ++
  methods p.classMethods p.instanceMethods ++
  if p.optionalClassMethods.isEmpty && p.optionalInstanceMethods.isEmpty then []
  else "    @optional" :: methods p.optionalClassMethods p.optionalInstanceMethods

def warningLine (w : Warning) : String := Text.padRight 20 w.kind.title ++ " " ++ w.text

def classes (m : Metadata) (format : ReportFormat) : String :=
  render format (m.classes.flatMap classLines ++ [count m.classes.length "classes"])
    (.list ClassRecord.toJson m.classes)

def categories (m : Metadata) (format : ReportFormat) : String :=
  render format (m.categories.flatMap categoryLines ++ [count m.categories.length "categories"])
    (.list CategoryRecord.toJson m.categories)

def protocols (m : Metadata) (format : ReportFormat) : String :=
  render format (m.protocols.flatMap protocolLines ++ [count m.protocols.length "protocols"])
    (.list ProtocolRecord.toJson m.protocols)

def warnings (m : Metadata) (format : ReportFormat) : String :=
  render format
    (m.warnings.map warningLine ++
      [count m.warnings.length "warnings (" ++ Text.decimal m.counts.misses ++
        " type decodes cached, " ++ Text.decimal m.counts.hits ++ " reused)"])
    (.list Warning.toJson m.warnings)

end Report

end ObjcAtlas
