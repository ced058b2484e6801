import ObjcAtlas.Proofs.Survey.Image

set_option autoImplicit false

/-!
# Reporting a survey

What a survey has found is reported in three steps: its log is decoded in order, its records are
given what the memo knows then, and all is moved by the slide. An extraction comes to the same.
-/
namespace ObjcAtlas

def RecordName.move (slide : UInt64) : RecordName → RecordName
  | .known name => .known name
  | .unknown kind address => .unknown kind (address + slide)

def ClassReference.move (slide : UInt64) : ClassReference → ClassReference
  | .local name address => .local (name.move slide) (address + slide)
  | .dangling address => .dangling (address + slide)
  | r => r

def Warning.move (slide : UInt64) (w : Warning) : Warning := { w with address := w.address + slide }

namespace MethodRecord

def move (slide : UInt64) (m : MethodRecord) : MethodRecord :=
  { m with implementation := m.implementation.map (· + slide) }

/-- Takes the signature from the extended encoding if that can be decoded. -/
def decode (memo : DecodeMemo) (m : MethodRecord) : MethodRecord :=
  { m with signature :=
      (m.extendedEncoding.bind memo.signature?).or (memo.signature? m.encoding) }

end MethodRecord

def IvarRecord.decode (memo : DecodeMemo) (i : IvarRecord) : IvarRecord :=
  { i with type := memo.type? i.encoding }

def PropertyRecord.decode (memo : DecodeMemo) (p : PropertyRecord) : PropertyRecord :=
  { p with decoded := memo.property? p.attributes }

namespace ClassRecord

def move (slide : UInt64) (c : ClassRecord) : ClassRecord :=
  { c with
    name := c.name.move slide
    address := c.address + slide
    superclass := c.superclass.move slide
    instanceMethods := c.instanceMethods.map (·.move slide)
    classMethods := c.classMethods.map (·.move slide) }

def decode (memo : DecodeMemo) (c : ClassRecord) : ClassRecord :=
  { c with
    ivars := c.ivars.map (·.decode memo)
    instanceMethods := c.instanceMethods.map (·.decode memo)
    classMethods := c.classMethods.map (·.decode memo)
    properties := c.properties.map (·.decode memo)
    classProperties := c.classProperties.map (·.decode memo) }

end ClassRecord

namespace CategoryRecord

def move (slide : UInt64) (c : CategoryRecord) : CategoryRecord :=
  { c with
    name := c.name.move slide
    address := c.address + slide
    target := c.target.move slide
    instanceMethods := c.instanceMethods.map (·.move slide)
    classMethods := c.classMethods.map (·.move slide) }

def decode (memo : DecodeMemo) (c : CategoryRecord) : CategoryRecord :=
  { c with
    instanceMethods := c.instanceMethods.map (·.decode memo)
    classMethods := c.classMethods.map (·.decode memo)
    properties := c.properties.map (·.decode memo)
    classProperties := c.classProperties.map (·.decode memo) }

end CategoryRecord

namespace ProtocolRecord

def move (slide : UInt64) (p : ProtocolRecord) : ProtocolRecord :=
  { p with
    name := p.name.move slide
    address := p.address + slide
    instanceMethods := p.instanceMethods.map (·.move slide)
    classMethods := p.classMethods.map (·.move slide)
    optionalInstanceMethods := p.optionalInstanceMethods.map (·.move slide)
    optionalClassMethods := p.optionalClassMethods.map (·.move slide) }

def decode (memo : DecodeMemo) (p : ProtocolRecord) : ProtocolRecord :=
  { p with
    instanceMethods := p.instanceMethods.map (·.decode memo)
    classMethods := p.classMethods.map (·.decode memo)
    optionalInstanceMethods := p.optionalInstanceMethods.map (·.decode memo)
    optionalClassMethods := p.optionalClassMethods.map (·.decode memo)
    properties := p.properties.map (·.decode memo)
    classProperties := p.classProperties.map (·.decode memo) }

end ProtocolRecord

namespace EncodingKind

def decode (memo : DecodeMemo) (text : String) :
    EncodingKind → Option DecodeError × DecodeMemo
  | .type => (memo.type text).map failure? id
  | .signature => (memo.signature text).map failure? id
  | .property => (memo.property text).map failure? id
where
  failure? {α : Type} : Except DecodeError α → Option DecodeError
    | .ok _ => none
    | .error e => some e

def warning (kind : EncodingKind) (address : UInt64) (text : String) (e : DecodeError) : Warning :=
  ⟨.typeSyntax, address, kind.noun ++ " " ++ Text.quoted text ++ ": " ++ e.message⟩

end EncodingKind

/-- Decodes the encodings of a log; their failures join the warnings in place. -/
def decodeLog : List Event → DecodeMemo → List Warning × DecodeMemo
  | [], memo => ([], memo)
  | .warning w :: events, memo =>
    let (warnings, memo) := decodeLog events memo
    (w :: warnings, memo)
  | .encoding address kind text :: events, memo =>
    let (failure, memo) := kind.decode memo text
    let (warnings, memo) := decodeLog events memo
    ((failure.map (kind.warning address text)).toList ++ warnings, memo)

def plainWarnings (log : List Event) : List Warning :=
  log.filterMap fun
    | .warning w => some w
    | .encoding .. => none

/-- The warnings of a log and the decoded encodings, which are none if not asked for. -/
def readLog (decodeTypes : Bool) (log : List Event) : List Warning × DecodeMemo :=
  if decodeTypes then decodeLog log {} else (plainWarnings log, {})

def Findings.report (memo : DecodeMemo) (slide : UInt64) (found : Findings) : Findings :=
  { found with
    classes := found.classes.map fun c => (c.decode memo).move slide
    categories := found.categories.map fun c => (c.decode memo).move slide
    protocols := found.protocols.map fun p => (p.decode memo).move slide }

/-- The metadata that a survey comes to. -/
def Slice.reported (s : Slice) (options : ExtractOptions) : Metadata :=
  let (warnings, memo) := readLog options.decodeTypes s.survey.2
  let found := s.survey.1.report memo options.slide
  { flags := .of s
    imageInfo := found.imageInfo
    classes := found.classes
    categories := found.categories
    protocols := found.protocols
    warnings := s.fixups.errors.map fixupWarning ++ warnings.map (·.move options.slide)
    counts := memo.counts }

end ObjcAtlas
