import ObjcAtlas.Proofs.Survey.Member

set_option autoImplicit false

namespace ObjcAtlas.Survey

def recordAt {α : Type} (s : Slice) (address : UInt64) (kind : RecordKind) (step : Survey α) :
    Survey (Option (α × Bool)) :=
  if s.isEncryptedAt address then
    lost (warn .encryptedRegion address (kind.word ++ " record lies in the encrypted range"))
  else some <$> watched step

def classWord (s : Slice) (address : UInt64) : Survey (Option UInt64) :=
  follow s (address + ClassField.data.offset s.bits) "class data"

def classDataName (s : Slice) (data : UInt64) : Survey (Option String) :=
  followText s (data + ClassDataField.name.offset s.bits) "class name"

def rememberName (address : UInt64) (name : Option String) : Survey Unit :=
  modify fun n => { n with names := n.names.insert address name }

/-- The name of a class, read at most once. -/
def className (s : Slice) (address : UInt64) : Survey (Option String) := do
  match (← get).names[address]? with
  | some name => return name
  | none =>
    let name ← do
      let some word ← classWord s address | pure none
      classDataName s (Layout.classData s.bits word)
    rememberName address name
    return name

def classReference (s : Slice) (slot : UInt64) (what : String) : Survey ClassReference :=
  match s.target slot with
  | .ok .null => return .none
  | .ok (.symbol t) =>
    return .external (ClassReference.nameOfSymbol t.symbol) (s.library? t.ordinal)
  | .ok (.address a) =>
    if s.isMapped a then
      return .local (.ofOption .objcClass a (← className s a)) a
    else do
      warnDangling slot a what
      return .dangling a
  | .error e => do
    warnUnread slot what e
    return .dangling slot

def metaclass (s : Slice) (address : UInt64) : Survey (Option UInt64) :=
  match s.target (address + ClassField.isa.offset s.bits) with
  | .ok (.address a) =>
    if s.isMapped a then return some a else lost (warnDangling address a "metaclass")
  | .ok _ => return none
  | .error e => lost (warnUnread address "metaclass" e)

def classBody (s : Slice) (c : ClassRecord) : Survey ClassRecord := do
  let some word ← classWord s c.address | return c
  let field (f : ClassDataField) : UInt64 := Layout.classData s.bits word + f.offset s.bits
  let flags ← u32 s (field .flags) "class flags"
  let instanceStart ← u32 s (field .instanceStart) "instance start"
  let instanceSize ← u32 s (field .instanceSize) "instance size"
  let name ← classDataName s (Layout.classData s.bits word)
  if name.isSome then rememberName c.address name
  let instanceMethods ← methods s (field .methods) "method list"
  let protocols ← protocolNames s (field .protocols)
  let ivars ← ivars s (field .ivars)
  let properties ← properties s (field .properties) "property list"
  return { c with
    name := .ofOption .objcClass c.address name
    isSwift := Layout.isSwift s.bits word
    flags, instanceStart, instanceSize, instanceMethods, protocols, ivars, properties }

def metaclassBody (s : Slice) (c : ClassRecord) : Survey ClassRecord := do
  let some address ← metaclass s c.address | return c
  let some word ← classWord s address | return c
  let field (f : ClassDataField) : UInt64 := Layout.classData s.bits word + f.offset s.bits
  let classMethods ← methods s (field .methods) "class method list"
  let classProperties ← properties s (field .properties) "class property list"
  return { c with classMethods, classProperties }

def classRecord (s : Slice) (address : UInt64) : Survey ClassRecord := do
  let slot := address + ClassField.superclass.offset s.bits
  let superclass ← classReference s slot "superclass"
  let c ← classBody s { name := .unknown .objcClass address, address, superclass }
  metaclassBody s c

def classAt (s : Slice) (address : UInt64) : Survey (Option ClassRecord) := do
  let some (c, degraded) ← recordAt s address .objcClass (classRecord s address) | return none
  return some { c with degraded }

def categoryBody (s : Slice) (hasClassProperties : Bool) (address : UInt64) :
    Survey CategoryRecord := do
  let field (f : CategoryField) : UInt64 := address + f.offset s.bits
  let name ← followText s (field .name) "category name"
  let target ← classReference s (field .target) "category class"
  let instanceMethods ← methods s (field .instanceMethods) "instance methods"
  let classMethods ← methods s (field .classMethods) "class methods"
  let protocols ← protocolNames s (field .protocols)
  let own ← properties s (field .properties) "property list"
  let classProperties ← if hasClassProperties then
      properties s (field .classProperties) "class property list"
    else pure []
  return {
    name := .ofOption .category address name
    address, target, instanceMethods, classMethods, protocols, classProperties
    properties := own }

def categoryAt (s : Slice) (hasClassProperties : Bool) (address : UInt64) :
    Survey (Option CategoryRecord) := do
  let body := categoryBody s hasClassProperties address
  let some (c, degraded) ← recordAt s address .category body | return none
  return some { c with degraded }

def extendMethods (s : Slice) (array : UInt64) :
    (index : Nat) → List MethodRecord → Survey (List MethodRecord)
  | _, [] => return []
  | index, m :: ms => do
    let slot := array + s.bits.words (UInt64.ofNat index)
    let extended ← followText s slot "extended method type"
    noteEncoding slot .signature (extended.getD "")
    let rest ← extendMethods s array (index + 1) ms
    return { m with extendedEncoding := extended } :: rest

def extendProtocol (s : Slice) (array : UInt64) (p : ProtocolRecord) : Survey ProtocolRecord := do
  let instanceMethods ← extendMethods s array 0 p.instanceMethods
  let index := p.instanceMethods.length
  let classMethods ← extendMethods s array index p.classMethods
  let index := index + p.classMethods.length
  let optionalInstanceMethods ← extendMethods s array index p.optionalInstanceMethods
  let index := index + p.optionalInstanceMethods.length
  let optionalClassMethods ← extendMethods s array index p.optionalClassMethods
  return { p with
    instanceMethods, classMethods, optionalInstanceMethods, optionalClassMethods }

def protocolBody (s : Slice) (address : UInt64) : Survey ProtocolRecord := do
  let field (f : ProtocolField) : UInt64 := address + f.offset s.bits
  let name ← followText s (field .name) "protocol name"
  let protocols ← protocolNames s (field .protocols)
  let instanceMethods ← methods s (field .instanceMethods) "instance methods"
  let classMethods ← methods s (field .classMethods) "class methods"
  let optionalInstanceMethods ←
    methods s (field .optionalInstanceMethods) "optional instance methods"
  let optionalClassMethods ← methods s (field .optionalClassMethods) "optional class methods"
  let own ← properties s (field .properties) "property list"
  let p : ProtocolRecord := {
    name := .ofOption .protocol address name
    address, protocols, instanceMethods, classMethods, optionalInstanceMethods
    optionalClassMethods, properties := own }
  let size ← u32 s (field .size) "protocol size"
  let has (f : ProtocolField) : Bool := f.offset s.bits + s.bits.words 1 ≤ size.toUInt64
  let p ← if has .extendedTypes then do
      match ← follow s (field .extendedTypes) "extended method types" with
      | some array => extendProtocol s array p
      | none => pure p
    else pure p
  let classProperties ← if has .classProperties then
      properties s (field .classProperties) "class property list"
    else pure []
  return { p with classProperties }

def protocolAt (s : Slice) (address : UInt64) : Survey (Option ProtocolRecord) := do
  let some (p, degraded) ← recordAt s address .protocol (protocolBody s address) | return none
  return some { p with degraded }

end ObjcAtlas.Survey
