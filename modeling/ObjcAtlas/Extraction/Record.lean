import ObjcAtlas.Extraction.Member

set_option autoImplicit false

namespace ObjcAtlas.Extraction

/-- Takes in a record unless it is encrypted, and tells whether anything was amiss. -/
def recordAt {α : Type} (s : Slice) (address : UInt64) (kind : RecordKind) (step : Extraction α) :
    Extraction (Option (α × Bool)) :=
  if s.isEncryptedAt address then
    lost (warn .encryptedRegion address (kind.word ++ " record lies in the encrypted range"))
  else some <$> watched step

/-- The word with a class's data pointer, if the pointer leads anywhere. -/
def classWord (s : Slice) (address : UInt64) : Extraction (Option UInt64) :=
  follow s (address + ClassField.data.offset s.bits) "class data"

def classDataName (s : Slice) (data : UInt64) : Extraction (Option String) :=
  followText s (data + ClassDataField.name.offset s.bits) "class name"

def rememberName (address : UInt64) (name : Option String) : Extraction Unit :=
  modify fun p => { p with names := p.names.insert address name }

/-- The name of a class, read at most once. -/
def className (s : Slice) (address : UInt64) : Extraction (Option String) := do
  match (← get).names[address]? with
  | some name => return name
  | none =>
    let name ← do
      let some word ← classWord s address | pure none
      classDataName s (Layout.classData s.bits word)
    rememberName address name
    return name

def classReference (s : Slice) (slot : UInt64) (what : String) : Extraction ClassReference :=
  match s.target slot with
  | .ok .null => return .none
  | .ok (.symbol t) =>
    return .external (ClassReference.nameOfSymbol t.symbol) (s.library? t.ordinal)
  | .ok (.address a) =>
    if s.isMapped a then do
      let name ← className s a
      return .local (.ofOption .objcClass (← slid a) name) (← slid a)
    else do
      warnDangling slot a what
      return .dangling (← slid a)
  | .error e => do
    warnUnread slot what e
    return .dangling (← slid slot)

def metaclass (s : Slice) (address : UInt64) : Extraction (Option UInt64) :=
  match s.target (address + ClassField.isa.offset s.bits) with
  | .ok (.address a) =>
    if s.isMapped a then return some a else lost (warnDangling address a "metaclass")
  | .ok _ => return none
  | .error e => lost (warnUnread address "metaclass" e)

def classBody (s : Slice) (address : UInt64) (c : ClassRecord) : Extraction ClassRecord := do
  let some word ← classWord s address | return c
  let field (f : ClassDataField) : UInt64 := Layout.classData s.bits word + f.offset s.bits
  let flags ← u32 s (field .flags) "class flags"
  let instanceStart ← u32 s (field .instanceStart) "instance start"
  let instanceSize ← u32 s (field .instanceSize) "instance size"
  let name ← classDataName s (Layout.classData s.bits word)
  if name.isSome then rememberName address name
  let instanceMethods ← methods s (field .methods) "method list"
  let protocols ← protocolNames s (field .protocols)
  let ivars ← ivars s (field .ivars)
  let properties ← properties s (field .properties) "property list"
  return { c with
    name := name.elim c.name .known
    isSwift := Layout.isSwift s.bits word
    flags, instanceStart, instanceSize, instanceMethods, protocols, ivars, properties }

def metaclassBody (s : Slice) (address : UInt64) (c : ClassRecord) : Extraction ClassRecord := do
  let some metaclass ← metaclass s address | return c
  let some word ← classWord s metaclass | return c
  let field (f : ClassDataField) : UInt64 := Layout.classData s.bits word + f.offset s.bits
  let classMethods ← methods s (field .methods) "class method list"
  let classProperties ← properties s (field .properties) "class property list"
  return { c with classMethods, classProperties }

/-- Reads a class: its superclass, its own data, then that of its metaclass. -/
def classRecord (s : Slice) (address : UInt64) : Extraction ClassRecord := do
  let slot := address + ClassField.superclass.offset s.bits
  let superclass ← classReference s slot "superclass"
  let c ← classBody s address {
    name := .unknown .objcClass (← slid address), address := ← slid address, superclass }
  metaclassBody s address c

def classAt (s : Slice) (address : UInt64) : Extraction (Option ClassRecord) := do
  let some (c, degraded) ← recordAt s address .objcClass (classRecord s address) | return none
  return some { c with degraded }

/-- Reads a category; whether it has class properties is for the image info to say. -/
def categoryBody (s : Slice) (hasClassProperties : Bool) (address : UInt64) :
    Extraction CategoryRecord := do
  let field (f : CategoryField) : UInt64 := address + f.offset s.bits
  let name ← followText s (field .name) "category name"
  let target ← classReference s (field .target) "category class"
  let instanceMethods ← methods s (field .instanceMethods) "instance methods"
  let classMethods ← methods s (field .classMethods) "class methods"
  let protocols ← protocolNames s (field .protocols)
  let own ← properties s (field .properties) "property list"
  let classProperties ← if hasClassProperties then
      properties s (field .classProperties) "class property list"
    else pure []
  return {
    name := .ofOption .category (← slid address) name, address := ← slid address
    target, instanceMethods, classMethods, protocols, classProperties
    properties := own }

def categoryAt (s : Slice) (hasClassProperties : Bool) (address : UInt64) :
    Extraction (Option CategoryRecord) := do
  let body := categoryBody s hasClassProperties address
  let some (c, degraded) ← recordAt s address .category body | return none
  return some { c with degraded }

/-- The method with the extended encoding in `slot`, if there is one. The signature is that of the
    extended encoding if this can be decoded. -/
def extendMethod (s : Slice) (slot : UInt64) (m : MethodRecord) : Extraction MethodRecord := do
  let some extended ← followText s slot "extended method type" | return m
  let signature ← decoded .signature DecodeMemo.signature slot extended
  return { m with extendedEncoding := some extended, signature := signature.or m.signature }

/-- Gives each method the extended encoding at its number in the array, counted from `index`. -/
def extendMethods (s : Slice) (array : UInt64) :
    (index : Nat) → List MethodRecord → Extraction (List MethodRecord)
  | _, [] => return []
  | index, m :: ms => do
    let m ← extendMethod s (array + s.bits.words (UInt64.ofNat index)) m
    let rest ← extendMethods s array (index + 1) ms
    return m :: rest

/-- Adds the extended encodings, which one array holds for all four method lists. -/
def extendProtocol (s : Slice) (array : UInt64) (p : ProtocolRecord) :
    Extraction ProtocolRecord := do
  let instanceMethods ← extendMethods s array 0 p.instanceMethods
  let index := p.instanceMethods.length
  let classMethods ← extendMethods s array index p.classMethods
  let index := index + p.classMethods.length
  let optionalInstanceMethods ← extendMethods s array index p.optionalInstanceMethods
  let index := index + p.optionalInstanceMethods.length
  let optionalClassMethods ← extendMethods s array index p.optionalClassMethods
  return { p with
    instanceMethods, classMethods, optionalInstanceMethods, optionalClassMethods }

/-- Reads the fields that protocols did not always have. The size tells which are there. -/
def laterFields (s : Slice) (address : UInt64) (p : ProtocolRecord) :
    Extraction ProtocolRecord := do
  let field (f : ProtocolField) : UInt64 := address + f.offset s.bits
  let size ← u32 s (field .size) "protocol size"
  let has (f : ProtocolField) : Bool := f.offset s.bits + s.bits.words 1 ≤ size.toUInt64
  let p ← if has .extendedTypes then do
      match ← follow s (field .extendedTypes) "extended method types" with
      | some array => extendProtocol s array p
      | none => pure p
    else pure p
  let classProperties ← if has .classProperties then
      properties s (field .classProperties) "class property list"
    else pure []
  return { p with classProperties }

def protocolBody (s : Slice) (address : UInt64) : Extraction ProtocolRecord := do
  let field (f : ProtocolField) : UInt64 := address + f.offset s.bits
  let name ← followText s (field .name) "protocol name"
  let protocols ← protocolNames s (field .protocols)
  let instanceMethods ← methods s (field .instanceMethods) "instance methods"
  let classMethods ← methods s (field .classMethods) "class methods"
  let optionalInstanceMethods ←
    methods s (field .optionalInstanceMethods) "optional instance methods"
  let optionalClassMethods ← methods s (field .optionalClassMethods) "optional class methods"
  let own ← properties s (field .properties) "property list"
  laterFields s address {
    name := .ofOption .protocol (← slid address) name, address := ← slid address
    protocols, instanceMethods, classMethods, optionalInstanceMethods, optionalClassMethods
    properties := own }

def protocolAt (s : Slice) (address : UInt64) : Extraction (Option ProtocolRecord) := do
  let some (p, degraded) ← recordAt s address .protocol (protocolBody s address) | return none
  return some { p with degraded }

end ObjcAtlas.Extraction
