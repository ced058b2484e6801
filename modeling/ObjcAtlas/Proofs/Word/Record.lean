import ObjcAtlas.Proofs.Survey.Frame
import ObjcAtlas.Proofs.Word.Member

set_option autoImplicit false

namespace ObjcAtlas.Sweep

open Word

variable {α : Type}

def recordAt (s : Slice) (address : UInt64) (kind : RecordKind) (step : Sweep α) :
    Sweep (Option (α × Bool)) := do
  if ← isEncryptedAt s address then
    plain (Survey.lost (Survey.warn .encryptedRegion address
      (kind.word ++ " record lies in the encrypted range")))
  else some <$> watched step

def classWord (s : Slice) (address : UInt64) : Sweep (Option UInt64) := do
  follow s (← sum address (ClassField.data.offset s.bits)) "class data"

def classDataName (s : Slice) (data : UInt64) : Sweep (Option String) := do
  followText s (← sum data (ClassDataField.name.offset s.bits)) "class name"

def className (s : Slice) (address : UInt64) : Sweep (Option String) := do
  match (← get).names[address]? with
  | some name => return name
  | none =>
    let name ← do
      let some word ← classWord s address | pure none
      classDataName s (Layout.classData s.bits word)
    plain (Survey.rememberName address name)
    return name

def classReference (s : Slice) (slot : UInt64) (what : String) : Sweep ClassReference := do
  match ← (Run.target s slot).run with
  | .ok .null => return .none
  | .ok (.symbol t) =>
    return .external (ClassReference.nameOfSymbol t.symbol) (s.library? t.ordinal)
  | .ok (.address a) =>
    if ← isMapped s a then
      return .local (.ofOption .objcClass a (← className s a)) a
    else
      plain (Survey.warnDangling slot a what)
      return .dangling a
  | .error e =>
    plain (Survey.warnUnread slot what e)
    return .dangling slot

def metaclass (s : Slice) (address : UInt64) : Sweep (Option UInt64) := do
  match ← (Run.target s (← sum address (ClassField.isa.offset s.bits))).run with
  | .ok (.address a) =>
    if ← isMapped s a then return some a
    else plain (Survey.lost (Survey.warnDangling address a "metaclass"))
  | .ok _ => return none
  | .error e => plain (Survey.lost (Survey.warnUnread address "metaclass" e))

def classBody (s : Slice) (c : ClassRecord) : Sweep ClassRecord := do
  let some word ← classWord s c.address | return c
  let field (f : ClassDataField) : Option UInt64 :=
    sum (Layout.classData s.bits word) (f.offset s.bits)
  let flags ← u32 s (← field .flags) "class flags"
  let instanceStart ← u32 s (← field .instanceStart) "instance start"
  let instanceSize ← u32 s (← field .instanceSize) "instance size"
  let name ← classDataName s (Layout.classData s.bits word)
  if name.isSome then plain (Survey.rememberName c.address name)
  let instanceMethods ← methods s (← field .methods) "method list"
  let protocols ← protocolNames s (← field .protocols)
  let ivars ← ivars s (← field .ivars)
  let properties ← properties s (← field .properties) "property list"
  return { c with
    name := .ofOption .objcClass c.address name
    isSwift := Layout.isSwift s.bits word
    flags, instanceStart, instanceSize, instanceMethods, protocols, ivars, properties }

def metaclassBody (s : Slice) (c : ClassRecord) : Sweep ClassRecord := do
  let some address ← metaclass s c.address | return c
  let some word ← classWord s address | return c
  let field (f : ClassDataField) : Option UInt64 :=
    sum (Layout.classData s.bits word) (f.offset s.bits)
  let classMethods ← methods s (← field .methods) "class method list"
  let classProperties ← properties s (← field .properties) "class property list"
  return { c with classMethods, classProperties }

def classRecord (s : Slice) (address : UInt64) : Sweep ClassRecord := do
  let slot ← sum address (ClassField.superclass.offset s.bits)
  let superclass ← classReference s slot "superclass"
  let c ← classBody s { name := .unknown .objcClass address, address, superclass }
  metaclassBody s c

def classAt (s : Slice) (address : UInt64) : Sweep (Option ClassRecord) := do
  let some (c, degraded) ← recordAt s address .objcClass (classRecord s address) | return none
  return some { c with degraded }

def categoryBody (s : Slice) (hasClassProperties : Bool) (address : UInt64) :
    Sweep CategoryRecord := do
  let field (f : CategoryField) : Option UInt64 := sum address (f.offset s.bits)
  let name ← followText s (← field .name) "category name"
  let target ← classReference s (← field .target) "category class"
  let instanceMethods ← methods s (← field .instanceMethods) "instance methods"
  let classMethods ← methods s (← field .classMethods) "class methods"
  let protocols ← protocolNames s (← field .protocols)
  let own ← properties s (← field .properties) "property list"
  let classProperties ← if hasClassProperties then do
      properties s (← field .classProperties) "class property list"
    else pure []
  return {
    name := .ofOption .category address name
    address, target, instanceMethods, classMethods, protocols, classProperties
    properties := own }

def categoryAt (s : Slice) (hasClassProperties : Bool) (address : UInt64) :
    Sweep (Option CategoryRecord) := do
  let body := categoryBody s hasClassProperties address
  let some (c, degraded) ← recordAt s address .category body | return none
  return some { c with degraded }

def extendMethods (s : Slice) (array : UInt64) :
    (index : Nat) → List MethodRecord → Sweep (List MethodRecord)
  | _, [] => return []
  | index, m :: ms => do
    let slot ← sum array (← words s.bits (UInt64.ofNat index))
    let extended ← followText s slot "extended method type"
    plain (Survey.noteEncoding slot .signature (extended.getD ""))
    let rest ← extendMethods s array (index + 1) ms
    return { m with extendedEncoding := extended } :: rest

def extendProtocol (s : Slice) (array : UInt64) (p : ProtocolRecord) : Sweep ProtocolRecord := do
  let instanceMethods ← extendMethods s array 0 p.instanceMethods
  let index := p.instanceMethods.length
  let classMethods ← extendMethods s array index p.classMethods
  let index := index + p.classMethods.length
  let optionalInstanceMethods ← extendMethods s array index p.optionalInstanceMethods
  let index := index + p.optionalInstanceMethods.length
  let optionalClassMethods ← extendMethods s array index p.optionalClassMethods
  return { p with
    instanceMethods, classMethods, optionalInstanceMethods, optionalClassMethods }

def protocolBody (s : Slice) (address : UInt64) : Sweep ProtocolRecord := do
  let field (f : ProtocolField) : Option UInt64 := sum address (f.offset s.bits)
  let name ← followText s (← field .name) "protocol name"
  let protocols ← protocolNames s (← field .protocols)
  let instanceMethods ← methods s (← field .instanceMethods) "instance methods"
  let classMethods ← methods s (← field .classMethods) "class methods"
  let optionalInstanceMethods ←
    methods s (← field .optionalInstanceMethods) "optional instance methods"
  let optionalClassMethods ← methods s (← field .optionalClassMethods) "optional class methods"
  let own ← properties s (← field .properties) "property list"
  let p : ProtocolRecord := {
    name := .ofOption .protocol address name
    address, protocols, instanceMethods, classMethods, optionalInstanceMethods
    optionalClassMethods, properties := own }
  let size ← u32 s (← field .size) "protocol size"
  let has (f : ProtocolField) : Bool := f.offset s.bits + s.bits.words 1 ≤ size.toUInt64
  let p ← if has .extendedTypes then do
      match ← follow s (← field .extendedTypes) "extended method types" with
      | some array => extendProtocol s array p
      | none => pure p
    else pure p
  let classProperties ← if has .classProperties then do
      properties s (← field .classProperties) "class property list"
    else pure []
  return { p with classProperties }

def protocolAt (s : Slice) (address : UInt64) : Sweep (Option ProtocolRecord) := do
  let some (p, degraded) ← recordAt s address .protocol (protocolBody s address) | return none
  return some { p with degraded }

theorem hasRoom_classData (b : Bitness) {word : UInt64} (h : word.toNat < 2 ^ 56) :
    HasRoom (Layout.classData b word) :=
  hasRoom_of_lt (Nat.lt_of_le_of_lt (Layout.classData_le b word) h)

section

variable {s : Slice} (hs : s.Checked)

include hs

theorem tracks_recordAt {step : Sweep α} {step' : Survey α} (h : Tracks step step')
    (address : UInt64) (kind : RecordKind) :
    Tracks (recordAt s address kind step) (Survey.recordAt s address kind step') := by
  refine .step (isEncryptedAt_eq hs address) (.ite (fun _ => tracks_plain _) fun _ => ?_)
  exact h.watched.bind fun _ => tracks_pure _

theorem tracks_classWord {address : UInt64} (h : address.toNat < 2 ^ 56) :
    Tracks (classWord s address) (Survey.classWord s address) :=
  .step ((hasRoom_of_lt h).sum_eq (ClassField.offset_lt _ _)) (tracks_follow hs _ _)

theorem tracks_classDataName {data : UInt64} (h : HasRoom data) :
    Tracks (classDataName s data) (Survey.classDataName s data) :=
  .step (h.sum_eq (ClassDataField.offset_lt _ _)) (tracks_followText hs _ _)

theorem tracks_className {address : UInt64} (h : address.toNat < 2 ^ 56) :
    Tracks (className s address) (Survey.className s address) := by
  rw [className, Survey.className]
  refine Tracks.bind (fun _ => rfl) fun n => ?_
  cases n.names[address]? with
  | some name => exact tracks_pure name
  | none =>
    refine (tracks_classWord hs h).bind_of_gives (Survey.follow_gives s _ _) ?_
    cases hword : s.followed? (address + ClassField.data.offset s.bits) with
    | none =>
      refine (tracks_pure none).bind fun name => ?_
      exact (tracks_plain _).bind fun _ => tracks_pure name
    | some word =>
      have hroom := hasRoom_classData s.bits (Slice.followed?_lt hword)
      refine (tracks_classDataName hs hroom).bind fun name => ?_
      exact (tracks_plain _).bind fun _ => tracks_pure name

theorem tracks_classReference (slot : UInt64) (what : String) :
    Tracks (classReference s slot what) (Survey.classReference s slot what) := by
  rw [classReference, Survey.classReference]
  refine .step (Run.runs_target hs slot) ?_
  cases htarget : s.target slot with
  | error e => exact (tracks_plain _).bind fun _ => tracks_pure _
  | ok value =>
    cases value with
    | null => exact tracks_pure _
    | symbol t => exact tracks_pure _
    | address a =>
      refine .step (isMapped_eq hs a) (.ite (fun _ => ?_) fun _ => ?_)
      · exact (tracks_className hs (Slice.target_lt htarget)).bind fun _ => tracks_pure _
      · exact (tracks_plain _).bind fun _ => tracks_pure _

theorem tracks_metaclass {address : UInt64} (h : address.toNat < 2 ^ 56) :
    Tracks (metaclass s address) (Survey.metaclass s address) := by
  rw [metaclass, Survey.metaclass]
  refine .step ((hasRoom_of_lt h).sum_eq (ClassField.offset_lt _ _)) ?_
  refine .step (Run.runs_target hs _) ?_
  cases s.target (address + ClassField.isa.offset s.bits) with
  | error e => exact tracks_plain _
  | ok value =>
    cases value with
    | null => exact tracks_pure none
    | symbol t => exact tracks_pure none
    | address a =>
      exact .step (isMapped_eq hs a) (.ite (fun _ => tracks_pure _) fun _ => tracks_plain _)

theorem tracks_classBody {c : ClassRecord} (h : c.address.toNat < 2 ^ 56) :
    Tracks (classBody s c) (Survey.classBody s c) := by
  rw [classBody, Survey.classBody]
  refine (tracks_classWord hs h).bind_of_gives (Survey.follow_gives s _ _) ?_
  cases hword : s.followed? (c.address + ClassField.data.offset s.bits) with
  | none => exact tracks_pure c
  | some word =>
    have hroom := hasRoom_classData s.bits (Slice.followed?_lt hword)
    have hfield (f : ClassDataField) := hroom.sum_eq (f.offset_lt s.bits)
    refine .step (hfield _) ((tracks_u32 hs _ _).bind fun flags => ?_)
    refine .step (hfield _) ((tracks_u32 hs _ _).bind fun instanceStart => ?_)
    refine .step (hfield _) ((tracks_u32 hs _ _).bind fun instanceSize => ?_)
    refine (tracks_classDataName hs hroom).bind fun name => ?_
    refine .ite_bind (tracks_plain _) (tracks_pure ⟨⟩) fun _ => ?_
    refine .step (hfield _) ((tracks_methods hs _ _).bind fun instanceMethods => ?_)
    refine .step (hfield _) ((tracks_protocolNames hs _).bind fun protocols => ?_)
    refine .step (hfield _) ((tracks_ivars hs _).bind fun ivars => ?_)
    refine .step (hfield _) ((tracks_properties hs _ _).bind fun properties => ?_)
    exact tracks_pure _

theorem tracks_metaclassBody {c : ClassRecord} (h : c.address.toNat < 2 ^ 56) :
    Tracks (metaclassBody s c) (Survey.metaclassBody s c) := by
  rw [metaclassBody, Survey.metaclassBody]
  refine (tracks_metaclass hs h).bind_of_gives (Survey.metaclass_gives s _) ?_
  cases haddress : s.followed? (c.address + ClassField.isa.offset s.bits) with
  | none => exact tracks_pure c
  | some address =>
    refine (tracks_classWord hs (Slice.followed?_lt haddress)).bind_of_gives
      (Survey.follow_gives s _ _) ?_
    cases hword : s.followed? (address + ClassField.data.offset s.bits) with
    | none => exact tracks_pure c
    | some word =>
      have hroom := hasRoom_classData s.bits (Slice.followed?_lt hword)
      have hfield (f : ClassDataField) := hroom.sum_eq (f.offset_lt s.bits)
      refine .step (hfield _) ((tracks_methods hs _ _).bind fun classMethods => ?_)
      refine .step (hfield _) ((tracks_properties hs _ _).bind fun classProperties => ?_)
      exact tracks_pure _

theorem tracks_classAt {address : UInt64} (h : address.toNat < 2 ^ 56) :
    Tracks (classAt s address) (Survey.classAt s address) := by
  have hrecord : Tracks (classRecord s address) (Survey.classRecord s address) := by
    refine .step ((hasRoom_of_lt h).sum_eq (ClassField.offset_lt _ _)) ?_
    refine (tracks_classReference hs _ _).bind fun superclass => ?_
    refine (tracks_classBody hs h).bind_of_ensures (Survey.classBody_address s _) fun c hc => ?_
    have haddress : c.address = address := hc
    exact tracks_metaclassBody hs (by rwa [haddress])
  refine (tracks_recordAt hs hrecord address .objcClass).bind fun found => ?_
  cases found <;> exact tracks_pure _

theorem tracks_propertiesIf {c : Prop} [Decidable c] {o : Option UInt64} {slot : UInt64}
    (ho : o = some slot) (what : String) (f : List PropertyRecord → α) :
    Tracks
      (if c then liftM o >>= fun slot => properties s slot what >>= fun ps => pure (f ps)
        else pure [] >>= fun ps => pure (f ps))
      (if c then Survey.properties s slot what >>= fun ps => pure (f ps)
        else pure [] >>= fun ps => pure (f ps)) := by
  refine .ite (fun _ => ?_) fun _ => tracks_pure _
  exact .step ho ((tracks_properties hs slot what).bind fun _ => tracks_pure _)

theorem tracks_categoryAt {address : UInt64} (h : address.toNat < 2 ^ 56)
    (hasClassProperties : Bool) :
    Tracks (categoryAt s hasClassProperties address)
      (Survey.categoryAt s hasClassProperties address) := by
  have hfield (f : CategoryField) := (hasRoom_of_lt h).sum_eq (f.offset_lt s.bits)
  have hbody : Tracks (categoryBody s hasClassProperties address)
      (Survey.categoryBody s hasClassProperties address) := by
    rw [categoryBody, Survey.categoryBody]
    refine .step (hfield _) ((tracks_followText hs _ _).bind fun name => ?_)
    refine .step (hfield _) ((tracks_classReference hs _ _).bind fun target => ?_)
    refine .step (hfield _) ((tracks_methods hs _ _).bind fun instanceMethods => ?_)
    refine .step (hfield _) ((tracks_methods hs _ _).bind fun classMethods => ?_)
    refine .step (hfield _) ((tracks_protocolNames hs _).bind fun protocols => ?_)
    refine .step (hfield _) ((tracks_properties hs _ _).bind fun own => ?_)
    exact tracks_propertiesIf hs (hfield _) _ _
  refine (tracks_recordAt hs hbody address .category).bind fun found => ?_
  cases found <;> exact tracks_pure _

theorem tracks_extendMethods {array : UInt64} (ha : array.toNat < 2 ^ 56) {index : Nat}
    {ms : List MethodRecord} (h : index + ms.length ≤ 2 ^ 34) :
    Tracks (extendMethods s array index ms) (Survey.extendMethods s array index ms) := by
  induction ms generalizing index with
  | nil => exact tracks_pure []
  | cons m ms ih =>
    rw [List.length_cons] at h
    have hp : s.bits.pointerSize ≤ 8 := by cases s.bits <;> decide
    have hindex : (UInt64.ofNat index).toNat = index :=
      UInt64.toNat_ofNat_of_lt' (show index < 2 ^ 64 by omega)
    have hplace : (UInt64.ofNat index).toNat * s.bits.pointerSize ≤ 2 ^ 34 * 8 :=
      Nat.mul_le_mul (by omega) hp
    have hbytes := toNat_words (b := s.bits) (n := UInt64.ofNat index) (by omega)
    rw [extendMethods, Survey.extendMethods]
    refine .step (words_eq (by omega)) (.step (Word.sum_eq (by omega)) ?_)
    refine (tracks_followText hs _ _).bind fun extended => (tracks_plain _).bind fun _ => ?_
    exact (ih (by omega)).bind fun rest => tracks_pure _

theorem tracks_extendProtocol {array : UInt64} (ha : array.toNat < 2 ^ 56) {p : ProtocolRecord}
    (h₁ : p.instanceMethods.length < 2 ^ 32) (h₂ : p.classMethods.length < 2 ^ 32)
    (h₃ : p.optionalInstanceMethods.length < 2 ^ 32)
    (h₄ : p.optionalClassMethods.length < 2 ^ 32) :
    Tracks (extendProtocol s array p) (Survey.extendProtocol s array p) := by
  rw [extendProtocol, Survey.extendProtocol]
  refine (tracks_extendMethods hs ha (by omega)).bind fun _ => ?_
  refine (tracks_extendMethods hs ha (by omega)).bind fun _ => ?_
  refine (tracks_extendMethods hs ha (by omega)).bind fun _ => ?_
  refine (tracks_extendMethods hs ha (by omega)).bind fun _ => ?_
  exact tracks_pure _

omit hs in
theorem length_methods_lt (slot : UInt64) (what : String) :
    Survey.Ensures (Survey.methods s slot what) fun ms => ms.length < 2 ^ 32 := by
  intro n
  rw [Survey.methods_gives s slot what n]
  refine Nat.lt_of_le_of_lt (List.length_filterMap_le _ _) ?_
  rw [Slice.methodEntries]
  cases s.followed? slot with
  | none => exact Nat.two_pow_pos 32
  | some list =>
    cases hheader : s.methodHeader? list with
    | none => simp [hheader]
    | some header =>
      have hfound := (Option.filter_eq_some_iff.1 hheader).1
      simpa [hheader, ListHeader.entries] using (listHeader?_bounds hfound).1

theorem tracks_protocolAt {address : UInt64} (h : address.toNat < 2 ^ 56) :
    Tracks (protocolAt s address) (Survey.protocolAt s address) := by
  have hfield (f : ProtocolField) := (hasRoom_of_lt h).sum_eq (f.offset_lt s.bits)
  have hbody : Tracks (protocolBody s address) (Survey.protocolBody s address) := by
    rw [protocolBody, Survey.protocolBody]
    refine .step (hfield _) ((tracks_followText hs _ _).bind fun name => ?_)
    refine .step (hfield _) ((tracks_protocolNames hs _).bind fun protocols => ?_)
    refine .step (hfield _) ((tracks_methods hs _ _).bind_of_ensures (length_methods_lt _ _) ?_)
    intro instanceMethods h₁
    refine .step (hfield _) ((tracks_methods hs _ _).bind_of_ensures (length_methods_lt _ _) ?_)
    intro classMethods h₂
    refine .step (hfield _) ((tracks_methods hs _ _).bind_of_ensures (length_methods_lt _ _) ?_)
    intro optionalInstanceMethods h₃
    refine .step (hfield _) ((tracks_methods hs _ _).bind_of_ensures (length_methods_lt _ _) ?_)
    intro optionalClassMethods h₄
    refine .step (hfield _) ((tracks_properties hs _ _).bind fun own => ?_)
    refine .step (hfield _) ((tracks_u32 hs _ _).bind fun size => ?_)
    refine .ite (fun _ => .step (hfield _) ?_) fun _ =>
      (tracks_pure _).bind fun p => tracks_propertiesIf hs (hfield _) _ _
    refine (tracks_follow hs _ _).bind_of_gives (Survey.follow_gives s _ _) ?_
    cases harray : s.followed? (address + ProtocolField.extendedTypes.offset s.bits) with
    | none => exact (tracks_pure _).bind fun p => tracks_propertiesIf hs (hfield _) _ _
    | some array =>
      refine (tracks_extendProtocol hs (Slice.followed?_lt harray) h₁ h₂ h₃ h₄).bind fun p => ?_
      exact tracks_propertiesIf hs (hfield _) _ _
  refine (tracks_recordAt hs hbody address .protocol).bind fun found => ?_
  cases found <;> exact tracks_pure _

end

end ObjcAtlas.Sweep
