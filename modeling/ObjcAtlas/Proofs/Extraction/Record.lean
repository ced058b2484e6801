import ObjcAtlas.Proofs.Extraction.Member
import ObjcAtlas.Proofs.Survey.Methods

set_option autoImplicit false

namespace ObjcAtlas

def Survey.laterFields (s : Slice) (address : UInt64) (p : ProtocolRecord) :
    Survey ProtocolRecord := do
  let field (f : ProtocolField) : UInt64 := address + f.offset s.bits
  let size ← u32 s (field .size) "protocol size"
  let has (f : ProtocolField) : Bool := f.offset s.bits + s.bits.words 1 ≤ size.toUInt64
  let p ← if has .extendedTypes then do
      match ← follow s (field .extendedTypes) "extended method types" with
      | some array => extendProtocol s array p
      | none => pure p
    else pure p
  let classProperties ← if has .classProperties then
      properties s (field .classProperties) "class property list"
    else pure []
  return { p with classProperties }

theorem RecordName.move_ofOption (slide : UInt64) (kind : RecordKind) (address : UInt64)
    (name : Option String) : (RecordName.ofOption kind address name).move slide =
      .ofOption kind (address + slide) name := by
  cases name <;> rfl

namespace Extraction

variable {α β : Type} {o : ExtractOptions} {M : DecodeMemo} (s : Slice)

theorem mirrors_recordAt {step : Extraction β} {step' : Survey α} {report : α → β}
    (h : Mirrors o M step step' report) (address : UInt64) (kind : RecordKind) :
    Mirrors o M (recordAt s address kind step) (Survey.recordAt s address kind step')
      (Option.map fun r => (report r.1, r.2)) :=
  .ite (mirrors_lost (mirrors_warn (by decide) _ _) rfl) h.watched.some_map

theorem mirrors_rememberName (address : UInt64) (name : Option String) :
    Mirrors o M (rememberName address name) (Survey.rememberName address name) id := by
  intro n
  refine ⟨[], (List.append_nil _).symm, nofun, fun p hnames _ _ => ?_⟩
  change some ((), { p with names := p.names.insert address name }) =
    some ((), p.after o [] (n.names.insert address name))
  rw [Progress.after_nil, hnames]

def readClassName (s : Slice) (address : UInt64) : Extraction (Option String) := do
  let some word ← classWord s address | return none
  classDataName s (Layout.classData s.bits word)

theorem className_apply (address : UInt64) (p : Progress) :
    className s address o p = match p.names[address]? with
      | some name => some (name, p)
      | none => (readClassName s address >>= fun name =>
          rememberName address name >>= fun _ => pure name) o p := by
  change (match p.names[address]? with
    | some name => (pure name : Extraction (Option String))
    | none => _) o p = _
  cases p.names[address]? with
  | some name => rfl
  | none =>
    rw [readClassName, bind_assoc]
    refine congrFun (congrFun (f := (_ : Extraction _)) (bind_congr fun r => ?_) o) p
    cases r <;> rfl

theorem mirrors_className (address : UInt64) :
    Mirrors o M (className s address) (Survey.className s address) id := by
  have hread : Mirrors o M (readClassName s address) (Survey.readClassName s address) id :=
    (mirrors_follow s _ _).bind_option (mirrors_pure rfl) fun word => mirrors_followText s _ _
  have hfresh : Mirrors o M
      (readClassName s address >>= fun name => rememberName address name >>= fun _ => pure name)
      (Survey.readClassName s address >>= fun name =>
        Survey.rememberName address name >>= fun _ => pure name) id :=
    hread.bind fun name => (mirrors_rememberName address name).bind fun _ => mirrors_pure rfl
  intro n
  rw [Survey.className_apply]
  cases hname : n.names[address]? with
  | some name =>
    refine ⟨[], (List.append_nil _).symm, nofun, fun p hnames _ _ => ?_⟩
    rw [className_apply, hnames, hname, Progress.after_nil, ← hnames]
    rfl
  | none =>
    obtain ⟨events, hlog, hplain, hrun⟩ := hfresh n
    refine ⟨events, hlog, hplain, fun p hnames hright hcovers => ?_⟩
    rw [className_apply, hnames, hname]
    exact hrun p hnames hright hcovers

theorem mirrors_classReference (slot : UInt64) (what : String) :
    Mirrors o M (classReference s slot what) (Survey.classReference s slot what)
      (·.move o.slide) := by
  unfold classReference Survey.classReference
  cases s.target slot with
  | error e => exact (mirrors_warnUnread _ _ _).bind fun _ => .slid (mirrors_pure rfl)
  | ok value =>
    cases value with
    | null => exact mirrors_pure rfl
    | symbol t => exact mirrors_pure rfl
    | address a =>
      refine .ite ((mirrors_className s a).bind fun name => .slid (.slid (mirrors_pure ?_)))
        ((mirrors_warn (by decide) _ _).bind fun _ => .slid (mirrors_pure rfl))
      cases name <;> rfl

theorem mirrors_metaclass (address : UInt64) :
    Mirrors o M (metaclass s address) (Survey.metaclass s address) id := by
  unfold metaclass Survey.metaclass
  cases s.target (address + ClassField.isa.offset s.bits) with
  | error e => exact mirrors_lost (mirrors_warnUnread _ _ _) rfl
  | ok value =>
    cases value with
    | null => exact mirrors_pure rfl
    | symbol t => exact mirrors_pure rfl
    | address a => exact .ite (mirrors_pure rfl) (mirrors_lost (mirrors_warn (by decide) _ _) rfl)

section

variable (hM : M.Serves o)

include hM

theorem mirrors_classBody (c : ClassRecord) (hname : c.name = .unknown .objcClass c.address) :
    Mirrors o M (classBody s c.address ((c.decode M).move o.slide)) (Survey.classBody s c)
      fun c => (c.decode M).move o.slide := by
  refine (mirrors_follow s _ _).bind_option (mirrors_pure rfl) fun word => ?_
  refine (mirrors_u32 s _ _).bind fun flags => (mirrors_u32 s _ _).bind fun instanceStart => ?_
  refine (mirrors_u32 s _ _).bind fun instanceSize => ?_
  refine (mirrors_followText s _ _).bind fun name => .when (mirrors_rememberName _ _) ?_
  refine (mirrors_methods s hM _ _).bind fun instanceMethods => ?_
  refine (mirrors_protocolNames s _).bind fun protocols => ?_
  refine (mirrors_ivars s hM _).bind fun ivars => ?_
  refine (mirrors_properties s hM _ _).bind fun properties => mirrors_pure ?_
  have hunread : ((c.decode M).move o.slide).name =
      (RecordName.ofOption .objcClass c.address none).move o.slide :=
    congrArg (RecordName.move o.slide) hname
  cases name with
  | none =>
    simp only [id, Option.elim_none, hunread]
    simp [ClassRecord.move, ClassRecord.decode]
  | some name =>
    simp [ClassRecord.move, ClassRecord.decode, RecordName.move, RecordName.ofOption]

theorem mirrors_metaclassBody (c : ClassRecord) :
    Mirrors o M (metaclassBody s c.address ((c.decode M).move o.slide)) (Survey.metaclassBody s c)
      fun c => (c.decode M).move o.slide := by
  refine (mirrors_metaclass s _).bind_option (mirrors_pure rfl) fun metaclass => ?_
  refine (mirrors_follow s _ _).bind_option (mirrors_pure rfl) fun word => ?_
  refine (mirrors_methods s hM _ _).bind fun classMethods => ?_
  refine (mirrors_properties s hM _ _).bind fun classProperties => mirrors_pure ?_
  simp [ClassRecord.move, ClassRecord.decode]

theorem mirrors_classRecord (address : UInt64) :
    Mirrors o M (classRecord s address) (Survey.classRecord s address)
      fun c => (c.decode M).move o.slide := by
  refine (mirrors_classReference s _ _).bind fun superclass => .slid (.slid ?_)
  have hstart := mirrors_classBody s hM
    { name := .unknown .objcClass address, address, superclass } rfl
  refine hstart.bind_of_ensures (Survey.classBody_address s _) fun c haddress => ?_
  have hthen := mirrors_metaclassBody s hM c
  rwa [haddress] at hthen

theorem mirrors_classAt (address : UInt64) :
    Mirrors o M (classAt s address) (Survey.classAt s address)
      (Option.map fun c => (c.decode M).move o.slide) := by
  refine (mirrors_recordAt s (mirrors_classRecord s hM address) address _).bind fun r => ?_
  cases r <;> exact mirrors_pure rfl

theorem mirrors_propertiesIf {α β : Type} {c : Prop} [Decidable c] (slot : UInt64) (what : String)
    {f : List PropertyRecord → Extraction β} {g : List PropertyRecord → Survey α} {report : α → β}
    (h : ∀ ps, Mirrors o M (f (ps.map (·.decode M))) (g ps) report) :
    Mirrors o M (if c then properties s slot what >>= f else pure [] >>= f)
      (if c then Survey.properties s slot what >>= g else pure [] >>= g) report :=
  .ite ((mirrors_properties s hM slot what).bind h) (h [])

theorem mirrors_categoryBody (hasClassProperties : Bool) (address : UInt64) :
    Mirrors o M (categoryBody s hasClassProperties address)
      (Survey.categoryBody s hasClassProperties address)
      fun c => (c.decode M).move o.slide := by
  refine (mirrors_followText s _ _).bind fun name => ?_
  refine (mirrors_classReference s _ _).bind fun target => ?_
  refine (mirrors_methods s hM _ _).bind fun instanceMethods => ?_
  refine (mirrors_methods s hM _ _).bind fun classMethods => ?_
  refine (mirrors_protocolNames s _).bind fun protocols => ?_
  refine (mirrors_properties s hM _ _).bind fun own => ?_
  refine mirrors_propertiesIf s hM _ _ fun classProperties => .slid (.slid (mirrors_pure ?_))
  simp [CategoryRecord.move, CategoryRecord.decode, RecordName.move_ofOption]

theorem mirrors_categoryAt (hasClassProperties : Bool) (address : UInt64) :
    Mirrors o M (categoryAt s hasClassProperties address)
      (Survey.categoryAt s hasClassProperties address)
      (Option.map fun c => (c.decode M).move o.slide) := by
  have hbody := mirrors_categoryBody s hM hasClassProperties address
  refine (mirrors_recordAt s hbody address _).bind fun r => ?_
  cases r <;> exact mirrors_pure rfl

theorem mirrors_extendMethod (slot : UInt64) {m : MethodRecord} (hm : m.extendedEncoding = none) :
    Mirrors o M (extendMethod s slot ((m.decode M).move o.slide))
      (do
        let extended ← Survey.followText s slot "extended method type"
        Survey.noteEncoding slot .signature (extended.getD "")
        return { m with extendedEncoding := extended })
      fun m => (m.decode M).move o.slide := by
  refine (mirrors_followText s _ _).bind fun extended => ?_
  cases extended with
  | none =>
    have hnone : { m with extendedEncoding := none } = m := by rw [← hm]
    rw [hnone]
    exact mirrors_pure rfl
  | some text =>
    refine (mirrors_decoded decodes_signature hM _ _).bind fun _ => mirrors_pure ?_
    simp [MethodRecord.move, MethodRecord.decode, hm]

theorem mirrors_extendMethods (array : UInt64) (index : Nat) {ms : List MethodRecord}
    (h : ∀ m ∈ ms, m.extendedEncoding = none) :
    Mirrors o M
      (extendMethods s array index (ms.map fun m => (m.decode M).move o.slide))
      (Survey.extendMethods s array index ms)
      (List.map fun m => (m.decode M).move o.slide) := by
  induction ms generalizing index with
  | nil => exact mirrors_pure rfl
  | cons m ms ih =>
    obtain ⟨hm, hms⟩ := List.forall_mem_cons.1 h
    refine Mirrors.bind (g := fun m => Survey.extendMethods s array (index + 1) ms >>= fun rest =>
      pure (m :: rest)) (mirrors_extendMethod s hM _ hm) fun m => ?_
    exact (ih (index + 1) hms).bind fun rest => mirrors_pure rfl

/-- A method list knows no extended encodings. -/
theorem mirrors_plainMethods {α β : Type} (slot : UInt64) (what : String)
    {f : List MethodRecord → Extraction β} {g : List MethodRecord → Survey α} {report : α → β}
    (h : ∀ ms, (∀ m ∈ ms, m.extendedEncoding = none) →
      Mirrors o M (f (ms.map fun m => (m.decode M).move o.slide)) (g ms) report) :
    Mirrors o M (methods s slot what >>= f) (Survey.methods s slot what >>= g) report := by
  refine (mirrors_methods s hM slot what).bind_of_gives (Survey.methods_gives s slot what) ?_
  refine h _ fun m hm => ?_
  obtain ⟨entry, -, hentry⟩ := List.mem_filterMap.1 hm
  exact MethodEntry.extendedEncoding_of_method? hentry

structure Unextended (p : ProtocolRecord) : Prop where
  instanceMethods : ∀ m ∈ p.instanceMethods, m.extendedEncoding = none
  classMethods : ∀ m ∈ p.classMethods, m.extendedEncoding = none
  optionalInstanceMethods : ∀ m ∈ p.optionalInstanceMethods, m.extendedEncoding = none
  optionalClassMethods : ∀ m ∈ p.optionalClassMethods, m.extendedEncoding = none

theorem mirrors_extendProtocol (array : UInt64) {p : ProtocolRecord} (h : Unextended p) :
    Mirrors o M (extendProtocol s array ((p.decode M).move o.slide))
      (Survey.extendProtocol s array p) fun p => (p.decode M).move o.slide := by
  have hlists (ms : List MethodRecord) : (ms.map (·.decode M)).map (·.move o.slide) =
      ms.map fun m => (m.decode M).move o.slide := List.map_map
  simp only [extendProtocol, ProtocolRecord.move, ProtocolRecord.decode, hlists, List.length_map]
  refine (mirrors_extendMethods s hM array _ h.instanceMethods).bind fun instanceMethods => ?_
  refine (mirrors_extendMethods s hM array _ h.classMethods).bind fun classMethods => ?_
  refine (mirrors_extendMethods s hM array _ h.optionalInstanceMethods).bind
    fun optionalInstanceMethods => ?_
  exact (mirrors_extendMethods s hM array _ h.optionalClassMethods).bind
    fun optionalClassMethods => mirrors_pure rfl

theorem mirrors_laterFields (address : UInt64) {p q : ProtocolRecord} (h : Unextended p)
    (hq : q = (p.decode M).move o.slide) :
    Mirrors o M (laterFields s address q) (Survey.laterFields s address p)
      fun p => (p.decode M).move o.slide := by
  subst hq
  have hlast {c : Prop} [Decidable c] (slot : UInt64) (p : ProtocolRecord) :
      Mirrors o M
        (if c then properties s slot "class property list" >>= fun ps =>
            pure { (p.decode M).move o.slide with classProperties := ps }
          else pure [] >>= fun ps =>
            pure { (p.decode M).move o.slide with classProperties := ps })
        (if c then Survey.properties s slot "class property list" >>= fun ps =>
            pure { p with classProperties := ps }
          else pure [] >>= fun ps => pure { p with classProperties := ps })
        fun p => (p.decode M).move o.slide :=
    mirrors_propertiesIf s hM _ _ fun ps => mirrors_pure rfl
  refine (mirrors_u32 s _ _).bind fun size => .ite ?_ (hlast _ p)
  refine (mirrors_follow s _ _).bind_option (hlast _ p) fun array => ?_
  exact (mirrors_extendProtocol s hM array h).bind fun p => hlast _ p

theorem mirrors_protocolBody (address : UInt64) :
    Mirrors o M (protocolBody s address) (Survey.protocolBody s address)
      fun p => (p.decode M).move o.slide := by
  refine (mirrors_followText s _ _).bind fun name => ?_
  refine (mirrors_protocolNames s _).bind fun protocols => ?_
  refine mirrors_plainMethods s hM _ _ fun instanceMethods hinstance => ?_
  refine mirrors_plainMethods s hM _ _ fun classMethods hclass => ?_
  refine mirrors_plainMethods s hM _ _ fun optionalInstanceMethods hoptional => ?_
  refine mirrors_plainMethods s hM _ _ fun optionalClassMethods hoptionalClass => ?_
  refine (mirrors_properties s hM _ _).bind fun own => .slid (.slid ?_)
  refine mirrors_laterFields s hM address (p := {
    name := .ofOption .protocol address name, address
    protocols, instanceMethods, classMethods, optionalInstanceMethods, optionalClassMethods
    properties := own }) ⟨hinstance, hclass, hoptional, hoptionalClass⟩ ?_
  simp [ProtocolRecord.move, ProtocolRecord.decode, RecordName.move_ofOption]

theorem mirrors_protocolAt (address : UInt64) :
    Mirrors o M (protocolAt s address) (Survey.protocolAt s address)
      (Option.map fun p => (p.decode M).move o.slide) := by
  refine (mirrors_recordAt s (mirrors_protocolBody s hM address) address _).bind fun r => ?_
  cases r <;> exact mirrors_pure rfl

end

end Extraction

end ObjcAtlas
