import ObjcAtlas.Proofs.Survey.Steady

set_option autoImplicit false

namespace ObjcAtlas

def MethodRecord.encodings (m : MethodRecord) : List (EncodingKind × String) :=
  (.signature, m.encoding) :: m.extendedEncoding.toList.map (.signature, ·)

def IvarRecord.encodings (i : IvarRecord) : List (EncodingKind × String) := [(.type, i.encoding)]

def PropertyRecord.encodings (p : PropertyRecord) : List (EncodingKind × String) :=
  [(.property, p.attributes)]

def ClassRecord.encodings (c : ClassRecord) : List (EncodingKind × String) :=
  c.ivars.flatMap (·.encodings) ++
  (c.instanceMethods ++ c.classMethods).flatMap (·.encodings) ++
  (c.properties ++ c.classProperties).flatMap (·.encodings)

def CategoryRecord.encodings (c : CategoryRecord) : List (EncodingKind × String) :=
  (c.instanceMethods ++ c.classMethods).flatMap (·.encodings) ++
  (c.properties ++ c.classProperties).flatMap (·.encodings)

def ProtocolRecord.encodings (p : ProtocolRecord) : List (EncodingKind × String) :=
  (p.instanceMethods ++ p.classMethods ++ p.optionalInstanceMethods ++
    p.optionalClassMethods).flatMap (·.encodings) ++
  (p.properties ++ p.classProperties).flatMap (·.encodings)

def Noted (events : List Event) (x : EncodingKind × String) : Prop :=
  x.2.isEmpty = true ∨ ∃ address, .encoding address x.1 x.2 ∈ events

theorem Noted.append_left {events : List Event} {x : EncodingKind × String} (h : Noted events x)
    (before : List Event) : Noted (before ++ events) x :=
  h.imp_right fun ⟨address, hmem⟩ => ⟨address, List.mem_append_right before hmem⟩

theorem Noted.append_right {events : List Event} {x : EncodingKind × String} (h : Noted events x)
    (after : List Event) : Noted (events ++ after) x :=
  h.imp_right fun ⟨address, hmem⟩ => ⟨address, List.mem_append_left after hmem⟩

namespace Survey

variable {α β : Type} {s : Slice} {known : List (EncodingKind × String)}

/-- From sound notes, the step keeps the encodings of what it finds, apart from those that are
    known. -/
def Logs (s : Slice) (known : List (EncodingKind × String)) (step : Survey α)
    (encodings : α → List (EncodingKind × String)) : Prop :=
  Leaves s step fun a events => ∀ x ∈ encodings a, x ∈ known ∨ Noted events x

section Logs

variable {step : Survey α} {f : α → Survey β}
variable {encodings : α → List (EncodingKind × String)}
variable {encodings' : β → List (EncodingKind × String)}

theorem logs_pure {a : α} (h : encodings a ⊆ known) : Logs s known (pure a) encodings :=
  leaves_pure fun _ hx => .inl (h hx)

theorem Logs.bind (h : Logs s known step encodings)
    (hf : ∀ a, Logs s (known ++ encodings a) (f a) encodings') :
    Logs s known (step >>= f) encodings' := by
  refine Leaves.bind h fun a events ha => (hf a).imp fun b more hb x hx => ?_
  rcases hb x hx with hx | hx
  · rcases List.mem_append.1 hx with hx | hx
    · exact .inl hx
    · exact (ha x hx).imp_right fun h => h.append_right more
  · exact .inr (hx.append_left events)

theorem Leaves.logs_bind {P : α → List Event → Prop} (h : Leaves s step P)
    (hf : ∀ a events, P a events → Logs s known (f a) encodings') :
    Logs s known (step >>= f) encodings' :=
  h.bind fun a events ha => (hf a events ha).imp fun _ _ hb x hx =>
    (hb x hx).imp_right fun h => h.append_left events

theorem Steady.logs_bind (h : Steady s step) (hf : ∀ a, Logs s known (f a) encodings') :
    Logs s known (step >>= f) encodings' := by
  obtain ⟨_, ha⟩ := h
  exact ha.logs_bind fun a _ _ => hf a

theorem Fixed.logs_bind (h : Fixed s step) (hf : ∀ a, Logs s known (f a) encodings') :
    Logs s known (step >>= f) encodings' :=
  h.steady.logs_bind hf

theorem Fixed.logs_bind_option {step : Survey (Option α)} {f : Option α → Survey β}
    (h : Fixed s step) (hnone : Logs s known (f none) encodings')
    (hsome : ∀ a, Logs s known (f (some a)) encodings') :
    Logs s known (step >>= f) encodings' := by
  refine h.logs_bind fun r => ?_
  cases r with
  | none => exact hnone
  | some a => exact hsome a

theorem Fixed.logs_bind_of_gives {a : α} (h : Fixed s step) (hg : Gives step a)
    (hf : Logs s known (f a) encodings') : Logs s known (step >>= f) encodings' := by
  obtain ⟨_, ha⟩ := h.leaves hg
  exact ha.logs_bind fun _ _ hb => hb.1 ▸ hf

theorem logs_ite {c : Prop} [Decidable c] {x y : Survey α} (hx : Logs s known x encodings)
    (hy : Logs s known y encodings) : Logs s known (if c then x else y) encodings := by
  split
  · exact hx
  · exact hy

theorem logs_when {c : Prop} [Decidable c] {x : Survey Unit} {f : Unit → Survey β}
    (hx : Fixed s x) (hf : Logs s known (f ()) encodings') :
    Logs s known (if c then x >>= f else f ()) encodings' :=
  logs_ite (hx.logs_bind fun _ => hf) hf

theorem logs_noteEncoding (address : UInt64) (kind : EncodingKind) (text : String) :
    Logs s known (noteEncoding address kind text) fun _ => [(kind, text)] := by
  unfold noteEncoding
  split
  next h =>
    refine leaves_pure fun x hx => .inr (.inl ?_)
    rwa [List.mem_singleton.1 hx]
  next h =>
    have hplain : Event.IsPlain (.encoding address kind text) := Bool.eq_false_iff.2 h
    refine (leaves_note hplain).imp fun _ events he x hx => .inr (.inr ?_)
    obtain rfl := List.mem_singleton.1 hx
    exact ⟨address, by simp [he]⟩

theorem logs_collect {step : α → Survey (Option β)}
    (h : ∀ a known, Logs s known (step a) fun r => r.toList.flatMap encodings') (as : List α) :
    Logs s known (collect step as) (·.flatMap encodings') := by
  induction as generalizing known with
  | nil => exact logs_pure (List.nil_subset _)
  | cons a as ih => exact (h a known).bind fun found => ih.bind fun rest => logs_pure (by simp)

theorem Fixed.logs_noted {step : Survey (Option String)} (h : Fixed s step) (address : UInt64)
    (kind : EncodingKind) {f : Option String → α}
    (hf : ∀ r, encodings (f r) ⊆ known ++ [(kind, r.getD "")]) :
    Logs s known (step >>= fun r =>
      noteEncoding address kind (r.getD "") >>= fun _ => pure (f r)) encodings :=
  h.logs_bind fun r => (logs_noteEncoding _ _ _).bind fun _ => logs_pure (hf r)

theorem logs_entries {step : UInt64 → Survey (Option β)}
    (h : ∀ entry known, Logs s known (step entry) fun r => r.toList.flatMap encodings')
    (slot least : UInt64) (what : String) :
    Logs s known (do
      let some list ← follow s slot what | return []
      let some header ← listHeader s list least 0 what | return []
      collect step (header.entries list)) (·.flatMap encodings') := by
  refine (fixed_follow _ _).logs_bind_option (logs_pure (List.nil_subset _)) fun list => ?_
  refine (fixed_listHeader _ _ _ _).logs_bind_option (logs_pure (List.nil_subset _)) ?_
  exact fun header => logs_collect h _

end Logs

theorem logs_pointerMethod (entry : UInt64) :
    Logs s known (pointerMethod s entry) fun r => r.toList.flatMap (·.encodings) := by
  refine (fixed_followText _ _).logs_bind_option (logs_pure (List.nil_subset _)) fun name => ?_
  exact (fixed_followText _ _).logs_noted _ _ fun r => by simp [MethodRecord.encodings]

theorem logs_relativeMethod (direct : Bool) (entry : UInt64) :
    Logs s known (relativeMethod s direct entry) fun r => r.toList.flatMap (·.encodings) := by
  refine (fixed_read _ _ _).logs_bind_option (logs_pure (List.nil_subset _)) fun distances => ?_
  refine logs_ite ((fixed_text _ _).logs_bind_option (logs_pure (List.nil_subset _)) fun name => ?_)
    ((fixed_followText _ _).logs_bind_option (logs_pure (List.nil_subset _)) fun name => ?_)
  all_goals exact (fixed_text _ _).logs_noted _ _ fun r => by simp [MethodRecord.encodings]

theorem logs_methodsAt (list : UInt64) (what : String) :
    Logs s known (methodsAt s list what) (·.flatMap (·.encodings)) := by
  refine (fixed_listHeader _ _ _ _).logs_bind_option (logs_pure (List.nil_subset _)) fun _ => ?_
  refine (fixed_checkEntrySize _ _ _ _).logs_bind_option (logs_pure (List.nil_subset _)) ?_
  exact fun header => logs_collect (fun entry _ =>
    logs_ite (logs_relativeMethod _ _) (logs_pointerMethod _)) _

theorem logs_methods (slot : UInt64) (what : String) :
    Logs s known (methods s slot what) (·.flatMap (·.encodings)) :=
  (fixed_follow _ _).logs_bind_option (logs_pure (List.nil_subset _)) fun list =>
    logs_methodsAt list what

theorem logs_ivar (entry : UInt64) :
    Logs s known (ivar s entry) fun r => r.toList.flatMap (·.encodings) := by
  refine (fixed_ivarOffset _).logs_bind fun offset => ?_
  refine (fixed_followText _ _).logs_bind fun name => ?_
  refine (fixed_followText _ _).logs_bind fun encoding => ?_
  refine (fixed_u32 _ _).logs_bind fun alignment => (fixed_u32 _ _).logs_bind fun size => ?_
  exact (logs_noteEncoding _ _ _).bind fun _ => logs_pure (by simp [IvarRecord.encodings])

theorem logs_ivars (slot : UInt64) : Logs s known (ivars s slot) (·.flatMap (·.encodings)) :=
  logs_entries (fun entry _ => logs_ivar entry) _ _ _

theorem logs_property (entry : UInt64) :
    Logs s known (property s entry) fun r => r.toList.flatMap (·.encodings) := by
  refine (fixed_followText _ _).logs_bind_option (logs_pure (List.nil_subset _)) fun name => ?_
  exact (fixed_followText _ _).logs_noted _ _ fun r => by simp [PropertyRecord.encodings]

theorem logs_properties (slot : UInt64) (what : String) :
    Logs s known (properties s slot what) (·.flatMap (·.encodings)) :=
  logs_entries (fun entry _ => logs_property entry) _ _ _

theorem logs_propertiesIf {c : Prop} [Decidable c] {encodings : α → List (EncodingKind × String)}
    (slot : UInt64) (what : String) {f : List PropertyRecord → α}
    (h : ∀ ps, encodings (f ps) ⊆ known ++ ps.flatMap (·.encodings)) :
    Logs s known (if c then properties s slot what >>= fun ps => pure (f ps)
      else pure [] >>= fun ps => pure (f ps)) encodings := by
  refine logs_ite ((logs_properties slot what).bind fun ps => logs_pure (h ps)) ?_
  exact (fixed_pure []).logs_bind_of_gives (gives_pure _) (logs_pure (by simpa using h []))

theorem logs_classBody (c : ClassRecord) :
    Logs s c.encodings (classBody s c) ClassRecord.encodings := by
  refine (fixed_follow _ _).logs_bind_of_gives (follow_gives s _ _) ?_
  cases hword : s.followed? (c.address + ClassField.data.offset s.bits) with
  | none => exact logs_pure (List.Subset.refl _)
  | some word =>
    refine (fixed_u32 _ _).logs_bind fun flags => (fixed_u32 _ _).logs_bind fun instanceStart => ?_
    refine (fixed_u32 _ _).logs_bind fun instanceSize => ?_
    refine (fixed_followText _ _).logs_bind_of_gives (followText_gives s _ _) ?_
    refine logs_when (fixed_rememberName (Slice.textThrough?_of_followed? hword)) ?_
    refine (logs_methods _ _).bind fun instanceMethods => ?_
    refine (fixed_protocolNames _).logs_bind fun protocols => ?_
    refine (logs_ivars _).bind fun ivars => (logs_properties _ _).bind fun properties => ?_
    apply logs_pure
    intro x hx
    simp only [ClassRecord.encodings, List.flatMap_append, List.mem_append] at hx ⊢
    grind

theorem logs_metaclassBody (c : ClassRecord) :
    Logs s c.encodings (metaclassBody s c) ClassRecord.encodings := by
  refine (fixed_metaclass _).logs_bind_option (logs_pure (List.Subset.refl _)) fun address => ?_
  refine (fixed_follow _ _).logs_bind_option (logs_pure (List.Subset.refl _)) fun word => ?_
  refine (logs_methods _ _).bind fun classMethods => ?_
  refine (logs_properties _ _).bind fun classProperties => logs_pure fun x hx => ?_
  simp only [ClassRecord.encodings, List.flatMap_append, List.mem_append] at hx ⊢
  grind

theorem logs_classRecord (address : UInt64) :
    Logs s [] (classRecord s address) ClassRecord.encodings := by
  rw [classRecord_eq]
  refine (steady_classReference _ _).logs_bind fun superclass => ?_
  exact (logs_classBody _).bind fun c => logs_metaclassBody c

theorem logs_categoryBody (hasClassProperties : Bool) (address : UInt64) :
    Logs s [] (categoryBody s hasClassProperties address) CategoryRecord.encodings := by
  rw [categoryBody_eq]
  refine (fixed_followText _ _).logs_bind fun name => ?_
  refine (steady_classReference _ _).logs_bind fun target => ?_
  refine (logs_methods _ _).bind fun instanceMethods => ?_
  refine (logs_methods _ _).bind fun classMethods => ?_
  refine (fixed_protocolNames _).logs_bind fun protocols => (logs_properties _ _).bind fun own => ?_
  apply logs_propertiesIf
  intro ps x hx
  simp only [CategoryRecord.encodings, List.flatMap_append, List.mem_append] at hx ⊢
  grind

theorem logs_extendMethods (array : UInt64) (index : Nat) {ms : List MethodRecord}
    (h : ms.flatMap (·.encodings) ⊆ known) :
    Logs s known (extendMethods s array index ms) (·.flatMap (·.encodings)) := by
  induction ms generalizing index known with
  | nil => exact logs_pure (List.nil_subset _)
  | cons m ms ih =>
    rw [List.flatMap_cons, List.append_subset] at h
    obtain ⟨hm, hms⟩ := h
    refine (fixed_followText _ _).logs_bind fun extended => ?_
    refine (logs_noteEncoding _ _ _).bind fun _ => ?_
    refine (ih (index + 1) (List.subset_append_of_subset_left _ hms)).bind fun rest => ?_
    apply logs_pure
    have hown : (.signature, m.encoding) ∈ known := hm List.mem_cons_self
    cases extended <;> simp [MethodRecord.encodings, hown]

theorem logs_extendProtocol (array : UInt64) {p : ProtocolRecord} (h : p.encodings ⊆ known) :
    Logs s known (extendProtocol s array p) ProtocolRecord.encodings := by
  simp only [ProtocolRecord.encodings, List.flatMap_append, List.append_subset] at h
  obtain ⟨⟨⟨⟨h₁, h₂⟩, h₃⟩, h₄⟩, hproperties, hclassProperties⟩ := h
  refine (logs_extendMethods array _ h₁).bind fun instanceMethods => ?_
  refine (logs_extendMethods array _ (List.subset_append_of_subset_left _ h₂)).bind
    fun classMethods => ?_
  refine (logs_extendMethods array _ (List.subset_append_of_subset_left _
    (List.subset_append_of_subset_left _ h₃))).bind fun optionalInstanceMethods => ?_
  refine (logs_extendMethods array _ (List.subset_append_of_subset_left _
    (List.subset_append_of_subset_left _ (List.subset_append_of_subset_left _ h₄)))).bind
      fun optionalClassMethods => logs_pure fun x hx => ?_
  simp only [ProtocolRecord.encodings, List.flatMap_append, List.mem_append] at hx ⊢
  have hkept (hx : x ∈ p.properties.flatMap (·.encodings) ∨
      x ∈ p.classProperties.flatMap (·.encodings)) : x ∈ known :=
    hx.elim (fun h => hproperties h) fun h => hclassProperties h
  grind

theorem logs_classProperties {c : Prop} [Decidable c] (slot : UInt64) (what : String)
    {p : ProtocolRecord} (h : p.encodings ⊆ known) :
    Logs s known (if c then properties s slot what >>= fun ps =>
        pure { p with classProperties := ps }
      else pure [] >>= fun ps => pure { p with classProperties := ps })
        ProtocolRecord.encodings := by
  refine logs_propertiesIf slot what fun ps x hx => ?_
  have hknown (hx : x ∈ p.encodings) : x ∈ known := h hx
  simp only [ProtocolRecord.encodings, List.flatMap_append, List.mem_append] at hx hknown ⊢
  grind

theorem logs_protocolBody (address : UInt64) :
    Logs s [] (protocolBody s address) ProtocolRecord.encodings := by
  refine (fixed_followText _ _).logs_bind fun name => ?_
  refine (fixed_protocolNames _).logs_bind fun protocols => ?_
  refine (logs_methods _ _).bind fun instanceMethods => ?_
  refine (logs_methods _ _).bind fun classMethods => ?_
  refine (logs_methods _ _).bind fun optionalInstanceMethods => ?_
  refine (logs_methods _ _).bind fun optionalClassMethods => ?_
  refine (logs_properties _ _).bind fun own => (fixed_u32 _ _).logs_bind fun size => ?_
  refine logs_ite ((fixed_follow _ _).logs_bind_option ?_ fun array => ?_) ?_
  · refine (fixed_pure _).logs_bind_of_gives (gives_pure _) (logs_classProperties _ _ ?_)
    simp [ProtocolRecord.encodings]
  · refine (logs_extendProtocol array ?_).bind fun p => logs_classProperties _ _ ?_
    · simp [ProtocolRecord.encodings]
    · exact List.subset_append_right _ _
  · refine (fixed_pure _).logs_bind_of_gives (gives_pure _) (logs_classProperties _ _ ?_)
    simp [ProtocolRecord.encodings]

end Survey

end ObjcAtlas
