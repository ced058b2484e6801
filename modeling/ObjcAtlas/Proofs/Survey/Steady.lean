import ObjcAtlas.Proofs.Survey.Value

set_option autoImplicit false

/-!
# What a survey leaves in its notes

The notes are a log, to which steps only add, and a memory of class names. As long as every
remembered name is the one that a new look at the image would give, a step finds the same whatever
else stands in the notes. `Leaves` says this of one step, and `Steady` where the events do not
matter; every reader of a record is steady. A step that is `Fixed` also adds the same events: all
readers are, but for those that look up a name and find it remembered. No step decodes, so none
warns of syntax; and none keeps an encoding that is empty.
-/
namespace ObjcAtlas

def Slice.className? (s : Slice) (address : UInt64) : Option String :=
  (s.followed? (address + ClassField.data.offset s.bits)).bind fun word =>
    s.textThrough? (Layout.classData s.bits word + ClassDataField.name.offset s.bits)

/-- The name in the data of a class is the one that another look at the class would find. -/
theorem Slice.textThrough?_of_followed? {s : Slice} {address word : UInt64}
    (h : s.followed? (address + ClassField.data.offset s.bits) = some word) :
    s.textThrough? (Layout.classData s.bits word + ClassDataField.name.offset s.bits) =
      s.className? address := by
  rw [className?, h]
  rfl

/-- All remembered names are right. -/
def Notes.Sound (s : Slice) (n : Notes) : Prop :=
  ∀ address name, n.names[address]? = some name → name = s.className? address

theorem Notes.sound_empty (s : Slice) : Notes.Sound s {} := by
  intro address name h
  simp at h

/-- The event is not a warning about syntax, nor an encoding without text. -/
def Event.IsPlain : Event → Prop
  | .warning w => w.kind ≠ .typeSyntax
  | .encoding _ _ text => text.isEmpty = false

theorem WarningKind.ofError_ne_typeSyntax (e : ImageError) :
    WarningKind.ofError e ≠ .typeSyntax := by
  cases e <;> exact nofun

namespace Survey

variable {α β : Type} {s : Slice}

/-- From sound notes, the step adds plain events to the log and leaves sound notes; `P` holds of
    what it finds and of the events. -/
def Leaves (s : Slice) (step : Survey α) (P : α → List Event → Prop) : Prop :=
  ∀ n, n.Sound s → (step n).2.Sound s ∧
    ∃ events, (step n).2.log.toList = n.log.toList ++ events ∧
      (∀ e ∈ events, e.IsPlain) ∧ P (step n).1 events

/-- From sound notes, the step always finds the same, adds events and leaves sound notes. -/
def Steady (s : Slice) (step : Survey α) : Prop := ∃ a, Leaves s step fun b _ => b = a

/-- From sound notes, the step always finds the same, adds the same events and leaves sound
    notes. -/
def Fixed (s : Slice) (step : Survey α) : Prop :=
  ∃ a events, Leaves s step fun b more => b = a ∧ more = events

section Leaves

variable {step : Survey α} {f : α → Survey β} {P : α → List Event → Prop}
  {Q : β → List Event → Prop}

theorem Leaves.imp {P' : α → List Event → Prop} (h : Leaves s step P)
    (hP : ∀ a events, P a events → P' a events) : Leaves s step P' := by
  intro n hn
  obtain ⟨hs, events, hlog, hplain, ha⟩ := h n hn
  exact ⟨hs, events, hlog, hplain, hP _ _ ha⟩

theorem leaves_pure {a : α} (h : P a []) : Leaves s (pure a) P := by
  intro n hn
  exact ⟨hn, [], (List.append_nil _).symm, nofun, h⟩

theorem Leaves.bind (h : Leaves s step P)
    (k : ∀ a events, P a events → Leaves s (f a) fun b more => Q b (events ++ more)) :
    Leaves s (step >>= f) Q := by
  intro n hn
  obtain ⟨hs, events, hlog, hplain, ha⟩ := h n hn
  obtain ⟨hs', more, hlog', hplain', hb⟩ := k _ _ ha _ hs
  refine ⟨hs', events ++ more, ?_, List.forall_mem_append.2 ⟨hplain, hplain'⟩, hb⟩
  rw [← List.append_assoc, ← hlog]
  exact hlog'

theorem leaves_note {event : Event} (h : event.IsPlain) :
    Leaves s (note event) fun _ events => events = [event] := by
  intro n hn
  exact ⟨hn, [event], Array.toList_push, List.forall_mem_singleton.2 h, rfl⟩

theorem leaves_lost {event : Event} (h : event.IsPlain) :
    Leaves s (lost (α := α) (note event)) fun a events => a = none ∧ events = [event] :=
  (leaves_note h).bind fun _ _ he => leaves_pure ⟨rfl, by rw [he, List.append_nil]⟩

theorem Leaves.watched (h : Leaves s step P) :
    Leaves s (watched step) fun r events => P r.1 events := by
  intro n hn
  obtain ⟨hs, events, hlog, hplain, ha⟩ := h { n with log := #[] } hn
  refine ⟨hs, events, ?_, hplain, ha⟩
  rw [List.nil_append] at hlog
  change (n.log ++ (step { n with log := #[] }).2.log).toList = _
  rw [Array.toList_append, hlog]

end Leaves

section Steady

variable {step : Survey α} {f : α → Survey β}

theorem Steady.bind (h : Steady s step) (hf : ∀ a, Steady s (f a)) : Steady s (step >>= f) := by
  obtain ⟨a, ha⟩ := h
  obtain ⟨b, hb⟩ := hf a
  refine ⟨b, ha.bind fun c events hc => ?_⟩
  rw [hc]
  exact hb

theorem steady_ite {c : Prop} [Decidable c] {x y : Survey α} (hx : Steady s x) (hy : Steady s y) :
    Steady s (if c then x else y) := by
  split
  · exact hx
  · exact hy

end Steady

section Fixed

variable {step : Survey α} {f : α → Survey β}

theorem Fixed.steady (h : Fixed s step) : Steady s step := by
  obtain ⟨a, events, ha⟩ := h
  exact ⟨a, ha.imp fun _ _ h => h.1⟩

theorem fixed_pure (a : α) : Fixed s (pure a) := ⟨a, [], leaves_pure ⟨rfl, rfl⟩⟩

theorem Fixed.leaves {a : α} (h : Fixed s step) (hg : Gives step a) :
    ∃ events, Leaves s step fun b more => b = a ∧ more = events := by
  obtain ⟨b, events, hb⟩ := h
  refine ⟨events, fun n hn => ?_⟩
  obtain ⟨hs, more, hlog, hplain, -, hmore⟩ := hb n hn
  exact ⟨hs, more, hlog, hplain, hg n, hmore⟩

theorem Fixed.bind (h : Fixed s step) (hf : ∀ a, Fixed s (f a)) : Fixed s (step >>= f) := by
  obtain ⟨a, events, ha⟩ := h
  obtain ⟨b, more, hb⟩ := hf a
  refine ⟨b, events ++ more, ha.bind fun c _ hc => ?_⟩
  obtain ⟨rfl, rfl⟩ := hc
  exact hb.imp fun _ _ h => ⟨h.1, congrArg _ h.2⟩

theorem Fixed.bind_option {step : Survey (Option α)} {f : Option α → Survey β} (h : Fixed s step)
    (hnone : Fixed s (f none)) (hsome : ∀ a, Fixed s (f (some a))) : Fixed s (step >>= f) := by
  refine h.bind fun r => ?_
  cases r with
  | none => exact hnone
  | some a => exact hsome a

theorem Fixed.bind_of_gives {a : α} (h : Fixed s step) (hg : Gives step a)
    (hf : Fixed s (f a)) : Fixed s (step >>= f) := by
  obtain ⟨events, ha⟩ := h.leaves hg
  obtain ⟨b, more, hb⟩ := hf
  refine ⟨b, events ++ more, ha.bind fun c _ hc => ?_⟩
  obtain ⟨rfl, rfl⟩ := hc
  exact hb.imp fun _ _ h => ⟨h.1, congrArg _ h.2⟩

theorem fixed_note {event : Event} (h : event.IsPlain) : Fixed s (note event) :=
  ⟨(), [event], (leaves_note h).imp fun _ _ he => ⟨rfl, he⟩⟩

theorem fixed_warn {kind : WarningKind} (h : kind ≠ .typeSyntax) (address : UInt64)
    (message : String) : Fixed s (warn kind address message) :=
  fixed_note h

theorem fixed_warnUnread (address : UInt64) (what : String) (e : ImageError) :
    Fixed s (warnUnread address what e) :=
  fixed_note (WarningKind.ofError_ne_typeSyntax e)

theorem fixed_lost {warning : Survey Unit} (h : Fixed s warning) :
    Fixed s (lost (α := α) warning) :=
  h.bind fun _ => fixed_pure _

theorem fixed_ite {c : Prop} [Decidable c] {x y : Survey α} (hx : Fixed s x) (hy : Fixed s y) :
    Fixed s (if c then x else y) := by
  split
  · exact hx
  · exact hy

theorem fixed_when {c : Prop} [Decidable c] {x : Survey Unit} {f : Unit → Survey β}
    (hx : Fixed s x) (hf : Fixed s (f ())) : Fixed s (if c then x >>= f else f ()) :=
  fixed_ite (hx.bind fun _ => hf) hf

theorem fixed_collect {step : α → Survey (Option β)} (h : ∀ a, Fixed s (step a))
    (as : List α) : Fixed s (collect step as) := by
  induction as with
  | nil => exact fixed_pure _
  | cons a as ih => exact (h a).bind fun _ => ih.bind fun _ => fixed_pure _

end Fixed

theorem fixed_noteEncoding (address : UInt64) (kind : EncodingKind) (text : String) :
    Fixed s (noteEncoding address kind text) := by
  unfold noteEncoding
  split
  · exact fixed_pure _
  next h => exact fixed_note (Bool.eq_false_iff.2 h)

theorem Fixed.noted {step : Survey (Option String)} (h : Fixed s step) (address : UInt64)
    (kind : EncodingKind) (f : Option String → α) :
    Fixed s (step >>= fun r => noteEncoding address kind (r.getD "") >>= fun _ => pure (f r)) :=
  h.bind fun _ => (fixed_noteEncoding _ _ _).bind fun _ => fixed_pure _

theorem fixed_read (address : UInt64) (what : String) (r : Except ImageError α) :
    Fixed s (read address what r) := by
  cases r with
  | ok a => exact fixed_pure _
  | error e => exact fixed_lost (fixed_warnUnread _ _ _)

theorem fixed_u32 (address : UInt64) (what : String) : Fixed s (u32 s address what) :=
  (fixed_read _ _ _).bind fun _ => fixed_pure _

theorem fixed_follow (slot : UInt64) (what : String) : Fixed s (follow s slot what) := by
  unfold follow
  split
  · exact fixed_pure _
  · exact fixed_ite (fixed_pure _) (fixed_lost (fixed_warn (by decide) _ _))
  · exact fixed_lost (fixed_warn (by decide) _ _)
  · exact fixed_lost (fixed_warnUnread _ _ _)

theorem fixed_text (address : UInt64) (what : String) : Fixed s (text s address what) :=
  fixed_ite (fixed_lost (fixed_warn (by decide) _ _)) (fixed_read _ _ _)

theorem fixed_followText (slot : UInt64) (what : String) : Fixed s (followText s slot what) :=
  (fixed_follow slot what).bind_option (fixed_pure _) fun address => fixed_text address what

theorem fixed_checkEntrySize (list : UInt64) (h : ListHeader) (least : UInt64) (what : String) :
    Fixed s (checkEntrySize list h least what) :=
  fixed_ite (fixed_lost (fixed_warn (by decide) _ _)) (fixed_pure _)

theorem fixed_listHeader (list least : UInt64) (mask : UInt32) (what : String) :
    Fixed s (listHeader s list least mask what) := by
  refine (fixed_read _ _ _).bind_option (fixed_pure _) fun words => ?_
  refine (fixed_checkEntrySize _ _ _ _).bind_option (fixed_pure _) fun header => ?_
  exact fixed_ite (fixed_pure _) (fixed_lost (fixed_warn (by decide) _ _))

/-- The entries of the list that a slot leads to. -/
theorem fixed_entries {step : UInt64 → Survey (Option α)} (h : ∀ entry, Fixed s (step entry))
    (slot least : UInt64) (what : String) :
    Fixed s (do
      let some list ← follow s slot what | return []
      let some header ← listHeader s list least 0 what | return []
      collect step (header.entries list)) := by
  refine (fixed_follow _ _).bind_option (fixed_pure _) fun list => ?_
  exact (fixed_listHeader _ _ _ _).bind_option (fixed_pure _) fun header => fixed_collect h _

theorem fixed_pointerMethod (entry : UInt64) : Fixed s (pointerMethod s entry) :=
  (fixed_followText _ _).bind_option (fixed_pure _) fun _ =>
    (fixed_followText _ _).noted entry .signature _

theorem fixed_relativeMethod (direct : Bool) (entry : UInt64) :
    Fixed s (relativeMethod s direct entry) := by
  refine (fixed_read _ _ _).bind_option (fixed_pure _) fun distances => ?_
  -- The selector is read in one of two ways; what follows is the same for both.
  exact fixed_ite
    ((fixed_text _ _).bind_option (fixed_pure _) fun _ => (fixed_text _ _).noted _ _ _)
    ((fixed_followText _ _).bind_option (fixed_pure _) fun _ => (fixed_text _ _).noted _ _ _)

theorem fixed_methodsAt (list : UInt64) (what : String) : Fixed s (methodsAt s list what) := by
  refine (fixed_listHeader _ _ _ _).bind_option (fixed_pure _) fun header => ?_
  refine (fixed_checkEntrySize _ _ _ _).bind_option (fixed_pure _) fun header => ?_
  exact fixed_collect (fun _ => fixed_ite (fixed_relativeMethod _ _) (fixed_pointerMethod _)) _

theorem fixed_methods (slot : UInt64) (what : String) : Fixed s (methods s slot what) :=
  (fixed_follow _ _).bind_option (fixed_pure _) fun list => fixed_methodsAt list what

theorem fixed_ivarOffset (slot : UInt64) : Fixed s (ivarOffset s slot) :=
  (fixed_follow _ _).bind_option (fixed_pure _) fun _ => fixed_read _ _ _

theorem fixed_ivar (entry : UInt64) : Fixed s (ivar s entry) := by
  refine (fixed_ivarOffset _).bind fun offset => ?_
  refine (fixed_followText _ _).bind fun name => ?_
  refine (fixed_followText _ _).bind fun encoding => ?_
  refine (fixed_u32 _ _).bind fun alignment => ?_
  refine (fixed_u32 _ _).bind fun size => ?_
  exact (fixed_noteEncoding _ _ _).bind fun _ => fixed_pure _

theorem fixed_ivars (slot : UInt64) : Fixed s (ivars s slot) := fixed_entries fixed_ivar _ _ _

theorem fixed_property (entry : UInt64) : Fixed s (property s entry) :=
  (fixed_followText _ _).bind_option (fixed_pure _) fun _ =>
    (fixed_followText _ _).noted entry .property _

theorem fixed_properties (slot : UInt64) (what : String) : Fixed s (properties s slot what) :=
  fixed_entries fixed_property _ _ _

theorem fixed_propertiesIf {c : Prop} [Decidable c] (slot : UInt64) (what : String)
    (f : List PropertyRecord → α) :
    Fixed s (if c then properties s slot what >>= fun ps => pure (f ps)
      else pure [] >>= fun ps => pure (f ps)) :=
  fixed_ite ((fixed_properties slot what).bind fun _ => fixed_pure _)
    ((fixed_pure _).bind fun _ => fixed_pure _)

theorem fixed_protocolName (entry : UInt64) : Fixed s (protocolName s entry) := by
  unfold protocolName
  split
  · exact fixed_followText _ _
  · exact fixed_pure _
  · exact fixed_pure _
  · exact fixed_lost (fixed_warnUnread _ _ _)

theorem fixed_protocolNames (slot : UInt64) : Fixed s (protocolNames s slot) := by
  refine (fixed_follow _ _).bind_option (fixed_pure _) fun list => ?_
  refine (fixed_read _ _ _).bind_option (fixed_pure _) fun count => ?_
  refine fixed_ite (fixed_collect fixed_protocolName _) ?_
  exact (fixed_warn (by decide) _ _).bind fun _ => fixed_pure _

theorem fixed_rememberName {address : UInt64} {name : Option String}
    (h : name = s.className? address) : Fixed s (rememberName address name) := by
  refine ⟨(), [], fun n hn => ⟨?_, [], (List.append_nil _).symm, nofun, rfl, rfl⟩⟩
  intro a found ha
  change (n.names.insert address name)[a]? = some found at ha
  rw [Std.TreeMap.getElem?_insert] at ha
  split at ha
  · rename_i heq
    rw [← Option.some.inj ha, h, Std.LawfulEqOrd.eq_of_compare heq]
  · exact hn a found ha

def readClassName (s : Slice) (address : UInt64) : Survey (Option String) := do
  let some word ← classWord s address | return none
  classDataName s (Layout.classData s.bits word)

theorem readClassName_gives (s : Slice) (address : UInt64) :
    Gives (readClassName s address) (s.className? address) := by
  refine Gives.bind (follow_gives s _ _) ?_
  rw [Slice.className?]
  cases s.followed? (address + ClassField.data.offset s.bits) with
  | none => exact gives_pure _
  | some word => exact followText_gives s _ _

theorem fixed_readClassName (address : UInt64) : Fixed s (readClassName s address) :=
  (fixed_follow _ _).bind_option (fixed_pure _) fun _ => fixed_followText _ _

theorem className_apply (s : Slice) (address : UInt64) (n : Notes) :
    className s address n = match n.names[address]? with
      | some name => (name, n)
      | none => (readClassName s address >>= fun name =>
          rememberName address name >>= fun _ => pure name) n := by
  change (match n.names[address]? with
    | some name => (pure name : Survey (Option String))
    | none => _) n = _
  cases n.names[address]? with
  | some name => rfl
  | none =>
    rw [readClassName, bind_assoc]
    refine congrFun (f := (_ : Survey _)) (bind_congr fun r => ?_) n
    cases r <;> rfl

theorem steady_className (address : UInt64) : Steady s (className s address) := by
  refine ⟨s.className? address, fun n hn => ?_⟩
  rw [className_apply]
  cases hname : n.names[address]? with
  | some name => exact ⟨hn, [], (List.append_nil _).symm, nofun, hn address name hname⟩
  | none =>
    obtain ⟨events, hread⟩ := (fixed_readClassName address).leaves (readClassName_gives s address)
    have hboth : Leaves s (readClassName s address >>= fun name =>
        rememberName address name >>= fun _ => pure name)
          fun name _ => name = s.className? address :=
      hread.bind fun name _ h => by
        obtain ⟨_, _, hr⟩ := fixed_rememberName h.1
        exact hr.bind fun _ _ _ => leaves_pure h.1
    exact hboth n hn

theorem steady_classReference (slot : UInt64) (what : String) :
    Steady s (classReference s slot what) := by
  unfold classReference
  split
  · exact (fixed_pure _).steady
  · exact (fixed_pure _).steady
  · refine steady_ite ((steady_className _).bind fun _ => (fixed_pure _).steady) ?_
    exact ((fixed_warn (by decide) _ _).bind fun _ => fixed_pure _).steady
  · exact ((fixed_warnUnread _ _ _).bind fun _ => fixed_pure _).steady

theorem fixed_metaclass (address : UInt64) : Fixed s (metaclass s address) := by
  unfold metaclass
  split
  · exact fixed_ite (fixed_pure _) (fixed_lost (fixed_warn (by decide) _ _))
  · exact fixed_pure _
  · exact fixed_lost (fixed_warnUnread _ _ _)

theorem fixed_classBody (c : ClassRecord) : Fixed s (classBody s c) := by
  refine (fixed_follow _ _).bind_of_gives (follow_gives s _ _) ?_
  cases hword : s.followed? (c.address + ClassField.data.offset s.bits) with
  | none => exact fixed_pure _
  | some word =>
    refine (fixed_u32 _ _).bind fun flags => ?_
    refine (fixed_u32 _ _).bind fun instanceStart => ?_
    refine (fixed_u32 _ _).bind fun instanceSize => ?_
    refine (fixed_followText _ _).bind_of_gives (followText_gives s _ _) ?_
    refine fixed_when (fixed_rememberName (Slice.textThrough?_of_followed? hword)) ?_
    refine (fixed_methods _ _).bind fun instanceMethods => ?_
    refine (fixed_protocolNames _).bind fun protocols => ?_
    refine (fixed_ivars _).bind fun ivars => ?_
    exact (fixed_properties _ _).bind fun properties => fixed_pure _

theorem fixed_metaclassBody (c : ClassRecord) : Fixed s (metaclassBody s c) := by
  refine (fixed_metaclass _).bind_option (fixed_pure _) fun address => ?_
  refine (fixed_follow _ _).bind_option (fixed_pure _) fun word => ?_
  refine (fixed_methods _ _).bind fun classMethods => ?_
  exact (fixed_properties _ _).bind fun classProperties => fixed_pure _

def classOwn (s : Slice) (address : UInt64) (superclass : ClassReference) : Survey ClassRecord :=
  classBody s { name := .unknown .objcClass address, address, superclass } >>= metaclassBody s

theorem classRecord_eq (s : Slice) (address : UInt64) :
    classRecord s address =
      classReference s (address + ClassField.superclass.offset s.bits) "superclass" >>=
        classOwn s address := rfl

theorem fixed_classOwn (address : UInt64) (superclass : ClassReference) :
    Fixed s (classOwn s address superclass) :=
  (fixed_classBody _).bind fun c => fixed_metaclassBody c

theorem steady_classRecord (address : UInt64) : Steady s (classRecord s address) := by
  rw [classRecord_eq]
  exact (steady_classReference _ _).bind fun superclass => (fixed_classOwn _ superclass).steady

def categoryOwn (s : Slice) (hasClassProperties : Bool) (address : UInt64) (name : Option String)
    (target : ClassReference) : Survey CategoryRecord := do
  let field (f : CategoryField) : UInt64 := address + f.offset s.bits
  let instanceMethods ← methods s (field .instanceMethods) "instance methods"
  let classMethods ← methods s (field .classMethods) "class methods"
  let protocols ← protocolNames s (field .protocols)
  let own ← properties s (field .properties) "property list"
  let classProperties ← if hasClassProperties then
      properties s (field .classProperties) "class property list"
    else pure []
  return {
    name := .ofOption .category address name
    address, target, instanceMethods, classMethods, protocols, classProperties
    properties := own }

theorem categoryBody_eq (s : Slice) (hasClassProperties : Bool) (address : UInt64) :
    categoryBody s hasClassProperties address =
      followText s (address + CategoryField.name.offset s.bits) "category name" >>= fun name =>
        classReference s (address + CategoryField.target.offset s.bits) "category class" >>=
          categoryOwn s hasClassProperties address name := rfl

theorem fixed_categoryOwn (hasClassProperties : Bool) (address : UInt64) (name : Option String)
    (target : ClassReference) : Fixed s (categoryOwn s hasClassProperties address name target) := by
  refine (fixed_methods _ _).bind fun instanceMethods => ?_
  refine (fixed_methods _ _).bind fun classMethods => ?_
  refine (fixed_protocolNames _).bind fun protocols => ?_
  refine (fixed_properties _ _).bind fun own => ?_
  exact fixed_propertiesIf _ _ _

theorem steady_categoryBody (hasClassProperties : Bool) (address : UInt64) :
    Steady s (categoryBody s hasClassProperties address) := by
  rw [categoryBody_eq]
  refine (fixed_followText _ _).steady.bind fun name => ?_
  refine (steady_classReference _ _).bind fun target => ?_
  exact (fixed_categoryOwn _ _ name target).steady

theorem fixed_extendMethods (array : UInt64) (index : Nat) (ms : List MethodRecord) :
    Fixed s (extendMethods s array index ms) := by
  induction ms generalizing index with
  | nil => exact fixed_pure _
  | cons m ms ih =>
    refine (fixed_followText _ _).bind fun extended => ?_
    refine (fixed_noteEncoding _ _ _).bind fun _ => ?_
    exact (ih (index + 1)).bind fun rest => fixed_pure _

theorem fixed_extendProtocol (array : UInt64) (p : ProtocolRecord) :
    Fixed s (extendProtocol s array p) := by
  refine (fixed_extendMethods _ _ _).bind fun instanceMethods => ?_
  refine (fixed_extendMethods _ _ _).bind fun classMethods => ?_
  refine (fixed_extendMethods _ _ _).bind fun optionalInstanceMethods => ?_
  exact (fixed_extendMethods _ _ _).bind fun optionalClassMethods => fixed_pure _

theorem fixed_protocolBody (address : UInt64) : Fixed s (protocolBody s address) := by
  refine (fixed_followText _ _).bind fun name => ?_
  refine (fixed_protocolNames _).bind fun protocols => ?_
  refine (fixed_methods _ _).bind fun instanceMethods => ?_
  refine (fixed_methods _ _).bind fun classMethods => ?_
  refine (fixed_methods _ _).bind fun optionalInstanceMethods => ?_
  refine (fixed_methods _ _).bind fun optionalClassMethods => ?_
  refine (fixed_properties _ _).bind fun own => ?_
  refine (fixed_u32 _ _).bind fun size => ?_
  refine fixed_ite ((fixed_follow _ _).bind_option ?_ fun array => ?_) ?_
  · exact (fixed_pure _).bind fun p => fixed_propertiesIf _ _ _
  · exact (fixed_extendProtocol array _).bind fun p => fixed_propertiesIf _ _ _
  · exact (fixed_pure _).bind fun p => fixed_propertiesIf _ _ _

end Survey

end ObjcAtlas
