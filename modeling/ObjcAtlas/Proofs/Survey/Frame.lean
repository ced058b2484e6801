import ObjcAtlas.Proofs.Survey.Footprint

set_option autoImplicit false

namespace ObjcAtlas

namespace Survey

variable {α β : Type} {s s' : Slice}

/-- A step that is the same, and then steps that are the same after what it may find. -/
theorem bind_congr_of_ensures {step step' : Survey α} {f f' : α → Survey β} {P : α → Prop}
    (hP : Ensures step P) (hstep : step = step') (hf : ∀ a, P a → f a = f' a) :
    step >>= f = step' >>= f' := by
  subst hstep
  funext n
  change f (step n).1 (step n).2 = f' (step n).1 (step n).2
  rw [hf _ (hP n)]

theorem bind_congr_of_gives {step step' : Survey α} {f f' : α → Survey β} {a : α}
    (hg : Gives step a) (hstep : step = step') (hf : f a = f' a) : step >>= f = step' >>= f' := by
  refine bind_congr_of_ensures hg hstep fun b hb => ?_
  rw [hb, hf]

theorem bind_congr_of_option {step step' : Survey (Option α)} {f f' : Option α → Survey β}
    {r : Option α} (hg : Gives step r) (hstep : step = step') (hnone : f none = f' none)
    (hsome : ∀ a, r = some a → f (some a) = f' (some a)) : step >>= f = step' >>= f' := by
  refine bind_congr_of_gives hg hstep ?_
  cases r with
  | none => exact hnone
  | some a => exact hsome a rfl

theorem bind_congr_of_eq {step step' : Survey α} {f f' : α → Survey β} (hstep : step = step')
    (hf : ∀ a, f a = f' a) : step >>= f = step' >>= f' :=
  bind_congr_of_ensures (ensures_any step) hstep fun a _ => hf a

theorem collect_congr {step step' : α → Survey (Option β)} {as : List α}
    (h : ∀ a ∈ as, step a = step' a) : collect step as = collect step' as := by
  induction as with
  | nil => rfl
  | cons a as ih =>
    rw [List.forall_mem_cons] at h
    rw [collect, collect, h.1, ih h.2]

theorem metaclass_gives (s : Slice) (address : UInt64) :
    Gives (metaclass s address) (s.followed? (address + ClassField.isa.offset s.bits)) := by
  unfold metaclass Slice.followed?
  cases s.target (address + ClassField.isa.offset s.bits) with
  | error e => exact lost_gives _
  | ok value =>
    cases value with
    | null => exact gives_pure _
    | symbol t => exact gives_pure _
    | address a =>
      simp only
      split
      · exact gives_pure _
      · exact lost_gives _

theorem recordAddresses_gives (s : Slice) (kind : RecordKind) :
    Gives (recordAddresses s kind.list) ((s.listed kind).filterMap s.followed?) := by
  unfold recordAddresses Slice.listed
  cases kind.list.find? s with
  | none => exact gives_pure _
  | some found => exact collect_gives (fun slot => follow_gives s slot _) _

theorem imageInfo_gives (s : Slice) : Gives (imageInfo s) s.imageInfo? := by
  unfold imageInfo Slice.imageInfo?
  cases RuntimeSection.imageInfo.find? s with
  | none => exact gives_pure _
  | some found =>
    intro n
    rw [read_gives _ _ _ n]
    simp only [Option.bind_eq_bind, Option.bind_some]
    cases s.u32At found.address with
    | error e => rfl
    | ok version => cases s.u32At (found.address + 4) <;> rfl

open Slice

variable (tw : Twin s s')

include tw

theorem follow_congr {slot : UInt64} (h : Agree s s' (s.slotReads slot)) (what : String) :
    follow s slot what = follow s' slot what := by
  rw [follow, follow, tw.target_congr h, tw.isMapped_eq]

theorem text_congr {address : UInt64} (h : Agree s s' (s.textReads address)) (what : String) :
    text s address what = text s' address what := by
  unfold text
  rw [tw.isEncryptedAt_eq]
  cases hclear : s.isEncryptedAt address with
  | true => rfl
  | false => rw [tw.cstringAt_congr hclear h]

theorem followText_congr {slot : UInt64} (h : Agree s s' (s.slotTextReads slot)) (what : String) :
    followText s slot what = followText s' slot what := by
  rw [slotTextReads, agree_append] at h
  refine bind_congr_of_option (follow_gives s slot what) (follow_congr tw h.1 what) rfl ?_
  intro address hfollowed
  rw [hfollowed] at h
  exact text_congr tw h.2 what

theorem u32_congr {address : UInt64} (h : Agree s s' (s.cell address 4)) (what : String) :
    u32 s address what = u32 s' address what := by
  rw [u32, u32, tw.u32At_congr h]

theorem listHeader_congr {list : UInt64} (h : Agree s s' (s.headerReads list)) (least : UInt64)
    (mask : UInt32) (what : String) :
    listHeader s list least mask what = listHeader s' list least mask what := by
  rw [headerReads, agree_append] at h
  unfold listHeader
  rw [tw.u32At_congr h.1, tw.u32At_congr h.2]
  simp only [tw.bytesAt_isOk]

theorem pointerMethod_congr {entry : UInt64} (h : Agree s s' (s.pointerMethodReads entry)) :
    pointerMethod s entry = pointerMethod s' entry := by
  rw [pointerMethodReads, agree_append] at h
  obtain ⟨hname, hrest⟩ := h
  unfold pointerMethod
  rw [tw.bits_eq]
  refine bind_congr_of_option (followText_gives s entry _) (followText_congr tw hname _) rfl ?_
  intro name hfound
  simp only [hfound, Option.isSome_some, if_true, agree_append] at hrest
  simp only [followText_congr tw hrest.1, tw.target_congr hrest.2]

theorem relativeMethod_congr {direct : Bool} {entry : UInt64}
    (h : Agree s s' (s.relativeMethodReads direct entry)) :
    relativeMethod s direct entry = relativeMethod s' direct entry := by
  simp only [relativeMethodReads, agree_append, and_assoc] at h
  obtain ⟨hfirst, hsecond, hthird, hrest⟩ := h
  have hdistances : MethodEntry.distances s entry = MethodEntry.distances s' entry := by
    simp only [MethodEntry.distances, tw.i32At_congr hfirst, tw.i32At_congr hsecond,
      tw.i32At_congr hthird]
  refine bind_congr_of_gives (read_gives entry _ (MethodEntry.distances s entry))
    (congrArg (read entry "relative method") hdistances) ?_
  unfold MethodEntry.relative? at hrest
  cases hd : MethodEntry.distances s entry with
  | error e => rfl
  | ok d =>
    obtain ⟨toName, toTypes, toCode⟩ := d
    simp only [hd, agree_append, Option.isSome_map] at hrest
    obtain ⟨hselector, htypes⟩ := hrest
    -- The types are read only behind a selector, however that one is found.
    cases direct with
    | true =>
      refine bind_congr_of_option (text_gives s _ _) (text_congr tw hselector _) rfl ?_
      intro name hname
      simp only [if_true, hname, Option.isSome_some] at htypes
      simp only [text_congr tw htypes]
    | false =>
      refine bind_congr_of_option (followText_gives s _ _) (followText_congr tw hselector _) rfl ?_
      intro name hname
      simp only [Bool.false_eq_true, if_false, hname, Option.isSome_some, if_true] at htypes
      simp only [text_congr tw htypes]

theorem method_congr {e : MethodEntry} (h : Agree s s' (s.methodReads e)) :
    method s e.flags e.address = method s' e.flags e.address := by
  unfold method
  unfold methodReads at h
  split
  · rename_i hrelative
    rw [if_pos hrelative] at h
    exact relativeMethod_congr tw h
  · rename_i hrelative
    rw [if_neg hrelative] at h
    exact pointerMethod_congr tw h

theorem methodsAt_congr {list : UInt64} (hheader : Agree s s' (s.headerReads list))
    (hentries : ∀ h, s.methodHeader? list = some h → ∀ address ∈ h.entries list,
      Agree s s' (s.methodReads ⟨h.flags, address⟩)) (what : String) :
    methodsAt s list what = methodsAt s' list what := by
  unfold methodsAt
  rw [tw.bits_eq]
  refine bind_congr_of_option (listHeader_gives s list 0 Layout.methodFlagsMask what)
    (listHeader_congr tw hheader _ _ _) rfl fun h hh => ?_
  unfold methodHeader? at hentries
  refine bind_congr_of_gives (checkEntrySize_gives list _ h what) rfl ?_
  by_cases hle : (if Layout.isRelative h.flags then Layout.relativeMethodSize
      else Layout.methodSize s.bits) ≤ h.entrySize
  · rw [if_pos hle]
    refine collect_congr fun address ha => method_congr tw (e := ⟨h.flags, address⟩) ?_
    exact hentries h (by rw [hh, Option.filter_some, decide_eq_true hle]; rfl) address ha
  · rw [if_neg hle]

theorem methods_congr {slot : UInt64} (h : Agree s s' (s.methodsReads slot)) (what : String) :
    methods s slot what = methods s' slot what := by
  simp only [methodsReads, agree_append, and_assoc] at h
  obtain ⟨hslot, hheader, hentries⟩ := h
  refine bind_congr_of_option (follow_gives s slot what) (follow_congr tw hslot what) rfl ?_
  intro list hlist
  rw [methodEntries, hlist] at hentries
  rw [hlist] at hheader
  refine methodsAt_congr tw hheader (fun h hh address ha => ?_) what
  simp only [hh] at hentries
  exact hentries.of_mem (List.mem_map_of_mem ha)

theorem list_congr {slot least : UInt64} {entryReads : UInt64 → List Nat}
    {step step' : UInt64 → Survey (Option α)}
    (hstep : ∀ entry, Agree s s' (entryReads entry) → step entry = step' entry)
    (h : Agree s s' (s.listReads slot least entryReads)) (what : String) :
    (do
      let some list ← follow s slot what | return []
      let some header ← listHeader s list least 0 what | return []
      collect step (header.entries list)) =
    (do
      let some list ← follow s' slot what | return []
      let some header ← listHeader s' list least 0 what | return []
      collect step' (header.entries list)) := by
  simp only [listReads, agree_append, and_assoc] at h
  obtain ⟨hslot, hheader, hentries⟩ := h
  refine bind_congr_of_option (follow_gives s slot what) (follow_congr tw hslot what) rfl ?_
  intro list hlist
  rw [listEntries, hlist] at hentries
  rw [hlist] at hheader
  refine bind_congr_of_option (listHeader_gives s list least 0 what)
    (listHeader_congr tw hheader _ _ _) rfl fun header hh => ?_
  simp only [Option.elim_some, hh] at hentries
  exact collect_congr fun entry he => hstep entry (hentries.of_mem he)

theorem ivarOffset_congr {slot : UInt64} (hslot : Agree s s' (s.slotReads slot))
    (hcell : Agree s s' ((s.followed? slot).elim [] (s.cell · 4))) :
    ivarOffset s slot = ivarOffset s' slot := by
  refine bind_congr_of_option (follow_gives s slot _) (follow_congr tw hslot _) rfl ?_
  intro address hfollowed
  rw [hfollowed] at hcell
  simp only [tw.u32At_congr hcell]

theorem ivar_congr {entry : UInt64} (h : Agree s s' (s.ivarReads entry)) :
    ivar s entry = ivar s' entry := by
  simp only [ivarReads, agree_append, and_assoc] at h
  obtain ⟨hslot, hcell, hname, htype, halignment, hsize⟩ := h
  unfold ivar
  rw [tw.bits_eq, ivarOffset_congr tw hslot hcell]
  simp only [followText_congr tw hname, followText_congr tw htype, u32_congr tw halignment,
    u32_congr tw hsize]

theorem ivars_congr {slot : UInt64} (h : Agree s s' (s.ivarsReads slot)) :
    ivars s slot = ivars s' slot := by
  unfold ivars
  rw [tw.bits_eq]
  exact list_congr tw (fun _ => ivar_congr tw) h _

theorem property_congr {entry : UInt64} (h : Agree s s' (s.propertyReads entry)) :
    property s entry = property s' entry := by
  rw [propertyReads, agree_append] at h
  obtain ⟨hname, hrest⟩ := h
  unfold property
  rw [tw.bits_eq]
  refine bind_congr_of_option (followText_gives s entry _) (followText_congr tw hname _) rfl ?_
  intro name hfound
  simp only [hfound, Option.isSome_some, if_true] at hrest
  simp only [followText_congr tw hrest]

theorem properties_congr {slot : UInt64} (h : Agree s s' (s.propertiesReads slot))
    (what : String) : properties s slot what = properties s' slot what := by
  unfold properties
  rw [tw.bits_eq]
  exact list_congr tw (fun _ => property_congr tw) h what

theorem propertiesIf_congr {c : Bool} {slot : UInt64}
    (h : Agree s s' (if c then s.propertiesReads slot else [])) (what : String)
    (f : List PropertyRecord → α) :
    (if c then properties s slot what >>= fun ps => pure (f ps)
      else pure [] >>= fun ps => pure (f ps)) =
    (if c then properties s' slot what >>= fun ps => pure (f ps)
      else pure [] >>= fun ps => pure (f ps)) := by
  split
  · rename_i hc
    rw [if_pos hc] at h
    rw [properties_congr tw h]
  · rfl

theorem protocolName_congr {entry : UInt64} (h : Agree s s' (s.protocolNameReads entry)) :
    protocolName s entry = protocolName s' entry := by
  rw [protocolNameReads, agree_append] at h
  obtain ⟨hslot, hname⟩ := h
  unfold protocolName
  rw [← tw.target_congr hslot, tw.bits_eq]
  split
  · rename_i a htarget
    rw [htarget] at hname
    exact followText_congr tw hname _
  all_goals rfl

theorem protocolNames_congr {slot : UInt64} (h : Agree s s' (s.adoptedReads slot)) :
    protocolNames s slot = protocolNames s' slot := by
  simp only [adoptedReads, agree_append, and_assoc] at h
  obtain ⟨hslot, hcount, hentries⟩ := h
  unfold protocolNames
  rw [tw.bits_eq]
  refine bind_congr_of_option (follow_gives s slot _) (follow_congr tw hslot _) rfl ?_
  intro list hlist
  rw [adoptedEntries, hlist] at hentries
  rw [hlist] at hcount
  refine bind_congr_of_option (read_gives list _ _)
    (congrArg (read list "protocol list") (tw.wordAt_congr hcount)) rfl fun count hword => ?_
  simp only [Option.elim_some, hword] at hentries
  simp only [tw.bytesAt_isOk]
  split
  · rename_i hfits
    rw [if_pos hfits] at hentries
    exact collect_congr fun entry he => protocolName_congr tw (hentries.of_mem he)
  · rfl

theorem classWord_congr {address : UInt64} (h : Agree s s' (s.slotReads (s.dataSlot address))) :
    classWord s address = classWord s' address := by
  unfold classWord
  rw [tw.bits_eq]
  exact follow_congr tw h _

theorem readClassName_congr {address : UInt64} (h : Agree s s' (s.classNameReads address)) :
    readClassName s address = readClassName s' address := by
  rw [classNameReads, classDataReads, agree_append] at h
  refine bind_congr_of_option (follow_gives s _ _) (classWord_congr tw h.1) rfl ?_
  intro word hword
  rw [dataSlot, hword] at h
  unfold classDataName
  rw [tw.bits_eq]
  exact followText_congr tw h.2 _

theorem className_congr {address : UInt64} (h : Agree s s' (s.classNameReads address)) :
    className s address = className s' address := by
  -- The notes are the same on both sides: either both have the name, or both read it.
  funext n
  rw [className_apply, className_apply, readClassName_congr tw h]

theorem classReference_congr {slot : UInt64} (h : Agree s s' (s.classReferenceReads slot))
    (what : String) : classReference s slot what = classReference s' slot what := by
  rw [classReferenceReads, agree_append] at h
  obtain ⟨hslot, hname⟩ := h
  unfold classReference
  rw [← tw.target_congr hslot, tw.isMapped_eq, tw.library?_eq]
  unfold followed? at hname
  split
  · rfl
  · rfl
  · rename_i a htarget
    cases hmapped : s.isMapped a with
    | false => rfl
    | true =>
      simp only [htarget, hmapped, if_true, Option.elim_some] at hname
      rw [className_congr tw hname]
  · rfl

theorem metaclass_congr {address : UInt64}
    (h : Agree s s' (s.slotReads (address + ClassField.isa.offset s.bits))) :
    metaclass s address = metaclass s' address := by
  unfold metaclass
  rw [tw.bits_eq, tw.target_congr h, tw.isMapped_eq]

theorem metaclassBody_congr {c : ClassRecord} (h : Agree s s' (s.metaclassBodyReads c.address)) :
    metaclassBody s c = metaclassBody s' c := by
  rw [metaclassBodyReads, agree_append] at h
  obtain ⟨hslot, hmetaclass⟩ := h
  unfold metaclassBody
  rw [tw.bits_eq]
  refine bind_congr_of_option (metaclass_gives s c.address) (metaclass_congr tw hslot) rfl ?_
  intro address hfollowed
  rw [hfollowed, Option.elim_some, classDataReads, agree_append] at hmetaclass
  obtain ⟨hword, hdata⟩ := hmetaclass
  refine bind_congr_of_option (follow_gives s _ _) (classWord_congr tw hword) rfl ?_
  intro word hdataWord
  simp only [dataSlot, hdataWord, Option.elim_some, dataField, agree_append] at hdata
  obtain ⟨hmethods, hproperties⟩ := hdata
  simp only [methods_congr tw hmethods, properties_congr tw hproperties]

theorem classBody_congr {c : ClassRecord} (h : Agree s s' (s.classBodyReads c.address)) :
    classBody s c = classBody s' c := by
  rw [classBodyReads, classDataReads, agree_append] at h
  obtain ⟨hslot, hdata⟩ := h
  unfold classBody
  rw [tw.bits_eq]
  refine bind_congr_of_option (follow_gives s _ _) (classWord_congr tw hslot) rfl ?_
  intro word hword
  simp only [dataSlot, hword, Option.elim_some, dataField, agree_append, and_assoc] at hdata
  obtain ⟨hflags, hstart, hsize, hname, hmethods, hprotocols, hivars, hproperties⟩ := hdata
  simp only [classDataName, tw.bits_eq, u32_congr tw hflags, u32_congr tw hstart,
    u32_congr tw hsize, followText_congr tw hname, methods_congr tw hmethods,
    protocolNames_congr tw hprotocols, ivars_congr tw hivars, properties_congr tw hproperties]

theorem classRecord_congr {address : UInt64} (h : Agree s s' (s.classReads address)) :
    classRecord s address = classRecord s' address := by
  simp only [classReads, agree_append, and_assoc] at h
  obtain ⟨hsuperclass, hbody, hmetaclass⟩ := h
  unfold classRecord
  rw [tw.bits_eq]
  refine bind_congr_of_eq (classReference_congr tw hsuperclass _) fun superclass => ?_
  -- The metaclass is looked for at the address of the record, which its body leaves as it is.
  refine bind_congr_of_ensures (classBody_address s _) (classBody_congr tw hbody) fun c hc => ?_
  have haddress : c.address = address := hc
  rw [← haddress] at hmetaclass
  exact metaclassBody_congr tw hmetaclass

theorem categoryBody_congr {hasClassProperties : Bool} {address : UInt64}
    (h : Agree s s' (s.categoryReads hasClassProperties address)) :
    categoryBody s hasClassProperties address = categoryBody s' hasClassProperties address := by
  simp only [categoryReads, agree_append, and_assoc] at h
  obtain ⟨hname, htarget, hinstance, hclass, hprotocols, hproperties, hlast⟩ := h
  unfold categoryBody
  simp only [tw.bits_eq, followText_congr tw hname, classReference_congr tw htarget,
    methods_congr tw hinstance, methods_congr tw hclass, protocolNames_congr tw hprotocols,
    properties_congr tw hproperties, propertiesIf_congr tw hlast]

theorem extendMethods_congr {array : UInt64} {index : Nat} {ms : List MethodRecord}
    (h : ∀ i, i < index + ms.length →
      Agree s s' (s.slotTextReads (array + s.bits.words (UInt64.ofNat i)))) :
    extendMethods s array index ms = extendMethods s' array index ms := by
  induction ms generalizing index with
  | nil => rfl
  | cons m ms ih =>
    have hrest : extendMethods s array (index + 1) ms = extendMethods s' array (index + 1) ms :=
      ih fun i hi => h i (by rw [List.length_cons]; omega)
    have hslot := h index (by rw [List.length_cons]; omega)
    simp only [extendMethods, tw.bits_eq, followText_congr tw hslot, hrest]

theorem extendProtocol_congr {array : UInt64} {p : ProtocolRecord}
    (h : ∀ i, i < (MethodGroup.all.map fun g => (MethodGroup.methods p g).length).sum →
      Agree s s' (s.slotTextReads (array + s.bits.words (UInt64.ofNat i)))) :
    extendProtocol s array p = extendProtocol s' array p := by
  simp only [MethodGroup.all, MethodGroup.methods, List.map_cons, List.map_nil, List.sum_cons,
    List.sum_nil] at h
  unfold extendProtocol
  refine bind_congr_of_eq (extendMethods_congr tw fun i hi => h i (by omega)) fun _ => ?_
  refine bind_congr_of_eq (extendMethods_congr tw fun i hi => h i (by omega)) fun _ => ?_
  refine bind_congr_of_eq (extendMethods_congr tw fun i hi => h i (by omega)) fun _ => ?_
  exact bind_congr_of_eq (extendMethods_congr tw fun i hi => h i (by omega)) fun _ => rfl

theorem protocolBody_congr {address : UInt64} (h : Agree s s' (s.protocolReads address)) :
    protocolBody s address = protocolBody s' address := by
  simp only [protocolReads, MethodGroup.all, List.flatMap_cons, List.flatMap_nil,
    MethodGroup.field, agree_append, and_assoc] at h
  obtain ⟨hname, hprotocols, h₁, h₂, h₃, h₄, -, hproperties, hsize, hextended, hlast⟩ := h
  unfold protocolBody
  rw [tw.bits_eq]
  refine bind_congr_of_eq (followText_congr tw hname _) fun name => ?_
  refine bind_congr_of_eq (protocolNames_congr tw hprotocols) fun protocols => ?_
  refine bind_congr_of_gives (methods_gives s _ _) (methods_congr tw h₁ _) ?_
  refine bind_congr_of_gives (methods_gives s _ _) (methods_congr tw h₂ _) ?_
  refine bind_congr_of_gives (methods_gives s _ _) (methods_congr tw h₃ _) ?_
  refine bind_congr_of_gives (methods_gives s _ _) (methods_congr tw h₄ _) ?_
  refine bind_congr_of_eq (properties_congr tw hproperties _) fun own => ?_
  refine bind_congr_of_gives (u32_gives s _ _) (u32_congr tw hsize _) ?_
  -- The size tells whether there is an array, and the methods kept so far how long it is.
  unfold extendedReads at hextended
  cases hhas : s.protocolHas address .extendedTypes with
  | false =>
    unfold protocolHas at hhas
    simp only [hhas, Bool.false_eq_true, if_false]
    exact bind_congr_of_eq rfl fun p => propertiesIf_congr tw hlast _ _
  | true =>
    simp only [hhas, if_true, agree_append] at hextended
    unfold protocolHas at hhas
    simp only [hhas, if_true]
    refine bind_congr_of_option (follow_gives s _ _) (follow_congr tw hextended.1 _)
      (bind_congr_of_eq rfl fun p => propertiesIf_congr tw hlast _ _) fun array harray => ?_
    rw [harray] at hextended
    refine bind_congr_of_eq (extendProtocol_congr tw fun i hi => ?_)
      fun p => propertiesIf_congr tw hlast _ _
    exact hextended.2.of_mem (List.mem_range.2 hi)

theorem recordAt_congr {address : UInt64} {step step' : Survey α}
    (h : s.isEncryptedAt address = false → step = step') (kind : RecordKind) :
    recordAt s address kind step = recordAt s' address kind step' := by
  unfold recordAt
  rw [tw.isEncryptedAt_eq]
  cases hclear : s.isEncryptedAt address with
  | true => rfl
  | false => rw [h hclear]

theorem classAt_congr {address : UInt64}
    (h : s.isEncryptedAt address = false → Agree s s' (s.classReads address)) :
    classAt s address = classAt s' address := by
  rw [classAt_eq, classAt_eq, recordAt_congr tw fun hclear => classRecord_congr tw (h hclear)]

theorem categoryAt_congr {hasClassProperties : Bool} {address : UInt64}
    (h : s.isEncryptedAt address = false →
      Agree s s' (s.categoryReads hasClassProperties address)) :
    categoryAt s hasClassProperties address = categoryAt s' hasClassProperties address := by
  rw [categoryAt_eq, categoryAt_eq,
    recordAt_congr tw fun hclear => categoryBody_congr tw (h hclear)]

theorem protocolAt_congr {address : UInt64}
    (h : s.isEncryptedAt address = false → Agree s s' (s.protocolReads address)) :
    protocolAt s address = protocolAt s' address := by
  rw [protocolAt_eq, protocolAt_eq,
    recordAt_congr tw fun hclear => protocolBody_congr tw (h hclear)]

theorem recordAddresses_congr {kind : RecordKind}
    (h : ∀ slot ∈ s.listed kind, Agree s s' (s.slotReads slot)) :
    recordAddresses s kind.list = recordAddresses s' kind.list := by
  unfold recordAddresses
  unfold listed at h
  rw [tw.find?_eq]
  cases hfound : kind.list.find? s with
  | none => rfl
  | some found =>
    rw [hfound] at h
    simp only [slots, tw.bits_eq]
    exact collect_congr fun slot hslot => follow_congr tw (h slot hslot) _

/-- Lists of records whose records are read the same. -/
theorem listing_congr (kind : RecordKind) {step step' : UInt64 → Survey (Option α)}
    (h : Agree s s' ((s.listed kind).flatMap fun slot =>
      s.slotReads slot ++ (s.record? slot).elim [] (s.recordReads kind)))
    (hstep : ∀ address,
      (s.isEncryptedAt address = false → Agree s s' (s.recordReads kind address)) →
        step address = step' address) :
    recordAddresses s kind.list >>= collect step =
      recordAddresses s' kind.list >>= collect step' := by
  have hslots (slot : UInt64) (hslot : slot ∈ s.listed kind) : Agree s s' (s.slotReads slot) :=
    (agree_append.1 (h.of_mem hslot)).1
  refine bind_congr_of_gives (recordAddresses_gives s kind) (recordAddresses_congr tw hslots) ?_
  refine collect_congr fun address ha => hstep address fun hclear => ?_
  obtain ⟨slot, hslot, hfollowed⟩ := List.mem_filterMap.1 ha
  have hrecord : s.record? slot = some address := by
    rw [record?, hfollowed, Option.filter_some, hclear]
    rfl
  have hread := (agree_append.1 (h.of_mem hslot)).2
  rw [hrecord] at hread
  exact hread

theorem imageInfo_congr (h : Agree s s' ((RuntimeSection.imageInfo.find? s).elim [] fun found =>
    s.headerReads found.address)) : imageInfo s = imageInfo s' := by
  unfold imageInfo
  rw [tw.find?_eq]
  cases hfound : RuntimeSection.imageInfo.find? s with
  | none => rfl
  | some found =>
    rw [hfound, Option.elim_some, headerReads, agree_append] at h
    simp only [tw.u32At_congr h.1, tw.u32At_congr h.2]

theorem image_congr (h : Agree s s' s.footprint) : image s = image s' := by
  simp only [footprint, RecordKind.all, List.flatMap_cons, List.flatMap_nil, agree_append] at h
  obtain ⟨hinfo, hclasses, hcategories, hprotocols, -⟩ := h
  rw [image_eq, image_eq]
  refine bind_congr_of_gives (imageInfo_gives s) (imageInfo_congr tw hinfo) ?_
  refine bind_congr_of_eq (listing_congr tw .objcClass hclasses fun _ =>
    classAt_congr tw) fun classes => ?_
  refine bind_congr_of_eq (listing_congr tw .category hcategories fun _ =>
    categoryAt_congr tw) fun categories => ?_
  exact bind_congr_of_eq (listing_congr tw .protocol hprotocols fun _ =>
    protocolAt_congr tw) fun protocols => rfl

end Survey

end ObjcAtlas
