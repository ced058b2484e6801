import ObjcAtlas.Proofs.Extraction.Degraded

set_option autoImplicit false

namespace ObjcAtlas

theorem unmarked_remark {β : Type} [Record β] (f : Bool → Bool) (b : β) :
    unmarked (Record.remark f b) = unmarked b := Record.remark_remark _ _ _

namespace Extraction

variable {β : Type} [Record β] {s : Slice} {o : ExtractOptions} {p : Progress}

/-- What a step finds with nothing read before, but for the mark. -/
def alone (o : ExtractOptions) (m : Extraction (Option β)) : Option β :=
  (found o m {}).join.map unmarked

/-- From `p` the step finds what it finds with nothing read before, but for the mark. -/
def FindsAlone (o : ExtractOptions) (m : Extraction (Option β)) (p : Progress) : Prop :=
  ∃ r, found o m {} = some r ∧ (found o m p).map (·.map unmarked) = some (r.map unmarked)

theorem FindsAlone.of_remark {m : Extraction (Option β)} {r : Option β} {f : Bool → Bool}
    (hstart : found o m {} = some r) (h : found o m p = some (r.map (Record.remark f))) :
    FindsAlone o m p := by
  refine ⟨r, hstart, ?_⟩
  rw [h]
  cases r with
  | none => rfl
  | some b => simp [unmarked_remark]

theorem FindsAlone.exists_run {m : Extraction (Option β)} (h : FindsAlone o m p) :
    ∃ r q, m o p = some (r, q) ∧ r.map unmarked = alone o m := by
  obtain ⟨r, hstart, h⟩ := h
  obtain ⟨r', hfound, hsame⟩ := Option.map_eq_some_iff.1 h
  obtain ⟨⟨r'', q⟩, hrun, rfl⟩ := Option.map_eq_some_iff.1 hfound
  refine ⟨r'', q, hrun, hsame.trans ?_⟩
  rw [alone, hstart]
  rfl

theorem isSome_alone {m : Extraction (Option β)} {x : Survey (Option β)}
    (hm : ∀ M : DecodeMemo, M.Serves o → Mirrors o M m x (Option.map (reportRecord o M))) :
    (alone o m).isSome = (x {}).1.isSome := by
  have hrun : found o m {} = some ((x {}).1.map (reportRecord o (Progress.past o {} x).memo)) :=
    congrArg (Option.map Prod.fst) (run_of_mirrors hm (DecodeMemo.serves_empty o)).1
  rw [alone, hrun, Option.join_some, Option.isSome_map, Option.isSome_map]

theorem findsAlone_classAt (hp : p.Sound s o) (address : UInt64) :
    FindsAlone o (classAt s address) p := by
  obtain ⟨r, hstart, -, hthen⟩ := found_classAt hp address
  exact .of_remark (f := fun d => if p.isNameless s (Survey.superclassSlot s address)
    then Survey.classAmiss s address else d) hstart hthen

theorem findsAlone_categoryAt (hasClassProperties : Bool) (hp : p.Sound s o) (address : UInt64) :
    FindsAlone o (categoryAt s hasClassProperties address) p := by
  obtain ⟨r, hstart, -, hthen⟩ := found_categoryAt hasClassProperties hp address
  exact .of_remark (f := fun d => if p.isNameless s (Survey.targetSlot s address)
    then Survey.categoryAmiss s hasClassProperties address else d) hstart hthen

theorem findsAlone_protocolAt (hp : p.Sound s o) (address : UInt64) :
    FindsAlone o (protocolAt s address) p := by
  obtain ⟨r, hstart, hthen⟩ := found_protocolAt hp address
  exact ⟨r, hstart, congrArg (Option.map (Option.map unmarked)) hthen⟩

structure Faithful (s : Slice) (o : ExtractOptions) (step : UInt64 → Extraction (Option β)) :
    Prop where
  sound : ∀ {p q : Progress} {r : Option β}, p.Sound s o → ∀ address,
    step address o p = some (r, q) → q.Sound s o
  finds : ∀ {p : Progress}, p.Sound s o → ∀ address, FindsAlone o (step address) p

theorem faithful_classAt : Faithful s o (classAt s) where
  sound hp address := sound_of_step hp (fun _ hM => mirrors_classAt s hM address)
    (Survey.leaves_classAt address)
  finds hp address := findsAlone_classAt hp address

theorem faithful_categoryAt (hasClassProperties : Bool) :
    Faithful s o (categoryAt s hasClassProperties) where
  sound hp address := sound_of_step hp (fun _ hM => mirrors_categoryAt s hM _ address)
    (Survey.leaves_categoryAt _ address)
  finds hp address := findsAlone_categoryAt hasClassProperties hp address

theorem faithful_protocolAt : Faithful s o (protocolAt s) where
  sound hp address := sound_of_step hp (fun _ hM => mirrors_protocolAt s hM address)
    (Survey.leaves_protocolAt address)
  finds hp address := findsAlone_protocolAt hp address

theorem bind_run {α γ : Type} {m : Extraction α} {a : α} {q : Progress} (h : m o p = some (a, q))
    (f : α → Extraction γ) : (m >>= f) o p = f a o q := by
  change (m o p).bind _ = _
  rw [h]
  rfl

/-- The step comes to sound progress and finds these records, but for their marks. -/
def Finds (s : Slice) (o : ExtractOptions) (m : Extraction (List β)) (p : Progress)
    (records : List β) : Prop :=
  ∃ bs q, m o p = some (bs, q) ∧ q.Sound s o ∧ bs.map unmarked = records

theorem Faithful.collect {step : UInt64 → Extraction (Option β)} (h : Faithful s o step)
    (hp : p.Sound s o) (addresses : List UInt64) :
    Finds s o (collect step addresses) p (addresses.filterMap fun a => alone o (step a)) := by
  induction addresses generalizing p with
  | nil => exact ⟨[], p, rfl, hp, rfl⟩
  | cons address addresses ih =>
    obtain ⟨r, q, hrun, hr⟩ := (h.finds hp address).exists_run
    obtain ⟨bs, q', hrest, hq', hbs⟩ := ih (h.sound hp address hrun)
    refine ⟨r.toList ++ bs, q', ?_, hq', ?_⟩
    · rw [Extraction.collect, bind_run hrun, bind_run hrest]
      rfl
    · rw [List.filterMap_cons, ← hr, List.map_append, hbs]
      cases r <;> rfl

theorem Faithful.listing {step : UInt64 → Extraction (Option β)} (h : Faithful s o step)
    {kind : RecordKind} (hroom : s.isListHuge kind = false) (hp : p.Sound s o) :
    Finds s o (recordAddresses s kind.list >>= Extraction.collect step) p
      (((s.listed kind).filterMap s.followed?).filterMap fun a => alone o (step a)) := by
  have hmirrors := fun (M : DecodeMemo) (_ : M.Serves o) =>
    mirrors_recordAddresses (o := o) (M := M) hroom
  have hrun := (run_of_mirrors hmirrors hp.memo).1
  have hleaves := Survey.leaves_recordAddresses (s := s) kind
  obtain ⟨-, _, -, -, haddresses, -⟩ := hleaves p.notes hp.names
  rw [haddresses] at hrun
  obtain ⟨bs, q, hbs, hq, hrecords⟩ := h.collect (sound_past hmirrors hleaves hp)
    ((s.listed kind).filterMap s.followed?)
  exact ⟨bs, q, (bind_run hrun _).trans hbs, hq, hrecords⟩

/-- The records of a whole extraction are those that would be read one by one. -/
theorem extract_one_by_one {m : Metadata} (h : Metadata.extract s o = some m) :
    m.classes.map unmarked = ((s.listed .objcClass).filterMap s.followed?).filterMap
      (fun a => alone o (classAt s a)) ∧
    m.categories.map unmarked = ((s.listed .category).filterMap s.followed?).filterMap
      (fun a => alone o
        (categoryAt s (m.imageInfo.any ImageInfo.hasCategoryClassProperties) a)) ∧
    m.protocols.map unmarked = ((s.listed .protocol).filterMap s.followed?).filterMap
      (fun a => alone o (protocolAt s a)) := by
  obtain ⟨htrap, -⟩ := Metadata.extract_eq_some_iff.1 h
  obtain ⟨hcut, hroom⟩ := Slice.isTrap_eq_false.1 htrap
  obtain ⟨info, q, hinfo, hq⟩ : ∃ info q, imageInfo s o (.start s) = some (info, q) ∧
      q.Sound s o := by
    have hmirrors := fun (M : DecodeMemo) (_ : M.Serves o) =>
      mirrors_imageInfo (o := o) (M := M) hcut
    have hstart := Progress.sound_start s o
    obtain ⟨_, hleaves⟩ := (Survey.fixed_imageInfo (s := s)).steady
    exact ⟨_, _, (run_of_mirrors hmirrors hstart.memo).1, sound_past hmirrors hleaves hstart⟩
  obtain ⟨classes, q₁, hclasses, hq₁, hfirst⟩ := faithful_classAt.listing (hroom .objcClass) hq
  obtain ⟨categories, q₂, hcategories, hq₂, hsecond⟩ := (faithful_categoryAt
    (info.any ImageInfo.hasCategoryClassProperties)).listing (hroom .category) hq₁
  obtain ⟨protocols, q₃, hprotocols, -, hthird⟩ :=
    faithful_protocolAt.listing (hroom .protocol) hq₂
  have himage : image s o (.start s) = some (⟨info, classes, categories, protocols⟩, q₃) := by
    rw [image_eq, bind_run hinfo]
    exact (bind_run hclasses _).trans ((bind_run hcategories _).trans (bind_run hprotocols _))
  change (image s o (.start s)).bind _ = some m at h
  rw [himage] at h
  obtain rfl := Option.some.inj h
  exact ⟨hfirst, hsecond, hthird⟩

/-- However far an extraction has come, the record at an address is found as it is with nothing read
    before, but for its mark. A name that is looked up is the one that the image has, and an
    encoding that is decoded gives what its decoder gives. So the records of a whole extraction are
    those that would be read one by one. -/
theorem record_of_reached {info : Option ImageInfo} (h : Reached s o info p) (address : UInt64) :
    FindsAlone o (classAt s address) p ∧
    FindsAlone o (categoryAt s (info.any ImageInfo.hasCategoryClassProperties) address) p ∧
    FindsAlone o (protocolAt s address) p ∧
    found o (className s address) p = some (s.className? address) ∧
    found o (className s address) {} = some (s.className? address) ∧
    (∀ text, (p.memo.type text).1 = ObjcType.decode text ∧
      (p.memo.signature text).1 = MethodSignature.decode text ∧
      (p.memo.property text).1 = PropertyAttributes.decode text) ∧
    ∀ m, Metadata.extract s o = some m →
      m.classes.map unmarked = ((s.listed .objcClass).filterMap s.followed?).filterMap
        (fun a => alone o (classAt s a)) ∧
      m.categories.map unmarked = ((s.listed .category).filterMap s.followed?).filterMap
        (fun a => alone o
          (categoryAt s (m.imageInfo.any ImageInfo.hasCategoryClassProperties) a)) ∧
      m.protocols.map unmarked = ((s.listed .protocol).filterMap s.followed?).filterMap
        (fun a => alone o (protocolAt s a)) := by
  have hname {p : Progress} (hp : p.Sound s o) :
      found o (className s address) p = some (s.className? address) := by
    have hrun := run_of_mirrors (fun _ _ => mirrors_className s address) hp.memo
    rw [found, hrun.1, Option.map_some, (Survey.runs_className address hp.names).found]
    rfl
  exact ⟨findsAlone_classAt h.sound address, findsAlone_categoryAt _ h.sound address,
    findsAlone_protocolAt h.sound address, hname h.sound, hname (Progress.sound_empty s o),
    h.sound.memo.right.answers, fun _ => extract_one_by_one⟩

/-- Two classes with the same data, at `0x1054` and `0x1068`; the first is the superclass of the
    second. The data have a name and one method. -/
def sharedData : ByteArray := ⟨#[
  0xCE, 0xFA, 0xED, 0xFE, 12, 0, 0, 0, 0, 0, 0, 0, 2, 0, 0, 0, 1, 0, 0, 0, 0x38, 0, 0, 0, 0, 0, 0,
  0,
  1, 0, 0, 0, 0x38, 0, 0, 0, 0x5F, 0x5F, 0x44, 0x41, 0x54, 0x41, 0, 0, 0, 0, 0, 0, 0, 0, 0, 0, 0,
  0x10, 0, 0, 0xC3, 0, 0, 0, 0, 0, 0, 0, 0xC3, 0, 0, 0, 3, 0, 0, 0, 3, 0, 0, 0, 0, 0, 0, 0, 0, 0, 0,
  0,
  0, 0, 0, 0, 0, 0, 0, 0, 0, 0, 0, 0, 0, 0, 0, 0, 0x7C, 0x10, 0, 0,
  0, 0, 0, 0, 0x54, 0x10, 0, 0, 0, 0, 0, 0, 0, 0, 0, 0, 0x7C, 0x10, 0, 0,
  0, 0, 0, 0, 0, 0, 0, 0, 0, 0, 0, 0, 0, 0, 0, 0, 0xB8, 0x10, 0, 0, 0xA4, 0x10, 0, 0, 0, 0, 0, 0, 0,
  0, 0, 0, 0, 0, 0, 0, 0, 0, 0, 0,
  12, 0, 0, 0, 1, 0, 0, 0, 0xBA, 0x10, 0, 0, 0xBC, 0x10, 0, 0, 0, 0x10, 0, 0,
  0x41, 0, 0x66, 0, 0x76, 0x38, 0x40, 0x30, 0x3A, 0x34, 0]⟩

/-- With the first class read, the second is found as it is alone: with the name that is remembered,
    and with a signature that was decoded before. -/
theorem record_of_reached_sharedData :
    ∃ s info p, Slice.load sharedData none = .ok s ∧ Reached s {} info p ∧
      p.names[(0x1054 : UInt64)]? = some (some "A") ∧
      (p.memo.signature? "v8@0:4").isSome ∧ FindsAlone {} (classAt s 0x1068) p ∧
      (alone {} (classAt s 0x1068)).map (fun c =>
        (c.superclass.name?, c.instanceMethods.map (·.signature.isSome))) =
          some (some "A", [true]) := by
  have h : (Slice.load sharedData none).map (fun s => (firstClass s {} (.start s)).map fun r =>
      decide (r.2.names[(0x1054 : UInt64)]? = some (some "A") ∧
        (r.2.memo.signature? "v8@0:4").isSome ∧
        (alone {} (classAt s 0x1068)).map (fun c =>
          (c.superclass.name?, c.instanceMethods.map (·.signature.isSome))) =
            some (some "A", [true]))) = .ok (some true) := by
    decide +kernel
  obtain ⟨s, hs, h⟩ := map_eq_ok.1 h
  obtain ⟨⟨info, p⟩, hrun, h⟩ := Option.map_eq_some_iff.1 h
  obtain ⟨hname, hdecoded, halone⟩ := of_decide_eq_true h
  have hreached := reached_firstClass hrun
  exact ⟨s, info, p, hs, hreached, hname, hdecoded, (record_of_reached hreached 0x1068).1, halone⟩

end Extraction

end ObjcAtlas
