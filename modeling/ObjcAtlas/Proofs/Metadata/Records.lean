import ObjcAtlas.Proofs.Extraction.Transparent
import ObjcAtlas.Proofs.Image.Build

set_option autoImplicit false

/-!
# Records that an extraction reports

The records of an extraction are those that the slots of the list sections lead to, one by one, and
a slot that should have led to one has left a warning. What the records hold has no part in that.
An extraction that traps reports nothing: `extract_none_infoSegment` has a class that is listed in
vain.
-/
namespace ObjcAtlas

theorem plainWarnings_sublist (decodeTypes : Bool) (log : List Event) :
    (plainWarnings log).Sublist (readLog decodeTypes log).1 := by
  cases decodeTypes with
  | false => exact .refl _
  | true =>
    change (plainWarnings log).Sublist (decodeLog log {}).1
    generalize ({} : DecodeMemo) = memo
    induction log generalizing memo with
    | nil => exact .refl _
    | cons event log ih =>
      cases event with
      | warning w => exact (ih memo).cons_cons w
      | encoding address kind text => exact (ih _).trans (List.sublist_append_right _ _)

theorem subperm_readLog (decodeTypes : Bool) {ws : List Warning} {log : List Event}
    (h : (ws.map Event.warning).Subperm log) : ws.Subperm (readLog decodeTypes log).1 := by
  have hplain : plainWarnings (ws.map .warning) = ws := by
    simp [plainWarnings]
  obtain ⟨l, hperm, hsub⟩ := h
  have hws : ws.Subperm (plainWarnings log) := by
    refine ⟨plainWarnings l, ?_, hsub.filterMap _⟩
    rw [← hplain]
    exact hperm.filterMap _
  exact hws.trans (plainWarnings_sublist decodeTypes log).subperm

theorem Survey.isSome_recordAt {α β : Type} {s : Slice} (address : UInt64) (kind : RecordKind)
    (step : Survey α) (f : α × Bool → β) (n : Notes) :
    ((recordAt s address kind step >>= fun r => pure (r.map f)) n).1.isSome =
      !s.isEncryptedAt address := by
  rw [recordAt_found]
  cases s.isEncryptedAt address <;> rfl

namespace Slice

variable {s : Slice}

theorem listed_eq_nil {kind : RecordKind} (h : kind.list.find? s = none) : s.listed kind = [] := by
  rw [listed, h]
  rfl

theorem length_listed {kind : RecordKind} {t : Section} (h : kind.list.find? s = some t) :
    (s.listed kind).length = t.size.toNat / s.bits.pointerSize := by
  rw [listed, h]
  simp [Survey.slots]

theorem getElem?_listed {kind : RecordKind} {t : Section} (h : kind.list.find? s = some t) {i : Nat}
    (hi : i < t.size.toNat / s.bits.pointerSize) :
    (s.listed kind)[i]? = some (t.address + UInt64.ofNat (i * s.bits.pointerSize)) := by
  rw [listed, h]
  simp [Survey.slots, Bitness.words, hi]

theorem isListHuge_iff (kind : RecordKind) :
    s.isListHuge kind = true ↔ 2 ^ 63 ≤ (s.listed kind).length * 8 := by
  rw [isListHuge]
  cases h : kind.list.find? s with
  | none => simp [listed, h]
  | some t => rw [length_listed h, Option.any_some, decide_eq_true_iff]

end Slice

namespace Metadata

variable (s : Slice) (options : ExtractOptions)

theorem losses_subperm :
    (s.losses.map (·.move options.slide)).Subperm (s.reported options).warnings := by
  obtain ⟨l, hperm, hsub⟩ := subperm_readLog options.decodeTypes s.survey_surveyed.losses
  exact ⟨l.map _, hperm.map _, (hsub.map _).trans (List.sublist_append_right _ _)⟩

def addresses (m : Metadata) : RecordKind → List UInt64
  | .objcClass => m.classes.map (·.address)
  | .category => m.categories.map (·.address)
  | .protocol => m.protocols.map (·.address)

theorem map_address_of_forall₂ {β : Type} (address : β → UInt64) (report : β → β)
    {found : UInt64 → Bool → β} {as : List UInt64} {bs : List β}
    (h : List.Forall₂ (fun a b => ∃ degraded, b = found a degraded) as bs)
    (haddress : ∀ a degraded, address (report (found a degraded)) = a + options.slide) :
    (bs.map report).map address = as.map (· + options.slide) := by
  induction h with
  | nil => rfl
  | cons hab _ ih =>
    obtain ⟨degraded, rfl⟩ := hab
    rw [List.map_cons, List.map_cons, List.map_cons, ih, haddress]

theorem addresses_reported (kind : RecordKind) : (s.reported options).addresses kind =
    ((s.listed kind).filterMap s.record?).map (· + options.slide) := by
  cases kind with
  | objcClass =>
    exact map_address_of_forall₂ options ClassRecord.address
      (fun c => (c.decode _).move options.slide) s.survey_surveyed.classes
      fun a _ => congrArg (· + options.slide) (Survey.classRecord_address s a {})
  | category =>
    exact map_address_of_forall₂ options CategoryRecord.address
      (fun c => (c.decode _).move options.slide) s.survey_surveyed.categories
      fun a _ => congrArg (· + options.slide) (Survey.categoryBody_address s _ a {})
  | protocol =>
    exact map_address_of_forall₂ options ProtocolRecord.address
      (fun p => (p.decode _).move options.slide) s.survey_surveyed.protocols
      fun a _ => congrArg (· + options.slide) (Survey.protocolBody_address s a {})

theorem forall₂_of_filterMap {α β γ : Type} {f : α → Option γ} {g : β → γ} {keep : α → Bool}
    (hkeep : ∀ a, (f a).isSome = keep a) {as : List α} {bs : List β}
    (h : bs.map g = as.filterMap f) :
    List.Forall₂ (fun a b => f a = some (g b)) (as.filter keep) bs := by
  induction as generalizing bs with
  | nil =>
    obtain rfl := List.map_eq_nil_iff.1 h
    exact .nil
  | cons a as ih =>
    have ha := hkeep a
    cases hf : f a with
    | none =>
      rw [List.filterMap_cons_none hf] at h
      rw [hf] at ha
      rw [List.filter_cons_of_neg (by simp [← ha])]
      exact ih h
    | some c =>
      rw [List.filterMap_cons_some hf] at h
      rw [hf] at ha
      obtain ⟨b, bs, rfl, hb, hbs⟩ := List.map_eq_cons_iff.1 h
      rw [List.filter_cons_of_pos (by simp [← ha])]
      exact .cons (hf.trans (congrArg some hb.symm)) (ih hbs)

open Extraction

theorem extract_eq_none_iff :
    extract s options = none ↔ s.isInfoCut = true ∨ ∃ kind, s.isListHuge kind = true := by
  have htrap : extract s options = none ↔ s.isTrap = true := by
    rw [extract_eq]
    cases s.isTrap <;> simp
  rw [htrap, ← not_iff_not, Bool.not_eq_true, Slice.isTrap_eq_false]
  simp

theorem isSome_classAt (a : UInt64) :
    (alone options (classAt s a)).isSome = !s.isEncryptedAt a := by
  rw [isSome_alone fun _ hM => mirrors_classAt s hM a, Survey.classAt_eq]
  exact Survey.isSome_recordAt ..

/-- The records are those at the addresses, in order, as each is read alone. -/
theorem records_alone {s : Slice} {options : ExtractOptions} {β : Type} [Record β]
    {step : UInt64 → Extraction (Option β)}
    (hkeep : ∀ a, (alone options (step a)).isSome = !s.isEncryptedAt a) {kind : RecordKind}
    {records : List β} (h : records.map unmarked =
      ((s.listed kind).filterMap s.followed?).filterMap fun a => alone options (step a)) :
    List.Forall₂ (fun a b => alone options (step a) = some (unmarked b))
      ((s.listed kind).filterMap s.record?) records := by
  have hrecords : (s.listed kind).filterMap s.record? =
      ((s.listed kind).filterMap s.followed?).filter fun a => !s.isEncryptedAt a :=
    List.filter_filterMap.symm
  rw [hrecords]
  exact forall₂_of_filterMap hkeep h

/-- An extraction traps if the image info is cut by the end of memory or a list has more slots than
    there can be room for. Any other gives one record for each slot of its list that leads to data
    in the file that is not encrypted, in the order of the slots and with the slid address; every
    other slot is empty or has a warning of its own. A record is the one that is read alone at its
    address, but for its mark. In another image with the same commands, in which the slots of the
    lists have the same targets, there are the same records whatever they hold. -/
theorem extract_records :
    (extract s options = none ↔ s.isInfoCut = true ∨ ∃ kind, s.isListHuge kind = true) ∧
    (∀ kind : RecordKind, (kind.list.find? s = none → s.listed kind = []) ∧
      ∀ t, kind.list.find? s = some t →
        (s.listed kind).length = t.size.toNat / s.bits.pointerSize ∧
        ∀ i < t.size.toNat / s.bits.pointerSize,
          (s.listed kind)[i]? = some (t.address + UInt64.ofNat (i * s.bits.pointerSize))) ∧
    (∀ m, extract s options = some m →
      (∀ kind, m.addresses kind =
        ((s.listed kind).filterMap s.record?).map (· + options.slide)) ∧
      List.Forall₂ (fun a c => alone options (classAt s a) = some (unmarked c))
        ((s.listed .objcClass).filterMap s.record?) m.classes ∧
      List.Forall₂ (fun a c => alone options (categoryAt s
          (m.imageInfo.any ImageInfo.hasCategoryClassProperties) a) = some (unmarked c))
        ((s.listed .category).filterMap s.record?) m.categories ∧
      List.Forall₂ (fun a p => alone options (protocolAt s a) = some (unmarked p))
        ((s.listed .protocol).filterMap s.record?) m.protocols ∧
      (s.losses.map (·.move options.slide)).Subperm m.warnings) ∧
    (∀ kind, ∀ slot ∈ s.listed kind,
      s.loss? kind slot = none ↔ s.target slot = .ok .null ∨ (s.record? slot).isSome) ∧
    ∀ s' : Slice, s'.header = s.header → s'.commands = s.commands → s'.segments = s.segments →
      (∀ kind, ∀ slot ∈ s.listed kind, s'.target slot = s.target slot) →
      ∀ kind, (extract s' options).map (·.addresses kind) =
        (extract s options).map (·.addresses kind) := by
  refine ⟨extract_eq_none_iff s options, fun kind => ⟨Slice.listed_eq_nil, fun t h => ?_⟩, ?_,
    fun kind slot _ => Slice.loss?_eq_none_iff, ?_⟩
  · exact ⟨Slice.length_listed h, fun i hi => Slice.getElem?_listed h hi⟩
  · intro m hm
    obtain ⟨hclasses, hcategories, hprotocols⟩ := extract_one_by_one hm
    obtain ⟨-, rfl⟩ := extract_eq_some_iff.1 hm
    refine ⟨addresses_reported s options, records_alone (fun a => ?_) hclasses,
      records_alone (fun a => ?_) hcategories, records_alone (fun a => ?_) hprotocols,
      losses_subperm s options⟩
    · exact isSome_classAt s options a
    · rw [isSome_alone fun _ hM => mirrors_categoryAt s hM _ a, Survey.categoryAt_eq]
      exact Survey.isSome_recordAt ..
    · rw [isSome_alone fun _ hM => mirrors_protocolAt s hM a, Survey.protocolAt_eq]
      exact Survey.isSome_recordAt ..
  · intro s' hheader hcommands hsegments htargets kind
    have haddresses : (s'.reported options).addresses kind =
        (s.reported options).addresses kind := by
      rw [addresses_reported, addresses_reported, Slice.listed_congr hheader hsegments]
      refine congrArg (List.map _) (List.filterMap_congr fun slot hslot => ?_)
      exact Slice.record?_congr hcommands hsegments (htargets kind slot hslot)
    rw [extract_eq, extract_eq, Slice.isTrap_congr hheader hsegments]
    cases s.isTrap with
    | true => rfl
    | false => exact congrArg some haddresses

def classesSegment : Segment where
  name := "__DATA"
  address := 0x1000
  size := 0x1D0
  fileOffset := 0
  fileSize := 0x1D0
  maxProtection := 3
  protection := 3
  flags := 0
  sections := [{
    name := "__objc_classlist", segmentName := "__DATA", address := 0x1150, size := 8
    offset := 0x150, align := 3, relocationOffset := 0, relocationCount := 0, flags := 0
    reserved1 := 0, reserved2 := 0, reserved3 := 0 }]

/-- A list with one slot, which leads to the record behind it, at `0x1158`. -/
def listedClass (record : List UInt8) (behind : List Segment) : ImageDraft where
  bits := .bits64
  cpuType := Cpu.arm64
  segments := classesSegment :: behind
  contents := Bytes.zeros 0x150 ++ Bytes.fit 8 [0x58, 0x11] ++ Bytes.fit 0x78 record

namespace listedClass

variable (record : List UInt8) (behind : List Segment)

theorem fits_classesSegment : classesSegment.Fits .bits64 := by
  have hnames : NameFits "__DATA" ∧ NameFits "__objc_classlist" := by
    unfold NameFits
    decide
  refine ⟨hnames.1, nofun, nofun, nofun, nofun, ?_, by decide⟩
  intro t ht
  obtain rfl := List.mem_singleton.1 ht
  exact ⟨hnames.2, hnames.1, nofun, nofun, nofun⟩

def slice : Slice :=
  (listedClass record behind).loaded ((classesSegment :: behind).map (.segment .bits64))

theorem length_contents : (listedClass record behind).contents.length = 0x1D0 := by
  simp only [listedClass, Bytes.zeros, List.length_append, List.length_replicate, Bytes.length_fit]

variable {behind}

theorem load_slice (hfits : ∀ g ∈ behind, g.Fits .bits64) (hcount : behind.length ≤ 1)
    (hends : ((classesSegment :: behind).map Segment.fileEnd).max?.getD 0 ≤ 0x1D0)
    (hsize : ((classesSegment :: behind).map (Segment.commandSize .bits64)).sum ≤ 0x130)
    (hcheck : Slice.checkSegments 0x1D0 (classesSegment :: behind) = .ok ()) :
    Slice.load ⟨(listedClass record behind).build.toArray⟩ none = .ok (slice record behind) := by
  have hlength : (listedClass record behind).build.length = 0x1D0 := by
    have hfront : (listedClass record behind).front.length ≤ 0x1D0 := by
      rw [ImageDraft.length_front_of_segments rfl]
      exact Nat.le_trans (Nat.add_le_add_left hsize 32) (by decide)
    have hend : (listedClass record behind).fileEnd ≤ 0x1D0 := hends
    rw [ImageDraft.length_build, length_contents, Nat.max_eq_right hend, Nat.max_eq_right hfront]
  refine ImageDraft.load_segments rfl ?_ ?_ ?_ ?_
  · exact List.forall_mem_cons.2 ⟨fits_classesSegment, hfits⟩
  · exact Nat.lt_of_le_of_lt (Nat.succ_le_succ hcount) (by decide)
  · exact Nat.lt_of_le_of_lt hsize (by decide)
  · rw [hlength]
    exact hcheck

/-- The class, its data at `0x1180` and its name at `0x11C8`. -/
def sound : List UInt8 :=
  Bytes.zeros 0x20 ++ Bytes.fit 8 [0x80, 0x11] ++ Bytes.fit 0x18 [2, 0, 0, 0, 0, 0, 0, 0, 8] ++
    Bytes.fit 0x30 [0xC8, 0x11] ++ Bytes.fit 8 [0x41]

def broken : List UInt8 := List.replicate 0x78 0xFF

theorem listed_slice : (slice record []).listed .objcClass = [0x1150] := by
  have hfind : RecordKind.objcClass.list.find? (slice record []) =
      classesSegment.sections.head? := rfl
  have hbits : (slice record []).bits = .bits64 := rfl
  simp only [Slice.listed, hfind, classesSegment, List.head?_cons, Option.elim_some, Survey.slots,
    hbits]
  decide

theorem target_slice :
    (slice record []).target 0x1150 = .ok (.address 0x1158) := by
  have hslot : Holds (listedClass record []).contents 0x150 (ByteOrder.little.bytes 8 0x1158) :=
    ⟨Bytes.zeros 0x150, Bytes.fit 0x78 record, List.append_assoc .., List.length_replicate⟩
  have hfront : (listedClass record []).front.length ≤ 0x150 := by
    rw [ImageDraft.length_front_of_segments rfl]
    exact (by decide : 184 ≤ 0x150)
  have hword : (slice record []).reader.pointer .bits64 0x150 = .ok 0x1158 :=
    Reader.Has.u64 (r := (slice record []).reader) (ImageDraft.holds_build _ hslot hfront)
  have hoffset : (slice record []).fileOffset 0x1150 = .ok 0x150 := rfl
  have hfixups : (slice record []).fixups = {} := rfl
  have hbits : (slice record []).bits = .bits64 := rfl
  have hresolve : (slice record []).resolve 0x150 0 = .ok (.address 0x1158) := by
    rw [Slice.resolve, hfixups, hbits, Fixups.resolve, hword]
    rfl
  simp only [Slice.target, hoffset, bind, Except.bind, hresolve, hbits]
  rfl

theorem record?_slice : (slice record []).record? 0x1150 = some 0x1158 := by
  rw [Slice.record?, Slice.followed?, target_slice]
  rfl

theorem commands_slice :
    (slice record []).commands = [.segment .bits64 classesSegment] := rfl

theorem segments_slice : (slice record []).segments = [classesSegment] := rfl

theorem header_slice (record' : List UInt8) :
    (slice record []).header = (slice record' []).header := by
  change (listedClass record []).builtHeader _ _ = (listedClass record' []).builtHeader _ _
  simp only [ImageDraft.encodedCommands, ImageDraft.builtHeader, listedClass]

theorem load_alone :
    Slice.load ⟨(listedClass record []).build.toArray⟩ none = .ok (slice record []) :=
  load_slice record nofun (by decide) (by decide) (by decide) (by decide)

end listedClass

open listedClass

/-- The class is reported at its address, and so is one that has nothing but pointers to nowhere. -/
theorem extract_records_listedClass :
    Slice.load ⟨(listedClass sound []).build.toArray⟩ none = .ok (slice sound []) ∧
    Slice.load ⟨(listedClass broken []).build.toArray⟩ none = .ok (slice broken []) ∧
    ((slice sound []).listed .objcClass).length = 1 ∧
    ∀ options,
      (extract (slice sound []) options).map (·.addresses .objcClass) =
        some [0x1158 + options.slide] ∧
      (extract (slice broken []) options).map (·.addresses .objcClass) =
        some [0x1158 + options.slide] := by
  have hfound : RecordKind.objcClass.list.find? (slice sound []) =
      classesSegment.sections.head? := rfl
  refine ⟨load_alone sound, load_alone broken,
    (((extract_records (slice sound []) {}).2.1 .objcClass).2 _ hfound).1, fun options => ?_⟩
  obtain ⟨htrap, -, hrecords, -, hsame⟩ := extract_records (slice sound []) options
  have hone : (extract (slice sound []) options).map (·.addresses .objcClass) =
      some [0x1158 + options.slide] := by
    cases hm : extract (slice sound []) options with
    | none =>
      rcases htrap.1 hm with hcut | ⟨kind, hhuge⟩
      · cases hcut
      · cases kind <;> cases hhuge
    | some m =>
      have hrecord : [(0x1150 : UInt64)].filterMap (slice sound []).record? = [0x1158] := by
        rw [List.filterMap_cons_some (record?_slice sound), List.filterMap_nil]
      rw [Option.map_some, (hrecords m hm).1 .objcClass, listed_slice, hrecord]
      rfl
  have hcommands := (commands_slice broken).trans (commands_slice sound).symm
  have hsegments := (segments_slice broken).trans (segments_slice sound).symm
  refine ⟨hone, (hsame _ (header_slice ..) hcommands hsegments ?_ .objcClass).trans hone⟩
  intro kind slot hslot
  cases kind with
  | objcClass =>
    rw [listed_slice] at hslot
    obtain rfl := List.mem_singleton.1 hslot
    rw [target_slice, target_slice]
  | category => cases hslot
  | protocol => cases hslot

/-- The last four bytes of memory but one, with an empty image info. -/
def infoSegment : Segment where
  name := "__DATA_DIRTY"
  address := 0xFFFFFFFFFFFFFFFC
  size := 3
  fileOffset := 0
  fileSize := 8
  maxProtection := 3
  protection := 3
  flags := 0
  sections := [{
    name := "__objc_imageinfo", segmentName := "__DATA_DIRTY", address := 0xFFFFFFFFFFFFFFFC
    size := 0, offset := 0, align := 3, relocationOffset := 0, relocationCount := 0, flags := 0
    reserved1 := 0, reserved2 := 0, reserved3 := 0 }]

theorem fits_infoSegment : infoSegment.Fits .bits64 := by
  have hnames : NameFits "__DATA_DIRTY" ∧ NameFits "__objc_imageinfo" := by
    unfold NameFits
    decide
  refine ⟨hnames.1, nofun, nofun, nofun, nofun, ?_, by decide⟩
  intro t ht
  obtain rfl := List.mem_singleton.1 ht
  exact ⟨hnames.2, hnames.1, nofun, nofun, nofun⟩

/-- The class is listed and can be read, but the extraction traps. -/
theorem extract_none_infoSegment :
    Slice.load ⟨(listedClass sound [infoSegment]).build.toArray⟩ none =
        .ok (slice sound [infoSegment]) ∧
      ((slice sound [infoSegment]).listed .objcClass).filterMap
        (slice sound [infoSegment]).record? = [0x1158] ∧
      ∀ options, (alone options (classAt (slice sound [infoSegment]) 0x1158)).isSome ∧
        extract (slice sound [infoSegment]) options = none := by
  refine ⟨load_slice sound (List.forall_mem_singleton.2 fits_infoSegment) (by decide) (by decide)
    (by decide) (by decide), by decide +kernel, fun options => ⟨?_, ?_⟩⟩
  · rw [isSome_classAt]
    decide
  · exact (extract_eq_none_iff _ options).2 (.inl rfl)

end Metadata

end ObjcAtlas
