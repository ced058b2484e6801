import ObjcAtlas.Proofs.Image.Build
import ObjcAtlas.Proofs.Image.Translation
import ObjcAtlas.Proofs.Metadata.Records

set_option autoImplicit false

namespace ObjcAtlas

theorem readOn_map_warning (decodeTypes : Bool) (ws : List Warning) (memo : DecodeMemo) :
    readOn decodeTypes (ws.map .warning) memo = (ws, memo) := by
  cases decodeTypes with
  | false => simp [readOn, plainWarnings]
  | true =>
    change decodeLog (ws.map .warning) memo = (ws, memo)
    induction ws with
    | nil => rfl
    | cons w ws ih => rw [List.map_cons, decodeLog, ih]

namespace Segment

variable {g : Segment} {t : Section} {imageSize : Nat}

theorem checkSection_of_check (h : g.check imageSize = .ok ()) (ht : t ∈ g.sections) :
    g.checkSection imageSize t = .ok () := by
  rw [check] at h
  obtain ⟨-, h⟩ := throw_if_eq_ok.1 h
  obtain ⟨-, h⟩ := throw_if_eq_ok.1 h
  obtain ⟨-, h⟩ := throw_if_eq_ok.1 h
  exact of_forM_eq_ok h t ht

theorem size_of_checkSection (h : g.checkSection imageSize t = .ok ()) :
    t.size.toNat ≤ g.size.toNat ∧ (t.isZerofill = false → t.size.toNat ≤ imageSize) := by
  simp only [checkSection] at h
  obtain ⟨-, h⟩ := throw_if_eq_ok.1 h
  obtain ⟨hnested, h⟩ := throw_if_eq_ok.1 h
  rw [not_or, UInt64.not_lt, UInt64.le_iff_toNat_le, addressEnd] at hnested
  refine ⟨by omega, fun hbacked => ?_⟩
  by_cases hempty : t.size = 0
  · simp [hempty]
  · rw [if_pos (by simp [hbacked, hempty])] at h
    obtain ⟨-, h⟩ := throw_if_eq_ok.1 h
    split at h
    · cases h
    · omega

end Segment

namespace Slice

variable {s : Slice}

theorem exists_segment_of_find? {t : Section} {r : RuntimeSection} (h : r.find? s = some t) :
    ∃ g ∈ s.segments, t ∈ g.sections := by
  obtain ⟨name, -, hname⟩ := List.exists_of_findSome?_eq_some h
  obtain ⟨g, hg, ht⟩ := Option.bind_eq_some_iff.1 hname
  exact ⟨g, List.mem_of_find?_eq_some hg, List.mem_of_find?_eq_some ht⟩

theorem size_of_load {bytes : ByteArray} {selector : Option ArchSelector} {t : Section}
    {r : RuntimeSection} (hload : load bytes selector = .ok s) (h : r.find? s = some t) :
    (∃ g ∈ s.segments, t ∈ g.sections ∧ t.size.toNat ≤ g.size.toNat) ∧
      (t.isZerofill = false → t.size.toNat ≤ s.reader.size) := by
  obtain ⟨g, hg, ht⟩ := exists_segment_of_find? h
  obtain ⟨image, place, hread⟩ := exists_read_of_load hload
  obtain ⟨-, hreader, -, -, hcheck⟩ := of_read hread
  have hsection := Segment.checkSection_of_check (checkSegments_forall hcheck g hg) ht
  obtain ⟨hsegment, himage⟩ := Segment.size_of_checkSection hsection
  rw [hreader]
  exact ⟨⟨g, hg, ht, hsegment⟩, himage⟩

variable (s) in
def isVacant (slot : UInt64) : Bool :=
  match s.target slot with
  | .ok .null => true
  | _ => false

theorem length_followed_add (slots : List UInt64) (what : String) :
    (slots.filterMap s.followed?).length + (slots.filterMap (s.astray? · what)).length +
      slots.countP s.isVacant = slots.length := by
  rw [List.length_filterMap_eq_countP, List.length_filterMap_eq_countP]
  induction slots with
  | nil => rfl
  | cons slot slots ih =>
    have hone : (if (s.followed? slot).isSome then 1 else 0) +
        (if (s.astray? slot what).isSome then 1 else 0) +
        (if s.isVacant slot then 1 else 0) = 1 := by
      unfold followed? astray? isVacant
      cases s.target slot with
      | error e => rfl
      | ok value =>
        cases value with
        | null => rfl
        | symbol b => rfl
        | address a => by_cases hm : s.isMapped a = true <;> simp [hm]
    simp only [List.countP_cons, List.length_cons]
    omega

/-- Going through the slots takes room for all of them, and gives an address or a warning for each
    that is not empty. -/
theorem run_recordAddresses {o : ExtractOptions} {p : Progress} (kind : RecordKind)
    (hp : p.Sound s o) :
    (Extraction.recordAddresses s kind.list o p = none ↔ 2 ^ 63 ≤ (s.listed kind).length * 8) ∧
      ∀ addresses q, Extraction.recordAddresses s kind.list o p = some (addresses, q) →
        ∃ warnings : Array Warning, q.warnings = p.warnings ++ warnings ∧
          addresses.length + warnings.size + (s.listed kind).countP s.isVacant =
            (s.listed kind).length := by
  cases hroom : s.isListHuge kind with
  | true =>
    have hlen := (isListHuge_iff kind).1 hroom
    have htrap := Extraction.traps_recordAddresses o hroom p
    refine ⟨⟨fun _ => hlen, fun _ => htrap⟩, fun addresses q hrun => ?_⟩
    exact absurd (htrap.symm.trans hrun) nofun
  | false =>
    have hlen : ¬ 2 ^ 63 ≤ (s.listed kind).length * 8 := by
      rw [← isListHuge_iff, hroom]
      exact nofun
    have hrun := (Extraction.run_of_mirrors
      (fun _ _ => Extraction.mirrors_recordAddresses hroom) hp.memo).1
    have hleaves := Survey.leaves_recordAddresses (s := s) kind
    obtain ⟨-, events, hlog, -, haddresses, hevents⟩ := hleaves p.notes hp.names
    obtain rfl : (Survey.recordAddresses s kind.list p.notes).2.log.toList = events := hlog
    refine ⟨⟨fun hnone => absurd (hrun.symm.trans hnone) nofun, fun h => absurd h hlen⟩, ?_⟩
    intro addresses q hq
    obtain ⟨rfl, rfl⟩ := Prod.mk.inj (Option.some.inj (hrun.symm.trans hq))
    refine ⟨_, Progress.warnings_past, ?_⟩
    rw [hevents, readOn_map_warning, id, haddresses, List.size_toArray, List.length_map]
    exact length_followed_add ..

/-- A list section has as many slots as pointers fit in its size. An extraction takes room for all
    of them, and traps if there is none; going through them gives an address or a warning for each
    that is not empty. The slots take no more room than the image has if the section has file data,
    and than the segment's memory has in any case; one without file data is bounded by the image
    only if its size happens to be. -/
theorem listed_of_load {bytes : ByteArray} {selector : Option ArchSelector} {kind : RecordKind}
    {t : Section} (hload : load bytes selector = .ok s) (h : kind.list.find? s = some t) :
    (s.listed kind).length = t.size.toNat / s.bits.pointerSize ∧
    (∀ o p, p.Sound s o →
      (Extraction.recordAddresses s kind.list o p = none ↔ 2 ^ 63 ≤ (s.listed kind).length * 8) ∧
      ∀ addresses q, Extraction.recordAddresses s kind.list o p = some (addresses, q) →
        ∃ warnings : Array Warning, q.warnings = p.warnings ++ warnings ∧
          addresses.length + warnings.size + (s.listed kind).countP s.isVacant =
            (s.listed kind).length) ∧
    (∃ g ∈ s.segments, t ∈ g.sections ∧
      (s.listed kind).length * s.bits.pointerSize ≤ g.size.toNat) ∧
    (t.isZerofill = false → (s.listed kind).length * s.bits.pointerSize ≤ s.reader.size) := by
  have hlength := length_listed h
  obtain ⟨⟨g, hg, ht, hsegment⟩, himage⟩ := size_of_load hload h
  have hround := Nat.div_mul_le_self t.size.toNat s.bits.pointerSize
  refine ⟨hlength, fun o p hp => run_recordAddresses kind hp, ⟨g, hg, ht, ?_⟩, ?_⟩
  · rw [hlength]
    omega
  · intro hbacked
    rw [hlength]
    exact Nat.le_trans hround (himage hbacked)

end Slice

/-- A class list that is all of its segment's memory. -/
def listSection (flags size : UInt32) : Section where
  name := "__objc_classlist"
  segmentName := "__DATA"
  address := 0
  size := size.toUInt64
  offset := 0
  align := 2
  relocationOffset := 0
  relocationCount := 0
  flags := flags
  reserved1 := 0
  reserved2 := 0
  reserved3 := 0

def listSegment (flags size : UInt32) : Segment where
  name := "__DATA"
  address := 0
  size := size.toUInt64
  fileOffset := 0
  fileSize := 0
  maxProtection := 3
  protection := 3
  flags := 0
  sections := [listSection flags size]

def listDraft (flags size : UInt32) : ImageDraft where
  bits := .bits32
  cpuType := 12
  segments := [listSegment flags size]

namespace listDraft

variable (flags size : UInt32)

theorem fits_listSegment : (listSegment flags size).Fits .bits32 := by
  have hname : NameFits "__DATA" ∧ NameFits "__objc_classlist" := by
    unfold NameFits
    decide
  have hsize : size.toUInt64.toNat < 2 ^ 32 := by
    rw [UInt32.toNat_toUInt64]
    exact size.toNat_lt
  have hzero : (0 : UInt64).toNat < 2 ^ 32 := by decide
  refine ⟨hname.1, fun _ => hzero, fun _ => hsize, fun _ => hzero, fun _ => hzero, ?_, ?_⟩
  · intro t ht
    obtain rfl := List.mem_singleton.1 ht
    exact ⟨hname.2, hname.1, fun _ => hzero, fun _ => hsize, fun _ => rfl⟩
  · exact (by decide : 124 < 2 ^ 32)

theorem length_build : (listDraft flags size).build.length = 152 := by
  rw [ImageDraft.length_build, ImageDraft.length_front_of_segments rfl]
  rfl

def slice (flags size : UInt32) : Slice :=
  (listDraft flags size).loaded [.segment .bits32 (listSegment flags size)]

theorem load_build (h : (listSection flags size).isZerofill = false → size.toNat ≤ 152) :
    Slice.load ⟨(listDraft flags size).build.toArray⟩ none = .ok (slice flags size) := by
  have hend : (listSegment flags size).addressEnd = size.toNat := by
    simp [Segment.addressEnd, listSegment]
  have hlt : size.toNat < UInt64.size := Nat.lt_trans size.toNat_lt (by decide)
  have hfile : (listSegment flags size).fileEnd = 0 := rfl
  have hsize : 124 < 2 ^ 32 := by decide
  refine ImageDraft.load_segments rfl ?_ (Nat.one_lt_two_pow_iff.2 (by decide)) hsize ?_
  · intro g hg
    obtain rfl := List.mem_singleton.1 hg
    exact fits_listSegment flags size
  · rw [length_build]
    apply Slice.checkSegments_eq_ok
    intro g hg
    obtain rfl := List.mem_singleton.1 hg
    refine Segment.check_eq_ok (by rw [hfile]; decide) (by rwa [hend]) (by rw [hfile]; decide)
      (forM_eq_ok fun t ht => ?_)
    obtain rfl := List.mem_singleton.1 ht
    refine Segment.checkSection_eq_ok (UInt64.le_refl _) ?_ (by rwa [hend]) (by decide) ?_
    · simp [hend, listSection]
    · intro hbacked _
      simpa [listSection] using h hbacked

theorem find?_slice :
    RecordKind.objcClass.list.find? (slice flags size) = some (listSection flags size) :=
  rfl

theorem length_listed : ((slice flags size).listed .objcClass).length = size.toNat / 4 := by
  rw [Slice.length_listed (find?_slice flags size)]
  exact congrArg (· / 4) size.toNat_toUInt64

theorem loss?_slice (kind : RecordKind) (slot : UInt64) :
    ((slice flags size).loss? kind slot).isSome := by
  have htarget : (slice flags size).target slot = .error (.unmapped slot.toNat) := rfl
  rw [Slice.loss?, Slice.astray?, htarget]
  rfl

theorem isTrap_slice : (slice flags size).isTrap = false := by
  refine Slice.isTrap_eq_false.2 ⟨rfl, fun kind => Bool.eq_false_iff.2 fun hhuge => ?_⟩
  have hle := (Slice.isListHuge_iff kind).1 hhuge
  have hlt := size.toNat_lt
  cases kind with
  | objcClass =>
    rw [length_listed] at hle
    omega
  | category => exact absurd hle (by decide : ¬ 2 ^ 63 ≤ ([] : List UInt64).length * 8)
  | protocol => exact absurd hle (by decide : ¬ 2 ^ 63 ≤ ([] : List UInt64).length * 8)

theorem le_length_warnings (options : ExtractOptions) :
    size.toNat / 4 ≤ ((slice flags size).reported options).warnings.length := by
  have hclasses : (((slice flags size).listed .objcClass).filterMap
      ((slice flags size).loss? .objcClass)).length = size.toNat / 4 := by
    rw [List.length_filterMap_eq_countP,
      List.countP_eq_length.2 fun slot _ => loss?_slice flags size _ slot, length_listed]
  have hle := (Metadata.losses_subperm (slice flags size) options).length_le
  rw [List.length_map, Slice.losses, RecordKind.all, List.flatMap_cons, List.length_append,
    hclasses] at hle
  omega

end listDraft

namespace Slice

/-- Slots and room come out even for a list that is read from the whole file. -/
theorem listed_of_listDraft :
    load ⟨(listDraft 0 152).build.toArray⟩ none = .ok (listDraft.slice 0 152) ∧
      ((listDraft.slice 0 152).listed .objcClass).length * 4 = 152 ∧
      ((listDraft.slice 0 152).listed .objcClass).length * 4 ≤
        (listDraft.slice 0 152).reader.size := by
  have hload := listDraft.load_build 0 152 fun _ => by decide
  have hlisted := listed_of_load hload (listDraft.find?_slice 0 152)
  refine ⟨hload, ?_, hlisted.2.2.2 (by decide)⟩
  rw [listDraft.length_listed]
  decide

/-- A list without file data is not bounded by the file: here a file of 152 bytes has one of 1024
    slots, and each slot leaves a warning. -/
theorem listed_beyond_image :
    load ⟨(listDraft Section.zerofillFlag 0x1000).build.toArray⟩ none =
        .ok (listDraft.slice Section.zerofillFlag 0x1000) ∧
      ¬ (((listDraft.slice Section.zerofillFlag 0x1000).listed .objcClass).length *
        (listDraft.slice Section.zerofillFlag 0x1000).bits.pointerSize ≤
          (listDraft.slice Section.zerofillFlag 0x1000).reader.size) ∧
      ∀ options, ∃ m, Metadata.extract (listDraft.slice Section.zerofillFlag 0x1000) options =
          some m ∧
        (listDraft.slice Section.zerofillFlag 0x1000).reader.size < m.warnings.length := by
  have hsize : (listDraft.slice Section.zerofillFlag 0x1000).reader.size = 152 :=
    listDraft.length_build _ _
  have hcount : (0x1000 : UInt32).toNat / 4 = 1024 := by decide
  refine ⟨listDraft.load_build _ _ (by decide), ?_,
    fun options => ⟨(listDraft.slice Section.zerofillFlag 0x1000).reported options, ?_, ?_⟩⟩
  · rw [listDraft.length_listed, hsize, hcount]
    decide
  · rw [Metadata.extract_eq, listDraft.isTrap_slice, if_neg Bool.false_ne_true]
  · have hle := listDraft.le_length_warnings Section.zerofillFlag 0x1000 options
    omega

end Slice

end ObjcAtlas
