import ObjcAtlas.Proofs.Image.Thin
import ObjcAtlas.Proofs.Metadata.ListSections
import ObjcAtlas.Proofs.Word.Record

set_option autoImplicit false

namespace ObjcAtlas

namespace Sweep

open Word

def imageInfo (s : Slice) : Sweep (Option ImageInfo) := do
  let some found := RuntimeSection.imageInfo.find? s | return none
  let both ← pair s found.address
  plain (Survey.read found.address "image info"
    (both.map fun (version, flags) => ⟨version, flags⟩))

def room (count : Nat) : Option Unit := if count * 8 < 2 ^ 63 then some () else none

def recordAddresses (s : Slice) (t : RuntimeSection) : Sweep (List UInt64) := do
  let some found := t.find? s | return []
  let count := found.size.toNat / s.bits.pointerSize
  let _ ← room count
  collect (fun i => do
    follow s (← sum found.address (← words s.bits (UInt64.ofNat i))) t.name) (List.range count)

def image (s : Slice) : Sweep Findings := do
  let info ← imageInfo s
  let classes ← recordAddresses s .classes >>= collect (classAt s)
  let categories ← recordAddresses s .categories >>=
    collect (categoryAt s (info.any ImageInfo.hasCategoryClassProperties))
  let protocols ← recordAddresses s .protocols >>= collect (protocolAt s)
  return { imageInfo := info, classes, categories, protocols }

/-- Extracts metadata, unless a sum traps or there is no room. The slide is added modulo
    `2 ^ 64`. -/
def extract (s : Slice) (options : ExtractOptions) : Option Metadata := do
  let (found, notes) ← image s {}
  let (warnings, memo) := readLog options.decodeTypes notes.log.toList
  let found := found.report memo options.slide
  return {
    flags := .of s
    imageInfo := found.imageInfo
    classes := found.classes
    categories := found.categories
    protocols := found.protocols
    warnings := s.fixups.errors.map fixupWarning ++ warnings.map (·.move options.slide)
    counts := memo.counts }

end Sweep

namespace Slice

variable {s : Slice}

theorem size_le_of_load {bytes : ByteArray} {selector : Option ArchSelector}
    (h : load bytes selector = .ok s) : s.reader.size ≤ bytes.size := by
  rw [load] at h
  split at h
  · obtain ⟨table, -, h⟩ := bind_eq_ok.1 h
    obtain ⟨p, -, h⟩ := bind_eq_ok.1 h
    obtain ⟨part, hpart, h⟩ := bind_eq_ok.1 h
    obtain ⟨-, rfl⟩ := Reader.le_of_slice (mapError_eq_ok.1 hpart)
    rw [(of_read h).2.1, Reader.size, ByteArray.size_extract]
    dsimp only
    omega
  · obtain ⟨found, hfound, h⟩ := bind_eq_ok.1 h
    have hsame : found = s := by
      cases selector with
      | none => exact Except.ok.inj h
      | some selector =>
        dsimp only at h
        split at h
        · exact Except.ok.inj h
        · cases h
    rw [← hsame, (of_read hfound).2.1]
    exact Nat.le_refl _

theorem checked_of_load {bytes : ByteArray} {selector : Option ArchSelector}
    (hload : load bytes selector = .ok s) (hsize : bytes.size < 2 ^ 63) : s.Checked where
  size_lt := Nat.lt_of_le_of_lt (size_le_of_load hload) hsize
  fileEnd_le g hg := (bounds_of_load hload hg).2
  sectionEnd_lt g hg t ht := by
    obtain ⟨part, place, hread⟩ := exists_read_of_load hload
    obtain ⟨-, -, -, -, hcheck⟩ := of_read hread
    have hsection := Segment.checkSection_of_check (checkSegments_forall hcheck g hg) ht
    simp only [Segment.checkSection] at hsection
    exact Nat.not_le.1 (throw_if_eq_ok.1 hsection).1

end Slice

namespace Sweep

open Word

variable {s : Slice} (hs : s.Checked)

include hs

theorem tracks_imageInfo (h : s.isInfoCut = false) :
    Tracks (imageInfo s) (Survey.imageInfo s) := by
  rw [Slice.isInfoCut] at h
  rw [imageInfo, Survey.imageInfo]
  cases hfind : RuntimeSection.imageInfo.find? s with
  | none => exact tracks_pure none
  | some t =>
    rw [hfind, Option.any_some, decide_eq_false_iff_not, Nat.not_le] at h
    refine .step (pair_eq hs h) ?_
    have hboth : Except.map (fun (version, flags) => (⟨version, flags⟩ : ImageInfo))
        (do return (← s.u32At t.address, ← s.u32At (t.address + 4))) =
          do return ⟨← s.u32At t.address, ← s.u32At (t.address + 4)⟩ := by
      cases s.u32At t.address with
      | error e => rfl
      | ok version => cases s.u32At (t.address + 4) <;> rfl
    rw [hboth]
    exact tracks_plain _

theorem traps_imageInfo (h : s.isInfoCut = true) : Traps (imageInfo s) := by
  obtain ⟨t, hfind, hcut⟩ := (Option.any_eq_true _ _).1 h
  have hfirst : (Run.u32At s t.address).run = _ := Run.runs_u32At hs t.address
  have hsum : sum t.address 4 = none := if_neg (Nat.not_lt.2 (of_decide_eq_true hcut))
  have hpair : pair s t.address = none := by
    rw [pair, hfirst, hsum]
    rfl
  intro n
  rw [imageInfo, hfind]
  dsimp only
  rw [hpair]
  rfl

theorem tracks_recordAddresses {kind : RecordKind} (h : s.isListHuge kind = false) :
    Tracks (recordAddresses s kind.list) (Survey.recordAddresses s kind.list) := by
  rw [Slice.isListHuge] at h
  rw [recordAddresses, Survey.recordAddresses]
  cases hfind : kind.list.find? s with
  | none => exact tracks_pure []
  | some t =>
    rw [hfind, Option.any_some, decide_eq_false_iff_not, Nat.not_le] at h
    obtain ⟨g, hg, ht⟩ := Slice.exists_segment_of_find? hfind
    have hend := hs.sectionEnd_lt g hg t ht
    refine .step (if_pos h) (.collect_map fun i hi => ?_)
    have hpos : 0 < s.bits.pointerSize := by cases s.bits <;> decide
    have hnext := (Nat.le_div_iff_mul_le hpos).1 (List.mem_range.1 hi)
    rw [Nat.succ_mul] at hnext
    have hle := Nat.le_mul_of_pos_right i hpos
    have hindex : (UInt64.ofNat i).toNat = i :=
      UInt64.toNat_ofNat_of_lt' (show i < 2 ^ 64 by omega)
    have hbytes := toNat_words (b := s.bits) (n := UInt64.ofNat i) (by rw [hindex]; omega)
    rw [hindex] at hbytes
    refine .step (words_eq (by rw [hindex]; omega)) (.step (Word.sum_eq (by omega)) ?_)
    exact tracks_follow hs _ _

omit hs in
theorem traps_recordAddresses {kind : RecordKind} (h : s.isListHuge kind = true) :
    Traps (recordAddresses s kind.list) := by
  obtain ⟨t, hfind, hhuge⟩ := (Option.any_eq_true _ _).1 h
  have hroom : room (t.size.toNat / s.bits.pointerSize) = none :=
    if_neg (Nat.not_lt.2 (of_decide_eq_true hhuge))
  intro n
  rw [recordAddresses, hfind]
  dsimp only
  rw [hroom]
  rfl

theorem tracks_records {α : Type} {kind : RecordKind} (hroom : s.isListHuge kind = false)
    {step : UInt64 → Sweep (Option α)} {step' : UInt64 → Survey (Option α)}
    (h : ∀ address, address.toNat < 2 ^ 56 → Tracks (step address) (step' address)) :
    Tracks (recordAddresses s kind.list >>= collect step)
      (Survey.recordAddresses s kind.list >>= Survey.collect step') := by
  refine (tracks_recordAddresses hs hroom).bind_of_gives (Survey.recordAddresses_gives s kind) ?_
  refine .collect fun address haddress => h address ?_
  obtain ⟨slot, -, hfollowed⟩ := List.mem_filterMap.1 haddress
  exact Slice.followed?_lt hfollowed

theorem tracks_image (h : s.isTrap = false) : Tracks (image s) (Survey.image s) := by
  obtain ⟨hcut, hroom⟩ := Slice.isTrap_eq_false.1 h
  rw [image, Survey.image_eq]
  refine (tracks_imageInfo hs hcut).bind fun info => ?_
  refine (tracks_records hs (hroom .objcClass) fun _ => tracks_classAt hs).bind fun classes => ?_
  refine (tracks_records hs (hroom .category) fun _ ha =>
    tracks_categoryAt hs ha _).bind fun _ => ?_
  exact (tracks_records hs (hroom .protocol) fun _ =>
    tracks_protocolAt hs).bind fun _ => tracks_pure _

theorem traps_image (h : s.isTrap = true) : Traps (image s) := by
  have hlist {kind : RecordKind} {α : Type} (h : s.isListHuge kind = true)
      (step : UInt64 → Sweep (Option α)) : Traps (recordAddresses s kind.list >>= collect step) :=
    (traps_recordAddresses h).bind _
  simp only [Slice.isTrap, RecordKind.all, Bool.or_eq_true, List.any_cons, List.any_nil,
    Bool.or_false] at h
  rcases h with hinfo | hclasses | hcategories | hprotocols
  · exact (traps_imageInfo hs hinfo).bind _
  · exact .after (fun _ => (hlist hclasses _).bind _) _
  · exact .after (fun _ => .after (fun _ => (hlist hcategories _).bind _) _) _
  · exact .after (fun _ => .after (fun _ => .after (fun _ => (hlist hprotocols _).bind _) _) _) _

theorem extract_eq (options : ExtractOptions) : extract s options = Metadata.extract s options := by
  rw [Metadata.extract_eq]
  cases htrap : s.isTrap with
  | true =>
    change (image s {}).bind _ = none
    rw [traps_image hs htrap, Option.bind_none]
  | false =>
    rw [extract, tracks_image hs htrap {}]
    rfl

omit hs

/-- In an image that can be read, one sum of an extraction may be too large for a word: that of the
    address of the image info and four. All others are words, whatever the bytes and the options
    are: if every sum was looked at, the extraction would come to the same, and trap in the same
    images. -/
theorem extract_of_load {bytes : ByteArray} {selector : Option ArchSelector}
    (hload : Slice.load bytes selector = .ok s) (hsize : bytes.size < 2 ^ 63)
    (options : ExtractOptions) :
    extract s options = Metadata.extract s options ∧
      (extract s options = none ↔ s.isInfoCut = true ∨ ∃ kind, s.isListHuge kind = true) := by
  have hsame := extract_eq (Slice.checked_of_load hload hsize) options
  exact ⟨hsame, hsame ▸ Metadata.extract_eq_none_iff s options⟩

/-- The start of the file at address zero, and an empty image info that is all that its segment
    has. -/
def infoPlan (address size : UInt64) : ThinPlan where
  bits := .bits64
  order := .little
  cpuType := Cpu.arm64
  subtype := 0
  fileType := 2
  calls := [.addSegment ⟨"__TEXT", 0, 0x100, 0, 0x100, 5⟩,
    .addSegment ⟨"__DATA", address, size, 0x100, 8, 3⟩,
    .addSection 1 ⟨"__objc_imageinfo", address, 0, false⟩]

namespace infoPlan

variable {address size : UInt64}

theorem sound (h : address.toNat + size.toNat < 2 ^ 64) : (infoPlan address size).Sound where
  ordered := by simp [infoPlan, DraftCall.Ordered]
  segments := by
    have names : NameFits "__TEXT" ∧ NameFits "__DATA" := by
      unfold NameFits
      decide
    intro s hs
    have hcases : s = ⟨"__TEXT", 0, 0x100, 0, 0x100, 5⟩ ∨
        s = ⟨"__DATA", address, size, 0x100, 8, 3⟩ := by simpa [infoPlan] using hs
    rcases hcases with rfl | rfl
    · exact ⟨names.1, by decide, by decide⟩
    · exact ⟨names.2, (by decide : 0x100 + 8 < 2 ^ 64), h⟩
  sections := by
    have name : NameFits "__objc_imageinfo" := by
      unfold NameFits
      decide
    intro i s t hs ht
    have hcases : i = 1 ∧ t = ⟨"__objc_imageinfo", address, 0, false⟩ := by
      simpa [infoPlan] using ht
    obtain ⟨rfl, rfl⟩ := hcases
    obtain rfl := Option.some.inj hs
    refine ⟨name, Nat.le_refl _, Nat.le_add_right _ _, fun _ => ?_, fun _ hsize => absurd rfl hsize⟩
    simp [SectionPlan.fileOffset, SegmentPlan.segment]
  dylibs := by simp [infoPlan]
  narrowSegments := nofun
  narrowSections := nofun
  commands := by
    have hlengths : (infoPlan address size).draft.encodedCommands.map List.length = [72, 152] := by
      change [(Segment.encode .little .bits64 _).length,
        (Segment.encode .little .bits64 _).length] = _
      rw [Segment.length_encode, Segment.length_encode]
      rfl
    rw [List.length_flatten, hlengths]
    decide

def slice (address size : UInt64) : Slice :=
  (infoPlan address size).draft.loaded ((infoPlan address size).items.map Prod.snd)

theorem load_slice (address size : UInt64) (h : address.toNat + size.toNat < 2 ^ 64) :
    Slice.load ⟨(infoPlan address size).draft.build.toArray⟩ none = .ok (slice address size) :=
  ThinPlan.load_draft (sound h)

end infoPlan

theorem extract_infoPlan_low :
    Slice.load ⟨(infoPlan 0x1000 8).draft.build.toArray⟩ none = .ok (infoPlan.slice 0x1000 8) ∧
      ∀ options, extract (infoPlan.slice 0x1000 8) options =
        some ((infoPlan.slice 0x1000 8).reported options) := by
  have hload := infoPlan.load_slice 0x1000 8 (by decide)
  refine ⟨hload, fun options => ?_⟩
  rw [(extract_of_load hload (by decide +kernel) options).1, Metadata.extract_eq]
  rfl

/-- With an image info in the last four bytes of memory, its address and four are no word. -/
theorem extract_infoPlan_high :
    Slice.load ⟨(infoPlan 0xFFFFFFFFFFFFFFFC 3).draft.build.toArray⟩ none =
        .ok (infoPlan.slice 0xFFFFFFFFFFFFFFFC 3) ∧
      (∃ t, RuntimeSection.imageInfo.find? (infoPlan.slice 0xFFFFFFFFFFFFFFFC 3) = some t ∧
        2 ^ 64 ≤ t.address.toNat + 4) ∧
      ∀ options, extract (infoPlan.slice 0xFFFFFFFFFFFFFFFC 3) options = none ∧
        Metadata.extract (infoPlan.slice 0xFFFFFFFFFFFFFFFC 3) options = none := by
  have hload := infoPlan.load_slice 0xFFFFFFFFFFFFFFFC 3 (by decide)
  have hs := Slice.checked_of_load hload (by decide +kernel)
  have hnone (options : ExtractOptions) :=
    (Metadata.extract_eq_none_iff (infoPlan.slice 0xFFFFFFFFFFFFFFFC 3) options).2 (.inl rfl)
  exact ⟨hload, ⟨_, rfl, Nat.le_refl _⟩,
    fun options => ⟨(extract_eq hs options).trans (hnone options), hnone options⟩⟩

end Sweep

end ObjcAtlas
