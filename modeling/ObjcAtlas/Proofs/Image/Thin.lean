import Mathlib.Algebra.BigOperators.Group.List.Basic
import ObjcAtlas.Proofs.Image.Build

set_option autoImplicit false

namespace ObjcAtlas

structure SectionPlan where
  name : String
  address : UInt64
  size : UInt64
  zerofill : Bool

namespace SectionPlan

/-- Where the file has a section that is not zerofill: as far into the segment's data as its
    address is into the segment's memory. -/
def fileOffset (s : Segment) (t : SectionPlan) : Nat :=
  s.fileOffset.toNat + (t.address - s.address).toNat

def toSection (s : Segment) (t : SectionPlan) : Section where
  name := t.name
  segmentName := s.name
  address := t.address
  size := t.size
  offset := if t.zerofill then 0 else UInt32.ofNat (t.fileOffset s)
  align := 3
  relocationOffset := 0
  relocationCount := 0
  flags := if t.zerofill then Section.zerofillFlag else 0
  reserved1 := 0
  reserved2 := 0
  reserved3 := 0

theorem isZerofill_toSection (s : Segment) (t : SectionPlan) :
    (t.toSection s).isZerofill = t.zerofill := by
  cases h : t.zerofill <;> simp only [toSection, Section.isZerofill, h] <;> decide

/-- The section lies in its segment's memory, and its data, if it has any, in the image. -/
structure Sound (s : Segment) (imageSize : Nat) (t : SectionPlan) : Prop where
  name : NameFits t.name
  start : s.address.toNat ≤ t.address.toNat
  stop : t.address.toNat + t.size.toNat ≤ s.addressEnd
  offset : t.zerofill = false → t.fileOffset s < 2 ^ 32
  data : t.zerofill = false → t.size ≠ 0 → t.fileOffset s + t.size.toNat ≤ imageSize

theorem toNat_offset {s : Segment} {imageSize : Nat} {t : SectionPlan} (h : t.Sound s imageSize)
    (hbacked : t.zerofill = false) : (t.toSection s).offset.toNat = t.fileOffset s := by
  simp only [toSection, hbacked, Bool.false_eq_true, if_false]
  rw [UInt32.toNat_ofNat', Nat.mod_eq_of_lt (h.offset hbacked)]

end SectionPlan

namespace Segment

def fill (s : Segment) (plans : List SectionPlan) : Segment :=
  { s with sections := s.sections ++ plans.map (SectionPlan.toSection s) }

theorem fill_nil (s : Segment) : s.fill [] = s := by
  rw [fill, List.map_nil, List.append_nil]

theorem fill_append (s : Segment) (plans more : List SectionPlan) :
    (s.fill plans).fill more = s.fill (plans ++ more) := by
  simp only [fill, List.map_append, List.append_assoc]
  rfl

end Segment

/-- What is asked of a draft before it is built. Sections are added to the segment with a
    number. -/
inductive DraftCall where
  | addSegment (s : SegmentPlan)
  | addSection (index : Nat) (t : SectionPlan)
  | addDylib (name : String)
  | addUuid (bytes : Vector UInt8 16)
  | addEncryption (e : Encryption)

def ImageDraft.call (d : ImageDraft) : DraftCall → ImageDraft
  | .addSegment s => s.add d
  | .addSection index t =>
    if t.zerofill then d.addZerofill index t.name t.address t.size
    else d.addSection index t.name t.address t.size
  | .addDylib name => d.addCommand (.dylib name)
  | .addUuid bytes => d.addCommand (.uuid bytes.toList)
  | .addEncryption e => d.addCommand (.encryption e)

namespace DraftCall

def segment? : DraftCall → Option SegmentPlan
  | .addSegment s => some s
  | _ => none

def sectionOf? (index : Nat) : DraftCall → Option SectionPlan
  | .addSection i t => if i = index then some t else none
  | _ => none

def dylib? : DraftCall → Option String
  | .addDylib name => some name
  | _ => none

def uuid? : DraftCall → Option ByteArray
  | .addUuid bytes => some ⟨bytes.toArray⟩
  | _ => none

def encryption? : DraftCall → Option Encryption
  | .addEncryption e => some e
  | _ => none

def command? (bits : Bitness) : DraftCall → Option (DraftCommand × Command)
  | .addDylib name => some (.dylib name, .dylib .load (Command.draftDylib name))
  | .addUuid bytes => some (.uuid bytes.toList, .uuid ⟨bytes.toArray⟩)
  | .addEncryption e => some (.encryption e, .encryption bits e)
  | _ => none

/-- Sections are only added to segments that are there, `count` of them before the calls. -/
def Ordered : (count : Nat) → List DraftCall → Prop
  | _, [] => True
  | count, .addSegment _ :: calls => Ordered (count + 1) calls
  | count, .addSection index _ :: calls => index < count ∧ Ordered count calls
  | count, _ :: calls => Ordered count calls

end DraftCall

theorem modify_append_left {α : Type} {f : α → α} {xs : List α} {index : Nat}
    (h : index < xs.length) (ys : List α) :
    xs.modify index f ++ ys = (xs ++ ys).modify index f := by
  induction xs generalizing index with
  | nil => exact absurd h (Nat.not_lt_zero _)
  | cons x xs ih =>
    cases index with
    | zero => rfl
    | succ index => exact congrArg (x :: ·) (ih (Nat.lt_of_succ_lt_succ h))

theorem map_zipIdx_modify {α β : Type} (f : α → α) (g : α × Nat → β) (xs : List α) (index : Nat) :
    (xs.modify index f).zipIdx.map g =
      xs.zipIdx.map fun x => g (if x.2 = index then f x.1 else x.1, x.2) := by
  refine List.ext_getElem? fun i => ?_
  simp only [List.getElem?_map, List.getElem?_zipIdx, List.getElem?_modify, Nat.zero_add,
    Option.map_map, Function.comp_def]
  cases xs[i]? with
  | none => rfl
  | some a =>
    by_cases h : index = i <;> simp [h, eq_comm]

namespace ImageDraft

variable {d : ImageDraft}

theorem segments_addSection (index : Nat) (t : SectionPlan) :
    (d.call (.addSection index t)).segments = d.segments.modify index (·.fill [t]) := by
  cases h : t.zerofill with
  | false =>
    have hadd : d.call (.addSection index t) = d.addSection index t.name t.address t.size := by
      simp only [call, h, Bool.false_eq_true, if_false]
    rw [hadd]
    simp [addSection, addSectionTo, Segment.fill, SectionPlan.toSection, SectionPlan.fileOffset, h]
  | true =>
    have hadd : d.call (.addSection index t) = d.addZerofill index t.name t.address t.size := by
      simp only [call, h, if_true]
    rw [hadd]
    simp [addZerofill, addSectionTo, Segment.fill, SectionPlan.toSection, h]

def segmentsAfter (d : ImageDraft) (calls : List DraftCall) : List Segment :=
  (d.segments ++ (calls.filterMap DraftCall.segment?).map SegmentPlan.segment).zipIdx.map
    fun x => x.1.fill (calls.filterMap (DraftCall.sectionOf? x.2))

theorem segmentsAfter_call {c : DraftCall} {calls : List DraftCall}
    (h : DraftCall.Ordered d.segments.length (c :: calls)) :
    (d.call c).segmentsAfter calls = d.segmentsAfter (c :: calls) := by
  cases c with
  | addSegment s =>
    have hadd : (d.call (.addSegment s)).segments = d.segments ++ [s.segment] := rfl
    rw [segmentsAfter, hadd, List.append_assoc]
    rfl
  | addSection index t =>
    -- The segment is one of the draft's own, so it is filled now or with the others later.
    have hindex : index < d.segments.length := h.1
    have hsections (i : Nat) : (DraftCall.addSection index t :: calls).filterMap
        (DraftCall.sectionOf? i) = (if i = index then [t] else []) ++
          calls.filterMap (DraftCall.sectionOf? i) := by
      by_cases hi : i = index
      · simp [DraftCall.sectionOf?, hi]
      · simp [DraftCall.sectionOf?, hi, Ne.symm hi]
    rw [segmentsAfter, segments_addSection, modify_append_left hindex, map_zipIdx_modify]
    refine List.map_congr_left fun x _ => ?_
    rw [hsections]
    by_cases hx : x.2 = index
    · simp only [if_pos hx, Segment.fill_append]
    · simp only [if_neg hx, List.nil_append]
  | addDylib name => rfl
  | addUuid bytes => rfl
  | addEncryption e => rfl

theorem ordered_call {c : DraftCall} {calls : List DraftCall}
    (h : DraftCall.Ordered d.segments.length (c :: calls)) :
    DraftCall.Ordered (d.call c).segments.length calls := by
  cases c with
  | addSegment s =>
    have hadd : (d.call (.addSegment s)).segments = d.segments ++ [s.segment] := rfl
    rw [hadd, List.length_append]
    exact h
  | addSection index t =>
    rw [segments_addSection, List.length_modify]
    exact h.2
  | addDylib name => exact h
  | addUuid bytes => exact h
  | addEncryption e => exact h

theorem segments_foldl_call {calls : List DraftCall}
    (h : DraftCall.Ordered d.segments.length calls) :
    (calls.foldl call d).segments = d.segmentsAfter calls := by
  induction calls generalizing d with
  | nil => simp [segmentsAfter, Segment.fill_nil]
  | cons c calls ih =>
    rw [List.foldl_cons, ih (ordered_call h), segmentsAfter_call h]

theorem call_eq (d : ImageDraft) (c : DraftCall) : d.call c = { d with
    segments := (d.call c).segments
    commands := d.commands ++ (c.command? d.bits).toList.map Prod.fst
    contents := (d.call c).contents } := by
  cases c with
  | addSection index t =>
    rw [call]
    split <;> simp [DraftCall.command?, addZerofill, addSection, addSectionTo]
  | addSegment s => simp [call, DraftCall.command?, SegmentPlan.add, addSegment]
  | addDylib name => rfl
  | addUuid bytes => rfl
  | addEncryption e => rfl

theorem foldl_call_eq (d : ImageDraft) (calls : List DraftCall) : calls.foldl call d = { d with
    segments := (calls.foldl call d).segments
    commands := d.commands ++ (calls.filterMap (DraftCall.command? d.bits)).map Prod.fst
    contents := (calls.foldl call d).contents } := by
  induction calls generalizing d with
  | nil => simp
  | cons c calls ih =>
    have hbits : (d.call c).bits = d.bits := by rw [call_eq]
    rw [List.foldl_cons, ih, hbits]
    rw [call_eq]
    cases hc : c.command? d.bits <;> simp [hc]

theorem length_contents_foldl_call_lt {calls : List DraftCall} {bound : Nat}
    (hd : d.contents.length < bound)
    (h : ∀ s, .addSegment s ∈ calls → s.segment.fileEnd < bound) :
    (calls.foldl call d).contents.length < bound := by
  induction calls generalizing d with
  | nil => exact hd
  | cons c calls ih =>
    refine ih ?_ fun s hs => h s (List.mem_cons_of_mem _ hs)
    cases c with
    | addSegment s =>
      have hs := h s List.mem_cons_self
      change (Bytes.pad s.segment.fileEnd d.contents).length < bound
      rw [Bytes.length_pad]
      omega
    | addSection index t =>
      rw [call]
      split <;> exact hd
    | addDylib name => exact hd
    | addUuid bytes => exact hd
    | addEncryption e => exact hd

end ImageDraft

structure ThinPlan where
  bits : Bitness
  order : ByteOrder
  cpuType : UInt32
  subtype : UInt32
  fileType : UInt32
  calls : List DraftCall

namespace ThinPlan

def empty (p : ThinPlan) : ImageDraft where
  bits := p.bits
  order := p.order
  cpuType := p.cpuType
  subtype := p.subtype
  fileType := p.fileType

def draft (p : ThinPlan) : ImageDraft := p.calls.foldl ImageDraft.call p.empty

def segmentPlans (p : ThinPlan) : List SegmentPlan := p.calls.filterMap DraftCall.segment?

def segments (p : ThinPlan) : List Segment :=
  (p.segmentPlans.map SegmentPlan.segment).zipIdx.map fun x =>
    x.1.fill (p.calls.filterMap (DraftCall.sectionOf? x.2))

/-- All names, addresses and sizes can be written, sections are added to segments that are there
    and lie in them, and the commands take less than `2 ^ 32` bytes. -/
structure Sound (p : ThinPlan) : Prop where
  ordered : DraftCall.Ordered 0 p.calls
  segments : ∀ s, .addSegment s ∈ p.calls → s.Sound
  sections : ∀ i s t, p.segmentPlans[i]? = some s → .addSection i t ∈ p.calls →
    t.Sound s.segment p.draft.build.length
  dylibs : ∀ name, .addDylib name ∈ p.calls → '\x00' ∉ name.toList
  narrowSegments : p.bits = .bits32 → ∀ s, .addSegment s ∈ p.calls → s.address.toNat < 2 ^ 32 ∧
    s.size.toNat < 2 ^ 32 ∧ s.fileOffset.toNat < 2 ^ 32 ∧ s.fileSize.toNat < 2 ^ 32
  narrowSections : p.bits = .bits32 → ∀ i t, .addSection i t ∈ p.calls →
    t.address.toNat < 2 ^ 32 ∧ t.size.toNat < 2 ^ 32
  commands : p.draft.encodedCommands.flatten.length < 2 ^ 32

variable {p : ThinPlan}

theorem segments_draft (h : p.Sound) : p.draft.segments = p.segments :=
  ImageDraft.segments_foldl_call (d := p.empty) h.ordered

theorem draft_eq (h : p.Sound) : p.draft = {
    bits := p.bits, order := p.order, cpuType := p.cpuType, subtype := p.subtype
    fileType := p.fileType
    segments := p.segments
    commands := (p.calls.filterMap (DraftCall.command? p.bits)).map Prod.fst
    contents := p.draft.contents } := by
  have hcalls := p.empty.foldl_call_eq p.calls
  rw [← draft, segments_draft h] at hcalls
  rw [hcalls]
  rfl

def items (p : ThinPlan) : List (List UInt8 × Command) :=
  (p.segments.map fun s => (s.encode p.order p.bits, .segment p.bits s)) ++
    (p.calls.filterMap (DraftCall.command? p.bits)).map fun x => (x.1.encode p.order p.bits, x.2)

theorem map_fst_items (h : p.Sound) : p.items.map Prod.fst = p.draft.encodedCommands := by
  rw [draft_eq h, items]
  simp [ImageDraft.encodedCommands, Function.comp_def]

theorem segments_items (p : ThinPlan) :
    (p.items.map Prod.snd).filterMap Command.segment? = p.segments := by
  have hcommands : ((p.calls.filterMap (DraftCall.command? p.bits)).map Prod.snd).filterMap
      Command.segment? = [] := by
    refine List.filterMap_eq_nil_iff.2 fun c hc => ?_
    obtain ⟨x, hx, rfl⟩ := List.mem_map.1 hc
    obtain ⟨call, -, hcall⟩ := List.mem_filterMap.1 hx
    cases call <;> cases hcall <;> rfl
  rw [items, List.map_append, List.map_map, List.map_map, List.filterMap_append]
  change _ ++ ((p.calls.filterMap (DraftCall.command? p.bits)).map Prod.snd).filterMap _ = _
  rw [hcommands, List.append_nil, List.filterMap_map]
  exact List.filterMap_some

theorem filterMap_items {α : Type} {f : Command → Option α} {g : DraftCall → Option α}
    (hsegment : ∀ s, f (.segment p.bits s) = none)
    (h : ∀ c, (c.command? p.bits).bind (fun x => f x.2) = g c) :
    (p.items.map Prod.snd).filterMap f = p.calls.filterMap g := by
  have hsegments : (p.segments.map fun s => Command.segment p.bits s).filterMap f = [] := by
    refine List.filterMap_eq_nil_iff.2 fun c hc => ?_
    obtain ⟨s, -, rfl⟩ := List.mem_map.1 hc
    exact hsegment s
  rw [items, List.map_append, List.map_map, List.map_map, List.filterMap_append]
  change (p.segments.map fun s => Command.segment p.bits s).filterMap f ++ _ = _
  rw [hsegments, List.nil_append, List.filterMap_map, List.filterMap_filterMap]
  exact congrArg (p.calls.filterMap ·) (funext h)

theorem mem_sectionOf {i : Nat} {t : SectionPlan}
    (ht : t ∈ p.calls.filterMap (DraftCall.sectionOf? i)) : .addSection i t ∈ p.calls := by
  obtain ⟨c, hc, hsome⟩ := List.mem_filterMap.1 ht
  cases c with
  | addSection index u =>
    simp only [DraftCall.sectionOf?, Option.ite_none_right_eq_some, Option.some.injEq] at hsome
    obtain ⟨rfl, rfl⟩ := hsome
    exact hc
  | _ => exact absurd hsome nofun

theorem exists_of_mem_segments {s : Segment} (hs : s ∈ p.segments) : ∃ i plan,
    p.segmentPlans[i]? = some plan ∧ .addSegment plan ∈ p.calls ∧
      s = plan.segment.fill (p.calls.filterMap (DraftCall.sectionOf? i)) := by
  obtain ⟨⟨s, i⟩, hx, rfl⟩ := List.mem_map.1 hs
  rw [List.mk_mem_zipIdx_iff_getElem?, List.getElem?_map, Option.map_eq_some_iff] at hx
  obtain ⟨plan, hplan, rfl⟩ := hx
  obtain ⟨c, hc, hsome⟩ := List.mem_filterMap.1 (List.mem_of_getElem? hplan)
  cases c with
  | addSegment other =>
    obtain rfl : other = plan := Option.some.inj hsome
    exact ⟨i, other, hplan, hc, rfl⟩
  | _ => exact absurd hsome nofun

theorem fits_segment (h : p.Sound) {s : Segment} (hs : s ∈ p.segments) : s.Fits p.bits := by
  have hencode : s.encode p.order p.bits ∈ p.draft.encodedCommands := by
    rw [← map_fst_items h, items, List.map_append, List.map_map]
    exact List.mem_append_left _ (List.mem_map_of_mem hs)
  have hsize := p.draft.length_le_commands hencode
  rw [Segment.length_encode] at hsize
  obtain ⟨i, plan, hplan, hcall, rfl⟩ := exists_of_mem_segments hs
  refine {
    name := (h.segments plan hcall).name
    address := fun hb => (h.narrowSegments hb plan hcall).1
    size := fun hb => (h.narrowSegments hb plan hcall).2.1
    fileOffset := fun hb => (h.narrowSegments hb plan hcall).2.2.1
    fileSize := fun hb => (h.narrowSegments hb plan hcall).2.2.2
    sections := fun u hu => ?_
    commandSize := Nat.lt_of_le_of_lt hsize h.commands }
  obtain ⟨t, ht, rfl⟩ := List.mem_map.1 hu
  have hadd := mem_sectionOf ht
  exact {
    name := (h.sections i plan t hplan hadd).name
    segmentName := (h.segments plan hcall).name
    address := fun hb => (h.narrowSections hb i t hadd).1
    size := fun hb => (h.narrowSections hb i t hadd).2
    reserved3 := fun _ => rfl }

theorem length_build_lt (h : p.Sound) : p.draft.build.length < UInt64.size := by
  have hend (s : SegmentPlan) (hs : .addSegment s ∈ p.calls) :
      s.segment.fileEnd < UInt64.size := (h.segments s hs).fileEnd
  refine p.draft.length_build_lt ?_ ?_ ?_
  · have hheader : Header.sizeFor p.draft.bits ≤ 32 := by cases p.draft.bits <;> decide
    have hcommands := h.commands
    rw [ImageDraft.front, List.length_append, ImageDraft.length_header]
    exact Nat.lt_trans (Nat.add_lt_add_of_le_of_lt hheader hcommands) (by decide)
  · intro s hs
    rw [segments_draft h] at hs
    obtain ⟨i, plan, -, hcall, rfl⟩ := exists_of_mem_segments hs
    exact hend plan hcall
  · exact ImageDraft.length_contents_foldl_call_lt (show 0 < UInt64.size by decide) hend

theorem check_segment (h : p.Sound) {s : Segment} (hs : s ∈ p.segments) :
    s.check p.draft.build.length = .ok () := by
  have himage := p.draft.fileEnd_le_build (segments_draft h ▸ hs)
  obtain ⟨i, plan, hplan, hcall, rfl⟩ := exists_of_mem_segments hs
  have haddress : plan.segment.addressEnd < UInt64.size := (h.segments plan hcall).addressEnd
  refine Segment.check_eq_ok (h.segments plan hcall).fileEnd haddress himage ?_
  refine forM_eq_ok fun u hu => ?_
  obtain ⟨t, ht, rfl⟩ := List.mem_map.1 hu
  have hsound := h.sections i plan t hplan (mem_sectionOf ht)
  refine Segment.checkSection_eq_ok (UInt64.le_iff_toNat_le.2 hsound.start) hsound.stop haddress
    (length_build_lt h) fun hbacked hsize => ?_
  rw [SectionPlan.isZerofill_toSection] at hbacked
  rw [SectionPlan.toNat_offset hsound hbacked]
  exact hsound.data hbacked hsize

theorem spells_items (h : p.Sound) : ∀ x ∈ p.items, Spells p.order x.1 x.2 := by
  intro x hx
  have hencode : x.1 ∈ p.draft.encodedCommands := map_fst_items h ▸ List.mem_map_of_mem hx
  have hshort := Nat.lt_of_le_of_lt (p.draft.length_le_commands hencode) h.commands
  rcases List.mem_append.1 hx with hsegment | hcommand
  · obtain ⟨s, hs, rfl⟩ := List.mem_map.1 hsegment
    exact Command.spells_segment (fits_segment h hs)
  · obtain ⟨y, hy, rfl⟩ := List.mem_map.1 hcommand
    obtain ⟨c, hc, hsome⟩ := List.mem_filterMap.1 hy
    cases c with
    | addSegment s => exact absurd hsome nofun
    | addSection index t => exact absurd hsome nofun
    | addDylib name =>
      obtain rfl := Option.some.inj hsome
      exact Command.spells_dylib (h.dylibs name hc) hshort
    | addUuid bytes =>
      obtain rfl := Option.some.inj hsome
      exact Command.spells_uuid ..
    | addEncryption e =>
      obtain rfl := Option.some.inj hsome
      exact Command.spells_encryption ..

theorem length_items_lt (h : p.Sound) : p.items.length < 2 ^ 32 := by
  have hone : ∀ n ∈ (p.items.map Prod.fst).map List.length, 1 ≤ n := by
    intro n hn
    rw [List.map_map] at hn
    obtain ⟨x, hx, rfl⟩ := List.mem_map.1 hn
    have hlong := (spells_items h x hx).long
    exact Nat.le_trans (by decide) hlong
  have hle := List.length_le_sum_of_one_le _ hone
  rw [List.length_map, List.length_map, ← List.length_flatten, map_fst_items h] at hle
  exact Nat.lt_of_le_of_lt hle h.commands

theorem load_draft (h : p.Sound) : Slice.load ⟨p.draft.build.toArray⟩ none =
    .ok (p.draft.loaded (p.items.map Prod.snd)) := by
  have horder : p.draft.order = p.order := by rw [draft_eq h]
  refine p.draft.load_build (map_fst_items h) (horder ▸ spells_items h) (length_items_lt h)
    h.commands ?_
  rw [segments_items]
  exact Slice.checkSegments_eq_ok fun s hs => check_segment h hs

theorem header_loaded (h : p.Sound) (commands : List Command) :
    (p.draft.loaded commands).header.bits = p.bits ∧
      (p.draft.loaded commands).header.order = p.order ∧
      (p.draft.loaded commands).header.cpuType = p.cpuType ∧
      (p.draft.loaded commands).header.subtype = p.subtype ∧
      (p.draft.loaded commands).header.fileType = .ofCode p.fileType := by
  rw [draft_eq h]
  exact ⟨rfl, rfl, rfl, rfl, rfl⟩

/-- An image is loaded as it was planned: with its header, its segments and their sections in
    order, the names of its libraries in order, and the first uuid and encrypted stretch. -/
theorem load_gives_plan (p : ThinPlan) (h : p.Sound) :
    ∃ s, Slice.load ⟨p.draft.build.toArray⟩ none = .ok s ∧
      s.header.bits = p.bits ∧ s.header.order = p.order ∧ s.header.cpuType = p.cpuType ∧
      s.header.subtype = p.subtype ∧ s.header.fileType = .ofCode p.fileType ∧
      s.segments = p.segments ∧
      s.dylibNames = p.calls.filterMap DraftCall.dylib? ∧
      s.uuid? = p.calls.findSome? DraftCall.uuid? ∧
      s.encryption? = p.calls.findSome? DraftCall.encryption? := by
  obtain ⟨hbits, horder, hcpu, hsubtype, htype⟩ := header_loaded h (p.items.map Prod.snd)
  refine ⟨_, load_draft h, hbits, horder, hcpu, hsubtype, htype, segments_items p, ?_, ?_, ?_⟩
  · rw [Slice.dylibNames, List.map_filterMap]
    exact filterMap_items (fun _ => rfl) fun c => by cases c <;> rfl
  · rw [Slice.uuid?, ← List.head?_filterMap, ← List.head?_filterMap]
    exact congrArg List.head? (filterMap_items (fun _ => rfl) fun c => by cases c <;> rfl)
  · rw [Slice.encryption?, ← List.head?_filterMap, ← List.head?_filterMap]
    exact congrArg List.head? (filterMap_items (fun _ => rfl) fun c => by cases c <;> rfl)

/-- A big-endian image; its commands are added between its segments, and it has two uuids. -/
def sample : ThinPlan where
  bits := .bits32
  order := .big
  cpuType := 18
  subtype := 0
  fileType := 6
  calls := [.addDylib "/usr/lib/libä.dylib", .addSegment ⟨"__TEXT", 0x1000, 0x400, 0, 0x400, 5⟩,
    .addUuid (.replicate 16 7), .addSegment ⟨"__DATA", 0x2000, 0x200, 0x400, 0x80, 3⟩,
    .addSection 1 ⟨"__bss", 0x2080, 0x100, true⟩, .addSection 0 ⟨"__text", 0x1380, 0x80, false⟩,
    .addEncryption ⟨0x380, 0x80, 1⟩, .addSection 1 ⟨"__objc_classlist", 0x2040, 0x40, false⟩,
    .addUuid (.replicate 16 8), .addDylib "libobjc"]

theorem segment_sample {s : SegmentPlan} (h : .addSegment s ∈ sample.calls) :
    s = ⟨"__TEXT", 0x1000, 0x400, 0, 0x400, 5⟩ ∨
      s = ⟨"__DATA", 0x2000, 0x200, 0x400, 0x80, 3⟩ := by
  simpa [sample] using h

theorem section_sample {i : Nat} {t : SectionPlan} (h : .addSection i t ∈ sample.calls) :
    (i = 1 ∧ t = ⟨"__bss", 0x2080, 0x100, true⟩) ∨
      (i = 0 ∧ t = ⟨"__text", 0x1380, 0x80, false⟩) ∨
      (i = 1 ∧ t = ⟨"__objc_classlist", 0x2040, 0x40, false⟩) := by
  simpa [sample] using h

theorem sound_sample : sample.Sound where
  ordered := by simp [sample, DraftCall.Ordered]
  segments := by
    have names : NameFits "__TEXT" ∧ NameFits "__DATA" := by
      unfold NameFits
      decide
    intro s hs
    rcases segment_sample hs with rfl | rfl
    · exact ⟨names.1, by decide, by decide⟩
    · exact ⟨names.2, by decide, by decide⟩
  sections := by
    have names : NameFits "__bss" ∧ NameFits "__text" ∧ NameFits "__objc_classlist" := by
      unfold NameFits
      decide
    have hlength : 0x480 ≤ sample.draft.build.length := by decide +kernel
    intro i s t hs ht
    rcases section_sample ht with ⟨rfl, rfl⟩ | ⟨rfl, rfl⟩ | ⟨rfl, rfl⟩
    · obtain rfl := Option.some.inj hs
      exact ⟨names.1, by decide, by decide, nofun, nofun⟩
    · obtain rfl := Option.some.inj hs
      exact ⟨names.2.1, by decide, by decide, by decide,
        fun _ _ => Nat.le_trans (by decide) hlength⟩
    · obtain rfl := Option.some.inj hs
      exact ⟨names.2.2, by decide, by decide, by decide,
        fun _ _ => Nat.le_trans (by decide) hlength⟩
  dylibs := by
    intro name hname
    have hnames : name = "/usr/lib/libä.dylib" ∨ name = "libobjc" := by simpa [sample] using hname
    rcases hnames with rfl | rfl <;> decide
  narrowSegments := by
    intro _ s hs
    rcases segment_sample hs with rfl | rfl <;> decide
  narrowSections := by
    intro _ i t ht
    rcases section_sample ht with ⟨-, rfl⟩ | ⟨-, rfl⟩ | ⟨-, rfl⟩ <;> decide
  commands := by decide +kernel

theorem load_gives_sample : sample.Sound ∧
    ∃ s, Slice.load ⟨sample.draft.build.toArray⟩ none = .ok s ∧ s.header.order = .big ∧
      s.header.fileType = .dylib ∧ s.dylibNames = ["/usr/lib/libä.dylib", "libobjc"] ∧
      s.sections.map (fun t => (t.fullName, t.offset, t.isZerofill)) =
        [("__TEXT.__text", 0x380, false), ("__DATA.__bss", 0, true),
          ("__DATA.__objc_classlist", 0x440, false)] ∧
      s.uuid? = some ⟨.replicate 16 7⟩ ∧ s.encryption? = some ⟨0x380, 0x80, 1⟩ := by
  obtain ⟨s, hload, -, horder, -, -, htype, hsegments, hdylibs, huuid, hencryption⟩ :=
    load_gives_plan sample sound_sample
  refine ⟨sound_sample, s, hload, horder, htype, hdylibs, ?_, huuid, hencryption⟩
  rw [Slice.sections, hsegments]
  decide

end ThinPlan

end ObjcAtlas
