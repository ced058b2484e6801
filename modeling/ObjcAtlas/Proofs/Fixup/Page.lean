import ObjcAtlas.Proofs.Fixup.Blob
import ObjcAtlas.Proofs.Fixup.Slots
import ObjcAtlas.Proofs.Image.Build

set_option autoImplicit false

namespace ObjcAtlas

namespace Fixups

variable {f : Fixups} {t : ChainTable} {image : Reader} {bits : Bitness} {offset : Nat}
  {slide : UInt64}

theorem take_chainedFixups {segments : List Segment} {range : FileRange}
    (h : ChainTable.read image range segments (preferredBase segments) = .ok t) :
    take image bits segments f (.linkedit .chainedFixups range) = { f with chains := some t } := by
  simp only [take, h]

theorem resolve_of_chains {value : SlotValue} (ht : f.chains = some t)
    (h : t.resolve? offset slide = some value) : f.resolve image bits offset slide = .ok value := by
  rw [resolve, ht, Option.bind_some, h]
  rfl

theorem resolve_of_free (ht : f.chains = some t) (h : t.resolve? offset slide = none)
    (hb : f.binds[offset]? = none) : f.resolve image bits offset slide =
      (image.pointer bits offset).map fun raw =>
        if raw = 0 then .null else .address (raw + slide) := by
  rw [resolve, ht, Option.bind_some, h]
  simp only [hb]
  rfl

end Fixups

theorem SegmentPlan.Sound.fits {s : SegmentPlan} (h : s.Sound) : s.segment.Fits .bits64 where
  name := h.name
  address := nofun
  size := nofun
  fileOffset := nofun
  fileSize := nofun
  sections := nofun
  commandSize := show 72 + 80 * 0 < 2 ^ 32 by decide

/-- An image with slots in one page of its segment `home`. Usually one segment stands before it and
    starts the file, and one behind it that holds the blob. -/
structure PagePlan where
  cpuType : UInt32
  subtype : UInt32
  fileType : UInt32
  before : List SegmentPlan
  home : SegmentPlan
  behind : List SegmentPlan
  pagesBefore : Nat
  pagesBehind : Nat
  /-- Address of `home`, from the image's base. -/
  homeOffset : UInt64
  blobOffset : Nat
  imports : List ImportDraft
  slots : List (Nat × SlotDraft)

namespace PagePlan

def segments (p : PagePlan) : List SegmentPlan := p.before ++ p.home :: p.behind

def pageOffset (p : PagePlan) : Nat := p.home.fileOffset.toNat + p.pagesBefore * 0x4000

def pageStarts (p : PagePlan) : List UInt16 :=
  List.replicate p.pagesBefore noStart ++
    SlotDraft.start p.slots :: List.replicate p.pagesBehind noStart

def starts (p : PagePlan) : SegmentStarts :=
  .plain .ptr64 p.before.length p.homeOffset p.pageStarts

def blob (p : PagePlan) : List UInt8 :=
  ChainDraft.encode ⟨p.segments.length, [p.starts], p.imports⟩

def draft (p : PagePlan) : ImageDraft :=
  let empty : ImageDraft := {
    bits := .bits64, cpuType := p.cpuType, subtype := p.subtype, fileType := p.fileType }
  let written := (p.segments.foldl SegmentPlan.add empty).writeWords p.pageOffset
    (SlotDraft.linked p.slots)
  written.addChainedFixups p.blobOffset p.blob

def frontSize (p : PagePlan) : Nat := 48 + 72 * p.segments.length

/-- The slots and imports fit in their words, and the page, the blob and the front of the image
    stand apart. -/
structure Sound (p : PagePlan) : Prop where
  segments : ∀ s ∈ p.segments, s.Sound
  slots : SlotDraft.Ordered p.imports.length p.slots
  imports : p.imports.length < 2 ^ 24
  pool : (ChainDraft.symbolPool p.imports).length < 2 ^ 23
  symbols : ∀ i ∈ p.imports, '\x00' ∉ i.symbol.toList
  pages : p.pagesBefore + 1 + p.pagesBehind < 2 ^ 16
  room : (p.pagesBefore + 1) * 0x4000 ≤ p.home.fileSize.toNat
  front : p.frontSize ≤ p.pageOffset ∧ p.frontSize ≤ p.blobOffset
  apart : p.pageOffset + 0x4000 ≤ p.blobOffset ∨ p.blobOffset + p.blob.length ≤ p.pageOffset
  blob : p.blobOffset < 2 ^ 32

variable {p : PagePlan}

theorem foldl_add (segments : List SegmentPlan) (d : ImageDraft) :
    segments.foldl SegmentPlan.add d = { d with
      segments := d.segments ++ segments.map SegmentPlan.segment
      contents := (segments.foldl SegmentPlan.add d).contents } := by
  induction segments generalizing d with
  | nil => simp
  | cons s segments ih =>
    rw [List.foldl_cons, ih]
    simp [SegmentPlan.add, ImageDraft.addSegment, SegmentPlan.segment]

theorem draft_eq (p : PagePlan) : p.draft = {
    bits := .bits64, cpuType := p.cpuType, subtype := p.subtype, fileType := p.fileType
    segments := p.segments.map SegmentPlan.segment
    commands := [.chainedFixups (ImageDraft.rangeOf p.blobOffset p.blob)]
    contents := p.draft.contents } := by
  simp only [draft, ImageDraft.addChainedFixups, ImageDraft.addCommand, ImageDraft.write]
  rw [ImageDraft.writeWords_eq, foldl_add]
  simp

def items (p : PagePlan) : List (List UInt8 × Command) :=
  (p.segments.map fun s => (s.segment.encode .little .bits64, .segment .bits64 s.segment)) ++
    [(DraftCommand.encode .little .bits64
        (.chainedFixups (ImageDraft.rangeOf p.blobOffset p.blob)),
      .linkedit .chainedFixups (ImageDraft.rangeOf p.blobOffset p.blob))]

theorem map_fst_items (p : PagePlan) : p.items.map Prod.fst = p.draft.encodedCommands := by
  rw [draft_eq, items]
  simp [ImageDraft.encodedCommands, Function.comp_def]

theorem segments_items (p : PagePlan) :
    (p.items.map Prod.snd).filterMap Command.segment? = p.segments.map SegmentPlan.segment := by
  rw [items, List.map_append, List.filterMap_append, List.map_map, List.filterMap_map]
  simp [Function.comp_def, Command.segment?]

theorem length_commands (p : PagePlan) :
    p.draft.encodedCommands.flatten.length = 16 + 72 * p.segments.length := by
  have hsegment (s : SegmentPlan) : (s.segment.encode .little .bits64).length = 72 :=
    Segment.length_encode ..
  rw [← map_fst_items, items]
  simp only [List.map_append, List.map_map, Function.comp_def, List.map_cons, List.map_nil,
    List.flatten_append, List.flatten_cons, List.flatten_nil, List.append_nil, List.length_append,
    List.length_flatten, hsegment, List.map_const', List.sum_replicate_nat,
    Command.length_chainedFixups]
  omega

theorem length_front (p : PagePlan) : p.draft.front.length = p.frontSize := by
  have hbits : p.draft.bits = .bits64 := by rw [draft_eq]
  rw [ImageDraft.front, List.length_append, ImageDraft.length_header, length_commands, hbits,
    frontSize, Header.sizeFor]
  omega

def loaded (p : PagePlan) : Slice := p.draft.loaded (p.items.map Prod.snd)

theorem load_build (h : p.Sound) : Slice.load ⟨p.draft.build.toArray⟩ none = .ok p.loaded := by
  have horder : p.draft.order = .little := by rw [draft_eq]
  have hfront := h.front.2
  have hblob := h.blob
  rw [frontSize] at hfront
  have hcount : p.items.length = p.segments.length + 1 := by
    rw [items, List.length_append, List.length_map, List.length_singleton]
  have hspells : ∀ x ∈ p.items, Spells p.draft.order x.1 x.2 := by
    intro x hx
    rw [horder]
    rcases List.mem_append.1 hx with hsegment | hlast
    · obtain ⟨s, hs, rfl⟩ := List.mem_map.1 hsegment
      exact Command.spells_segment (h.segments s hs).fits
    · rw [List.mem_singleton.1 hlast]
      exact Command.spells_chainedFixups ..
  refine p.draft.load_build p.map_fst_items hspells ?_ ?_ ?_
  · omega
  · rw [length_commands]
    omega
  · rw [segments_items]
    refine Slice.checkSegments_eq_ok fun s hs => ?_
    have hmem : s ∈ p.draft.segments := by rwa [draft_eq]
    obtain ⟨plan, hplan, rfl⟩ := List.mem_map.1 hs
    exact Segment.check_eq_ok (h.segments plan hplan).fileEnd (h.segments plan hplan).addressEnd
      (p.draft.fileEnd_le_build hmem) rfl

def reader (p : PagePlan) : Reader := .ofList .little p.draft.build

theorem contents_draft (p : PagePlan) : ∃ d : ImageDraft, d.order = .little ∧
    p.draft.contents = Bytes.overlay
      (d.writeWords p.pageOffset (SlotDraft.linked p.slots)).contents p.blobOffset p.blob := by
  refine ⟨_, ?_, rfl⟩
  rw [foldl_add]

theorem has_blob (h : p.Sound) : p.reader.Has p.blobOffset p.blob := by
  obtain ⟨d, -, hd⟩ := p.contents_draft
  refine p.draft.holds_build (hd ▸ Holds.overlay ..) ?_
  rw [length_front]
  exact h.front.2

theorem has_word (h : p.Sound) {x : Nat × UInt64} (hx : x ∈ SlotDraft.linked p.slots) :
    p.reader.Has (p.pageOffset + x.1) (ByteOrder.little.bytes 8 x.2.toNat) := by
  obtain ⟨d, horder, hd⟩ := p.contents_draft
  have hin : x.1 + 8 ≤ 0x4000 := by
    have hmem := List.mem_map_of_mem (f := Prod.fst) hx
    rw [SlotDraft.map_fst_linked] at hmem
    obtain ⟨y, hy, hxy⟩ := List.mem_map.1 hmem
    exact hxy ▸ h.slots.inPage y hy
  have hword : Holds (d.writeWords p.pageOffset (SlotDraft.linked p.slots)).contents
      (p.pageOffset + x.1) (ByteOrder.little.bytes 8 x.2.toNat) := by
    rw [← horder]
    exact ImageDraft.holds_writeWords h.slots.linked_apart hx
  refine p.draft.holds_build ?_ ?_
  · rw [hd]
    refine hword.overlay_apart ?_
    rw [ByteOrder.bytes_length]
    have hapart := h.apart
    omega
  · rw [length_front]
    have hfront := h.front.1
    omega

theorem length_pageStarts (p : PagePlan) :
    p.pageStarts.length = p.pagesBefore + 1 + p.pagesBehind := by
  rw [pageStarts, List.length_append, List.length_replicate, List.length_cons,
    List.length_replicate]
  omega

theorem plain_starts (h : p.Sound) : p.starts.Plain where
  pageSize := show (0x4000 : UInt16) ≠ 0 by decide
  format := rfl
  pageCount := by
    have hpages := h.pages
    have hlen := p.length_pageStarts
    change (UInt16.ofNat p.pageStarts.length).toNat = p.pageStarts.length
    rw [UInt16.toNat_ofNat', Nat.mod_eq_of_lt (by omega)]

theorem length_blob (h : p.Sound) : p.blob.length < 2 ^ 32 := by
  -- The front stands before the blob, which bounds the number of segments; all else is bounded too.
  have hlen := ChainDraft.length_encode ⟨p.segments.length, [p.starts], p.imports⟩
  have htable := ChainDraft.length_encodeStartsTable_le p.segments.length p.starts p.imports
  have hfront := h.front.2
  have hblob := h.blob
  have himports := h.imports
  have hpool := h.pool
  have hpages := h.pages
  have hstarts : p.starts.pageStarts.length = _ := p.length_pageStarts
  rw [frontSize] at hfront
  simp only [ChainDraft.symbolsOffset, ChainDraft.importsOffset, ChainDraft.headerSize] at hlen
  rw [blob, hlen]
  omega

def base (p : PagePlan) : UInt64 := preferredBase (p.segments.map SegmentPlan.segment)

def walk (p : PagePlan) : PageWalk where
  image := p.reader
  base := p.base
  importCount := p.imports.length
  segment := p.home.segment
  starts := p.starts
  page := p.pagesBefore

theorem slot_walk (p : PagePlan) (offset : Nat) : p.walk.slot offset = p.pageOffset + offset := rfl

def visits (p : PagePlan) : List ChainVisit := SlotDraft.visits p.walk p.slots

theorem read_visits (h : p.Sound) : ∀ v ∈ p.visits, v.Read := by
  intro v hv
  obtain ⟨x, hx, rfl⟩ := List.mem_map.1 hv
  have hword := (has_word h hx).number
  refine map_eq_ok.2 ⟨_, hword, ?_⟩
  refine UInt64.toNat.inj ?_
  simp

theorem sound_visits (h : p.Sound) : ∀ v ∈ p.visits, v.Sound := by
  intro v hv
  obtain ⟨x, hx, hwalk, hoffset, hentry⟩ := h.slots.exists_of_mem_visits rfl h.imports hv
  have hin := h.slots.inPage x hx
  have hslot : v.slot = p.pageOffset + x.1 := by
    rw [ChainVisit.slot, hwalk, slot_walk, hoffset]
  refine ⟨?_, ?_, ?_⟩
  · rw [ChainVisit.format, hoffset, hwalk]
    exact hin
  · have hroom := h.room
    rw [hslot, hwalk, Segment.fileEnd, pageOffset]
    change p.home.fileOffset.toNat ≤ _ ∧ _ < p.home.fileOffset.toNat + p.home.fileSize.toNat
    omega
  · -- Only a slot that was written as a bind is read as one.
    intro ordinal addend signing hbind
    have hfits := h.slots.fits x hx
    rw [hentry] at hbind
    rw [hwalk]
    cases hx2 : x.2 with
    | rebase target =>
      rw [hx2] at hbind
      cases hbind
    | bind number a =>
      rw [hx2] at hbind hfits
      obtain ⟨rfl, -, -⟩ := ChainEntry.bind.inj hbind
      have hnumber : number < p.imports.length := hfits
      rwa [SlotDraft.toNat_number hnumber h.imports]

theorem none_pages {R : UInt16 × Nat → List ChainVisit → Prop}
    (h : ∀ page, R (noStart, page) []) (count first : Nat) :
    Concat R ((List.replicate count noStart).zipIdx first) [] := by
  refine Concat.of_forall_nil fun x hx => ?_
  have hstart := List.eq_of_mem_replicate (List.fst_mem_of_mem_zipIdx hx)
  obtain ⟨start, page⟩ := x
  rw [show start = noStart from hstart]
  exact h page

theorem pagesVisits (h : p.Sound) :
    Concat (fun x : UInt16 × Nat => PageVisits { p.walk with page := x.2 } x.1)
      p.pageStarts.zipIdx p.visits := by
  have hpage : PageVisits p.walk (SlotDraft.start p.slots) p.visits :=
    h.slots.pageVisits rfl h.imports (read_visits h)
  have hnone (page : Nat) : PageVisits { p.walk with page } noStart [] := ⟨[], .none, .nil⟩
  have hbehind := Concat.cons
    (R := fun x : UInt16 × Nat => PageVisits { p.walk with page := x.2 } x.1)
    (a := (SlotDraft.start p.slots, p.pagesBefore)) hpage
    (none_pages hnone p.pagesBehind (p.pagesBefore + 1))
  have hall := (none_pages hnone p.pagesBefore 0).append hbehind
  rw [List.nil_append, List.append_nil] at hall
  rw [pageStarts, List.zipIdx_append, List.zipIdx_cons, List.length_replicate, Nat.zero_add]
  exact hall

theorem imageVisits (h : p.Sound) :
    ImageVisits p.reader (p.segments.map SegmentPlan.segment) p.base p.imports.length [p.starts]
      p.visits := by
  have hhome : (p.segments.map SegmentPlan.segment)[p.starts.segment]? =
      some p.home.segment := by
    simp [segments, starts, SegmentStarts.plain]
  have hsegment : SegmentVisits p.reader (p.segments.map SegmentPlan.segment) p.base
      p.imports.length p.starts p.visits := by
    refine ⟨p.home.segment, hhome, ?_⟩
    rw [(plain_starts h).pageCount, List.take_length]
    exact pagesVisits h
  have hall := Concat.cons hsegment .nil
  rwa [List.append_nil] at hall

theorem walk_eq_ok (h : p.Sound) : ∃ table,
    ChainTable.walk p.reader (p.segments.map SegmentPlan.segment) p.base p.imports.length
      [p.starts] = .ok table ∧ table.Records p.visits :=
  (ChainTable.walk_walks p.reader (p.segments.map SegmentPlan.segment) p.base p.imports.length
    [p.starts]).complete FixupTable.records_empty (imageVisits h) (sound_visits h)
    h.slots.visits_apart

def table (p : PagePlan) (fixups : FixupTable) : ChainTable where
  version := 0
  importsFormat := .plain
  imports := (p.imports.map ImportDraft.chainImport).toArray
  starts := [p.starts]
  fixups

theorem read_blob (h : p.Sound) {fixups : FixupTable}
    (hwalk : ChainTable.walk p.reader (p.segments.map SegmentPlan.segment) p.base p.imports.length
      [p.starts] = .ok fixups) :
    ChainTable.read p.reader (ImageDraft.rangeOf p.blobOffset p.blob)
      (p.segments.map SegmentPlan.segment) p.base = .ok (p.table fixups) := by
  have hoffset : (ImageDraft.rangeOf p.blobOffset p.blob).offset.toNat = p.blobOffset := by
    rw [ImageDraft.rangeOf, UInt32.toNat_ofNat', Nat.mod_eq_of_lt h.blob]
  have hsize : (ImageDraft.rangeOf p.blobOffset p.blob).size.toNat = p.blob.length := by
    rw [ImageDraft.rangeOf, UInt32.toNat_ofNat', Nat.mod_eq_of_lt (length_blob h)]
  have hhome : p.starts.segment < p.segments.length := by
    simp [segments, starts, SegmentStarts.plain]
  have hblob := has_blob h
  rw [← hoffset] at hblob
  exact ChainTable.read_encode rfl hblob hsize (plain_starts h) hhome h.pool h.symbols hwalk

theorem take_segments (p : PagePlan) (f : Fixups) (segments : List SegmentPlan) :
    (segments.map fun s => Command.segment .bits64 s.segment).foldl
      (Fixups.take p.reader .bits64 (p.segments.map SegmentPlan.segment)) f = f := by
  induction segments with
  | nil => rfl
  | cons s segments ih => exact ih

/-- The fixups of the image are read without an error, and are the slots. -/
theorem fixups_loaded (h : p.Sound) : ∃ fixups : FixupTable, fixups.Records p.visits ∧
    p.loaded.fixups = { chains := some (p.table fixups) } := by
  obtain ⟨fixups, hwalk, hrec⟩ := walk_eq_ok h
  refine ⟨fixups, hrec, ?_⟩
  have hread := read_blob h hwalk
  have horder : p.draft.order = .little := by rw [draft_eq]
  have hbits : p.draft.bits = .bits64 := by rw [draft_eq]
  rw [loaded, ImageDraft.loaded]
  simp only [horder, hbits, segments_items]
  change Fixups.read p.reader .bits64 (p.segments.map SegmentPlan.segment) _ = _
  rw [items, List.map_append, List.map_map, Fixups.read, List.foldl_append]
  -- The commands of the segments come first and leave the fixups empty.
  have hsegments := p.take_segments {} p.segments
  simp only [Function.comp_def, hsegments, List.map_cons, List.map_nil, List.foldl_cons,
    List.foldl_nil]
  exact Fixups.take_chainedFixups hread

theorem isNumber_visits (h : p.Sound) {v : ChainVisit} (hv : v ∈ p.visits) :
    v.isNumber = false := by
  obtain ⟨x, -, hwalk, -, -⟩ := h.slots.exists_of_mem_visits rfl h.imports hv
  rw [ChainVisit.isNumber, hwalk]
  cases v.entry with
  | rebase target high8 signing => rfl
  | bind ordinal addend signing => rfl

theorem size_of_records (h : p.Sound) {fixups : FixupTable} (hrec : fixups.Records p.visits) :
    fixups.size = p.slots.length := by
  have hpointers : p.visits.filter (fun v => !v.isNumber) = p.visits := by
    refine List.filter_eq_self.2 fun v hv => ?_
    rw [isNumber_visits h hv]
    rfl
  have hlinked := congrArg List.length (SlotDraft.map_fst_linked p.slots)
  rw [List.length_map, List.length_map] at hlinked
  rw [hrec.count, hpointers, visits, SlotDraft.visits, List.length_map, hlinked]

theorem getElem_of_records (h : p.Sound) {fixups : FixupTable} (hrec : fixups.Records p.visits)
    {x : Nat × SlotDraft} (hx : x ∈ p.slots) :
    ∃ f, fixups[p.pageOffset + x.1]? = some f ∧ f.entry = x.2.entry ∧
      f.target = x.2.entry.address? .ptr64 p.base := by
  obtain ⟨v, hv, hwalk, hoffset, hentry⟩ :=
    h.slots.exists_mem_visits (w := p.walk) rfl h.imports hx
  refine ⟨v.fixup, (hrec.entry _ _).2 ⟨v, hv, isNumber_visits h hv, ?_, rfl⟩, hentry, ?_⟩
  · rw [ChainVisit.slot, hwalk, hoffset, slot_walk]
  · rw [ChainVisit.fixup, ChainVisit.format, hwalk, hentry]
    rfl

theorem mem_iff_of_records (h : p.Sound) {fixups : FixupTable} (hrec : fixups.Records p.visits)
    (offset : Nat) : offset ∈ fixups ↔ ∃ x ∈ p.slots, p.pageOffset + x.1 = offset := by
  rw [Std.TreeMap.mem_iff_isSome_getElem?, Option.isSome_iff_exists]
  constructor
  · rintro ⟨f, hf⟩
    obtain ⟨v, hv, -, hslot, -⟩ := (hrec.entry offset f).1 hf
    obtain ⟨x, hx, hwalk, hoffset, -⟩ := h.slots.exists_of_mem_visits rfl h.imports hv
    refine ⟨x, hx, ?_⟩
    rw [← hslot, ChainVisit.slot, hwalk, hoffset, slot_walk]
  · rintro ⟨x, hx, rfl⟩
    obtain ⟨f, hf, -⟩ := getElem_of_records h hrec hx
    exact ⟨f, hf⟩

theorem resolve_rebase (h : p.Sound) {fixups : FixupTable} (hrec : fixups.Records p.visits)
    {offset : Nat} {target : UInt64} (hx : (offset, .rebase target) ∈ p.slots) (slide : UInt64) :
    (p.table fixups).resolve? (p.pageOffset + offset) slide = some (.address (target + slide)) := by
  obtain ⟨f, hf, hentry, htarget⟩ := getElem_of_records h hrec hx
  -- Targets of this format are addresses already, so the base does not count.
  have haddress : f.target = some target := by
    rw [htarget]
    simp [SlotDraft.entry, ChainEntry.address?, PointerFormat.targetIsOffset]
  simp only [ChainTable.resolve?, table, hf, hentry, SlotDraft.entry, haddress, bind, Option.bind]
  rfl

theorem resolve_bind (h : p.Sound) {fixups : FixupTable} (hrec : fixups.Records p.visits)
    {offset number : Nat} {addend : UInt8} (hx : (offset, .bind number addend) ∈ p.slots)
    (slide : UInt64) : ∃ i, p.imports[number]? = some i ∧
      (p.table fixups).resolve? (p.pageOffset + offset) slide =
        some (.symbol ⟨i.symbol, i.library, i.weak, Int64.ofNat addend.toNat⟩) := by
  obtain ⟨f, hf, hentry, -⟩ := getElem_of_records h hrec hx
  have hnumber : number < p.imports.length := h.slots.fits _ hx
  have hi := List.getElem?_eq_getElem hnumber
  refine ⟨_, hi, ?_⟩
  have himport : (p.table fixups).imports[(UInt32.ofNat number).toNat]? =
      some (p.imports[number].chainImport) := by
    rw [SlotDraft.toNat_number hnumber h.imports]
    simp [table, hi]
  simp only [ChainTable.resolve?, hentry, SlotDraft.entry, himport, bind, Option.bind,
    show (p.table fixups).fixups[p.pageOffset + offset]? = some f from hf]
  simp [ImportDraft.chainImport]

/-- Loading the image gives its imports and slots back and nothing else. A slide moves the
    addresses, and leaves the symbols as they are. -/
theorem load_resolves_slots (p : PagePlan) (h : p.Sound) :
    ∃ s t, Slice.load ⟨p.draft.build.toArray⟩ none = .ok s ∧
      s.fixups.errors = [] ∧ s.fixups.chains = some t ∧
      t.imports = (p.imports.map ImportDraft.chainImport).toArray ∧
      t.fixups.size = p.slots.length ∧
      (∀ offset, offset ∈ t.fixups ↔ ∃ x ∈ p.slots, p.pageOffset + x.1 = offset) ∧
      (∀ slide offset target, (offset, .rebase target) ∈ p.slots →
        s.resolve (p.pageOffset + offset) slide = .ok (.address (target + slide))) ∧
      (∀ slide offset number addend, (offset, .bind number addend) ∈ p.slots →
        ∃ i, p.imports[number]? = some i ∧ s.resolve (p.pageOffset + offset) slide =
          .ok (.symbol ⟨i.symbol, i.library, i.weak, Int64.ofNat addend.toNat⟩)) ∧
      (∀ slide offset, offset ∉ t.fixups → s.resolve offset slide =
        (s.reader.pointer .bits64 offset).map fun raw =>
          if raw = 0 then .null else .address (raw + slide)) := by
  obtain ⟨fixups, hrec, hfixups⟩ := fixups_loaded h
  have hbits : p.loaded.bits = .bits64 := by
    rw [Slice.bits, loaded, ImageDraft.loaded, ImageDraft.builtHeader, draft_eq]
  refine ⟨p.loaded, p.table fixups, load_build h, ?_, ?_, rfl, size_of_records h hrec,
    mem_iff_of_records h hrec, ?_, ?_, ?_⟩
  · rw [hfixups]
  · rw [hfixups]
  · intro slide offset target hx
    rw [Slice.resolve, hfixups]
    exact Fixups.resolve_of_chains rfl (resolve_rebase h hrec hx slide)
  · intro slide offset number addend hx
    obtain ⟨i, hi, hvalue⟩ := resolve_bind h hrec hx slide
    rw [Slice.resolve, hfixups]
    exact ⟨i, hi, Fixups.resolve_of_chains rfl hvalue⟩
  · intro slide offset hfree
    have hnone : (p.table fixups).resolve? offset slide = none := by
      rw [ChainTable.resolve?, Std.TreeMap.getElem?_eq_none hfree]
      rfl
    rw [Slice.resolve, hfixups, hbits]
    exact Fixups.resolve_of_free rfl hnone Std.TreeMap.getElem?_emptyc

/-- Three segments, and two slots in the second page of the one in the middle. -/
def samplePage : PagePlan where
  cpuType := Cpu.arm64
  subtype := 0
  fileType := 2
  before := [⟨"__TEXT", 0x100000000, 0x4000, 0, 0x4000, 1⟩]
  home := ⟨"__DATA", 0x100004000, 0xC000, 0x4000, 0xC000, 3⟩
  behind := [⟨"__LINKEDIT", 0x100010000, 0x1000, 0x10000, 0x1000, 1⟩]
  pagesBefore := 1
  pagesBehind := 1
  homeOffset := 0x4000
  blobOffset := 0x10000
  imports := [⟨"_puts", 1, false⟩, ⟨"_größe", 0xFE, true⟩]
  slots := [(12, .rebase 0x100004000), (0x20, .bind 1 7)]

theorem sound_samplePage : samplePage.Sound where
  segments := by
    have names : NameFits "__TEXT" ∧ NameFits "__DATA" ∧ NameFits "__LINKEDIT" := by
      unfold NameFits
      decide
    intro s hs
    simp only [samplePage, segments, List.cons_append, List.nil_append, List.mem_cons,
      List.not_mem_nil, or_false] at hs
    rcases hs with rfl | rfl | rfl
    · exact ⟨names.1, by decide, by decide⟩
    · exact ⟨names.2.1, by decide, by decide⟩
    · exact ⟨names.2.2, by decide, by decide⟩
  slots := by
    refine ⟨by decide, by decide, by decide, fun x hx => ?_⟩
    simp only [samplePage, List.mem_cons, List.not_mem_nil, or_false] at hx
    rcases hx with rfl | rfl
    · exact show (0x100004000 : UInt64).toNat < 2 ^ 36 by decide
    · exact show 1 < 2 by decide
  imports := by decide
  pool := by decide
  symbols := by decide
  pages := by decide
  room := by decide
  front := by decide
  apart := .inl (by decide)
  blob := by decide

theorem load_resolves_samplePage : samplePage.Sound ∧
    ∃ s, Slice.load ⟨samplePage.draft.build.toArray⟩ none = .ok s ∧ s.fixups.errors = [] ∧
      ∀ slide, s.resolve 0x800C slide = .ok (.address (0x100004000 + slide)) ∧
        s.resolve 0x8020 slide = .ok (.symbol ⟨"_größe", -2, true, 7⟩) := by
  obtain ⟨s, t, hload, herrors, -, -, -, -, hrebase, hbind, -⟩ :=
    load_resolves_slots samplePage sound_samplePage
  refine ⟨sound_samplePage, s, hload, herrors, fun slide => ⟨?_, ?_⟩⟩
  · exact hrebase slide 12 0x100004000 (by decide)
  · obtain ⟨i, hi, hvalue⟩ := hbind slide 0x20 1 7 (by decide)
    obtain rfl : (⟨"_größe", 0xFE, true⟩ : ImportDraft) = i := Option.some.inj hi
    exact hvalue

end PagePlan

end ObjcAtlas
