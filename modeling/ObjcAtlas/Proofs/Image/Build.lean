import ObjcAtlas.Proofs.Image.Commands

set_option autoImplicit false

namespace ObjcAtlas

theorem Reader.Has.first {r : Reader} {order : ByteOrder} {n : UInt32}
    (h : r.Has 0 (order.half n)) (o : ByteOrder) :
    Magic.first o r.bytes = UInt32.ofNat (o.value (order.half n)) := by
  have hlen := h.length_le
  have hslice := h.slice
  rw [ByteOrder.half, ByteOrder.bytes_length] at hlen hslice
  rw [← Reader.size_eq_length] at hlen
  have hsize : 4 ≤ r.bytes.size := hlen
  rw [Reader.slice, if_pos hlen, Nat.zero_add] at hslice
  rw [Magic.first, if_neg (Nat.not_lt.2 hsize), Except.ok.inj hslice]
  rfl

theorem classify_image (order : ByteOrder) (bits : Bitness) :
    Magic.classify (UInt32.ofNat (ByteOrder.little.value (order.half (Magic.image bits)))) =
      some (bits, order) := by
  cases order <;> cases bits <;> decide

theorem not_universal_image (order : ByteOrder) (bits : Bitness) :
    Magic.classifyUniversal (UInt32.ofNat (ByteOrder.big.value (order.half (Magic.image bits)))) =
      none := by
  cases order <;> cases bits <;> decide

namespace ImageDraft

variable (d : ImageDraft)

def builtHeader (count size : Nat) : Header where
  magic := UInt32.ofNat (ByteOrder.little.value (d.order.half (Magic.image d.bits)))
  bits := d.bits
  order := d.order
  cpuType := d.cpuType
  subtype := d.subtype
  fileType := .ofCode d.fileType
  commandCount := UInt32.ofNat count
  commandsSize := UInt32.ofNat size
  flags := 0

theorem length_header (count size : Nat) :
    (d.header count size).length = Header.sizeFor d.bits := by
  unfold header
  cases d.bits <;> simp [Header.sizeFor, ByteOrder.half, ByteOrder.bytes_length]

theorem header_all {r : Reader} {count size : Nat} (h : r.Has 0 (d.header count size)) :
    r.HasAll 0 [d.order.half (Magic.image d.bits), d.order.half d.cpuType, d.order.half d.subtype,
      d.order.half d.fileType, d.order.bytes 4 count, d.order.bytes 4 size, d.order.bytes 4 0] := by
  refine Reader.Has.all ?_
  have hfields : r.Has 0
      ([Magic.image d.bits, d.cpuType, d.subtype, d.fileType].flatMap d.order.half ++
        [count, size, 0].flatMap (d.order.bytes 4)) := h.append_left
  simpa using hfields

theorem read_header {r : Reader} {count size : Nat} (horder : r.order = d.order)
    (h : r.Has 0 (d.header count size)) : Header.read r.bytes = .ok (d.builtHeader count size) := by
  have hlen := h.length_le
  rw [length_header, Nat.zero_add] at hlen
  have hsize : Header.sizeFor d.bits ≤ r.bytes.size := hlen
  have hleast : 28 ≤ Header.sizeFor d.bits := by cases d.bits <;> decide
  have hall := d.header_all h
  have hmagic := hall.1
  have hreader : (⟨r.bytes, d.order⟩ : Reader) = r := by rw [← horder]
  simp only [Reader.HasAll, ByteOrder.half, ByteOrder.bytes_length, Nat.zero_add, Nat.reduceAdd,
    ← horder] at hall
  obtain ⟨-, h₂, h₃, h₄, h₅, h₆, h₇, -⟩ := hall
  simp only [Header.read, if_neg (Nat.not_lt.2 (Nat.le_trans hleast hsize)), hmagic.first,
    classify_image, if_neg (Nat.not_lt.2 hsize), hreader, h₂.half, h₃.half, h₄.half, h₅.u32, h₆.u32,
    h₇.u32, bind, Except.bind]
  rfl

theorem not_universal {r : Reader} {count size : Nat} (h : r.Has 0 (d.header count size)) :
    isUniversal r.bytes = false := by
  rw [isUniversal, (d.header_all h).1.first, not_universal_image]
  rfl

/-- The image that loading should give when the commands are these. -/
def loaded (commands : List Command) : Slice where
  reader := .ofList d.order d.build
  offset := 0
  header := d.builtHeader d.encodedCommands.length d.encodedCommands.flatten.length
  commands := commands
  segments := commands.filterMap Command.segment?
  fixups := Fixups.read (.ofList d.order d.build) d.bits
    (commands.filterMap Command.segment?) commands

theorem readCommandTable_build {items : List (List UInt8 × Command)}
    (hitems : items.map Prod.fst = d.encodedCommands) (hs : ∀ x ∈ items, Spells d.order x.1 x.2)
    (hcount : items.length < 2 ^ 32) (hsize : d.encodedCommands.flatten.length < 2 ^ 32)
    (htable : (Reader.ofList d.order d.build).Has (Header.sizeFor d.bits)
      d.encodedCommands.flatten) :
    Slice.readCommandTable (.ofList d.order d.build)
      (d.builtHeader d.encodedCommands.length d.encodedCommands.flatten.length) =
        .ok (items.map Prod.snd) := by
  have hlength : items.length = d.encodedCommands.length := by
    rw [← hitems, List.length_map]
  have hsizeNat : (UInt32.ofNat d.encodedCommands.flatten.length).toNat =
      d.encodedCommands.flatten.length := by
    rw [UInt32.toNat_ofNat', Nat.mod_eq_of_lt hsize]
  have hcountNat : (UInt32.ofNat d.encodedCommands.length).toNat = items.length := by
    rw [UInt32.toNat_ofNat', ← hlength, Nat.mod_eq_of_lt hcount]
  have hsub := htable.sub
  simp only [Slice.readCommandTable, Header.size, builtHeader, hsizeNat, hcountNat, hsub, bind,
    Except.bind, Except.mapError]
  refine Slice.readCommands_of_spells hs ?_
  rw [hitems]
  exact Holds.self _

theorem read_build {items : List (List UInt8 × Command)}
    (hitems : items.map Prod.fst = d.encodedCommands) (hs : ∀ x ∈ items, Spells d.order x.1 x.2)
    (hcount : items.length < 2 ^ 32) (hsize : d.encodedCommands.flatten.length < 2 ^ 32)
    (hcheck : Slice.checkSegments d.build.length
      ((items.map Prod.snd).filterMap Command.segment?) = .ok ()) :
    Slice.read ⟨d.build.toArray⟩ 0 = .ok (d.loaded (items.map Prod.snd)) := by
  -- The front of the image: header, then commands.
  have hfront : (Reader.ofList d.order d.build).Has 0 d.front := Holds.overlay ..
  have hread := d.read_header rfl hfront.append_left
  have htable := hfront.append_right
  rw [length_header, Nat.zero_add] at htable
  have hcommands := d.readCommandTable_build hitems hs hcount hsize htable
  refine bind_eq_ok.2 ⟨_, hread, ?_⟩
  refine bind_eq_ok.2 ⟨_, hcommands, ?_⟩
  exact bind_eq_ok.2 ⟨(), hcheck, rfl⟩

/-- Loading a built image gives its commands back, if its segments pass their checks. -/
theorem load_build {items : List (List UInt8 × Command)}
    (hitems : items.map Prod.fst = d.encodedCommands) (hs : ∀ x ∈ items, Spells d.order x.1 x.2)
    (hcount : items.length < 2 ^ 32) (hsize : d.encodedCommands.flatten.length < 2 ^ 32)
    (hcheck : Slice.checkSegments d.build.length
      ((items.map Prod.snd).filterMap Command.segment?) = .ok ()) :
    Slice.load ⟨d.build.toArray⟩ none = .ok (d.loaded (items.map Prod.snd)) := by
  have hfront : (Reader.ofList d.order d.build).Has 0 d.front := Holds.overlay ..
  have hplain : isUniversal ⟨d.build.toArray⟩ = false :=
    d.not_universal (r := .ofList d.order d.build) hfront.append_left
  rw [Slice.load, if_neg (by rw [hplain]; decide)]
  exact bind_eq_ok.2 ⟨_, d.read_build hitems hs hcount hsize hcheck, rfl⟩

theorem length_build : d.build.length =
    max d.front.length (max d.fileEnd d.contents.length) := by
  rw [build, Bytes.length_overlay, Bytes.length_pad, Nat.zero_add]

section

variable {d} (hcommands : d.commands = [])

include hcommands

theorem encodedCommands_of_segments :
    d.encodedCommands = d.segments.map (Segment.encode d.order d.bits) := by
  rw [encodedCommands, hcommands, List.map_nil, List.append_nil]

theorem length_encodedCommands_of_segments : d.encodedCommands.flatten.length =
    (d.segments.map (Segment.commandSize d.bits)).sum := by
  rw [encodedCommands_of_segments hcommands, List.length_flatten, List.map_map]
  exact congrArg List.sum (List.map_congr_left fun s _ => Segment.length_encode d.order d.bits s)

theorem length_front_of_segments : d.front.length =
    Header.sizeFor d.bits + (d.segments.map (Segment.commandSize d.bits)).sum := by
  rw [front, List.length_append, length_header, length_encodedCommands_of_segments hcommands]

/-- An image that is built with segments and nothing else in its command table. -/
theorem load_segments (hfits : ∀ s ∈ d.segments, s.Fits d.bits)
    (hcount : d.segments.length < 2 ^ 32)
    (hsize : (d.segments.map (Segment.commandSize d.bits)).sum < 2 ^ 32)
    (hcheck : Slice.checkSegments d.build.length d.segments = .ok ()) :
    Slice.load ⟨d.build.toArray⟩ none = .ok (d.loaded (d.segments.map (.segment d.bits))) := by
  let items : List (List UInt8 × Command) :=
    d.segments.map fun s => (s.encode d.order d.bits, .segment d.bits s)
  have hcodes : items.map Prod.fst = d.encodedCommands := by
    rw [encodedCommands_of_segments hcommands, List.map_map]
    rfl
  have hread : items.map Prod.snd = d.segments.map (.segment d.bits) := List.map_map
  have hspells : ∀ x ∈ items, Spells d.order x.1 x.2 := by
    intro x hx
    obtain ⟨s, hs, rfl⟩ := List.mem_map.1 hx
    exact Command.spells_segment (hfits s hs)
  have hsegments : (items.map Prod.snd).filterMap Command.segment? = d.segments := by
    rw [hread, List.filterMap_map]
    exact List.filterMap_some
  rw [← hread]
  refine d.load_build hcodes hspells ?_ ?_ ?_
  · rwa [List.length_map]
  · rwa [length_encodedCommands_of_segments hcommands]
  · rwa [hsegments]

end

theorem holds_build {offset : Nat} {part : List UInt8} (h : Holds d.contents offset part)
    (hfront : d.front.length ≤ offset) : Holds d.build offset part :=
  (h.pad d.fileEnd).overlay_apart (.inr (by rwa [Nat.zero_add]))

theorem fileEnd_le_build {s : Segment} (h : s ∈ d.segments) : s.fileEnd ≤ d.build.length := by
  have hend : s.fileEnd ≤ d.fileEnd := List.le_max?_getD_of_mem (List.mem_map_of_mem h)
  rw [length_build]
  omega

theorem length_build_lt {bound : Nat} (hfront : d.front.length < bound)
    (hsegments : ∀ s ∈ d.segments, s.fileEnd < bound) (hcontents : d.contents.length < bound) :
    d.build.length < bound := by
  have hend : d.fileEnd < bound := by
    rw [fileEnd]
    cases hmax : (d.segments.map Segment.fileEnd).max? with
    | none => exact Nat.zero_lt_of_lt hfront
    | some n =>
      obtain ⟨s, hs, rfl⟩ := List.mem_map.1 (List.max?_mem hmax)
      exact hsegments s hs
  rw [length_build]
  omega

theorem length_le_commands {bytes : List UInt8} (h : bytes ∈ d.encodedCommands) :
    bytes.length ≤ d.encodedCommands.flatten.length :=
  (List.sublist_flatten_of_mem h).length_le

def writeWords (base : Nat) (words : List (Nat × UInt64)) : ImageDraft :=
  words.foldl (fun d x => d.writeNumber 8 (base + x.1) x.2.toNat) d

variable {d} {base : Nat} {words : List (Nat × UInt64)}

theorem writeWords_eq : d.writeWords base words =
    { d with contents := (d.writeWords base words).contents } := by
  induction words generalizing d with
  | nil => rfl
  | cons x words ih => exact ih (d := d.writeNumber 8 (base + x.1) x.2.toNat)

theorem holds_writeWords_apart {offset : Nat} {part : List UInt8}
    (h : Holds d.contents offset part)
    (hap : ∀ x ∈ words, offset + part.length ≤ base + x.1 ∨ base + x.1 + 8 ≤ offset) :
    Holds (d.writeWords base words).contents offset part := by
  induction words generalizing d with
  | nil => exact h
  | cons x words ih =>
    obtain ⟨hx, hrest⟩ := List.forall_mem_cons.1 hap
    refine ih (d := d.writeNumber 8 (base + x.1) x.2.toNat) (h.overlay_apart ?_) hrest
    rwa [ByteOrder.bytes_length]

theorem holds_writeWords (hap : words.Pairwise fun x y => x.1 + 8 ≤ y.1) {x : Nat × UInt64}
    (hx : x ∈ words) : Holds (d.writeWords base words).contents (base + x.1)
      (d.order.bytes 8 x.2.toNat) := by
  induction words generalizing d with
  | nil => exact absurd hx nofun
  | cons y words ih =>
    obtain ⟨hy, hrest⟩ := List.pairwise_cons.1 hap
    rcases List.mem_cons.1 hx with rfl | hmem
    · refine holds_writeWords_apart (d := d.writeNumber 8 (base + x.1) x.2.toNat)
        (Holds.overlay ..) fun z hz => .inl ?_
      have hbehind := hy z hz
      rw [ByteOrder.bytes_length]
      omega
    · exact ih (d := d.writeNumber 8 (base + y.1) y.2.toNat) hrest hmem

end ImageDraft

theorem Segment.check_eq_ok {s : Segment} {imageSize : Nat} (hfile : s.fileEnd < UInt64.size)
    (haddress : s.addressEnd < UInt64.size) (himage : s.fileEnd ≤ imageSize)
    (hsections : s.sections.forM (s.checkSection imageSize) = .ok ()) :
    s.check imageSize = .ok () := by
  rw [Segment.check, if_neg (Nat.not_le.2 hfile), if_neg (Nat.not_le.2 haddress),
    if_neg (Nat.not_lt.2 himage)]
  exact hsections

theorem Segment.checkSection_eq_ok {s : Segment} {imageSize : Nat} {t : Section}
    (hstart : s.address ≤ t.address) (hstop : t.address.toNat + t.size.toNat ≤ s.addressEnd)
    (haddress : s.addressEnd < UInt64.size) (himage : imageSize < UInt64.size)
    (hdata : t.isZerofill = false → t.size ≠ 0 → t.offset.toNat + t.size.toNat ≤ imageSize) :
    s.checkSection imageSize t = .ok () := by
  have hnested : ¬ (t.address < s.address ∨ s.addressEnd < t.address.toNat + t.size.toNat) := by
    rintro (hlow | hhigh)
    · exact absurd hlow (UInt64.not_lt.2 hstart)
    · omega
  simp only [checkSection]
  rw [if_neg (by omega), if_neg hnested]
  split
  next hbacked =>
    simp only [Bool.and_eq_true, Bool.not_eq_true', bne_iff_ne] at hbacked
    have hinside := hdata hbacked.1 hbacked.2
    rw [if_neg (by omega), if_neg (by omega)]
    rfl
  next => rfl

theorem Slice.checkSegments_eq_ok {imageSize : Nat} {segments : List Segment}
    (h : ∀ s ∈ segments, s.check imageSize = .ok ()) :
    Slice.checkSegments imageSize segments = .ok () := by
  refine forM_eq_ok fun x hx => ?_
  simp only [h x.1 (List.fst_mem_of_mem_zipIdx hx)]
  rfl

structure SegmentPlan where
  name : String
  address : UInt64
  size : UInt64
  fileOffset : UInt64
  fileSize : UInt64
  protection : UInt32

def SegmentPlan.segment (s : SegmentPlan) : Segment where
  name := s.name
  address := s.address
  size := s.size
  fileOffset := s.fileOffset
  fileSize := s.fileSize
  maxProtection := s.protection
  protection := s.protection
  flags := 0
  sections := []

def SegmentPlan.add (d : ImageDraft) (s : SegmentPlan) : ImageDraft :=
  d.addSegment s.name s.address s.size s.fileOffset s.fileSize s.protection

structure SegmentPlan.Sound (s : SegmentPlan) : Prop where
  name : NameFits s.name
  fileEnd : s.fileOffset.toNat + s.fileSize.toNat < 2 ^ 64
  addressEnd : s.address.toNat + s.size.toNat < 2 ^ 64

end ObjcAtlas
