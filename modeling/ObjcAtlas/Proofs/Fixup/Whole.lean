import ObjcAtlas.Fixup.Draft
import ObjcAtlas.Proofs.Fixup.Revisit
import ObjcAtlas.Proofs.Report.Fixups

set_option autoImplicit false

namespace ObjcAtlas

/-- The segment's file data holds a slot of `size` bytes at the offset. -/
def Segment.HoldsSlot (t : Segment) (offset size : Nat) : Prop :=
  t.fileOffset.toNat ≤ offset ∧ offset + size ≤ t.fileEnd

theorem unit_le_of_dvd {unit total : Nat} (index : Nat) (hd : unit ∣ total)
    (h : index * unit < total) : index * unit + unit ≤ total := by
  obtain ⟨count, rfl⟩ := hd
  rw [Nat.mul_comm index] at h
  have hlt : index < count := Nat.lt_of_mul_lt_mul_left h
  calc index * unit + unit = unit * (index + 1) := by rw [← Nat.succ_mul, Nat.mul_comm]
    _ ≤ unit * count := Nat.mul_le_mul_left unit hlt

namespace ChainVisit

variable {v : ChainVisit}

theorem Read.le_size (h : v.Read) : v.slot + v.format.entrySize ≤ v.walk.image.size := by
  obtain ⟨n, hn, -⟩ := map_eq_ok.1 h
  obtain ⟨found, hfound, -⟩ := map_eq_ok.1 hn
  exact (Reader.le_of_slice hfound).1

/-- A slot of a page that the segment's file data does not cut is whole. -/
theorem Sound.holdsSlot (h : v.Sound)
    (hd : v.walk.starts.pageSize.toNat ∣ v.walk.segment.fileSize.toNat) :
    v.walk.segment.HoldsSlot v.slot v.format.entrySize := by
  have hpage := h.inPage
  obtain ⟨hlow, hhigh⟩ := h.inSegment
  refine ⟨hlow, ?_⟩
  rw [Segment.fileEnd] at hhigh ⊢
  rw [slot, PageWalk.slot] at hhigh ⊢
  have hend := unit_le_of_dvd v.walk.page hd (by omega)
  omega

end ChainVisit

namespace Fixups

variable {image : Reader} {bits : Bitness} {segments : List Segment} {t : ChainTable}

theorem exists_read_of_chains {commands : List Command}
    (h : (read image bits segments commands).chains = some t) :
    ∃ range, ChainTable.read image range segments (preferredBase segments) = .ok t := by
  have hall (rest : List Command) (f : Fixups)
      (hf : f.chains = some t →
        ∃ range, ChainTable.read image range segments (preferredBase segments) = .ok t)
      (ht : (rest.foldl (take image bits segments) f).chains = some t) :
      ∃ range, ChainTable.read image range segments (preferredBase segments) = .ok t := by
    induction rest generalizing f with
    | nil => exact hf ht
    | cons c rest ih =>
      refine ih _ ?_ ht
      unfold take
      split
      · split
        next table hread =>
          intro hsome
          obtain rfl := Option.some.inj hsome
          exact ⟨_, hread⟩
        next => exact hf
      · split
        next => exact hf
        next => exact hf
      · exact hf
  exact hall commands {} nofun h

end Fixups

namespace Slice

variable {s : Slice} {bytes : ByteArray} {selector : Option ArchSelector} {offset : Nat}

theorem exists_read_of_chains {table : ChainTable} (h : load bytes selector = .ok s)
    (ht : s.fixups.chains = some table) :
    ∃ range, ChainTable.read s.reader range s.segments (preferredBase s.segments) = .ok table := by
  rw [fixups_of_load h] at ht
  exact Fixups.exists_read_of_chains ht

theorem holdsSlot_of_dvd {t : Segment} {size : Nat} (h : t.hasOffset offset = true)
    (hplace : size ∣ offset - t.fileOffset.toNat) (hd : size ∣ t.fileSize.toNat) :
    t.HoldsSlot offset size := by
  rw [Segment.hasOffset_iff, Segment.fileEnd] at h
  obtain ⟨index, hindex⟩ := hplace
  rw [Nat.mul_comm] at hindex
  have hend := unit_le_of_dvd index hd (by omega)
  rw [Segment.HoldsSlot, Segment.fileEnd]
  omega

/-- In an image that can be read, every recorded slot starts in the file data of a segment. A slot
    of a chain is that of the segment its starts name, ends in the same page, and in the image; it
    is whole if the file data ends with a page. A bound slot is whole if it stands at a multiple of
    the pointer size in file data that is a multiple of it, too. -/
theorem recorded_slots_of_load (hload : load bytes selector = .ok s) :
    (∀ table, s.fixups.chains = some table → ∀ offset f, table.fixups[offset]? = some f →
      ∃ starts ∈ table.starts, ∃ t, s.segments[starts.segment]? = some t ∧
        f.format = starts.format ∧ t.hasOffset offset = true ∧
        offset + f.format.entrySize ≤ s.reader.size ∧
        (∃ page, t.fileOffset.toNat + page * starts.pageSize.toNat ≤ offset ∧
          offset + f.format.entrySize ≤
            t.fileOffset.toNat + (page + 1) * starts.pageSize.toNat) ∧
        (starts.pageSize.toNat ∣ t.fileSize.toNat → t.HoldsSlot offset f.format.entrySize)) ∧
    ∀ offset ∈ s.fixups.binds, ∃ t ∈ s.segments, t.hasOffset offset = true ∧
      (s.bits.pointerSize ∣ offset - t.fileOffset.toNat →
        s.bits.pointerSize ∣ t.fileSize.toNat → t.HoldsSlot offset s.bits.pointerSize) := by
  constructor
  · intro table htable offset f hf
    obtain ⟨range, hread⟩ := exists_read_of_chains hload htable
    have hwalks := ChainTable.walk_walks s.reader s.segments (preferredBase s.segments)
      table.imports.size table.starts
    obtain ⟨vs, hvisits, hsound, hrecords⟩ :=
      hwalks.sound FixupTable.records_empty (ChainTable.of_read hread).1
    obtain ⟨v, hv, -, rfl, rfl⟩ := (hrecords.entry offset f).1 hf
    have hbelongs := belongs_of_imageVisits hvisits v hv
    have hs := hsound v hv
    have hsize := hbelongs.read.le_size
    rw [hbelongs.walk] at hsize
    refine ⟨v.walk.starts, hbelongs.starts, v.walk.segment, hbelongs.segment, rfl,
      Segment.hasOffset_iff.2 hs.inSegment, hsize, ⟨v.walk.page, ?_⟩, hs.holdsSlot⟩
    have hpage : v.offset + v.fixup.format.entrySize ≤ v.walk.starts.pageSize.toNat := hs.inPage
    rw [ChainVisit.slot, PageWalk.slot, Nat.succ_mul]
    omega
  · intro offset ho
    obtain ⟨t, ht, hin⟩ := (located_of_load hload).binds offset ho
    exact ⟨t, ht, hin, holdsSlot_of_dvd hin⟩

def edgeStarts : SegmentStarts where
  segment := 0
  pageSize := 0x10
  format := .ptr64
  segmentOffset := 0
  maxValidPointer := 0
  pageCount := 1
  pageStarts := [8]

def edgeBlob : List UInt8 := ChainDraft.encode { segmentCount := 1, starts := [edgeStarts] }

def edgeProgram (place : UInt8) : List UInt8 := [0x40, 0x5F, 0x61, 0, 0x70, place, 0x90, 0]

def edgeDraft (fileSize : UInt64) (place : UInt8) : ImageDraft :=
  let empty : ImageDraft := { bits := .bits64, cpuType := Cpu.arm64 }
  ((empty.addSegment "__DATA" 0x1000 0x1000 0xA8 fileSize 3).addChainedFixups 0xB8
    edgeBlob).addBindProgram 0xFC (edgeProgram place)

namespace edgeDraft

def segment (fileSize : UInt64) : Segment :=
  SegmentPlan.segment ⟨"__DATA", 0x1000, 0x1000, 0xA8, fileSize, 3⟩

def items (fileSize : UInt64) (place : UInt8) : List (List UInt8 × Command) :=
  let chains := ImageDraft.rangeOf 0xB8 edgeBlob
  let binds := ImageDraft.rangeOf 0xFC (edgeProgram place)
  [((segment fileSize).encode .little .bits64, .segment .bits64 (segment fileSize)),
    (DraftCommand.encode .little .bits64 (.chainedFixups chains), .linkedit .chainedFixups chains),
    (DraftCommand.encode .little .bits64 (.bindProgram binds),
      .dyldInfo true ⟨⟨0, 0⟩, binds, ⟨0, 0⟩, ⟨0, 0⟩, ⟨0, 0⟩⟩)]

def slice (fileSize : UInt64) (place : UInt8) : Slice :=
  (edgeDraft fileSize place).loaded ((items fileSize place).map Prod.snd)

theorem load_build (fileSize : UInt64) (place : UInt8) (h : fileSize.toNat < 2 ^ 32) :
    load ⟨(edgeDraft fileSize place).build.toArray⟩ none = .ok (slice fileSize place) := by
  have hname : NameFits "__DATA" := by
    unfold NameFits
    decide
  have hfits : (segment fileSize).Fits .bits64 :=
    ⟨hname, nofun, nofun, nofun, nofun, nofun, (by decide : 72 < 2 ^ 32)⟩
  have hend : (segment fileSize).fileEnd = 0xA8 + fileSize.toNat := rfl
  refine ImageDraft.load_build _ rfl ?_ (by decide : 3 < 2 ^ 32) ?_ ?_
  · intro x hx
    simp only [items, List.mem_cons, List.not_mem_nil, or_false] at hx
    rcases hx with rfl | rfl | rfl
    · exact Command.spells_segment hfits
    · exact Command.spells_chainedFixups _ _ _
    · exact Command.spells_bindProgram _ _ _
  · have hlengths : (edgeDraft fileSize place).encodedCommands.map List.length = [72, 16, 48] := by
      change (items fileSize place).map (fun x => x.1.length) = _
      simp only [items, List.map_cons, List.map_nil, Segment.length_encode,
        Command.length_chainedFixups, Command.length_bindProgram]
      rfl
    rw [List.length_flatten, hlengths]
    decide
  · apply checkSegments_eq_ok
    intro t ht
    obtain rfl := List.mem_singleton.1 ht
    have hsize : UInt64.size = 2 ^ 64 := rfl
    refine Segment.check_eq_ok (by omega) (by decide : 0x1000 + 0x1000 < 2 ^ 64) ?_ rfl
    exact ImageDraft.fileEnd_le_build _ List.mem_cons_self

end edgeDraft

/-- What an image says of its slots: the starts of its chains, the chained slots with their formats,
    and the bound slots. -/
def slots? (s : Slice) : Option (List SegmentStarts × List (Nat × PointerFormat) × List Nat) :=
  s.fixups.chains.map fun t =>
    (t.starts, t.fixups.toList.map fun x => (x.1, x.2.format), s.fixups.binds.keys)

theorem of_slots? {starts : SegmentStarts} {format : PointerFormat} {chained bound : Nat}
    (h : slots? s = some ([starts], [(chained, format)], [bound])) :
    ∃ table f, s.fixups.chains = some table ∧ table.starts = [starts] ∧
      table.fixups[chained]? = some f ∧ f.format = format ∧ bound ∈ s.fixups.binds := by
  obtain ⟨table, htable, hslots⟩ := Option.map_eq_some_iff.1 h
  obtain ⟨hstarts, hrest⟩ := Prod.mk.inj hslots
  obtain ⟨hchained, hbinds⟩ := Prod.mk.inj hrest
  have hmem : (chained, format) ∈ table.fixups.toList.map fun x => (x.1, x.2.format) := by
    rw [hchained]
    exact List.mem_cons_self
  obtain ⟨x, hx, hpair⟩ := List.mem_map.1 hmem
  obtain ⟨rfl, rfl⟩ := Prod.mk.inj hpair
  refine ⟨table, x.2, htable, hstarts, Std.TreeMap.mem_toList_iff_getElem?_eq_some.1 hx, rfl, ?_⟩
  apply Std.TreeMap.mem_keys.1
  rw [hbinds]
  exact List.mem_cons_self

theorem slots?_edgeDraft :
    slots? (edgeDraft.slice 0x10 8) = some ([edgeStarts], [(0xB0, .ptr64)], [0xB0]) := by
  decide +kernel

theorem recorded_slots_edgeDraft :
    ∃ s table f, load ⟨(edgeDraft 0x10 8).build.toArray⟩ none = .ok s ∧
      s.fixups.chains = some table ∧ table.fixups[0xB0]? = some f ∧ 0xB0 ∈ s.fixups.binds ∧
      ∃ t ∈ s.segments, t.HoldsSlot 0xB0 f.format.entrySize ∧
        t.HoldsSlot 0xB0 s.bits.pointerSize := by
  have hload := edgeDraft.load_build 0x10 8 (by decide)
  obtain ⟨table, f, htable, hstarts, hf, -, hbound⟩ := of_slots? slots?_edgeDraft
  obtain ⟨hchained, hbinds⟩ := recorded_slots_of_load hload
  obtain ⟨starts, hmem, t, ht, -, -, -, -, hwhole⟩ := hchained table htable 0xB0 f hf
  obtain ⟨u, hu, -, hwhole'⟩ := hbinds 0xB0 hbound
  rw [hstarts] at hmem
  obtain rfl := List.mem_singleton.1 hmem
  obtain rfl := List.mem_singleton.1 (List.mem_of_getElem? ht)
  obtain rfl := List.mem_singleton.1 hu
  exact ⟨_, table, f, hload, htable, hf, hbound, _, List.mem_cons_self, hwhole (by decide),
    hwhole' (by decide) (by decide)⟩

/-- With twelve bytes of file data, both slots are recorded and run past them. -/
theorem recorded_slots_cut_edgeDraft :
    ∃ s table f, load ⟨(edgeDraft 0xC 0xB).build.toArray⟩ none = .ok s ∧
      s.fixups.chains = some table ∧ table.fixups[0xB0]? = some f ∧ 0xB3 ∈ s.fixups.binds ∧
      ∀ t ∈ s.segments, ¬ t.HoldsSlot 0xB0 f.format.entrySize ∧
        ¬ t.HoldsSlot 0xB3 s.bits.pointerSize := by
  have hload := edgeDraft.load_build 0xC 0xB (by decide)
  have hslots : slots? (edgeDraft.slice 0xC 0xB) =
      some ([edgeStarts], [(0xB0, .ptr64)], [0xB3]) := by decide +kernel
  obtain ⟨table, f, htable, -, hf, hformat, hbound⟩ := of_slots? hslots
  refine ⟨_, table, f, hload, htable, hf, hbound, ?_⟩
  intro t ht
  obtain rfl := List.mem_singleton.1 ht
  rw [hformat]
  simp only [Segment.HoldsSlot]
  decide

end Slice

end ObjcAtlas
