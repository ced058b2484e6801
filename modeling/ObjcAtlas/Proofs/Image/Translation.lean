import Mathlib.Data.List.Pairwise
import Mathlib.Order.CompletePartialOrder
import Mathlib.Order.Interval.Set.Disjoint
import ObjcAtlas.Image.Draft
import ObjcAtlas.Proofs.Image.Tiling

set_option autoImplicit false

namespace ObjcAtlas

namespace Segment

variable {t : Segment} {address : UInt64} {offset imageSize : Nat}

/-- The address and the offset are equally far from the segment's start, where it has both memory
    and file data. -/
def Maps (t : Segment) (address : UInt64) (offset : Nat) : Prop :=
  ∃ distance < min t.size.toNat t.fileSize.toNat,
    address.toNat = t.address.toNat + distance ∧ offset = t.fileOffset.toNat + distance

def memory (t : Segment) : Set Nat := Set.Ico t.address.toNat t.addressEnd

def fileData (t : Segment) : Set Nat := Set.Ico t.fileOffset.toNat t.fileEnd

theorem bounds_of_check (h : t.check imageSize = .ok ()) :
    t.addressEnd < UInt64.size ∧ t.fileEnd ≤ imageSize := by
  rw [check] at h
  obtain ⟨-, h⟩ := throw_if_eq_ok.1 h
  obtain ⟨haddress, h⟩ := throw_if_eq_ok.1 h
  obtain ⟨hfile, -⟩ := throw_if_eq_ok.1 h
  omega

theorem isBacked_iff : t.isBacked = true ↔ 0 < t.fileSize.toNat := by
  rw [isBacked, bne_iff_ne, ne_eq, ← UInt64.toNat_inj, UInt64.toNat_zero]
  omega

theorem hasOffset_iff : t.hasOffset offset = true ↔
    t.fileOffset.toNat ≤ offset ∧ offset < t.fileEnd := by
  simp [hasOffset]

theorem isBacked_of_hasOffset (h : t.hasOffset offset = true) : t.isBacked = true := by
  rw [hasOffset_iff, fileEnd] at h
  rw [isBacked_iff]
  omega

theorem backs_iff : t.backs address = true ↔
    t.address.toNat ≤ address.toNat ∧ address.toNat - t.address.toNat < t.size.toNat ∧
      address.toNat - t.address.toNat < t.fileSize.toNat := by
  simp only [backs, hasAddress, Bool.and_eq_true, decide_eq_true_eq, isBacked_iff,
    UInt64.le_iff_toNat_le, UInt64.lt_iff_toNat_lt]
  constructor
  · rintro ⟨⟨-, hle, hsize⟩, hfile⟩
    rw [UInt64.toNat_sub_of_le _ _ (UInt64.le_iff_toNat_le.2 hle)] at hsize hfile
    exact ⟨hle, hsize, hfile⟩
  · rintro ⟨hle, hsize, hfile⟩
    rw [UInt64.toNat_sub_of_le _ _ (UInt64.le_iff_toNat_le.2 hle)]
    omega

/-- The offset that translation computes is the one that the segment pairs with the address. -/
theorem maps_iff : t.Maps address offset ↔
    t.backs address = true ∧ offset = t.fileOffset.toNat + (address - t.address).toNat := by
  rw [backs_iff]
  constructor
  · rintro ⟨distance, hlt, haddress, rfl⟩
    rw [UInt64.toNat_sub_of_le _ _ (UInt64.le_iff_toNat_le.2 (by omega))]
    omega
  · rintro ⟨⟨hle, hsize, hfile⟩, rfl⟩
    rw [UInt64.toNat_sub_of_le _ _ (UInt64.le_iff_toNat_le.2 hle)]
    exact ⟨address.toNat - t.address.toNat, by omega, by omega, rfl⟩

theorem Maps.hasOffset (h : t.Maps address offset) : t.hasOffset offset = true := by
  obtain ⟨distance, hlt, -, rfl⟩ := h
  rw [hasOffset_iff, fileEnd]
  omega

theorem Maps.address_eq (h : t.Maps address offset) :
    t.address + UInt64.ofNat (offset - t.fileOffset.toNat) = address := by
  obtain ⟨distance, hlt, haddress, rfl⟩ := h
  have hword := address.toNat_lt
  apply UInt64.toNat_inj.1
  rw [Nat.add_sub_cancel_left, UInt64.toNat_add, UInt64.toNat_ofNat']
  omega

theorem Maps.mem_memory (h : t.Maps address offset) : address.toNat ∈ t.memory := by
  obtain ⟨distance, hlt, haddress, -⟩ := h
  rw [memory, Set.mem_Ico, addressEnd]
  omega

theorem exists_maps (hend : t.addressEnd < UInt64.size) (hlow : t.fileOffset.toNat ≤ offset)
    (hhigh : offset < t.fileOffset.toNat + min t.size.toNat t.fileSize.toNat) :
    ∃ address, t.Maps address offset := by
  refine ⟨UInt64.ofNat (t.address.toNat + (offset - t.fileOffset.toNat)),
    offset - t.fileOffset.toNat, by omega, ?_, by omega⟩
  rw [addressEnd] at hend
  rw [UInt64.toNat_ofNat']
  apply Nat.mod_eq_of_lt
  exact Nat.lt_of_le_of_lt (by omega) hend

end Segment

theorem find?_eq_some_of_unique {α : Type} {p : α → Bool} {as : List α} {a : α} (ha : a ∈ as)
    (hp : p a = true) (hu : ∀ b ∈ as, p b = true → b = a) : as.find? p = some a := by
  cases hfind : as.find? p with
  | none => exact absurd hp (List.find?_eq_none.1 hfind a ha)
  | some b => rw [hu b (List.mem_of_find?_eq_some hfind) (List.find?_some hfind)]

namespace Slice

variable {s : Slice} {t u : Segment} {address : UInt64} {offset length : Nat}

/-- Segments with file data share no memory and no bytes of the file. -/
structure Separate (s : Slice) : Prop where
  memory : (s.segments.filter Segment.isBacked).Pairwise fun t u => Disjoint t.memory u.memory
  fileData : (s.segments.filter Segment.isBacked).Pairwise fun t u =>
    Disjoint t.fileData u.fileData

theorem eq_of_mem_of_pairwise {α : Type} {region : α → Set Nat} {as : List α} {a b : α} {n : Nat}
    (h : as.Pairwise fun x y => Disjoint (region x) (region y)) (ha : a ∈ as) (hb : b ∈ as)
    (hna : n ∈ region a) (hnb : n ∈ region b) : a = b := by
  have : Std.Symm fun x y => Disjoint (region x) (region y) := ⟨fun _ _ h => h.symm⟩
  by_contra hne
  exact Set.disjoint_left.1 (h.forall ha hb hne) hna hnb

theorem mem_backed (ht : t ∈ s.segments) (h : t.hasOffset offset = true) :
    t ∈ s.segments.filter Segment.isBacked :=
  List.mem_filter.2 ⟨ht, Segment.isBacked_of_hasOffset h⟩

theorem exists_maps_of_fileOffset (h : s.fileOffset address = .ok offset) :
    ∃ t ∈ s.segments, t.Maps address offset := by
  rw [fileOffset] at h
  split at h
  next t hfind =>
    have hoffset := (Except.ok.inj h).symm
    exact ⟨t, List.mem_of_find?_eq_some hfind,
      Segment.maps_iff.2 ⟨by simpa using List.find?_some hfind, hoffset⟩⟩
  next => exact absurd h nofun

namespace Separate

theorem fileOffset_eq (hs : s.Separate) (ht : t ∈ s.segments) (h : t.Maps address offset) :
    s.fileOffset address = .ok offset := by
  have hfind : s.segments.find? (·.backs address) = some t := by
    apply find?_eq_some_of_unique ht (Segment.maps_iff.1 h).1
    intro u hu hbacks
    have hu' := Segment.maps_iff.2 ⟨hbacks, rfl⟩
    exact eq_of_mem_of_pairwise hs.memory (mem_backed hu hu'.hasOffset)
      (mem_backed ht h.hasOffset) hu'.mem_memory h.mem_memory
  rw [fileOffset, hfind]
  exact congrArg Except.ok (Segment.maps_iff.1 h).2.symm

theorem segmentAt?_eq (hs : s.Separate) (ht : t ∈ s.segments) (h : t.hasOffset offset = true) :
    s.segmentAt? offset = some t := by
  apply find?_eq_some_of_unique ht
  · simp [Segment.isBacked_of_hasOffset h, h]
  · intro u hu hfound
    have hu' := (Bool.and_eq_true_iff.1 hfound).2
    exact eq_of_mem_of_pairwise hs.fileData (mem_backed hu hu') (mem_backed ht h)
      (Segment.hasOffset_iff.1 hu') (Segment.hasOffset_iff.1 h)

theorem address_eq (hs : s.Separate) (ht : t ∈ s.segments) (h : t.Maps address offset) :
    s.address offset = .ok address := by
  simp only [Slice.address, hs.segmentAt?_eq ht h.hasOffset, h.address_eq]

theorem region_eq (hs : s.Separate) (ht : t ∈ s.segments) (h : t.Maps address offset)
    (hend : t.fileEnd ≤ s.reader.size) :
    ∃ data, s.reader.sub t.fileOffset.toNat t.fileSize.toNat = .ok data ∧
      s.region address = .ok (data, offset - t.fileOffset.toNat) := by
  have hdata : s.reader.sub t.fileOffset.toNat t.fileSize.toNat = .ok _ :=
    map_eq_ok.2 ⟨_, Reader.slice_of_le hend, rfl⟩
  refine ⟨_, hdata, ?_⟩
  simp only [region, hs.fileOffset_eq ht h, bind, Except.bind, hs.segmentAt?_eq ht h.hasOffset,
    hdata]
  rfl

theorem bytesAt_eq_ok (hs : s.Separate) (ht : t ∈ s.segments) (h : t.Maps address offset)
    (hend : t.fileEnd ≤ s.reader.size) {found : ByteArray} :
    s.bytesAt address length = .ok found ↔ offset + length ≤ t.fileEnd ∧
      found = s.reader.bytes.extract offset (offset + length) := by
  obtain ⟨data, hdata, hregion⟩ := hs.region_eq ht h hend
  have hin := Segment.hasOffset_iff.1 h.hasOffset
  have hplace : t.fileOffset.toNat + (offset - t.fileOffset.toNat) = offset := by omega
  rw [Segment.fileEnd] at hin hend ⊢
  rw [bytesAt, hregion]
  change data.slice (offset - t.fileOffset.toNat) length = .ok found ↔ _
  constructor
  · intro hslice
    have hle := (Reader.le_of_slice hslice).1
    rw [Reader.size_of_sub hdata] at hle
    rw [Reader.slice_sub hdata hle, hplace] at hslice
    exact ⟨by omega, (Reader.le_of_slice hslice).2⟩
  · rintro ⟨hle, rfl⟩
    rw [Reader.slice_sub hdata (by omega), hplace]
    exact Reader.slice_of_le (by omega)

theorem cstringAt_eq_ok (hs : s.Separate) (ht : t ∈ s.segments) (h : t.Maps address offset)
    (hend : t.fileEnd ≤ s.reader.size) {text : String} :
    s.cstringAt address = .ok text ↔ ∃ stop, Reader.FirstZero s.reader.bytes offset stop ∧
      stop < t.fileEnd ∧
      text = Utf8.decodeLossy (s.reader.bytes.extract offset stop).data.toList := by
  obtain ⟨data, hdata, hregion⟩ := hs.region_eq ht h hend
  have hin := Segment.hasOffset_iff.1 h.hasOffset
  have hplace : t.fileOffset.toNat + (offset - t.fileOffset.toNat) = offset := by omega
  rw [Segment.fileEnd] at hin ⊢
  rw [cstringAt, hregion]
  change data.cstring (offset - t.fileOffset.toNat) = .ok text ↔ _
  rw [Reader.cstring_sub hdata (by omega), hplace]

end Separate

theorem fileOffset_of_region {place : Reader × Nat} (h : s.region address = .ok place) :
    ∃ offset, s.fileOffset address = .ok offset := by
  obtain ⟨offset, hoffset, -⟩ := bind_eq_ok.1 h
  exact ⟨offset, hoffset⟩

theorem exists_read_of_load {bytes : ByteArray} {selector : Option ArchSelector}
    (h : load bytes selector = .ok s) : ∃ image offset, read image offset = .ok s := by
  rw [load] at h
  split at h
  · obtain ⟨table, -, h⟩ := bind_eq_ok.1 h
    obtain ⟨p, -, h⟩ := bind_eq_ok.1 h
    obtain ⟨image, -, h⟩ := bind_eq_ok.1 h
    exact ⟨image, p.offset.toNat, h⟩
  · obtain ⟨found, hfound, h⟩ := bind_eq_ok.1 h
    cases selector with
    | none =>
      obtain rfl := Except.ok.inj h
      exact ⟨bytes, 0, hfound⟩
    | some selector =>
      dsimp only at h
      split at h
      · obtain rfl := Except.ok.inj h
        exact ⟨bytes, 0, hfound⟩
      · cases h

theorem fixups_of_load {bytes : ByteArray} {selector : Option ArchSelector}
    (h : load bytes selector = .ok s) :
    s.fixups = Fixups.read s.reader s.bits s.segments s.commands := by
  obtain ⟨image, place, hread⟩ := exists_read_of_load h
  obtain ⟨header, -, hread⟩ := bind_eq_ok.1 hread
  obtain ⟨commands, -, hread⟩ := bind_eq_ok.1 hread
  obtain ⟨⟨⟩, -, hread⟩ := bind_eq_ok.1 hread
  cases hread
  rfl

theorem bounds_of_load {bytes : ByteArray} {selector : Option ArchSelector}
    (h : load bytes selector = .ok s) (ht : t ∈ s.segments) :
    t.addressEnd < UInt64.size ∧ t.fileEnd ≤ s.reader.size := by
  obtain ⟨image, place, hread⟩ := exists_read_of_load h
  obtain ⟨-, hreader, -, -, hcheck⟩ := of_read hread
  rw [hreader]
  exact Segment.bounds_of_check (checkSegments_forall hcheck t ht)

/-- In an image whose segments keep apart, translation leads from an address to a file offset of the
    image and back again, and so it does from every offset for which a segment has memory. Bytes and
    texts at an address are those of the file, from the address's offset on, and are found exactly
    when they end inside the segment's file data. -/
theorem translation_of_separate {bytes : ByteArray} {selector : Option ArchSelector}
    (hload : load bytes selector = .ok s) (hs : s.Separate) :
    (∀ address offset, s.fileOffset address = .ok offset →
      s.address offset = .ok address ∧ offset < s.reader.size) ∧
    (∀ t ∈ s.segments, ∀ offset, t.fileOffset.toNat ≤ offset →
      offset < t.fileOffset.toNat + min t.size.toNat t.fileSize.toNat →
      ∃ address, s.address offset = .ok address ∧ s.fileOffset address = .ok offset) ∧
    (∀ address length found, s.bytesAt address length = .ok found ↔
      ∃ t ∈ s.segments, ∃ offset, s.fileOffset address = .ok offset ∧ t.Maps address offset ∧
        offset + length ≤ t.fileEnd ∧
        found = s.reader.bytes.extract offset (offset + length)) ∧
    (∀ address text, s.cstringAt address = .ok text ↔
      ∃ t ∈ s.segments, ∃ offset, s.fileOffset address = .ok offset ∧ t.Maps address offset ∧
        ∃ stop, Reader.FirstZero s.reader.bytes offset stop ∧ stop < t.fileEnd ∧
          text = Utf8.decodeLossy (s.reader.bytes.extract offset stop).data.toList) := by
  have hend {t : Segment} (ht : t ∈ s.segments) := (bounds_of_load hload ht).2
  refine ⟨?_, ?_, ?_, ?_⟩
  · intro address offset h
    obtain ⟨t, ht, hmaps⟩ := exists_maps_of_fileOffset h
    have hin := Segment.hasOffset_iff.1 hmaps.hasOffset
    exact ⟨hs.address_eq ht hmaps, Nat.lt_of_lt_of_le hin.2 (hend ht)⟩
  · intro t ht offset hlow hhigh
    obtain ⟨address, hmaps⟩ := Segment.exists_maps (bounds_of_load hload ht).1 hlow hhigh
    exact ⟨address, hs.address_eq ht hmaps, hs.fileOffset_eq ht hmaps⟩
  · intro address length found
    constructor
    · intro h
      obtain ⟨place, hregion, -⟩ := bind_eq_ok.1 h
      obtain ⟨offset, hoffset⟩ := fileOffset_of_region hregion
      obtain ⟨t, ht, hmaps⟩ := exists_maps_of_fileOffset hoffset
      exact ⟨t, ht, offset, hoffset, hmaps, (hs.bytesAt_eq_ok ht hmaps (hend ht)).1 h⟩
    · rintro ⟨t, ht, offset, -, hmaps, hfound⟩
      exact (hs.bytesAt_eq_ok ht hmaps (hend ht)).2 hfound
  · intro address text
    constructor
    · intro h
      obtain ⟨place, hregion, -⟩ := bind_eq_ok.1 h
      obtain ⟨offset, hoffset⟩ := fileOffset_of_region hregion
      obtain ⟨t, ht, hmaps⟩ := exists_maps_of_fileOffset hoffset
      exact ⟨t, ht, offset, hoffset, hmaps, (hs.cstringAt_eq_ok ht hmaps (hend ht)).1 h⟩
    · rintro ⟨t, ht, offset, -, hmaps, hfound⟩
      exact (hs.cstringAt_eq_ok ht hmaps (hend ht)).2 hfound

/-- One segment has more file data than memory, the other more memory than file data. -/
def unevenDraft : ImageDraft :=
  let empty : ImageDraft := { bits := .bits32, cpuType := Cpu.arm }
  ((empty.addSegment "__TEXT" 0x1000 0x10 0 0xA0 5).addSegment "__DATA" 0x2000 0x100 0xA0 8 3).write
    0xA1 [0x68, 0x69, 0]

theorem translation_of_unevenDraft :
    ∃ s, load ⟨unevenDraft.build.toArray⟩ none = .ok s ∧ s.Separate ∧
      s.fileOffset 0x2001 = .ok 0xA1 ∧ s.address 0xA1 = .ok 0x2001 ∧
      s.bytesAt 0x2001 7 = .ok (s.reader.bytes.extract 0xA1 0xA8) ∧
      ∃ address, s.address 0xF = .ok address ∧ s.fileOffset address = .ok 0xF := by
  have hok : (load ⟨unevenDraft.build.toArray⟩ none).toOption.map (·.segments) =
      some unevenDraft.segments := by decide +kernel
  cases hload : load ⟨unevenDraft.build.toArray⟩ none with
  | error e =>
    rw [hload] at hok
    exact absurd hok nofun
  | ok s =>
    rw [hload] at hok
    have hsegments : s.segments = unevenDraft.segments := Option.some.inj hok
    have hs : s.Separate := by
      constructor
      · simp only [hsegments, Segment.memory, Set.Ico_disjoint_Ico]
        decide
      · simp only [hsegments, Segment.fileData, Set.Ico_disjoint_Ico]
        decide
    have hoffset : s.fileOffset 0x2001 = .ok 0xA1 := by
      rw [fileOffset, hsegments]
      rfl
    obtain ⟨hback, hforth, hbytes, -⟩ := translation_of_separate hload hs
    refine ⟨s, rfl, hs, hoffset, (hback _ _ hoffset).1, ?_, ?_⟩
    · apply (hbytes 0x2001 7 _).2
      rw [hsegments]
      exact ⟨_, List.mem_cons_of_mem _ List.mem_cons_self, 0xA1, hoffset,
        ⟨1, by decide, by decide, by decide⟩, by decide, rfl⟩
    · rw [hsegments] at hforth
      exact hforth _ List.mem_cons_self 0xF (by decide) (by decide)

end Slice

end ObjcAtlas
