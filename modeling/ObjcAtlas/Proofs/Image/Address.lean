import ObjcAtlas.Proofs.Image.Thin
import ObjcAtlas.Proofs.Image.Translation

set_option autoImplicit false

namespace ObjcAtlas

namespace Segment

variable {t : Segment} {address : UInt64} {distance offset : Nat}

theorem toNat_place (h : distance < t.fileSize.toNat) :
    (UInt64.ofNat distance).toNat = distance :=
  UInt64.toNat_ofNat_of_lt' (Nat.lt_trans h t.fileSize.toNat_lt)

theorem toNat_address_place (hend : t.addressEnd < UInt64.size)
    (hfile : distance < t.fileSize.toNat) (hsize : distance < t.size.toNat) :
    t.address.toNat + distance < UInt64.size ∧
      (t.address + UInt64.ofNat distance).toNat = t.address.toNat + distance := by
  rw [addressEnd] at hend
  have hsum : t.address.toNat + distance < UInt64.size := by omega
  rw [UInt64.toNat_add, toNat_place hfile]
  exact ⟨hsum, Nat.mod_eq_of_lt hsum⟩

/-- A place of the file data has an address of the segment exactly where there is memory for it. A
    sum that passes the end of memory does not come back into the segment. -/
theorem hasAddress_place_iff (hend : t.addressEnd < UInt64.size)
    (hfile : distance < t.fileSize.toNat) :
    t.hasAddress (t.address + UInt64.ofNat distance) = true ↔ distance < t.size.toNat := by
  have hback : t.address + UInt64.ofNat distance - t.address = UInt64.ofNat distance := by
    rw [UInt64.add_comm, UInt64.add_sub_cancel]
  simp only [hasAddress, Bool.and_eq_true, decide_eq_true_eq, hback, UInt64.lt_iff_toNat_lt,
    UInt64.le_iff_toNat_le, toNat_place hfile]
  constructor
  · exact And.right
  · intro hsize
    have hsum := (toNat_address_place hend hfile hsize).2
    omega

end Segment

namespace Slice

variable {s : Slice} {t : Segment} {address : UInt64} {offset : Nat}

theorem segmentAt?_eq_some (h : s.segmentAt? offset = some t) :
    t ∈ s.segments ∧ t.hasOffset offset = true := by
  rw [segmentAt?] at h
  have hfound := List.find?_some h
  exact ⟨List.mem_of_find?_eq_some h, (Bool.and_eq_true_iff.1 hfound).2⟩

theorem exists_segmentFor? (ht : t ∈ s.segments) (h : t.hasAddress address = true) :
    ∃ u, s.segmentFor? address = some u ∧ u.hasAddress address = true := by
  have hpositive : (t.size != 0) = true := by
    simp only [Segment.hasAddress, Bool.and_eq_true, decide_eq_true_eq,
      UInt64.lt_iff_toNat_lt] at h
    rw [bne_iff_ne, ne_eq, ← UInt64.toNat_inj, UInt64.toNat_zero]
    omega
  rw [segmentFor?]
  cases hfind : s.segments.find? fun t => t.size != 0 && t.hasAddress address with
  | none => exact absurd (by rw [hpositive, h]; rfl) (List.find?_eq_none.1 hfind t ht)
  | some u =>
    have hfound := List.find?_some hfind
    exact ⟨u, rfl, (Bool.and_eq_true_iff.1 hfound).2⟩

theorem address_eq_ok (h : s.address offset = .ok address) :
    ∃ t, s.segmentAt? offset = some t ∧
      address = t.address + UInt64.ofNat (offset - t.fileOffset.toNat) := by
  rw [Slice.address] at h
  split at h
  next t hfind => exact ⟨t, hfind, (Except.ok.inj h).symm⟩
  next => cases h

/-- In an image that can be read, the address of a file offset lies in the memory of the segment
    used exactly when the offset is less far from the start of its file data than its memory is
    long. Then the address is the sum of the segment's and that distance, which stays below
    `2 ^ 64`, and a segment is found for it. -/
theorem address_in_segment_iff {bytes : ByteArray} {selector : Option ArchSelector}
    (hload : load bytes selector = .ok s) (h : s.address offset = .ok address) :
    ∃ t ∈ s.segments, s.segmentAt? offset = some t ∧
      (t.hasAddress address = true ↔ offset - t.fileOffset.toNat < t.size.toNat) ∧
      (offset - t.fileOffset.toNat < t.size.toNat →
        t.address.toNat + (offset - t.fileOffset.toNat) < UInt64.size ∧
        address.toNat = t.address.toNat + (offset - t.fileOffset.toNat) ∧
        ∃ u, s.segmentFor? address = some u ∧ u.hasAddress address = true) := by
  obtain ⟨t, hfind, rfl⟩ := address_eq_ok h
  obtain ⟨ht, hoffset⟩ := segmentAt?_eq_some hfind
  have hend := (bounds_of_load hload ht).1
  rw [Segment.hasOffset_iff, Segment.fileEnd] at hoffset
  have hfile : offset - t.fileOffset.toNat < t.fileSize.toNat := by omega
  have hiff := Segment.hasAddress_place_iff hend hfile
  refine ⟨t, ht, hfind, hiff, fun hsize => ?_⟩
  obtain ⟨hsum, heq⟩ := Segment.toNat_address_place hend hfile hsize
  exact ⟨hsum, heq, exists_segmentFor? ht (hiff.2 hsize)⟩

/-- One segment at the end of memory, with eight bytes of it and more file data than memory is left
    for. -/
def shortDraft : ImageDraft :=
  let empty : ImageDraft := { bits := .bits64, cpuType := Cpu.arm64 }
  empty.addSegment "__TEXT" 0xFFFFFFFFFFFFFFF0 8 0 0x100 5

def shortSegment : Segment :=
  SegmentPlan.segment ⟨"__TEXT", 0xFFFFFFFFFFFFFFF0, 8, 0, 0x100, 5⟩

theorem load_shortDraft :
    ∃ s, load ⟨shortDraft.build.toArray⟩ none = .ok s ∧ s.segments = [shortSegment] := by
  have hname : NameFits "__TEXT" := by
    unfold NameFits
    decide
  have hfits : shortSegment.Fits .bits64 :=
    ⟨hname, nofun, nofun, nofun, nofun, nofun, (by decide : 72 < 2 ^ 32)⟩
  refine ⟨_, ImageDraft.load_segments (d := shortDraft) rfl ?_ (by decide) (by decide) ?_, rfl⟩
  · intro t ht
    obtain rfl := List.mem_singleton.1 ht
    exact hfits
  · apply checkSegments_eq_ok
    intro t ht
    obtain rfl := List.mem_singleton.1 ht
    refine Segment.check_eq_ok (by decide) (by decide) ?_ rfl
    exact ImageDraft.fileEnd_le_build _ List.mem_cons_self

theorem address_shortDraft_in_segment :
    ∃ s, load ⟨shortDraft.build.toArray⟩ none = .ok s ∧ s.address 7 = .ok 0xFFFFFFFFFFFFFFF7 ∧
      ∃ u, s.segmentFor? 0xFFFFFFFFFFFFFFF7 = some u ∧
        u.hasAddress 0xFFFFFFFFFFFFFFF7 = true := by
  obtain ⟨s, hload, hsegments⟩ := load_shortDraft
  have haddress : s.address 7 = .ok 0xFFFFFFFFFFFFFFF7 := by
    simp only [Slice.address, segmentAt?, hsegments]
    rfl
  refine ⟨s, hload, haddress, ?_⟩
  obtain ⟨t, ht, -, -, hfound⟩ := address_in_segment_iff hload haddress
  rw [hsegments] at ht
  obtain rfl := List.mem_singleton.1 ht
  exact (hfound (by decide)).2.2

/-- The tenth byte gets an address that no segment has, and the sum for a later byte passes the end
    of memory. -/
theorem address_shortDraft_outside :
    ∃ s, load ⟨shortDraft.build.toArray⟩ none = .ok s ∧
      s.address 0xA = .ok 0xFFFFFFFFFFFFFFFA ∧ s.segmentFor? 0xFFFFFFFFFFFFFFFA = none ∧
      s.address 0x50 = .ok 0x40 ∧ s.segmentFor? 0x40 = none := by
  obtain ⟨s, hload, hsegments⟩ := load_shortDraft
  refine ⟨s, hload, ?_, ?_, ?_, ?_⟩
  all_goals
    simp only [Slice.address, segmentAt?, segmentFor?, hsegments]
    rfl

end Slice

end ObjcAtlas
