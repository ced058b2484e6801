import ObjcAtlas.Proofs.Extraction.Image
import ObjcAtlas.Proofs.Image.Build
import ObjcAtlas.Proofs.Image.Tiling
import ObjcAtlas.Proofs.Survey.Frame

set_option autoImplicit false

/-!
# Encrypted bytes

Encrypted bytes say nothing about the image as it was written. What an extraction reports does not
depend on them as long as none is in the footprint: `extract_eq_of_unread`. Of itself it leaves out
only the texts and records that start in the encrypted part. `extract_hiddenData` has class data
there, which are read all the same.
-/
namespace ObjcAtlas

namespace Slice

/-- Two images, read from bytes that differ at encrypted places only, with the same size, header,
    commands and fixups. -/
structure AlikeInClear (bytes bytes' : ByteArray) (offset : Nat) (s s' : Slice) : Prop where
  read : Slice.read bytes offset = .ok s
  read' : Slice.read bytes' offset = .ok s'
  size : bytes.size = bytes'.size
  header : s.header = s'.header
  commands : s.commands = s'.commands
  tabled : ∀ i, s.tabled? i = s'.tabled? i
  errors : s.fixups.errors = s'.fixups.errors
  bytes : ∀ i, s.isEncryptedOffset i = false → Reader.byteAt bytes i = Reader.byteAt bytes' i

variable {s s' : Slice} {bytes bytes' : ByteArray} {offset : Nat}

theorem AlikeInClear.twin (h : AlikeInClear bytes bytes' offset s s') : Twin s s' := by
  obtain ⟨-, hreader, -, hsegments, -⟩ := of_read h.read
  obtain ⟨-, hreader', -, hsegments', -⟩ := of_read h.read'
  constructor
  · rw [hreader, hreader', h.header]
  · rw [hreader, hreader']
    exact h.size
  · exact h.header
  · exact h.commands
  · rw [hsegments, hsegments', h.commands]
  · exact h.tabled
  · exact h.errors

end Slice

theorem Reader.byteAt_toArray (bytes : List UInt8) (i : Nat) :
    byteAt ⟨bytes.toArray⟩ i = bytes[i]?.getD 0 := by
  unfold byteAt
  split
  · rename_i hi
    have hlt : i < bytes.length := hi
    rw [List.getElem?_eq_getElem hlt]
    rfl
  · rename_i hi
    have hle : bytes.length ≤ i := Nat.not_lt.1 hi
    rw [List.getElem?_eq_none hle]
    rfl

def classSegment : Segment where
  name := "__DATA"
  address := 0x1000
  size := 0xF4
  fileOffset := 0
  fileSize := 0xF4
  maxProtection := 3
  protection := 3
  flags := 0
  sections := [{
    name := "__objc_classlist", segmentName := "__DATA", address := 0x10B0, size := 4
    offset := 0xB0, align := 2, relocationOffset := 0, relocationCount := 0, flags := 0
    reserved1 := 0, reserved2 := 0, reserved3 := 0 }]

/-- The slot of the class at `0x10B4`, the class, its data at `0x10C8` and a text at `0x10F0`. -/
def oneClass (hidden : Encryption) (data : List UInt8) (text : String) : ImageDraft where
  bits := .bits32
  cpuType := 12
  segments := [classSegment]
  commands := [.encryption hidden]
  contents := Bytes.zeros 0xB0 ++ [0xB4, 0x10, 0, 0] ++ Bytes.zeros 16 ++ [0xC8, 0x10, 0, 0] ++
    Bytes.fit 40 data ++ Bytes.fit 4 (Utf8.encode text)

namespace oneClass

variable (hidden : Encryption) (data : List UInt8) (text : String)

def bytes : ByteArray := ⟨(oneClass hidden data text).build.toArray⟩

def slice : Slice :=
  (oneClass hidden data text).loaded [.segment .bits32 classSegment, .encryption .bits32 hidden]

def rootData : List UInt8 := [2, 0, 0, 0, 0, 0, 0, 0, 0, 0, 0, 0, 0, 0, 0, 0, 0xF0, 0x10]

theorem fits_classSegment : classSegment.Fits .bits32 := by
  have hname : NameFits "__DATA" ∧ NameFits "__objc_classlist" := by
    unfold NameFits
    decide
  refine ⟨hname.1, by decide, by decide, by decide, by decide, ?_, by decide⟩
  intro t ht
  obtain rfl := List.mem_singleton.1 ht
  exact ⟨hname.2, hname.1, by decide, by decide, by decide⟩

theorem length_commands : (oneClass hidden data text).encodedCommands.flatten.length = 144 := by
  change ([classSegment.encode .little .bits32,
    DraftCommand.encode .little .bits32 (.encryption hidden)].flatten).length = 144
  rw [List.flatten_cons, List.flatten_cons, List.length_append, List.length_append,
    Segment.length_encode, Command.length_encryption]
  rfl

theorem length_build : (oneClass hidden data text).build.length = 0xF4 := by
  have hfront : (oneClass hidden data text).front.length = 172 := by
    rw [ImageDraft.front, List.length_append, ImageDraft.length_header, length_commands]
    rfl
  have hcontents : (oneClass hidden data text).contents.length = 0xF4 := by
    simp only [oneClass, Bytes.zeros, List.length_append, List.length_replicate, Bytes.length_fit,
      List.length_cons, List.length_nil]
  rw [ImageDraft.length_build, hfront, hcontents]
  rfl

theorem read_bytes : Slice.read (bytes hidden data text) 0 = .ok (slice hidden data text) := by
  have hspells : ∀ x ∈ [(classSegment.encode .little .bits32, Command.segment .bits32 classSegment),
      (DraftCommand.encode .little .bits32 (.encryption hidden), .encryption .bits32 hidden)],
      Spells .little x.1 x.2 := by
    simp only [List.forall_mem_cons, List.not_mem_nil, false_imp_iff, implies_true, and_true]
    exact ⟨Command.spells_segment fits_classSegment, Command.spells_encryption ..⟩
  refine (oneClass hidden data text).read_build rfl hspells ?_ ?_ ?_
  · exact (by decide : 2 < 2 ^ 32)
  · rw [length_commands]
    decide
  · rw [length_build]
    change Slice.checkSegments 0xF4 [classSegment] = .ok ()
    decide

theorem header_slice :
    (slice hidden data text).header = (oneClass hidden [] "").builtHeader 2 144 := by
  change (oneClass hidden data text).builtHeader _ _ = _
  rw [length_commands]
  rfl

theorem fixups_slice : (slice hidden data text).fixups = {} := rfl

theorem isEncryptedOffset_slice (i : Nat) :
    (slice hidden data text).isEncryptedOffset i = hidden.covers i := rfl

variable {hidden data text}

theorem alikeInClear {data' : List UInt8} {text' : String} (hactive : hidden.isActive = true)
    (hbefore : (oneClass hidden data text).build.take hidden.offset.toNat =
      (oneClass hidden data' text').build.take hidden.offset.toNat)
    (hbehind : (oneClass hidden data text).build.drop (hidden.offset.toNat + hidden.size.toNat) =
      (oneClass hidden data' text').build.drop (hidden.offset.toNat + hidden.size.toNat)) :
    Slice.AlikeInClear (bytes hidden data text) (bytes hidden data' text') 0
      (slice hidden data text) (slice hidden data' text') where
  read := read_bytes ..
  read' := read_bytes ..
  size := (length_build ..).trans (length_build ..).symm
  header := by rw [header_slice, header_slice]
  commands := rfl
  tabled i := by rw [Slice.tabled?, Slice.tabled?, fixups_slice, fixups_slice]
  errors := by rw [fixups_slice, fixups_slice]
  bytes i hi := by
    rw [isEncryptedOffset_slice, Encryption.covers, hactive] at hi
    rw [bytes, bytes, Reader.byteAt_toArray, Reader.byteAt_toArray]
    rcases Nat.lt_or_ge i hidden.offset.toNat with hlt | hge
    · rw [← List.getElem?_take_of_lt hlt, hbefore, List.getElem?_take_of_lt hlt]
    · have hend : hidden.offset.toNat + hidden.size.toNat ≤ i := by
        simpa [hge] using hi
      obtain ⟨k, rfl⟩ := Nat.exists_eq_add_of_le hend
      rw [← List.getElem?_drop, hbehind, List.getElem?_drop]

end oneClass

namespace Metadata

theorem flags_congr {s s' : Slice} (tw : s.Twin s') : ImageFlags.of s = ImageFlags.of s' := by
  simp only [ImageFlags.of, RuntimeSection.anyIn, tw.find?_eq, Slice.isEncrypted, Slice.encryption?,
    tw.commands, tw.segments, tw.bits_eq, tw.header]

/-- An extraction depends on the bytes in the footprint and on no others. -/
theorem extract_congr {s s' : Slice} (tw : s.Twin s') (h : s.Agree s' s.footprint)
    (options : ExtractOptions) : extract s options = extract s' options := by
  have hsurvey : s.survey = s'.survey := by
    rw [Slice.survey, Slice.survey, Survey.image_congr tw h]
  rw [extract_eq, extract_eq, Slice.reported, Slice.reported, hsurvey, flags_congr tw, tw.errors,
    Slice.isTrap_congr tw.header tw.segments]

/-- What encrypted bytes say does not matter to an image of which no encrypted byte is read. -/
theorem extract_eq_of_unread {bytes bytes' : ByteArray} {offset : Nat} {s s' : Slice}
    (h : Slice.AlikeInClear bytes bytes' offset s s')
    (hunread : ∀ i ∈ s.footprint, s.isEncryptedOffset i = false) (options : ExtractOptions) :
    extract s options = extract s' options := by
  apply extract_congr h.twin
  intro i hi
  rw [(Slice.of_read h.read).2.1, (Slice.of_read h.read').2.1]
  exact h.bytes i (hunread i hi)

open oneClass

/-- An encrypted class name is not read. -/
theorem extract_hiddenName :
    bytes ⟨0xF0, 4, 1⟩ rootData "Abc" ≠ bytes ⟨0xF0, 4, 1⟩ rootData "xyz" ∧
    Slice.AlikeInClear (bytes ⟨0xF0, 4, 1⟩ rootData "Abc") (bytes ⟨0xF0, 4, 1⟩ rootData "xyz") 0
      (slice ⟨0xF0, 4, 1⟩ rootData "Abc") (slice ⟨0xF0, 4, 1⟩ rootData "xyz") ∧
    (∀ i ∈ (slice ⟨0xF0, 4, 1⟩ rootData "Abc").footprint,
      (slice ⟨0xF0, 4, 1⟩ rootData "Abc").isEncryptedOffset i = false) ∧
    ∀ options, extract (slice ⟨0xF0, 4, 1⟩ rootData "Abc") options =
      extract (slice ⟨0xF0, 4, 1⟩ rootData "xyz") options := by
  have halike : Slice.AlikeInClear _ _ 0 (slice ⟨0xF0, 4, 1⟩ rootData "Abc")
      (slice ⟨0xF0, 4, 1⟩ rootData "xyz") :=
    alikeInClear (by decide) (by decide +kernel) (by decide +kernel)
  have hunread : ∀ i ∈ (slice ⟨0xF0, 4, 1⟩ rootData "Abc").footprint,
      (slice ⟨0xF0, 4, 1⟩ rootData "Abc").isEncryptedOffset i = false := by decide +kernel
  exact ⟨by decide +kernel, halike, hunread, extract_eq_of_unread halike hunread⟩

/-- Encrypted class data are read, if only the flags. -/
theorem extract_hiddenData :
    Slice.AlikeInClear (bytes ⟨0xC8, 40, 1⟩ [0] "") (bytes ⟨0xC8, 40, 1⟩ [2] "") 0
      (slice ⟨0xC8, 40, 1⟩ [0] "") (slice ⟨0xC8, 40, 1⟩ [2] "") ∧
    extract (slice ⟨0xC8, 40, 1⟩ [0] "") {} ≠ extract (slice ⟨0xC8, 40, 1⟩ [2] "") {} := by
  refine ⟨alikeInClear (by decide) (by decide +kernel) (by decide +kernel), fun heq => ?_⟩
  have hflags := congrArg (Option.map fun m => m.classes.map (·.flags)) heq
  revert hflags
  decide +kernel

end Metadata

end ObjcAtlas
