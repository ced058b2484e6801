import Mathlib.Algebra.Ring.Nat
import ObjcAtlas.Image.Draft
import ObjcAtlas.Image.Slice
import ObjcAtlas.Proofs.Image.Holds
import ObjcAtlas.Proofs.Result

set_option autoImplicit false

namespace ObjcAtlas

namespace Reader

variable {r : Reader} {offset : Nat}

theorem Has.word {bits : Bitness} {n : UInt64} (h : r.Has offset (r.order.word bits n))
    (hn : bits = .bits32 → n.toNat < 2 ^ 32) : r.pointer bits offset = .ok n := by
  rw [Reader.pointer, h.number]
  refine congrArg Except.ok (UInt64.toNat.inj ?_)
  have h64 := n.toNat_lt
  cases bits with
  | bits32 =>
    have h32 := hn rfl
    simp [Bitness.pointerSize]
    omega
  | bits64 => simp [Bitness.pointerSize]

end Reader

/-- A name that a field of sixteen bytes can hold. -/
def NameFits (name : String) : Prop := '\x00' ∉ name.toList ∧ (Utf8.encode name).length ≤ 16

theorem fieldText_zeros {text : String} (h : '\x00' ∉ text.toList) (count : Nat) :
    fieldText ⟨(Utf8.encode text ++ Bytes.zeros count).toArray⟩ = text := by
  have hall : ∀ b ∈ Utf8.encode text, (b != 0) = true := by
    intro b hb
    exact bne_iff_ne.2 fun h0 => Utf8.zero_not_mem_encode h (h0 ▸ hb)
  have htake : (Utf8.encode text ++ Bytes.zeros count).takeWhile (· != 0) = Utf8.encode text := by
    rw [List.takeWhile_append_of_pos hall, Bytes.zeros, List.takeWhile_replicate_eq_filter]
    simp
  rw [fieldText]
  change Utf8.decodeLossy ((Utf8.encode text ++ Bytes.zeros count).takeWhile (· != 0)) = text
  rw [htake, Utf8.decodeLossy_encode]

theorem fieldText_name {name : String} (h : NameFits name) :
    fieldText ⟨(Bytes.name name).toArray⟩ = name := by
  rw [Bytes.name, Bytes.fit, List.take_of_length_le h.2, Bytes.pad]
  exact fieldText_zeros h.1 _

namespace Section

structure Fits (bits : Bitness) (s : Section) : Prop where
  name : NameFits s.name
  segmentName : NameFits s.segmentName
  address : bits = .bits32 → s.address.toNat < 2 ^ 32
  size : bits = .bits32 → s.size.toNat < 2 ^ 32
  reserved3 : bits = .bits32 → s.reserved3 = 0

theorem length_encode (order : ByteOrder) (bits : Bitness) (s : Section) :
    (s.encode order bits).length = entrySize bits := by
  cases bits <;> simp [encode, entrySize, Bytes.length_name, ByteOrder.word, ByteOrder.half,
    ByteOrder.bytes_length, Bitness.pointerSize]

def leadFields (order : ByteOrder) (bits : Bitness) (s : Section) : List (List UInt8) :=
  [Bytes.name s.name, Bytes.name s.segmentName, order.word bits s.address, order.word bits s.size,
    order.half s.offset, order.half s.align, order.half s.relocationOffset,
    order.half s.relocationCount, order.half s.flags, order.half s.reserved1,
    order.half s.reserved2]

theorem encode_eq (order : ByteOrder) (bits : Bitness) (s : Section) :
    s.encode order bits = (s.leadFields order bits).flatten ++
      match bits with
      | .bits32 => []
      | .bits64 => order.half s.reserved3 := by
  cases bits <;> simp [encode, leadFields]

theorem read_encode {bits : Bitness} {r : Reader} {base : Nat} {s : Section} (hs : s.Fits bits)
    (h : r.Has base (s.encode r.order bits)) : Section.read bits r base = .ok s := by
  rw [encode_eq] at h
  have hlead : r.Has base (s.leadFields r.order bits).flatten := h.append_left
  have hall := hlead.all
  have hrest : base + 16 + 16 + bits.pointerSize + bits.pointerSize =
      base + 32 + 2 * bits.pointerSize := by omega
  simp only [leadFields, Reader.HasAll, Bytes.length_name, ByteOrder.word, ByteOrder.half,
    ByteOrder.bytes_length, hrest] at hall
  obtain ⟨h₁, h₂, h₃, h₄, h₅, h₆, h₇, h₈, h₉, h₁₀, h₁₁, -⟩ := hall
  have n₁ := h₁.slice
  have n₂ := h₂.slice
  rw [Bytes.length_name] at n₁ n₂
  have n₃ : r.pointer bits (base + 32) = .ok s.address := h₃.word hs.address
  have n₄ : r.pointer bits (base + 32 + bits.pointerSize) = .ok s.size := h₄.word hs.size
  simp only [Section.read, n₁, n₂, n₃, n₄, h₅.half, h₆.half, h₇.half, h₈.half, h₉.half, h₁₀.half,
    h₁₁.half, fieldText_name hs.name, fieldText_name hs.segmentName, bind, Except.bind]
  cases bits with
  | bits32 =>
    simp only [pure, Except.pure, ← hs.reserved3 rfl]
  | bits64 =>
    have hlast : r.Has (base + 76) (r.order.half s.reserved3) := by
      have := h.append_right
      simpa [leadFields, Bytes.length_name, ByteOrder.word, ByteOrder.half, ByteOrder.bytes_length,
        Bitness.pointerSize, Reader.Has] using this
    have nlast : r.u32 (base + 32 + 2 * Bitness.bits64.pointerSize + 28) = .ok s.reserved3 :=
      hlast.half
    simp only [nlast]
    rfl

end Section

namespace Segment

structure Fits (bits : Bitness) (s : Segment) : Prop where
  name : NameFits s.name
  address : bits = .bits32 → s.address.toNat < 2 ^ 32
  size : bits = .bits32 → s.size.toNat < 2 ^ 32
  fileOffset : bits = .bits32 → s.fileOffset.toNat < 2 ^ 32
  fileSize : bits = .bits32 → s.fileSize.toNat < 2 ^ 32
  sections : ∀ t ∈ s.sections, t.Fits bits
  commandSize : s.commandSize bits < 2 ^ 32

def leadFields (order : ByteOrder) (bits : Bitness) (s : Segment) : List (List UInt8) :=
  [order.half (CommandKind.segment bits).code, order.bytes 4 (s.commandSize bits),
    Bytes.name s.name, order.word bits s.address, order.word bits s.size,
    order.word bits s.fileOffset, order.word bits s.fileSize, order.half s.maxProtection,
    order.half s.protection, order.bytes 4 s.sections.length, order.half s.flags]

theorem encode_eq (order : ByteOrder) (bits : Bitness) (s : Segment) :
    s.encode order bits =
      (s.leadFields order bits).flatten ++ s.sections.flatMap (Section.encode order bits) := by
  simp [encode, leadFields]

theorem length_leadFields (order : ByteOrder) (bits : Bitness) (s : Segment) :
    (s.leadFields order bits).flatten.length = headerSize bits := by
  cases bits <;> simp [leadFields, headerSize, Bytes.length_name, ByteOrder.word, ByteOrder.half,
    ByteOrder.bytes_length, Bitness.pointerSize]

theorem length_encode (order : ByteOrder) (bits : Bitness) (s : Segment) :
    (s.encode order bits).length = s.commandSize bits := by
  have hsections : (s.sections.flatMap (Section.encode order bits)).length =
      Section.entrySize bits * s.sections.length := by
    rw [List.length_flatMap, List.map_congr_left fun t _ => Section.length_encode order bits t,
      List.map_const', List.sum_replicate_nat, Nat.mul_comm]
  rw [encode_eq, List.length_append, length_leadFields, hsections, commandSize]

theorem readSections_encode {bits : Bitness} {r : Reader} {s : Segment} (hs : s.Fits bits)
    (h : r.Has 0 (s.encode r.order bits)) (hsize : r.size = s.commandSize bits) :
    readSections bits r s.sections.length = .ok s.sections := by
  rw [encode_eq] at h
  have hsections := h.append_right
  rw [length_leadFields, Nat.zero_add] at hsections
  simp only [readSections]
  rw [if_neg (by rw [hsize, commandSize, Nat.mul_comm]; omega)]
  refine mapM_range_eq_ok fun i t ht => ?_
  refine Section.read_encode (hs.sections t (List.mem_of_getElem? ht)) ?_
  exact hsections.flatMap (fun u _ => Section.length_encode r.order bits u) ht

theorem read_encode {bits : Bitness} {r : Reader} {s : Segment} (hs : s.Fits bits)
    (h : r.Has 0 (s.encode r.order bits)) (hsize : r.size = s.commandSize bits) :
    Segment.read bits r = .ok s := by
  have hsections := readSections_encode hs h hsize
  rw [encode_eq] at h
  have hlead : r.Has 0 (s.leadFields r.order bits).flatten := h.append_left
  have hall := hlead.all
  have htwo : 24 + bits.pointerSize + bits.pointerSize = 24 + 2 * bits.pointerSize := by omega
  have hthree : 24 + 2 * bits.pointerSize + bits.pointerSize = 24 + 3 * bits.pointerSize := by omega
  have hfour : 24 + 3 * bits.pointerSize + bits.pointerSize = 24 + 4 * bits.pointerSize := by omega
  simp only [leadFields, Reader.HasAll, Bytes.length_name, ByteOrder.word, ByteOrder.half,
    ByteOrder.bytes_length, Nat.zero_add, Nat.reduceAdd, htwo, hthree, hfour] at hall
  obtain ⟨h₁, h₂, h₃, h₄, h₅, h₆, h₇, h₈, h₉, h₁₀, h₁₁, -⟩ := hall
  have n₃ := h₃.slice
  rw [Bytes.length_name] at n₃
  have n₄ : r.pointer bits 24 = .ok s.address := h₄.word hs.address
  have n₅ : r.pointer bits (24 + bits.pointerSize) = .ok s.size := h₅.word hs.size
  have n₆ : r.pointer bits (24 + 2 * bits.pointerSize) = .ok s.fileOffset := h₆.word hs.fileOffset
  have n₇ : r.pointer bits (24 + 3 * bits.pointerSize) = .ok s.fileSize := h₇.word hs.fileSize
  have hcount : (UInt32.ofNat s.sections.length).toNat = s.sections.length := by
    have hle := hs.commandSize
    rw [commandSize] at hle
    have hpos : 1 ≤ Section.entrySize bits := by cases bits <;> decide
    have := Nat.le_mul_of_pos_left s.sections.length hpos
    rw [UInt32.toNat_ofNat', Nat.mod_eq_of_lt (by omega)]
  have hlong : ¬ r.size < headerSize bits := by
    rw [hsize, commandSize]
    omega
  simp only [Segment.read, if_neg hlong, h₁₀.u32, hcount, hsections, n₃, n₄, n₅, n₆, n₇, h₈.half,
    h₉.half, h₁₁.half, fieldText_name hs.name, bind, Except.bind]
  rfl

end Segment

/-- The bytes are a command's: they tell their own length and are read as the command. -/
structure Spells (order : ByteOrder) (bytes : List UInt8) (c : Command) : Prop where
  long : 8 ≤ bytes.length
  short : bytes.length < 2 ^ 32
  size : Holds bytes 4 (order.bytes 4 bytes.length)
  read : Command.read (.ofList order bytes) = .ok c

namespace Command

theorem read_of_kind {r : Reader} {kind : CommandKind} {c : Command} (hsize : 8 ≤ r.size)
    (hcode : r.Has 0 (r.order.half kind.code)) (hkind : CommandKind.ofCode? kind.code = some kind)
    (hbody : readBody r kind = .ok c) : Command.read r = .ok c := by
  simp only [Command.read, if_neg (Nat.not_lt.2 hsize), hcode.half, hkind, bind, Except.bind, hbody]

theorem spells_segment {order : ByteOrder} {bits : Bitness} {s : Segment} (hs : s.Fits bits) :
    Spells order (s.encode order bits) (.segment bits s) := by
  have hlen := Segment.length_encode order bits s
  have hself : (Reader.ofList order (s.encode order bits)).Has 0 (s.encode order bits) :=
    Holds.self _
  have hlong : 8 ≤ (s.encode order bits).length := by
    rw [hlen, Segment.commandSize]
    cases bits <;> simp only [Segment.headerSize] <;> omega
  have hlead : (Reader.ofList order (s.encode order bits)).Has 0
      (s.leadFields order bits).flatten := by
    have h := hself
    rw [Segment.encode_eq order bits s] at h ⊢
    exact h.append_left
  obtain ⟨hcode, hsize, -⟩ := hlead.all
  rw [ByteOrder.half, ByteOrder.bytes_length, ← hlen] at hsize
  refine ⟨hlong, hlen ▸ hs.commandSize, hsize, read_of_kind hlong hcode ?_ ?_⟩
  · cases bits <;> rfl
  · rw [readBody, Segment.read_encode hs hself hlen]
    rfl

end Command

theorem Bytes.le_roundUp {unit : Nat} (hunit : 0 < unit) (n : Nat) :
    n ≤ Bytes.roundUp unit n := by
  have hdiv := Nat.div_add_mod (n + unit - 1) unit
  have hmod := Nat.mod_lt (n + unit - 1) hunit
  rw [Bytes.roundUp, Nat.mul_comm]
  omega

namespace DraftCommand

variable {order : ByteOrder} {bits : Bitness} {c : DraftCommand}

theorem length_encode (order : ByteOrder) (bits : Bitness) (c : DraftCommand) :
    (c.encode order bits).length = sizeFor bits (c.body order bits) := by
  have hunit : 0 < bits.pointerSize := by cases bits <;> decide
  have hle := Bytes.le_roundUp hunit (8 + (c.body order bits).length)
  rw [← sizeFor] at hle
  rw [encode, Bytes.length_pad, List.length_append, List.length_append, ByteOrder.half,
    ByteOrder.bytes_length, ByteOrder.bytes_length]
  omega

theorem length_encode_numbers (numbers : List UInt32)
    (h : c.body order bits = numbers.flatMap order.half) :
    (c.encode order bits).length = Bytes.roundUp bits.pointerSize (8 + 4 * numbers.length) := by
  have hnumbers : (numbers.flatMap order.half).length = 4 * numbers.length := by
    rw [List.length_flatMap, List.map_congr_left fun n _ => order.bytes_length 4 n.toNat,
      List.map_const', List.sum_replicate_nat, Nat.mul_comm]
  rw [length_encode, sizeFor, h, hnumbers]

theorem body_le_encode (order : ByteOrder) (bits : Bitness) (c : DraftCommand) :
    8 + (c.body order bits).length ≤ (c.encode order bits).length := by
  have hunit : 0 < bits.pointerSize := by cases bits <;> decide
  rw [length_encode, sizeFor]
  exact Bytes.le_roundUp hunit _

theorem encode_eq (order : ByteOrder) (bits : Bitness) (c : DraftCommand) :
    c.encode order bits = [order.half (c.code bits), order.bytes 4 (c.encode order bits).length,
      c.body order bits ++ Bytes.zeros
        ((c.encode order bits).length - (8 + (c.body order bits).length))].flatten := by
  rw [length_encode]
  simp [encode, Bytes.pad, ByteOrder.half, ByteOrder.bytes_length, ← Nat.add_assoc]

theorem has_parts (order : ByteOrder) (bits : Bitness) (c : DraftCommand) :
    (Reader.ofList order (c.encode order bits)).Has 0 (order.half (c.code bits)) ∧
      (Reader.ofList order (c.encode order bits)).Has 4
        (order.bytes 4 (c.encode order bits).length) ∧
      (Reader.ofList order (c.encode order bits)).Has 8 (c.body order bits ++ Bytes.zeros
        ((c.encode order bits).length - (8 + (c.body order bits).length))) := by
  have hself : (Reader.ofList order (c.encode order bits)).Has 0
      [order.half (c.code bits), order.bytes 4 (c.encode order bits).length,
        c.body order bits ++ Bytes.zeros
          ((c.encode order bits).length - (8 + (c.body order bits).length))].flatten := by
    rw [← encode_eq]
    exact Holds.self _
  have hall := hself.all
  simp only [Reader.HasAll, ByteOrder.half, ByteOrder.bytes_length, Nat.zero_add, Nat.reduceAdd,
    and_true] at hall
  exact hall

theorem spells (kind : CommandKind) {x : Command} (hcode : c.code bits = kind.code)
    (hkind : CommandKind.ofCode? kind.code = some kind)
    (hshort : (c.encode order bits).length < 2 ^ 32)
    (hbody : Command.readBody (.ofList order (c.encode order bits)) kind = .ok x) :
    Spells order (c.encode order bits) x := by
  obtain ⟨hhead, hsize, -⟩ := has_parts order bits c
  have hle := body_le_encode order bits c
  have hlong : 8 ≤ (c.encode order bits).length := by omega
  rw [hcode] at hhead
  exact ⟨hlong, hshort, hsize, Command.read_of_kind hlong hhead hkind hbody⟩

end DraftCommand

namespace Command

theorem length_chainedFixups (order : ByteOrder) (bits : Bitness) (range : FileRange) :
    (DraftCommand.encode order bits (.chainedFixups range)).length = 16 := by
  rw [DraftCommand.length_encode_numbers [range.offset, range.size] rfl]
  cases bits <;> simp [Bytes.roundUp, Bitness.pointerSize]

theorem spells_chainedFixups (order : ByteOrder) (bits : Bitness) (range : FileRange) :
    Spells order (DraftCommand.encode order bits (.chainedFixups range))
      (.linkedit .chainedFixups range) := by
  have hlen := length_chainedFixups order bits range
  have hbody := (DraftCommand.has_parts order bits (.chainedFixups range)).2.2
  have hfields : (Reader.ofList order (DraftCommand.encode order bits (.chainedFixups range))).Has 8
      [order.half range.offset, order.half range.size].flatten := hbody.append_left
  have hall := hfields.all
  simp only [Reader.HasAll, ByteOrder.half, ByteOrder.bytes_length, Nat.reduceAdd] at hall
  obtain ⟨hoffset, hsize, -⟩ := hall
  refine DraftCommand.spells (.linkedit .chainedFixups) rfl rfl (by omega) ?_
  simp only [readBody, readRange, hoffset.half, hsize.half, bind, Except.bind, pure, Except.pure]

theorem length_bindProgram (order : ByteOrder) (bits : Bitness) (range : FileRange) :
    (DraftCommand.encode order bits (.bindProgram range)).length = 48 := by
  rw [DraftCommand.length_encode_numbers [0, 0, range.offset, range.size, 0, 0, 0, 0, 0, 0] rfl]
  cases bits <;> simp [Bytes.roundUp, Bitness.pointerSize]

theorem spells_bindProgram (order : ByteOrder) (bits : Bitness) (range : FileRange) :
    Spells order (DraftCommand.encode order bits (.bindProgram range))
      (.dyldInfo true ⟨⟨0, 0⟩, range, ⟨0, 0⟩, ⟨0, 0⟩, ⟨0, 0⟩⟩) := by
  have hlen := length_bindProgram order bits range
  have hfields : (Reader.ofList order (DraftCommand.encode order bits (.bindProgram range))).Has 8
      ([0, 0, range.offset, range.size, 0, 0, 0, 0, 0, 0].map order.half).flatten :=
    (DraftCommand.has_parts order bits (.bindProgram range)).2.2.append_left
  have hall := hfields.all
  simp only [List.map_cons, List.map_nil, Reader.HasAll, ByteOrder.half, ByteOrder.bytes_length,
    Nat.reduceAdd] at hall
  obtain ⟨h₁, h₂, h₃, h₄, h₅, h₆, h₇, h₈, h₉, h₁₀, -⟩ := hall
  refine DraftCommand.spells (.dyldInfo true) rfl rfl (by omega) ?_
  simp only [readBody, readRange, h₁.half, h₂.half, h₃.half, h₄.half, h₅.half, h₆.half, h₇.half,
    h₈.half, h₉.half, h₁₀.half, bind, Except.bind, pure, Except.pure]

def encryptionSize : Bitness → Nat
  | .bits32 => 20
  | .bits64 => 24

theorem length_encryption (order : ByteOrder) (bits : Bitness) (e : Encryption) :
    (DraftCommand.encode order bits (.encryption e)).length = encryptionSize bits := by
  cases bits with
  | bits32 =>
    rw [DraftCommand.length_encode_numbers [e.offset, e.size, e.id] (List.append_nil _)]
    simp [Bytes.roundUp, Bitness.pointerSize, encryptionSize]
  | bits64 =>
    rw [DraftCommand.length_encode_numbers [e.offset, e.size, e.id, 0]
      (by simp [DraftCommand.body])]
    simp [Bytes.roundUp, Bitness.pointerSize, encryptionSize]

theorem spells_encryption (order : ByteOrder) (bits : Bitness) (e : Encryption) :
    Spells order (DraftCommand.encode order bits (.encryption e)) (.encryption bits e) := by
  have hlen := length_encryption order bits e
  have hshort : encryptionSize bits < 2 ^ 32 := by cases bits <;> decide
  have hkind :
      CommandKind.ofCode? (CommandKind.encryption bits).code = some (.encryption bits) := by
    cases bits <;> rfl
  have hbody := (DraftCommand.has_parts order bits (.encryption e)).2.2.append_left
  have hfields : (Reader.ofList order (DraftCommand.encode order bits (.encryption e))).Has 8
      [order.half e.offset, order.half e.size, order.half e.id].flatten := hbody.append_left
  have hall := hfields.all
  simp only [Reader.HasAll, ByteOrder.half, ByteOrder.bytes_length, Nat.reduceAdd] at hall
  obtain ⟨hoffset, hsize, hid, -⟩ := hall
  refine DraftCommand.spells (.encryption bits) rfl hkind (hlen ▸ hshort) ?_
  simp only [readBody, hoffset.half, hsize.half, hid.half, bind, Except.bind, pure, Except.pure]

theorem spells_uuid (order : ByteOrder) (bits : Bitness) (bytes : Vector UInt8 16) :
    Spells order (DraftCommand.encode order bits (.uuid bytes.toList)) (.uuid ⟨bytes.toArray⟩) := by
  have hbody : (DraftCommand.body order bits (.uuid bytes.toList)).length = 16 :=
    bytes.length_toList
  have hlen : (DraftCommand.encode order bits (.uuid bytes.toList)).length = 24 := by
    rw [DraftCommand.length_encode, DraftCommand.sizeFor, hbody]
    cases bits <;> rfl
  have hbytes : (Reader.ofList order (DraftCommand.encode order bits (.uuid bytes.toList))).Has 8
      (DraftCommand.body order bits (.uuid bytes.toList)) :=
    (DraftCommand.has_parts order bits (.uuid bytes.toList)).2.2.append_left
  have hslice := hbytes.slice
  rw [hbody] at hslice
  refine DraftCommand.spells .uuid rfl rfl (by omega) ?_
  simp only [readBody, hslice, bind, Except.bind, pure, Except.pure]
  rfl

def draftDylib (name : String) : Dylib := ⟨name, 2, 0x10000, 0x10000⟩

theorem readText_of_has {r : Reader} {offset count : Nat} {start : UInt32} {text : String}
    (hz : '\x00' ∉ text.toList) (hstart : r.Has offset (r.order.half start))
    (htext : r.Has start.toNat (Utf8.encode text ++ Bytes.zeros (count + 1)))
    (hend : r.size = start.toNat + (Utf8.encode text ++ Bytes.zeros (count + 1)).length) :
    readText r offset = .ok text := by
  have hslice := htext.slice
  have hrest : r.size - start.toNat = (Utf8.encode text ++ Bytes.zeros (count + 1)).length := by
    omega
  have hinside : ¬ r.size ≤ start.toNat := by
    rw [hend, List.length_append, Bytes.zeros, List.length_replicate]
    omega
  simp only [readText, hstart.half, if_neg hinside, hrest, hslice, fieldText_zeros hz, bind,
    Except.bind, pure, Except.pure]

theorem spells_dylib {order : ByteOrder} {bits : Bitness} {name : String}
    (hname : '\x00' ∉ name.toList)
    (hshort : (DraftCommand.encode order bits (.dylib name)).length < 2 ^ 32) :
    Spells order (DraftCommand.encode order bits (.dylib name))
      (.dylib .load (draftDylib name)) := by
  have hle := DraftCommand.body_le_encode order bits (.dylib name)
  have hbody := (DraftCommand.has_parts order bits (.dylib name)).2.2
  obtain ⟨count, hcount⟩ := Nat.exists_eq_add_of_le hle
  have hparts : (Reader.ofList order (DraftCommand.encode order bits (.dylib name))).Has 8
      [order.half DraftCommand.dylibNameOffset, order.half 2, order.half 0x10000,
        order.half 0x10000, Utf8.encode name ++ Bytes.zeros (count + 1)].flatten := by
    rw [show _ - _ = count from Nat.sub_eq_of_eq_add' hcount] at hbody
    simpa [DraftCommand.body, Bytes.cstring, Bytes.zeros, List.replicate_succ] using hbody
  have hall := hparts.all
  simp only [Reader.HasAll, ByteOrder.half, ByteOrder.bytes_length, Nat.reduceAdd] at hall
  obtain ⟨hstart, htime, hcurrent, hcompatible, htext, -⟩ := hall
  have hend : (Reader.ofList order (DraftCommand.encode order bits (.dylib name))).size =
      24 + (Utf8.encode name ++ Bytes.zeros (count + 1)).length := by
    change (DraftCommand.encode order bits (.dylib name)).length = _
    rw [hcount]
    simp [DraftCommand.body, Bytes.cstring, Bytes.zeros, ByteOrder.half, ByteOrder.bytes_length]
    omega
  have hname := readText_of_has hname hstart htext hend
  refine DraftCommand.spells (.dylib .load) rfl rfl hshort ?_
  simp only [readBody, readDylib, hname, htime.half, hcurrent.half, hcompatible.half, bind,
    Except.bind, pure, Except.pure]
  rfl

end Command

namespace Slice

theorem readCommands_of_spells {table : Reader} {start index offset : Nat}
    {items : List (List UInt8 × Command)} (hs : ∀ x ∈ items, Spells table.order x.1 x.2)
    (h : table.Has offset (items.map Prod.fst).flatten) :
    readCommands table start items.length index offset = .ok (items.map Prod.snd) := by
  induction items generalizing index offset with
  | nil => rfl
  | cons x items ih =>
    obtain ⟨hx, hrest⟩ := List.forall_mem_cons.1 hs
    rw [List.map_cons, List.flatten_cons] at h
    have hhead : table.Has offset x.1 := h.append_left
    have hlen := hhead.length_le
    rw [← Reader.size_eq_length] at hlen
    have hlong := hx.long
    have hsize : table.u32 (offset + 4) = .ok (UInt32.ofNat x.1.length) := by
      have hat : table.Has (offset + 4) (table.order.bytes 4 x.1.length) := hhead.trans hx.size
      exact hat.u32
    have hnat : (UInt32.ofNat x.1.length).toNat = x.1.length := by
      rw [UInt32.toNat_ofNat', Nat.mod_eq_of_lt hx.short]
    have hread := hx.read
    simp only [List.length_cons, readCommands, hsize, hnat, hhead.sub, hread,
      ih hrest h.append_right, bind, Except.bind, Except.mapError, List.map_cons, pure, Except.pure]
    rw [if_neg (by omega), if_neg (by omega), if_neg (by omega), if_neg (by omega)]

end Slice

end ObjcAtlas
