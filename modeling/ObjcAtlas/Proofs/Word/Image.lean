import ObjcAtlas.Image.Slice
import ObjcAtlas.Proofs.Word.Reader

set_option autoImplicit false

namespace ObjcAtlas.Run

open Word

def first (order : ByteOrder) (bytes : ByteArray) : Run UInt32 := do
  return UInt32.ofNat (order.value (← cut bytes 0 4).data.toList)

def isUniversal (bytes : ByteArray) : Run Bool := do
  if bytes.size < 4 then return false
  else return (Magic.classifyUniversal (← first .big bytes)).isSome

def header (bytes : ByteArray) : Run Header := do
  if bytes.size < 28 then throw (.tooShort 28 bytes.size)
  let magic ← first .little bytes
  let some (bits, order) := Magic.classify magic
    | throw (.badMagic "Mach-O" (← cut bytes 0 4).data.toList)
  if bytes.size < Header.sizeFor bits then throw (.tooShort (Header.sizeFor bits) bytes.size)
  let r : Reader := ⟨bytes, order⟩
  return {
    magic, bits, order
    cpuType := ← u32 r 4
    subtype := ← u32 r 8
    fileType := .ofCode (← u32 r 12)
    commandCount := ← u32 r 16
    commandsSize := ← u32 r 20
    flags := ← u32 r 24 }

def placement (r : Reader) (bits : Bitness) (offset : Nat) : Run Placement := do
  let p := bits.pointerSize
  return {
    cpuType := ← u32 r offset
    subtype := ← u32 r (← plus offset 4)
    offset := ← pointer r bits (← plus offset 8)
    size := ← pointer r bits (← plus offset (8 + p))
    align := ← u32 r (← plus offset (8 + 2 * p)) }

def placements (bytes : ByteArray) : Run (List Placement) := do
  if bytes.size < 8 then throw (.tooShort 8 bytes.size)
  let some (bits, order) := Magic.classifyUniversal (← first .big bytes)
    | throw (.badMagic "fat Mach-O" (← cut bytes 0 4).data.toList)
  let r : Reader := ⟨bytes, order⟩
  let count := (← u32 r 4).toNat
  let tableEnd := 8 + count * Placement.entrySize bits
  -- The end of the table is a checked sum.
  if 2 ^ 64 ≤ tableEnd then throw (.overflow "fat arch table")
  if bytes.size < tableEnd then throw (.tooShort tableEnd bytes.size)
  let (found, _) ← stepping (placement r bits) (Placement.entrySize bits) count 8
  return found

def sectionAt (bits : Bitness) (r : Reader) (base : Nat) : Run Section := do
  let p := bits.pointerSize
  return {
    name := ← fieldText (← slice r base 16)
    segmentName := ← fieldText (← slice r (← plus base 16) 16)
    address := ← pointer r bits (← plus base 32)
    size := ← pointer r bits (← plus base (32 + p))
    offset := ← u32 r (← plus base (32 + 2 * p))
    align := ← u32 r (← plus base (36 + 2 * p))
    relocationOffset := ← u32 r (← plus base (40 + 2 * p))
    relocationCount := ← u32 r (← plus base (44 + 2 * p))
    flags := ← u32 r (← plus base (48 + 2 * p))
    reserved1 := ← u32 r (← plus base (52 + 2 * p))
    reserved2 := ← u32 r (← plus base (56 + 2 * p))
    reserved3 := ← match bits with
      | .bits32 => pure 0
      | .bits64 => do u32 r (← plus base (60 + 2 * p)) }

def sections (bits : Bitness) (r : Reader) (count : Nat) : Run (List Section) := do
  let needed ← plus (Segment.headerSize bits) (← times count (Section.entrySize bits))
  if r.size < needed then
    throw (.badStructure "segment" 0 (Text.decimal count ++ " sections need " ++
      Text.decimal needed ++ " bytes, command has " ++ Text.decimal r.size))
  (List.range count).mapM fun i => do
    sectionAt bits r (← plus (Segment.headerSize bits) (← times i (Section.entrySize bits)))

def segment (bits : Bitness) (r : Reader) : Run Segment := do
  if r.size < Segment.headerSize bits then throw (.tooShort (Segment.headerSize bits) r.size)
  let p := bits.pointerSize
  let rest := 24 + 4 * p
  let sections ← sections bits r (← u32 r (rest + 8)).toNat
  return {
    name := ← fieldText (← slice r 8 16)
    address := ← pointer r bits 24
    size := ← pointer r bits (24 + p)
    fileOffset := ← pointer r bits (24 + 2 * p)
    fileSize := ← pointer r bits (24 + 3 * p)
    maxProtection := ← u32 r rest
    protection := ← u32 r (rest + 4)
    flags := ← u32 r (rest + 12)
    sections }

def range (r : Reader) (offset : Nat) : Run FileRange := do
  return ⟨← u32 r offset, ← u32 r (offset + 4)⟩

def text (r : Reader) (offset : Nat) : Run String := do
  let start := (← u32 r offset).toNat
  if r.size ≤ start then
    throw (.badStructure "lc_str" start "string offset past end of command")
  fieldText (← slice r start (← minus r.size start))

def dylib (r : Reader) : Run Dylib := do
  return {
    name := ← text r 8
    timestamp := ← u32 r 12
    currentVersion := ← u32 r 16
    compatibilityVersion := ← u32 r 20 }

def body (r : Reader) : CommandKind → Run Command
  | .segment bits => return .segment bits (← segment bits r)
  | .symtab => return .symtab (← u32 r 8) (← u32 r 12) (← u32 r 16) (← u32 r 20)
  | .dysymtab =>
    return .dysymtab (← u32 r 8) (← u32 r 12) (← u32 r 16) (← u32 r 20) (← u32 r 24) (← u32 r 28)
  | .dylib link => return .dylib link (← dylib r)
  | .idDylib => return .idDylib (← dylib r)
  | .rpath => return .rpath (← text r 8)
  | .uuid => return .uuid (← array r 8 16)
  | .buildVersion => return .buildVersion (← u32 r 8) (← u32 r 12) (← u32 r 16)
  | .versionMin platform => return .versionMin platform (← u32 r 8) (← u32 r 12)
  | .sourceVersion => return .sourceVersion (← u64 r 8)
  | .entryPoint => return .entryPoint (← u64 r 8) (← u64 r 16)
  | .encryption bits => return .encryption bits ⟨← u32 r 8, ← u32 r 12, ← u32 r 16⟩
  | .dyldInfo only =>
    return .dyldInfo only ⟨← range r 8, ← range r 16, ← range r 24, ← range r 32, ← range r 40⟩
  | .linkedit table => return .linkedit table (← range r 8)

def command (r : Reader) : Run Command := do
  if r.size < 8 then throw (.tooShort 8 r.size)
  let code ← u32 r 0
  match CommandKind.ofCode? code with
  | some kind => body r kind
  | none => return .unrecognized code r.bytes

def commands (table : Reader) (start : Nat) : (count index offset : Nat) → Run (List Command)
  | 0, _, _ => return []
  | count + 1, index, offset => do
    let place ← plus start offset
    let malformed (reason : String) : ImageError := .malformedCommand index place reason
    if table.size < (← plus offset 8) then throw (malformed "command header past sizeofcmds")
    let size := (← u32 table (← plus offset 4)).toNat
    if size = 0 then throw (malformed "cmdsize is zero")
    if size < 8 then
      throw (malformed ("cmdsize " ++ Text.decimal size ++ " is smaller than a command header"))
    if table.size < (← plus offset size) then
      throw (malformed ("cmdsize " ++ Text.decimal size ++ " runs past sizeofcmds " ++
        Text.decimal table.size))
    let body ← sub table offset size
    let found ← (command body).adapt fun e => malformed e.message
    return found :: (← commands table start count (index + 1) (← plus offset size))

def commandTable (r : Reader) (h : Header) : Run (List Command) := do
  let table ← (sub r h.size h.commandsSize.toNat).adapt fun _ =>
    .malformedCommand 0 h.size
      (Text.decimal h.commandsSize.toNat ++ " bytes of commands exceed the image")
  commands table h.size h.commandCount.toNat 0 0

theorem runs_first {order : ByteOrder} {bytes : ByteArray} (h : 4 ≤ bytes.size) :
    Runs (first order bytes) (.ok (Magic.first order bytes)) := by
  rw [first, Magic.first, if_neg (by omega)]
  exact .step (cut_eq (by omega) h) (runs_pure _)

theorem runs_isUniversal (bytes : ByteArray) :
    Runs (isUniversal bytes) (.ok (ObjcAtlas.isUniversal bytes)) := by
  rw [isUniversal, ObjcAtlas.isUniversal]
  by_cases h : bytes.size < 4
  · rw [if_pos h, Magic.first, if_pos h]
    rfl
  · rw [if_neg h]
    exact (runs_first (by omega)).of_ok (runs_pure _)

theorem runs_header {bytes : ByteArray} (h : bytes.size < 2 ^ 63) :
    Runs (header bytes) (Header.read bytes) := by
  rw [header, Header.read]
  refine .throw_if Iff.rfl fun hleast => (runs_first (by omega)).of_ok ?_
  dsimp only
  cases Magic.classify (Magic.first .little bytes) with
  | none => exact .step (cut_eq (by omega) (by omega)) (runs_throw _)
  | some found =>
    obtain ⟨bits, order⟩ := found
    refine .throw_if Iff.rfl fun _ => ?_
    have hr : Reader.size ⟨bytes, order⟩ < 2 ^ 63 := h
    iterate 6 refine (runs_u32 hr _).bind fun _ _ => ?_
    exact runs_pure _

section

variable {r : Reader} (hr : r.size < 2 ^ 63) (bits : Bitness)

include hr

theorem runs_placement {offset : Nat} (ho : offset + Placement.entrySize bits ≤ r.size) :
    Runs (placement r bits offset) (Placement.read r bits offset) := by
  have hp : 8 + 2 * bits.pointerSize ≤ Placement.entrySize bits := by cases bits <;> decide
  rw [placement, Placement.read]
  refine (runs_u32 hr _).bind fun _ _ => ?_
  refine .step (plus_eq (by omega)) ((runs_u32 hr _).bind fun _ _ => ?_)
  refine .step (plus_eq (by omega)) ((runs_pointer hr bits _).bind fun _ _ => ?_)
  refine .step (plus_to (by omega) (by omega)) ((runs_pointer hr bits _).bind fun _ _ => ?_)
  refine .step (plus_to (by omega) (by omega)) ((runs_u32 hr _).bind fun _ _ => ?_)
  exact runs_pure _

theorem runs_sectionAt {base : Nat} (hb : base + Section.entrySize bits ≤ r.size) :
    Runs (sectionAt bits r base) (Section.read bits r base) := by
  have hp : 60 + 2 * bits.pointerSize ≤ Section.entrySize bits := by cases bits <;> decide
  rw [sectionAt, Section.read]
  refine (runs_slice hr _ _).bind fun _ _ => (runs_fieldText _).of_ok ?_
  refine .step (plus_eq (by omega)) ((runs_slice hr _ _).bind fun _ _ => ?_)
  refine (runs_fieldText _).of_ok ?_
  refine .step (plus_eq (by omega)) ((runs_pointer hr bits _).bind fun _ _ => ?_)
  refine .step (plus_to (by omega) (by omega)) ((runs_pointer hr bits _).bind fun _ _ => ?_)
  iterate 7 refine .step (plus_to (by omega) (by omega)) ((runs_u32 hr _).bind fun _ _ => ?_)
  cases bits with
  | bits32 => exact runs_pure _
  | bits64 =>
    exact .step (plus_to (by omega) (by omega)) ((runs_u32 hr _).bind fun _ _ => runs_pure _)

theorem runs_sections {count : Nat} (hc : count < 2 ^ 32) :
    Runs (sections bits r count) (Segment.readSections bits r count) := by
  have hentry : Section.entrySize bits ≤ 80 := by cases bits <;> decide
  have hheader : Segment.headerSize bits ≤ 72 := by cases bits <;> decide
  have hroom : count * Section.entrySize bits ≤ 2 ^ 32 * 80 := Nat.mul_le_mul (by omega) hentry
  rw [sections, Segment.readSections]
  refine .step (times_eq (by omega)) (.step (plus_eq (by omega)) ?_)
  by_cases hfit : r.size < Segment.headerSize bits + count * Section.entrySize bits
  · rw [if_pos hfit, if_pos hfit]
    rfl
  · rw [if_neg hfit, if_neg hfit]
    refine .mapM fun i hi => ?_
    have hlast : (i + 1) * Section.entrySize bits ≤ count * Section.entrySize bits :=
      Nat.mul_le_mul_right _ (List.mem_range.1 hi)
    rw [Nat.succ_mul] at hlast
    refine .step (times_eq (by omega)) (.step (plus_eq (by omega)) ?_)
    exact runs_sectionAt hr bits (by omega)

theorem runs_segment : Runs (segment bits r) (Segment.read bits r) := by
  rw [segment, Segment.read]
  refine .throw_if Iff.rfl fun _ => (runs_u32 hr _).bind fun count _ => ?_
  refine (runs_sections hr bits count.toNat_lt).bind fun _ _ => ?_
  refine (runs_slice hr _ _).bind fun _ _ => (runs_fieldText _).of_ok ?_
  iterate 4 refine (runs_pointer hr bits _).bind fun _ _ => ?_
  iterate 3 refine (runs_u32 hr _).bind fun _ _ => ?_
  exact runs_pure _

omit bits

theorem runs_range (offset : Nat) : Runs (range r offset) (Command.readRange r offset) := by
  rw [range, Command.readRange]
  iterate 2 refine (runs_u32 hr _).bind fun _ _ => ?_
  exact runs_pure _

theorem runs_text (offset : Nat) : Runs (text r offset) (Command.readText r offset) := by
  rw [text, Command.readText]
  refine (runs_u32 hr _).bind fun start _ => .throw_if Iff.rfl fun hin => ?_
  refine .step (minus_eq (by omega)) ((runs_slice hr _ _).bind fun _ _ => ?_)
  exact runs_fieldText _

theorem runs_dylib : Runs (dylib r) (Command.readDylib r) := by
  rw [dylib, Command.readDylib]
  refine (runs_text hr 8).bind fun _ _ => ?_
  iterate 3 refine (runs_u32 hr _).bind fun _ _ => ?_
  exact runs_pure _

theorem runs_body (kind : CommandKind) : Runs (body r kind) (Command.readBody r kind) := by
  cases kind with
  | segment bits => exact (runs_segment hr bits).bind fun _ _ => runs_pure _
  | dylib link => exact (runs_dylib hr).bind fun _ _ => runs_pure _
  | idDylib => exact (runs_dylib hr).bind fun _ _ => runs_pure _
  | rpath => exact (runs_text hr 8).bind fun _ _ => runs_pure _
  | uuid => exact (runs_array hr 8 16).bind fun _ _ => runs_pure _
  | sourceVersion => exact (runs_u64 hr 8).bind fun _ _ => runs_pure _
  | entryPoint =>
    exact (runs_u64 hr 8).bind fun _ _ => (runs_u64 hr 16).bind fun _ _ => runs_pure _
  | linkedit table => exact (runs_range hr 8).bind fun _ _ => runs_pure _
  | dyldInfo only =>
    rw [body, Command.readBody]
    iterate 5 refine (runs_range hr _).bind fun _ _ => ?_
    exact runs_pure _
  | symtab =>
    rw [body, Command.readBody]
    iterate 4 refine (runs_u32 hr _).bind fun _ _ => ?_
    exact runs_pure _
  | dysymtab =>
    rw [body, Command.readBody]
    iterate 6 refine (runs_u32 hr _).bind fun _ _ => ?_
    exact runs_pure _
  | buildVersion | encryption =>
    rw [body, Command.readBody]
    iterate 3 refine (runs_u32 hr _).bind fun _ _ => ?_
    exact runs_pure _
  | versionMin =>
    rw [body, Command.readBody]
    iterate 2 refine (runs_u32 hr _).bind fun _ _ => ?_
    exact runs_pure _

theorem runs_command : Runs (command r) (Command.read r) := by
  rw [command, Command.read]
  refine .throw_if Iff.rfl fun _ => (runs_u32 hr 0).bind fun code _ => ?_
  cases CommandKind.ofCode? code with
  | none => exact runs_pure _
  | some kind => exact runs_body hr kind

end

theorem size_lt_of_sub {r part : Reader} {offset length : Nat} (hr : r.size < 2 ^ 63)
    (h : r.sub offset length = .ok part) : part.size < 2 ^ 63 := by
  obtain ⟨bytes, hbytes, -⟩ := map_eq_ok.1 h
  have hle := (Reader.le_of_slice hbytes).1
  rw [Reader.size_of_sub h]
  omega

theorem runs_commands {table : Reader} (ht : table.size < 2 ^ 63) {start count index offset : Nat}
    (hs : start ≤ 32) (ho : offset ≤ table.size) :
    Runs (commands table start count index offset)
      (Slice.readCommands table start count index offset) := by
  induction count generalizing index offset with
  | zero => exact runs_pure []
  | succ count ih =>
    rw [commands, Slice.readCommands]
    refine .step (plus_eq (by omega)) (.step (plus_eq (by omega)) ?_)
    refine .throw_if Iff.rfl fun _ => .step (plus_eq (by omega)) ?_
    refine (runs_u32 ht _).bind fun size _ => ?_
    refine .throw_if Iff.rfl fun _ => .throw_if Iff.rfl fun _ => ?_
    have hsize := size.toNat_lt
    refine .step (plus_eq (by omega)) (.throw_if Iff.rfl fun hin => ?_)
    refine (runs_sub ht _ _).bind fun part hpart => ?_
    refine ((runs_command (size_lt_of_sub ht hpart)).adapt _).bind fun found _ => ?_
    refine .step (plus_eq (by omega)) ((ih (by omega)).bind fun rest _ => ?_)
    exact runs_pure _

theorem runs_commandTable {r : Reader} (hr : r.size < 2 ^ 63) (h : Header) :
    Runs (commandTable r h) (Slice.readCommandTable r h) := by
  have hsize : h.size ≤ 32 := by
    rw [Header.size]
    cases h.bits <;> decide
  rw [commandTable, Slice.readCommandTable]
  refine ((runs_sub hr _ _).adapt _).bind fun table htable => ?_
  exact runs_commands (size_lt_of_sub hr (mapError_eq_ok.1 htable)) hsize (Nat.zero_le _)

theorem runs_placements {bytes : ByteArray} (h : bytes.size < 2 ^ 63) :
    Runs (placements bytes) (Placement.readTable bytes) := by
  rw [placements, Placement.readTable]
  refine .throw_if Iff.rfl fun hleast => (runs_first (by omega)).of_ok ?_
  cases Magic.classifyUniversal (Magic.first .big bytes) with
  | none => exact .step (cut_eq (by omega) (by omega)) (runs_throw _)
  | some found =>
    obtain ⟨bits, order⟩ := found
    have hr : Reader.size ⟨bytes, order⟩ < 2 ^ 63 := h
    refine (runs_u32 hr 4).bind fun count _ => ?_
    have hcount := count.toNat_lt
    have hentry : Placement.entrySize bits ≤ 32 := by cases bits <;> decide
    have hroom : count.toNat * Placement.entrySize bits ≤ 2 ^ 32 * 32 :=
      Nat.mul_le_mul (by omega) hentry
    dsimp only
    rw [if_neg (by omega)]
    refine .throw_if Iff.rfl fun hfit => ?_
    have hread (i : Nat) (hi : i < count.toNat) :
        Runs (placement ⟨bytes, order⟩ bits (8 + i * Placement.entrySize bits))
          (Placement.read ⟨bytes, order⟩ bits (8 + i * Placement.entrySize bits)) := by
      have hlast : (i + 1) * Placement.entrySize bits ≤ count.toNat * Placement.entrySize bits :=
        Nat.mul_le_mul_right _ hi
      rw [Nat.succ_mul] at hlast
      exact runs_placement hr bits (show _ ≤ bytes.size by omega)
    rw [← bind_pure ((List.range count.toNat).mapM _)]
    exact (Runs.stepping _ _ _ hread (by omega)).bind_of_map fun found _ => runs_pure found

end ObjcAtlas.Run
