import ObjcAtlas.Proofs.Fixup.Located
import ObjcAtlas.Proofs.Text.Lossy
import ObjcAtlas.Proofs.Word.Image

set_option autoImplicit false

namespace ObjcAtlas.Run

open Word

def bind (s : BindState) (pc : Nat) (table : BindTable) : Run BindTable :=
  match s.segment with
  | none => throw (.badStructure "bind opcodes" pc "bind before segment was set")
  | some segment =>
    if segment.fileSize ≤ s.offset then
      throw (.badStructure "bind opcodes" pc
        ("offset " ++ Text.hex s.offset.toNat ++ " outside " ++ segment.name))
    else if s.isAnnouncement then return table
    else do
      let place ← plus segment.fileOffset.toNat s.offset.toNat
      return table.insert place s.target

def bindTimes (distance : UInt64) (pc : Nat) :
    (count : Nat) → BindState → BindTable → Run (BindState × BindTable)
  | 0, s, table => return (s, table)
  | count + 1, s, table => do
    let table ← bind s pc table
    bindTimes distance pc count (s.advance distance) table

def bindStep (p : BindProgram) (byte pc : Nat) (s : BindState) (table : BindTable) :
    Run BindStep := do
  let operand := byte % 16
  match byte / 16 with
  | 0x0 => return if p.weak then .next pc s table else .done table
  | 0x1 => return .next pc { s with ordinal := Int32.ofNat operand } table
  | 0x2 =>
    let (value, length) ← uleb p.code pc
    return .next (← plus pc length) { s with ordinal := value.toUInt32.toInt32 } table
  | 0x3 => return .next pc { s with ordinal := BindProgram.specialOrdinal operand } table
  | 0x4 =>
    let symbol ← cstring p.code pc
    let pc ← plus pc (← plus symbol.utf8ByteSize 1)
    return .next pc { s with symbol, flags := operand } table
  | 0x5 => return .next pc s table
  | 0x6 =>
    let (value, length) ← sleb p.code pc
    return .next (← plus pc length) { s with addend := value } table
  | 0x7 =>
    let (value, length) ← uleb p.code pc
    let pc ← plus pc length
    match p.segments[operand]? with
    | some found => return .next pc { s with segment := some found, offset := value } table
    | none =>
      throw (.badStructure "bind opcodes" pc
        ("segment " ++ Text.decimal operand ++ " out of range"))
  | 0x8 =>
    let (value, length) ← uleb p.code pc
    return .next (← plus pc length) (s.advance value) table
  | 0x9 =>
    let table ← bind s pc table
    return .next pc (s.advance p.pointerSize) table
  | 0xA =>
    let table ← bind s pc table
    let (value, length) ← uleb p.code pc
    return .next (← plus pc length) (s.advance (value + p.pointerSize)) table
  | 0xB =>
    let table ← bind s pc table
    let distance ← plus (← times operand p.bits.pointerSize) p.bits.pointerSize
    return .next pc (s.advance (UInt64.ofNat distance)) table
  | 0xC =>
    let (count, length) ← uleb p.code pc
    let pc ← plus pc length
    let (skip, length) ← uleb p.code pc
    let pc ← plus pc length
    let (s, table) ← bindTimes (skip + p.pointerSize) pc count.toNat s table
    return .next pc s table
  | 0xD => throw (.unsupportedVersion "threaded bind opcodes" operand)
  | _ =>
    throw (.badStructure "bind opcodes" (← minus pc 1)
      ("unknown opcode 0x" ++ Text.padLeft '0' 2 (Text.hexDigits byte)))

def bindFrom (p : BindProgram) : (fuel pc : Nat) → BindState → BindTable → Run BindTable
  | 0, _, _, _ => trap
  | fuel + 1, pc, s, table => do
    if pc < p.code.size then
      let byte ← u8 p.code pc
      match ← bindStep p byte.toNat (← plus pc 1) s table with
      | .done table => return table
      | .next pc s table => bindFrom p fuel pc s table
    else return table

def bindRange (image : Reader) (segments : List Segment) (bits : Bitness) (weak : Bool)
    (range : FileRange) (table : BindTable) : Run BindTable := do
  if range.size = 0 then return table
  else
    let code ← sub image range.offset.toNat range.size.toNat
    bindFrom { code, segments, bits, weak } (code.size + 1) 0 (.initial weak) table

def bindTable (image : Reader) (strong weakBind : FileRange) (segments : List Segment)
    (bits : Bitness) : Run BindTable := do
  let table ← bindRange image segments bits false strong ∅
  bindRange image segments bits true weakBind table

section

variable {segments : List Segment} (hsegments : ∀ t ∈ segments, t.fileEnd < 2 ^ 63)
  {s : BindState} {table : BindTable}

include hsegments

theorem runs_bind (hl : BindState.Located segments s table) (pc : Nat) :
    Runs (bind s pc table) (s.bind pc table) := by
  rw [bind, BindState.bind]
  cases hsegment : s.segment with
  | none => exact runs_throw _
  | some t =>
    have hend := hsegments t (hl.segment t hsegment)
    rw [Segment.fileEnd] at hend
    refine .ite (fun _ => runs_throw _) fun hin => .ite (fun _ => runs_pure _) fun _ => ?_
    rw [UInt64.not_le, UInt64.lt_iff_toNat_lt] at hin
    exact .step (plus_eq (by omega)) (runs_pure _)

theorem runs_bindTimes (hl : BindState.Located segments s table) (distance : UInt64)
    (pc count : Nat) :
    Runs (bindTimes distance pc count s table) (BindState.bindTimes distance pc count s table) := by
  induction count generalizing s table with
  | zero => exact runs_pure _
  | succ count ih =>
    refine (runs_bind hsegments hl pc).bind fun table' htable => ?_
    exact ih ⟨hl.segment, (hl.bind htable).slots⟩

end

theorem length_cstring_le {r : Reader} {offset : Nat} {text : String}
    (h : r.cstring offset = .ok text) : text.utf8ByteSize ≤ 8 * r.size + 4 := by
  obtain ⟨bytes, hbytes, rfl⟩ := map_eq_ok.1 h
  have hlength : bytes.length ≤ r.size := by
    rw [Reader.untilZero] at hbytes
    split at hbytes
    · cases hbytes
    split at hbytes
    · obtain rfl := Except.ok.inj hbytes
      have hsize : r.size = r.bytes.size := rfl
      rw [Array.length_toList, ← ByteArray.size, ByteArray.size_extract]
      omega
    · cases hbytes
  have htext := Utf8.decodeLossy_length_le bytes
  omega

section

variable {p : BindProgram} (hcode : p.code.size < 2 ^ 32)
  (hsegments : ∀ t ∈ p.segments, t.fileEnd < 2 ^ 63) {s : BindState} {table : BindTable}

include hcode hsegments

theorem runs_bindStep (hl : BindState.Located p.segments s table) {byte pc : Nat} (hpos : 1 ≤ pc)
    (hpc : pc ≤ p.code.size) : Runs (bindStep p byte pc s table) (p.step byte pc s table) := by
  have hr : p.code.size < 2 ^ 63 := by omega
  have hbind := runs_bind hsegments hl
  rw [bindStep, BindProgram.step]
  generalize byte / 16 = op
  have hop : (op = 0 ∨ op = 1 ∨ op = 3 ∨ op = 5) ∨ (op = 2 ∨ op = 8) ∨ op = 4 ∨ op = 6 ∨ op = 7 ∨
      op = 9 ∨ op = 10 ∨ op = 11 ∨ op = 12 ∨ op = 13 ∨ 14 ≤ op := by omega
  obtain hop | hop | rfl | rfl | rfl | rfl | rfl | rfl | rfl | rfl | hop := hop
  · obtain rfl | rfl | rfl | rfl := hop
    all_goals exact runs_pure _
  · obtain rfl | rfl := hop
    all_goals
      refine (runs_uleb hr hpc).bind fun found hfound => ?_
      have hend := uleb_length_le hfound
      exact .step (plus_eq (by omega)) (runs_pure _)
  · refine (runs_cstring hr pc).bind fun symbol hsymbol => ?_
    have hlength := length_cstring_le hsymbol
    exact .step (plus_eq (by omega)) (.step (plus_eq (by omega)) (runs_pure _))
  · refine (runs_sleb hr hpc).bind fun found hfound => ?_
    have hend := sleb_length_le hfound
    exact .step (plus_eq (by omega)) (runs_pure _)
  · refine (runs_uleb hr hpc).bind fun found hfound => ?_
    have hend := uleb_length_le hfound
    refine .step (plus_eq (by omega)) ?_
    cases p.segments[byte % 16]? with
    | none => exact runs_throw _
    | some t => exact runs_pure _
  · exact (hbind pc).bind fun _ _ => runs_pure _
  · refine (hbind pc).bind fun _ _ => (runs_uleb hr hpc).bind fun found hfound => ?_
    have hend := uleb_length_le hfound
    exact .step (plus_eq (by omega)) (runs_pure _)
  · refine (hbind pc).bind fun _ _ => ?_
    have hsize : p.bits.pointerSize ≤ 8 := by cases p.bits <;> decide
    have hproduct : byte % 16 * p.bits.pointerSize ≤ 16 * 8 := Nat.mul_le_mul (by omega) hsize
    refine .step (times_eq (by omega)) (.step (plus_eq (by omega)) ?_)
    rw [UInt64.ofNat_add, UInt64.ofNat_mul]
    exact runs_pure _
  · refine (runs_uleb hr hpc).bind fun count hcount => ?_
    have hend := uleb_length_le hcount
    refine .step (plus_eq (by omega)) ((runs_uleb hr hend).bind fun skip hskip => ?_)
    have hend' := uleb_length_le hskip
    refine .step (plus_eq (by omega)) ?_
    exact (runs_bindTimes hsegments hl _ _ _).bind fun _ _ => runs_pure _
  · exact runs_throw _
  · obtain ⟨op, rfl⟩ := Nat.exists_eq_add_of_le' hop
    exact .step (minus_eq hpos) (runs_throw _)

end

/-- The counter does not move back. -/
def Forward (pc : Nat) : BindStep → Prop
  | .done _ => True
  | .next pc' _ _ => pc ≤ pc'

theorem forward_of_step {p : BindProgram} {byte pc : Nat} {s : BindState} {table : BindTable}
    {r : BindStep} (h : p.step byte pc s table = .ok r) : Forward pc r := by
  rw [BindProgram.step] at h
  split at h
  case h_1 =>
    obtain rfl := Except.ok.inj h
    split
    · exact Nat.le_refl pc
    · trivial
  case h_2 | h_4 | h_6 =>
    cases h
    exact Nat.le_refl pc
  case h_3 | h_7 | h_9 =>
    obtain ⟨found, -, h⟩ := bind_eq_ok.1 h
    cases h
    exact Nat.le_add_right pc _
  case h_5 =>
    obtain ⟨symbol, -, h⟩ := bind_eq_ok.1 h
    cases h
    exact Nat.le_add_right pc (symbol.utf8ByteSize + 1)
  case h_8 =>
    obtain ⟨found, -, h⟩ := bind_eq_ok.1 h
    dsimp only at h
    split at h
    · cases h
      exact Nat.le_add_right pc _
    · cases h
  case h_10 | h_12 =>
    obtain ⟨table', -, h⟩ := bind_eq_ok.1 h
    cases h
    exact Nat.le_refl pc
  case h_11 =>
    obtain ⟨table', -, h⟩ := bind_eq_ok.1 h
    obtain ⟨found, -, h⟩ := bind_eq_ok.1 h
    cases h
    exact Nat.le_add_right pc _
  case h_13 =>
    obtain ⟨count, -, h⟩ := bind_eq_ok.1 h
    obtain ⟨skip, -, h⟩ := bind_eq_ok.1 h
    obtain ⟨⟨s', table'⟩, -, h⟩ := bind_eq_ok.1 h
    cases h
    exact Nat.le_trans (Nat.le_add_right pc _) (Nat.le_add_right _ _)
  case h_14 | h_15 => cases h

/-- Each instruction takes a byte at least, so that the program bounds the number of rounds. -/
theorem runs_bindFrom {p : BindProgram} (hcode : p.code.size < 2 ^ 32)
    (hsegments : ∀ t ∈ p.segments, t.fileEnd < 2 ^ 63) {fuel pc : Nat} {s : BindState}
    {table : BindTable} (hf : p.code.size ≤ pc + fuel)
    (hl : BindState.Located p.segments s table) :
    Runs (bindFrom p (fuel + 1) pc s table) (p.runFrom fuel pc s table) := by
  induction fuel generalizing pc s table with
  | zero =>
    rw [bindFrom, if_neg (by omega)]
    exact runs_pure table
  | succ fuel ih =>
    rw [bindFrom, BindProgram.runFrom]
    refine .ite (fun hin => ?_) fun _ => runs_pure table
    refine (runs_u8 (by omega) pc).bind fun byte _ => .step (plus_eq (by omega)) ?_
    refine (runs_bindStep hcode hsegments hl (by omega) hin).bind fun r hr => ?_
    have heffect := BindProgram.step_hasEffect hr
    have hforward := forward_of_step hr
    cases r with
    | done table' => exact runs_pure table'
    | next pc' s' table' =>
      have hpc : pc + 1 ≤ pc' := hforward
      exact ih (by omega) (BindProgram.Effect.located heffect hl)

section

variable {image : Reader} (hi : image.size < 2 ^ 63) {segments : List Segment}
  (hsegments : ∀ t ∈ segments, t.fileEnd ≤ image.size)

include hi hsegments

theorem runs_bindRange {table : BindTable} (ht : ∀ offset ∈ table, Covered segments offset)
    (bits : Bitness) (weak : Bool) (range : FileRange) :
    Runs (bindRange image segments bits weak range table)
      (BindTable.runRange image segments bits weak range table) := by
  refine .ite (fun _ => runs_pure table) fun _ => (runs_sub hi _ _).bind fun code hcode => ?_
  have hsize := Reader.size_of_sub hcode
  have hrange := range.size.toNat_lt
  have hend (t : Segment) (h : t ∈ segments) : t.fileEnd < 2 ^ 63 := by
    have := hsegments t h
    omega
  refine runs_bindFrom (p := { code, segments, bits, weak }) (by dsimp only; omega) hend
    (by dsimp only; omega) ⟨?_, ht⟩
  intro t hsome
  exact absurd hsome nofun

theorem runs_bindTable (bits : Bitness) (strong weakBind : FileRange) :
    Runs (bindTable image strong weakBind segments bits)
      (BindTable.read image strong weakBind segments bits) := by
  have hempty (offset : Nat) (h : offset ∈ (∅ : BindTable)) : Covered segments offset :=
    absurd h Std.TreeMap.not_mem_emptyc
  refine (runs_bindRange hi hsegments hempty bits false strong).bind fun table htable => ?_
  exact runs_bindRange hi hsegments (BindTable.covered_of_runRange hempty htable) bits true weakBind

end

end ObjcAtlas.Run
