import ObjcAtlas.Image.Leb128
import ObjcAtlas.Proofs.Image.Stretch
import ObjcAtlas.Proofs.Word.Run

set_option autoImplicit false

namespace ObjcAtlas.Run

open Word

def slice (r : Reader) (offset length : Nat) : Run ByteArray := do
  if 2 ^ 64 ≤ offset + length ∨ r.size < offset + length then
    throw (.outOfBounds offset length r.size)
  cut r.bytes offset (offset + length)

def sub (r : Reader) (offset length : Nat) : Run Reader := do
  return ⟨← slice r offset length, r.order⟩

/-- The `length` bytes at `offset`, copied to where there is room for just as many. -/
def array (r : Reader) (offset length : Nat) : Run ByteArray := do
  let bytes ← slice r offset length
  if bytes.size = length then return bytes else trap

def number (r : Reader) (width offset : Nat) : Run Nat := do
  return r.order.value (← array r offset width).data.toList

def u8 (r : Reader) (offset : Nat) : Run UInt8 := UInt8.ofNat <$> number r 1 offset

def u16 (r : Reader) (offset : Nat) : Run UInt16 := UInt16.ofNat <$> number r 2 offset

def u32 (r : Reader) (offset : Nat) : Run UInt32 := UInt32.ofNat <$> number r 4 offset

def u64 (r : Reader) (offset : Nat) : Run UInt64 := UInt64.ofNat <$> number r 8 offset

def i32 (r : Reader) (offset : Nat) : Run Int32 := UInt32.toInt32 <$> u32 r offset

def pointer (r : Reader) (bits : Bitness) (offset : Nat) : Run UInt64 :=
  UInt64.ofNat <$> number r bits.pointerSize offset

def cstring (r : Reader) (offset : Nat) : Run String := do
  let rest ← slice r offset (r.size - offset)
  -- The length for the error is computed in any case.
  let missing ← plus rest.size 1
  match Reader.zeroFrom rest rest.size 0 with
  | some stop => return Utf8.decodeLossy (← cut rest 0 stop).data.toList
  | none => throw (.outOfBounds offset missing r.size)

def fieldText (bytes : ByteArray) : Run String := do
  let stop := bytes.data.toList.findIdx (· == 0)
  return Utf8.decodeLossy (← cut bytes 0 stop).data.toList

def ulebFrom (r : Reader) (offset : Nat) : (fuel index shift value : Nat) → Run (Nat × Nat)
  | 0, _, _, _ => trap
  | fuel + 1, index, shift, value => do
    let byte ← u8 r (← plus offset index)
    let index ← plus index 1
    let low := byte.toNat % 128
    if 64 ≤ shift ∨ shift = 63 ∧ 1 < low then throw (.badValue "ULEB128 overflow")
    let value := value + (← shifted low shift)
    let shift ← plus shift 7
    if byte.toNat < 128 then return (value, index)
    else ulebFrom r offset fuel index shift value

def uleb (r : Reader) (offset : Nat) : Run (UInt64 × Nat) :=
  (fun (value, length) => (UInt64.ofNat value, length)) <$>
    ulebFrom r offset (Reader.maxLeb + 1) 0 0 0

def slebFrom (r : Reader) (offset : Nat) : (fuel index shift value : Nat) → Run (Nat × Nat)
  | 0, _, _, _ => trap
  | fuel + 1, index, shift, value => do
    let byte ← u8 r (← plus offset index)
    let index ← plus index 1
    if 64 ≤ shift then throw (.badValue "SLEB128 overflow")
    let value := value + (← shifted (byte.toNat % 128) shift)
    let shift ← plus shift 7
    if byte.toNat < 128 then
      if shift < 64 ∧ 64 ≤ byte.toNat then
        return (value + (UInt64.size - (← shifted 1 shift)), index)
      else return (value, index)
    else slebFrom r offset fuel index shift value

def sleb (r : Reader) (offset : Nat) : Run (Int64 × Nat) :=
  (fun (value, length) => ((UInt64.ofNat value).toInt64, length)) <$>
    slebFrom r offset (Reader.maxLeb + 1) 0 0 0

variable {r : Reader} (hr : r.size < 2 ^ 63)

include hr

theorem runs_slice (offset length : Nat) :
    Runs (slice r offset length) (r.slice offset length) := by
  rw [slice, Reader.slice]
  by_cases h : offset + length ≤ r.size
  · rw [if_pos h, if_neg (by omega), cut_eq (by omega) h]
    rfl
  · rw [if_neg h, if_pos (by omega)]
    rfl

theorem runs_sub (offset length : Nat) : Runs (sub r offset length) (r.sub offset length) := by
  rw [sub, Reader.sub, bind_pure_comp]
  exact (runs_slice hr offset length).map _

theorem runs_array (offset length : Nat) :
    Runs (array r offset length) (r.slice offset length) := by
  rw [← bind_pure (r.slice offset length)]
  refine (runs_slice hr offset length).bind fun bytes hbytes => ?_
  have hsize : bytes.size = length := by
    obtain ⟨hle, rfl⟩ := Reader.le_of_slice hbytes
    have hin : offset + length ≤ r.bytes.size := hle
    rw [ByteArray.size_extract]
    omega
  rw [if_pos hsize]
  exact runs_pure bytes

theorem runs_number (width offset : Nat) :
    Runs (number r width offset) (r.number width offset) := by
  rw [number, Reader.number, bind_pure_comp]
  exact (runs_array hr offset width).map _

theorem runs_u8 (offset : Nat) : Runs (u8 r offset) (r.u8 offset) := (runs_number hr 1 offset).map _

theorem runs_u16 (offset : Nat) : Runs (u16 r offset) (r.u16 offset) :=
  (runs_number hr 2 offset).map _

theorem runs_u32 (offset : Nat) : Runs (u32 r offset) (r.u32 offset) :=
  (runs_number hr 4 offset).map _

theorem runs_u64 (offset : Nat) : Runs (u64 r offset) (r.u64 offset) :=
  (runs_number hr 8 offset).map _

theorem runs_i32 (offset : Nat) : Runs (i32 r offset) (r.i32 offset) := (runs_u32 hr offset).map _

theorem runs_pointer (bits : Bitness) (offset : Nat) :
    Runs (pointer r bits offset) (r.pointer bits offset) := (runs_number hr _ offset).map _

theorem runs_cstring (offset : Nat) : Runs (cstring r offset) (r.cstring offset) := by
  rw [cstring, Reader.cstring, Reader.untilZero]
  by_cases h : r.size < offset
  · have hslice := runs_slice hr offset (r.size - offset)
    rw [Reader.slice, if_neg (by omega)] at hslice
    rw [if_pos h, hslice.eq_plain, Nat.sub_eq_zero_of_le (by omega)]
    rfl
  · have hle : offset + (r.size - offset) ≤ r.size := by omega
    have hin : offset + (r.size - offset) ≤ r.bytes.size := hle
    have hrest := runs_slice hr offset (r.size - offset)
    rw [Reader.slice_of_le hle] at hrest
    have hsize : (r.bytes.extract offset (offset + (r.size - offset))).size = r.size - offset := by
      rw [ByteArray.size_extract]
      omega
    -- The search in the rest of the bytes is the one from `offset` on.
    have hfind := @Reader.zeroFrom_extract _ _ _ (r.size - offset) 0 hin (by omega)
    rw [Nat.add_zero] at hfind
    rw [if_neg h, hfind]
    refine hrest.of_ok (.step (plus_eq (by omega)) ?_)
    rw [hsize]
    cases hzero : Reader.zeroFrom (r.bytes.extract offset (offset + (r.size - offset)))
      (r.size - offset) 0 with
    | none => rfl
    | some stop =>
      have hstop := (Reader.zeroFrom_eq_some.1 hzero).2
      refine .step (cut_eq (Nat.zero_le stop) (by omega)) ?_
      have hextract : (r.bytes.extract offset (offset + (r.size - offset))).extract 0 stop =
          r.bytes.extract offset (offset + stop) := by
        rw [ByteArray.extract_extract]
        congr 1
        omega
      rw [hextract]
      rfl

omit hr in
theorem runs_fieldText (bytes : ByteArray) :
    Runs (fieldText bytes) (.ok (ObjcAtlas.fieldText bytes)) := by
  have hstop : bytes.data.toList.findIdx (· == 0) ≤ bytes.size := List.findIdx_le_length
  have htext : (bytes.extract 0 (bytes.data.toList.findIdx (· == 0))).data.toList =
      bytes.data.toList.takeWhile (· != 0) := by
    rw [List.takeWhile_eq_take_findIdx_not, ByteArray.data_extract, Array.toList_extract]
    simp [List.extract_eq_take_drop, bne]
  rw [fieldText, ObjcAtlas.fieldText]
  refine .step (cut_eq (Nat.zero_le _) hstop) ?_
  rw [htext]
  rfl

omit hr in
theorem lt_size_of_u8 {offset : Nat} {byte : UInt8} (h : r.u8 offset = .ok byte) :
    offset < r.size := by
  obtain ⟨n, hn, -⟩ := map_eq_ok.1 h
  obtain ⟨bytes, hbytes, -⟩ := map_eq_ok.1 hn
  have := (Reader.le_of_slice hbytes).1
  omega

theorem runs_ulebFrom {offset left : Nat} (index value : Nat) (hi : index + left = 10)
    (ho : offset + index ≤ r.size) :
    Runs (ulebFrom r offset (left + 1) index (7 * index) value)
      (r.ulebFrom left (offset + index) (7 * index) value) := by
  induction left generalizing index value with
  | zero =>
    rw [ulebFrom, Reader.ulebFrom]
    refine .step (plus_eq (by omega)) ((runs_u8 hr _).bind fun byte _ => ?_)
    refine .step (plus_eq (by omega)) ?_
    rw [if_pos (by omega)]
    rfl
  | succ left ih =>
    rw [ulebFrom, Reader.ulebFrom]
    refine .step (plus_eq (by omega)) ((runs_u8 hr _).bind fun byte hbyte => ?_)
    have hin := lt_size_of_u8 hbyte
    refine .step (plus_eq (by omega)) ?_
    by_cases hover : 7 * index = 63 ∧ 1 < byte.toNat % 128
    · rw [if_pos (.inr hover), if_pos hover]
      rfl
    · rw [if_neg (by omega), if_neg hover]
      refine .step (shifted_eq (by omega)) (.step (plus_eq (by omega)) (.ite ?_ ?_))
      · intro _
        rw [Nat.mul_div_cancel_left index (by decide)]
        rfl
      · intro _
        have hnext := ih (index + 1) (value + (byte.toNat % 128) <<< (7 * index))
          (by omega) (by omega)
        rwa [Nat.mul_add, ← Nat.add_assoc] at hnext

theorem runs_uleb {offset : Nat} (ho : offset ≤ r.size) : Runs (uleb r offset) (r.uleb offset) :=
  (runs_ulebFrom hr 0 0 rfl ho).map _

theorem runs_slebFrom {offset left : Nat} (index value : Nat) (hi : index + left = 10)
    (ho : offset + index ≤ r.size) :
    Runs (slebFrom r offset (left + 1) index (7 * index) value)
      (r.slebFrom left (offset + index) (7 * index) value) := by
  induction left generalizing index value with
  | zero =>
    rw [slebFrom, Reader.slebFrom]
    refine .step (plus_eq (by omega)) ((runs_u8 hr _).bind fun byte _ => ?_)
    refine .step (plus_eq (by omega)) ?_
    rw [if_pos (by omega)]
    rfl
  | succ left ih =>
    rw [slebFrom, Reader.slebFrom]
    refine .step (plus_eq (by omega)) ((runs_u8 hr _).bind fun byte hbyte => ?_)
    have hin := lt_size_of_u8 hbyte
    refine .step (plus_eq (by omega)) ?_
    rw [if_neg (by omega)]
    refine .step (shifted_eq (by omega)) (.step (plus_eq (by omega)) (.ite ?_ ?_))
    · intro _
      rw [Nat.mul_div_cancel_left index (by decide)]
      by_cases hsign : 64 ≤ byte.toNat
      · rw [if_pos hsign]
        by_cases hshift : 7 * index + 7 < 64
        · rw [if_pos ⟨hshift, hsign⟩]
          exact .step (shifted_eq hshift) (runs_pure _)
        · -- All 64 bits are there, and none is left to fill.
          have hfill : UInt64.size - 1 <<< (7 * index + 7) = 0 := by
            obtain rfl : index = 9 := by omega
            decide
          rw [if_neg (fun h => hshift h.1), hfill, Nat.add_zero]
          exact runs_pure _
      · rw [if_neg (fun h => hsign h.2), if_neg hsign]
        rfl
    · intro _
      have hnext := ih (index + 1) (value + (byte.toNat % 128) <<< (7 * index))
        (by omega) (by omega)
      rwa [Nat.mul_add, ← Nat.add_assoc] at hnext

theorem runs_sleb {offset : Nat} (ho : offset ≤ r.size) : Runs (sleb r offset) (r.sleb offset) :=
  (runs_slebFrom hr 0 0 rfl ho).map _

omit hr

theorem ulebFrom_length_le {offset left value : Nat} (index : Nat) {found : Nat × Nat}
    (h : r.ulebFrom left (offset + index) (7 * index) value = .ok found) :
    offset + found.2 ≤ r.size := by
  induction left generalizing index value with
  | zero =>
    obtain ⟨byte, -, h⟩ := bind_eq_ok.1 h
    exact absurd h nofun
  | succ left ih =>
    obtain ⟨byte, hbyte, h⟩ := bind_eq_ok.1 h
    have hin := lt_size_of_u8 hbyte
    dsimp only at h
    split at h
    · exact absurd h nofun
    split at h
    · obtain rfl := Except.ok.inj h
      rw [Nat.mul_div_cancel_left index (by decide)]
      omega
    · exact ih (index + 1) h

theorem slebFrom_length_le {offset left value : Nat} (index : Nat) {found : Nat × Nat}
    (h : r.slebFrom left (offset + index) (7 * index) value = .ok found) :
    offset + found.2 ≤ r.size := by
  induction left generalizing index value with
  | zero =>
    obtain ⟨byte, -, h⟩ := bind_eq_ok.1 h
    exact absurd h nofun
  | succ left ih =>
    obtain ⟨byte, hbyte, h⟩ := bind_eq_ok.1 h
    have hin := lt_size_of_u8 hbyte
    have hlast : offset + (7 * index / 7 + 1) ≤ r.size := by
      rw [Nat.mul_div_cancel_left index (by decide)]
      omega
    dsimp only at h
    split at h
    · split at h
      · obtain rfl := Except.ok.inj h
        exact hlast
      · obtain rfl := Except.ok.inj h
        exact hlast
    · exact ih (index + 1) h

theorem uleb_length_le {offset : Nat} {found : UInt64 × Nat} (h : r.uleb offset = .ok found) :
    offset + found.2 ≤ r.size := by
  obtain ⟨pair, hpair, rfl⟩ := map_eq_ok.1 h
  exact ulebFrom_length_le 0 hpair

theorem sleb_length_le {offset : Nat} {found : Int64 × Nat} (h : r.sleb offset = .ok found) :
    offset + found.2 ≤ r.size := by
  obtain ⟨pair, hpair, rfl⟩ := map_eq_ok.1 h
  exact slebFrom_length_le 0 hpair

end ObjcAtlas.Run
