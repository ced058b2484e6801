import Mathlib.Data.Nat.Bitwise
import ObjcAtlas.Fixup.Pointer

set_option autoImplicit false

namespace ObjcAtlas

variable {a b : UInt64} {low width i : Nat}

theorem bitField_lt (raw : UInt64) (low width : Nat) : bitField raw low width < 2 ^ width := by
  rw [bitField, Nat.one_shiftLeft]
  exact Nat.mod_lt _ (Nat.two_pow_pos width)

theorem bitField_eq_iff : bitField a low width = bitField b low width ↔
    ∀ i, low ≤ i → i < low + width → a.toNat.testBit i = b.toNat.testBit i := by
  constructor
  · intro h i hlow hhigh
    have hbit := congrArg (Nat.testBit · (i - low)) h
    have hi : i - low < width := by omega
    have hsum : low + (i - low) = i := by omega
    simpa [bitField, Nat.one_shiftLeft, Nat.testBit_mod_two_pow, hi, hsum] using hbit
  · intro h
    apply Nat.eq_of_testBit_eq
    intro i
    by_cases hi : i < width
    · have hbit := h (low + i) (by omega) (by omega)
      simp [bitField, Nat.one_shiftLeft, Nat.testBit_mod_two_pow, hi, hbit]
    · simp [bitField, Nat.one_shiftLeft, Nat.testBit_mod_two_pow, hi]

theorem bitField_of_bitSet (h : bitSet a i = true) : bitField a i 1 = 1 := by
  simpa [bitSet] using h

theorem bitField_of_not_bitSet (h : bitSet a i = false) : bitField a i 1 = 0 := by
  have hlt := bitField_lt a i 1
  have hne : bitField a i 1 ≠ 1 := by simpa [bitSet] using h
  omega

@[simp] theorem bitSet_eq_iff : bitSet a i = bitSet b i ↔ bitField a i 1 = bitField b i 1 := by
  cases ha : bitSet a i <;> cases hb : bitSet b i <;>
    simp [bitField_of_bitSet, bitField_of_not_bitSet, ha, hb]

theorem toNat_uint64_field (raw : UInt64) (low : Nat) (h : width ≤ 64) :
    (UInt64.ofNat (bitField raw low width)).toNat = bitField raw low width := by
  have hpow : 2 ^ width ≤ 2 ^ 64 := Nat.pow_le_pow_right (by decide) h
  exact UInt64.toNat_ofNat_of_lt' (Nat.lt_of_lt_of_le (bitField_lt raw low width) hpow)

theorem toNat_uint32_field (raw : UInt64) (low : Nat) (h : width ≤ 32) :
    (UInt32.ofNat (bitField raw low width)).toNat = bitField raw low width := by
  have hpow : 2 ^ width ≤ 2 ^ 32 := Nat.pow_le_pow_right (by decide) h
  exact UInt32.toNat_ofNat_of_lt' (Nat.lt_of_lt_of_le (bitField_lt raw low width) hpow)

theorem toInt_int64_field (raw : UInt64) (low : Nat) (h : width ≤ 8) :
    (Int64.ofNat (bitField raw low width)).toInt = bitField raw low width := by
  have hlt := bitField_lt raw low width
  have hpow : 2 ^ width ≤ 2 ^ 8 := Nat.pow_le_pow_right (by decide) h
  exact Int64.toInt_ofNat_of_lt (by omega)

theorem signedField_bounds (n : Nat) : -2 ^ 18 ≤ signedField n 19 ∧ signedField n 19 < 2 ^ 18 :=
  ⟨Int.le_bmod (by decide), Int.bmod_lt (by decide)⟩

theorem toInt_signedField (n : Nat) :
    (Int64.ofInt (signedField n 19)).toInt = signedField n 19 := by
  have h := signedField_bounds n
  exact Int64.toInt_ofInt_of_le (by omega) (by omega)

theorem uint64_field_inj (h : width ≤ 64) :
    UInt64.ofNat (bitField a low width) = UInt64.ofNat (bitField b low width) ↔
      bitField a low width = bitField b low width := by
  rw [← UInt64.toNat_inj, toNat_uint64_field a low h, toNat_uint64_field b low h]

theorem uint32_field_inj (h : width ≤ 32) :
    UInt32.ofNat (bitField a low width) = UInt32.ofNat (bitField b low width) ↔
      bitField a low width = bitField b low width := by
  rw [← UInt32.toNat_inj, toNat_uint32_field a low h, toNat_uint32_field b low h]

theorem uint16_field_inj :
    UInt16.ofNat (bitField a low 16) = UInt16.ofNat (bitField b low 16) ↔
      bitField a low 16 = bitField b low 16 := by
  rw [← UInt16.toNat_inj, UInt16.toNat_ofNat_of_lt' (bitField_lt a low 16),
    UInt16.toNat_ofNat_of_lt' (bitField_lt b low 16)]

theorem uint8_field_inj :
    UInt8.ofNat (bitField a low 8) = UInt8.ofNat (bitField b low 8) ↔
      bitField a low 8 = bitField b low 8 := by
  rw [← UInt8.toNat_inj, UInt8.toNat_ofNat_of_lt' (bitField_lt a low 8),
    UInt8.toNat_ofNat_of_lt' (bitField_lt b low 8)]

theorem int64_field_inj (h : width ≤ 8) :
    Int64.ofNat (bitField a low width) = Int64.ofNat (bitField b low width) ↔
      bitField a low width = bitField b low width := by
  rw [← Int64.toInt_inj, toInt_int64_field a low h, toInt_int64_field b low h, Int.natCast_inj]

theorem signed_field_inj :
    Int64.ofInt (signedField (bitField a low 19) 19) =
        Int64.ofInt (signedField (bitField b low 19) 19) ↔
      bitField a low 19 = bitField b low 19 := by
  rw [← Int64.toInt_inj, toInt_signedField, toInt_signedField]
  refine ⟨fun h => ?_, fun h => by rw [h]⟩
  have ha := bitField_lt a low 19
  have hb := bitField_lt b low 19
  rw [signedField, signedField, Nat.one_shiftLeft] at h
  have hmod := congrArg (· % ((2 ^ 19 : Nat) : Int)) h
  simp only [Int.bmod_emod] at hmod
  omega

theorem SigningKey.ofBits_inj :
    ofBits (bitField a low 2) = ofBits (bitField b low 2) ↔
      bitField a low 2 = bitField b low 2 := by
  have hall : ∀ m < 4, ∀ n < 4, ofBits m = ofBits n ↔ m = n := by decide
  exact hall _ (bitField_lt a low 2) _ (bitField_lt b low 2)

/-- The words agree on all of these fields, each with its lowest bit and its width. -/
def SameFields (a b : UInt64) (fields : List (Nat × Nat)) : Prop :=
  ∀ x ∈ fields, bitField a x.1 x.2 = bitField b x.1 x.2

@[simp] theorem sameFields_nil : SameFields a b [] := nofun

@[simp] theorem sameFields_cons {x : Nat × Nat} {fields : List (Nat × Nat)} :
    SameFields a b (x :: fields) ↔
      bitField a x.1 x.2 = bitField b x.1 x.2 ∧ SameFields a b fields :=
  List.forall_mem_cons

def signingFields (raw : UInt64) : List (Nat × Nat) :=
  if bitSet raw 63 then [(63, 1), (49, 2), (32, 16), (48, 1)] else [(63, 1)]

def arm64eFields (ordinalWidth : Nat) (raw : UInt64) : List (Nat × Nat) :=
  (62, 1) :: (63, 1) ::
    if bitSet raw 62 then
      (0, ordinalWidth) :: if bitSet raw 63 then signingFields raw else [(32, 19)]
    else if bitSet raw 63 then (0, 32) :: signingFields raw else [(0, 43), (43, 8)]

namespace PointerFormat

theorem entrySize_le (format : PointerFormat) : format.entrySize ≤ 8 := by
  cases format <;> decide

def fields (raw : UInt64) : PointerFormat → List (Nat × Nat)
  | .ptr64 | .ptr64Offset =>
    (51, 12) :: (63, 1) :: if bitSet raw 63 then [(0, 24), (24, 8)] else [(0, 36), (36, 8)]
  | .ptr64KernelCache | .x86_64KernelCache => (51, 12) :: (0, 30) :: signingFields raw
  | .ptr32 => (26, 5) :: (31, 1) :: if bitSet raw 31 then [(0, 20), (20, 6)] else [(0, 26)]
  | .ptr32Cache => [(30, 2), (0, 30)]
  | .ptr32Firmware => [(26, 6), (0, 26)]
  | .arm64eUserland24 => (51, 11) :: arm64eFields 24 raw
  | .arm64e | .arm64eKernel | .arm64eUserland | .arm64eFirmware => (51, 11) :: arm64eFields 16 raw

/-- Bit `i` of a word with the flags of `raw` means nothing in this format. -/
def Ignores (raw : UInt64) (i : Nat) : PointerFormat → Prop
  | .ptr64 | .ptr64Offset =>
    if bitSet raw 63 then 32 ≤ i ∧ i ≤ 50 else 44 ≤ i ∧ i ≤ 50
  | .ptr64KernelCache | .x86_64KernelCache =>
    (30 ≤ i ∧ i ≤ 31) ∨ (bitSet raw 63 = false ∧ 32 ≤ i ∧ i ≤ 50)
  | .ptr32 | .ptr32Cache | .ptr32Firmware => False
  | .arm64eUserland24 => bitSet raw 62 = true ∧ 24 ≤ i ∧ i ≤ 31
  | .arm64e | .arm64eKernel | .arm64eUserland | .arm64eFirmware =>
    bitSet raw 62 = true ∧ 16 ≤ i ∧ i ≤ 31

end PointerFormat

def InFields (i : Nat) (fields : List (Nat × Nat)) : Prop :=
  ∃ x ∈ fields, x.1 ≤ i ∧ i < x.1 + x.2

@[simp] theorem inFields_nil : ¬ InFields i [] := by
  simp [InFields]

@[simp] theorem inFields_cons {x : Nat × Nat} {fields : List (Nat × Nat)} :
    InFields i (x :: fields) ↔ (x.1 ≤ i ∧ i < x.1 + x.2) ∨ InFields i fields := by
  simp [InFields]

theorem sameFields_iff {fields : List (Nat × Nat)} :
    SameFields a b fields ↔ ∀ i, InFields i fields → a.toNat.testBit i = b.toNat.testBit i := by
  simp only [SameFields, bitField_eq_iff]
  constructor
  · rintro h i ⟨x, hx, hlow, hhigh⟩
    exact h x hx i hlow hhigh
  · intro h x hx i hlow hhigh
    exact h i ⟨x, hx, hlow, hhigh⟩

theorem inFields_signing (raw : UInt64) :
    InFields i (signingFields raw) ↔ i = 63 ∨ (bitSet raw 63 = true ∧ 32 ≤ i ∧ i ≤ 50) := by
  unfold signingFields
  cases bitSet raw 63 <;> simp <;> omega

theorem inFields_arm64e (raw : UInt64) {ordinalWidth : Nat} (_ : ordinalWidth ≤ 32) :
    InFields i (arm64eFields ordinalWidth raw) ↔ i = 62 ∨ i = 63 ∨ (32 ≤ i ∧ i ≤ 50) ∨
      i < if bitSet raw 62 then ordinalWidth else 32 := by
  unfold arm64eFields
  cases bitSet raw 62 <;> cases hsigned : bitSet raw 63 <;>
    simp [inFields_signing, hsigned] <;> omega

/-- The bits in no field are the ignored ones. -/
theorem PointerFormat.inFields_iff (format : PointerFormat) (raw : UInt64) :
    InFields i (format.fields raw) ↔ i < 8 * format.entrySize ∧ ¬ format.Ignores raw i := by
  cases format
  all_goals simp [fields, Ignores, entrySize, is32Bit, inFields_signing, inFields_arm64e]
  case ptr64 | ptr64Offset => cases bitSet raw 63 <;> simp <;> omega
  case ptr64KernelCache | x86_64KernelCache => cases bitSet raw 63 <;> simp <;> omega
  case ptr32 => cases bitSet raw 31 <;> simp <;> omega
  case ptr32Cache | ptr32Firmware => omega
  all_goals cases bitSet raw 62 <;> simp <;> omega

namespace ChainEntry

theorem signingAt_ne_none {raw : UInt64} (h : bitSet raw 63 = true) : signingAt raw ≠ none := by
  simp [signingAt, h]

theorem signingAt_eq_iff : signingAt a = signingAt b ↔ SameFields a b (signingFields a) := by
  unfold signingAt signingFields
  cases ha : bitSet a 63 <;> cases hb : bitSet b 63 <;>
    simp [bitField_of_bitSet, bitField_of_not_bitSet, ha, hb, SigningKey.ofBits_inj,
      uint16_field_inj]

theorem decodeArm64e_eq_iff {ordinalWidth : Nat} (h : ordinalWidth ≤ 32) :
    decodeArm64e ordinalWidth a = decodeArm64e ordinalWidth b ↔
      SameFields a b (arm64eFields ordinalWidth a) := by
  unfold decodeArm64e arm64eFields
  -- Words with different flags decode to different kinds of entry.
  cases ha62 : bitSet a 62 <;> cases hb62 : bitSet b 62 <;>
    cases ha63 : bitSet a 63 <;> cases hb63 : bitSet b 63 <;>
    simp [bitField_of_bitSet, bitField_of_not_bitSet, ha62, hb62, ha63, hb63, signingAt_eq_iff,
      signingAt_ne_none, Ne.symm (signingAt_ne_none _), uint64_field_inj, uint32_field_inj h,
      uint8_field_inj, signed_field_inj]

theorem decode_eq_iff_sameFields (format : PointerFormat) :
    decode format a = decode format b ↔ SameFields a b (format.fields a) := by
  cases format
  all_goals
    simp only [decode, plain, PointerFormat.fields, Prod.mk.injEq, sameFields_cons]
    refine and_comm.trans (and_congr_right' ?_)
  case ptr64 | ptr64Offset =>
    cases ha : bitSet a 63 <;> cases hb : bitSet b 63 <;>
      simp [bitField_of_bitSet, bitField_of_not_bitSet, ha, hb, uint64_field_inj,
        uint32_field_inj, uint8_field_inj, int64_field_inj]
  case ptr32 =>
    cases ha : bitSet a 31 <;> cases hb : bitSet b 31 <;>
      simp [bitField_of_bitSet, bitField_of_not_bitSet, ha, hb, uint64_field_inj,
        uint32_field_inj, int64_field_inj]
  case ptr64KernelCache | x86_64KernelCache => simp [uint64_field_inj, signingAt_eq_iff]
  case ptr32Cache | ptr32Firmware => simp [uint64_field_inj]
  all_goals exact decodeArm64e_eq_iff (by decide)

theorem testBit_of_entrySize_le {format : PointerFormat} {raw : UInt64}
    (h : format.is32Bit = true → raw.toNat < 2 ^ 32) (hi : 8 * format.entrySize ≤ i) :
    raw.toNat.testBit i = false := by
  apply Nat.testBit_lt_two_pow
  have hsize : raw.toNat < 2 ^ (8 * format.entrySize) := by
    unfold PointerFormat.entrySize
    split
    next h32 => exact h h32
    next => exact raw.toNat_lt
  exact Nat.lt_of_lt_of_le hsize (Nat.pow_le_pow_right (by decide) hi)

/-- The numbers in an entry are those of its fields. -/
def InRange : ChainEntry → Prop
  | .rebase target .. => target.toNat < 2 ^ 43
  | .bind ordinal addend _ =>
    ordinal.toNat < 2 ^ 24 ∧ -2 ^ 18 ≤ addend.toInt ∧ addend.toInt ≤ 2 ^ 18 - 1

theorem inRange_rebase (raw : UInt64) (high8 : UInt8) (signing : Option Signing)
    (h : width ≤ 43) : InRange (.rebase (UInt64.ofNat (bitField raw low width)) high8 signing) := by
  have hlt := bitField_lt raw low width
  have hpow : 2 ^ width ≤ 2 ^ 43 := Nat.pow_le_pow_right (by decide) h
  simp only [InRange, toNat_uint64_field raw low (h.trans (by decide))]
  omega

theorem inRange_bind (raw : UInt64) {addend : Int64} (signing : Option Signing) (h : width ≤ 24)
    (hlow : -2 ^ 18 ≤ addend.toInt) (hhigh : addend.toInt < 2 ^ 18) :
    InRange (.bind (UInt32.ofNat (bitField raw low width)) addend signing) := by
  have hlt := bitField_lt raw low width
  have hpow : 2 ^ width ≤ 2 ^ 24 := Nat.pow_le_pow_right (by decide) h
  simp only [InRange, toNat_uint32_field raw low (h.trans (by decide))]
  omega

theorem inRange_decodeArm64e (raw : UInt64) {ordinalWidth : Nat} (h : ordinalWidth ≤ 24) :
    (decodeArm64e ordinalWidth raw).InRange := by
  have haddend := signedField_bounds (bitField raw 32 19)
  unfold decodeArm64e
  split_ifs
  · exact inRange_bind raw _ h (by decide) (by decide)
  · apply inRange_bind raw _ h <;> rw [toInt_signedField] <;> omega
  · exact inRange_rebase raw _ _ (by decide)
  · exact inRange_rebase raw _ _ (by decide)

theorem inRange_decode (format : PointerFormat) (raw : UInt64) :
    (decode format raw).1.InRange := by
  have hbind {low width : Nat} (hw : width ≤ 8) :
      (-2 ^ 18 : Int) ≤ (Int64.ofNat (bitField raw low width)).toInt ∧
        (Int64.ofNat (bitField raw low width)).toInt < 2 ^ 18 := by
    have hlt := bitField_lt raw low width
    have hpow : 2 ^ width ≤ 2 ^ 8 := Nat.pow_le_pow_right (by decide) hw
    rw [toInt_int64_field raw low hw]
    omega
  cases format
  all_goals simp only [decode]
  case ptr64 | ptr64Offset =>
    split
    · exact inRange_bind raw _ (by decide) (hbind (by decide)).1 (hbind (by decide)).2
    · exact inRange_rebase raw _ _ (by decide)
  case ptr32 =>
    split
    · exact inRange_bind raw _ (by decide) (hbind (by decide)).1 (hbind (by decide)).2
    · exact inRange_rebase raw _ _ (by decide)
  case ptr64KernelCache | x86_64KernelCache | ptr32Cache | ptr32Firmware =>
    exact inRange_rebase raw _ _ (by decide)
  all_goals exact inRange_decodeArm64e raw (by decide)

/-- Two words decode alike exactly when they agree on all bits but the ignored ones; flags are never
    ignored, so both words ignore the same. What is decoded is in range, and the address of a signed
    pointer does not depend on how it is signed. -/
theorem decode_loses_only_ignored (format : PointerFormat)
    (h : format.is32Bit = true → a.toNat < 2 ^ 32 ∧ b.toNat < 2 ^ 32) :
    (decode format a = decode format b ↔
      ∀ i < 64, ¬ format.Ignores a i → a.toNat.testBit i = b.toNat.testBit i) ∧
    (decode format a).1.InRange ∧
    ∀ (base target : UInt64) (high8 : UInt8) (signing : Signing),
      address? format base (.rebase target high8 (some signing)) = some (target + base) := by
  refine ⟨?_, inRange_decode format a, fun _ _ _ _ => rfl⟩
  rw [decode_eq_iff_sameFields, sameFields_iff]
  simp only [PointerFormat.inFields_iff]
  constructor
  · intro hsame i _ hkept
    by_cases hi : i < 8 * format.entrySize
    · exact hsame i ⟨hi, hkept⟩
    · rw [testBit_of_entrySize_le (fun h32 => (h h32).1) (by omega),
        testBit_of_entrySize_le (fun h32 => (h h32).2) (by omega)]
  · rintro hsame i ⟨hi, hkept⟩
    have hsize := format.entrySize_le
    exact hsame i (by omega) hkept

/-- In the 32-bit format every bit counts. -/
theorem decode_loses_only_ignored_ptr32 :
    decode .ptr32 0x04000010 ≠ decode .ptr32 0x84000010 := by
  intro heq
  have hbits := (decode_loses_only_ignored .ptr32 fun _ => by decide).1.1 heq
  exact absurd (hbits 31 (by decide) id) (by decide)

end ChainEntry

end ObjcAtlas
