import ObjcAtlas.Proofs.Image.Leb128Exact

set_option autoImplicit false

namespace ObjcAtlas

theorem toInt_ofInt_eq_iff {s : Int} :
    (Int64.ofInt s).toInt = s ↔ -2 ^ 63 ≤ s ∧ s < 2 ^ 63 := by
  constructor
  · intro h
    rw [← h]
    exact ⟨Int64.le_toInt _, Int64.toInt_lt _⟩
  · rintro ⟨hlow, hhigh⟩
    exact Int64.toInt_ofInt_of_le hlow hhigh

namespace Reader

variable {r : Reader} {offset : Nat} {bytes : List UInt8}

/-- The signed number that the `n` bytes at `offset` denote: their groups of seven bits add up to
    it, less what one group more would count if the last group has its top bit set. -/
def signedAt (r : Reader) (offset n : Nat) : Int :=
  (∑ i ∈ Finset.range n, (byteAt r.bytes (offset + i)).toNat % 128 * 128 ^ i : Nat) -
    if 64 ≤ (byteAt r.bytes (offset + (n - 1))).toNat % 128 then 128 ^ n else 0

theorem signedAt_one (r : Reader) (offset : Nat) : r.signedAt offset 1 =
    ((byteAt r.bytes offset).toNat % 128 : Nat) -
      if 64 ≤ (byteAt r.bytes offset).toNat % 128 then 128 else 0 := by
  simp [signedAt]

theorem signedAt_succ (r : Reader) (offset : Nat) {n : Nat} (hn : 0 < n) :
    r.signedAt offset (n + 1) =
      ((byteAt r.bytes offset).toNat % 128 : Nat) + 128 * r.signedAt (offset + 1) n := by
  have hlast : offset + (n + 1 - 1) = offset + 1 + (n - 1) := by omega
  have hplace (i : Nat) : offset + (i + 1) = offset + 1 + i := by omega
  have hrest :
      ∑ i ∈ Finset.range n, (byteAt r.bytes (offset + (i + 1))).toNat % 128 * 128 ^ (i + 1) =
        128 * ∑ i ∈ Finset.range n, (byteAt r.bytes (offset + 1 + i)).toNat % 128 * 128 ^ i := by
    rw [Finset.mul_sum]
    exact Finset.sum_congr rfl fun i _ => by rw [hplace, Nat.pow_succ]; ring
  simp only [signedAt, Finset.sum_range_succ', hrest, hlast, Nat.pow_zero, Nat.mul_one,
    Nat.add_zero]
  split
  · rw [Int.pow_succ]
    omega
  · omega

theorem Has.signedSum_eq (h : r.Has offset bytes) (hm : Leb.isMarked bytes = true) :
    Leb.signedSum bytes = r.signedAt offset bytes.length := by
  induction bytes generalizing offset with
  | nil => exact absurd hm (by decide)
  | cons b bytes ih =>
    rw [Leb.isMarked] at hm
    rw [Leb.signedSum]
    by_cases hb : b.toNat < 128
    · rw [if_pos hb, List.isEmpty_iff] at hm
      subst hm
      rw [if_pos hb, List.length_singleton, signedAt_one, h.byteAt, Nat.mod_eq_of_lt hb]
      split <;> omega
    · rw [if_neg hb] at hm ⊢
      have hpos : 0 < bytes.length := (h.tail.isMarked_iff.1 hm).1
      rw [ih h.tail hm, List.length_cons, signedAt_succ r offset hpos, h.byteAt]
      omega

/-- Nine bytes hold 63 bits. In ten, the tenth has room for the sign alone. -/
theorem signedAt_fits_iff {n : Nat} (h : r.Has offset bytes) (hm : Leb.isMarked bytes = true)
    (hn : bytes.length = n) (hle : n ≤ 10) :
    (-2 ^ 63 ≤ r.signedAt offset n ∧ r.signedAt offset n < 2 ^ 63) ↔
      (n = 10 → (byteAt r.bytes (offset + 9)).toNat = 0 ∨
        (byteAt r.bytes (offset + 9)).toNat = 127) := by
  have hpos := (h.isMarked_iff.1 hm).1
  by_cases hten : n = 10
  · subst hten
    have hlast := (h.isMarked_iff.1 hm).2 9 (by omega)
    have hroom := h.length_le
    rw [← size_eq_length] at hroom
    obtain ⟨front, hfront, hlen⟩ := exists_has (show offset + 9 ≤ r.size by omega)
    have hsum := Leb.sum_lt front
    rw [hfront.sum_eq, hlen] at hsum
    rw [signedAt, Finset.sum_range_succ, show offset + (10 - 1) = offset + 9 from rfl]
    split <;> omega
  · have hfits := Leb.signedSum_fits hm (by omega)
    rw [h.signedSum_eq hm, hn] at hfits
    exact iff_of_true hfits fun h => absurd h hten

theorem u8_of_lt (h : offset < r.size) : r.u8 offset = .ok (byteAt r.bytes offset) := by
  obtain ⟨bytes, hbytes, hlen⟩ := exists_has (show offset + 1 ≤ r.size from h)
  obtain ⟨b, rfl⟩ := List.length_eq_one_iff.1 hlen
  rw [hbytes.u8, hbytes.byteAt]

theorem u8_of_ge (h : r.size ≤ offset) : r.u8 offset = .error (.outOfBounds offset 1 r.size) := by
  rw [u8, map_eq_error, number_eq_error]
  exact ⟨by omega, rfl⟩

theorem slebFrom_overflows_iff {left shift value : Nat} :
    slebFrom r left offset shift value = .error (.badValue "SLEB128 overflow") ↔
      offset + left < r.size ∧ ∀ i < left, 128 ≤ (byteAt r.bytes (offset + i)).toNat := by
  induction left generalizing offset shift value with
  | zero =>
    rw [slebFrom]
    by_cases hin : offset < r.size
    · rw [u8_of_lt hin]
      exact iff_of_true rfl ⟨hin, fun i hi => absurd hi (Nat.not_lt_zero i)⟩
    · rw [u8_of_ge (by omega)]
      refine iff_of_false (fun h => ?_) fun h => hin h.1
      exact ImageError.noConfusion (Except.error.inj h)
  | succ left ih =>
    rw [slebFrom]
    by_cases hin : offset < r.size
    · rw [u8_of_lt hin]
      simp only [bind, Except.bind, Nat.forall_lt_succ_left', Nat.add_zero]
      by_cases hb : (byteAt r.bytes offset).toNat < 128
      · rw [if_pos hb]
        refine iff_of_false ?_ fun h => ?_
        · split <;> simp
        · omega
      · rw [if_neg hb, ih]
        simp only [Nat.add_assoc offset 1, Nat.add_comm 1]
        constructor
        · rintro ⟨hsize, hmarks⟩
          exact ⟨by omega, by omega, hmarks⟩
        · rintro ⟨hsize, -, hmarks⟩
          exact ⟨by omega, hmarks⟩
    · rw [u8_of_ge (by omega)]
      refine iff_of_false (fun h => ?_) fun h => hin (by omega)
      exact ImageError.noConfusion (Except.error.inj h)

/-- Any signed number of at most ten bytes is read, modulo `2 ^ 64`; refused are eleven bytes. What
    is read is the number itself exactly if that fits in 64 bits, and a number does not fit exactly
    if it has ten bytes and the tenth is neither all clear nor all set. -/
theorem sleb_read_modulo (r : Reader) (offset : Nat) :
    (∀ v n, r.sleb offset = .ok (v, n) ↔ 0 < n ∧ n ≤ 10 ∧ offset + n ≤ r.size ∧
      (∀ i < n, 128 ≤ (byteAt r.bytes (offset + i)).toNat ↔ i + 1 < n) ∧
      v = Int64.ofInt (r.signedAt offset n)) ∧
    (∀ v n, r.sleb offset = .ok (v, n) →
      (v.toInt = r.signedAt offset n ↔
        -2 ^ 63 ≤ r.signedAt offset n ∧ r.signedAt offset n < 2 ^ 63) ∧
      (v.toInt = r.signedAt offset n ↔
        (n = 10 → (byteAt r.bytes (offset + 9)).toNat = 0 ∨
          (byteAt r.bytes (offset + 9)).toNat = 127))) ∧
    (r.sleb offset = .error (.badValue "SLEB128 overflow") ↔
      offset + 10 < r.size ∧ ∀ i < 10, 128 ≤ (byteAt r.bytes (offset + i)).toNat) := by
  refine ⟨fun v n => ?_, fun v n h => ?_, ?_⟩
  · rw [sleb_eq_ok_iff]
    constructor
    · rintro ⟨bytes, hbytes, hmarked, rfl, hle, rfl⟩
      obtain ⟨hpos, hmarks⟩ := hbytes.isMarked_iff.1 hmarked
      exact ⟨hpos, hle, hbytes.length_le, hmarks, by rw [hbytes.signedSum_eq hmarked]⟩
    · rintro ⟨hpos, hle, hsize, hmarks, rfl⟩
      obtain ⟨bytes, hbytes, rfl⟩ := exists_has hsize
      have hmarked := hbytes.isMarked_iff.2 ⟨hpos, hmarks⟩
      exact ⟨bytes, hbytes, hmarked, rfl, hle, by rw [hbytes.signedSum_eq hmarked]⟩
  · obtain ⟨bytes, hbytes, hmarked, hlen, hle, rfl⟩ := sleb_eq_ok_iff.1 h
    rw [hbytes.signedSum_eq hmarked, hlen]
    exact ⟨toInt_ofInt_eq_iff,
      toInt_ofInt_eq_iff.trans (signedAt_fits_iff hbytes hmarked hlen hle)⟩
  · rw [sleb, map_eq_error]
    exact slebFrom_overflows_iff

def tenthByte (last : UInt8) : Reader := ofList .little (List.replicate 9 0x80 ++ [last])

theorem sleb_read_modulo_lowest :
    (tenthByte 0x7f).sleb 0 = .ok (Int64.minValue, 10) ∧
      (tenthByte 0x7f).signedAt 0 10 = Int64.minValue.toInt := by
  have hread : (tenthByte 0x7f).sleb 0 = .ok (Int64.minValue, 10) := by decide +kernel
  refine ⟨hread, ?_⟩
  exact (((sleb_read_modulo _ _).2.1 _ _ hread).2.2 fun _ => .inr (by decide +kernel)).symm

/-- The only bit of this number stands where there is no room: it is read as zero, where the reader
    of unsigned numbers refuses it. -/
theorem sleb_loses_bit :
    (tenthByte 2).sleb 0 = .ok (0, 10) ∧ (tenthByte 2).signedAt 0 10 = 2 ^ 64 ∧
      (tenthByte 2).uleb 0 = .error (.badValue "ULEB128 overflow") :=
  ⟨by decide +kernel, by decide +kernel, by decide +kernel⟩

end Reader

end ObjcAtlas
