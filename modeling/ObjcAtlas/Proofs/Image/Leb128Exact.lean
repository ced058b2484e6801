import Mathlib.Algebra.BigOperators.Ring.Finset
import ObjcAtlas.Proofs.Image.Leb128
import ObjcAtlas.Proofs.Image.Stretch

set_option autoImplicit false

/-!
# Numbers of variable length, read exactly

A reader of numbers gives nothing but what a spelling at its place stands for: it stops at the first
byte without its top bit, after at most ten, and an unsigned number is the sum of its groups, of
which no bit is lost. Numbers may be spelled with groups to spare; `Uleb.ofWord` and `Sleb.ofWord`
spell them without, and no stretch that is read as the same number is shorter.
-/
namespace ObjcAtlas

namespace Leb

theorem sum_lt (bytes : List UInt8) : sum bytes < 128 ^ bytes.length := by
  induction bytes with
  | nil => exact Nat.one_pos
  | cons b bytes ih =>
    rw [sum, List.length_cons, Nat.pow_succ]
    omega

theorem length_groups_le {more n k : Nat} (h : n < 128 ^ (k + 1)) :
    (groups more n).length ≤ k + 1 := by
  induction more generalizing n k with
  | zero => exact Nat.succ_le_succ (Nat.zero_le k)
  | succ more ih =>
    rw [groups]
    by_cases hn : n < 128
    · rw [if_pos hn]
      exact Nat.succ_le_succ (Nat.zero_le k)
    · rw [if_neg hn, List.length_cons]
      cases k with
      | zero => omega
      | succ k =>
        rw [Nat.pow_succ] at h
        have hrest : n / 128 < 128 ^ (k + 1) := by omega
        exact Nat.succ_le_succ (ih hrest)

theorem signedSum_bounds {bytes : List UInt8} (hm : isMarked bytes = true) {k : Nat}
    (hk : bytes.length = k + 1) :
    -64 * 128 ^ k ≤ signedSum bytes ∧ signedSum bytes < 64 * 128 ^ k := by
  induction bytes generalizing k with
  | nil => exact absurd hm (by decide)
  | cons b bytes ih =>
    rw [isMarked] at hm
    rw [signedSum]
    by_cases hb : b.toNat < 128
    · rw [if_pos hb, List.isEmpty_iff] at hm
      subst hm
      obtain rfl : k = 0 := by simpa using hk
      rw [if_pos hb]
      split <;> omega
    · rw [if_neg hb] at hm ⊢
      cases k with
      | zero =>
        -- A marked byte is not the last.
        rw [List.length_eq_zero_iff.1 (Nat.succ.inj hk)] at hm
        exact absurd hm (by decide)
      | succ k =>
        have hrest := ih hm (Nat.succ.inj hk)
        rw [Int.pow_succ]
        omega

theorem exists_length {bytes : List UInt8} (hm : isMarked bytes = true) :
    ∃ k, bytes.length = k + 1 := by
  cases bytes with
  | nil => exact absurd hm (by decide)
  | cons b bytes => exact ⟨bytes.length, rfl⟩

theorem signedSum_fits {bytes : List UInt8} (hm : isMarked bytes = true)
    (hlen : bytes.length < 10) : -2 ^ 63 ≤ signedSum bytes ∧ signedSum bytes < 2 ^ 63 := by
  obtain ⟨k, hk⟩ := exists_length hm
  have hbounds := signedSum_bounds hm hk
  have hpow : (128 : Int) ^ k ≤ 128 ^ 8 := by
    exact_mod_cast Nat.pow_le_pow_right (n := 128) (by decide) (show k ≤ 8 by omega)
  omega

theorem length_signedGroups_le {more k : Nat} {n : Int} (hlow : -64 * 128 ^ k ≤ n)
    (hhigh : n < 64 * 128 ^ k) : (signedGroups more n).length ≤ k + 1 := by
  induction more generalizing n k with
  | zero => exact Nat.succ_le_succ (Nat.zero_le k)
  | succ more ih =>
    rw [signedGroups]
    by_cases hn : -64 ≤ n ∧ n < 64
    · rw [if_pos hn]
      exact Nat.succ_le_succ (Nat.zero_le k)
    · rw [if_neg hn, List.length_cons]
      cases k with
      | zero => omega
      | succ k =>
        rw [Int.pow_succ] at hlow hhigh
        exact Nat.succ_le_succ (ih (n := n / 128) (by omega) (by omega))

end Leb

namespace Reader

variable {r : Reader} {offset : Nat} {bytes : List UInt8} {b : UInt8}

theorem Has.cons (hb : r.Has offset [b]) (h : r.Has (offset + 1) bytes) :
    r.Has offset (b :: bytes) := by
  obtain ⟨pre, post, hall, rfl⟩ := hb
  obtain ⟨pre', post', hall', hlen⟩ := h
  have hsplit : (pre ++ [b]) ++ post = pre' ++ (bytes ++ post') := by
    rw [← hall', hall, List.append_assoc]
  obtain ⟨-, rfl⟩ := List.append_inj hsplit (by rw [hlen, List.length_append]; rfl)
  exact ⟨pre, post', by rw [hall]; rfl, rfl⟩

theorem exists_has {n : Nat} (h : offset + n ≤ r.size) :
    ∃ bytes, r.Has offset bytes ∧ bytes.length = n := by
  rw [size_eq_length] at h
  refine ⟨(r.bytes.data.toList.drop offset).take n, ?_, ?_⟩
  · refine ⟨r.bytes.data.toList.take offset, (r.bytes.data.toList.drop offset).drop n, ?_, ?_⟩
    · rw [List.take_append_drop, List.take_append_drop]
    · rw [List.length_take]
      omega
  · rw [List.length_take, List.length_drop]
    omega

theorem has_of_u8 (h : r.u8 offset = .ok b) : r.Has offset [b] := by
  obtain ⟨value, hvalue, -⟩ := map_eq_ok.1 h
  obtain ⟨stretch, hstretch, -⟩ := map_eq_ok.1 hvalue
  obtain ⟨bytes, hbytes, hlen⟩ := exists_has (le_of_slice hstretch).1
  obtain ⟨x, rfl⟩ := List.length_eq_one_iff.1 hlen
  obtain rfl : x = b := Except.ok.inj (hbytes.u8.symm.trans h)
  exact hbytes

theorem Has.isMarked_iff (h : r.Has offset bytes) :
    Leb.isMarked bytes = true ↔ 0 < bytes.length ∧ ∀ i < bytes.length,
      (128 ≤ (Reader.byteAt r.bytes (offset + i)).toNat ↔ i + 1 < bytes.length) := by
  induction bytes generalizing offset with
  | nil => simp [Leb.isMarked]
  | cons b bytes ih =>
    have hfirst : Reader.byteAt r.bytes (offset + 0) = b := h.byteAt
    have hrest := ih h.tail
    simp only [Nat.add_assoc offset 1, Nat.add_comm 1] at hrest
    simp only [Nat.forall_lt_succ_left', hfirst, List.length_cons, Leb.isMarked]
    by_cases hb : b.toNat < 128
    · rw [if_pos hb, List.isEmpty_iff_length_eq_zero]
      constructor
      · intro hlen
        exact ⟨by omega, by omega, fun i hi => absurd hi (by omega)⟩
      · rintro ⟨-, hmark, -⟩
        omega
    · rw [if_neg hb, hrest]
      constructor
      · rintro ⟨hpos, hmarks⟩
        exact ⟨by omega, by omega, fun i hi => (hmarks i hi).trans (by omega)⟩
      · rintro ⟨-, hmark, hmarks⟩
        exact ⟨by omega, fun i hi => (hmarks i hi).trans (by omega)⟩

theorem Has.sum_eq (h : r.Has offset bytes) :
    Leb.sum bytes = ∑ i ∈ Finset.range bytes.length,
      (Reader.byteAt r.bytes (offset + i)).toNat % 128 * 128 ^ i := by
  induction bytes generalizing offset with
  | nil => rfl
  | cons b bytes ih =>
    have hrest := ih h.tail
    simp only [Nat.add_assoc offset 1, Nat.add_comm 1] at hrest
    rw [Leb.sum, hrest, List.length_cons, Finset.sum_range_succ', Finset.mul_sum, Nat.add_zero,
      h.byteAt, Nat.pow_zero, Nat.mul_one, Nat.add_comm]
    congr 1
    exact Finset.sum_congr rfl fun i _ => by rw [Nat.pow_succ]; ring

theorem exists_of_ulebFrom {left shift value : Nat} {found : Nat × Nat}
    (hshift : shift + 7 * left = 70) (hvalue : value < 2 ^ shift)
    (h : ulebFrom r left offset shift value = .ok found) :
    ∃ bytes, r.Has offset bytes ∧ Leb.isMarked bytes = true ∧ bytes.length ≤ left ∧
      found = (value + Leb.sum bytes * 2 ^ shift, shift / 7 + bytes.length) ∧
        found.1 < 2 ^ 64 := by
  induction left generalizing offset shift value with
  | zero =>
    obtain ⟨byte, -, h⟩ := bind_eq_ok.1 h
    exact absurd h nofun
  | succ left ih =>
    obtain ⟨byte, hbyte, h⟩ := bind_eq_ok.1 h
    have hhas := has_of_u8 hbyte
    -- What is added to the value stays below the next group.
    have hgroup : value + (byte.toNat % 128) <<< shift < 2 ^ (shift + 7) := by
      have hlow : byte.toNat % 128 * 2 ^ shift ≤ 127 * 2 ^ shift :=
        Nat.mul_le_mul_right _ (by omega)
      rw [Nat.shiftLeft_eq, Nat.pow_add]
      omega
    dsimp only at h
    split at h
    · exact absurd h nofun
    next hroom =>
      split at h
      next hlast =>
        obtain rfl := Except.ok.inj h
        refine ⟨[byte], hhas, ?_, Nat.succ_le_succ (Nat.zero_le left), ?_, ?_⟩
        · rw [Leb.isMarked, if_pos hlast]
          rfl
        · simp [Leb.sum, Nat.shiftLeft_eq]
        · -- The tenth group has a single bit; before it there is room for seven.
          by_cases htenth : shift = 63
          · subst htenth
            rw [Nat.shiftLeft_eq]
            dsimp only
            omega
          · exact Nat.lt_of_lt_of_le hgroup (Nat.pow_le_pow_right (by decide) (by omega))
      next hmore =>
        obtain ⟨bytes, hbytes, hmarked, hlen, hfound, hlt⟩ := ih (by omega) hgroup h
        refine ⟨byte :: bytes, hhas.cons hbytes, ?_, Nat.succ_le_succ hlen, ?_, hlt⟩
        · rw [Leb.isMarked, if_neg hmore]
          exact hmarked
        · rw [hfound, Leb.sum, List.length_cons, Nat.shiftLeft_eq]
          congr 1
          · ring
          · omega

theorem exists_of_slebFrom {left shift value : Nat} {found : Nat × Nat}
    (h : slebFrom r left offset shift value = .ok found) :
    ∃ bytes, r.Has offset bytes ∧ Leb.isMarked bytes = true ∧ bytes.length ≤ left := by
  induction left generalizing offset shift value with
  | zero =>
    obtain ⟨byte, -, h⟩ := bind_eq_ok.1 h
    exact absurd h nofun
  | succ left ih =>
    obtain ⟨byte, hbyte, h⟩ := bind_eq_ok.1 h
    have hhas := has_of_u8 hbyte
    by_cases hlast : byte.toNat < 128
    · refine ⟨[byte], hhas, ?_, Nat.succ_le_succ (Nat.zero_le left)⟩
      rw [Leb.isMarked, if_pos hlast]
      rfl
    · rw [if_neg hlast] at h
      obtain ⟨bytes, hbytes, hmarked, hlen⟩ := ih h
      refine ⟨byte :: bytes, hhas.cons hbytes, ?_, Nat.succ_le_succ hlen⟩
      rw [Leb.isMarked, if_neg hlast]
      exact hmarked

theorem uleb_eq_ok_iff {v : UInt64} {n : Nat} :
    r.uleb offset = .ok (v, n) ↔ ∃ bytes, r.Has offset bytes ∧ Leb.isMarked bytes = true ∧
      bytes.length = n ∧ n ≤ 10 ∧ Leb.sum bytes = v.toNat := by
  constructor
  · intro h
    obtain ⟨found, hfound, hword⟩ := map_eq_ok.1 h
    obtain ⟨bytes, hbytes, hmarked, hlen, rfl, hlt⟩ :=
      exists_of_ulebFrom (by decide) (by decide) hfound
    cases hword
    rw [Nat.pow_zero, Nat.mul_one, Nat.zero_add] at hlt
    refine ⟨bytes, hbytes, hmarked, by omega, by rw [maxLeb] at hlen; omega, ?_⟩
    rw [Nat.pow_zero, Nat.mul_one, Nat.zero_add, UInt64.toNat_ofNat_of_lt' hlt]
  · rintro ⟨bytes, hbytes, hmarked, rfl, hlen, hsum⟩
    have hvalue : UInt64.ofNat (Leb.sum bytes) = v := by rw [hsum, UInt64.ofNat_toNat]
    have hread := Has.uleb (n := ⟨bytes, hmarked, hlen, hsum ▸ v.toNat_lt⟩) hbytes
    rw [← hvalue]
    exact hread

theorem sleb_eq_ok_iff {v : Int64} {n : Nat} :
    r.sleb offset = .ok (v, n) ↔ ∃ bytes, r.Has offset bytes ∧ Leb.isMarked bytes = true ∧
      bytes.length = n ∧ n ≤ 10 ∧ v = Int64.ofInt (Leb.signedSum bytes) := by
  constructor
  · intro h
    obtain ⟨found, hfound, -⟩ := map_eq_ok.1 h
    obtain ⟨bytes, hbytes, hmarked, hlen⟩ := exists_of_slebFrom hfound
    have hread := sleb_of_has hmarked hbytes hlen
    obtain ⟨rfl, rfl⟩ := Prod.mk.inj (Except.ok.inj (hread.symm.trans h))
    exact ⟨bytes, hbytes, hmarked, rfl, hlen, rfl⟩
  · rintro ⟨bytes, hbytes, hmarked, rfl, hlen, rfl⟩
    exact sleb_of_has hmarked hbytes hlen

theorem length_ofWord_le_of_uleb {v : UInt64} {n : Nat} (h : r.uleb offset = .ok (v, n)) :
    (Uleb.ofWord v).bytes.length ≤ n := by
  obtain ⟨bytes, -, hmarked, rfl, -, hsum⟩ := uleb_eq_ok_iff.1 h
  have hlt := Leb.sum_lt bytes
  rw [hsum] at hlt
  cases bytes with
  | nil => exact absurd hmarked (by decide)
  | cons b bytes => exact Leb.length_groups_le hlt

theorem length_ofWord_le_of_sleb {w : Int64} {n : Nat} (h : r.sleb offset = .ok (w, n)) :
    (Sleb.ofWord w).bytes.length ≤ n := by
  obtain ⟨bytes, -, hmarked, rfl, hle, rfl⟩ := sleb_eq_ok_iff.1 h
  by_cases hten : bytes.length = 10
  · -- Ten bytes are as many as any number takes.
    rw [hten]
    exact (Sleb.ofWord _).length_le
  · obtain ⟨hlow, hhigh⟩ := Leb.signedSum_fits hmarked (by omega)
    have hvalue : (Int64.ofInt (Leb.signedSum bytes)).toInt = Leb.signedSum bytes :=
      Int64.toInt_ofInt_of_le hlow hhigh
    obtain ⟨k, hk⟩ := Leb.exists_length hmarked
    have hbounds := Leb.signedSum_bounds hmarked hk
    change (Leb.signedGroups 9 (Int64.ofInt (Leb.signedSum bytes)).toInt).length ≤ bytes.length
    rw [hvalue, hk]
    exact Leb.length_signedGroups_le hbounds.1 hbounds.2

/-- An unsigned number is read at a place exactly when at most ten bytes there, all but the last of
    them with the top bit set, have groups that add up to it. Both kinds of numbers are read from
    their spelling without spare groups, wherever it stands; and nothing shorter reads as the same
    number. -/
theorem leb_read_exactly :
    (∀ (r : Reader) (offset : Nat) (v : UInt64) (n : Nat), r.uleb offset = .ok (v, n) ↔
      0 < n ∧ n ≤ 10 ∧ offset + n ≤ r.size ∧
        (∀ i < n, 128 ≤ (byteAt r.bytes (offset + i)).toNat ↔ i + 1 < n) ∧
        ∑ i ∈ Finset.range n, (byteAt r.bytes (offset + i)).toNat % 128 * 128 ^ i = v.toNat) ∧
      (∀ (order : ByteOrder) (before behind : List UInt8) (v : UInt64),
        (ofList order (before ++ (Uleb.ofWord v).bytes ++ behind)).uleb before.length =
          .ok (v, (Uleb.ofWord v).bytes.length)) ∧
      (∀ (order : ByteOrder) (before behind : List UInt8) (w : Int64),
        (ofList order (before ++ (Sleb.ofWord w).bytes ++ behind)).sleb before.length =
          .ok (w, (Sleb.ofWord w).bytes.length)) ∧
      (∀ (r : Reader) (offset : Nat) (v : UInt64) (n : Nat), r.uleb offset = .ok (v, n) →
        (Uleb.ofWord v).bytes.length ≤ n) ∧
      ∀ (r : Reader) (offset : Nat) (w : Int64) (n : Nat), r.sleb offset = .ok (w, n) →
        (Sleb.ofWord w).bytes.length ≤ n := by
  have hplace (order : ByteOrder) (before code behind : List UInt8) :
      (ofList order (before ++ code ++ behind)).Has before.length code :=
    ⟨before, behind, List.append_assoc _ _ _, rfl⟩
  refine ⟨fun r offset v n => ?_, fun order before behind v => ?_, fun order before behind w => ?_,
    fun _ _ _ _ => length_ofWord_le_of_uleb, fun _ _ _ _ => length_ofWord_le_of_sleb⟩
  · rw [uleb_eq_ok_iff]
    constructor
    · rintro ⟨bytes, hbytes, hmarked, rfl, hle, hsum⟩
      obtain ⟨hpos, hmarks⟩ := hbytes.isMarked_iff.1 hmarked
      exact ⟨hpos, hle, hbytes.length_le, hmarks, hbytes.sum_eq ▸ hsum⟩
    · rintro ⟨hpos, hle, hsize, hmarks, hsum⟩
      obtain ⟨bytes, hbytes, rfl⟩ := exists_has hsize
      exact ⟨bytes, hbytes, hbytes.isMarked_iff.2 ⟨hpos, hmarks⟩, rfl, hle,
        hbytes.sum_eq.trans hsum⟩
  · have hread := Has.uleb (hplace order before (Uleb.ofWord v).bytes behind)
    rwa [Uleb.value_ofWord] at hread
  · have hread := Has.sleb (hplace order before (Sleb.ofWord w).bytes behind)
    rwa [Sleb.value_ofWord] at hread

/-- The number 624485 with one group to spare, between other bytes, and then -129. -/
def spareImage : Reader := ofList .big [0xff, 0xe5, 0x8e, 0xa6, 0x00, 0xff, 0x7e, 0x80]

theorem leb_read_exactly_spareImage :
    spareImage.uleb 1 = .ok (624485, 4) ∧ (Uleb.ofWord 624485).bytes.length ≤ 4 ∧
      spareImage.sleb 5 = .ok (-129, 2) ∧ (Sleb.ofWord (-129)).bytes.length ≤ 2 := by
  have hsleb : spareImage.sleb 5 = .ok (-129, 2) := by decide +kernel
  have huleb : spareImage.uleb 1 = .ok (624485, 4) :=
    (leb_read_exactly.1 spareImage 1 624485 4).2
      ⟨by decide, by decide, by decide, by decide +kernel, by decide +kernel⟩
  exact ⟨huleb, leb_read_exactly.2.2.2.1 _ _ _ _ huleb, hsleb,
    leb_read_exactly.2.2.2.2 _ _ _ _ hsleb⟩

end Reader

end ObjcAtlas
