import Mathlib.Tactic.Ring
import ObjcAtlas.Image.Leb128
import ObjcAtlas.Proofs.Image.Holds

set_option autoImplicit false

namespace ObjcAtlas

namespace Leb

def isMarked : List UInt8 → Bool
  | [] => false
  | b :: bs => if b.toNat < 128 then bs.isEmpty else isMarked bs

/-- What the groups of seven bits add up to. -/
def sum : List UInt8 → Nat
  | [] => 0
  | b :: bs => b.toNat % 128 + 128 * sum bs

/-- What the groups add up to when the last one has a sign. -/
def signedSum : List UInt8 → Int
  | [] => 0
  | b :: bs =>
    if b.toNat < 128 then if 64 ≤ b.toNat then b.toNat - 128 else b.toNat
    else b.toNat % 128 + 128 * signedSum bs

/-- The shortest spelling of a number that takes at most `more + 1` bytes. -/
def groups : (more n : Nat) → List UInt8
  | 0, n => [UInt8.ofNat n]
  | more + 1, n =>
    if n < 128 then [UInt8.ofNat n] else UInt8.ofNat (n % 128 + 128) :: groups more (n / 128)

def signedGroups : (more : Nat) → Int → List UInt8
  | 0, n => [UInt8.ofNat (n % 128).toNat]
  | more + 1, n =>
    if -64 ≤ n ∧ n < 64 then [UInt8.ofNat (n % 128).toNat]
    else UInt8.ofNat ((n % 128).toNat + 128) :: signedGroups more (n / 128)

theorem toNat_byte {n : Nat} (h : n < 256) : (UInt8.ofNat n).toNat = n := by
  rw [UInt8.toNat_ofNat']
  omega

theorem isMarked_last {n : Nat} (h : n < 128) : isMarked [UInt8.ofNat n] = true := by
  rw [isMarked, toNat_byte (by omega), if_pos h]
  rfl

theorem sum_last {n : Nat} (h : n < 128) : sum [UInt8.ofNat n] = n := by
  rw [sum, sum, toNat_byte (by omega)]
  omega

theorem signedSum_last {n : Int} (hlow : -64 ≤ n) (hhigh : n < 64) :
    signedSum [UInt8.ofNat (n % 128).toNat] = n := by
  have hb := toNat_byte (n := (n % 128).toNat) (by omega)
  rw [signedSum, hb, if_pos (by omega)]
  split <;> omega

theorem groups_spell (more n : Nat) (h : n < 128 ^ (more + 1)) :
    isMarked (groups more n) = true ∧ sum (groups more n) = n ∧
      (groups more n).length ≤ more + 1 := by
  induction more generalizing n with
  | zero => exact ⟨isMarked_last (by omega), sum_last (by omega), Nat.le_refl 1⟩
  | succ more ih =>
    rw [groups]
    by_cases hn : n < 128
    · rw [if_pos hn]
      exact ⟨isMarked_last hn, sum_last hn, by simp⟩
    · have hrest : n / 128 < 128 ^ (more + 1) := by
        rw [Nat.div_lt_iff_lt_mul (by omega), ← Nat.pow_succ]
        exact h
      obtain ⟨hmarked, hsum, hlength⟩ := ih _ hrest
      have hb := toNat_byte (n := n % 128 + 128) (by omega)
      rw [if_neg hn]
      simp only [isMarked, sum, hb, hmarked, hsum, List.length_cons]
      refine ⟨?_, ?_, ?_⟩
      · rw [if_neg (by omega)]
      · omega
      · omega

theorem signedGroups_spell (more : Nat) (n : Int) (hlow : -64 * 128 ^ more ≤ n)
    (hhigh : n < 64 * 128 ^ more) :
    isMarked (signedGroups more n) = true ∧ signedSum (signedGroups more n) = n ∧
      (signedGroups more n).length ≤ more + 1 := by
  induction more generalizing n with
  | zero =>
    exact ⟨isMarked_last (by omega), signedSum_last (by omega) (by omega), Nat.le_refl 1⟩
  | succ more ih =>
    rw [signedGroups]
    by_cases hn : -64 ≤ n ∧ n < 64
    · rw [if_pos hn]
      exact ⟨isMarked_last (by omega), signedSum_last hn.1 hn.2, by simp⟩
    · rw [Int.pow_succ] at hlow hhigh
      obtain ⟨hmarked, hsum, hlength⟩ := ih (n / 128) (by omega) (by omega)
      have hb := toNat_byte (n := (n % 128).toNat + 128) (by omega)
      rw [if_neg hn]
      simp only [isMarked, signedSum, hb, hmarked, hsum, List.length_cons]
      refine ⟨?_, ?_, ?_⟩
      · rw [if_neg (by omega)]
      · rw [if_neg (by omega)]
        omega
      · omega

end Leb

structure Uleb where
  bytes : List UInt8
  marked : Leb.isMarked bytes = true
  length_le : bytes.length ≤ 10
  sum_lt : Leb.sum bytes < 2 ^ 64

structure Sleb where
  bytes : List UInt8
  marked : Leb.isMarked bytes = true
  length_le : bytes.length ≤ 10
  le_sum : -2 ^ 63 ≤ Leb.signedSum bytes
  sum_lt : Leb.signedSum bytes < 2 ^ 63

namespace Uleb

def value (n : Uleb) : UInt64 := UInt64.ofNat (Leb.sum n.bytes)

def ofWord (v : UInt64) : Uleb where
  bytes := Leb.groups 9 v.toNat
  marked := (Leb.groups_spell 9 v.toNat (by have := v.toNat_lt; omega)).1
  length_le := (Leb.groups_spell 9 v.toNat (by have := v.toNat_lt; omega)).2.2
  sum_lt := by
    have hv := v.toNat_lt
    rwa [(Leb.groups_spell 9 v.toNat (by omega)).2.1]

theorem value_ofWord (v : UInt64) : (ofWord v).value = v := by
  have hv := v.toNat_lt
  rw [value, ofWord, (Leb.groups_spell 9 v.toNat (by omega)).2.1, UInt64.ofNat_toNat]

end Uleb

namespace Sleb

def value (n : Sleb) : Int64 := Int64.ofInt (Leb.signedSum n.bytes)

def ofWord (v : Int64) : Sleb :=
  have h := Leb.signedGroups_spell 9 v.toInt (by have := v.le_toInt; omega)
    (by have := v.toInt_lt; omega)
  { bytes := Leb.signedGroups 9 v.toInt
    marked := h.1
    length_le := h.2.2
    le_sum := by rw [h.2.1]; exact v.le_toInt
    sum_lt := by rw [h.2.1]; exact v.toInt_lt }

theorem value_ofWord (v : Int64) : (ofWord v).value = v := by
  have h := Leb.signedGroups_spell 9 v.toInt (by have := v.le_toInt; omega)
    (by have := v.toInt_lt; omega)
  rw [value, ofWord, h.2.1, Int64.ofInt_toInt]

end Sleb

namespace Reader

variable {r : Reader} {offset : Nat}

theorem Has.u8 {b : UInt8} {part : List UInt8} (h : r.Has offset (b :: part)) :
    r.u8 offset = .ok b := by
  have hb : r.Has offset ([b] ++ part) := h
  have hs : r.slice offset 1 = .ok ⟨[b].toArray⟩ := Reader.Has.slice hb.append_left
  rw [Reader.u8, Reader.number, hs]
  refine congrArg Except.ok ?_
  cases r.order <;> simp [ByteOrder.value, ByteOrder.littleValue]

theorem Has.tail {b : UInt8} {part : List UInt8} (h : r.Has offset (b :: part)) :
    r.Has (offset + 1) part := by
  have hb : r.Has offset ([b] ++ part) := h
  exact hb.append_right

theorem ulebFrom_eq {bytes : List UInt8} (hm : Leb.isMarked bytes = true)
    (h : r.Has offset bytes) (left shift value : Nat) (hleft : bytes.length ≤ left)
    (hshift : shift + 7 * left = 70) (hfit : value + Leb.sum bytes * 2 ^ shift < 2 ^ 64) :
    ulebFrom r left offset shift value =
      .ok (value + Leb.sum bytes * 2 ^ shift, shift / 7 + bytes.length) := by
  induction bytes generalizing offset left shift value with
  | nil => exact absurd hm (by decide)
  | cons b bs ih =>
    cases left with
    | zero => exact absurd hleft (Nat.not_succ_le_zero _)
    | succ left =>
      rw [Leb.sum, Nat.add_mul] at hfit
      -- The tenth group has room for one bit.
      have hroom : ¬ (shift = 63 ∧ 1 < b.toNat % 128) := by
        rintro ⟨rfl, hlow⟩
        omega
      simp only [ulebFrom, h.u8, if_neg hroom, bind, Except.bind, Nat.shiftLeft_eq]
      rw [Leb.isMarked] at hm
      by_cases hb : b.toNat < 128
      · rw [if_pos hb, List.isEmpty_iff] at hm
        subst hm
        rw [if_pos hb]
        simp [Leb.sum]
      · rw [if_neg hb] at hm ⊢
        have hnext : 128 * Leb.sum bs * 2 ^ shift = Leb.sum bs * 2 ^ (shift + 7) := by
          rw [Nat.pow_add, Nat.mul_comm 128, Nat.mul_assoc, Nat.mul_comm 128]
        rw [hnext] at hfit
        rw [ih hm h.tail _ _ _ (Nat.le_of_succ_le_succ hleft) (by omega) (by omega), Leb.sum,
          Nat.add_mul, hnext, List.length_cons]
        congr 2
        · omega
        · omega

theorem Has.uleb {n : Uleb} (h : r.Has offset n.bytes) :
    r.uleb offset = .ok (n.value, n.bytes.length) := by
  have hfit : 0 + Leb.sum n.bytes * 2 ^ 0 < 2 ^ 64 := by
    have := n.sum_lt
    omega
  rw [Reader.uleb, ulebFrom_eq n.marked h maxLeb 0 0 n.length_le (by decide) hfit]
  simp [Except.map, Uleb.value]

/-- The reader of signed numbers is right up to multiples of `2 ^ 64`. -/
theorem slebFrom_eq {bytes : List UInt8} (hm : Leb.isMarked bytes = true)
    (h : r.Has offset bytes) (left shift value : Nat) (hleft : bytes.length ≤ left)
    (hshift : shift + 7 * left = 70) :
    ∃ v, slebFrom r left offset shift value = .ok (v, shift / 7 + bytes.length) ∧
      ∃ k : Int, (v : Int) = value + Leb.signedSum bytes * 2 ^ shift + 2 ^ 64 * k := by
  induction bytes generalizing offset left shift value with
  | nil => exact absurd hm (by decide)
  | cons b bs ih =>
    cases left with
    | zero => exact absurd hleft (Nat.not_succ_le_zero _)
    | succ left =>
      simp only [slebFrom, h.u8, bind, Except.bind, Nat.shiftLeft_eq]
      rw [Leb.isMarked] at hm
      by_cases hb : b.toNat < 128
      · rw [if_pos hb, List.isEmpty_iff] at hm
        subst hm
        rw [if_pos hb, Nat.mod_eq_of_lt hb, Leb.signedSum, if_pos hb]
        by_cases hneg : 64 ≤ b.toNat
        · rw [if_pos hneg, if_pos hneg]
          refine ⟨_, rfl, ?_⟩
          -- The sign fills the bits above the group; above the tenth group there are none.
          by_cases hlast : shift = 63
          · subst hlast
            exact ⟨64, by simp [UInt64.size]; omega⟩
          · refine ⟨1, ?_⟩
            have hsign : 1 * 2 ^ (shift + 7) ≤ UInt64.size := by
              rw [Nat.one_mul]
              exact Nat.pow_le_pow_right (n := 2) (by decide) (by omega : shift + 7 ≤ 64)
            push_cast [Nat.cast_sub hsign]
            ring
        · rw [if_neg hneg, if_neg hneg]
          exact ⟨_, rfl, 0, by push_cast; omega⟩
      · rw [if_neg hb] at hm ⊢
        obtain ⟨v, hread, k, hk⟩ := ih hm h.tail left (shift + 7)
          (value + b.toNat % 128 * 2 ^ shift) (Nat.le_of_succ_le_succ hleft) (by omega)
        refine ⟨v, ?_, k, ?_⟩
        · rw [hread, List.length_cons]
          congr 2
          omega
        · rw [hk, Leb.signedSum, if_neg hb]
          push_cast
          ring

theorem sleb_of_has {bytes : List UInt8} (hm : Leb.isMarked bytes = true) (h : r.Has offset bytes)
    (hlen : bytes.length ≤ 10) :
    r.sleb offset = .ok (Int64.ofInt (Leb.signedSum bytes), bytes.length) := by
  obtain ⟨v, hread, k, hk⟩ := slebFrom_eq hm h maxLeb 0 0 hlen (by decide)
  have hword : (UInt64.ofNat v).toInt64 = Int64.ofInt (Leb.signedSum bytes) := by
    rw [UInt64.toInt64_ofNat', ← Int64.ofInt_eq_ofNat, hk, Int64.ofInt_eq_iff_bmod_eq_toInt,
      Int64.toInt_ofInt]
    have hwrap := Int.add_mul_bmod_self_left (Leb.signedSum bytes) (2 ^ 64) k
    simpa using hwrap
  rw [Reader.sleb, hread]
  simp only [Except.map, hword, Nat.zero_div, Nat.zero_add]

theorem Has.sleb {n : Sleb} (h : r.Has offset n.bytes) :
    r.sleb offset = .ok (n.value, n.bytes.length) :=
  sleb_of_has n.marked h n.length_le

end Reader

end ObjcAtlas
