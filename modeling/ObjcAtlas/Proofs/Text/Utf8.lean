import ObjcAtlas.Text.Utf8

set_option autoImplicit false

namespace ObjcAtlas.Utf8

theorem start_ascii {k : Nat} (hk : k < 0x80) :
    start (UInt8.ofNat k) = ([Char.ofNat k], none) := by
  have hb : (UInt8.ofNat k).toNat = k := UInt8.toNat_ofNat_of_lt' (Nat.lt_trans hk (by decide))
  have hlt : UInt8.ofNat k < 0x80 := by
    rw [UInt8.lt_iff_toNat_lt, hb]
    exact hk
  rw [start, if_pos hlt, hb]

theorem start_two : ∀ k < 0x20, 2 ≤ k →
    start (UInt8.ofNat (k + 0xC0)) = ([], some ⟨1, 0x80, 0xBF, k⟩) := by
  decide

theorem start_three : ∀ k < 0x10, start (UInt8.ofNat (k + 0xE0)) =
    ([], some ⟨2, if k = 0 then 0xA0 else 0x80, if k = 13 then 0x9F else 0xBF, k⟩) := by
  decide

theorem start_four : ∀ k ≤ 4, start (UInt8.ofNat (k + 0xF0)) =
    ([], some ⟨3, if k = 0 then 0x90 else 0x80, if k = 4 then 0x8F else 0xBF, k⟩) := by
  decide

theorem resume_in_range {owed value k : Nat} {low high : UInt8} (hk : k < 0x40)
    (hl : low.toNat ≤ k + 0x80) (hh : k + 0x80 ≤ high.toNat) :
    resume ⟨owed, low, high, value⟩ (UInt8.ofNat (k + 0x80)) =
      if owed ≤ 1 then ([Char.ofNat (value * 64 + k)], none)
      else ([], some ⟨owed - 1, 0x80, 0xBF, value * 64 + k⟩) := by
  have hb : (UInt8.ofNat (k + 0x80)).toNat = k + 0x80 := by
    rw [UInt8.toNat_ofNat']
    omega
  have hin : low ≤ UInt8.ofNat (k + 0x80) ∧ UInt8.ofNat (k + 0x80) ≤ high := by
    rw [UInt8.le_iff_toNat_le, UInt8.le_iff_toNat_le, hb]
    exact ⟨hl, hh⟩
  rw [resume, if_pos hin, hb, show (k + 0x80) % 64 = k by omega]

theorem run_lead {b : UInt8} {p : Pending} (h : start b = ([], some p)) (rest : List UInt8) :
    run none (b :: rest) = run (some p) rest := by
  rw [run, step, h]
  rfl

theorem run_next {owed value k : Nat} {low high : UInt8} (hk : k < 0x40)
    (hl : low.toNat ≤ k + 0x80) (hh : k + 0x80 ≤ high.toNat) (rest : List UInt8) :
    run (some ⟨owed + 2, low, high, value⟩) (UInt8.ofNat (k + 0x80) :: rest) =
      run (some ⟨owed + 1, 0x80, 0xBF, value * 64 + k⟩) rest := by
  rw [run, step, resume_in_range hk hl hh, if_neg (by omega)]
  rfl

theorem run_last {value k : Nat} {low high : UInt8} (hk : k < 0x40)
    (hl : low.toNat ≤ k + 0x80) (hh : k + 0x80 ≤ high.toNat) (rest : List UInt8) :
    run (some ⟨1, low, high, value⟩) (UInt8.ofNat (k + 0x80) :: rest) =
      Char.ofNat (value * 64 + k) :: run none rest := by
  rw [run, step, resume_in_range hk hl hh, if_pos (Nat.le_refl 1)]
  rfl

theorem run_utf8EncodeChar (c : Char) (rest : List UInt8) :
    run none (String.utf8EncodeChar c ++ rest) = c :: run none rest := by
  have hvalid : c.val.toNat < 0xD800 ∨ 0xDFFF < c.val.toNat ∧ c.val.toNat < 0x110000 := c.valid
  have hc : Char.ofNat c.val.toNat = c := Char.ofNat_toNat c
  have hlow : (0x80 : UInt8).toNat = 0x80 := rfl
  have hhigh : (0xBF : UInt8).toNat = 0xBF := rfl
  unfold String.utf8EncodeChar
  generalize c.val.toNat = v at hvalid hc
  simp only
  split
  · rw [List.cons_append, List.nil_append, run, step, start_ascii (by omega), hc]
    rfl
  split
  · simp only [List.cons_append, List.nil_append]
    rw [run_lead (start_two _ (by omega) (by omega)),
      run_last (by omega) (by omega) (by omega),
      show v / 64 % 0x20 * 64 + v % 0x40 = v by omega, hc]
  split
  · simp only [List.cons_append, List.nil_append]
    rw [run_lead (start_three _ (by omega)), run_next (by omega) ?_ ?_,
      run_last (by omega) (by omega) (by omega),
      show (v / 4096 % 0x10 * 64 + v / 64 % 0x40) * 64 + v % 0x40 = v by omega, hc]
    · split
      · change 0xA0 ≤ _
        omega
      · omega
    · split
      · change _ ≤ 0x9F
        omega
      · omega
  · simp only [List.cons_append, List.nil_append]
    rw [run_lead (start_four _ (by omega)), run_next (by omega) ?_ ?_,
      run_next (by omega) (by omega) (by omega),
      run_last (by omega) (by omega) (by omega),
      show ((v / 262144 % 0x08 * 64 + v / 4096 % 0x40) * 64 + v / 64 % 0x40) * 64 + v % 0x40 = v by
        omega, hc]
    · split
      · change 0x90 ≤ _
        omega
      · omega
    · split
      · change _ ≤ 0x8F
        omega
      · omega

theorem zero_not_mem_utf8EncodeChar {c : Char} (h : c ≠ '\x00') :
    0 ∉ String.utf8EncodeChar c := by
  have hv : c.val.toNat ≠ 0 := fun h0 => h (Char.ext (UInt32.toNat.inj h0))
  have hb {k : Nat} (h0 : k % 256 ≠ 0) : (0 : UInt8) ≠ UInt8.ofNat k := by
    intro heq
    exact h0 (congrArg UInt8.toNat heq).symm
  unfold String.utf8EncodeChar
  generalize c.val.toNat = v at hv
  simp only
  split
  · simp only [List.mem_cons, List.not_mem_nil, or_false]
    exact hb (by omega)
  split
  · simp only [List.mem_cons, List.not_mem_nil, or_false, not_or]
    exact ⟨hb (by omega), hb (by omega)⟩
  split
  · simp only [List.mem_cons, List.not_mem_nil, or_false, not_or]
    exact ⟨hb (by omega), hb (by omega), hb (by omega)⟩
  · simp only [List.mem_cons, List.not_mem_nil, or_false, not_or]
    exact ⟨hb (by omega), hb (by omega), hb (by omega), hb (by omega)⟩

theorem run_encode (cs : List Char) : run none (cs.flatMap String.utf8EncodeChar) = cs := by
  induction cs with
  | nil => rfl
  | cons c cs ih => rw [List.flatMap_cons, run_utf8EncodeChar, ih]

theorem decodeLossy_encode (s : String) : decodeLossy (encode s) = s := by
  rw [decodeLossy, encode, run_encode, String.ofList_toList]

theorem length_encode (s : String) : (encode s).length = s.utf8ByteSize := by
  rw [encode, String.utf8ByteSize, ← s.utf8Encode_toList, List.utf8Encode, List.size_toByteArray]

theorem zero_not_mem_encode {s : String} (h : '\x00' ∉ s.toList) : 0 ∉ encode s := by
  rw [encode, List.mem_flatMap]
  rintro ⟨c, hc, hm⟩
  exact zero_not_mem_utf8EncodeChar (fun h0 => h (h0 ▸ hc)) hm

end ObjcAtlas.Utf8
