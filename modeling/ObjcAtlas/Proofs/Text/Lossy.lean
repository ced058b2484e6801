import ObjcAtlas.Proofs.Text.Utf8

set_option autoImplicit false

namespace ObjcAtlas.Utf8

theorem utf8Size_ofNat {v : Nat} (h : v < 0xD800 ∨ 0xDFFF < v ∧ v < 0x110000) :
    (Char.ofNat v).utf8Size =
      if v < 0x80 then 1 else if v < 0x800 then 2 else if v < 0x10000 then 3 else 4 := by
  have hval : (Char.ofNat v).val.toNat = v := by
    rw [Char.ofNat, dif_pos h]
    rfl
  have hle (n : UInt32) : (Char.ofNat v).val ≤ n ↔ v < n.toNat + 1 := by
    rw [UInt32.le_iff_toNat_le, hval]
    omega
  simp only [Char.utf8Size, hle]
  rfl

/-- A character that is open like this takes `n` bytes, with whatever bytes it is continued. -/
def Takes (n : Nat) : (owed : Nat) → (low high : UInt8) → (value : Nat) → Prop
  | 0, _, _, _ => False
  | 1, low, high, value =>
    ∀ b, low ≤ b → b ≤ high → (Char.ofNat (value * 64 + b.toNat % 64)).utf8Size = n
  | owed + 2, low, high, value =>
    ∀ b, low ≤ b → b ≤ high → Takes n (owed + 1) 0x80 0xBF (value * 64 + b.toNat % 64)

structure Pending.Opened (seen : Nat) (p : Pending) : Prop where
  total : seen + p.owed ≤ 4
  takes : Takes (seen + p.owed) p.owed p.low p.high p.value

theorem Pending.Opened.seen_le {seen : Nat} {p : Pending} (h : p.Opened seen) : seen ≤ 3 := by
  obtain ⟨owed, low, high, value⟩ := p
  obtain ⟨htotal, htakes⟩ := h
  cases owed with
  | zero => exact False.elim htakes
  | succ owed =>
    dsimp only at htotal
    omega

theorem takes_two {k : Nat} (hlow : 2 ≤ k) (hhigh : k < 0x20) : Takes 2 1 0x80 0xBF k := by
  intro b _ _
  rw [utf8Size_ofNat (by omega), if_neg (by omega), if_pos (by omega)]

theorem takes_three {k : Nat} (hk : k < 0x10) :
    Takes 3 2 (if k = 0 then 0xA0 else 0x80) (if k = 13 then 0x9F else 0xBF) k := by
  intro a hlow hhigh b _ _
  have hk0 : k = 0 → 0x20 ≤ a.toNat % 64 := by
    rintro rfl
    have hrange : 0xA0 ≤ a.toNat ∧ a.toNat ≤ 0xBF := ⟨hlow, hhigh⟩
    omega
  have hk13 : k = 13 → a.toNat % 64 < 0x20 := by
    rintro rfl
    have hrange : 0x80 ≤ a.toNat ∧ a.toNat ≤ 0x9F := ⟨hlow, hhigh⟩
    omega
  rw [utf8Size_ofNat (by omega), if_neg (by omega), if_neg (by omega), if_pos (by omega)]

theorem takes_four {k : Nat} (hk : k ≤ 4) :
    Takes 4 3 (if k = 0 then 0x90 else 0x80) (if k = 4 then 0x8F else 0xBF) k := by
  intro a hlow hhigh b _ _ c _ _
  have hk0 : k = 0 → 0x10 ≤ a.toNat % 64 := by
    rintro rfl
    have hrange : 0x90 ≤ a.toNat ∧ a.toNat ≤ 0xBF := ⟨hlow, hhigh⟩
    omega
  have hk4 : k = 4 → a.toNat % 64 < 0x10 := by
    rintro rfl
    have hrange : 0x80 ≤ a.toNat ∧ a.toNat ≤ 0x8F := ⟨hlow, hhigh⟩
    omega
  rw [utf8Size_ofNat (by omega), if_neg (by omega), if_neg (by omega), if_neg (by omega)]

theorem start_other : ∀ k < 256, 0x80 ≤ k ∧ k < 0xC2 ∨ 0xF5 ≤ k →
    start (UInt8.ofNat k) = ([replacement], none) := by
  decide +kernel

theorem start_cases (b : UInt8) :
    (∃ c, start b = ([c], none)) ∨ ∃ p, start b = ([], some p) ∧ p.Opened 1 := by
  have hb : b.toNat < 256 := b.toNat_lt
  rw [← UInt8.ofNat_toNat (x := b)]
  generalize b.toNat = n at hb
  have hkinds : n < 0x80 ∨ (0x80 ≤ n ∧ n < 0xC2 ∨ 0xF5 ≤ n) ∨ (∃ k < 0x20, 2 ≤ k ∧ n = k + 0xC0) ∨
      (∃ k < 0x10, n = k + 0xE0) ∨ ∃ k ≤ 4, n = k + 0xF0 := by
    rcases Nat.lt_or_ge n 0xC2 with h | h
    · omega
    rcases Nat.lt_or_ge n 0xE0 with h' | h'
    · exact .inr (.inr (.inl ⟨n - 0xC0, by omega, by omega, by omega⟩))
    rcases Nat.lt_or_ge n 0xF0 with h' | h'
    · exact .inr (.inr (.inr (.inl ⟨n - 0xE0, by omega, by omega⟩)))
    rcases Nat.lt_or_ge n 0xF5 with h' | h'
    · exact .inr (.inr (.inr (.inr ⟨n - 0xF0, by omega, by omega⟩)))
    · omega
  rcases hkinds with h | h | ⟨k, hk, hk2, rfl⟩ | ⟨k, hk, rfl⟩ | ⟨k, hk, rfl⟩
  · exact .inl ⟨_, start_ascii h⟩
  · exact .inl ⟨_, start_other n hb h⟩
  · exact .inr ⟨_, start_two k hk hk2, (by decide : 2 ≤ 4), takes_two hk2 hk⟩
  · exact .inr ⟨_, start_three k hk, (by decide : 3 ≤ 4), takes_three hk⟩
  · exact .inr ⟨_, start_four k hk, (by decide : 4 ≤ 4), takes_four hk⟩

theorem Pending.Opened.resume_cases {seen : Nat} {p : Pending} (h : p.Opened seen) (b : UInt8) :
    (∃ c, c.utf8Size = seen + 1 ∧ resume p b = ([c], none)) ∨
    (∃ p', resume p b = ([], some p') ∧ p'.Opened (seen + 1)) ∨
    resume p b = (replacement :: (start b).1, (start b).2) := by
  obtain ⟨owed, low, high, value⟩ := p
  obtain ⟨htotal, htakes⟩ := h
  by_cases hin : low ≤ b ∧ b ≤ high
  · rw [resume, if_pos hin]
    rcases owed with _ | _ | owed
    · exact False.elim htakes
    · exact .inl ⟨_, htakes b hin.1 hin.2, rfl⟩
    · refine .inr (.inl ⟨_, rfl, ?_, ?_⟩)
      · dsimp only at htotal ⊢
        omega
      · dsimp only at htakes ⊢
        rw [show seen + 1 + (owed + 2 - 1) = seen + (owed + 2) by omega]
        exact htakes b hin.1 hin.2
  · rw [resume, if_neg hin]
    exact .inr (.inr rfl)

def sizeOfText (cs : List Char) : Nat := (cs.flatMap String.utf8EncodeChar).length

theorem sizeOfText_cons (c : Char) (cs : List Char) :
    sizeOfText (c :: cs) = c.utf8Size + sizeOfText cs := by
  rw [sizeOfText, List.flatMap_cons, List.length_append, String.length_utf8EncodeChar, sizeOfText]

theorem utf8ByteSize_ofList (cs : List Char) : (String.ofList cs).utf8ByteSize = sizeOfText cs := by
  rw [← length_encode, encode, String.toList_ofList, sizeOfText]

theorem length_le_run_start {b : UInt8} {bs : List UInt8}
    (hnone : bs.length ≤ sizeOfText (run none bs))
    (hsome : ∀ p : Pending, p.Opened 1 → 1 + bs.length ≤ sizeOfText (run (some p) bs)) :
    1 + bs.length ≤ sizeOfText ((start b).1 ++ run (start b).2 bs) := by
  rcases start_cases b with ⟨c, hc⟩ | ⟨p, hp, hopened⟩
  · have hpos := c.utf8Size_pos
    simp only [hc, List.cons_append, List.nil_append, sizeOfText_cons]
    omega
  · rw [hp]
    exact hsome p hopened

theorem length_le_run (bs : List UInt8) :
    bs.length ≤ sizeOfText (run none bs) ∧
      ∀ seen (p : Pending), p.Opened seen → seen + bs.length ≤ sizeOfText (run (some p) bs) := by
  induction bs with
  | nil =>
    exact ⟨Nat.zero_le _, fun seen p hp => hp.seen_le⟩
  | cons b bs ih =>
    obtain ⟨hnone, hsome⟩ := ih
    have hstart := length_le_run_start (b := b) hnone (hsome 1)
    constructor
    · rw [List.length_cons, Nat.add_comm]
      exact hstart
    · intro seen p hp
      rw [run, step, List.length_cons]
      rcases hp.resume_cases b with ⟨c, hc, hresume⟩ | ⟨p', hresume, hp'⟩ | hresume
      · simp only [hresume, List.cons_append, List.nil_append, sizeOfText_cons, hc]
        omega
      · have hle := hsome (seen + 1) p' hp'
        simp only [hresume, List.nil_append]
        omega
      · have hseen : seen ≤ replacement.utf8Size := hp.seen_le
        simp only [hresume, List.cons_append, sizeOfText_cons]
        omega

/-- Text from bytes takes no less room than the bytes. -/
theorem length_le_decodeLossy (bytes : List UInt8) :
    bytes.length ≤ (decodeLossy bytes).utf8ByteSize := by
  rw [decodeLossy, utf8ByteSize_ofList]
  exact (length_le_run bytes).1

theorem sizeOfText_append (cs ds : List Char) :
    sizeOfText (cs ++ ds) = sizeOfText cs + sizeOfText ds := by
  rw [sizeOfText, List.flatMap_append, List.length_append, sizeOfText, sizeOfText]

theorem sizeOfText_step_le (state : Option Pending) (b : UInt8) :
    sizeOfText (step state b).1 ≤ 8 := by
  have hstart : sizeOfText (start b).1 ≤ 4 := by
    rcases start_cases b with ⟨c, hc⟩ | ⟨p, hp, -⟩
    · rw [hc, sizeOfText_cons]
      exact c.utf8Size_le_four
    · rw [hp]
      exact Nat.zero_le 4
  cases state with
  | none => exact Nat.le_trans hstart (by decide)
  | some p =>
    rw [step, resume]
    split
    · dsimp only
      split
      · rw [sizeOfText_cons]
        exact Nat.le_trans (Char.utf8Size_le_four _) (by decide)
      · exact Nat.zero_le 8
    · rw [sizeOfText_cons]
      have hreplacement := replacement.utf8Size_le_four
      omega

theorem sizeOfText_run_le (state : Option Pending) (bs : List UInt8) :
    sizeOfText (run state bs) ≤ 8 * bs.length + 4 := by
  induction bs generalizing state with
  | nil =>
    cases state with
    | none => exact Nat.zero_le _
    | some p => exact Nat.le_trans (by decide : sizeOfText [replacement] ≤ 4) (Nat.le_add_left _ _)
  | cons b bs ih =>
    have hstep := sizeOfText_step_le state b
    have hrest := ih (step state b).2
    rw [run, sizeOfText_append, List.length_cons]
    omega

theorem decodeLossy_length_le (bytes : List UInt8) :
    (decodeLossy bytes).utf8ByteSize ≤ 8 * bytes.length + 4 := by
  rw [decodeLossy, utf8ByteSize_ofList]
  exact sizeOfText_run_le none bytes

end ObjcAtlas.Utf8
