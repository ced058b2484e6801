import Mathlib.Data.List.Induction
import ObjcAtlas.Proofs.Encoding.Reads

set_option autoImplicit false

namespace ObjcAtlas

namespace Reading

variable {α β : Type} {rest : List Char} {P : List Char → List Char → α → Prop}
  {Q : List Char → List Char → β → Prop}

/-- If the step succeeds in front of `rest`, then `P` holds of what it took, of what is left and of
    its result. -/
def Takes (rest : List Char) (step : Reading α) (P : List Char → List Char → α → Prop) : Prop :=
  ∀ p a c, step ⟨p, rest⟩ = .ok a c → ∃ text, rest = text ++ c.rest ∧ P text c.rest a

theorem Takes.imp {P' : List Char → List Char → α → Prop} {step : Reading α}
    (h : Takes rest step P) (hP : ∀ text rest a, P text rest a → P' text rest a) :
    Takes rest step P' := by
  intro p a c hc
  obtain ⟨text, hrest, ha⟩ := h p a c hc
  exact ⟨text, hrest, hP text c.rest a ha⟩

theorem Takes.bind {step : Reading α} {f : α → Reading β} (h : Takes rest step P)
    (k : ∀ x y a, rest = x ++ y → P x y a → Takes y (f a) fun z w b => Q (x ++ z) w b) :
    Takes rest (step >>= f) Q := by
  intro p b c hc
  cases hs : step ⟨p, rest⟩ with
  | error e c' =>
    rw [bind_error hs] at hc
    cases hc
  | ok a c' =>
    rw [bind_ok hs] at hc
    obtain ⟨x, hx, ha⟩ := h p a c' hs
    obtain ⟨z, hz, hb⟩ := k x c'.rest a hx ha c'.position b c hc
    exact ⟨x ++ z, by rw [hx, hz, List.append_assoc], hb⟩

theorem takes_pure {a : α} (h : P [] rest a) : Takes rest (pure a) P := by
  intro p b c hc
  cases hc
  exact ⟨[], rfl, h⟩

theorem takes_throw (e : DecodeError) : Takes rest (throw e) P := by
  intro p b c hc
  cases hc

theorem Takes.get_bind {f : Cursor → Reading β} (k : ∀ p, Takes rest (f ⟨p, rest⟩) Q) :
    Takes rest (get >>= f) Q := fun p b c hc => k p p b c hc

theorem Takes.position_bind {f : Nat → Reading β} (k : ∀ p, Takes rest (f p) Q) :
    Takes rest (position >>= f) Q := fun p b c hc => k p p b c hc

theorem Takes.peek_bind {f : Option Char → Reading β} (k : Takes rest (f rest.head?) Q) :
    Takes rest (peek >>= f) Q := fun p b c hc => k p b c hc

theorem takes_unexpectedEnd : Takes rest (do throw (.unexpectedEnd (← position))) P :=
  Takes.position_bind fun _ => takes_throw _

theorem takes_unexpected : Takes rest unexpected P := by
  refine Takes.get_bind fun p => ?_
  cases rest with
  | nil => exact takes_unexpectedEnd
  | cons c cs => exact Takes.position_bind fun _ => takes_throw _

theorem Takes.next_bind {f : Option Char → Reading β} {x : Char} {xs : List Char}
    (k : Takes xs (f (some x)) fun z w b => Q (x :: z) w b) :
    Takes (x :: xs) (next >>= f) Q := by
  intro p b c hc
  obtain ⟨z, hz, hb⟩ := k _ b c hc
  exact ⟨x :: z, by rw [hz]; rfl, hb⟩

theorem Takes.any_bind {f : Char → Reading β}
    (k : ∀ x xs, rest = x :: xs → Takes xs (f x) fun z w b => Q (x :: z) w b) :
    Takes rest (any >>= f) Q := by
  intro p b c hc
  cases rest with
  | nil => cases hc
  | cons x xs =>
    obtain ⟨z, hz, hb⟩ := k x xs rfl _ b c hc
    exact ⟨x :: z, by rw [hz]; rfl, hb⟩

theorem takes_expect (want : Char) : Takes rest (expect want) fun x _ _ => x = [want] := by
  refine Takes.position_bind fun start => ?_
  cases rest with
  | nil =>
    intro p b c hc
    cases hc
  | cons x xs =>
    refine Takes.next_bind ?_
    by_cases h : x = want
    · simp only [h, ↓reduceIte]
      exact takes_pure rfl
    · simp only [h, ↓reduceIte]
      exact takes_throw _

theorem takeWhile_forall (p : Char → Bool) (cs : List Char) : ∀ c ∈ cs.takeWhile p, p c = true :=
  List.all_eq_true.1 List.all_takeWhile

theorem dropWhile_stops (p : Char → Bool) (cs : List Char) : Stops p (cs.dropWhile p) := by
  intro c hc
  have h := List.head?_dropWhile_not p cs
  rw [Option.mem_def.1 hc] at h
  simpa using h

theorem Takes.takeWhile_bind {p : Char → Bool} {f : List Char → Reading β}
    (k : ∀ x y, rest = x ++ y → (∀ c ∈ x, p c = true) → Stops p y →
      Takes y (f x) fun z w b => Q (x ++ z) w b) : Takes rest (takeWhile p >>= f) Q := by
  intro position b c hc
  have hsplit := List.takeWhile_append_dropWhile (p := p) (l := rest)
  obtain ⟨z, hz, hb⟩ :=
    k _ _ hsplit.symm (takeWhile_forall p rest) (dropWhile_stops p rest) _ b c hc
  exact ⟨rest.takeWhile p ++ z, by rw [List.append_assoc, ← hz, hsplit], hb⟩

theorem takes_quoted : Takes rest quoted fun x _ a => x = a ++ ['"'] ∧ '"' ∉ a := by
  refine Takes.takeWhile_bind fun text y _ htext hstop => ?_
  refine Takes.any_bind fun x xs hy => takes_pure ?_
  have hx : x = '"' := by
    have h := hstop x (by rw [hy]; rfl)
    simpa using h
  refine ⟨by rw [hx], fun hq => ?_⟩
  have h := htext '"' hq
  simp at h

theorem isNumeral_append {n d : Nat} {digits : List Char} (hd : d < 10)
    (h : digits = [] ∧ n = 0 ∨ Text.IsNumeral n digits) :
    Text.IsNumeral (10 * n + d) (digits ++ [d.digitChar]) := by
  have hdigit : Nat.toDigits 10 d = [d.digitChar] := Nat.toDigits_of_lt_base hd
  rcases h with ⟨rfl, rfl⟩ | ⟨zeros, rfl⟩
  · exact ⟨0, by rw [Nat.mul_zero, Nat.zero_add, hdigit]; rfl⟩
  · rcases Nat.eq_zero_or_pos n with rfl | hn
    · -- A zero in front is one of those that do not count.
      refine ⟨zeros + 1, ?_⟩
      rw [Nat.mul_zero, Nat.zero_add, hdigit, List.replicate_succ']
      rfl
    · refine ⟨zeros, ?_⟩
      have hdiv : (10 * n + d) / 10 = n := by omega
      have hmod : (10 * n + d) % 10 = d := by omega
      rw [Nat.toDigits_of_base_le (by decide) (show 10 ≤ 10 * n + d by omega), hdiv, hmod,
        List.append_assoc]

theorem digitChar_of_isDigit {c : Char} (h : c.isDigit = true) :
    c.toNat - '0'.toNat < 10 ∧ (c.toNat - '0'.toNat).digitChar = c := by
  have hc : 48 ≤ c.toNat ∧ c.toNat < 58 := by
    simp only [Char.isDigit, Bool.and_eq_true, decide_eq_true_eq] at h
    exact ⟨h.1, Nat.lt_succ_of_le h.2⟩
  have hall : ∀ n < 58, 48 ≤ n → (n - 48).digitChar = Char.ofNat n := by decide
  refine ⟨by change c.toNat - 48 < 10; omega, ?_⟩
  calc (c.toNat - 48).digitChar = Char.ofNat c.toNat := hall c.toNat hc.2 hc.1
    _ = c := Char.ofNat_toNat c

theorem isNumeral_decimalValue (digits : List Char) (h : ∀ c ∈ digits, c.isDigit = true)
    (hne : digits ≠ []) : Text.IsNumeral (Text.decimalValue digits) digits := by
  induction digits using List.reverseRecOn with
  | nil => exact absurd rfl hne
  | append_singleton ds d ih =>
    obtain ⟨hlt, hd⟩ := digitChar_of_isDigit (h d (by simp))
    rw [decimalValue_append]
    have hds : ds = [] ∧ Text.decimalValue ds = 0 ∨ Text.IsNumeral (Text.decimalValue ds) ds := by
      cases ds with
      | nil => exact .inl ⟨rfl, rfl⟩
      | cons x xs => exact .inr (ih (fun c hc => h c (List.mem_append_left _ hc)) (by simp))
    have hn := isNumeral_append hlt hds
    rw [hd] at hn
    exact hn

theorem takes_number :
    Takes rest number fun x y n => Text.IsNumeral n.toNat x ∧ Stops Char.isDigit y := by
  refine Takes.position_bind fun start => Takes.takeWhile_bind fun digits y _ hd hstop => ?_
  by_cases hne : digits = []
  · simp only [hne, List.isEmpty_nil, ↓reduceIte]
    exact takes_unexpected
  · simp only [List.isEmpty_eq_false_iff.2 hne, Bool.false_eq_true, ↓reduceIte]
    split
    · rename_i hlt
      refine takes_pure ⟨?_, hstop⟩
      rw [List.append_nil, UInt64.toNat_ofNat_of_lt' hlt]
      exact isNumeral_decimalValue digits hd hne
    · exact takes_throw _

end Reading

end ObjcAtlas
