import ObjcAtlas.Encoding.Decoder

set_option autoImplicit false

/-!
# What a reading step takes in

`Reads step text rest a` says that, in front of `rest`, a step takes exactly `text` and gives `a`.
The text behind is arbitrary, which is what lets two steps be put together. `ReadsIf` also covers
the one way in which well-formed text is refused: its types are nested too deeply.

Each step of a reader has one lemma about what it does in front of whatever its continuation
reads; readers of types are treated with these and are not run by hand.
-/
namespace ObjcAtlas

def Text.IsNumeral (n : Nat) (digits : List Char) : Prop :=
  ∃ zeros, digits = List.replicate zeros '0' ++ Nat.toDigits 10 n

theorem Cursor.width_append (xs ys : List Char) :
    Cursor.width (xs ++ ys) = Cursor.width xs + Cursor.width ys := by
  induction xs with
  | nil => simp [Cursor.width]
  | cons x xs ih =>
    rw [List.cons_append, Cursor.width, Cursor.width, ih]
    omega

namespace Reading

variable {α β : Type} {fits : Prop} {text rest : List Char} {b : β}

/-- In front of `rest`, the step takes exactly `text` and gives `a`. -/
def Reads (step : Reading α) (text rest : List Char) (a : α) : Prop :=
  ∀ p, step ⟨p, text ++ rest⟩ = .ok a ⟨p + Cursor.width text, rest⟩

/-- The step fails because the types in the text are nested too deeply. -/
def Exceeds (step : Reading α) (text : List Char) : Prop :=
  ∀ p, ∃ offset c, step ⟨p, text⟩ = .error (.tooDeep offset) c

/-- The step reads `text` in front of `rest` if `fits` holds, and finds it too deep otherwise. -/
structure ReadsIf (fits : Prop) (step : Reading α) (text rest : List Char) (a : α) : Prop where
  reads : fits → Reads step text rest a
  exceeds : ¬ fits → Exceeds step (text ++ rest)

theorem Reads.toReadsIf {step : Reading α} {a : α} (h : Reads step text rest a) :
    ReadsIf True step text rest a :=
  ⟨fun _ => h, fun hn => absurd trivial hn⟩

theorem ReadsIf.congr {fits' : Prop} {step : Reading α} {a : α} (h : ReadsIf fits step text rest a)
    (hf : fits ↔ fits') : ReadsIf fits' step text rest a :=
  ⟨fun h' => h.reads (hf.2 h'), fun hn => h.exceeds (fun hf' => hn (hf.1 hf'))⟩

theorem bind_ok {step : Reading α} {f : α → Reading β} {c c' : Cursor} {a : α}
    (h : step c = .ok a c') : (step >>= f) c = f a c' := by
  change EStateM.bind step f c = _
  rw [EStateM.bind, h]

theorem bind_error {step : Reading α} {f : α → Reading β} {c c' : Cursor} {e : DecodeError}
    (h : step c = .error e c') : (step >>= f) c = .error e c' := by
  change EStateM.bind step f c = _
  rw [EStateM.bind, h]

/-- Two steps in a row fit when both do; the first to be too deep decides. -/
theorem ReadsIf.bind {fits' : Prop} {step : Reading α} {f : α → Reading β} {x y : List Char}
    {a : α} (h : ReadsIf fits step x (y ++ rest) a) (k : ReadsIf fits' (f a) y rest b) :
    ReadsIf (fits ∧ fits') (step >>= f) (x ++ y) rest b where
  reads := by
    rintro ⟨hf, hf'⟩ p
    rw [List.append_assoc, bind_ok (h.reads hf p), k.reads hf' _, Cursor.width_append,
      Nat.add_assoc]
  exceeds := by
    intro hn p
    rw [List.append_assoc]
    by_cases hf : fits
    · rw [bind_ok (h.reads hf p)]
      exact k.exceeds (fun hf' => hn ⟨hf, hf'⟩) _
    · obtain ⟨offset, c, hc⟩ := h.exceeds hf p
      exact ⟨offset, c, bind_error hc⟩

theorem Reads.bind {step : Reading α} {f : α → Reading β} {x y : List Char} {a : α}
    (h : Reads step x (y ++ rest) a) (k : ReadsIf fits (f a) y rest b) :
    ReadsIf fits (step >>= f) (x ++ y) rest b :=
  (h.toReadsIf.bind k).congr ⟨And.right, fun hf => ⟨trivial, hf⟩⟩

theorem reads_pure (b : β) : Reads (pure b : Reading β) [] rest b := fun _ => rfl

theorem ReadsIf.bind_pure {step : Reading α} {f : α → Reading β} {a : α}
    (h : ReadsIf fits step text rest a) (hf : f a = pure b) :
    ReadsIf fits (step >>= f) text rest b := by
  have hp : ReadsIf True (f a) [] rest b := by
    rw [hf]
    exact (reads_pure b).toReadsIf
  have hb := h.bind hp
  rw [List.append_nil] at hb
  exact hb.congr ⟨And.left, fun hf => ⟨hf, trivial⟩⟩

theorem ReadsIf.get_bind {f : Cursor → Reading β}
    (k : ∀ p, ReadsIf fits (f ⟨p, text ++ rest⟩) text rest b) :
    ReadsIf fits (get >>= f) text rest b where
  reads hf p := (k p).reads hf p
  exceeds hn p := (k p).exceeds hn p

theorem ReadsIf.position_bind {f : Nat → Reading β} (k : ∀ p, ReadsIf fits (f p) text rest b) :
    ReadsIf fits (position >>= f) text rest b where
  reads hf p := (k p).reads hf p
  exceeds hn p := (k p).exceeds hn p

theorem ReadsIf.peek_bind {f : Option Char → Reading β}
    (k : ReadsIf fits (f (text ++ rest).head?) text rest b) :
    ReadsIf fits (peek >>= f) text rest b where
  reads hf p := k.reads hf p
  exceeds hn p := k.exceeds hn p

theorem ReadsIf.next_bind {f : Option Char → Reading β} {c : Char}
    (k : ReadsIf fits (f (some c)) text rest b) :
    ReadsIf fits (next >>= f) (c :: text) rest b :=
  Reads.bind (x := [c]) (fun _ => rfl) k

theorem ReadsIf.any_bind {f : Char → Reading β} {c : Char}
    (k : ReadsIf fits (f c) text rest b) : ReadsIf fits (any >>= f) (c :: text) rest b :=
  Reads.bind (x := [c]) (fun _ => rfl) k

theorem ReadsIf.expect_bind {f : Unit → Reading β} {c : Char}
    (k : ReadsIf fits (f ()) text rest b) : ReadsIf fits (expect c >>= f) (c :: text) rest b := by
  refine Reads.bind (x := [c]) (a := ()) (fun p => ?_) k
  change (if c = c then pure () else throw _ : Reading Unit) ⟨p + Cursor.width [c], _⟩ = _
  rw [if_pos rfl]
  rfl

/-- The text does not go on with a character that satisfies `p`. -/
def Stops (p : Char → Bool) (rest : List Char) : Prop := ∀ c ∈ rest.head?, p c = false

theorem Stops.takeWhile_eq_nil {p : Char → Bool} (h : Stops p rest) : rest.takeWhile p = [] := by
  cases rest with
  | nil => rfl
  | cons c cs => rw [List.takeWhile_cons_of_neg (by rw [h c rfl]; decide)]

theorem Stops.dropWhile_eq_self {p : Char → Bool} (h : Stops p rest) : rest.dropWhile p = rest := by
  cases rest with
  | nil => rfl
  | cons c cs => rw [List.dropWhile_cons_of_neg (by rw [h c rfl]; decide)]

theorem reads_takeWhile {p : Char → Bool} (ht : ∀ c ∈ text, p c = true) (hr : Stops p rest) :
    Reads (takeWhile p) text rest text := by
  intro position
  have hd : (text ++ rest).takeWhile p = text := by
    rw [List.takeWhile_append_of_pos ht, hr.takeWhile_eq_nil, List.append_nil]
  have hw : (text ++ rest).dropWhile p = rest := by
    rw [List.dropWhile_append_of_pos ht, hr.dropWhile_eq_self]
  change EStateM.Result.ok ((text ++ rest).takeWhile p)
    (Cursor.past _ ((text ++ rest).takeWhile p) ((text ++ rest).dropWhile p)) = _
  rw [hd, hw]
  rfl

theorem bne_of_notMem {x : Char} {cs : List Char} (h : x ∉ cs) : ∀ y ∈ cs, (y != x) = true := by
  intro y hy
  rw [bne_iff_ne]
  rintro rfl
  exact h hy

theorem reads_quoted (h : '"' ∉ text) : Reads quoted (text ++ ['"']) rest text := by
  have hr : Stops (· != '"') ('"' :: rest) := by
    rintro c ⟨⟩
    rfl
  have h : ReadsIf True quoted (text ++ ['"']) rest text :=
    Reads.bind (reads_takeWhile (bne_of_notMem h) hr) (ReadsIf.any_bind (reads_pure text).toReadsIf)
  exact h.reads trivial

theorem decimalValue_append (ds : List Char) (d : Char) :
    Text.decimalValue (ds ++ [d]) = 10 * Text.decimalValue ds + (d.toNat - '0'.toNat) := by
  rw [Text.decimalValue, List.foldl_append]
  rfl

theorem decimalValue_toDigits (n : Nat) : Text.decimalValue (Nat.toDigits 10 n) = n := by
  induction n using Nat.strongRecOn with
  | ind n ih =>
    rcases Nat.lt_or_ge n 10 with h | h
    · rw [Nat.toDigits_of_lt_base h]
      change 10 * 0 + (n.digitChar.toNat - 48) = n
      rw [Nat.toNat_digitChar_sub_48_of_lt_ten h]
      omega
    · rw [Nat.toDigits_of_base_le (by decide) h, decimalValue_append, ih (n / 10) (by omega)]
      change 10 * (n / 10) + ((n % 10).digitChar.toNat - 48) = n
      rw [Nat.toNat_digitChar_sub_48_of_lt_ten (Nat.mod_lt _ (by decide))]
      omega

theorem decimalValue_zero_cons (ds : List Char) :
    Text.decimalValue ('0' :: ds) = Text.decimalValue ds := rfl

theorem decimalValue_of_isNumeral {n : Nat} {digits : List Char} (h : Text.IsNumeral n digits) :
    Text.decimalValue digits = n := by
  obtain ⟨zeros, rfl⟩ := h
  induction zeros with
  | zero => exact decimalValue_toDigits n
  | succ zeros ih => rw [List.replicate_succ, List.cons_append, decimalValue_zero_cons, ih]

theorem isDigit_of_isNumeral {n : Nat} {digits : List Char} (h : Text.IsNumeral n digits) :
    digits ≠ [] ∧ ∀ c ∈ digits, c.isDigit = true := by
  obtain ⟨zeros, rfl⟩ := h
  refine ⟨List.append_ne_nil_of_right_ne_nil _ Nat.toDigits_ne_nil, fun c hc => ?_⟩
  rcases List.mem_append.1 hc with hc | hc
  · rw [List.eq_of_mem_replicate hc]
    rfl
  · exact Nat.isDigit_of_mem_toDigits (by decide) (by decide) hc

theorem isNumeral_toDigits (n : Nat) : Text.IsNumeral n (Nat.toDigits 10 n) := ⟨0, rfl⟩

theorem reads_number {n : UInt64} {digits : List Char} (hn : Text.IsNumeral n.toNat digits)
    (hr : Stops Char.isDigit rest) : Reads number digits rest n := by
  obtain ⟨hne, hd⟩ := isDigit_of_isNumeral hn
  have h : ReadsIf True number digits rest n := by
    refine ReadsIf.position_bind fun p => (reads_takeWhile hd hr).toReadsIf.bind_pure ?_
    rw [List.isEmpty_eq_false_iff.2 hne, decimalValue_of_isNumeral hn, if_neg (by decide),
      if_pos n.toNat_lt, UInt64.ofNat_toNat]
  exact h.reads trivial

end Reading

end ObjcAtlas
