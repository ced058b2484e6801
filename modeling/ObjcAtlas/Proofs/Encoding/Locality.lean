import ObjcAtlas.Proofs.Encoding.Accepted
import ObjcAtlas.Proofs.Encoding.RoundTrip
import ObjcAtlas.Proofs.Result

set_option autoImplicit false

namespace ObjcAtlas

open Reading

theorem Cursor.width_toList (s : String) : Cursor.width s.toList = s.utf8ByteSize := by
  have hlist : ∀ cs : List Char, Cursor.width cs = (String.ofList cs).utf8ByteSize := by
    intro cs
    induction cs with
    | nil => rfl
    | cons c cs ih =>
      have hsplit : String.ofList (c :: cs) = String.singleton c ++ String.ofList cs := by
        rw [String.singleton_eq_ofList, ← String.ofList_append]
        rfl
      rw [Cursor.width, ih, hsplit, String.utf8ByteSize_append, String.utf8ByteSize_singleton]
  rw [hlist, String.ofList_toList]

namespace ObjcType

theorem type_eq_ok_iff {p : Nat} {cs : List Char} {t : ObjcType} {c : Cursor} :
    type ⟨p, cs⟩ = .ok t c ↔ ∃ text, cs = text ++ c.rest ∧ c.position = p + Cursor.width text ∧
      Written false c.rest t text ∧ t.nesting ≤ maxNesting := by
  have hread {text rest : List Char} (hw : Written false rest t text)
      (hn : t.nesting ≤ maxNesting) :
      type ⟨p, text ++ rest⟩ = .ok t ⟨p + Cursor.width text, rest⟩ :=
    (typeWithin_written t hw maxNesting).reads hn p
  constructor
  · intro h
    obtain ⟨q, rest⟩ := c
    obtain ⟨text, rfl, ht⟩ := takes_typeWithin maxNesting false cs p t ⟨q, rest⟩ h
    -- Reading what was taken once more tells where the cursor stands.
    rw [hread ht.written ht.nesting] at h
    cases h
    exact ⟨text, rfl, rfl, ht.written, ht.nesting⟩
  · rintro ⟨text, rfl, hp, hw, hn⟩
    rw [hread hw hn, ← hp]

theorem decode_eq_ok_iff {s : String} {t : ObjcType} :
    decode s = .ok t ↔ Written false [] t s.toList ∧ t.nesting ≤ maxNesting := by
  constructor
  · intro h
    obtain ⟨c, hc⟩ := run_eq_ok h
    obtain ⟨text, -, rfl, ht⟩ := takes_complete _ _ _ hc
    exact ⟨ht.written, ht.nesting⟩
  · rintro ⟨hw, hn⟩
    have hread : type ⟨0, s.toList⟩ = .ok t ⟨0 + Cursor.width s.toList, []⟩ :=
      type_eq_ok_iff.2 ⟨s.toList, (List.append_nil _).symm, rfl, hw, hn⟩
    exact complete_of_ok hw.ne_nil hread rfl

theorem readLeading_eq_ok_iff {cs : List Char} {t : ObjcType} {c : Cursor} :
    readLeading cs = .ok (t, c) ↔ type ⟨0, cs⟩ = .ok t c := by
  cases cs with
  | nil =>
    constructor
    · intro h
      cases h
    · intro h
      cases h
  | cons x xs =>
    rw [readLeading, if_neg (by simp)]
    cases type ⟨0, x :: xs⟩ with
    | ok u d => simp
    | error e d => simp

theorem decodeLeading_eq_ok_iff {s : String} {t : ObjcType} {n : Nat} :
    decodeLeading s = .ok (t, n) ↔ ∃ front behind : String, s = front ++ behind ∧
      front.utf8ByteSize = n ∧ Written false behind.toList t front.toList ∧
        t.nesting ≤ maxNesting := by
  constructor
  · intro h
    obtain ⟨⟨u, c⟩, hread, hpair⟩ := map_eq_ok.1 h
    cases hpair
    obtain ⟨text, hs, hp, hw, hn⟩ := type_eq_ok_iff.1 (readLeading_eq_ok_iff.1 hread)
    refine ⟨String.ofList text, String.ofList c.rest, ?_, ?_, ?_, hn⟩
    · rw [← String.ofList_append, ← hs, String.ofList_toList]
    · rw [← Cursor.width_toList, String.toList_ofList, hp, Nat.zero_add]
    · rwa [String.toList_ofList, String.toList_ofList]
  · rintro ⟨front, behind, rfl, rfl, hw, hn⟩
    refine map_eq_ok.2 ⟨(t, ⟨front.utf8ByteSize, behind.toList⟩), ?_, rfl⟩
    refine readLeading_eq_ok_iff.2 (type_eq_ok_iff.2 ⟨front.toList, ?_, ?_, hw, hn⟩)
    · exact String.toList_append
    · rw [Cursor.width_toList, Nat.zero_add]

def Continues (c : Char) : Prop := c.isDigit = true ∨ c = '?' ∨ c = '"' ∨ c = '<'

/-- A type that is written in front of `rest` is so in front of `rest'` too. -/
def Replaces : (named : Bool) → (rest rest' : List Char) → Prop
  | true, rest, rest' => rest'.head? = rest.head? ∧
    (rest.head? = some '"' → closesMember (rest'.drop 1) = closesMember (rest.drop 1))
  | false, rest, rest' => rest'.head? = rest.head? ∨ ∀ c ∈ rest'.head?, ¬ Continues c

section

variable {named : Bool} {k : AggregateKind} {rest rest' y : List Char} {ms : List Member}

theorem Replaces.head?_eq (h : Replaces named rest rest') :
    rest'.head? = rest.head? ∨ ∀ c ∈ rest'.head?, ¬ Continues c := by
  cases named with
  | false => exact h
  | true => exact .inl h.1

theorem Replaces.stops (h : Replaces named rest rest') (hr : Stops Char.isDigit rest) :
    Stops Char.isDigit rest' := by
  intro c hc
  rcases h.head?_eq with hh | hh
  · exact hr c (hh ▸ hc)
  · exact Bool.eq_false_iff.2 fun hd => hh c hc (.inl hd)

theorem Replaces.head?_ne (h : Replaces named rest rest') {c : Char} (hc : Continues c)
    (hr : rest.head? ≠ some c) : rest'.head? ≠ some c := by
  intro he
  rcases h.head?_eq with hh | hh
  · exact hr (hh ▸ he)
  · exact hh c he hc

theorem Replaces.precedes_id (h : Replaces named rest rest') (hr : Precedes named rest .id) :
    Precedes named rest' .id := by
  refine ⟨h.head?_ne (.inr (.inl rfl)) hr.1, fun hq => ?_⟩
  cases named with
  | false =>
    -- Without names no quote can follow, here or there.
    have hne : rest.head? ≠ some '"' := fun he => Bool.false_ne_true (hr.2 he).1
    exact absurd hq (h.head?_ne (.inr (.inr (.inl rfl))) hne)
  | true =>
    have he : rest.head? = some '"' := h.1 ▸ hq
    exact ⟨rfl, (h.2 he).trans (hr.2 he).2⟩

/-- The closing character, or the text of the next members, separates a member from what follows
    the aggregate. -/
theorem WrittenMembers.replaces (h : WrittenMembers named k rest ms y) (rest' : List Char) :
    Replaces named (y ++ k.closing :: rest) (y ++ k.closing :: rest') := by
  have hhead : (y ++ k.closing :: rest').head? = (y ++ k.closing :: rest).head? := by
    cases y <;> rfl
  cases named with
  | false => exact .inl hhead
  | true =>
    refine ⟨hhead, fun hq => ?_⟩
    rw [h.closesMember_eq rest hq, h.closesMember_eq rest' (hhead.trans hq)]

theorem replaces_nil (rest : List Char) : Replaces false rest [] := by
  right
  rintro c ⟨⟩

theorem replaces_append_cons (y : List Char) (c : Char) (rest rest' : List Char) :
    Replaces false (y ++ c :: rest) (y ++ c :: rest') := by
  cases y <;> exact .inl rfl

mutual

theorem Written.replace {named : Bool} {rest rest' x : List Char} {t : ObjcType} :
    Written named rest t x → Replaces named rest rest' → Written named rest' t x
  | .primitive p, _ => .primitive p
  | .pointer h, hr => .pointer (h.replace hr)
  | .array hn h, _ => .array hn (h.replace (replaces_append_cons [] ']' _ _))
  | .aggregate hn h, _ => .aggregate hn (h.replace rest')
  | .incomplete hn, _ => .incomplete hn
  | .bitfield hw hs, hr => .bitfield hw (hr.stops hs)
  | .id hp, hr => .id (hr.precedes_id hp)
  | .object hq hp hs, hr => .object hq hp fun hnamed => by
    subst hnamed
    rw [hr.1]
    exact hs rfl
  | .block hb, hr => .block (hr.head?_ne (.inr (.inr (.inr rfl))) hb)
  | .blockOf hr h, _ => .blockOf (hr.replace (replaces_append_cons _ '>' _ _)) (h.replace rest')
  | .qualified hqs hq h, hr => .qualified hqs hq (h.replace hr)

theorem WrittenMembers.replace {named : Bool} {k : AggregateKind} {rest y : List Char}
    {ms : List Member} : WrittenMembers named k rest ms y → (rest' : List Char) →
      WrittenMembers named k rest' ms y
  | .nil, _ => .nil
  | .cons hn ht h, rest' => .cons hn (ht.replace (h.replaces rest')) (h.replace rest')

theorem WrittenTypes.replace {rest y : List Char} {ts : List ObjcType} :
    WrittenTypes rest ts y → (rest' : List Char) → WrittenTypes rest' ts y
  | .nil, _ => .nil
  | .cons ht h, rest' => .cons (ht.replace (replaces_append_cons _ '>' _ _)) (h.replace rest')

end

end

/-- The type at the front of a text is what the part that it takes decodes to, and that part is not
    empty and ends between two characters. Conversely, what decodes to a type is read as that type
    in front of every text that does not continue it. -/
theorem decodeLeading_local (s : String) :
    (∀ t n, decodeLeading s = .ok (t, n) →
      1 ≤ n ∧ n ≤ s.utf8ByteSize ∧ (⟨n⟩ : String.Pos.Raw).IsValid s ∧
        ∃ front behind : String, s = front ++ behind ∧ front.utf8ByteSize = n ∧
          decode front = .ok t) ∧
      ∀ t (q : String), decode s = .ok t → (∀ c ∈ q.toList.head?, ¬ Continues c) →
        decodeLeading (s ++ q) = .ok (t, s.utf8ByteSize) := by
  constructor
  · intro t n h
    obtain ⟨front, behind, rfl, rfl, hw, hn⟩ := decodeLeading_eq_ok_iff.1 h
    have hpos : 1 ≤ front.utf8ByteSize := by
      obtain ⟨c, cs, hc, -⟩ := hw.leads
      have hsize := c.utf8Size_pos
      rw [← Cursor.width_toList, hc, Cursor.width]
      omega
    have hle : front.utf8ByteSize ≤ (front ++ behind).utf8ByteSize := by
      rw [String.utf8ByteSize_append]
      omega
    have hvalid : String.Pos.Raw.IsValid (front ++ behind) ⟨front.utf8ByteSize⟩ :=
      String.Pos.Raw.isValid_iff_exists_append.2 ⟨front, behind, rfl, rfl⟩
    have halone : Written false [] t front.toList := hw.replace (replaces_nil _)
    exact ⟨hpos, hle, hvalid, front, behind, rfl, rfl, decode_eq_ok_iff.2 ⟨halone, hn⟩⟩
  · intro t q h hq
    obtain ⟨hw, hn⟩ := decode_eq_ok_iff.1 h
    exact decodeLeading_eq_ok_iff.2 ⟨s, q, rfl, rfl, hw.replace (.inr hq), hn⟩

/-- A struct whose name takes two bytes, with a member that ends in front of a name and one that
    would go on with an angle bracket. -/
def leadingText : String := "\x7bé=\"next\"@\"view\"@\"NSView\"\"done\"@?\x7d"

def leadingTree : ObjcType :=
  .aggregate .struct (some "é")
    [⟨some "next", .id⟩, ⟨some "view", .object (some "NSView") []⟩, ⟨some "done", .block⟩]

theorem decodeLeading_local_leadingText :
    decode leadingText = .ok leadingTree ∧
      decodeLeading (leadingText ++ ",R") = .ok (leadingTree, 35) ∧
        ∃ front behind : String, leadingText ++ ",R" = front ++ behind ∧
          front.utf8ByteSize = 35 ∧ decode front = .ok leadingTree := by
  have hdecode : decode leadingText = .ok leadingTree := by decide +kernel
  have hsize : leadingText.utf8ByteSize = 35 := by decide +kernel
  have hcomma : ∀ c ∈ ",R".toList.head?, ¬ Continues c := by
    rintro c ⟨⟩
    rintro (h | h | h | h) <;> exact absurd h (by decide)
  have hleading := (decodeLeading_local leadingText).2 leadingTree ",R" hdecode hcomma
  rw [hsize] at hleading
  exact ⟨hdecode, hleading, ((decodeLeading_local _).1 leadingTree 35 hleading).2.2.2⟩

end ObjcType

end ObjcAtlas
