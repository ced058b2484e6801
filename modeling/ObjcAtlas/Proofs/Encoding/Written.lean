import ObjcAtlas.Proofs.Encoding.Spelling

set_option autoImplicit false

/-!
# The grammar of type encodings

`Written named rest t text` says that `text`, where it stands in front of `rest`, is an encoding of
`t`. What stands behind matters: a number takes all digits there are, an object the quoted text
behind it, unless that is the next member's name. The decoder accepts exactly what is written: one
direction is in `Accepted`, the other in `RoundTrip`. Facts about the decoder that hold for every
text are proved here and there by induction over this relation and not by running it.
-/
namespace ObjcAtlas.ObjcType

open Reading

/-- Whether the first member has a name; all members are then read as named ones. -/
def startNamed (ms : List Member) : Bool := ms.head?.any (·.name.isSome)

def spellName (name : Option String) : List Char := name.elim [] spellQuoted

mutual

/-- In front of `rest`, the text is an encoding of the type. `named` says that the type is a member
    of an aggregate whose members have names. -/
inductive Written : (named : Bool) → (rest : List Char) → ObjcType → (text : List Char) → Prop
  | primitive {named : Bool} {rest : List Char} (p : Primitive) :
      Written named rest (.primitive p) [p.code]
  | pointer {named : Bool} {rest x : List Char} {t : ObjcType} (h : Written named rest t x) :
      Written named rest (.pointer t) ('^' :: x)
  | array {named : Bool} {rest digits x : List Char} {n : UInt64} {t : ObjcType}
      (hn : Text.IsNumeral n.toNat digits) (h : Written false (']' :: rest) t x) :
      Written named rest (.array n t) ('[' :: digits ++ x ++ [']'])
  | aggregate {named : Bool} {rest tag x : List Char} {k : AggregateKind} {name : Option String}
      {ms : List Member} (hn : TagText k.closing name tag)
      (h : WrittenMembers (startNamed ms) k rest ms x) :
      Written named rest (.aggregate k name ms) (k.opening :: tag ++ '=' :: x ++ [k.closing])
  | incomplete {named : Bool} {rest tag : List Char} {k : AggregateKind} {name : Option String}
      (hn : TagText k.closing name tag) :
      Written named rest (.incomplete k name) (k.opening :: tag ++ [k.closing])
  | bitfield {named : Bool} {rest digits : List Char} {w : UInt32}
      (hw : Text.IsNumeral w.toNat digits) (hr : Stops Char.isDigit rest) :
      Written named rest (.bitfield w) ('b' :: digits)
  | id {named : Bool} {rest : List Char} (hr : Precedes named rest .id) :
      Written named rest .id ['@']
  | object {named : Bool} {rest payload : List Char} {className : Option String}
      {protocols : List String} (hq : '"' ∉ payload)
      (hp : splitPayload payload = .object className protocols)
      (hr : named = true → rest.head?.all (fun c => c == '"' || c == '\x7d' || c == ')') = true) :
      Written named rest (.object className protocols) ('@' :: '"' :: payload ++ ['"'])
  | block {named : Bool} {rest : List Char} (hr : rest.head? ≠ some '<') :
      Written named rest .block ['@', '?']
  | blockOf {named : Bool} {rest x y : List Char} {r : ObjcType} {ts : List ObjcType}
      (hr : Written false (y ++ '>' :: rest) r x) (h : WrittenTypes rest ts y) :
      Written named rest (.blockOf r ts) ('@' :: '?' :: '<' :: x ++ y ++ ['>'])
  | qualified {named : Bool} {rest x : List Char} {qs : List Qualifier} {t : ObjcType}
      (hqs : qs ≠ []) (hq : isQualified t = false) (h : Written named rest t x) :
      Written named rest (.qualified qs t) (qs.map Qualifier.code ++ x)

/-- In front of the closing character and `rest`, the text is an encoding of the members. -/
inductive WrittenMembers :
    (named : Bool) → AggregateKind → (rest : List Char) → List Member → (text : List Char) → Prop
  | nil {named : Bool} {k : AggregateKind} {rest : List Char} : WrittenMembers named k rest [] []
  | cons {named : Bool} {k : AggregateKind} {rest x y : List Char} {name : Option String}
      {t : ObjcType} {ms : List Member} (hn : ∀ s ∈ name, '"' ∉ s.toList)
      (ht : Written named (y ++ k.closing :: rest) t x) (h : WrittenMembers named k rest ms y) :
      WrittenMembers named k rest (⟨name, t⟩ :: ms) (spellName name ++ x ++ y)

inductive WrittenTypes : (rest : List Char) → List ObjcType → (text : List Char) → Prop
  | nil {rest : List Char} : WrittenTypes rest [] []
  | cons {rest x y : List Char} {t : ObjcType} {ts : List ObjcType}
      (ht : Written false (y ++ '>' :: rest) t x) (h : WrittenTypes rest ts y) :
      WrittenTypes rest (t :: ts) (x ++ y)

end

variable {named : Bool} {k : AggregateKind} {rest x y : List Char} {t : ObjcType}
  {ms : List Member} {ts : List ObjcType}

theorem Written.leads (h : Written named rest t x) : ∃ c cs, x = c :: cs ∧ Leads t c := by
  cases h with
  | primitive p => exact ⟨_, _, rfl, primitive_leads p⟩
  | pointer h => exact ⟨_, _, rfl, opening_leads _ (by decide)⟩
  | array hn h => exact ⟨_, _, rfl, opening_leads _ (by decide)⟩
  | @aggregate _ _ _ _ k _ _ hn h => exact ⟨_, _, rfl, opening_leads _ (by cases k <;> decide)⟩
  | @incomplete _ _ _ k _ hn => exact ⟨_, _, rfl, opening_leads _ (by cases k <;> decide)⟩
  | bitfield hw hr => exact ⟨_, _, rfl, opening_leads _ (by decide)⟩
  | id hr => exact ⟨_, _, rfl, opening_leads _ (by decide)⟩
  | object hq hp hr => exact ⟨_, _, rfl, opening_leads _ (by decide)⟩
  | block hr => exact ⟨_, _, rfl, opening_leads _ (by decide)⟩
  | blockOf hr h => exact ⟨_, _, rfl, opening_leads _ (by decide)⟩
  | @qualified _ _ x qs t hqs hq h =>
    cases qs with
    | nil => exact absurd rfl hqs
    | cons q qs => exact ⟨_, _, rfl, qualified_leads q qs t⟩

theorem Written.ne_nil (h : Written named rest t x) : x ≠ [] := by
  obtain ⟨c, cs, rfl, -⟩ := h.leads
  exact List.cons_ne_nil c cs

theorem Written.head?_append (h : Written named rest t x) (z w : List Char) :
    (x ++ z).head? = (spell t ++ w).head? := by
  cases h with
  | @object _ _ _ className protocols hq hp hr =>
    obtain ⟨cs, hcs⟩ := spellObject_eq_cons className protocols
    change some '@' = (spellObject className protocols ++ w).head?
    rw [hcs]
    rfl
  | @qualified _ _ x qs t hqs hq h =>
    cases qs with
    | nil => exact absurd rfl hqs
    | cons q qs => rfl
  | primitive | pointer | array | aggregate | incomplete | bitfield | id | block | blockOf => rfl

theorem WrittenMembers.length_le (h : WrittenMembers named k rest ms y) : ms.length ≤ y.length := by
  induction ms generalizing y with
  | nil => exact Nat.zero_le _
  | cons m ms ih =>
    cases h with
    | @cons _ _ _ x y name t _ hn ht h =>
      have hx : 0 < x.length := List.length_pos_iff.2 ht.ne_nil
      have hy := ih h
      simp only [List.length_cons, List.length_append]
      omega

theorem WrittenTypes.length_le (h : WrittenTypes rest ts y) : ts.length ≤ y.length := by
  induction ts generalizing y with
  | nil => exact Nat.zero_le _
  | cons t ts ih =>
    cases h with
    | @cons _ x y _ _ ht h =>
      have hx : 0 < x.length := List.length_pos_iff.2 ht.ne_nil
      have hy := ih h
      simp only [List.length_cons, List.length_append]
      omega

theorem WrittenMembers.head?_append (h : WrittenMembers named k rest ms y) (z w : List Char) :
    (y ++ k.closing :: z).head? = (spellMembers ms ++ k.closing :: w).head? := by
  cases h with
  | nil => rfl
  | @cons _ _ _ x y name t ms hn ht h =>
    cases name with
    | none =>
      rw [spellMembers, spellMember, spellName, Option.elim_none, List.nil_append,
        List.append_assoc, List.append_assoc]
      exact ht.head?_append _ _
    | some s => rfl

theorem WrittenTypes.head?_append (h : WrittenTypes rest ts y) (z w : List Char) :
    (y ++ '>' :: z).head? = (spellTypes ts ++ '>' :: w).head? := by
  cases h with
  | nil => rfl
  | @cons _ x y t ts ht h =>
    rw [spellTypes, List.append_assoc, List.append_assoc]
    exact ht.head?_append _ _

theorem WrittenMembers.startNamed_eq (h : WrittenMembers named k rest ms y) (behind : List Char) :
    ((y ++ k.closing :: behind).head? == some '"') = startNamed ms := by
  cases h with
  | nil => cases k <;> rfl
  | @cons _ _ _ x y name t ms hn ht h =>
    cases name with
    | none =>
      obtain ⟨c, cs, rfl, hl⟩ := ht.leads
      have hm := hl.mark
      simp only [List.mem_cons, List.not_mem_nil, or_false, not_or] at hm
      simpa [spellName, startNamed] using hm.1
    | some s => rfl

/-- A name in front of members is followed by a type, so that no class can be taken for it. -/
theorem WrittenMembers.closesMember_eq (h : WrittenMembers named k rest ms y) (behind : List Char)
    (hq : (y ++ k.closing :: behind).head? = some '"') :
    closesMember ((y ++ k.closing :: behind).drop 1) = false := by
  cases h with
  | nil => exact absurd (Option.some.inj hq) (by cases k <;> decide)
  | @cons _ _ _ x y name t ms hn ht h =>
    obtain ⟨c, cs, rfl, hl⟩ := ht.leads
    have hm := hl.mark
    simp only [List.mem_cons, List.not_mem_nil, or_false, not_or] at hm
    cases name with
    | none => exact absurd (Option.some.inj hq) hm.1
    | some s =>
      have htext : (spellName (some s) ++ c :: cs ++ y ++ k.closing :: behind).drop 1 =
          s.toList ++ '"' :: (c :: (cs ++ y ++ k.closing :: behind)) := by
        simp [spellName, spellQuoted]
      rw [htext, closesMember_append (hn s rfl)]
      simp [hm]

/-- Right behind an object of any class stands neither a name nor a bare `?`. -/
def Clear : List Member → Prop
  | m :: n :: ms =>
    (endsInId m.type = true → n.name = none ∧ n.type ≠ .primitive .unknown) ∧ Clear (n :: ms)
  | _ => True

theorem Clear.tail {m : Member} (h : Clear (m :: ms)) : Clear ms := by
  cases ms with
  | nil => trivial
  | cons n ms => exact h.2

theorem WrittenTypes.precedes (h : WrittenTypes rest ts y) (hc : NoClash (t :: ts)) :
    Precedes false (y ++ '>' :: rest) t := by
  cases h with
  | nil => exact precedes_of_closing t rest (by decide)
  | cons hu h =>
    obtain ⟨c, cs, rfl, hl⟩ := hu.leads
    exact precedes_of_leads _ hl hc.1

theorem WrittenMembers.precedes_of_clear {name : Option String}
    (h : WrittenMembers false k rest ms y) (hc : Clear (⟨name, t⟩ :: ms)) :
    Precedes false (y ++ k.closing :: rest) t := by
  cases h with
  | nil => exact precedes_of_closing t rest (by cases k <;> decide)
  | @cons _ _ _ x y name u ms hn hu h =>
    cases name with
    | none =>
      obtain ⟨c, cs, rfl, hl⟩ := hu.leads
      exact precedes_of_leads _ hl fun he => (hc.1 he).2
    | some s =>
      apply precedes_of_head
      · rintro - c ⟨⟩
        rfl
      · nofun
      · intro he
        cases (hc.1 he).1
      · nofun

/-- Behind a member with a name stands the next name, which no class can be taken for, or the end
    of the aggregate. -/
theorem WrittenMembers.precedes_of_named (h : WrittenMembers named k rest ms y)
    (hn : ∀ m ∈ ms.head?, m.name.isSome = true) (t : ObjcType) :
    Precedes true (y ++ k.closing :: rest) t := by
  have hhead : (y ++ k.closing :: rest).head? = some k.closing ∨
      (y ++ k.closing :: rest).head? = some '"' := by
    cases h with
    | nil => exact .inl rfl
    | @cons _ _ _ x y name u ms _ hu h =>
      obtain ⟨s, rfl⟩ := Option.isSome_iff_exists.1 (hn _ rfl)
      exact .inr rfl
  have hcloses := h.closesMember_eq rest
  generalize y ++ k.closing :: rest = behind at hhead hcloses
  fun_induction Precedes true behind t with
  | case1 t ih => exact ih
  | case2 _ t ih => exact ih
  | case3 =>
    intro c hc
    rcases hhead with hh | hh <;> rw [hh] at hc <;> cases hc
    · cases k <;> rfl
    · rfl
  | case4 => rcases hhead with hh | hh <;> rw [hh] <;> cases k <;> decide
  | case5 =>
    refine ⟨?_, fun hq => ⟨rfl, hcloses hq⟩⟩
    rcases hhead with hh | hh <;> rw [hh] <;> cases k <;> decide
  | case6 | case7 => rcases hhead with hh | hh <;> rw [hh] <;> cases k <;> decide
  | case8 | case9 | case10 | case11 | case12 => trivial

end ObjcAtlas.ObjcType
