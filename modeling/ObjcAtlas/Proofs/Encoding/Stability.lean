import Mathlib.Data.List.DropRight
import ObjcAtlas.Proofs.Encoding.Locality

set_option autoImplicit false

/-!
# Encoding what was decoded

Decoding drops zeros in front of numbers, empty names and odd quoted texts, so the compact form of a
decoded tree can differ from the text that was read. Where the quoted text of an object came to
nothing, the `@` that remains is open again: a bare `?` behind it makes a block, and a name behind
it becomes a class, unless members are read as named ones. `Stable` says that a tree has no such
place, and the compact form of a decoded tree is decoded to that tree exactly if the tree is stable.
-/
namespace ObjcAtlas

open Reading

namespace Text

theorem mem_splitAtAny {isSeparator : Char → Bool} {cs piece : List Char}
    (h : piece ∈ splitAtAny isSeparator cs) :
    ∀ c ∈ piece, c ∈ cs ∧ isSeparator c = false := by
  induction cs generalizing piece with
  | nil =>
    intro c hc
    rw [List.mem_singleton.1 h] at hc
    cases hc
  | cons x xs ih =>
    have hmore : ∀ p ∈ splitAtAny isSeparator xs, ∀ c ∈ p,
        c ∈ x :: xs ∧ isSeparator c = false := fun p hp c hc =>
      ⟨List.mem_cons_of_mem x (ih hp c hc).1, (ih hp c hc).2⟩
    rw [splitAtAny] at h
    by_cases hx : isSeparator x = true
    · rw [if_pos hx] at h
      rcases List.mem_cons.1 h with rfl | h
      · intro c hc
        cases hc
      · exact hmore piece h
    · rw [if_neg hx] at h
      have hfirst : x ∈ x :: xs ∧ isSeparator x = false :=
        ⟨List.mem_cons_self, Bool.eq_false_iff.2 hx⟩
      generalize splitAtAny isSeparator xs = pieces at h hmore
      cases pieces with
      | nil =>
        intro c hc
        rw [List.mem_singleton.1 h] at hc
        rw [List.mem_singleton.1 hc]
        exact hfirst
      | cons p ps =>
        rcases List.mem_cons.1 h with rfl | h
        · intro c hc
          rcases List.mem_cons.1 hc with rfl | hc
          · exact hfirst
          · exact hmore p List.mem_cons_self c hc
        · exact hmore piece (List.mem_cons_of_mem p h)

theorem mem_of_mem_trim {cs : List Char} {c : Char} (h : c ∈ trim cs) : c ∈ cs := by
  have h := List.mem_reverse.1 h
  have h := List.mem_reverse.1 ((List.dropWhile_sublist _).mem h)
  exact (List.dropWhile_sublist _).mem h

theorem trim_trim (cs : List Char) : trim (trim cs) = trim cs := by
  have htrim : ∀ cs, trim cs = (cs.dropWhile isBlank).rdropWhile isBlank := fun _ => rfl
  -- What is left, if anything, starts with the first character that is not blank.
  have hstop : Stops isBlank (trim cs) := by
    intro c hc
    obtain ⟨ds, hds⟩ := List.head?_eq_some_iff.1 hc
    obtain ⟨behind, hbehind⟩ := List.rdropWhile_prefix isBlank (cs.dropWhile isBlank)
    rw [← htrim, hds] at hbehind
    exact dropWhile_stops isBlank cs c (by rw [← hbehind]; rfl)
  rw [htrim (trim cs), hstop.dropWhile_eq_self, htrim, List.rdropWhile_idempotent]

end Text

namespace ObjcType

variable {className : Option String} {protocols : List String} {payload : List Char}

theorem SpellsPayload.objectOk (h : SpellsPayload className protocols payload) :
    ObjectOk className protocols := by
  obtain ⟨behind, hsplit, -, hprotocols⟩ := h.split
  have hquote : '"' ∉ (className.getD "").toList ∧ '"' ∉ behind := by
    have hq := h.quote
    rw [hsplit, List.mem_append, not_or] at hq
    exact hq
  constructor
  · rintro s rfl
    exact ⟨fun he => h.nonempty (by rw [he]), hquote.1, h.bracket⟩
  · intro s hs
    have hmem : s.toList ∈ protocols.map String.toList := List.mem_map_of_mem hs
    rw [hprotocols, List.mem_filter, List.mem_map] at hmem
    obtain ⟨⟨piece, hpiece, htrim⟩, hne⟩ := hmem
    refine ⟨?_, ?_, fun c hc => ?_⟩
    · rintro rfl
      simp at hne
    · rw [← htrim, Text.trim_trim]
    · rw [← htrim] at hc
      obtain ⟨hc, hseparator⟩ := Text.mem_splitAtAny hpiece c (Text.mem_of_mem_trim hc)
      simp only [Bool.or_eq_false_iff, beq_eq_false_iff_ne, ne_eq] at hseparator
      refine ⟨?_, hseparator.1.1, hseparator.1.2, hseparator.2⟩
      rintro rfl
      exact hquote.2 hc

theorem objectOk_of_splitPayload (hq : '"' ∉ payload)
    (hp : splitPayload payload = .object className protocols) : ObjectOk className protocols :=
  (spellsPayload_splitPayload hq hp).objectOk

theorem TagText.spellTag {k : AggregateKind} {name : Option String} {text : List Char}
    (h : TagText k.closing name text) : TagText k.closing name (spellTag name) := by
  rw [h.value]
  split
  next => exact tagText_spellTag nofun
  next hname =>
    refine ⟨?_, ?_⟩
    · change Enclosed k.closing 0 (String.ofList text).toList
      rw [String.toList_ofList]
      exact h.enclosed
    · change _ = if (String.ofList text).toList = [] ∨ (String.ofList text).toList = ['?'] then none
        else some (String.ofList (String.ofList text).toList)
      rw [String.toList_ofList, if_neg hname]

mutual

/-- Nowhere does an object of any class run into what stands behind it: not among the arguments of
    a block, and not among members, unless these are read as named ones. -/
def Stable : ObjcType → Prop
  | .pointer t | .array _ t | .qualified _ t => Stable t
  | .aggregate _ _ ms => (startNamed ms = false → Clear ms) ∧ StableMembers ms
  | .blockOf r ts => NoClash (r :: ts) ∧ Stable r ∧ StableTypes ts
  | .primitive _ | .incomplete _ _ | .bitfield _ | .object _ _ | .block => True
termination_by structural t => t

def StableMember : Member → Prop
  | ⟨_, t⟩ => Stable t
termination_by structural m => m

def StableMembers : List Member → Prop
  | [] => True
  | m :: ms => StableMember m ∧ StableMembers ms
termination_by structural ms => ms

def StableTypes : List ObjcType → Prop
  | [] => True
  | t :: ts => Stable t ∧ StableTypes ts
termination_by structural ts => ts

end

section

variable {named : Bool} {k : AggregateKind} {rest rest' x y z : List Char} {t u : ObjcType}
  {ms : List Member} {c : Char}

/-- Among named members an object without a name behind it is written bare, so that its first
    character already ended the member in front. -/
theorem Written.precedes_of_leads {rest rest' x : List Char} {t : ObjcType} (hl : Leads u c)
    (hr : rest.head? = some c) (hr' : rest'.head? = some c) :
    Written true rest t x → Precedes true rest' t
  | .pointer h | .qualified _ _ h => by
    have hp := h.precedes_of_leads hl hr hr'
    exact hp
  | .bitfield _ _ => by
    intro d hd
    cases hd.symm.trans hr'
    exact hl.digit
  | .id hp => by
    have hm := hl.mark
    simp only [List.mem_cons, List.not_mem_nil, or_false, not_or] at hm
    refine ⟨?_, fun hq => ?_⟩
    · rw [hr', ← hr]
      exact hp.1
    · cases hq.symm.trans hr'
      exact absurd rfl hm.1
  | .object _ _ hs => by
    have hm := hl.mark
    have hcloses := hs rfl
    rw [hr] at hcloses
    simp only [List.mem_cons, List.not_mem_nil, or_false, not_or] at hm
    simp [hm] at hcloses
  | .block hb => by
    change rest'.head? ≠ some '<'
    rw [hr', ← hr]
    exact hb
  | .primitive _ | .array _ _ | .aggregate _ _ | .incomplete _ | .blockOf _ _ => trivial

theorem Written.precedes_of_members (ht : Written true (y ++ k.closing :: rest) t x)
    (h : WrittenMembers true k rest ms y) (h' : WrittenMembers true k rest' ms z) :
    Precedes true (z ++ k.closing :: rest') t := by
  have hhead : (z ++ k.closing :: rest').head? = (y ++ k.closing :: rest).head? :=
    (h'.head?_append rest' rest).trans (h.head?_append rest rest).symm
  cases h with
  | nil => exact h'.precedes_of_named nofun t
  | @cons _ _ _ x y name u ms hn hu h =>
    cases name with
    | some s => exact h'.precedes_of_named (by rintro m ⟨⟩; rfl) t
    | none =>
      obtain ⟨c, cs, rfl, hl⟩ := hu.leads
      exact ht.precedes_of_leads hl rfl hhead

mutual

theorem Written.respell {named : Bool} {rest rest' x : List Char} {t : ObjcType} :
    Written named rest t x → Stable t → Precedes named rest' t → Written named rest' t (spell t)
  | .primitive p, _, _ => .primitive p
  | .pointer h, hs, hr => .pointer (h.respell hs hr)
  | .array _ h, hs, _ =>
    .array (isNumeral_toDigits _) (h.respell hs (precedes_of_closing _ rest' (by decide)))
  | .aggregate hn h, hs, _ => .aggregate hn.spellTag (h.respell hs.2 hs.1 rest')
  | .incomplete hn, _, _ => .incomplete hn.spellTag
  | .bitfield _ _, _, hr => .bitfield (isNumeral_toDigits _) hr
  | .id _, _, hr => .id hr
  | .object hq hp _, _, hr => written_spellObject (objectOk_of_splitPayload hq hp) hr
  | .block _, _, hr => .block hr
  | .blockOf hw h, hs, _ =>
    have hts := h.respell hs.2.2 hs.1.tail rest'
    .blockOf (hw.respell hs.2.1 (hts.precedes hs.1)) hts
  | .qualified hqs hq h, hs, hr => .qualified hqs hq (h.respell hs hr)

theorem WrittenMembers.respell {named : Bool} {k : AggregateKind} {rest y : List Char}
    {ms : List Member} : WrittenMembers named k rest ms y → StableMembers ms →
      (named = false → Clear ms) → (rest' : List Char) →
        WrittenMembers named k rest' ms (spellMembers ms)
  | .nil, _, _, _ => .nil
  | .cons hn ht h, hs, hc, rest' => by
    have hms := h.respell hs.2 (fun hnamed => (hc hnamed).tail) rest'
    rw [spellMembers_cons]
    refine .cons hn (ht.respell hs.1 ?_) hms
    cases named with
    | false => exact hms.precedes_of_clear (hc rfl)
    | true => exact ht.precedes_of_members h hms

theorem WrittenTypes.respell {rest y : List Char} {ts : List ObjcType} :
    WrittenTypes rest ts y → StableTypes ts → NoClash ts → (rest' : List Char) →
      WrittenTypes rest' ts (spellTypes ts)
  | .nil, _, _, _ => .nil
  | .cons ht h, hs, hc, rest' =>
    have hts := h.respell hs.2 hc.tail rest'
    .cons (ht.respell hs.1 (hts.precedes hc)) hts

end

theorem append_inj_of_stops {p : Char → Bool} {x y v w : List Char} (hx : ∀ c ∈ x, p c = true)
    (hy : ∀ c ∈ y, p c = true) (hv : Stops p v) (hw : Stops p w) (h : x ++ v = y ++ w) :
    x = y ∧ v = w := by
  have ht := congrArg (List.takeWhile p) h
  rw [List.takeWhile_append_of_pos hx, List.takeWhile_append_of_pos hy, hv.takeWhile_eq_nil,
    hw.takeWhile_eq_nil, List.append_nil, List.append_nil] at ht
  subst ht
  exact ⟨rfl, List.append_cancel_left h⟩

theorem quoted_inj {x y v w : List Char} (hx : '"' ∉ x) (hy : '"' ∉ y)
    (h : x ++ '"' :: v = y ++ '"' :: w) : x = y ∧ v = w := by
  have hstop (v : List Char) : Stops (· != '"') ('"' :: v) := by
    rintro c ⟨⟩
    rfl
  obtain ⟨hxy, hvw⟩ := 
    append_inj_of_stops (bne_of_notMem hx) (bne_of_notMem hy) (hstop v) (hstop w) h
  exact ⟨hxy, (List.cons.inj hvw).2⟩

theorem numeral_inj {n m : Nat} {x y v w : List Char} (hx : Text.IsNumeral n x)
    (hy : Text.IsNumeral m y) (hv : Stops Char.isDigit v) (hw : Stops Char.isDigit w)
    (h : x ++ v = y ++ w) : x = y ∧ v = w :=
  append_inj_of_stops (isDigit_of_isNumeral hx).2 (isDigit_of_isNumeral hy).2 hv hw h

theorem TagText.append_inj {closing c d : Char} {name name' : Option String}
    {x y v w : List Char} (hx : TagText closing name x) (hy : TagText closing name' y)
    (hc : c = '=' ∨ c = closing) (hd : d = '=' ∨ d = closing) (h : x ++ c :: v = y ++ d :: w) :
    x = y ∧ v = w := by
  have hsplit := splitTag_append ⟨c, v, rfl, hc⟩ x 0 hx.enclosed
  rw [h, splitTag_append ⟨d, w, rfl, hd⟩ y 0 hy.enclosed] at hsplit
  obtain ⟨hxy, hvw⟩ := Prod.mk.inj hsplit
  exact ⟨hxy.symm, (List.cons.inj hvw).2.symm⟩

theorem Written.precedes_id {named : Bool} {rest x : List Char} {t : ObjcType} :
    Written named rest t x → x = spell t → endsInId t = true → Precedes named rest .id
  | .pointer h, hx, he => h.precedes_id (List.cons.inj hx).2 he
  | .qualified _ _ h, hx, he => h.precedes_id (List.append_cancel_left hx) he
  | .id hp, _, _ => hp
  | @Written.object _ _ _ none [] _ _ _, hx, _ => nomatch hx
  | .primitive _, _, he | .array _ _, _, he | .aggregate _ _, _, he | .incomplete _, _, he
  | .bitfield _ _, _, he | .block _, _, he | .blockOf _ _, _, he => nomatch he

/-- The text of a type where the compact form stands: the compact form, and perhaps a quoted text
    behind it that came to nothing. -/
structure Respelled (t : ObjcType) (x : List Char) : Prop where
  stable : Stable t
  text : x = spell t ∨ ∃ payload, '"' ∉ payload ∧ x = spell t ++ '"' :: (payload ++ ['"'])

theorem Respelled.pointer (h : Respelled t x) : Respelled (.pointer t) ('^' :: x) := by
  refine ⟨h.stable, ?_⟩
  rcases h.text with rfl | ⟨payload, hq, rfl⟩
  · exact .inl rfl
  · exact .inr ⟨payload, hq, rfl⟩

theorem Respelled.qualified (h : Respelled t x) (qs : List Qualifier) :
    Respelled (.qualified qs t) (qs.map Qualifier.code ++ x) := by
  refine ⟨h.stable, ?_⟩
  rcases h.text with rfl | ⟨payload, hq, rfl⟩
  · exact .inl rfl
  · exact .inr ⟨payload, hq, (List.append_assoc _ _ _).symm⟩

theorem Respelled.text_eq {tail : List Char} (h : Respelled t x)
    (he : x ++ rest = spell t ++ tail) (hq : tail.head? ≠ some '"') : x = spell t := by
  rcases h.text with hx | ⟨payload, -, rfl⟩
  · exact hx
  · rw [List.append_assoc] at he
    rw [← List.append_cancel_left he] at hq
    exact absurd rfl hq

theorem WrittenMembers.stops (h : WrittenMembers named k rest ms y) (behind : List Char) :
    Stops Char.isDigit (y ++ k.closing :: behind) := by
  cases h with
  | nil =>
    rintro c ⟨⟩
    cases k <;> rfl
  | @cons _ _ _ x y name u ms hn hu h =>
    cases name with
    | none =>
      obtain ⟨c, cs, rfl, hl⟩ := hu.leads
      rintro d ⟨⟩
      exact hl.digit
    | some s =>
      rintro c ⟨⟩
      rfl

theorem WrittenTypes.respelled_front {ts : List ObjcType} {tail : List Char}
    (h : WrittenTypes rest ts y)
    (hx : ∀ tail, Stops Char.isDigit tail → x ++ (y ++ '>' :: rest) = spell t ++ tail →
      Respelled t x)
    (he : x ++ (y ++ '>' :: rest) = spell t ++ (spellTypes ts ++ '>' :: tail)) :
    x = spell t ∧ Stable t := by
  have hhead : Stops Char.isDigit (y ++ '>' :: rest) ∧ (y ++ '>' :: rest).head? ≠ some '"' := by
    cases h with
    | nil =>
      refine ⟨?_, by simp⟩
      rintro c ⟨⟩
      rfl
    | cons hu h =>
      obtain ⟨c, cs, rfl, hl⟩ := hu.leads
      have hm := hl.mark
      simp only [List.mem_cons, List.not_mem_nil, or_false, not_or] at hm
      refine ⟨?_, fun hq => hm.1 (Option.some.inj hq)⟩
      rintro d ⟨⟩
      exact hl.digit
  have hspell := h.head?_append rest tail
  have hr := hx _ (fun c hc => hhead.1 c (hspell ▸ hc)) he
  exact ⟨hr.text_eq he fun hq => hhead.2 (hspell.trans hq), hr.stable⟩

/-- A quoted text in front of members cannot be taken for the name of the first of them: that name
    is still to come. -/
theorem WrittenMembers.not_quoted {payload tail : List Char}
    (h : WrittenMembers named k rest ms y) (hq : '"' ∉ payload)
    (he : '"' :: (payload ++ '"' :: (y ++ k.closing :: rest)) =
      spellMembers ms ++ k.closing :: tail) : False := by
  cases h with
  | nil =>
    have hk : '"' = k.closing := (List.cons.inj he).1
    cases k <;> cases hk
  | @cons _ _ _ x y name u ms hn hu h =>
    obtain ⟨c, cs, rfl, hl⟩ := hu.leads
    have hm := hl.mark
    simp only [List.mem_cons, List.not_mem_nil, or_false, not_or] at hm
    -- The compact form of the first member's type starts with `c` as well.
    have hspell (w : List Char) : (spell u ++ w).head? = some c := (hu.head?_append [] w).symm
    rw [spellMembers_cons] at he
    cases name with
    | none =>
      have hhead := congrArg List.head? he
      rw [spellName, Option.elim_none, List.nil_append (spell u), List.append_assoc (spell u),
        hspell] at hhead
      exact hm.1 (Option.some.inj hhead).symm
    | some s =>
      have he : payload ++ '"' :: (spellName (some s) ++ c :: cs ++ y ++ k.closing :: rest) =
          s.toList ++ '"' :: (spell u ++ (spellMembers ms ++ k.closing :: tail)) := by
        simpa [spellName, spellQuoted] using he
      have hhead := congrArg List.head? (quoted_inj hq (hn s rfl) he).2
      rw [hspell] at hhead
      exact hm.1 (Option.some.inj hhead).symm

theorem Clear.cons {name : Option String} (ht : Written false (y ++ k.closing :: rest) t (spell t))
    (h : WrittenMembers false k rest ms y) (hc : Clear ms) : Clear (⟨name, t⟩ :: ms) := by
  cases h with
  | nil => trivial
  | @cons _ _ _ x y name u ms hn hu h =>
    refine ⟨fun he => ?_, hc⟩
    obtain ⟨hmark, hquote⟩ := ht.precedes_id rfl he
    cases name with
    | some s => exact absurd (hquote rfl).1 (by decide)
    | none =>
      refine ⟨rfl, ?_⟩
      rintro rfl
      rw [spellName, Option.elim_none, List.nil_append, List.append_assoc,
        hu.head?_append _ []] at hmark
      exact hmark rfl

theorem NoClash.cons {ts : List ObjcType} (ht : Written false (y ++ '>' :: rest) t (spell t))
    (h : WrittenTypes rest ts y) (hc : NoClash ts) : NoClash (t :: ts) := by
  cases h with
  | nil => trivial
  | @cons _ x y u ts hu h =>
    refine ⟨fun he => ?_, hc⟩
    rintro rfl
    have hmark := (ht.precedes_id rfl he).1
    rw [List.append_assoc, hu.head?_append _ []] at hmark
    exact hmark rfl

mutual

theorem Written.respelled {named : Bool} {rest x : List Char} {t : ObjcType} :
    Written named rest t x → (tail : List Char) → Stops Char.isDigit tail →
      x ++ rest = spell t ++ tail → Respelled t x
  | .primitive p, _, _, _ => ⟨trivial, .inl rfl⟩
  | .pointer h, tail, hd, he => (h.respelled tail hd (List.cons.inj he).2).pointer
  | @Written.array _ rest digits x n t hn h, tail, hd, he => by
    have he : digits ++ (x ++ ']' :: rest) =
        Nat.toDigits 10 n.toNat ++ (spell t ++ ']' :: tail) := by
      simpa [spell] using he
    obtain ⟨c, cs, hx, hl⟩ := h.leads
    have hstop : Stops Char.isDigit (x ++ ']' :: rest) := by
      rw [hx]
      rintro d ⟨⟩
      exact hl.digit
    have hstop' : Stops Char.isDigit (spell t ++ ']' :: tail) := by
      intro d hd
      rw [← h.head?_append (']' :: rest)] at hd
      exact hstop d hd
    obtain ⟨hdigits, helement⟩ := numeral_inj hn (isNumeral_toDigits _) hstop hstop' he
    have ht := h.respelled (']' :: tail) (by rintro d ⟨⟩; rfl) helement
    rw [hdigits, ht.text_eq helement (by simp)]
    exact ⟨ht.stable, .inl rfl⟩
  | @Written.aggregate _ rest tag y k name ms hn h, tail, hd, he => by
    have he : tag ++ '=' :: (y ++ k.closing :: rest) =
        spellTag name ++ '=' :: (spellMembers ms ++ k.closing :: tail) := by
      simpa [spell] using he
    obtain ⟨htag, hmembers⟩ := hn.append_inj hn.spellTag (.inl rfl) (.inl rfl) he
    obtain ⟨hy, hs, hc⟩ := h.respelled tail hmembers
    rw [htag, hy]
    exact ⟨⟨hc, hs⟩, .inl rfl⟩
  | @Written.incomplete _ rest tag k name hn, tail, hd, he => by
    have he : tag ++ k.closing :: rest = spellTag name ++ k.closing :: tail := by
      simpa [spell] using he
    obtain ⟨rfl, -⟩ := hn.append_inj hn.spellTag (.inr rfl) (.inr rfl) he
    exact ⟨trivial, .inl rfl⟩
  | .bitfield hw hr, tail, hd, he => by
    obtain ⟨rfl, -⟩ := numeral_inj hw (isNumeral_toDigits _) hr hd (List.cons.inj he).2
    exact ⟨trivial, .inl rfl⟩
  | .id _, _, _, _ => ⟨trivial, .inl rfl⟩
  | @Written.object _ rest payload className protocols hq hp _, tail, _, he => by
    -- With any name in it, the quoted text is the one of the compact form.
    have hnames (he : '@' :: '"' :: (payload ++ '"' :: rest) =
        '@' :: '"' :: (spellPayload className protocols ++ '"' :: tail)) :
        payload = spellPayload className protocols := by
      have hok := quote_not_mem_spellPayload (objectOk_of_splitPayload hq hp)
      exact (quoted_inj hq hok (List.cons.inj (List.cons.inj he).2).2).1
    refine ⟨trivial, ?_⟩
    rcases className with - | s
    · rcases protocols with - | ⟨p, ps⟩
      · exact .inr ⟨payload, hq, rfl⟩
      · exact .inl (by rw [hnames (by simpa [spell, spellObject] using he)]; rfl)
    · exact .inl (by rw [hnames (by simpa [spell, spellObject] using he)]; rfl)
  | .block _, _, _, _ => ⟨trivial, .inl rfl⟩
  | @Written.blockOf _ rest x y r ts hr h, tail, _, he => by
    have he : x ++ (y ++ '>' :: rest) = spell r ++ (spellTypes ts ++ '>' :: tail) := by
      simpa [spell] using he
    obtain ⟨rfl, hstable⟩ := h.respelled_front hr.respelled he
    obtain ⟨hy, hs, hc⟩ := h.respelled tail (List.append_cancel_left he)
    refine ⟨⟨hc.cons hr h, hstable, hs⟩, .inl ?_⟩
    rw [hy]
    rfl
  | .qualified _ _ h, tail, hd, he => by
    have he := List.append_cancel_left (by simpa only [spell, List.append_assoc] using he)
    exact (h.respelled tail hd he).qualified _

theorem WrittenMembers.respelled {named : Bool} {k : AggregateKind} {rest y : List Char}
    {ms : List Member} : WrittenMembers named k rest ms y → (tail : List Char) →
      y ++ k.closing :: rest = spellMembers ms ++ k.closing :: tail →
        y = spellMembers ms ∧ StableMembers ms ∧ (named = false → Clear ms)
  | .nil, _, _ => ⟨rfl, trivial, fun _ => trivial⟩
  | @WrittenMembers.cons named k rest x y name t ms hn ht h, tail, he => by
    have he : x ++ (y ++ k.closing :: rest) =
        spell t ++ (spellMembers ms ++ k.closing :: tail) := by
      simpa [spellMembers_cons] using he
    have hhead := h.head?_append rest tail
    have htype := ht.respelled _ (fun c hc => h.stops rest c (hhead ▸ hc)) he
    have hx : x = spell t := by
      rcases htype.text with hx | ⟨payload, hq, rfl⟩
      · exact hx
      · rw [List.append_assoc] at he
        exact (h.not_quoted hq (by simpa using List.append_cancel_left he)).elim
    subst hx
    obtain ⟨hy, hs, hc⟩ := h.respelled tail (List.append_cancel_left he)
    refine ⟨by rw [spellMembers_cons, hy], ⟨htype.stable, hs⟩, ?_⟩
    rintro rfl
    exact (hc rfl).cons ht h

theorem WrittenTypes.respelled {rest y : List Char} {ts : List ObjcType} :
    WrittenTypes rest ts y → (tail : List Char) →
      y ++ '>' :: rest = spellTypes ts ++ '>' :: tail →
        y = spellTypes ts ∧ StableTypes ts ∧ NoClash ts
  | .nil, _, _ => ⟨rfl, trivial, trivial⟩
  | @WrittenTypes.cons rest x y t ts ht h, tail, he => by
    have he : x ++ (y ++ '>' :: rest) = spell t ++ (spellTypes ts ++ '>' :: tail) := by
      simpa [spellTypes] using he
    obtain ⟨rfl, hstable⟩ := h.respelled_front ht.respelled he
    obtain ⟨hy, hs, hc⟩ := h.respelled tail (List.append_cancel_left he)
    exact ⟨by rw [spellTypes, hy], ⟨hstable, hs⟩, hc.cons ht h⟩

end

end

/-- The compact form of a decoded tree is decoded to that tree again exactly if the tree is
    stable. -/
theorem decode_encode_iff_stable (s : String) (t : ObjcType) (h : decode s = .ok t) :
    decode t.encode = .ok t ↔ Stable t := by
  obtain ⟨hw, hn⟩ := decode_eq_ok_iff.1 h
  have htext : t.encode.toList = spell t := String.toList_ofList
  rw [decode_eq_ok_iff, htext]
  constructor
  · rintro ⟨hspell, -⟩
    exact (hspell.respelled [] nofun rfl).stable
  · intro hs
    exact ⟨hw.respell hs (precedes_nil false t), hn⟩

/-- Objects whose quoted text comes to nothing, in front of a name, of another type and of closing
    characters. -/
def emptiedText : String := "\x7b=\"next\"@\"\"\"bits\"(=@\"\"i^@\"<>\")\x7d"

def emptiedTree : ObjcType :=
  .aggregate .struct none [
    ⟨some "next", .id⟩,
    ⟨some "bits", .aggregate .union none
      [⟨none, .id⟩, ⟨none, .primitive .int⟩, ⟨none, .pointer .id⟩]⟩]

theorem decode_encode_emptiedTree :
    decode emptiedText = .ok emptiedTree ∧ Stable emptiedTree ∧
      decode emptiedTree.encode = .ok emptiedTree := by
  have h : decode emptiedText = .ok emptiedTree := by decide +kernel
  have hs : Stable emptiedTree := by
    simp [emptiedTree, ObjcType.id, Stable, StableMembers, StableMember, startNamed, Clear,
      endsInId]
  exact ⟨h, hs, (decode_encode_iff_stable emptiedText emptiedTree h).2 hs⟩

def clashTree : ObjcType := .aggregate .struct none [⟨none, .id⟩, ⟨none, .primitive .unknown⟩]

theorem decode_encode_clashTree :
    decode "\x7b?=@\"\"?\x7d" = .ok clashTree ∧ clashTree.encode = "\x7b?=@?\x7d" ∧
      decode clashTree.encode = .ok (.aggregate .struct none [⟨none, .block⟩]) ∧
        decode clashTree.encode ≠ .ok clashTree := by
  decide +kernel

end ObjcType

end ObjcAtlas
