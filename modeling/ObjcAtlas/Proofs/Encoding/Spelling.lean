import ObjcAtlas.Proofs.Encoding.Canonical
import ObjcAtlas.Proofs.Encoding.Reads

set_option autoImplicit false

namespace ObjcAtlas

open ObjcType Reading

/-- The text of a name, with `=` and the closing character only inside angle brackets; `?` and the
    empty text stand for no name. -/
structure ObjcType.TagText (closing : Char) (name : Option String) (text : List Char) : Prop where
  enclosed : Enclosed closing 0 text
  value : name = if text = [] ∨ text = ['?'] then none else some (String.ofList text)

theorem ObjcType.tagText_spellTag {k : AggregateKind} {name : Option String}
    (h : TagOk k.closing name) : TagText k.closing name (spellTag name) := by
  cases name with
  | none =>
    constructor
    · cases k <;> exact ⟨by decide, rfl⟩
    · rfl
  | some s =>
    obtain ⟨hne, hnq, henclosed⟩ := h s rfl
    refine ⟨henclosed, ?_⟩
    have hnot : ¬ (s.toList = [] ∨ s.toList = ['?']) := by
      rintro (h | h)
      · exact hne (by rw [← String.ofList_toList (s := s), h])
      · exact hnq (by rw [← String.ofList_toList (s := s), h])
    change some s = if s.toList = [] ∨ s.toList = ['?'] then none else some (String.ofList s.toList)
    rw [if_neg hnot, String.ofList_toList]

namespace Reading

theorem splitTag_append {closing : Char} {rest : List Char}
    (hr : ∃ c cs, rest = c :: cs ∧ (c = '=' ∨ c = closing)) (name : List Char) (depth : Nat)
    (h : Enclosed closing depth name) : splitTag closing depth (name ++ rest) = (name, rest) := by
  induction name generalizing depth with
  | nil =>
    obtain ⟨c, cs, rfl, hc⟩ := hr
    change depth = 0 at h
    rw [List.nil_append, splitTag, if_pos ⟨h, hc⟩]
  | cons x xs ih =>
    obtain ⟨hx, hxs⟩ := h
    have hn : ¬ (depth = 0 ∧ (x = '=' ∨ x = closing)) := by
      rintro ⟨rfl, hc⟩
      exact Nat.lt_irrefl 0 (hx hc)
    have hi : splitTag closing (if x = '<' then depth + 1 else if x = '>' then depth - 1 else depth)
        (xs ++ rest) = (xs, rest) := ih (angleDepth depth x) hxs
    simp only [List.cons_append, splitTag, if_neg hn, hi]

theorem tag_apply {closing : Char} {c : Cursor} {name rest : List Char}
    (h : splitTag closing 0 c.rest = (name, rest)) (hr : rest ≠ []) :
    tag closing c = .ok (if name = [] ∨ name = ['?'] then none else some (String.ofList name))
      (c.past name rest) := by
  cases rest with
  | nil => exact absurd rfl hr
  | cons x xs =>
    have hget : (get : Reading Cursor) c = .ok c c := rfl
    rw [tag, bind_ok hget]
    simp only [h]
    rfl

theorem reads_tag {k : AggregateKind} {name : Option String} {text rest : List Char}
    (h : TagText k.closing name text) (hr : ∃ c cs, rest = c :: cs ∧ (c = '=' ∨ c = k.closing)) :
    Reads (tag k.closing) text rest name := by
  have hs : splitTag k.closing 0 (text ++ rest) = (text, rest) :=
    splitTag_append hr text 0 h.enclosed
  have hne : rest ≠ [] := by
    obtain ⟨c, cs, rfl, -⟩ := hr
    exact List.cons_ne_nil c cs
  intro p
  rw [tag_apply hs hne, ← h.value]
  rfl

theorem filterMap_ofCode?_map_code (qs : List Qualifier) :
    (qs.map Qualifier.code).filterMap Qualifier.ofCode? = qs := by
  induction qs with
  | nil => rfl
  | cons q qs ih => rw [List.map_cons, List.filterMap_cons, Qualifier.ofCode?_code, ih]

theorem reads_qualifiers (qs : List Qualifier) {rest : List Char}
    (hr : Stops (fun c => (Qualifier.ofCode? c).isSome) rest) :
    Reads qualifiers (qs.map Qualifier.code) rest qs := by
  have hq : ∀ c ∈ qs.map Qualifier.code, (Qualifier.ofCode? c).isSome = true := by
    intro c hc
    obtain ⟨q, -, rfl⟩ := List.mem_map.1 hc
    rw [Qualifier.ofCode?_code]
    rfl
  have h : ReadsIf True qualifiers (qs.map Qualifier.code) rest qs :=
    (reads_takeWhile hq hr).toReadsIf.bind_pure (by rw [filterMap_ofCode?_map_code])
  exact h.reads trivial

theorem splitAtAny_append {isSeparator : Char → Bool} {piece : List Char}
    (h : ∀ c ∈ piece, isSeparator c = false) {x : Char} (hx : isSeparator x = true)
    (rest : List Char) : Text.splitAtAny isSeparator (piece ++ x :: rest) =
      piece :: Text.splitAtAny isSeparator rest := by
  induction piece with
  | nil => rw [List.nil_append, Text.splitAtAny, if_pos hx]
  | cons c cs ih =>
    have hc := h c List.mem_cons_self
    have hi := ih fun d hd => h d (List.mem_cons_of_mem c hd)
    simp only [List.cons_append, Text.splitAtAny, hc, hi, Bool.false_eq_true, ↓reduceIte]

def spellProtocols (protocols : List String) : List Char :=
  protocols.flatMap fun p => '<' :: p.toList ++ ['>']

theorem protocols_of_spelling {className : Option String} {protocols : List String}
    (h : ObjectOk className protocols) :
    (((Text.splitAtAny (fun c => c == '<' || c == '>' || c == ',') (spellProtocols protocols)).map
      Text.trim).filter fun p => !p.isEmpty) = protocols.map String.toList := by
  have hps := h.protocols
  clear h
  induction protocols with
  | nil => rfl
  | cons p ps ih =>
    obtain ⟨hne, htrim, hfree⟩ := hps p List.mem_cons_self
    have hsep : ∀ c ∈ p.toList, (c == '<' || c == '>' || c == ',') = false := by
      intro c hc
      obtain ⟨-, h1, h2, h3⟩ := hfree c hc
      simp [h1, h2, h3]
    have hp : p.toList ≠ [] := fun he => hne (String.toList_eq_nil_iff.1 he)
    have hrest := ih fun s hs => hps s (List.mem_cons_of_mem p hs)
    have hsplit : spellProtocols (p :: ps) =
        [] ++ '<' :: (p.toList ++ '>' :: spellProtocols ps) := by
      simp [spellProtocols]
    rw [hsplit, splitAtAny_append (by simp) rfl, splitAtAny_append hsep rfl, List.map_cons,
      List.map_cons, htrim, List.filter_cons_of_neg (by decide),
      List.filter_cons_of_pos (by simpa using hp), hrest, List.map_cons]

theorem splitPayload_spellPayload {className : Option String} {protocols : List String}
    (h : ObjectOk className protocols) :
    splitPayload (spellPayload className protocols) = .object className protocols := by
  have hclass : ∀ c ∈ (className.getD "").toList, (c != '<') = true := by
    intro c hc
    cases className with
    | none => simp at hc
    | some s =>
      rw [bne_iff_ne]
      rintro rfl
      exact (h.className s rfl).2.2 hc
  have hstop : Stops (· != '<') (spellProtocols protocols) := by
    cases protocols with
    | nil => rintro c ⟨⟩
    | cons p ps => rintro c ⟨⟩; rfl
  have htake : (spellPayload className protocols).takeWhile (· != '<') =
      (className.getD "").toList := by
    change ((className.getD "").toList ++ spellProtocols protocols).takeWhile _ = _
    rw [List.takeWhile_append_of_pos hclass, hstop.takeWhile_eq_nil, List.append_nil]
  have hdrop : (spellPayload className protocols).dropWhile (· != '<') =
      spellProtocols protocols := by
    change ((className.getD "").toList ++ spellProtocols protocols).dropWhile _ = _
    rw [List.dropWhile_append_of_pos hclass, hstop.dropWhile_eq_self]
  have hname : (if (className.getD "").toList.isEmpty then none
      else some (String.ofList (className.getD "").toList)) = className := by
    cases className with
    | none => rfl
    | some s =>
      have hne : s.toList ≠ [] := fun he => (h.className s rfl).1 (String.toList_eq_nil_iff.1 he)
      simp [hne]
  have hmap : (protocols.map String.toList).map String.ofList = protocols := by
    simp [Function.comp_def]
  simp only [splitPayload, htake, hdrop, protocols_of_spelling h, hname, hmap]

theorem closesMember_append {payload rest : List Char} (h : '"' ∉ payload) :
    closesMember (payload ++ '"' :: rest) =
      rest.head?.all fun c => c == '"' || c == '\x7d' || c == ')' := by
  rw [closesMember, List.dropWhile_append_of_pos (bne_of_notMem h)]
  cases rest with
  | nil => rfl
  | cons c cs => rfl

end Reading

namespace ObjcType

/-- What the first character of a compact form cannot be mistaken for. -/
structure Leads (t : ObjcType) (c : Char) : Prop where
  digit : c.isDigit = false
  mark : c ∉ ['"', '<', '>', ']', '\x7d', ')']
  unknown : c = '?' → t = .primitive .unknown
  qualifier : isQualified t = false → Qualifier.ofCode? c = none

theorem primitive_leads (p : Primitive) : Leads (.primitive p) p.code where
  digit := by cases p <;> decide
  mark := by cases p <;> decide
  unknown := by cases p <;> decide
  qualifier := by cases p <;> decide

theorem qualified_leads (q : Qualifier) (qs : List Qualifier) (t : ObjcType) :
    Leads (.qualified (q :: qs) t) q.code where
  digit := by cases q <;> decide
  mark := by cases q <;> decide
  unknown h := absurd h (by cases q <;> decide)
  qualifier h := by simp [isQualified] at h

theorem opening_leads (t : ObjcType) {c : Char} (hc : c ∈ ['^', '[', '\x7b', '(', 'b', '@']) :
    Leads t c := by
  simp only [List.mem_cons, List.not_mem_nil, or_false] at hc
  rcases hc with rfl | rfl | rfl | rfl | rfl | rfl <;>
    exact ⟨by decide, by decide, fun h => absurd h (by decide), fun _ => rfl⟩

theorem spellObject_eq_cons (className : Option String) (protocols : List String) :
    ∃ cs, spellObject className protocols = '@' :: cs := by
  rw [spellObject]
  split
  · exact ⟨[], rfl⟩
  · exact ⟨_, rfl⟩

/-- The text `rest` leaves the last leaf of the compact form in front of it intact. `named` says
    that the type is a member of an aggregate whose members have names. -/
def Precedes (named : Bool) (rest : List Char) : ObjcType → Prop
  | .pointer t => Precedes named rest t
  | .qualified _ t => Precedes named rest t
  | .bitfield _ => Stops Char.isDigit rest
  | .block => rest.head? ≠ some '<'
  | .object none [] =>
    rest.head? ≠ some '?' ∧
      (rest.head? = some '"' → named = true ∧ closesMember (rest.drop 1) = false)
  | .object (some _) _ | .object none (_ :: _) =>
    named = true → rest.head?.all (fun c => c == '"' || c == '\x7d' || c == ')') = true
  | .primitive _ | .array .. | .aggregate .. | .incomplete .. | .blockOf .. => True

/-- A closing character, or the first of another type, ends any type. A name does too, unless the
    type ends with an object of any class, and so does a number, unless it ends with a bitfield. -/
theorem precedes_of_head (t : ObjcType) {rest : List Char}
    (hd : endsInBitfield t = true → Stops Char.isDigit rest) (hm : rest.head? ≠ some '<')
    (hq : endsInId t = true → rest.head? ≠ some '"')
    (hu : endsInId t = true → rest.head? ≠ some '?') : Precedes false rest t := by
  fun_induction Precedes false rest t with
  | case1 t ih => exact ih hd hq hu
  | case2 _ t ih => exact ih hd hq hu
  | case3 => exact hd rfl
  | case4 => exact hm
  | case5 => exact ⟨hu rfl, fun h => absurd h (hq rfl)⟩
  | case6 | case7 => simp
  | case8 | case9 | case10 | case11 | case12 => trivial

theorem precedes_nil (named : Bool) (t : ObjcType) : Precedes named [] t := by
  fun_induction Precedes named [] t with
  | case1 t ih => exact ih
  | case2 _ t ih => exact ih
  | case3 => rintro c ⟨⟩
  | case4 => simp
  | case5 => simp
  | case6 | case7 => simp
  | case8 | case9 | case10 | case11 | case12 => trivial

theorem precedes_of_closing (t : ObjcType) {c : Char} (cs : List Char)
    (hc : c ∈ ['>', ']', '\x7d', ')']) : Precedes false (c :: cs) t := by
  have hd : c.isDigit = false ∧ c ≠ '<' ∧ c ≠ '"' ∧ c ≠ '?' := by
    simp only [List.mem_cons, List.not_mem_nil, or_false] at hc
    rcases hc with rfl | rfl | rfl | rfl <;> decide
  obtain ⟨h1, h2, h3, h4⟩ := hd
  apply precedes_of_head
  · rintro - d ⟨⟩
    exact h1
  · simpa using h2
  · simpa using fun _ => h3
  · simpa using fun _ => h4

theorem precedes_of_leads {t u : ObjcType} {c : Char} (cs : List Char) (hl : Leads u c)
    (hu : endsInId t = true → u ≠ .primitive .unknown) : Precedes false (c :: cs) t := by
  have hm := hl.mark
  simp only [List.mem_cons, List.not_mem_nil, or_false, not_or] at hm
  apply precedes_of_head
  · rintro - d ⟨⟩
    exact hl.digit
  · simpa using hm.2.1
  · simpa using fun _ => hm.1
  · intro he
    simpa using fun hq => hu he (hl.unknown hq)

end ObjcType

end ObjcAtlas
