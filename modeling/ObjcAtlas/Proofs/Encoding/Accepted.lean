import ObjcAtlas.Proofs.Encoding.Takes
import ObjcAtlas.Proofs.Encoding.Written

set_option autoImplicit false

/-!
# What the decoder accepts

`Spells t text` says that `text` is a way to write `t`: the compact form, in which numbers may have
zeros in front, an anonymous struct or union may have an empty name, and the quoted text of an
object may be any that falls into the same names. `spells_of_decode` says that the decoder accepts
nothing else, so that every character of an accepted text is accounted for in the tree. The way
there is over the grammar: what the reader takes is written for the tree that it gives, in front of
what it leaves.
-/
namespace ObjcAtlas

namespace ObjcType

/-- The name of a struct or union; the empty name and `?` stand for none. -/
inductive SpellsTag : Option String → List Char → Prop where
  | empty : SpellsTag none []
  | unknown : SpellsTag none ['?']
  | known (name : String) : SpellsTag (some name) name.toList

/-- The text between the quotes of an object: its class up to the first `<`, and then protocols
    between angle brackets and commas, where blanks around a name do not count. -/
structure SpellsPayload (className : Option String) (protocols : List String)
    (payload : List Char) : Prop where
  quote : '"' ∉ payload
  nonempty : className ≠ some ""
  bracket : '<' ∉ (className.getD "").toList
  split : ∃ rest, payload = (className.getD "").toList ++ rest ∧ (∀ c ∈ rest.head?, c = '<') ∧
    protocols.map String.toList =
      ((Text.splitAtAny (fun c => c == '<' || c == '>' || c == ',') rest).map Text.trim).filter
        fun p => !p.isEmpty

mutual

inductive Spells : ObjcType → List Char → Prop where
  | primitive (p : Primitive) : Spells (.primitive p) [p.code]
  | pointer {t : ObjcType} {x : List Char} (h : Spells t x) : Spells (.pointer t) ('^' :: x)
  | array {n : UInt64} {t : ObjcType} {digits x : List Char} (hn : Text.IsNumeral n.toNat digits)
      (h : Spells t x) : Spells (.array n t) ('[' :: digits ++ x ++ [']'])
  | aggregate {k : AggregateKind} {name : Option String} {ms : List Member} {tag x : List Char}
      (hn : SpellsTag name tag) (h : SpellsMembers ms x) :
      Spells (.aggregate k name ms) (k.opening :: tag ++ '=' :: x ++ [k.closing])
  | incomplete {k : AggregateKind} {name : Option String} {tag : List Char}
      (hn : SpellsTag name tag) : Spells (.incomplete k name) (k.opening :: tag ++ [k.closing])
  | bitfield {w : UInt32} {digits : List Char} (hw : Text.IsNumeral w.toNat digits) :
      Spells (.bitfield w) ('b' :: digits)
  | id : Spells .id ['@']
  | object {className : Option String} {protocols : List String} {payload : List Char}
      (h : SpellsPayload className protocols payload) :
      Spells (.object className protocols) ('@' :: '"' :: payload ++ ['"'])
  | block : Spells .block ['@', '?']
  | blockOf {r : ObjcType} {ts : List ObjcType} {x y : List Char} (hr : Spells r x)
      (h : SpellsTypes ts y) : Spells (.blockOf r ts) ('@' :: '?' :: '<' :: x ++ y ++ ['>'])
  | qualified {t : ObjcType} {x : List Char} (qs : List Qualifier) (h : Spells t x) :
      Spells (.qualified qs t) (qs.map Qualifier.code ++ x)

inductive SpellsMembers : List Member → List Char → Prop where
  | nil : SpellsMembers [] []
  | unnamed {t : ObjcType} {ms : List Member} {x y : List Char} (ht : Spells t x)
      (h : SpellsMembers ms y) : SpellsMembers (⟨none, t⟩ :: ms) (x ++ y)
  | named {t : ObjcType} {ms : List Member} {x y : List Char} (name : String) (ht : Spells t x)
      (h : SpellsMembers ms y) :
      SpellsMembers (⟨some name, t⟩ :: ms) (spellQuoted name ++ x ++ y)

inductive SpellsTypes : List ObjcType → List Char → Prop where
  | nil : SpellsTypes [] []
  | cons {t : ObjcType} {ts : List ObjcType} {x y : List Char} (ht : Spells t x)
      (h : SpellsTypes ts y) : SpellsTypes (t :: ts) (x ++ y)

end

mutual

/-- Wherever a type is qualified, it is by some qualifier, and all of them stand together. -/
def QualifiersOk : ObjcType → Prop
  | .pointer t | .array _ t => QualifiersOk t
  | .aggregate _ _ ms => QualifiersOkMembers ms
  | .blockOf r ts => QualifiersOk r ∧ QualifiersOkTypes ts
  | .qualified qs t => qs ≠ [] ∧ isQualified t = false ∧ QualifiersOk t
  | .primitive _ | .incomplete _ _ | .bitfield _ | .object _ _ | .block => True
termination_by structural t => t

def QualifiersOkMember : Member → Prop
  | ⟨_, t⟩ => QualifiersOk t
termination_by structural m => m

def QualifiersOkMembers : List Member → Prop
  | [] => True
  | m :: ms => QualifiersOkMember m ∧ QualifiersOkMembers ms
termination_by structural ms => ms

def QualifiersOkTypes : List ObjcType → Prop
  | [] => True
  | t :: ts => QualifiersOk t ∧ QualifiersOkTypes ts
termination_by structural ts => ts

end

/-- What holds of a type that was read in front of `rest` with at most `budget` types nested. -/
structure Accepted (named : Bool) (budget : Nat) (text rest : List Char) (t : ObjcType) : Prop where
  written : Written named rest t text
  nesting : t.nesting ≤ budget

structure AcceptedMembers (named : Bool) (k : AggregateKind) (budget : Nat) (text rest : List Char)
    (ms : List Member) : Prop where
  written : WrittenMembers named k rest ms text
  nesting : nestingMembers ms ≤ budget

structure AcceptedTypes (budget : Nat) (text rest : List Char) (ts : List ObjcType) : Prop where
  written : WrittenTypes rest ts text
  nesting : nestingTypes ts ≤ budget

theorem spellsTag_ofList (name : List Char) :
    SpellsTag (if name = [] ∨ name = ['?'] then none else some (String.ofList name)) name := by
  by_cases h : name = [] ∨ name = ['?']
  · rw [if_pos h]
    rcases h with rfl | rfl
    · exact .empty
    · exact .unknown
  · rw [if_neg h]
    have hk := SpellsTag.known (String.ofList name)
    rwa [String.toList_ofList] at hk

theorem TagText.spells {closing : Char} {name : Option String} {text : List Char}
    (h : TagText closing name text) : SpellsTag name text := by
  rw [h.value]
  exact spellsTag_ofList text

theorem spellsPayload_splitPayload {payload : List Char} {className : Option String}
    {protocols : List String} (h : '"' ∉ payload)
    (hp : Reading.splitPayload payload = .object className protocols) :
    SpellsPayload className protocols payload := by
  obtain ⟨rfl, rfl⟩ := ObjcType.object.inj hp
  have hname : ∀ cs : List Char,
      ((if cs.isEmpty then none else some (String.ofList cs)).getD "").toList = cs := by
    intro cs
    cases cs with
    | nil => rfl
    | cons c cs => simp
  refine ⟨h, ?_, ?_, payload.dropWhile (· != '<'), ?_, ?_, ?_⟩
  · intro he
    split at he
    · cases he
    · rename_i hne
      simp_all
  · rw [hname]
    intro hc
    have := Reading.takeWhile_forall _ _ _ hc
    simp at this
  · rw [hname, List.takeWhile_append_dropWhile]
  · intro c hc
    have := Reading.dropWhile_stops (· != '<') payload c hc
    simpa using this
  · simp [Function.comp_def]

mutual

theorem Written.spells {named : Bool} {rest x : List Char} {t : ObjcType} :
    Written named rest t x → Spells t x
  | .primitive p => .primitive p
  | .pointer h => .pointer h.spells
  | .array hn h => .array hn h.spells
  | .aggregate hn h => .aggregate hn.spells h.spells
  | .incomplete hn => .incomplete hn.spells
  | .bitfield hw _ => .bitfield hw
  | .id _ => .id
  | .object hq hp _ => .object (spellsPayload_splitPayload hq hp)
  | .block _ => .block
  | .blockOf hr h => .blockOf hr.spells h.spells
  | .qualified _ _ h => .qualified _ h.spells

theorem WrittenMembers.spells {named : Bool} {k : AggregateKind} {rest y : List Char}
    {ms : List Member} : WrittenMembers named k rest ms y → SpellsMembers ms y
  | .nil => .nil
  | @WrittenMembers.cons _ _ _ _ _ none _ _ _ ht h => .unnamed ht.spells h.spells
  | @WrittenMembers.cons _ _ _ _ _ (some _) _ _ _ ht h => .named _ ht.spells h.spells

theorem WrittenTypes.spells {rest y : List Char} {ts : List ObjcType} :
    WrittenTypes rest ts y → SpellsTypes ts y
  | .nil => .nil
  | .cons ht h => .cons ht.spells h.spells

end

mutual

theorem Written.qualifiers {named : Bool} {rest x : List Char} {t : ObjcType} :
    Written named rest t x → QualifiersOk t
  | .pointer h | .array _ h => h.qualifiers
  | .aggregate _ h => h.qualifiers
  | .blockOf hr h => ⟨hr.qualifiers, h.qualifiers⟩
  | .qualified hqs hq h => ⟨hqs, hq, h.qualifiers⟩
  | .primitive _ | .incomplete _ | .bitfield _ _ | .id _ | .object _ _ _ | .block _ => trivial

theorem WrittenMembers.qualifiers {named : Bool} {k : AggregateKind} {rest y : List Char}
    {ms : List Member} : WrittenMembers named k rest ms y → QualifiersOkMembers ms
  | .nil => trivial
  | .cons _ ht h => ⟨ht.qualifiers, h.qualifiers⟩

theorem WrittenTypes.qualifiers {rest y : List Char} {ts : List ObjcType} :
    WrittenTypes rest ts y → QualifiersOkTypes ts
  | .nil => trivial
  | .cons ht h => ⟨ht.qualifiers, h.qualifiers⟩

end

section

variable {named : Bool} {budget : Nat} {text rest : List Char} {t : ObjcType}

theorem Accepted.spells (h : Accepted named budget text rest t) : Spells t text := h.written.spells

theorem Accepted.qualifiers (h : Accepted named budget text rest t) : QualifiersOk t :=
  h.written.qualifiers

end

end ObjcType

open ObjcType

namespace Reading

variable {rest : List Char} {budget : Nat}

theorem takes_qualifiers : Takes rest qualifiers fun x _ qs => x = qs.map Qualifier.code := by
  refine Takes.takeWhile_bind fun letters y _ hl _ => takes_pure ?_
  rw [List.append_nil]
  clear * - hl
  induction letters with
  | nil => rfl
  | cons c cs ih =>
    obtain ⟨q, hq⟩ := Option.isSome_iff_exists.1 (hl c List.mem_cons_self)
    rw [List.filterMap_cons_some hq, List.map_cons, Qualifier.code_of_ofCode? hq,
      ← ih fun d hd => hl d (List.mem_cons_of_mem c hd)]

theorem splitTag_fst_append_snd (closing : Char) (depth : Nat) (cs : List Char) :
    (splitTag closing depth cs).1 ++ (splitTag closing depth cs).2 = cs := by
  induction cs generalizing depth with
  | nil => rfl
  | cons c cs ih =>
    rw [splitTag]
    split
    · rfl
    · exact congrArg (c :: ·) (ih _)

/-- A name that is ended by some character is closed in itself. -/
theorem enclosed_splitTag {closing : Char} {depth : Nat} {cs : List Char}
    (h : (splitTag closing depth cs).2 ≠ []) :
    Enclosed closing depth (splitTag closing depth cs).1 := by
  induction cs generalizing depth with
  | nil => exact absurd rfl h
  | cons c cs ih =>
    rw [splitTag] at h ⊢
    split
    next hends => exact hends.1
    next hinside =>
      rw [if_neg hinside] at h
      refine ⟨fun hc => ?_, ih h⟩
      exact Nat.pos_of_ne_zero fun hzero => hinside ⟨hzero, hc⟩

theorem takes_tag (closing : Char) :
    Takes rest (tag closing) fun x _ name => TagText closing name x := by
  refine Takes.get_bind fun p => ?_
  have hsplit := splitTag_fst_append_snd closing 0 rest
  have henclosed : (splitTag closing 0 rest).2 ≠ [] →
      Enclosed closing 0 (splitTag closing 0 rest).1 := enclosed_splitTag
  generalize splitTag closing 0 rest = r at hsplit henclosed ⊢
  obtain ⟨name, behind⟩ := r
  intro q a c hc
  cases behind with
  | nil => cases hc
  | cons x xs =>
    cases hc
    exact ⟨name, hsplit.symm, henclosed (List.cons_ne_nil x xs), rfl⟩

theorem takes_members {item : Reading ObjcType} {named : Bool}
    (hitem : ∀ rest, Takes rest item (Accepted named budget)) (k : AggregateKind) (fuel : Nat)
    (rest : List Char) :
    Takes rest (members item k.closing fuel) fun x behind ms =>
      ∃ y, x = y ++ [k.closing] ∧ AcceptedMembers named k budget y behind ms := by
  induction fuel generalizing rest with
  | zero => exact takes_unexpectedEnd
  | succ fuel ih =>
    -- A member, with its name before it, in front of the others.
    have hcons {w : List Char} (name : Option String) (hn : ∀ s ∈ name, '"' ∉ s.toList) :
        Takes w (item >>= fun t => members item k.closing fuel >>= fun ms =>
          pure (⟨name, t⟩ :: ms)) fun x behind ms => ∃ y, spellName name ++ x = y ++ [k.closing] ∧
            AcceptedMembers named k budget y behind ms := by
      refine (hitem w).bind fun x z t _ ht => ?_
      refine (ih z).bind fun u behind ms hz hms => takes_pure ?_
      obtain ⟨y, rfl, hms⟩ := hms
      have hrest : z = y ++ k.closing :: behind := by rw [hz, List.append_assoc]; rfl
      refine ⟨spellName name ++ x ++ y, by simp, .cons hn (hrest ▸ ht.written) hms.written, ?_⟩
      exact Nat.max_le.2 ⟨ht.nesting, hms.nesting⟩
    rw [members]
    refine Takes.peek_bind ?_
    cases rest with
    | nil => exact takes_unexpectedEnd
    | cons c cs =>
      simp only [List.head?_cons]
      by_cases hc : c = k.closing
      · rw [if_pos hc]
        exact Takes.next_bind (takes_pure ⟨[], by rw [hc]; rfl, .nil, Nat.zero_le _⟩)
      rw [if_neg hc]
      by_cases hq : c = '"'
      · rw [if_pos hq, hq]
        refine Takes.next_bind (takes_quoted.bind fun x y name _ hx => ?_)
        have hn : ∀ s ∈ some (String.ofList name), '"' ∉ s.toList := by
          rintro s ⟨⟩
          rw [String.toList_ofList]
          exact hx.2
        refine Takes.imp (hcons (some (String.ofList name)) hn) fun z _ ms hms => ?_
        obtain ⟨y, hy, hms⟩ := hms
        refine ⟨y, ?_, hms⟩
        rw [← hy, hx.1]
        simp [spellName, spellQuoted]
      · rw [if_neg hq]
        exact hcons none (by rintro s ⟨⟩)

theorem takes_arguments {item : Reading ObjcType}
    (hitem : ∀ rest, Takes rest item (Accepted false budget)) (fuel : Nat) (rest : List Char) :
    Takes rest (arguments item fuel) fun x behind ts =>
      ∃ y, x = y ++ ['>'] ∧ AcceptedTypes budget y behind ts := by
  induction fuel generalizing rest with
  | zero => exact takes_unexpectedEnd
  | succ fuel ih =>
    rw [arguments]
    refine Takes.peek_bind ?_
    split
    · exact takes_unexpectedEnd
    · rename_i hh
      obtain ⟨cs, rfl⟩ := List.head?_eq_some_iff.1 hh
      exact Takes.next_bind (takes_pure ⟨[], rfl, .nil, Nat.zero_le _⟩)
    · refine (hitem _).bind fun x z t _ ht => ?_
      refine (ih z).bind fun u behind ts hz hts => takes_pure ?_
      obtain ⟨y, rfl, hts⟩ := hts
      have hrest : z = y ++ '>' :: behind := by rw [hz, List.append_assoc]; rfl
      refine ⟨x ++ y, by simp, .cons (hrest ▸ ht.written) hts.written, ?_⟩
      exact Nat.max_le.2 ⟨ht.nesting, hts.nesting⟩

section Level

variable {nested : Bool → Reading ObjcType} {named : Bool}
  (hnested : ∀ named rest, Takes rest (nested named) (Accepted named budget))

include hnested

theorem takes_aggregate (k : AggregateKind) :
    Takes rest (aggregate nested k) fun x behind t =>
      Accepted named (budget + 1) (k.opening :: x) behind t ∧ isQualified t = false := by
  refine (takes_tag k.closing).bind fun tag y name _ htag => Takes.peek_bind ?_
  by_cases hk : y.head? = some k.closing
  · obtain ⟨cs, rfl⟩ := List.head?_eq_some_iff.1 hk
    rw [if_pos hk]
    exact Takes.next_bind (takes_pure ⟨⟨.incomplete htag, Nat.le_add_left 1 budget⟩, rfl⟩)
  · rw [if_neg hk]
    refine (takes_expect '=').bind fun e z _ _ he => Takes.peek_bind (Takes.get_bind fun p => ?_)
    refine (takes_members (hnested _) k _ z).bind fun u v ms hz hms => takes_pure ?_
    obtain ⟨y, rfl, hms⟩ := hms
    -- The first character of the members tells whether they have names.
    have hstart : (z.head? == some '"') = startNamed ms := by
      rw [hz, List.append_assoc]
      exact hms.written.startNamed_eq v
    have hwritten := hms.written
    rw [hstart] at hwritten
    refine ⟨⟨?_, Nat.succ_le_succ hms.nesting⟩, rfl⟩
    have hs : Written named v (.aggregate k name ms) _ := .aggregate htag hwritten
    simpa [he] using hs

theorem takes_object :
    Takes rest (object nested named) fun x behind t =>
      Accepted named (budget + 1) ('@' :: x) behind t ∧ isQualified t = false := by
  refine Takes.peek_bind ?_
  have hone : 1 ≤ budget + 1 := Nat.le_add_left 1 budget
  split
  · rename_i hh
    obtain ⟨cs, rfl⟩ := List.head?_eq_some_iff.1 hh
    refine Takes.next_bind (Takes.peek_bind ?_)
    by_cases hb : cs.head? = some '<'
    · obtain ⟨cs, rfl⟩ := List.head?_eq_some_iff.1 hb
      rw [if_pos hb]
      refine Takes.next_bind ((hnested false _).bind fun x y r _ hr => Takes.get_bind fun p => ?_)
      refine (takes_arguments (hnested false) _ y).bind fun u v ts hy hts => takes_pure ?_
      obtain ⟨u', rfl, hts⟩ := hts
      have hrest : y = u' ++ '>' :: v := by rw [hy, List.append_assoc]; rfl
      refine ⟨⟨?_, Nat.succ_le_succ (Nat.max_le.2 ⟨hr.nesting, hts.nesting⟩)⟩, rfl⟩
      have hs : Written named v (.blockOf r ts) _ := .blockOf (hrest ▸ hr.written) hts.written
      simpa using hs
    · rw [if_neg hb]
      exact takes_pure ⟨⟨.block hb, hone⟩, rfl⟩
  · rename_i hh
    obtain ⟨cs, rfl⟩ := List.head?_eq_some_iff.1 hh
    refine Takes.get_bind fun p => ?_
    split
    next hname =>
      obtain ⟨hnamed, hcloses⟩ := Bool.and_eq_true_iff.1 hname
      refine takes_pure ⟨⟨.id ⟨nofun, fun _ => ⟨hnamed, ?_⟩⟩, hone⟩, rfl⟩
      simpa using hcloses
    next hclass =>
      refine Takes.next_bind (takes_quoted.bind fun x y payload hcs hx => takes_pure ?_)
      obtain ⟨rfl, hq⟩ := hx
      refine ⟨⟨?_, hone⟩, rfl⟩
      have hends : named = true →
          y.head?.all (fun c => c == '"' || c == '\x7d' || c == ')') = true := by
        intro hnamed
        rw [← closesMember_append hq]
        simpa [hnamed, hcs] using hclass
      have hs : Written named y (splitPayload payload) _ := .object hq rfl hends
      simpa using hs
  · rename_i hu hq
    refine takes_pure ⟨⟨.id ⟨fun h => hu h, fun h => absurd h hq⟩, hone⟩, rfl⟩

theorem takes_unqualified :
    Takes rest (unqualified nested named) fun x behind t =>
      Accepted named (budget + 1) x behind t ∧ isQualified t = false := by
  have hone : 1 ≤ budget + 1 := Nat.le_add_left 1 budget
  refine Takes.position_bind fun start => Takes.any_bind fun c cs _ => ?_
  -- One case for each opening character, in the order of the reader.
  by_cases hpointer : c = '^'
  · rw [if_pos hpointer]
    refine (hnested named cs).bind fun x y t _ ht => takes_pure ?_
    rw [hpointer, List.append_nil]
    exact ⟨⟨.pointer ht.written, Nat.succ_le_succ ht.nesting⟩, rfl⟩
  rw [if_neg hpointer]
  by_cases harray : c = '['
  · rw [if_pos harray]
    refine takes_number.bind fun digits y n _ hn => ?_
    refine (hnested false y).bind fun x z t _ ht => ?_
    refine (takes_expect ']').bind fun e w _ hz he => takes_pure ?_
    have hrest : z = ']' :: w := by rw [hz, he]; rfl
    refine ⟨⟨?_, Nat.succ_le_succ ht.nesting⟩, rfl⟩
    have hs : Written named w (.array n t) _ := .array hn.1 (hrest ▸ ht.written)
    simpa [harray, he] using hs
  rw [if_neg harray]
  by_cases hstruct : c = AggregateKind.struct.opening
  · rw [if_pos hstruct, hstruct]
    exact takes_aggregate hnested .struct
  rw [if_neg hstruct]
  by_cases hunion : c = AggregateKind.union.opening
  · rw [if_pos hunion, hunion]
    exact takes_aggregate hnested .union
  rw [if_neg hunion]
  by_cases hbitfield : c = 'b'
  · rw [if_pos hbitfield]
    refine Takes.position_bind fun start => takes_number.bind fun digits y n _ hn => ?_
    split
    · rename_i hlt
      refine takes_pure ⟨⟨?_, hone⟩, rfl⟩
      rw [hbitfield, List.append_nil]
      refine .bitfield ?_ hn.2
      rw [UInt32.toNat_ofNat_of_lt' hlt]
      exact hn.1
    · exact takes_throw _
  rw [if_neg hbitfield]
  by_cases hobject : c = '@'
  · rw [if_pos hobject, hobject]
    exact takes_object hnested
  rw [if_neg hobject]
  split
  · rename_i p hp
    rw [← Primitive.code_of_ofCode? hp]
    exact takes_pure ⟨⟨.primitive p, hone⟩, rfl⟩
  · exact takes_throw _

end Level

theorem takes_typeWithin (budget : Nat) (named : Bool) (rest : List Char) :
    Takes rest (typeWithin budget named) (Accepted named budget) := by
  induction budget generalizing named rest with
  | zero => exact Takes.position_bind fun _ => takes_throw _
  | succ budget ih =>
    refine takes_qualifiers.bind fun x y qs _ hqs => ?_
    refine (takes_unqualified ih).bind fun z w t _ ht => takes_pure ?_
    obtain ⟨ht, hq⟩ := ht
    rw [List.append_nil, hqs]
    cases qs with
    | nil => exact ht
    | cons q qs => exact ⟨.qualified (List.cons_ne_nil q qs) hq ht.written, ht.nesting⟩

theorem takes_complete :
    Takes rest complete fun x _ t => x = rest ∧ Accepted false maxNesting x [] t := by
  have hnonempty : Takes rest nonempty fun x _ _ => x = [] := by
    refine Takes.get_bind fun p => ?_
    split
    · exact takes_throw _
    · exact takes_pure rfl
  refine hnonempty.bind fun x y _ hxy hx => ?_
  refine (takes_typeWithin maxNesting false y).bind fun z w t hzw ht => Takes.get_bind fun p => ?_
  cases w with
  | nil =>
    refine takes_pure ?_
    rw [hxy, hzw, hx]
    simpa using ht
  | cons c cs => exact Takes.position_bind fun _ => takes_throw _

theorem run_eq_ok {α : Type} {step : Reading α} {c : Cursor} {a : α} (h : step.run c = .ok a) :
    ∃ c', step c = .ok a c' := by
  unfold run EStateM.run at h
  split at h
  · rename_i c' hc
    cases h
    exact ⟨c', hc⟩
  · cases h

end Reading

namespace ObjcType

/-- Whatever the decoder accepts is a way to write the tree that it gives, in which qualifiers stand
    together and nesting is within the bound. -/
theorem spells_of_decode (encoding : String) (t : ObjcType) (h : decode encoding = .ok t) :
    Spells t encoding.toList ∧ QualifiersOk t ∧ t.nesting ≤ maxNesting := by
  obtain ⟨c, hc⟩ := Reading.run_eq_ok h
  obtain ⟨text, -, rfl, ht⟩ := Reading.takes_complete _ _ _ hc
  exact ⟨ht.spells, ht.qualifiers, ht.nesting⟩

/-- A struct without a name, written below with zeros in front of numbers, an empty name, and
    blanks and empty pieces among the protocols. -/
def unusualTree : ObjcType :=
  .aggregate .struct none [
    ⟨some "next", .id⟩,
    ⟨some "view", .pointer (.qualified [.const, .atomic] (.object (some "NSView") ["P", "Q"]))⟩,
    ⟨some "bits", .aggregate .union none [
      ⟨none, .bitfield 7⟩, ⟨none, .array 3 (.blockOf (.primitive .void) [.object none ["P"]])⟩]⟩]

def unusualText : String :=
  "\x7b=\"next\"@\"view\"^rA@\"NSView< P,Q>\"\"bits\"(=b007[03@?<v@\"<P><>\">])\x7d"

theorem spells_unusualText :
    decode unusualText = .ok unusualTree ∧ Spells unusualTree unusualText.toList ∧
      QualifiersOk unusualTree ∧ unusualTree.nesting ≤ maxNesting := by
  have h : decode unusualText = .ok unusualTree := by decide +kernel
  exact ⟨h, spells_of_decode unusualText unusualTree h⟩

end ObjcType

end ObjcAtlas
