import Mathlib.Data.List.Basic
import ObjcAtlas.Encoding.Property
import ObjcAtlas.Proofs.Encoding.Locality

set_option autoImplicit false

namespace ObjcAtlas

open Reading

def DecodeError.atStart : DecodeError → DecodeError
  | .unexpectedEnd _ => .unexpectedEnd 0
  | .unexpectedChar _ c => .unexpectedChar 0 c
  | .invalidNumber _ => .invalidNumber 0
  | .trailingInput _ => .trailingInput 0
  | .tooDeep _ => .tooDeep 0
  | .empty => .empty

theorem DecodeError.offset_shift (e : DecodeError) (n : Nat) :
    (e.shift n).offset = e.offset + n := by
  cases e with
  | empty => exact (Nat.zero_add n).symm
  | _ => rfl

theorem DecodeError.atStart_shift {e : DecodeError} (h : e ≠ .empty) (n : Nat) :
    (e.shift n).atStart = e.atStart := by
  cases e with
  | empty => exact absurd rfl h
  | _ => rfl

namespace PropertyAttributes

variable {p : PropertyAttributes} {a b : List Char} {c d : Char}

inductive Field where
  | ownership | readonly | nonatomic | dynamic | getter | setter | ivar | other
deriving DecidableEq

/-- The change that one item asks for. -/
inductive Change where
  | readonly | nonatomic | dynamic
  | ownership (o : Ownership)
  | getter (name : String)
  | setter (name : String)
  | ivar (name : String)
  | other (item : String)

namespace Change

def ofLetter (value : List Char) : Char → Change
  | 'R' => .readonly
  | 'C' => .ownership .copy
  | '&' => .ownership .retain
  | 'W' => .ownership .weak
  | 'N' => .nonatomic
  | 'D' => .dynamic
  | 'G' => .getter (String.ofList value)
  | 'S' => .setter (String.ofList value)
  | 'V' => .ivar (String.ofList value)
  | c => .other (String.ofList (c :: value))

def field : Change → Field
  | .readonly => .readonly
  | .nonatomic => .nonatomic
  | .dynamic => .dynamic
  | .ownership _ => .ownership
  | .getter _ => .getter
  | .setter _ => .setter
  | .ivar _ => .ivar
  | .other _ => .other

def make (p : PropertyAttributes) : Change → PropertyAttributes
  | .readonly => { p with readonly := true }
  | .nonatomic => { p with nonatomic := true }
  | .dynamic => { p with dynamic := true }
  | .ownership o => { p with ownership := o }
  | .getter name => { p with getter := some name }
  | .setter name => { p with setter := some name }
  | .ivar name => { p with ivar := some name }
  | .other item => { p with other := p.other ++ [item] }

theorem make_comm {x y : Change} (h : x.field ≠ y.field) :
    make (make p x) y = make (make p y) x := by
  cases x <;> cases y <;> simp_all [make, field]

theorem make_type (x : Change) (t : ObjcType) :
    make { p with type := some t } x = { make p x with type := some t } := by
  cases x <;> rfl

end Change

def ownershipLetters : List Char := ['C', '&', 'W']

def letters : List Char := ['R', 'C', '&', 'W', 'N', 'D', 'G', 'S', 'V']

def fieldOf (c : Char) : Field :=
  (Change.ofLetter [] c).field

theorem apply_cons (p : PropertyAttributes) (c : Char) (value : List Char) :
    p.apply (c :: value) = (Change.ofLetter value c).make p := by
  unfold apply Change.ofLetter
  split <;> simp_all [Change.make]

theorem field_ofLetter (value : List Char) (c : Char) :
    (Change.ofLetter value c).field = fieldOf c := by
  unfold fieldOf Change.ofLetter
  split <;> rfl

theorem fieldOf_of_not_mem (h : c ∉ letters) : fieldOf c = .other := by
  unfold fieldOf Change.ofLetter
  split <;> simp_all [letters, Change.field]

/-- Two letters have one field if they are the same, both about ownership or both without
    meaning. -/
theorem letters_of_fieldOf_eq (h : fieldOf c = fieldOf d) :
    c = d ∨ (c ∈ ownershipLetters ∧ d ∈ ownershipLetters) ∨ (c ∉ letters ∧ d ∉ letters) := by
  have hknown : letters.Forall fun c => fieldOf c ≠ .other := by decide
  have hboth : letters.Forall fun c => letters.Forall fun d => fieldOf c = fieldOf d →
      c = d ∨ (c ∈ ownershipLetters ∧ d ∈ ownershipLetters) := by decide
  simp only [List.forall_iff_forall_mem] at hknown hboth
  by_cases hc : c ∈ letters
  · by_cases hd : d ∈ letters
    · exact (hboth c hc d hd h).imp_right .inl
    · exact absurd (h.trans (fieldOf_of_not_mem hd)) (hknown c hc)
  · by_cases hd : d ∈ letters
    · exact absurd (h.symm.trans (fieldOf_of_not_mem hc)) (hknown d hd)
    · exact .inr (.inr ⟨hc, hd⟩)

/-- Items that may change places: they start with different letters, which are not both about
    ownership and not both without meaning. -/
structure MaySwap (a b : List Char) : Prop where
  head_ne : a.head? ≠ b.head?
  ownership : ¬ ((∃ c ∈ a.head?, c ∈ ownershipLetters) ∧ ∃ d ∈ b.head?, d ∈ ownershipLetters)
  meaning : ¬ ((∃ c ∈ a.head?, c ∉ letters) ∧ ∃ d ∈ b.head?, d ∉ letters)

theorem MaySwap.apply_comm (h : MaySwap a b) (p : PropertyAttributes) :
    (p.apply a).apply b = (p.apply b).apply a := by
  cases a with
  | nil => rfl
  | cons c v =>
    cases b with
    | nil => rfl
    | cons d w =>
      simp only [apply_cons]
      refine Change.make_comm ?_
      rw [field_ofLetter, field_ofLetter]
      intro hfield
      rcases letters_of_fieldOf_eq hfield with rfl | ⟨hc, hd⟩ | ⟨hc, hd⟩
      · exact h.head_ne rfl
      · exact h.ownership ⟨⟨c, rfl, hc⟩, d, rfl, hd⟩
      · exact h.meaning ⟨⟨c, rfl, hc⟩, d, rfl, hd⟩

theorem apply_type (p : PropertyAttributes) (t : ObjcType) (item : List Char) :
    ({ p with type := some t } : PropertyAttributes).apply item =
      { p.apply item with type := some t } := by
  cases item with
  | nil => rfl
  | cons c value => rw [apply_cons, apply_cons, Change.make_type]

theorem applyAll_type (p : PropertyAttributes) (t : ObjcType) (text : List Char) :
    ({ p with type := some t } : PropertyAttributes).applyAll text =
      { p.applyAll text with type := some t } := by
  unfold applyAll
  induction Text.splitAtAny (· == ',') text generalizing p with
  | nil => rfl
  | cons item items ih => rw [List.foldl_cons, List.foldl_cons, apply_type, ih]

theorem splitAtAny_of_forall {isSeparator : Char → Bool} {piece : List Char}
    (h : ∀ c ∈ piece, isSeparator c = false) : Text.splitAtAny isSeparator piece = [piece] := by
  induction piece with
  | nil => rfl
  | cons c cs ih =>
    obtain ⟨hc, hcs⟩ := List.forall_mem_cons.1 h
    simp only [Text.splitAtAny, ih hcs, hc, Bool.false_eq_true, ↓reduceIte]

theorem splitAtAny_intercalate {items : List (List Char)} (hne : items ≠ [])
    (h : ∀ item ∈ items, ',' ∉ item) :
    Text.splitAtAny (· == ',') ([','].intercalate items) = items := by
  have hplain {item : List Char} (hitem : ',' ∉ item) : ∀ c ∈ item, (c == ',') = false := by
    intro c hc
    rw [beq_eq_false_iff_ne]
    rintro rfl
    exact hitem hc
  induction items with
  | nil => exact absurd rfl hne
  | cons item items ih =>
    obtain ⟨hitem, hitems⟩ := List.forall_mem_cons.1 h
    cases items with
    | nil => rw [List.intercalate_singleton, splitAtAny_of_forall (hplain hitem)]
    | cons next items =>
      rw [List.intercalate_cons_cons, List.append_assoc, List.singleton_append,
        splitAtAny_append (hplain hitem) rfl, ih (List.cons_ne_nil _ _) hitems]

theorem applyAll_swap (h : MaySwap a b) {front behind : List (List Char)}
    (hitems : ∀ item ∈ front ++ a :: b :: behind, ',' ∉ item) (p : PropertyAttributes) :
    p.applyAll ([','].intercalate (front ++ a :: b :: behind)) =
      p.applyAll ([','].intercalate (front ++ b :: a :: behind)) := by
  have hswapped : ∀ item ∈ front ++ b :: a :: behind, ',' ∉ item := by
    intro item hitem
    exact hitems item (by simp only [List.mem_append, List.mem_cons] at hitem ⊢; tauto)
  rw [applyAll, applyAll, splitAtAny_intercalate (by simp) hitems,
    splitAtAny_intercalate (by simp) hswapped]
  simp only [List.foldl_append, List.foldl_cons]
  rw [h.apply_comm]

theorem decodeList_of_head_ne {text : List Char} (h : text.head? ≠ some 'T') :
    decodeList text = .ok (applyAll {} text) := by
  unfold decodeList
  split
  next => exact absurd rfl h
  next => rfl

theorem decodeList_of_error {encoding : List Char} {e : DecodeError}
    (h : ObjcType.readLeading encoding = .error e) :
    decodeList ('T' :: encoding) = .error (e.shift 1) := by
  rw [decodeList, h]

theorem readLeading_of_decode {s : String} {t : ObjcType} {behind : List Char}
    (h : ObjcType.decode s = .ok t) (hb : ∀ c ∈ behind.head?, ¬ ObjcType.Continues c) :
    ObjcType.readLeading (s.toList ++ behind) = .ok (t, ⟨s.utf8ByteSize, behind⟩) := by
  obtain ⟨hw, hn⟩ := ObjcType.decode_eq_ok_iff.1 h
  refine ObjcType.readLeading_eq_ok_iff.2 (ObjcType.type_eq_ok_iff.2 ⟨s.toList, rfl, ?_, ?_, hn⟩)
  · rw [Cursor.width_toList, Nat.zero_add]
  · exact hw.replace (.inr hb)

theorem decodeList_of_decode {s : String} {t : ObjcType} (h : ObjcType.decode s = .ok t)
    (list : List Char) :
    decodeList ('T' :: (s.toList ++ ',' :: list)) =
      .ok { applyAll {} list with type := some t } := by
  have hcomma : ∀ c ∈ (',' :: list).head?, ¬ ObjcType.Continues c := by
    rintro c ⟨⟩
    rintro (hc | hc | hc | hc) <;> exact absurd hc (by decide)
  rw [decodeList, readLeading_of_decode h hcomma]
  exact congrArg Except.ok (applyAll_type {} t list)

/-- A type in front of a list ends where it does on its own, whatever it contains, and the list
    behind is read as on its own; a type that cannot be read fails with the same failure one byte
    further. Neighbours that change different fields may change places. -/
theorem decode_list :
    (∀ (p r : String) (t : ObjcType), ObjcType.decode p = .ok t → r.toList.head? ≠ some 'T' →
      ∃ q, decode r = .ok q ∧ decode ("T" ++ p ++ "," ++ r) = .ok { q with type := some t }) ∧
    (∀ (x : String) (e : DecodeError), ObjcType.decodeLeading x = .error e →
      ∃ e', decode ("T" ++ x) = .error e' ∧ e'.offset = e.offset + 1 ∧
        (e ≠ .empty → e'.atStart = e.atStart) ∧ (e = .empty → e' = .unexpectedEnd 1)) ∧
    ∀ (front behind : List String) (a b : String),
      (∀ item ∈ front ++ a :: b :: behind, ',' ∉ item.toList) → MaySwap a.toList b.toList →
      (",".intercalate (front ++ a :: b :: behind)).toList.head? ≠ some 'T' →
      (",".intercalate (front ++ b :: a :: behind)).toList.head? ≠ some 'T' →
        decode (",".intercalate (front ++ a :: b :: behind)) =
            decode (",".intercalate (front ++ b :: a :: behind)) ∧
          ∀ (p : String) (t : ObjcType), ObjcType.decode p = .ok t →
            decode ("T" ++ p ++ "," ++ ",".intercalate (front ++ a :: b :: behind)) =
              decode ("T" ++ p ++ "," ++ ",".intercalate (front ++ b :: a :: behind)) := by
  have htyped {p : String} {t : ObjcType} (hp : ObjcType.decode p = .ok t) (r : String) :
      decode ("T" ++ p ++ "," ++ r) = .ok { applyAll {} r.toList with type := some t } := by
    have htext : ("T" ++ p ++ "," ++ r).toList = 'T' :: (p.toList ++ ',' :: r.toList) := by
      simp [String.toList_append]
    rw [decode, htext, decodeList_of_decode hp]
  refine ⟨fun p r t hp hr => ?_, fun x e hx => ?_, fun front behind a b hitems hab ha hb => ?_⟩
  · exact ⟨_, decodeList_of_head_ne hr, htyped hp r⟩
  · have hread : ObjcType.readLeading x.toList = .error e := by
      rw [ObjcType.decodeLeading] at hx
      cases hl : ObjcType.readLeading x.toList with
      | error e' =>
        rw [hl] at hx
        exact congrArg Except.error (Except.error.inj hx)
      | ok found =>
        rw [hl] at hx
        cases hx
    refine ⟨e.shift 1, ?_, e.offset_shift 1, fun he => DecodeError.atStart_shift he 1, ?_⟩
    · rw [decode, String.toList_append]
      exact decodeList_of_error hread
    · rintro rfl
      rfl
  · have hswap : applyAll {} (",".intercalate (front ++ a :: b :: behind)).toList =
        applyAll {} (",".intercalate (front ++ b :: a :: behind)).toList := by
      have hlists : ∀ item ∈ (front ++ a :: b :: behind).map String.toList, ',' ∉ item := by
        rintro _ hitem
        obtain ⟨item, hmem, rfl⟩ := List.mem_map.1 hitem
        exact hitems item hmem
      simp only [String.toList_intercalate, List.map_append, List.map_cons] at hlists ⊢
      exact applyAll_swap hab hlists {}
    refine ⟨?_, fun p t hp => ?_⟩
    · rw [decode, decode, decodeList_of_head_ne ha, decodeList_of_head_ne hb, hswap]
    · rw [htyped hp, htyped hp, hswap]

def listedType : String := "@\"NSObject<NSCopying,NSCoding>\""

theorem decode_list_listedType :
    (∃ q, decode "Pé,GisOn,N" = .ok q ∧ decode ("T" ++ listedType ++ "," ++ "Pé,GisOn,N") =
        .ok { q with type := some (.object (some "NSObject") ["NSCopying", "NSCoding"]) }) ∧
      (∃ e, decode ("T" ++ "\x7bé=z\x7d,N") = .error e ∧ e.offset = 5) ∧
      decode (",".intercalate ["Pé", "GisOn", "N"]) =
        decode (",".intercalate ["Pé", "N", "GisOn"]) := by
  have htype : ObjcType.decode listedType =
      .ok (.object (some "NSObject") ["NSCopying", "NSCoding"]) := by decide +kernel
  have hbad : ObjcType.decodeLeading "\x7bé=z\x7d,N" = .error (.unexpectedChar 4 'z') := by
    decide +kernel
  have hitems : ∀ item ∈ ["Pé"] ++ "GisOn" :: "N" :: [], ',' ∉ item.toList := by decide +kernel
  have hswap : MaySwap "GisOn".toList "N".toList :=
    ⟨by decide +kernel, fun h => absurd h.2 (by simp [ownershipLetters]),
      fun h => absurd h.2 (by simp [letters])⟩
  obtain ⟨e, he, hoffset, -⟩ := decode_list.2.1 _ _ hbad
  refine ⟨decode_list.1 _ _ _ htype (by decide +kernel), ⟨e, he, hoffset⟩, ?_⟩
  exact (decode_list.2.2 ["Pé"] [] "GisOn" "N" hitems hswap (by decide +kernel)
    (by decide +kernel)).1

end PropertyAttributes

end ObjcAtlas
