import ObjcAtlas.Proofs.Encoding.Memo
import ObjcAtlas.Proofs.Survey.Report

set_option autoImplicit false

namespace ObjcAtlas

namespace DecodeMemo

def Known (m : DecodeMemo) : EncodingKind × String → Prop
  | (.type, text) => text ∈ m.types
  | (.signature, text) => text ∈ m.signatures
  | (.property, text) => text ∈ m.properties

/-- Both memos have the same to say about the encoding. -/
def Agree (m m' : DecodeMemo) : EncodingKind × String → Prop
  | (.type, text) => m.type? text = m'.type? text
  | (.signature, text) => m.signature? text = m'.signature? text
  | (.property, text) => m.property? text = m'.property? text

theorem Right.agree {m m' : DecodeMemo} (h : m.Right) (h' : m'.Right) {x : EncodingKind × String}
    (hx : m.Known x ↔ m'.Known x) : m.Agree m' x := by
  obtain ⟨kind, text⟩ := x
  cases kind with
  | type => simp only [Known] at hx; simp only [Agree, h.type?_eq, h'.type?_eq, hx]
  | signature => simp only [Known] at hx; simp only [Agree, h.signature?_eq, h'.signature?_eq, hx]
  | property => simp only [Known] at hx; simp only [Agree, h.property?_eq, h'.property?_eq, hx]

theorem not_known_empty (x : EncodingKind × String) : ¬ Known {} x := by
  obtain ⟨kind, text⟩ := x
  cases kind <;> exact Std.TreeMap.not_mem_emptyc

end DecodeMemo

theorem EncodingKind.right_decode {memo : DecodeMemo} (h : memo.Right) (text : String)
    (kind : EncodingKind) : (kind.decode memo text).2.Right := by
  cases kind with
  | type => exact h.type text
  | signature => exact h.signature text
  | property => exact h.property text

theorem EncodingKind.known_decode (memo : DecodeMemo) (text : String) (kind : EncodingKind)
    (x : EncodingKind × String) :
    (kind.decode memo text).2.Known x ↔ memo.Known x ∨ x = (kind, text) := by
  obtain ⟨kind', text'⟩ := x
  by_cases hkind : kind' = kind
  · subst hkind
    simp only [Prod.mk.injEq, true_and]
    cases kind' <;> exact Decodes.mem_lookup ..
  · simp only [Prod.mk.injEq, hkind, false_and, or_false]
    cases kind <;> cases kind' <;> simp_all [decode, DecodeMemo.Known, DecodeMemo.type,
      DecodeMemo.signature, DecodeMemo.property]

theorem right_decodeLog (log : List Event) {memo : DecodeMemo} (h : memo.Right) :
    (decodeLog log memo).2.Right := by
  induction log generalizing memo with
  | nil => exact h
  | cons event log ih =>
    cases event with
    | warning w => exact ih h
    | encoding address kind text => exact ih (kind.right_decode h text)

theorem known_decodeLog (log : List Event) (memo : DecodeMemo) (x : EncodingKind × String) :
    (decodeLog log memo).2.Known x ↔
      memo.Known x ∨ ∃ address, .encoding address x.1 x.2 ∈ log := by
  induction log generalizing memo with
  | nil => simp [decodeLog]
  | cons event log ih =>
    cases event with
    | warning w => simpa [decodeLog] using ih memo
    | encoding address kind text =>
      simp only [decodeLog, ih, kind.known_decode, List.mem_cons, Event.encoding.injEq,
        Prod.ext_iff]
      grind

theorem plainWarnings_append (log more : List Event) :
    plainWarnings (log ++ more) = plainWarnings log ++ plainWarnings more :=
  List.filterMap_append

theorem decodeLog_append (log more : List Event) (memo : DecodeMemo) :
    decodeLog (log ++ more) memo =
      ((decodeLog log memo).1 ++ (decodeLog more (decodeLog log memo).2).1,
        (decodeLog more (decodeLog log memo).2).2) := by
  induction log generalizing memo with
  | nil => rfl
  | cons event log ih =>
    cases event with
    | warning w => simp [decodeLog, ih]
    | encoding address kind text => simp [decodeLog, ih]

end ObjcAtlas
