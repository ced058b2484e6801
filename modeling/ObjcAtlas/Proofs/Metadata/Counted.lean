import Mathlib.Data.Finset.Card
import Mathlib.Data.Finset.Dedup
import ObjcAtlas.Proofs.Survey.DecodedLog

set_option autoImplicit false

namespace ObjcAtlas

inductive Decoded where
  | type (result : Except DecodeError ObjcType)
  | signature (result : Except DecodeError MethodSignature)
  | property (result : Except DecodeError PropertyAttributes)

def Decoded.fresh : EncodingKind × String → Decoded
  | (.type, text) => .type (ObjcType.decode text)
  | (.signature, text) => .signature (MethodSignature.decode text)
  | (.property, text) => .property (PropertyAttributes.decode text)

namespace Decodes

variable {α : Type} {known : Decodes α} {text : String}

theorem lookup_of_mem (h : text ∈ known) (counts : MemoCounts)
    (decode : String → Except DecodeError α) :
    (known.lookup counts decode text).2 = (known, counts.hit) := by
  rw [lookup, Std.TreeMap.getElem?_eq_some_getElem h]

theorem lookup_of_not_mem (h : text ∉ known) (counts : MemoCounts)
    (decode : String → Except DecodeError α) :
    (known.lookup counts decode text).2 = (known.insert text (decode text), counts.miss) := by
  rw [lookup, Std.TreeMap.getElem?_eq_none h]

theorem size_insert_of_not_mem (h : text ∉ known) (result : Except DecodeError α) :
    (known.insert text result).size = known.size + 1 := by
  rw [Std.TreeMap.size_insert]
  exact if_neg h

end Decodes

namespace DecodeMemo

variable {m : DecodeMemo} {asked : List (EncodingKind × String)}

def ask (m : DecodeMemo) : EncodingKind × String → Decoded × DecodeMemo
  | (.type, text) => (m.type text).map .type id
  | (.signature, text) => (m.signature text).map .signature id
  | (.property, text) => (m.property text).map .property id

def askAll (m : DecodeMemo) : List (EncodingKind × String) → List Decoded × DecodeMemo
  | [] => ([], m)
  | x :: xs => ((m.ask x).1 :: ((m.ask x).2.askAll xs).1, ((m.ask x).2.askAll xs).2)

/-- The memo after these questions. -/
structure Counted (m : DecodeMemo) (asked : List (EncodingKind × String)) : Prop where
  right : m.Right
  known : ∀ x, m.Known x ↔ x ∈ asked
  calls : m.counts.hits + m.counts.misses = asked.length
  misses : m.counts.misses = m.size
  size : m.size = asked.toFinset.card

theorem counted_empty : Counted {} [] where
  right := right_empty
  known x := ⟨fun h => absurd h (not_known_empty x), fun h => absurd h List.not_mem_nil⟩
  calls := rfl
  misses := rfl
  size := rfl

theorem ask_eq_decode (m : DecodeMemo) (x : EncodingKind × String) :
    (m.ask x).2 = (x.1.decode m x.2).2 := by
  obtain ⟨kind, text⟩ := x
  cases kind <;> rfl

theorem Right.ask_eq_fresh (h : m.Right) (x : EncodingKind × String) :
    (m.ask x).1 = Decoded.fresh x := by
  obtain ⟨kind, text⟩ := x
  cases kind with
  | type => exact congrArg Decoded.type (h.answers text).1
  | signature => exact congrArg Decoded.signature (h.answers text).2.1
  | property => exact congrArg Decoded.property (h.answers text).2.2

theorem ask_of_known {x : EncodingKind × String} (h : m.Known x) :
    (m.ask x).2.counts = m.counts.hit ∧ (m.ask x).2.size = m.size := by
  obtain ⟨kind, text⟩ := x
  cases kind with
  | type => simp [ask, type, size, Decodes.lookup_of_mem h]
  | signature => simp [ask, signature, size, Decodes.lookup_of_mem h]
  | property => simp [ask, property, size, Decodes.lookup_of_mem h]

theorem ask_of_not_known {x : EncodingKind × String} (h : ¬ m.Known x) :
    (m.ask x).2.counts = m.counts.miss ∧ (m.ask x).2.size = m.size + 1 := by
  obtain ⟨kind, text⟩ := x
  cases kind with
  | type =>
    simp only [ask, type, size, Decodes.lookup_of_not_mem h, Prod.map_snd, id, true_and]
    rw [Decodes.size_insert_of_not_mem h]
    omega
  | signature =>
    simp only [ask, signature, size, Decodes.lookup_of_not_mem h, Prod.map_snd, id, true_and]
    rw [Decodes.size_insert_of_not_mem h]
    omega
  | property =>
    simp only [ask, property, size, Decodes.lookup_of_not_mem h, Prod.map_snd, id, true_and]
    rw [Decodes.size_insert_of_not_mem h]
    omega

theorem Counted.ask (h : m.Counted asked) (x : EncodingKind × String) :
    (m.ask x).2.Counted (asked ++ [x]) := by
  have hright : (m.ask x).2.Right := by
    rw [ask_eq_decode]
    exact x.1.right_decode h.right x.2
  have hknown (y : EncodingKind × String) : (m.ask x).2.Known y ↔ y ∈ asked ++ [x] := by
    rw [ask_eq_decode, x.1.known_decode, h.known, List.mem_append, List.mem_singleton]
  have hcalls := h.calls
  have hmisses := h.misses
  have hsize := h.size
  by_cases hx : m.Known x
  · obtain ⟨hcounts, hsame⟩ := ask_of_known hx
    have hcard : (asked ++ [x]).toFinset = asked.toFinset := by
      rw [List.toFinset_append, Finset.union_eq_left]
      simpa using (h.known x).1 hx
    refine ⟨hright, hknown, ?_, ?_, ?_⟩
    · rw [hcounts, List.length_append, MemoCounts.hit, List.length_singleton]
      dsimp only
      omega
    · rw [hcounts, hsame, ← hmisses]
      rfl
    · rw [hsame, hcard, hsize]
  · obtain ⟨hcounts, hmore⟩ := ask_of_not_known hx
    have hcard : (asked ++ [x]).toFinset.card = asked.toFinset.card + 1 := by
      have hnew : x ∉ asked.toFinset := fun hmem => hx ((h.known x).2 (List.mem_toFinset.1 hmem))
      rw [List.toFinset_append, Finset.union_comm, List.toFinset_cons, List.toFinset_nil,
        insert_empty_eq, Finset.singleton_union, Finset.card_insert_of_notMem hnew]
    refine ⟨hright, hknown, ?_, ?_, ?_⟩
    · rw [hcounts, List.length_append, MemoCounts.miss, List.length_singleton]
      dsimp only
      omega
    · rw [hcounts, hmore, ← hmisses]
      rfl
    · rw [hmore, hcard, hsize]

/-- Any number of questions more, each of which is answered as without a memo. -/
theorem Counted.askAll (h : m.Counted asked) (xs : List (EncodingKind × String)) :
    (m.askAll xs).1 = xs.map Decoded.fresh ∧ (m.askAll xs).2.Counted (asked ++ xs) := by
  induction xs generalizing m asked with
  | nil => exact ⟨rfl, by rwa [List.append_nil]⟩
  | cons x xs ih =>
    obtain ⟨hanswers, hcounted⟩ := ih (h.ask x)
    rw [List.append_assoc] at hcounted
    refine ⟨?_, hcounted⟩
    rw [DecodeMemo.askAll, hanswers, h.right.ask_eq_fresh]
    rfl

/-- A memo that starts empty answers any questions as the decoders do. Its two counts add up to the
    number of questions, and as many of them were misses as there are different encodings, which is
    also what the memo holds. -/
theorem askAll_counts_distinct (asked : List (EncodingKind × String)) :
    let (answers, memo) := ({} : DecodeMemo).askAll asked
    answers = asked.map Decoded.fresh ∧
      memo.counts.hits + memo.counts.misses = asked.length ∧
        memo.counts.misses = memo.size ∧ memo.size = asked.toFinset.card := by
  obtain ⟨hanswers, hcounted⟩ := counted_empty.askAll asked
  exact ⟨hanswers, hcounted.calls, hcounted.misses, hcounted.size⟩

end DecodeMemo

end ObjcAtlas
