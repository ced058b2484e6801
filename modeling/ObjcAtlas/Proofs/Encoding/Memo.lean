import ObjcAtlas.Encoding.Memo

set_option autoImplicit false

namespace ObjcAtlas

namespace Decodes

variable {α : Type} {known : Decodes α} {decode : String → Except DecodeError α}

def Right (known : Decodes α) (decode : String → Except DecodeError α) : Prop :=
  ∀ text result, known[text]? = some result → result = decode text

theorem right_empty : Right ∅ decode := by
  intro text result h
  simp at h

theorem Right.getElem?_eq (h : known.Right decode) (text : String) :
    known[text]? = if text ∈ known then some (decode text) else none := by
  split
  next hmem =>
    rw [Std.TreeMap.getElem?_eq_some_getElem hmem]
    exact congrArg some (h text _ (Std.TreeMap.getElem?_eq_some_getElem hmem))
  next hmem => exact Std.TreeMap.getElem?_eq_none hmem

theorem Right.lookup_eq (h : known.Right decode) (counts : MemoCounts) (text : String) :
    (known.lookup counts decode text).1 = decode text := by
  unfold lookup
  split
  next result hresult => exact h text result hresult
  next => rfl

theorem Right.lookup (h : known.Right decode) (counts : MemoCounts) (text : String) :
    (known.lookup counts decode text).2.1.Right decode := by
  unfold Decodes.lookup
  split
  next => exact h
  next =>
    intro other result hother
    rw [Std.TreeMap.getElem?_insert] at hother
    split at hother
    next heq =>
      rw [← Std.LawfulEqOrd.eq_of_compare heq]
      exact (Option.some.inj hother).symm
    next => exact h other result hother

theorem mem_lookup (counts : MemoCounts) (text other : String) :
    other ∈ (known.lookup counts decode text).2.1 ↔ other ∈ known ∨ other = text := by
  unfold lookup
  split
  next result hresult =>
    have hmem : text ∈ known := by
      rw [Std.TreeMap.mem_iff_isSome_getElem?, hresult]
      rfl
    constructor
    · exact .inl
    · rintro (h | rfl)
      · exact h
      · exact hmem
  next =>
    rw [Std.TreeMap.mem_insert, Std.LawfulEqOrd.compare_eq_iff_eq, or_comm, eq_comm]

end Decodes

namespace DecodeMemo

variable {m : DecodeMemo}

/-- Every remembered result is that of its decoder. -/
structure Right (m : DecodeMemo) : Prop where
  types : m.types.Right ObjcType.decode
  signatures : m.signatures.Right MethodSignature.decode
  properties : m.properties.Right PropertyAttributes.decode

theorem right_empty : Right {} := ⟨Decodes.right_empty, Decodes.right_empty, Decodes.right_empty⟩

theorem Right.type (h : m.Right) (text : String) : (m.type text).2.Right :=
  ⟨h.types.lookup m.counts text, h.signatures, h.properties⟩

theorem Right.signature (h : m.Right) (text : String) : (m.signature text).2.Right :=
  ⟨h.types, h.signatures.lookup m.counts text, h.properties⟩

theorem Right.property (h : m.Right) (text : String) : (m.property text).2.Right :=
  ⟨h.types, h.signatures, h.properties.lookup m.counts text⟩

/-- One cannot tell a memo from its decoders. -/
theorem Right.answers (h : m.Right) (text : String) :
    (m.type text).1 = ObjcType.decode text ∧
      (m.signature text).1 = MethodSignature.decode text ∧
      (m.property text).1 = PropertyAttributes.decode text :=
  ⟨h.types.lookup_eq m.counts text, h.signatures.lookup_eq m.counts text,
    h.properties.lookup_eq m.counts text⟩

theorem Right.type?_eq (h : m.Right) (text : String) :
    m.type? text = if text ∈ m.types then (ObjcType.decode text).toOption else none := by
  rw [type?, h.types.getElem?_eq]
  split <;> rfl

theorem Right.signature?_eq (h : m.Right) (text : String) :
    m.signature? text =
      if text ∈ m.signatures then (MethodSignature.decode text).toOption else none := by
  rw [signature?, h.signatures.getElem?_eq]
  split <;> rfl

theorem Right.property?_eq (h : m.Right) (text : String) :
    m.property? text =
      if text ∈ m.properties then (PropertyAttributes.decode text).toOption else none := by
  rw [property?, h.properties.getElem?_eq]
  split <;> rfl

end DecodeMemo

end ObjcAtlas
