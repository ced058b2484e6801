import ObjcAtlas.Proofs.Extraction.Image

set_option autoImplicit false

namespace ObjcAtlas

def MethodRecord.undecoded (m : MethodRecord) : MethodRecord := { m with signature := none }

def IvarRecord.undecoded (i : IvarRecord) : IvarRecord := { i with type := none }

def PropertyRecord.undecoded (p : PropertyRecord) : PropertyRecord := { p with decoded := none }

def ClassRecord.undecoded (c : ClassRecord) : ClassRecord :=
  { c with
    ivars := c.ivars.map (·.undecoded)
    instanceMethods := c.instanceMethods.map (·.undecoded)
    classMethods := c.classMethods.map (·.undecoded)
    properties := c.properties.map (·.undecoded)
    classProperties := c.classProperties.map (·.undecoded) }

def CategoryRecord.undecoded (c : CategoryRecord) : CategoryRecord :=
  { c with
    instanceMethods := c.instanceMethods.map (·.undecoded)
    classMethods := c.classMethods.map (·.undecoded)
    properties := c.properties.map (·.undecoded)
    classProperties := c.classProperties.map (·.undecoded) }

def ProtocolRecord.undecoded (p : ProtocolRecord) : ProtocolRecord :=
  { p with
    instanceMethods := p.instanceMethods.map (·.undecoded)
    classMethods := p.classMethods.map (·.undecoded)
    optionalInstanceMethods := p.optionalInstanceMethods.map (·.undecoded)
    optionalClassMethods := p.optionalClassMethods.map (·.undecoded)
    properties := p.properties.map (·.undecoded)
    classProperties := p.classProperties.map (·.undecoded) }

def Metadata.undecoded (m : Metadata) : Metadata :=
  { m with
    classes := m.classes.map (·.undecoded)
    categories := m.categories.map (·.undecoded)
    protocols := m.protocols.map (·.undecoded)
    warnings := m.warnings.filter (·.isPlain)
    counts := {} }

theorem MethodRecord.decode_empty (m : MethodRecord) : m.decode {} = m.undecoded := by
  have hnone (text : String) : ({} : DecodeMemo).signature? text = none := by
    simp [DecodeMemo.signature?]
  cases h : m.extendedEncoding <;> simp [decode, undecoded, hnone, h]

theorem IvarRecord.decode_empty (i : IvarRecord) : i.decode {} = i.undecoded := by
  simp [decode, undecoded, DecodeMemo.type?]

theorem PropertyRecord.decode_empty (p : PropertyRecord) : p.decode {} = p.undecoded := by
  simp [decode, undecoded, DecodeMemo.property?]

section

variable (memo : DecodeMemo) (slide : UInt64)

theorem ClassRecord.undecoded_move_decode (c : ClassRecord) :
    ((c.decode memo).move slide).undecoded = (c.decode {}).move slide := by
  simp only [undecoded, move, decode, List.map_map, Function.comp_def, MethodRecord.decode_empty,
    IvarRecord.decode_empty, PropertyRecord.decode_empty]
  rfl

theorem CategoryRecord.undecoded_move_decode (c : CategoryRecord) :
    ((c.decode memo).move slide).undecoded = (c.decode {}).move slide := by
  simp only [undecoded, move, decode, List.map_map, Function.comp_def, MethodRecord.decode_empty,
    PropertyRecord.decode_empty]
  rfl

theorem ProtocolRecord.undecoded_move_decode (p : ProtocolRecord) :
    ((p.decode memo).move slide).undecoded = (p.decode {}).move slide := by
  simp only [undecoded, move, decode, List.map_map, Function.comp_def, MethodRecord.decode_empty,
    PropertyRecord.decode_empty]
  rfl

end

theorem filter_map_move (slide : UInt64) (ws : List Warning) :
    (ws.map (·.move slide)).filter (·.isPlain) = (ws.filter (·.isPlain)).map (·.move slide) := by
  rw [List.filter_map]
  rfl

theorem filter_fixupWarning (errors : List ImageError) :
    (errors.map fixupWarning).filter (·.isPlain) = errors.map fixupWarning := by
  rw [List.filter_map]
  exact congrArg (List.map fixupWarning) (List.filter_eq_self.2 fun _ _ => rfl)

namespace Metadata

theorem reported_eq_undecoded (s : Slice) (slide : UInt64) :
    s.reported { slide, decodeTypes := false } =
      (s.reported { slide, decodeTypes := true }).undecoded := by
  have hwarnings := filter_decodeLog s.survey_plain {}
  simp only [Slice.reported, Findings.report, undecoded, readLog, if_true, Bool.false_eq_true,
    if_false, List.map_map, Function.comp_def, ClassRecord.undecoded_move_decode,
    CategoryRecord.undecoded_move_decode, ProtocolRecord.undecoded_move_decode, List.filter_append,
    filter_fixupWarning, filter_map_move, hwarnings]

theorem extract_eq_undecoded (s : Slice) (slide : UInt64) :
    extract s { slide, decodeTypes := false } =
      (extract s { slide, decodeTypes := true }).map undecoded := by
  rw [extract_eq, extract_eq, reported_eq_undecoded]
  cases s.isTrap <;> rfl

/-- Without decoding, an extraction gives what it gives with decoding but for the decoded parts, the
    warnings about syntax and the counts; one traps if the other does. Which records are in part
    unread is told alike, though it is told by the warnings in one list with those about syntax. -/
theorem extract_without_decoding (s : Slice) (slide : UInt64) :
    extract s { slide, decodeTypes := false } =
        (extract s { slide, decodeTypes := true }).map undecoded ∧
      (extract s { slide, decodeTypes := false }).map (·.classes.map (·.degraded)) =
        (extract s { slide, decodeTypes := true }).map (·.classes.map (·.degraded)) ∧
      (extract s { slide, decodeTypes := false }).map (·.categories.map (·.degraded)) =
        (extract s { slide, decodeTypes := true }).map (·.categories.map (·.degraded)) ∧
      (extract s { slide, decodeTypes := false }).map (·.protocols.map (·.degraded)) =
        (extract s { slide, decodeTypes := true }).map (·.protocols.map (·.degraded)) := by
  rw [extract_eq_undecoded]
  refine ⟨rfl, ?_, ?_, ?_⟩
  · simp only [Option.map_map, undecoded, List.map_map, Function.comp_def, ClassRecord.undecoded]
  · simp only [Option.map_map, undecoded, List.map_map, Function.comp_def,
      CategoryRecord.undecoded]
  · simp only [Option.map_map, undecoded, List.map_map, Function.comp_def,
      ProtocolRecord.undecoded]

end Metadata

end ObjcAtlas
