import Mathlib.Data.List.Forall2
import ObjcAtlas.Proofs.Extraction.Image

set_option autoImplicit false

namespace ObjcAtlas

variable (slide : UInt64)

def RecordName.MovedBy : RecordName → RecordName → Prop
  | .known name, n' => n' = .known name
  | .unknown kind a, n' => n' = .unknown kind (a + slide) ∧
      n'.text = "<" ++ kind.word ++ " " ++ Text.hex (a + slide).toNat ++ ">"

def ClassReference.MovedBy : ClassReference → ClassReference → Prop
  | .none, r' => r' = .none
  | .local name a, r' => ∃ name', r' = .local name' (a + slide) ∧ name.MovedBy slide name'
  | .external name library, r' => r' = .external name library
  | .dangling a, r' => r' = .dangling (a + slide)

def MethodRecord.MovedBy (m m' : MethodRecord) : Prop :=
  m' = { m with implementation := m.implementation.map (· + slide) }

def Warning.MovedBy (w w' : Warning) : Prop := w' = { w with address := w.address + slide }

/-- Equal but for the name, the superclass and the methods, which are moved, and the address. -/
structure ClassRecord.MovedBy (c c' : ClassRecord) : Prop where
  same : c' = { c with
    name := c'.name, address := c.address + slide, superclass := c'.superclass
    instanceMethods := c'.instanceMethods, classMethods := c'.classMethods }
  name : c.name.MovedBy slide c'.name
  superclass : c.superclass.MovedBy slide c'.superclass
  instanceMethods : List.Forall₂ (MethodRecord.MovedBy slide) c.instanceMethods c'.instanceMethods
  classMethods : List.Forall₂ (MethodRecord.MovedBy slide) c.classMethods c'.classMethods

structure CategoryRecord.MovedBy (c c' : CategoryRecord) : Prop where
  same : c' = { c with
    name := c'.name, address := c.address + slide, target := c'.target
    instanceMethods := c'.instanceMethods, classMethods := c'.classMethods }
  name : c.name.MovedBy slide c'.name
  target : c.target.MovedBy slide c'.target
  instanceMethods : List.Forall₂ (MethodRecord.MovedBy slide) c.instanceMethods c'.instanceMethods
  classMethods : List.Forall₂ (MethodRecord.MovedBy slide) c.classMethods c'.classMethods

structure ProtocolRecord.MovedBy (p p' : ProtocolRecord) : Prop where
  same : p' = { p with
    name := p'.name, address := p.address + slide
    instanceMethods := p'.instanceMethods, classMethods := p'.classMethods
    optionalInstanceMethods := p'.optionalInstanceMethods
    optionalClassMethods := p'.optionalClassMethods }
  name : p.name.MovedBy slide p'.name
  instanceMethods : List.Forall₂ (MethodRecord.MovedBy slide) p.instanceMethods p'.instanceMethods
  classMethods : List.Forall₂ (MethodRecord.MovedBy slide) p.classMethods p'.classMethods
  optionalInstanceMethods : List.Forall₂ (MethodRecord.MovedBy slide)
    p.optionalInstanceMethods p'.optionalInstanceMethods
  optionalClassMethods : List.Forall₂ (MethodRecord.MovedBy slide)
    p.optionalClassMethods p'.optionalClassMethods

/-- Records and warnings correspond one to one and in order, all else is equal; `fixed` are the
    warnings in front that belong to no address. -/
structure Metadata.MovedBy (fixed : List Warning) (m m' : Metadata) : Prop where
  same : m' = { m with
    classes := m'.classes, categories := m'.categories, protocols := m'.protocols
    warnings := m'.warnings }
  classes : List.Forall₂ (ClassRecord.MovedBy slide) m.classes m'.classes
  categories : List.Forall₂ (CategoryRecord.MovedBy slide) m.categories m'.categories
  protocols : List.Forall₂ (ProtocolRecord.MovedBy slide) m.protocols m'.protocols
  warnings : ∃ ws ws', m.warnings = fixed ++ ws ∧ m'.warnings = fixed ++ ws' ∧
    List.Forall₂ (Warning.MovedBy slide) ws ws'

variable (base : UInt64)

theorem forall₂_map_map {α β : Type} {R : β → β → Prop} {f g : α → β} (h : ∀ a, R (f a) (g a))
    (as : List α) : List.Forall₂ R (as.map f) (as.map g) := by
  rw [List.forall₂_map_left_iff, List.forall₂_map_right_iff, List.forall₂_same]
  exact fun a _ => h a

theorem RecordName.movedBy_move (n : RecordName) :
    (n.move base).MovedBy slide (n.move (base + slide)) := by
  cases n with
  | known name => rfl
  | unknown kind a =>
    have ha : a + (base + slide) = a + base + slide := (UInt64.add_assoc a base slide).symm
    constructor <;> simp only [move, text, ha]

theorem ClassReference.movedBy_move (r : ClassReference) :
    (r.move base).MovedBy slide (r.move (base + slide)) := by
  cases r with
  | none => rfl
  | «local» name a =>
    refine ⟨name.move (base + slide), ?_, name.movedBy_move slide base⟩
    rw [move, UInt64.add_assoc]
  | external name library => rfl
  | dangling a =>
    change ClassReference.dangling (a + (base + slide)) = .dangling (a + base + slide)
    rw [UInt64.add_assoc]

theorem MethodRecord.movedBy_move (m : MethodRecord) :
    (m.move base).MovedBy slide (m.move (base + slide)) := by
  unfold MovedBy move
  simp [Function.comp_def, UInt64.add_assoc]

theorem Warning.movedBy_move (w : Warning) :
    (w.move base).MovedBy slide (w.move (base + slide)) := by
  unfold MovedBy move
  rw [UInt64.add_assoc]

theorem ClassRecord.movedBy_move (c : ClassRecord) :
    (c.move base).MovedBy slide (c.move (base + slide)) where
  same := by simp only [move, UInt64.add_assoc]
  name := c.name.movedBy_move slide base
  superclass := c.superclass.movedBy_move slide base
  instanceMethods := forall₂_map_map (MethodRecord.movedBy_move slide base) _
  classMethods := forall₂_map_map (MethodRecord.movedBy_move slide base) _

theorem CategoryRecord.movedBy_move (c : CategoryRecord) :
    (c.move base).MovedBy slide (c.move (base + slide)) where
  same := by simp only [move, UInt64.add_assoc]
  name := c.name.movedBy_move slide base
  target := c.target.movedBy_move slide base
  instanceMethods := forall₂_map_map (MethodRecord.movedBy_move slide base) _
  classMethods := forall₂_map_map (MethodRecord.movedBy_move slide base) _

theorem ProtocolRecord.movedBy_move (p : ProtocolRecord) :
    (p.move base).MovedBy slide (p.move (base + slide)) where
  same := by simp only [move, UInt64.add_assoc]
  name := p.name.movedBy_move slide base
  instanceMethods := forall₂_map_map (MethodRecord.movedBy_move slide base) _
  classMethods := forall₂_map_map (MethodRecord.movedBy_move slide base) _
  optionalInstanceMethods := forall₂_map_map (MethodRecord.movedBy_move slide base) _
  optionalClassMethods := forall₂_map_map (MethodRecord.movedBy_move slide base) _

namespace Metadata

theorem reported_movedBy_add (s : Slice) (decodeTypes : Bool) :
    MovedBy slide (s.fixups.errors.map fixupWarning)
      (s.reported { slide := base, decodeTypes })
      (s.reported { slide := base + slide, decodeTypes }) where
  -- A survey sees no slide, and its log is decoded alike for both: only the last moves differ.
  same := rfl
  classes := forall₂_map_map (fun _ => ClassRecord.movedBy_move slide base _) _
  categories := forall₂_map_map (fun _ => CategoryRecord.movedBy_move slide base _) _
  protocols := forall₂_map_map (fun _ => ProtocolRecord.movedBy_move slide base _) _
  warnings := ⟨_, _, rfl, rfl, forall₂_map_map (Warning.movedBy_move slide base) _⟩

/-- What is extracted with a slide is what is extracted without, moved by the slide; one traps if
    the other does. -/
theorem extract_movedBy (s : Slice) (decodeTypes : Bool) :
    Option.Rel (MovedBy slide (s.fixups.errors.map fixupWarning))
      (extract s { slide := 0, decodeTypes }) (extract s { slide, decodeTypes }) := by
  rw [extract_eq, extract_eq]
  cases s.isTrap with
  | true => exact .none
  | false =>
    have h := reported_movedBy_add slide 0 s decodeTypes
    rw [UInt64.zero_add] at h
    exact .some h

end Metadata

end ObjcAtlas
