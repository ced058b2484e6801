import ObjcAtlas.Encoding.Printer
import ObjcAtlas.Text.Split

set_option autoImplicit false

/-!
# Canonical type trees

Not every tree can be told from its compact form: a name may hold the character that ends it, and
an object of any class before a bare `?` spells a block. `ObjcType.Canonical` says what a tree has
to keep clear of, in terms of the tree alone. `ObjcType.nesting` counts types inside types;
qualifiers belong to the type that they qualify.
-/
namespace ObjcAtlas.ObjcType

/-- Open angle brackets behind a character; one that closes nothing counts for nothing. -/
def angleDepth (depth : Nat) (c : Char) : Nat :=
  if c = '<' then depth + 1 else if c = '>' then depth - 1 else depth

/-- `=` and the closing character stand only inside angle brackets, and all of these are closed. -/
def Enclosed (closing : Char) : (depth : Nat) → List Char → Prop
  | depth, [] => depth = 0
  | depth, c :: cs =>
    (c = '=' ∨ c = closing → 0 < depth) ∧ Enclosed closing (angleDepth depth c) cs

def TagOk (closing : Char) (name : Option String) : Prop :=
  ∀ s ∈ name, s ≠ "" ∧ s ≠ "?" ∧ Enclosed closing 0 s.toList

structure ObjectOk (className : Option String) (protocols : List String) : Prop where
  className : ∀ s ∈ className, s ≠ "" ∧ '"' ∉ s.toList ∧ '<' ∉ s.toList
  protocols : ∀ s ∈ protocols, s ≠ "" ∧ Text.trim s.toList = s.toList ∧
    ∀ c ∈ s.toList, c ≠ '"' ∧ c ≠ '<' ∧ c ≠ '>' ∧ c ≠ ','

/-- Whether the compact form ends with an object of any class. -/
def endsInId : ObjcType → Bool
  | .pointer t => endsInId t
  | .qualified _ t => endsInId t
  | .object none [] => true
  | _ => false

def endsInBitfield : ObjcType → Bool
  | .pointer t => endsInBitfield t
  | .qualified _ t => endsInBitfield t
  | .bitfield _ => true
  | _ => false

/-- A bare `?` never stands right behind an object of any class. -/
def NoClash : List ObjcType → Prop
  | t :: u :: ts => (endsInId t = true → u ≠ .primitive .unknown) ∧ NoClash (u :: ts)
  | _ => True

theorem NoClash.tail {t : ObjcType} {ts : List ObjcType} (h : NoClash (t :: ts)) : NoClash ts := by
  cases ts with
  | nil => trivial
  | cons u us => exact h.2

/-- Members that all have names, or that all have none. -/
def NamesOk : (named : Bool) → List Member → Prop
  | true, ms => ∀ m ∈ ms, ∃ s, m.name = some s ∧ '"' ∉ s.toList
  | false, ms => (∀ m ∈ ms, m.name = none) ∧ NoClash (ms.map (·.type))

def isQualified : ObjcType → Bool
  | .qualified _ _ => true
  | _ => false

mutual

/-- The compact form determines the tree. -/
def Canonical : ObjcType → Prop
  | .primitive _ => True
  | .pointer t => Canonical t
  | .array _ t => Canonical t
  | .aggregate k n ms =>
    TagOk k.closing n ∧ (NamesOk true ms ∨ NamesOk false ms) ∧ CanonicalMembers ms
  | .incomplete k n => TagOk k.closing n
  | .bitfield _ => True
  | .object c ps => ObjectOk c ps
  | .block => True
  | .blockOf r ts => NoClash (r :: ts) ∧ Canonical r ∧ CanonicalTypes ts
  | .qualified qs t => qs ≠ [] ∧ isQualified t = false ∧ Canonical t
termination_by structural t => t

def CanonicalMember : Member → Prop
  | ⟨_, t⟩ => Canonical t
termination_by structural m => m

def CanonicalMembers : List Member → Prop
  | [] => True
  | m :: ms => CanonicalMember m ∧ CanonicalMembers ms
termination_by structural ms => ms

def CanonicalTypes : List ObjcType → Prop
  | [] => True
  | t :: ts => Canonical t ∧ CanonicalTypes ts
termination_by structural ts => ts

end

mutual

/-- Types on the longest path into the tree, the root among them. -/
def nesting : ObjcType → Nat
  | .pointer t => nesting t + 1
  | .array _ t => nesting t + 1
  | .aggregate _ _ ms => nestingMembers ms + 1
  | .blockOf r ts => max (nesting r) (nestingTypes ts) + 1
  | .qualified _ t => nesting t
  | .primitive _ | .incomplete _ _ | .bitfield _ | .object _ _ | .block => 1
termination_by structural t => t

def nestingMember : Member → Nat
  | ⟨_, t⟩ => nesting t
termination_by structural m => m

def nestingMembers : List Member → Nat
  | [] => 0
  | m :: ms => max (nestingMember m) (nestingMembers ms)
termination_by structural ms => ms

def nestingTypes : List ObjcType → Nat
  | [] => 0
  | t :: ts => max (nesting t) (nestingTypes ts)
termination_by structural ts => ts

end

theorem nesting_pos : (t : ObjcType) → 0 < nesting t
  | .pointer _ | .array _ _ | .aggregate _ _ _ | .blockOf _ _ => by simp [nesting]
  | .primitive _ | .incomplete _ _ | .bitfield _ | .object _ _ | .block => by simp [nesting]
  | .qualified _ t => nesting_pos t

end ObjcAtlas.ObjcType
