import ObjcAtlas.Encoding.Code

set_option autoImplicit false

namespace ObjcAtlas

inductive AggregateKind where
  | struct | union
deriving DecidableEq, Repr

namespace AggregateKind

def opening : AggregateKind → Char
  | .struct => '\x7b'
  | .union => '('

def closing : AggregateKind → Char
  | .struct => '\x7d'
  | .union => ')'

def keyword : AggregateKind → String
  | .struct => "struct"
  | .union => "union"

end AggregateKind

mutual

inductive ObjcType where
  | primitive (p : Primitive)
  | pointer (target : ObjcType)
  | array (length : UInt64) (element : ObjcType)
  /-- A struct or union with its members; no name when it is anonymous. -/
  | aggregate (kind : AggregateKind) (name : Option String) (members : List Member)
  /-- A struct or union whose members were not recorded. -/
  | incomplete (kind : AggregateKind) (name : Option String)
  | bitfield (width : UInt32)
  | object (className : Option String) (protocols : List String)
  /-- A block whose signature was not recorded. -/
  | block
  | blockOf (returns : ObjcType) (arguments : List ObjcType)
  | qualified (qualifiers : List Qualifier) (inner : ObjcType)

structure Member where
  name : Option String
  type : ObjcType

end

namespace ObjcType

mutual

def beq : ObjcType → ObjcType → Bool
  | .primitive p, .primitive p' => p == p'
  | .pointer t, .pointer t' => beq t t'
  | .array n t, .array n' t' => n == n' && beq t t'
  | .aggregate k n ms, .aggregate k' n' ms' => k == k' && n == n' && beqMembers ms ms'
  | .incomplete k n, .incomplete k' n' => k == k' && n == n'
  | .bitfield w, .bitfield w' => w == w'
  | .object c ps, .object c' ps' => c == c' && ps == ps'
  | .block, .block => true
  | .blockOf r ts, .blockOf r' ts' => beq r r' && beqTypes ts ts'
  | .qualified qs t, .qualified qs' t' => qs == qs' && beq t t'
  | _, _ => false
termination_by structural t => t

def beqMember : Member → Member → Bool
  | ⟨n, t⟩, ⟨n', t'⟩ => n == n' && beq t t'
termination_by structural m => m

def beqMembers : List Member → List Member → Bool
  | [], [] => true
  | m :: ms, m' :: ms' => beqMember m m' && beqMembers ms ms'
  | _, _ => false
termination_by structural ms => ms

def beqTypes : List ObjcType → List ObjcType → Bool
  | [], [] => true
  | t :: ts, t' :: ts' => beq t t' && beqTypes ts ts'
  | _, _ => false
termination_by structural ts => ts

end

mutual

theorem beq_iff : (s t : ObjcType) → (beq s t = true ↔ s = t)
  | .primitive _, t => by cases t <;> simp [beq]
  | .pointer s, t => by cases t <;> simp [beq, beq_iff s]
  | .array _ s, t => by cases t <;> simp [beq, beq_iff s]
  | .aggregate _ _ ms, t => by cases t <;> simp [beq, beqMembers_iff ms, and_assoc]
  | .incomplete _ _, t => by cases t <;> simp [beq]
  | .bitfield _, t => by cases t <;> simp [beq]
  | .object _ _, t => by cases t <;> simp [beq]
  | .block, t => by cases t <;> simp [beq]
  | .blockOf r ts, t => by cases t <;> simp [beq, beq_iff r, beqTypes_iff ts]
  | .qualified _ s, t => by cases t <;> simp [beq, beq_iff s]

theorem beqMember_iff : (m n : Member) → (beqMember m n = true ↔ m = n)
  | ⟨_, t⟩, ⟨_, _⟩ => by simp [beqMember, beq_iff t]

theorem beqMembers_iff : (ms ns : List Member) → (beqMembers ms ns = true ↔ ms = ns)
  | [], ns => by cases ns <;> simp [beqMembers]
  | m :: ms, ns => by cases ns <;> simp [beqMembers, beqMember_iff m, beqMembers_iff ms]

theorem beqTypes_iff : (ss ts : List ObjcType) → (beqTypes ss ts = true ↔ ss = ts)
  | [], ts => by cases ts <;> simp [beqTypes]
  | s :: ss, ts => by cases ts <;> simp [beqTypes, beq_iff s, beqTypes_iff ss]

end

instance : DecidableEq ObjcType := fun s t => decidable_of_iff _ (beq_iff s t)

instance : DecidableEq Member := fun m n => decidable_of_iff _ (beqMember_iff m n)

instance : Inhabited ObjcType := ⟨.primitive .unknown⟩

def id : ObjcType := .object none []

def unqualified : ObjcType → ObjcType
  | .qualified _ inner => unqualified inner
  | t => t

def isObject : ObjcType → Bool
  | .object _ _ | .block | .blockOf _ _ | .primitive .classRef => true
  | .qualified _ inner => isObject inner
  | _ => false

/-- For a struct or union, whether its members are known. -/
def isComplete? : ObjcType → Option Bool
  | .aggregate .. => some true
  | .incomplete .. => some false
  | _ => none

end ObjcType

end ObjcAtlas
