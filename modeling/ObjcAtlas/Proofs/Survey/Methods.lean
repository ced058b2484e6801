import ObjcAtlas.Proofs.Survey.Value

set_option autoImplicit false

namespace ObjcAtlas

structure MethodEntry where
  flags : UInt32
  address : UInt64
deriving DecidableEq, Repr

namespace MethodEntry

variable (s : Slice)

def pointer? (entry : UInt64) : Option MethodRecord :=
  (s.textThrough? entry).map fun name => {
    name
    encoding := (s.textThrough? (entry + s.bits.words 1)).getD ""
    implementation := match s.target (entry + s.bits.words 2) with
      | .ok (.address a) => some a
      | _ => none }

def distances (entry : UInt64) : Except ImageError (Int32 × Int32 × Int32) := do
  return (← s.i32At entry, ← s.i32At (entry + 4), ← s.i32At (entry + 8))

def relative? (direct : Bool) (entry : UInt64) : Option MethodRecord :=
  match distances s entry with
  | .error _ => none
  | .ok (toName, toTypes, toCode) =>
    let selector := relativeAddress entry toName
    (if direct then s.text? selector else s.textThrough? selector).map fun name => {
      name
      encoding := (s.text? (relativeAddress (entry + 4) toTypes)).getD ""
      implementation := if toCode = 0 then none else some (relativeAddress (entry + 8) toCode) }

def method? (e : MethodEntry) : Option MethodRecord :=
  if Layout.isRelative e.flags then relative? s (Layout.hasDirectSelectors e.flags) e.address
  else pointer? s e.address

theorem extendedEncoding_of_method? {s : Slice} {e : MethodEntry} {m : MethodRecord}
    (h : e.method? s = some m) : m.extendedEncoding = none := by
  unfold method? at h
  split at h
  · unfold relative? at h
    split at h
    · exact absurd h nofun
    · obtain ⟨name, -, rfl⟩ := Option.map_eq_some_iff.1 h
      rfl
  · unfold pointer? at h
    obtain ⟨name, -, rfl⟩ := Option.map_eq_some_iff.1 h
    rfl

end MethodEntry

namespace Slice

variable (s : Slice)

/-- The header of the list at an address, unless it is refused: it has to be there, its entries
    have to be large enough, and all of them have to be there too. -/
def listHeader? (list least : UInt64) (mask : UInt32) : Option ListHeader := do
  let first ← (s.u32At list).toOption
  let count ← (s.u32At (list + 4)).toOption
  let h : ListHeader := ⟨first &&& mask, (first &&& ~~~mask).toUInt64, count.toNat⟩
  if least ≤ h.entrySize ∧ (s.bytesAt (list + 8) (h.entrySize.toNat * h.count)).isOk then some h
  else none

def methodHeader? (list : UInt64) : Option ListHeader :=
  (s.listHeader? list 0 Layout.methodFlagsMask).filter fun h =>
    (if Layout.isRelative h.flags then Layout.relativeMethodSize
      else Layout.methodSize s.bits) ≤ h.entrySize

/-- The entries of the method list that a slot leads to; a list that is missing or refused has
    none. -/
def methodEntries (slot : UInt64) : List MethodEntry :=
  match s.followed? slot with
  | none => []
  | some list =>
    match s.methodHeader? list with
    | none => []
    | some h => (h.entries list).map fun address => ⟨h.flags, address⟩

end Slice

namespace Survey

variable (s : Slice)

theorem pointerMethod_gives (entry : UInt64) :
    Gives (pointerMethod s entry) (MethodEntry.pointer? s entry) := by
  refine Gives.bind (followText_gives s entry _) ?_
  rw [MethodEntry.pointer?]
  cases s.textThrough? entry with
  | none => exact gives_pure _
  | some name =>
    refine Gives.bind (followText_gives s _ _) ?_
    exact Ensures.bind (ensures_any _) fun _ _ => gives_pure _

theorem relativeMethod_gives (direct : Bool) (entry : UInt64) :
    Gives (relativeMethod s direct entry) (MethodEntry.relative? s direct entry) := by
  refine Gives.bind (read_gives entry _ (MethodEntry.distances s entry)) ?_
  rw [MethodEntry.relative?]
  cases MethodEntry.distances s entry with
  | error e => exact gives_pure _
  | ok d =>
    obtain ⟨toName, toTypes, toCode⟩ := d
    cases direct with
    | true =>
      refine Gives.bind (text_gives s _ _) ?_
      simp only [if_true]
      cases s.text? (relativeAddress entry toName) with
      | none => exact gives_pure _
      | some name =>
        refine Gives.bind (text_gives s _ _) ?_
        exact Ensures.bind (ensures_any _) fun _ _ => gives_pure _
    | false =>
      refine Gives.bind (followText_gives s _ _) ?_
      simp only [Bool.false_eq_true, if_false]
      cases s.textThrough? (relativeAddress entry toName) with
      | none => exact gives_pure _
      | some name =>
        refine Gives.bind (text_gives s _ _) ?_
        exact Ensures.bind (ensures_any _) fun _ _ => gives_pure _

theorem method_gives (e : MethodEntry) : Gives (method s e.flags e.address) (e.method? s) := by
  unfold method MethodEntry.method?
  split
  · exact relativeMethod_gives s _ _
  · exact pointerMethod_gives s _

theorem checkEntrySize_gives (list least : UInt64) (h : ListHeader) (what : String) :
    Gives (checkEntrySize list h least what) (if least ≤ h.entrySize then some h else none) := by
  unfold checkEntrySize
  by_cases hlt : h.entrySize < least
  · rw [if_pos hlt, if_neg (UInt64.not_le.2 hlt)]
    exact lost_gives _
  · rw [if_neg hlt, if_pos (UInt64.not_lt.1 hlt)]
    exact gives_pure _

theorem listHeader_gives (list least : UInt64) (mask : UInt32) (what : String) :
    Gives (listHeader s list least mask what) (s.listHeader? list least mask) := by
  refine Gives.bind (read_gives list what _) ?_
  rw [Slice.listHeader?]
  cases s.u32At list with
  | error e => exact gives_pure _
  | ok first =>
    cases s.u32At (list + 4) with
    | error e => exact gives_pure _
    | ok count =>
      refine Gives.bind (checkEntrySize_gives list least _ what) ?_
      simp only [Except.toOption, Option.bind_eq_bind, Option.bind_some]
      by_cases hle : least ≤ (first &&& ~~~mask).toUInt64
      · rw [if_pos hle]
        simp only [hle, true_and]
        split
        · exact gives_pure _
        · exact lost_gives _
      · rw [if_neg hle, if_neg fun h => hle h.1]
        exact gives_pure _

theorem methodsAt_gives (list : UInt64) (what : String) :
    Gives (methodsAt s list what) (match s.methodHeader? list with
      | none => []
      | some h => ((h.entries list).map fun address => ⟨h.flags, address⟩).filterMap
        (MethodEntry.method? s)) := by
  refine Gives.bind (listHeader_gives s list 0 Layout.methodFlagsMask what) ?_
  rw [Slice.methodHeader?]
  cases s.listHeader? list 0 Layout.methodFlagsMask with
  | none => exact gives_pure _
  | some h =>
    refine Gives.bind (checkEntrySize_gives list _ h what) ?_
    simp only [Option.filter_some, decide_eq_true_eq]
    by_cases hle : (if Layout.isRelative h.flags then Layout.relativeMethodSize
        else Layout.methodSize s.bits) ≤ h.entrySize
    · simp only [if_pos hle, List.filterMap_map]
      exact collect_gives (fun address => method_gives s ⟨h.flags, address⟩) _
    · simp only [if_neg hle]
      exact gives_pure _

/-- A survey of a method list keeps the methods that can be read, in order. -/
theorem methods_gives (slot : UInt64) (what : String) :
    Gives (methods s slot what) ((s.methodEntries slot).filterMap (MethodEntry.method? s)) := by
  refine Gives.bind (follow_gives s slot what) ?_
  rw [Slice.methodEntries]
  cases s.followed? slot with
  | none => exact gives_pure _
  | some list =>
    have h := methodsAt_gives s list what
    simp only
    cases hh : s.methodHeader? list with
    | none =>
      rw [hh] at h
      exact h
    | some header =>
      rw [hh] at h
      exact h

end Survey

end ObjcAtlas
