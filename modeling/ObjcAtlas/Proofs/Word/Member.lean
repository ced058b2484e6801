import ObjcAtlas.Proofs.Survey.Methods
import ObjcAtlas.Proofs.Word.Sweep

set_option autoImplicit false

namespace ObjcAtlas.Sweep

open Word

variable {α : Type}

/-- Two numbers in a row; both are read before either is looked at. -/
def pair (s : Slice) (address : UInt64) : Option (Except ImageError (UInt32 × UInt32)) := do
  let first ← (Run.u32At s address).run
  let second ← (Run.u32At s (← sum address 4)).run
  let both : Except ImageError (UInt32 × UInt32) := do return (← first, ← second)
  return both

def fits (s : Slice) (list head : UInt64) (length : Nat) : Option Bool := do
  -- The length is a checked product.
  if 2 ^ 64 ≤ length then return false
  return (← (Run.bytesAt s (← sum list head) length).run).isOk

def listHeader (s : Slice) (list least : UInt64) (mask : UInt32) (what : String) :
    Sweep (Option ListHeader) := do
  let words ← pair s list
  let some (first, count) ← plain (Survey.read list what words) | return none
  let header : ListHeader := ⟨first &&& mask, (first &&& ~~~mask).toUInt64, count.toNat⟩
  let some header ← plain (Survey.checkEntrySize list header least what) | return none
  if ← fits s list 8 (header.entrySize.toNat * header.count) then return some header
  else plain (Survey.lost (Survey.warn .outOfBounds list
    (what ++ " of " ++ Text.decimal header.count ++ " entries runs past its segment")))

def entryAt (h : ListHeader) (list : UInt64) (i : Nat) : Option UInt64 := do
  sum (← sum list 8) (← product (UInt64.ofNat i) h.entrySize)

def entries (h : ListHeader) (list : UInt64) (step : UInt64 → Sweep (Option α)) :
    Sweep (List α) :=
  collect (fun i => do step (← entryAt h list i)) (List.range h.count)

def pointerMethod (s : Slice) (entry : UInt64) : Sweep (Option MethodRecord) := do
  let some name ← followText s entry "selector" | return none
  let encoding := (← followText s (← sum entry (s.bits.words 1)) "method types").getD ""
  let implementation := match ← (Run.target s (← sum entry (s.bits.words 2))).run with
    | .ok (.address a) => some a
    | _ => none
  plain (Survey.noteEncoding entry .signature encoding)
  return some { name, encoding, implementation }

def distances (s : Slice) (entry : UInt64) :
    Option (Except ImageError (Int32 × Int32 × Int32)) := do
  let toName ← (Run.i32At s entry).run
  let toTypes ← (Run.i32At s (← sum entry 4)).run
  let toCode ← (Run.i32At s (← sum entry 8)).run
  let all : Except ImageError (Int32 × Int32 × Int32) := do
    return (← toName, ← toTypes, ← toCode)
  return all

/-- The sums with a distance are those modulo `2 ^ 64`. -/
def relativeMethod (s : Slice) (direct : Bool) (entry : UInt64) : Sweep (Option MethodRecord) := do
  let all ← distances s entry
  let some (toName, toTypes, toCode) ← plain (Survey.read entry "relative method" all)
    | return none
  let selector := relativeAddress entry toName
  let some name ← if direct then text s selector "selector"
    else followText s selector "selector reference" | return none
  let encoding :=
    (← text s (relativeAddress (← sum entry 4) toTypes) "method types").getD ""
  let code ← sum entry 8
  let implementation := if toCode = 0 then none else some (relativeAddress code toCode)
  plain (Survey.noteEncoding entry .signature encoding)
  return some { name, encoding, implementation }

def method (s : Slice) (flags : UInt32) (entry : UInt64) : Sweep (Option MethodRecord) :=
  if Layout.isRelative flags then relativeMethod s (Layout.hasDirectSelectors flags) entry
  else pointerMethod s entry

def methodsAt (s : Slice) (list : UInt64) (what : String) : Sweep (List MethodRecord) := do
  let some header ← listHeader s list 0 Layout.methodFlagsMask what | return []
  let least := if Layout.isRelative header.flags then Layout.relativeMethodSize
    else Layout.methodSize s.bits
  let some header ← plain (Survey.checkEntrySize list header least what) | return []
  entries header list (method s header.flags)

def methods (s : Slice) (slot : UInt64) (what : String) : Sweep (List MethodRecord) := do
  let some list ← follow s slot what | return []
  methodsAt s list what

def ivarOffset (s : Slice) (slot : UInt64) : Sweep (Option UInt32) := do
  let some address ← follow s slot "ivar offset" | return none
  read address "ivar offset" (Run.u32At s address)

def ivar (s : Slice) (entry : UInt64) : Sweep (Option IvarRecord) := do
  let offset ← ivarOffset s entry
  let name := (← followText s (← sum entry (s.bits.words 1)) "ivar name").getD ""
  let encoding := (← followText s (← sum entry (s.bits.words 2)) "ivar type").getD ""
  let alignment ← u32 s (← sum entry (s.bits.words 3)) "ivar alignment"
  let size ← u32 s (← sum (← sum entry (s.bits.words 3)) 4) "ivar size"
  plain (Survey.noteEncoding entry .type encoding)
  return some { name, encoding, offset, size, alignment }

def ivars (s : Slice) (slot : UInt64) : Sweep (List IvarRecord) := do
  let some list ← follow s slot "ivar list" | return []
  let some header ← listHeader s list (Layout.ivarSize s.bits) 0 "ivar list" | return []
  entries header list (ivar s)

def property (s : Slice) (entry : UInt64) : Sweep (Option PropertyRecord) := do
  let some name ← followText s entry "property name" | return none
  let attributes := (← followText s (← sum entry (s.bits.words 1)) "property attributes").getD ""
  plain (Survey.noteEncoding entry .property attributes)
  return some { name, attributes }

def properties (s : Slice) (slot : UInt64) (what : String) : Sweep (List PropertyRecord) := do
  let some list ← follow s slot what | return []
  let some header ← listHeader s list (Layout.propertySize s.bits) 0 what | return []
  entries header list (property s)

def protocolName (s : Slice) (entry : UInt64) : Sweep (Option String) := do
  match ← (Run.target s entry).run with
  | .ok (.address a) =>
    followText s (← sum a (ProtocolField.name.offset s.bits)) "protocol name"
  | .ok (.symbol t) => return some (protocolOfSymbol t.symbol)
  | .ok .null => return none
  | .error e => plain (Survey.lost (Survey.warnUnread entry "protocol reference" e))

def protocolNames (s : Slice) (slot : UInt64) : Sweep (List String) := do
  let some list ← follow s slot "protocol list" | return []
  let some count ← read list "protocol list" (Run.wordAt s list) | return []
  if ← fits s list (s.bits.words 1) (count.toNat * s.bits.pointerSize) then
    collect (fun i => do
      protocolName s (← sum (← sum list (s.bits.words 1)) (← words s.bits (UInt64.ofNat i))))
      (List.range count.toNat)
  else
    plain (Survey.warn .outOfBounds list
      ("protocol list of " ++ Text.decimal count.toNat ++ " entries runs past its segment"))
    return []

theorem hasRoom_of_lt {a : UInt64} (h : a.toNat < 2 ^ 56) : HasRoom a := by
  rw [HasRoom]
  omega

theorem listHeader?_bounds {s : Slice} {list least : UInt64} {mask : UInt32} {header : ListHeader}
    (h : s.listHeader? list least mask = some header) :
    header.count < 2 ^ 32 ∧ header.entrySize.toNat * header.count ≤ s.reader.size := by
  obtain ⟨first, -, h⟩ := Option.bind_eq_some_iff.1 h
  obtain ⟨count, -, h⟩ := Option.bind_eq_some_iff.1 h
  dsimp only at h
  split at h
  · rename_i hfits
    obtain rfl := Option.some.inj h
    exact ⟨count.toNat_lt, Run.le_size_of_bytesAt hfits.2⟩
  · exact absurd h nofun

/-- An entry of a list that fits is at a word, and there is room behind it. -/
theorem entryAt_eq {h : ListHeader} {list : UInt64} {i : Nat} (hlist : list.toNat < 2 ^ 56)
    (hcount : h.count < 2 ^ 32) (hfits : h.entrySize.toNat * h.count < 2 ^ 63) (hi : i < h.count) :
    entryAt h list i = some (list + 8 + UInt64.ofNat i * h.entrySize) ∧
      HasRoom (list + 8 + UInt64.ofNat i * h.entrySize) := by
  have hindex : (UInt64.ofNat i).toNat = i := UInt64.toNat_ofNat_of_lt' (show i < 2 ^ 64 by omega)
  have hplace : i * h.entrySize.toNat ≤ h.entrySize.toNat * h.count := by
    rw [Nat.mul_comm]
    exact Nat.mul_le_mul_left _ (by omega)
  have hhead : (list + 8).toNat = list.toNat + 8 := by
    rw [UInt64.toNat_add]
    exact Nat.mod_eq_of_lt (by simp only [UInt64.reduceToNat]; omega)
  have hproduct : (UInt64.ofNat i * h.entrySize).toNat = i * h.entrySize.toNat := by
    rw [UInt64.toNat_mul, hindex]
    exact Nat.mod_eq_of_lt (by omega)
  constructor
  · rw [entryAt, (hasRoom_of_lt hlist).sum_eq (by decide), product_eq (by rw [hindex]; omega)]
    exact Word.sum_eq (by omega)
  · rw [HasRoom, UInt64.toNat_add]
    omega

section

variable {s : Slice} (hs : s.Checked)

include hs

theorem pair_eq {address : UInt64} (h : address.toNat + 4 < 2 ^ 64) :
    pair s address = some (do return (← s.u32At address, ← s.u32At (address + 4))) := by
  have hfirst : (Run.u32At s address).run = _ := Run.runs_u32At hs address
  have hsecond : (Run.u32At s (address + 4)).run = _ := Run.runs_u32At hs (address + 4)
  rw [pair, hfirst, Word.sum_eq h]
  simp only [Option.bind_eq_bind, Option.bind_some, hsecond]
  rfl

theorem fits_eq {list head : UInt64} (hlist : list.toNat < 2 ^ 56) (hhead : head.toNat < 2 ^ 10)
    (length : Nat) : fits s list head length = some (s.bytesAt (list + head) length).isOk := by
  rw [fits]
  by_cases hlength : 2 ^ 64 ≤ length
  · rw [if_pos hlength]
    cases hok : (s.bytesAt (list + head) length).isOk with
    | false => rfl
    | true =>
      have hsize := Run.le_size_of_bytesAt hok
      have hlt := hs.size_lt
      omega
  · have hrun : (Run.bytesAt s (list + head) length).run = _ := Run.runs_bytesAt hs _ _
    rw [if_neg hlength, (hasRoom_of_lt hlist).sum_eq hhead]
    simp only [Option.bind_eq_bind, Option.bind_some, hrun]
    rfl

theorem tracks_listHeader {list : UInt64} (hlist : list.toNat < 2 ^ 56) (least : UInt64)
    (mask : UInt32) (what : String) :
    Tracks (listHeader s list least mask what) (Survey.listHeader s list least mask what) := by
  rw [listHeader, Survey.listHeader]
  refine .step (pair_eq hs (by omega)) ((tracks_plain _).bind fun found => ?_)
  cases found with
  | none => exact tracks_pure none
  | some words =>
    refine (tracks_plain _).bind fun checked => ?_
    cases checked with
    | none => exact tracks_pure none
    | some header =>
      refine .step (fits_eq hs hlist (by decide) _) ?_
      exact .ite (fun _ => tracks_pure _) fun _ => tracks_plain _

theorem tracks_entries {list least : UInt64} {mask : UInt32} {header : ListHeader}
    {step : UInt64 → Sweep (Option α)} {step' : UInt64 → Survey (Option α)}
    (hlist : list.toNat < 2 ^ 56) (h : s.listHeader? list least mask = some header)
    (hstep : ∀ entry, HasRoom entry → Tracks (step entry) (step' entry)) :
    Tracks (entries header list step) (Survey.collect step' (header.entries list)) := by
  obtain ⟨hcount, hfits⟩ := listHeader?_bounds h
  refine .collect_map fun i hi => ?_
  obtain ⟨hentry, hroom⟩ := entryAt_eq hlist hcount (Nat.lt_of_le_of_lt hfits hs.size_lt)
    (List.mem_range.1 hi)
  exact .step hentry (hstep _ hroom)

theorem tracks_pointerMethod {entry : UInt64} (h : HasRoom entry) :
    Tracks (pointerMethod s entry) (Survey.pointerMethod s entry) := by
  rw [pointerMethod, Survey.pointerMethod]
  refine (tracks_followText hs entry _).bind fun found => ?_
  cases found with
  | none => exact tracks_pure none
  | some name =>
    refine .step (h.sum_eq (s.bits.words_lt (by decide))) ?_
    refine (tracks_followText hs _ _).bind fun types => ?_
    refine .step (h.sum_eq (s.bits.words_lt (by decide))) (.step (Run.runs_target hs _) ?_)
    exact (tracks_plain _).bind fun _ => tracks_pure _

theorem distances_eq {entry : UInt64} (h : HasRoom entry) :
    distances s entry = some (MethodEntry.distances s entry) := by
  have hname : (Run.i32At s entry).run = _ := Run.runs_i32At hs entry
  have htypes : (Run.i32At s (entry + 4)).run = _ := Run.runs_i32At hs (entry + 4)
  have hcode : (Run.i32At s (entry + 8)).run = _ := Run.runs_i32At hs (entry + 8)
  rw [distances, hname, h.sum_eq (by decide), h.sum_eq (by decide)]
  simp only [Option.bind_eq_bind, Option.bind_some, htypes, hcode]
  rfl

theorem tracks_relativeMethod {entry : UInt64} (h : HasRoom entry) (direct : Bool) :
    Tracks (relativeMethod s direct entry) (Survey.relativeMethod s direct entry) := by
  rw [relativeMethod, Survey.relativeMethod]
  refine .step (distances_eq hs h) ((tracks_plain _).bind fun found => ?_)
  cases found with
  | none => exact tracks_pure none
  | some all =>
    obtain ⟨toName, toTypes, toCode⟩ := all
    refine .ite_bind (tracks_text hs _ _) (tracks_followText hs _ _) fun found => ?_
    cases found with
    | none => exact tracks_pure none
    | some name =>
      refine .step (h.sum_eq (by decide)) ((tracks_text hs _ _).bind fun types => ?_)
      refine .step (h.sum_eq (by decide)) ((tracks_plain _).bind fun _ => ?_)
      exact tracks_pure _

theorem tracks_method {entry : UInt64} (h : HasRoom entry) (flags : UInt32) :
    Tracks (method s flags entry) (Survey.method s flags entry) :=
  .ite (fun _ => tracks_relativeMethod hs h _) fun _ => tracks_pointerMethod hs h

theorem tracks_methodsAt {list : UInt64} (hlist : list.toNat < 2 ^ 56) (what : String) :
    Tracks (methodsAt s list what) (Survey.methodsAt s list what) := by
  rw [methodsAt, Survey.methodsAt]
  refine (tracks_listHeader hs hlist _ _ what).bind_of_gives
    (Survey.listHeader_gives s list _ _ what) ?_
  cases hheader : s.listHeader? list 0 Layout.methodFlagsMask with
  | none => exact tracks_pure []
  | some header =>
    refine (tracks_plain _).bind_of_gives (Survey.checkEntrySize_gives list _ header what) ?_
    by_cases hle : (if Layout.isRelative header.flags then Layout.relativeMethodSize
        else Layout.methodSize s.bits) ≤ header.entrySize
    · rw [if_pos hle]
      exact tracks_entries hs hlist hheader fun entry hentry => tracks_method hs hentry _
    · rw [if_neg hle]
      exact tracks_pure []

theorem tracks_list {slot : UInt64} {what : String} {f : UInt64 → Sweep (List α)}
    {g : UInt64 → Survey (List α)} (h : ∀ list, list.toNat < 2 ^ 56 → Tracks (f list) (g list)) :
    Tracks
      (do
        let some list ← follow s slot what | return []
        f list)
      (do
        let some list ← Survey.follow s slot what | return []
        g list) := by
  refine (tracks_follow hs slot what).bind_of_gives (Survey.follow_gives s slot what) ?_
  cases hfollowed : s.followed? slot with
  | none => exact tracks_pure []
  | some list => exact h list (Slice.followed?_lt hfollowed)

theorem tracks_methods (slot : UInt64) (what : String) :
    Tracks (methods s slot what) (Survey.methods s slot what) :=
  tracks_list hs fun _ hlist => tracks_methodsAt hs hlist what

theorem tracks_ivarOffset (slot : UInt64) :
    Tracks (ivarOffset s slot) (Survey.ivarOffset s slot) := by
  refine (tracks_follow hs slot _).bind fun found => ?_
  cases found with
  | none => exact tracks_pure none
  | some address => exact tracks_read (Run.runs_u32At hs address) _ _

theorem tracks_ivar {entry : UInt64} (h : HasRoom entry) :
    Tracks (ivar s entry) (Survey.ivar s entry) := by
  have hwords : (s.bits.words 3).toNat ≤ 24 := by cases s.bits <;> decide
  have hlast : (entry + s.bits.words 3).toNat = entry.toNat + (s.bits.words 3).toNat := by
    rw [HasRoom] at h
    rw [UInt64.toNat_add]
    omega
  rw [ivar, Survey.ivar]
  refine (tracks_ivarOffset hs entry).bind fun offset => ?_
  refine .step (h.sum_eq (s.bits.words_lt (by decide))) ?_
  refine (tracks_followText hs _ _).bind fun name => ?_
  refine .step (h.sum_eq (s.bits.words_lt (by decide))) ?_
  refine (tracks_followText hs _ _).bind fun encoding => ?_
  refine .step (h.sum_eq (s.bits.words_lt (by decide))) ?_
  refine (tracks_u32 hs _ _).bind fun alignment => ?_
  refine .step (h.sum_eq (s.bits.words_lt (by decide))) ?_
  rw [HasRoom] at h
  refine .step (Word.sum_eq (by simp only [hlast, UInt64.reduceToNat]; omega)) ?_
  refine (tracks_u32 hs _ _).bind fun size => ?_
  exact (tracks_plain _).bind fun _ => tracks_pure _

theorem tracks_property {entry : UInt64} (h : HasRoom entry) :
    Tracks (property s entry) (Survey.property s entry) := by
  rw [property, Survey.property]
  refine (tracks_followText hs entry _).bind fun found => ?_
  cases found with
  | none => exact tracks_pure none
  | some name =>
    refine .step (h.sum_eq (s.bits.words_lt (by decide))) ?_
    refine (tracks_followText hs _ _).bind fun attributes => ?_
    exact (tracks_plain _).bind fun _ => tracks_pure _

theorem tracks_listOf {least : UInt64} {what : String} {step : UInt64 → Sweep (Option α)}
    {step' : UInt64 → Survey (Option α)} (slot : UInt64)
    (hstep : ∀ entry, HasRoom entry → Tracks (step entry) (step' entry)) :
    Tracks
      (do
        let some list ← follow s slot what | return []
        let some header ← listHeader s list least 0 what | return []
        entries header list step)
      (do
        let some list ← Survey.follow s slot what | return []
        let some header ← Survey.listHeader s list least 0 what | return []
        Survey.collect step' (header.entries list)) := by
  refine tracks_list hs fun list hlist => ?_
  refine (tracks_listHeader hs hlist _ _ what).bind_of_gives
    (Survey.listHeader_gives s list _ _ what) ?_
  cases hheader : s.listHeader? list least 0 with
  | none => exact tracks_pure []
  | some header => exact tracks_entries hs hlist hheader hstep

theorem tracks_ivars (slot : UInt64) : Tracks (ivars s slot) (Survey.ivars s slot) :=
  tracks_listOf hs slot fun _ => tracks_ivar hs

theorem tracks_properties (slot : UInt64) (what : String) :
    Tracks (properties s slot what) (Survey.properties s slot what) :=
  tracks_listOf hs slot fun _ => tracks_property hs

theorem tracks_protocolName (entry : UInt64) :
    Tracks (protocolName s entry) (Survey.protocolName s entry) := by
  rw [protocolName, Survey.protocolName]
  refine .step (Run.runs_target hs entry) ?_
  cases htarget : s.target entry with
  | error e => exact tracks_plain _
  | ok value =>
    cases value with
    | null => exact tracks_pure _
    | symbol t => exact tracks_pure _
    | address a =>
      have hroom := hasRoom_of_lt (Slice.target_lt htarget)
      exact .step (hroom.sum_eq (ProtocolField.offset_lt _ _)) (tracks_followText hs _ _)

theorem tracks_protocolNames (slot : UInt64) :
    Tracks (protocolNames s slot) (Survey.protocolNames s slot) := by
  refine tracks_list hs fun list hlist => ?_
  refine (tracks_read (Run.runs_wordAt hs list) _ _).bind fun found => ?_
  cases found with
  | none => exact tracks_pure []
  | some count =>
    have hword := s.bits.words_lt (n := 1) (by decide)
    refine .step (fits_eq hs hlist hword _) (.ite (fun hfits => ?_) fun _ => ?_)
    · have hroom := Nat.lt_of_le_of_lt (Run.le_size_of_bytesAt hfits) hs.size_lt
      have hhead : (list + s.bits.words 1).toNat = list.toNat + (s.bits.words 1).toNat := by
        rw [UInt64.toNat_add]
        omega
      refine .collect_map fun i hi => ?_
      have hlt := List.mem_range.1 hi
      have hcount := count.toNat_lt
      have hindex : (UInt64.ofNat i).toNat = i :=
        UInt64.toNat_ofNat_of_lt' (show i < 2 ^ 64 by omega)
      have hplace : (UInt64.ofNat i).toNat * s.bits.pointerSize < 2 ^ 63 := by
        rw [hindex]
        exact Nat.lt_of_le_of_lt (Nat.mul_le_mul_right _ (Nat.le_of_lt hlt)) hroom
      refine .step ((hasRoom_of_lt hlist).sum_eq hword) (.step (words_eq (by omega)) ?_)
      refine .step (Word.sum_eq ?_) (tracks_protocolName hs _)
      have hbytes := toNat_words (b := s.bits) (n := UInt64.ofNat i) (by omega)
      omega
    · exact (tracks_plain _).bind fun _ => tracks_pure []

end

end ObjcAtlas.Sweep
