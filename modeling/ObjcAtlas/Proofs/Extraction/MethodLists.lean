import ObjcAtlas.Proofs.Extraction.Alone
import ObjcAtlas.Proofs.Image.Translation
import ObjcAtlas.Proofs.Survey.Methods

set_option autoImplicit false

namespace ObjcAtlas

/-- What an entry of a method list denotes. -/
structure MethodParts where
  selector : UInt64
  types : UInt64
  implementation : Option UInt64
deriving DecidableEq, Repr

namespace MethodEntry

variable (s : Slice)

/-- The address `distance` bytes from `place`; addresses wrap around. -/
def away (place : UInt64) (distance : Int32) : UInt64 :=
  UInt64.ofInt (place.toNat + distance.toInt)

def targetAddress? (slot : UInt64) : Option UInt64 :=
  match s.target slot with
  | .ok (.address a) => some a
  | _ => none

theorem target_of_targetAddress? {s : Slice} {slot address : UInt64}
    (h : targetAddress? s slot = some address) : s.target slot = .ok (.address address) := by
  unfold targetAddress? at h
  split at h
  next ht => rw [ht, Option.some.inj h]
  next => cases h

/-- Where the selector of an entry with distances stands: there, or where a slot leads to. -/
def selector? (e : MethodEntry) (toName : Int32) : Option UInt64 :=
  if Layout.hasDirectSelectors e.flags then some (away e.address toName)
  else targetAddress? s (away e.address toName)

/-- The places that an entry denotes. Selector and encoding have to be somewhere. A distance of zero
    stands for no implementation, as does a slot without an address. -/
def parts? (e : MethodEntry) : Option MethodParts := do
  if Layout.isRelative e.flags then
    let toName ← (s.i32At e.address).toOption
    let toTypes ← (s.i32At (e.address + 4)).toOption
    let toCode ← (s.i32At (e.address + 8)).toOption
    let selector ← e.selector? s toName
    return {
      selector, types := away (e.address + 4) toTypes
      implementation := if toCode = 0 then none else some (away (e.address + 8) toCode) }
  else
    return {
      selector := ← targetAddress? s e.address
      types := ← targetAddress? s (e.address + s.bits.words 1)
      implementation := targetAddress? s (e.address + s.bits.words 2) }

theorem relative_eq_away (place : UInt64) (distance : Int32) :
    relativeAddress place distance = away place distance := by
  apply UInt64.toNat_inj.1
  have hword : distance.toInt64.toUInt64.toBitVec.toInt = distance.toInt := distance.toInt_toInt64
  rw [BitVec.toInt_eq_toNat_cond] at hword
  change (if 2 * distance.toInt64.toUInt64.toNat < 2 ^ 64
    then (distance.toInt64.toUInt64.toNat : Int)
    else distance.toInt64.toUInt64.toNat - (2 ^ 64 : Nat)) = distance.toInt at hword
  have hplace := place.toNat_lt
  have hlt := distance.toInt64.toUInt64.toNat_lt
  change (place + distance.toInt64.toUInt64).toNat =
    ((place.toNat + distance.toInt) % 2 ^ 64).toNat % 2 ^ 64
  rw [UInt64.toNat_add]
  split at hword <;> omega

end MethodEntry

namespace Slice

variable {s : Slice} {slot address : UInt64}

/-- There is a text at the address: in file data of the image, ended there, and not encrypted. -/
def HasText (s : Slice) (address : UInt64) : Prop :=
  s.isEncryptedAt address = false ∧ (s.cstringAt address).isOk = true

instance (s : Slice) (address : UInt64) : Decidable (s.HasText address) :=
  inferInstanceAs (Decidable (_ ∧ _))

theorem HasText.exists_eq (h : s.HasText address) : ∃ found, s.cstringAt address = .ok found := by
  obtain ⟨-, hread⟩ := h
  cases ht : s.cstringAt address with
  | error e => simp [ht, Except.isOk, Except.toBool] at hread
  | ok found => exact ⟨found, rfl⟩

theorem HasText.text?_eq (h : s.HasText address) :
    s.text? address = some ((s.text? address).getD "") := by
  obtain ⟨found, hfound⟩ := h.exists_eq
  simp [text?, h.1, hfound, Except.toOption]

theorem HasText.textThrough?_eq (h : s.HasText address)
    (hslot : MethodEntry.targetAddress? s slot = some address) :
    s.textThrough? slot = s.text? address := by
  obtain ⟨found, hfound⟩ := h.exists_eq
  obtain ⟨place, hplace, -⟩ := bind_eq_ok.1 hfound
  obtain ⟨offset, hoffset⟩ := fileOffset_of_region hplace
  have hmapped : s.isMapped address = true := by
    simp [isMapped, hoffset, Except.isOk, Except.toBool]
  rw [textThrough?, followed?, MethodEntry.target_of_targetAddress? hslot]
  simp [hmapped]

end Slice

def MethodParts.record (s : Slice) (p : MethodParts) : MethodRecord := {
  name := (s.text? p.selector).getD ""
  encoding := (s.text? p.types).getD ""
  implementation := p.implementation }

namespace MethodEntry

variable {s : Slice} {e : MethodEntry} {p : MethodParts}

theorem pointer?_eq_record (hflags : Layout.isRelative e.flags = false)
    (h : e.parts? s = some p) (hname : s.HasText p.selector) (htypes : s.HasText p.types) :
    e.method? s = some (p.record s) := by
  simp only [parts?, hflags, Bool.false_eq_true, if_false] at h
  obtain ⟨selector, hselector, h⟩ := Option.bind_eq_some_iff.1 h
  obtain ⟨types, htypes', h⟩ := Option.bind_eq_some_iff.1 h
  cases h
  simp only [method?, hflags, Bool.false_eq_true, if_false, pointer?]
  rw [hname.textThrough?_eq hselector, htypes.textThrough?_eq htypes', hname.text?_eq]
  rfl

theorem relative?_eq_record (hflags : Layout.isRelative e.flags = true)
    (h : e.parts? s = some p) (hname : s.HasText p.selector) :
    e.method? s = some (p.record s) := by
  simp only [parts?, hflags, if_true] at h
  obtain ⟨toName, hname', h⟩ := Option.bind_eq_some_iff.1 h
  obtain ⟨toTypes, htypes', h⟩ := Option.bind_eq_some_iff.1 h
  obtain ⟨toCode, hcode', h⟩ := Option.bind_eq_some_iff.1 h
  obtain ⟨selector, hselector, h⟩ := Option.bind_eq_some_iff.1 h
  cases h
  have hdistances : distances s e.address = .ok (toName, toTypes, toCode) := by
    simp only [distances, toOption_eq_some.1 hname', toOption_eq_some.1 htypes',
      toOption_eq_some.1 hcode']
    rfl
  have htext : (if Layout.hasDirectSelectors e.flags then s.text? (away e.address toName)
      else s.textThrough? (away e.address toName)) = s.text? selector := by
    unfold selector? at hselector
    split at hselector
    next hdirect => rw [if_pos hdirect, Option.some.inj hselector]
    next hdirect => rw [if_neg hdirect, hname.textThrough?_eq hselector]
  simp only [method?, hflags, if_true, relative?, hdistances, relative_eq_away, htext]
  rw [hname.text?_eq]
  rfl

theorem method?_eq_record (h : e.parts? s = some p) (hname : s.HasText p.selector)
    (htypes : s.HasText p.types) : e.method? s = some (p.record s) := by
  cases hflags : Layout.isRelative e.flags with
  | false => exact pointer?_eq_record hflags h hname htypes
  | true => exact relative?_eq_record hflags h hname

theorem filterMap_method? {flags : UInt32} {addresses : List UInt64} {parts : List MethodParts}
    (hparts : addresses.map (fun address => parts? s ⟨flags, address⟩) = parts.map some)
    (htexts : ∀ p ∈ parts, s.HasText p.selector ∧ s.HasText p.types) :
    (addresses.map fun address => ⟨flags, address⟩).filterMap (method? s) =
      parts.map (·.record s) := by
  induction addresses generalizing parts with
  | nil =>
    obtain rfl := List.map_eq_nil_iff.1 hparts.symm
    rfl
  | cons address addresses ih =>
    cases parts with
    | nil => cases hparts
    | cons p parts =>
      obtain ⟨hp, hrest⟩ := List.cons.inj hparts
      obtain ⟨⟨hname, htypes⟩, hothers⟩ := List.forall_mem_cons.1 htexts
      rw [List.map_cons, List.filterMap_cons_some (method?_eq_record hp hname htypes),
        ih hrest hothers, List.map_cons]

end MethodEntry

def ListHeader.parts? (h : ListHeader) (s : Slice) (list : UInt64) : List (Option MethodParts) :=
  (h.entries list).map fun address => MethodEntry.parts? s ⟨h.flags, address⟩

namespace Survey

variable {s : Slice} {parts : List MethodParts}

/-- The methods of a list, whatever its form, are those that its entries denote, one each. -/
theorem methodsAt_of_parts {list : UInt64} {h : ListHeader}
    (hheader : s.methodHeader? list = some h) (hparts : h.parts? s list = parts.map some)
    (htexts : ∀ p ∈ parts, s.HasText p.selector ∧ s.HasText p.types) (what : String) :
    Gives (methodsAt s list what) (parts.map (·.record s)) := by
  have hall := methodsAt_gives s list what
  rw [hheader] at hall
  intro n
  rw [hall n]
  exact MethodEntry.filterMap_method? hparts htexts

end Survey

namespace Extraction

variable {s : Slice} {parts : List MethodParts} {o : ExtractOptions} {p p' : Progress}

theorem run_methodsAt {list : UInt64} {h : ListHeader} (hheader : s.methodHeader? list = some h)
    (hparts : h.parts? s list = parts.map some)
    (htexts : ∀ p ∈ parts, s.HasText p.selector ∧ s.HasText p.types) (what : String)
    (hp : p.Sound s o) : methodsAt s list what o p =
      some (parts.map fun m =>
          ((m.record s).decode (p.past o (Survey.methodsAt s list what)).memo).move o.slide,
        p.past o (Survey.methodsAt s list what)) := by
  rw [(run_of_mirrors (fun _ hM => mirrors_methodsAt s hM list what) hp.memo).1,
    Survey.methodsAt_of_parts hheader hparts htexts what, List.map_map]
  rfl

/-- Two method lists whose headers are accepted, one with pointers and one with distances or both of
    one form, have the same methods if their entries denote the same, one by one, with texts that
    can be read: a method for each entry, in order, whatever was read before. -/
theorem methodsAt_eq_of_parts {list list' : UInt64} {h h' : ListHeader}
    (hheader : s.methodHeader? list = some h) (hheader' : s.methodHeader? list' = some h')
    (hparts : h.parts? s list = parts.map some) (hparts' : h'.parts? s list' = parts.map some)
    (htexts : ∀ p ∈ parts, s.HasText p.selector ∧ s.HasText p.types) (what what' : String)
    (hp : p.Sound s o) (hp' : p'.Sound s o) :
    ∃ methods q q', methodsAt s list what o p = some (methods, q) ∧
      methodsAt s list' what' o p' = some (methods, q') ∧
      methods = parts.map (fun m => ((m.record s).decode q.memo).move o.slide) ∧
      methods.length = h.count ∧ h'.count = h.count := by
  have hrun := run_methodsAt hheader hparts htexts what hp
  have hrun' := run_methodsAt hheader' hparts' htexts what' hp'
  have hcount : parts.length = h.count := by
    simpa [ListHeader.parts?, ListHeader.entries] using congrArg List.length hparts.symm
  have hcount' : parts.length = h'.count := by
    simpa [ListHeader.parts?, ListHeader.entries] using congrArg List.length hparts'.symm
  have hlogs (list : UInt64) (what : String) :
      Survey.Logs s [] (Survey.methodsAt s list what) (·.flatMap (·.encodings)) :=
    Survey.logs_methodsAt list what
  have hplain {p : Progress} (hp : p.Sound s o) (list : UInt64) (what : String) :=
    (run_of_mirrors (fun _ hM => mirrors_methodsAt s hM list what) hp.memo).2.2
  have hnoted := noted_of_logs (hlogs list what) hp
  have hnoted' := noted_of_logs (hlogs list' what') hp'
  rw [Survey.methodsAt_of_parts hheader hparts htexts what] at hnoted
  rw [Survey.methodsAt_of_parts hheader' hparts' htexts what'] at hnoted'
  -- Both lists have met the same encodings, so both memos have decoded them.
  have hsame : parts.map (fun m => ((m.record s).decode
      (p'.past o (Survey.methodsAt s list' what')).memo).move o.slide) =
    parts.map (fun m => ((m.record s).decode
      (p.past o (Survey.methodsAt s list what)).memo).move o.slide) := by
    refine List.map_congr_left fun m hm => congrArg (MethodRecord.move o.slide) ?_
    refine MethodRecord.decode_congr fun e he => ?_
    have hmem : e ∈ (parts.map (·.record s)).flatMap (·.encodings) :=
      List.mem_flatMap_of_mem (List.mem_map_of_mem hm) he
    exact Progress.agree_past hp'.memo hp.memo (hplain hp' list' what') (hplain hp list what)
      (hnoted' e hmem) (hnoted e hmem)
  rw [hsame] at hrun'
  refine ⟨_, _, _, hrun, hrun', rfl, ?_, hcount'.symm.trans hcount⟩
  rw [List.length_map, hcount]

/-- Two methods, in a list of pointers at `0x1054` and in one of distances at `0x1074`, which leads
    to its selectors through slots. -/
def twoForms : ByteArray := ⟨#[
  0xCE, 0xFA, 0xED, 0xFE, 12, 0, 0, 0, 0, 0, 0, 0, 2, 0, 0, 0, 1, 0, 0, 0, 0x38, 0, 0, 0, 0, 0, 0,
  0,
  1, 0, 0, 0, 0x38, 0, 0, 0, 0x5F, 0x5F, 0x44, 0x41, 0x54, 0x41, 0, 0, 0, 0, 0, 0, 0, 0, 0, 0, 0,
  0x10, 0, 0, 0xA7, 0, 0, 0, 0, 0, 0, 0, 0xA7, 0, 0, 0, 3, 0, 0, 0, 3, 0, 0, 0, 0, 0, 0, 0, 0, 0, 0,
  0,
  12, 0, 0, 0, 2, 0, 0, 0, 0x9C, 0x10, 0, 0, 0xA0, 0x10, 0, 0, 0, 0x10, 0, 0, 0x9E, 0x10, 0, 0,
  0xA0, 0x10, 0, 0, 4, 0x10, 0, 0,
  12, 0, 0, 0x80, 2, 0, 0, 0, 0x18, 0, 0, 0, 0x20, 0, 0, 0, 0x7C, 0xFF, 0xFF, 0xFF, 0x10, 0, 0, 0,
  0x14, 0, 0, 0, 0x74, 0xFF, 0xFF, 0xFF,
  0x9C, 0x10, 0, 0, 0x9E, 0x10, 0, 0,
  0x61, 0, 0x62, 0, 0x76, 0x38, 0x40, 0x30, 0x3A, 0x34, 0]⟩

def twoFormsParts : List MethodParts :=
  [⟨0x109C, 0x10A0, some 0x1000⟩, ⟨0x109E, 0x10A0, some 0x1004⟩]

theorem methodsAt_twoForms :
    ∃ s methods, Slice.load twoForms none = .ok s ∧
      (s.methodHeader? 0x1054).any (fun h => !Layout.isRelative h.flags) ∧
      (s.methodHeader? 0x1074).any (fun h => Layout.isRelative h.flags) ∧
      found { slide := 0x10 } (methodsAt s 0x1054 "method list") {} = some methods ∧
      found { slide := 0x10 } (methodsAt s 0x1074 "method list") (.start s) = some methods ∧
      methods.length = 2 := by
  have h : (Slice.load twoForms none).map (fun s => decide (
      s.methodHeader? 0x1054 = some ⟨0, 12, 2⟩ ∧ s.methodHeader? 0x1074 = some ⟨0x80000000, 12, 2⟩ ∧
      ListHeader.parts? ⟨0, 12, 2⟩ s 0x1054 = twoFormsParts.map some ∧
      ListHeader.parts? ⟨0x80000000, 12, 2⟩ s 0x1074 = twoFormsParts.map some ∧
      ∀ p ∈ twoFormsParts, s.HasText p.selector ∧ s.HasText p.types)) = .ok true := by
    decide +kernel
  obtain ⟨s, hs, h⟩ := map_eq_ok.1 h
  obtain ⟨hheader, hheader', hparts, hparts', htexts⟩ := of_decide_eq_true h
  obtain ⟨methods, q, q', hrun, hrun', -, hlength, -⟩ := methodsAt_eq_of_parts hheader hheader'
    hparts hparts' htexts "method list" "method list" (Progress.sound_empty s { slide := 0x10 })
    (Progress.sound_start s _)
  refine ⟨s, methods, hs, ?_, ?_, ?_, ?_, hlength⟩
  · rw [hheader]
    decide
  · rw [hheader']
    decide
  · rw [found, hrun]
    rfl
  · rw [found, hrun']
    rfl

end Extraction

end ObjcAtlas
