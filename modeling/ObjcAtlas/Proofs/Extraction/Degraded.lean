import ObjcAtlas.Proofs.Extraction.Alone
import ObjcAtlas.Proofs.Survey.Degraded

set_option autoImplicit false

namespace ObjcAtlas

/-- The class that a slot refers to was looked up before and had no name. -/
def Progress.isNameless (p : Progress) (s : Slice) (slot : UInt64) : Bool :=
  (s.followed? slot).any fun address => p.names[address]? == some none

open Record

namespace Extraction

variable {s : Slice} {o : ExtractOptions} {p : Progress}

theorem found_protocolAt (hp : p.Sound s o) (address : UInt64) :
    ∃ r, found o (protocolAt s address) {} = some r ∧
      found o (protocolAt s address) p = some r := by
  have hx : (Survey.protocolAt s address p.notes).1 =
      (Survey.protocolAt s address {}).1.map (remark id) := by
    rw [Survey.protocolAt_found address hp.names]
    cases (Survey.protocolAt s address {}).1 <;> rfl
  obtain ⟨hstart, hthen⟩ := run_eq (fun _ hM => mirrors_protocolAt s hM address)
    (Survey.logs_protocolAt address) hp hx
  refine ⟨_, hstart, hthen.trans ?_⟩
  cases (Survey.protocolAt s address {}).1 <;> rfl

theorem found_classAt (hp : p.Sound s o) (address : UInt64) :
    ∃ r, found o (classAt s address) {} = some r ∧
      (∀ c ∈ r, c.degraded =
        (Survey.superclassAmiss s address || Survey.classAmiss s address)) ∧
      found o (classAt s address) p = some (r.map fun c => { c with
        degraded := if p.isNameless s (Survey.superclassSlot s address)
          then Survey.classAmiss s address else c.degraded }) := by
  have hfirst := Survey.classAt_found address (Notes.sound_empty s)
  have hx : (Survey.classAt s address p.notes).1 = (Survey.classAt s address {}).1.map (remark
      fun d => if p.isNameless s (Survey.superclassSlot s address)
        then Survey.classAmiss s address else d) := by
    rw [Survey.classAt_found address hp.names, hfirst, Survey.isNameless_empty]
    split <;> rfl
  obtain ⟨hstart, hthen⟩ := run_eq (fun _ hM => mirrors_classAt s hM address)
    (Survey.logs_classAt address) hp hx
  refine ⟨_, hstart, ?_, hthen⟩
  rw [hfirst, Survey.isNameless_empty]
  split
  · exact nofun
  · rintro c ⟨⟩
    rfl

theorem found_categoryAt (hasClassProperties : Bool) (hp : p.Sound s o) (address : UInt64) :
    ∃ r, found o (categoryAt s hasClassProperties address) {} = some r ∧
      (∀ c ∈ r, c.degraded = (Survey.targetAmiss s address ||
        Survey.categoryAmiss s hasClassProperties address)) ∧
      found o (categoryAt s hasClassProperties address) p = some (r.map fun c => { c with
        degraded := if p.isNameless s (Survey.targetSlot s address)
          then Survey.categoryAmiss s hasClassProperties address else c.degraded }) := by
  have hfirst := Survey.categoryAt_found hasClassProperties address (Notes.sound_empty s)
  have hx : (Survey.categoryAt s hasClassProperties address p.notes).1 =
      (Survey.categoryAt s hasClassProperties address {}).1.map (remark
        fun d => if p.isNameless s (Survey.targetSlot s address)
          then Survey.categoryAmiss s hasClassProperties address else d) := by
    rw [Survey.categoryAt_found _ address hp.names, hfirst, Survey.isNameless_empty]
    split <;> rfl
  obtain ⟨hstart, hthen⟩ := run_eq (fun _ hM => mirrors_categoryAt s hM _ address)
    (Survey.logs_categoryAt _ address) hp hx
  refine ⟨_, hstart, ?_, hthen⟩
  rw [hfirst, Survey.isNameless_empty]
  split
  · exact nofun
  · rintro c ⟨⟩
    rfl

/-- However far an extraction has come, a record is found as when it is read first, with the same
    mark, but for one case: where its superclass or its class was looked up before and had no name,
    the mark tells of everything else only. When the record is read first it tells of both. -/
theorem found_of_reached {info : Option ImageInfo} (h : Reached s o info p) (address : UInt64) :
    (∃ r, found o (protocolAt s address) {} = some r ∧
      found o (protocolAt s address) p = some r) ∧
    (∃ r, found o (classAt s address) {} = some r ∧
      (∀ c ∈ r, c.degraded =
        (Survey.superclassAmiss s address || Survey.classAmiss s address)) ∧
      found o (classAt s address) p = some (r.map fun c => { c with
        degraded := if p.isNameless s (Survey.superclassSlot s address)
          then Survey.classAmiss s address else c.degraded })) ∧
    let hasClassProperties := info.any ImageInfo.hasCategoryClassProperties
    ∃ r, found o (categoryAt s hasClassProperties address) {} = some r ∧
      (∀ c ∈ r, c.degraded = (Survey.targetAmiss s address ||
        Survey.categoryAmiss s hasClassProperties address)) ∧
      found o (categoryAt s hasClassProperties address) p = some (r.map fun c => { c with
        degraded := if p.isNameless s (Survey.targetSlot s address)
          then Survey.categoryAmiss s hasClassProperties address else c.degraded }) :=
  ⟨found_protocolAt h.sound address, found_classAt h.sound address,
    found_categoryAt _ h.sound address⟩

/-- One segment with three classes, at `0x1054`, `0x1068` and `0x107C`. The third is the superclass
    of the other two, and its data pointer leads out of the image. -/
def sharedSuperclass : ByteArray := ⟨#[
  0xCE, 0xFA, 0xED, 0xFE, 12, 0, 0, 0, 0, 0, 0, 0, 2, 0, 0, 0, 1, 0, 0, 0, 56, 0, 0, 0, 0, 0, 0, 0,
  1, 0, 0, 0, 56, 0, 0, 0, 0x5F, 0x5F, 0x44, 0x41, 0x54, 0x41, 0, 0, 0, 0, 0, 0, 0, 0, 0, 0,
  0, 0x10, 0, 0, 0x90, 0, 0, 0, 0, 0, 0, 0, 0x90, 0, 0, 0, 3, 0, 0, 0, 3, 0, 0, 0, 0, 0, 0, 0,
  0, 0, 0, 0,
  0, 0, 0, 0, 0x7C, 0x10, 0, 0, 0, 0, 0, 0, 0, 0, 0, 0, 0, 0, 0, 0,
  0, 0, 0, 0, 0x7C, 0x10, 0, 0, 0, 0, 0, 0, 0, 0, 0, 0, 0, 0, 0, 0,
  0, 0, 0, 0, 0, 0, 0, 0, 0, 0, 0, 0, 0, 0, 0, 0, 0, 0x20, 0, 0]⟩

def firstClass (s : Slice) : Extraction (Option ImageInfo) := do
  let info ← imageInfo s
  let _ ← classAt s 0x1054
  return info

theorem reached_firstClass {info : Option ImageInfo}
    (h : firstClass s o (.start s) = some (info, p)) : Reached s o info p := by
  obtain ⟨⟨info', q⟩, hinfo, h⟩ := Option.bind_eq_some_iff.1 h
  obtain ⟨⟨r, q'⟩, hclass, h⟩ := Option.bind_eq_some_iff.1 h
  obtain ⟨rfl, rfl⟩ := Prod.mk.inj (Option.some.inj h)
  exact .objcClass 0x1054 (.start hinfo) hclass

theorem found_of_reached_sharedSuperclass :
    ∃ s info p, Slice.load sharedSuperclass none = .ok s ∧ Reached s {} info p ∧
      p.isNameless s (Survey.superclassSlot s 0x1068) = true ∧
      ∃ r, found {} (classAt s 0x1068) {} = some r ∧ found {} (classAt s 0x1068) p =
        some (r.map fun c => { c with degraded := Survey.classAmiss s 0x1068 }) := by
  have h : (Slice.load sharedSuperclass none).map (fun s =>
      (firstClass s {} (.start s)).map fun r =>
        r.2.isNameless s (Survey.superclassSlot s 0x1068)) = .ok (some true) := by decide +kernel
  obtain ⟨s, hs, h⟩ := map_eq_ok.1 h
  obtain ⟨⟨info, p⟩, hrun, hnameless⟩ := Option.map_eq_some_iff.1 h
  have hreached := reached_firstClass hrun
  obtain ⟨r, hstart, -, hthen⟩ := (found_of_reached hreached 0x1068).2.1
  simp only [hnameless, if_true] at hthen
  exact ⟨s, info, p, hs, hreached, hnameless, r, hstart, hthen⟩

/-- The second class with that superclass is not marked, though it would be if it was read first. -/
theorem degraded_sharedSuperclass :
    ∃ s info p, Slice.load sharedSuperclass none = .ok s ∧ Reached s {} info p ∧
      (found {} (classAt s 0x1068) p).map (·.map (·.degraded)) = some (some false) ∧
        (found {} (classAt s 0x1068) {}).map (·.map (·.degraded)) = some (some true) := by
  have h : (Slice.load sharedSuperclass none).map (fun s =>
      (firstClass s {} (.start s)).map fun r =>
        ((found {} (classAt s 0x1068) r.2).map (·.map (·.degraded)),
          (found {} (classAt s 0x1068) {}).map (·.map (·.degraded)))) =
      .ok (some (some (some false), some (some true))) := by
    decide +kernel
  obtain ⟨s, hs, h⟩ := map_eq_ok.1 h
  obtain ⟨⟨info, p⟩, hrun, hmarks⟩ := Option.map_eq_some_iff.1 h
  obtain ⟨hthen, hstart⟩ := Prod.mk.inj hmarks
  exact ⟨s, info, p, hs, reached_firstClass hrun, hthen, hstart⟩

end Extraction

end ObjcAtlas
