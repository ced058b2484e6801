import Mathlib.Algebra.Ring.Nat
import ObjcAtlas.Proofs.Extraction.Record
import ObjcAtlas.Proofs.Result
import ObjcAtlas.Proofs.Survey.Records

set_option autoImplicit false

namespace ObjcAtlas

namespace Slice

variable (s : Slice)

/-- Whether the second number of the image info is behind the end of memory. -/
def isInfoCut : Bool :=
  (RuntimeSection.imageInfo.find? s).any fun t => 2 ^ 64 ≤ t.address.toNat + 4

/-- Whether a list has more slots than there can be room for. -/
def isListHuge (kind : RecordKind) : Bool :=
  (kind.list.find? s).any fun t => 2 ^ 63 ≤ t.size.toNat / s.bits.pointerSize * 8

def isTrap : Bool := s.isInfoCut || RecordKind.all.any s.isListHuge

variable {s}

theorem isTrap_eq_false : s.isTrap = false ↔
    s.isInfoCut = false ∧ ∀ kind, s.isListHuge kind = false := by
  simp only [isTrap, RecordKind.all, Bool.or_eq_false_iff, List.any_cons, List.any_nil, and_true]
  refine and_congr_right fun _ => ⟨?_, fun h => ⟨h _, h _, h _⟩⟩
  rintro ⟨hclasses, hcategories, hprotocols⟩ kind
  cases kind <;> assumption

theorem isTrap_congr {s' : Slice} (hheader : s'.header = s.header)
    (hsegments : s'.segments = s.segments) : s'.isTrap = s.isTrap := by
  have hhuge : s'.isListHuge = s.isListHuge := by
    funext kind
    rw [isListHuge, isListHuge, find?_congr hsegments, bits, bits, hheader]
  simp only [isTrap, isInfoCut, find?_congr hsegments, hhuge]

end Slice

namespace Extraction

variable {α β : Type} {o : ExtractOptions} {M : DecodeMemo} {s : Slice}

theorem mirrors_imageInfo (h : s.isInfoCut = false) :
    Mirrors o M (imageInfo s) (Survey.imageInfo s) id := by
  rw [Slice.isInfoCut] at h
  unfold imageInfo Survey.imageInfo
  cases hfind : RuntimeSection.imageInfo.find? s with
  | none => exact mirrors_pure rfl
  | some t =>
    rw [hfind, Option.any_some, decide_eq_false_iff_not, Nat.not_le] at h
    have hsum : sum t.address 4 = pure (t.address + 4) := if_pos h
    dsimp only
    rw [hsum]
    exact mirrors_read _ _ _

theorem mirrors_recordAddresses {kind : RecordKind} (h : s.isListHuge kind = false) :
    Mirrors o M (recordAddresses s kind.list) (Survey.recordAddresses s kind.list) id := by
  rw [Slice.isListHuge] at h
  unfold recordAddresses Survey.recordAddresses
  cases hfind : kind.list.find? s with
  | none => exact mirrors_pure rfl
  | some t =>
    rw [hfind, Option.any_some, decide_eq_false_iff_not, Nat.not_le] at h
    have hroom : reserve (t.size.toNat / s.bits.pointerSize) = pure () := if_pos h
    have hslots : Mirrors o M
        (collect (fun i => follow s (t.address + s.bits.words (UInt64.ofNat i)) kind.list.name)
          (List.range (t.size.toNat / s.bits.pointerSize)))
        (Survey.collect (fun slot => Survey.follow s slot kind.list.name) (Survey.slots s t))
        (List.map id) := by
      refine Mirrors.collect_map (fun i => ?_) _
      rw [Option.map_id]
      exact mirrors_follow s _ _
    rw [List.map_id_fun] at hslots
    dsimp only
    rw [hroom]
    exact hslots

theorem mirrors_listing {β : Type} {kind : RecordKind} (h : s.isListHuge kind = false)
    {step : UInt64 → Extraction (Option β)} {step' : UInt64 → Survey (Option α)} {report : α → β}
    (hstep : ∀ a, Mirrors o M (step a) (step' a) (Option.map report)) :
    Mirrors o M (recordAddresses s kind.list >>= collect step)
      (Survey.recordAddresses s kind.list >>= Survey.collect step') (List.map report) :=
  (mirrors_recordAddresses h).bind fun addresses => .collect hstep addresses

theorem image_eq (s : Slice) : image s = do
    let info ← imageInfo s
    let classes ← recordAddresses s .classes >>= collect (classAt s)
    let categories ← recordAddresses s .categories >>=
      collect (categoryAt s (info.any ImageInfo.hasCategoryClassProperties))
    let protocols ← recordAddresses s .protocols >>= collect (protocolAt s)
    return { imageInfo := info, classes, categories, protocols } := by
  simp only [image, bind_assoc]

theorem mirrors_image (hM : M.Serves o) (h : s.isTrap = false) :
    Mirrors o M (image s) (Survey.image s) (·.report M o.slide) := by
  obtain ⟨hinfo, hlists⟩ := Slice.isTrap_eq_false.1 h
  rw [image_eq, Survey.image_eq]
  refine (mirrors_imageInfo hinfo).bind fun info => ?_
  refine (mirrors_listing (hlists .objcClass) (mirrors_classAt s hM)).bind fun classes => ?_
  refine (mirrors_listing (hlists .category) (mirrors_categoryAt s hM _)).bind fun categories => ?_
  exact (mirrors_listing (hlists .protocol) (mirrors_protocolAt s hM)).bind fun protocols =>
    mirrors_pure rfl

theorem traps_bind {m : Extraction α} (h : Traps (m o)) (f : α → Extraction β) :
    Traps ((m >>= f) o) := Traps.bind h fun a => f a o

theorem traps_after {f : α → Extraction β} (h : ∀ a, Traps (f a o)) (m : Extraction α) :
    Traps ((m >>= f) o) := Traps.after h (m o)

variable (o)

theorem traps_imageInfo (h : s.isInfoCut = true) : Traps (imageInfo s o) := by
  obtain ⟨t, hfind, hcut⟩ := (Option.any_eq_true _ _).1 h
  have hsum : sum t.address 4 = trap := if_neg (Nat.not_lt.2 (of_decide_eq_true hcut))
  have htrap : Traps (sum t.address 4 o) := by
    rw [hsum]
    exact fun _ => rfl
  unfold imageInfo
  rw [hfind]
  exact traps_bind htrap _

theorem traps_recordAddresses {kind : RecordKind} (h : s.isListHuge kind = true) :
    Traps (recordAddresses s kind.list o) := by
  obtain ⟨t, hfind, hhuge⟩ := (Option.any_eq_true _ _).1 h
  have hroom : reserve (t.size.toNat / s.bits.pointerSize) = trap :=
    if_neg (Nat.not_lt.2 (of_decide_eq_true hhuge))
  have htrap : Traps (reserve (t.size.toNat / s.bits.pointerSize) o) := by
    rw [hroom]
    exact fun _ => rfl
  unfold recordAddresses
  rw [hfind]
  exact traps_bind htrap _

theorem traps_image (h : s.isTrap = true) : Traps (image s o) := by
  have hlist {kind : RecordKind} {β : Type} (h : s.isListHuge kind = true)
      (step : UInt64 → Extraction (Option β)) :
      Traps ((recordAddresses s kind.list >>= collect step) o) :=
    traps_bind (traps_recordAddresses o h) _
  rw [image_eq]
  simp only [Slice.isTrap, RecordKind.all, Bool.or_eq_true, List.any_cons, List.any_nil,
    Bool.or_false] at h
  rcases h with hinfo | hclasses | hcategories | hprotocols
  · exact traps_bind (traps_imageInfo o hinfo) _
  · exact traps_after (fun _ => traps_bind (hlist hclasses _) _) _
  · exact traps_after (fun _ => traps_after (fun _ => traps_bind (hlist hcategories _) _) _) _
  · exact traps_after (fun _ => traps_after (fun _ => traps_after (fun _ =>
      traps_bind (hlist hprotocols _) _) _) _) _

end Extraction

namespace Metadata

/-- An extraction that does not trap gives what the survey of the image comes to. -/
theorem extract_eq (s : Slice) (options : ExtractOptions) :
    extract s options = if s.isTrap then none else some (s.reported options) := by
  cases htrap : s.isTrap with
  | true =>
    change (Extraction.image s options _).bind _ = none
    rw [Extraction.traps_image options htrap, Option.bind_none]
  | false =>
    have hrun := (Extraction.run_of_mirrors (fun M hM => Extraction.mirrors_image hM htrap)
      (p := .start s) (DecodeMemo.serves_empty options)).1
    have hfound : (Survey.image s (Progress.start s).notes).1 = s.survey.1 := rfl
    have hpast : (Progress.start s).past options (Survey.image s) =
        (Progress.start s).after options s.survey.2 (Survey.image s {}).2.names := rfl
    change (Extraction.image s options _).bind _ = _
    rw [hrun, hfound, hpast]
    simp [Slice.reported, Progress.after, Progress.start, readLog_eq_readOn]

theorem extract_eq_some_iff {s : Slice} {options : ExtractOptions} {m : Metadata} :
    extract s options = some m ↔ s.isTrap = false ∧ s.reported options = m := by
  rw [extract_eq]
  cases s.isTrap <;> simp

end Metadata

end ObjcAtlas
