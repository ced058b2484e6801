import ObjcAtlas.Proofs.Extraction.Image
import ObjcAtlas.Proofs.Survey.Logged

set_option autoImplicit false

/-!
# Records read alone

An extraction remembers the names of classes and the results of its decoders. `run_eq` says that
neither shows in a record: a step finds what it finds with nothing remembered, as long as the survey
finds the same from both. Only the mark that something is amiss may differ.
-/
namespace ObjcAtlas

section

variable {m m' : DecodeMemo}

theorem MethodRecord.decode_congr {r : MethodRecord} (h : ∀ x ∈ r.encodings, m.Agree m' x) :
    r.decode m = r.decode m' := by
  have hown : m.signature? r.encoding = m'.signature? r.encoding := h _ List.mem_cons_self
  have hextended :
      r.extendedEncoding.bind m.signature? = r.extendedEncoding.bind m'.signature? := by
    apply Option.bind_congr
    intro text htext
    exact h (.signature, text) (by simp [encodings, htext])
  rw [decode, decode, hown, hextended]

theorem IvarRecord.decode_congr {r : IvarRecord} (h : ∀ x ∈ r.encodings, m.Agree m' x) :
    r.decode m = r.decode m' := by
  have hown : m.type? r.encoding = m'.type? r.encoding := h _ List.mem_cons_self
  rw [decode, decode, hown]

theorem PropertyRecord.decode_congr {r : PropertyRecord} (h : ∀ x ∈ r.encodings, m.Agree m' x) :
    r.decode m = r.decode m' := by
  have hown : m.property? r.attributes = m'.property? r.attributes := h _ List.mem_cons_self
  rw [decode, decode, hown]

theorem members_decode_congr {ms : List MethodRecord} {ps : List PropertyRecord}
    (h : ∀ x ∈ ms.flatMap (·.encodings) ++ ps.flatMap (·.encodings), m.Agree m' x) :
    (∀ r ∈ ms, r.decode m = r.decode m') ∧ ∀ p ∈ ps, p.decode m = p.decode m' := by
  obtain ⟨hms, hps⟩ := List.forall_mem_append.1 h
  exact ⟨fun r hr => r.decode_congr fun x hx => hms x (List.mem_flatMap_of_mem hr hx),
    fun p hp => p.decode_congr fun x hx => hps x (List.mem_flatMap_of_mem hp hx)⟩

theorem ClassRecord.decode_congr {c : ClassRecord} (h : ∀ x ∈ c.encodings, m.Agree m' x) :
    c.decode m = c.decode m' := by
  rw [encodings, List.append_assoc, List.forall_mem_append] at h
  obtain ⟨hivars, hmembers⟩ := h
  obtain ⟨hms, hps⟩ := members_decode_congr hmembers
  rw [List.forall_mem_append] at hms hps
  have hivar : ∀ i ∈ c.ivars, i.decode m = i.decode m' := fun i hi =>
    i.decode_congr fun x hx => hivars x (List.mem_flatMap_of_mem hi hx)
  rw [decode, decode, List.map_congr_left hivar, List.map_congr_left hms.1,
    List.map_congr_left hms.2, List.map_congr_left hps.1, List.map_congr_left hps.2]

theorem CategoryRecord.decode_congr {c : CategoryRecord} (h : ∀ x ∈ c.encodings, m.Agree m' x) :
    c.decode m = c.decode m' := by
  obtain ⟨hms, hps⟩ := members_decode_congr h
  rw [List.forall_mem_append] at hms hps
  rw [decode, decode, List.map_congr_left hms.1, List.map_congr_left hms.2,
    List.map_congr_left hps.1, List.map_congr_left hps.2]

theorem ProtocolRecord.decode_congr {p : ProtocolRecord} (h : ∀ x ∈ p.encodings, m.Agree m' x) :
    p.decode m = p.decode m' := by
  obtain ⟨hms, hps⟩ := members_decode_congr h
  simp only [List.forall_mem_append] at hms hps
  rw [decode, decode, List.map_congr_left hms.1.1.1, List.map_congr_left hms.1.1.2,
    List.map_congr_left hms.1.2, List.map_congr_left hms.2, List.map_congr_left hps.1,
    List.map_congr_left hps.2]

end

/-- What the kinds of records have in common. -/
class Record (β : Type) where
  decode : DecodeMemo → β → β
  move : UInt64 → β → β
  remark : (Bool → Bool) → β → β
  encodings : β → List (EncodingKind × String)
  decode_congr : ∀ {m m' : DecodeMemo} {b : β},
    (∀ x ∈ encodings b, m.Agree m' x) → decode m b = decode m' b
  decode_remark : ∀ m f b, decode m (remark f b) = remark f (decode m b)
  move_remark : ∀ slide f b, move slide (remark f b) = remark f (move slide b)
  remark_remark : ∀ f g b, remark f (remark g b) = remark (f ∘ g) b
  encodings_remark : ∀ f b, encodings (remark f b) = encodings b

instance : Record ClassRecord where
  decode := ClassRecord.decode
  move := ClassRecord.move
  remark f c := { c with degraded := f c.degraded }
  encodings := ClassRecord.encodings
  decode_congr := ClassRecord.decode_congr
  decode_remark _ _ _ := rfl
  move_remark _ _ _ := rfl
  remark_remark _ _ _ := rfl
  encodings_remark _ _ := rfl

instance : Record CategoryRecord where
  decode := CategoryRecord.decode
  move := CategoryRecord.move
  remark f c := { c with degraded := f c.degraded }
  encodings := CategoryRecord.encodings
  decode_congr := CategoryRecord.decode_congr
  decode_remark _ _ _ := rfl
  move_remark _ _ _ := rfl
  remark_remark _ _ _ := rfl
  encodings_remark _ _ := rfl

instance : Record ProtocolRecord where
  decode := ProtocolRecord.decode
  move := ProtocolRecord.move
  remark f p := { p with degraded := f p.degraded }
  encodings := ProtocolRecord.encodings
  decode_congr := ProtocolRecord.decode_congr
  decode_remark _ _ _ := rfl
  move_remark _ _ _ := rfl
  remark_remark _ _ _ := rfl
  encodings_remark _ _ := rfl

open Record

def unmarked {β : Type} [Record β] : β → β := remark fun _ => false

section

variable {α β : Type} {o : ExtractOptions} {p q : Progress} {x : Survey α} {y : Survey β}

theorem Progress.known_past_of_noted (hp : p.memo.Serves o)
    (hplain : ∀ e ∈ (x p.notes).2.log.toList, e.IsPlain) {e : EncodingKind × String}
    (he : Noted (x p.notes).2.log.toList e) :
    (p.past o x).memo.Known e ↔ o.decodeTypes = true ∧ e.2.isEmpty = false := by
  refine ⟨(serves_past hp hplain).known e, fun ⟨hdecode, htext⟩ => ?_⟩
  obtain ⟨address, hmem⟩ := he.resolve_left (by simp [htext])
  exact covers_past hdecode address e.1 e.2 hmem

theorem Progress.agree_past (hp : p.memo.Serves o) (hq : q.memo.Serves o)
    (hx : ∀ e ∈ (x p.notes).2.log.toList, e.IsPlain)
    (hy : ∀ e ∈ (y q.notes).2.log.toList, e.IsPlain) {e : EncodingKind × String}
    (hex : Noted (x p.notes).2.log.toList e) (hey : Noted (y q.notes).2.log.toList e) :
    (p.past o x).memo.Agree (q.past o y).memo e :=
  (serves_past hp hx).right.agree (serves_past hq hy).right
    ((known_past_of_noted hp hx hex).trans (known_past_of_noted hq hy hey).symm)

end

/-- The progress is that of an extraction of this image: names and memo are right. -/
structure Progress.Sound (p : Progress) (s : Slice) (o : ExtractOptions) : Prop where
  names : p.notes.Sound s
  memo : p.memo.Serves o

theorem Progress.sound_empty (s : Slice) (o : ExtractOptions) : Progress.Sound {} s o :=
  ⟨Notes.sound_empty s, DecodeMemo.serves_empty o⟩

theorem Progress.sound_start (s : Slice) (o : ExtractOptions) : (Progress.start s).Sound s o :=
  ⟨Notes.sound_empty s, DecodeMemo.serves_empty o⟩

namespace Extraction

variable {α β : Type} {s : Slice} {o : ExtractOptions} {p q : Progress}

def found (o : ExtractOptions) (m : Extraction α) (p : Progress) : Option α := (m o p).map (·.1)

theorem sound_past {m : Extraction β} {x : Survey α} {report : DecodeMemo → α → β}
    {P : α → List Event → Prop} (h : ∀ M : DecodeMemo, M.Serves o → Mirrors o M m x (report M))
    (hx : Survey.Leaves s x P) (hp : p.Sound s o) : (p.past o x).Sound s o :=
  ⟨(hx p.notes hp.names).1, (run_of_mirrors h hp.memo).2.1⟩

theorem noted_of_logs {x : Survey α} {encodings : α → List (EncodingKind × String)}
    (h : Survey.Logs s [] x encodings) (hp : p.Sound s o) :
    ∀ e ∈ encodings (x p.notes).1, Noted (x p.notes).2.log.toList e := by
  intro e he
  obtain ⟨-, events, hlog, -, hnoted⟩ := h p.notes hp.names
  obtain rfl : (x p.notes).2.log.toList = events := hlog
  exact (hnoted e he).resolve_left List.not_mem_nil

variable [Record β]

def reportRecord (o : ExtractOptions) (M : DecodeMemo) (b : β) : β := move o.slide (decode M b)

/-- If a survey finds the same record from `p` as from the start, but for the mark, then so does the
    extraction. -/
theorem run_eq {m : Extraction (Option β)} {x : Survey (Option β)}
    (hm : ∀ M : DecodeMemo, M.Serves o → Mirrors o M m x (Option.map (reportRecord o M)))
    (hlogs : Survey.Logs s [] x fun r => r.toList.flatMap encodings) (hp : p.Sound s o)
    {f : Bool → Bool} (hx : (x p.notes).1 = (x {}).1.map (remark f)) :
    let r := (x {}).1.map (reportRecord o (Progress.past o {} x).memo)
    found o m {} = some r ∧ found o m p = some (r.map (remark f)) := by
  have hempty := Progress.sound_empty s o
  obtain ⟨hrun, -, hplain⟩ := run_of_mirrors hm hempty.memo
  obtain ⟨hrun', -, hplain'⟩ := run_of_mirrors hm hp.memo
  have hnoted := noted_of_logs hlogs hempty
  have hnoted' := noted_of_logs hlogs hp
  refine ⟨congrArg (Option.map Prod.fst) hrun, ?_⟩
  rw [found, hrun', Option.map_some, hx]
  cases hb : (x {}).1 with
  | none => rfl
  | some b =>
    have hsame : decode (p.past o x).memo b = decode (Progress.past o {} x).memo b := by
      refine decode_congr fun e he => ?_
      refine Progress.agree_past hp.memo hempty.memo hplain' hplain (hnoted' e ?_) (hnoted e ?_)
      · rw [hx, hb]
        simpa [encodings_remark] using he
      · change e ∈ (x {}).1.toList.flatMap encodings
        rw [hb]
        simpa using he
    simp only [Option.map_some, reportRecord, decode_remark, move_remark, hsame]

end Extraction

namespace Survey

variable {β : Type} [Record β] {s : Slice}

theorem logs_recordFrom {step : Survey β} (h : Logs s [] step encodings) (address : UInt64)
    (kind : RecordKind) :
    Logs s [] (recordAt s address kind step >>= fun r =>
      pure (r.map fun x => remark (fun _ => x.2) x.1)) fun r => r.toList.flatMap encodings := by
  have hrecord : Logs s [] (recordAt s address kind step)
      fun r => r.toList.flatMap fun x => encodings x.1 := by
    unfold recordAt
    split
    · exact (leaves_lost (by exact nofun)).imp fun r _ hr x hx => by simp [hr.1] at hx
    · exact h.watched.bind fun r events hr => leaves_pure (by simpa using hr)
  exact hrecord.bind fun r => logs_pure (by cases r <;> simp [encodings_remark])

theorem logs_classAt (address : UInt64) :
    Logs s [] (classAt s address) fun r => r.toList.flatMap encodings := by
  rw [classAt_eq]
  exact logs_recordFrom (logs_classRecord address) address _

theorem logs_categoryAt (hasClassProperties : Bool) (address : UInt64) :
    Logs s [] (categoryAt s hasClassProperties address) fun r => r.toList.flatMap encodings := by
  rw [categoryAt_eq]
  exact logs_recordFrom (logs_categoryBody hasClassProperties address) address _

theorem logs_protocolAt (address : UInt64) :
    Logs s [] (protocolAt s address) fun r => r.toList.flatMap encodings := by
  rw [protocolAt_eq]
  exact logs_recordFrom (logs_protocolBody address) address _

end Survey

namespace Extraction

/-- An extraction that has read the image info, and then lists and records in any order, may have
    come so far. -/
inductive Reached (s : Slice) (o : ExtractOptions) (info : Option ImageInfo) : Progress → Prop
  | start {p : Progress} (h : imageInfo s o (.start s) = some (info, p)) : Reached s o info p
  | list {p q : Progress} {addresses : List UInt64} (kind : RecordKind) (h : Reached s o info p)
      (hstep : recordAddresses s kind.list o p = some (addresses, q)) : Reached s o info q
  | objcClass {p q : Progress} {r : Option ClassRecord} (address : UInt64) (h : Reached s o info p)
      (hstep : classAt s address o p = some (r, q)) : Reached s o info q
  | category {p q : Progress} {r : Option CategoryRecord} (address : UInt64)
      (h : Reached s o info p)
      (hstep : categoryAt s (info.any ImageInfo.hasCategoryClassProperties) address o p =
        some (r, q)) : Reached s o info q
  | protocol {p q : Progress} {r : Option ProtocolRecord} (address : UInt64)
      (h : Reached s o info p) (hstep : protocolAt s address o p = some (r, q)) : Reached s o info q

variable {α β : Type} {s : Slice} {o : ExtractOptions} {p q : Progress}

theorem sound_of_step {m : Extraction β} {x : Survey α} {report : DecodeMemo → α → β}
    {P : α → List Event → Prop} (hp : p.Sound s o)
    (h : ∀ M : DecodeMemo, M.Serves o → Mirrors o M m x (report M)) (hx : Survey.Leaves s x P)
    {b : β} (hstep : m o p = some (b, q)) : q.Sound s o := by
  rw [(run_of_mirrors h hp.memo).1] at hstep
  obtain ⟨-, rfl⟩ := Prod.mk.inj (Option.some.inj hstep)
  exact sound_past h hx hp

theorem Reached.sound {info : Option ImageInfo} (h : Reached s o info p) : p.Sound s o := by
  induction h with
  | start hstep =>
    have hcut : s.isInfoCut = false := by
      refine Bool.eq_false_iff.2 fun hcut => ?_
      rw [traps_imageInfo o hcut] at hstep
      cases hstep
    obtain ⟨_, hleaves⟩ := (Survey.fixed_imageInfo (s := s)).steady
    exact sound_of_step (Progress.sound_start s o) (fun _ _ => mirrors_imageInfo hcut) hleaves hstep
  | list kind _ hstep ih =>
    have hroom : s.isListHuge kind = false := by
      refine Bool.eq_false_iff.2 fun hhuge => ?_
      rw [traps_recordAddresses o hhuge] at hstep
      cases hstep
    exact sound_of_step ih (fun _ _ => mirrors_recordAddresses hroom)
      (Survey.leaves_recordAddresses kind) hstep
  | objcClass address _ hstep ih =>
    exact sound_of_step ih (fun _ hM => mirrors_classAt s hM address)
      (Survey.leaves_classAt address) hstep
  | category address _ hstep ih =>
    exact sound_of_step ih (fun _ hM => mirrors_categoryAt s hM _ address)
      (Survey.leaves_categoryAt _ address) hstep
  | protocol address _ hstep ih =>
    exact sound_of_step ih (fun _ hM => mirrors_protocolAt s hM address)
      (Survey.leaves_protocolAt address) hstep

end Extraction

end ObjcAtlas
