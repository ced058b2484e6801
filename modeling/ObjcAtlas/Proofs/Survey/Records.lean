import Mathlib.Data.List.Forall2
import Mathlib.Data.List.Perm.Subperm
import ObjcAtlas.Proofs.Survey.Steady
import ObjcAtlas.Proofs.Survey.Report

set_option autoImplicit false

namespace ObjcAtlas

def RecordKind.list : RecordKind → RuntimeSection
  | .objcClass => .classes
  | .category => .categories
  | .protocol => .protocols

def RecordKind.all : List RecordKind := [.objcClass, .category, .protocol]

def RecordKind.encrypted (kind : RecordKind) (address : UInt64) : Warning :=
  ⟨.encryptedRegion, address, kind.word ++ " record lies in the encrypted range"⟩

namespace Slice

variable (s : Slice)

def listed (kind : RecordKind) : List UInt64 := (kind.list.find? s).elim [] (Survey.slots s)

/-- The record that a slot leads to: its target has data in the file and is not encrypted. -/
def record? (slot : UInt64) : Option UInt64 :=
  (s.followed? slot).filter fun address => !s.isEncryptedAt address

def astray? (slot : UInt64) (what : String) : Option Warning :=
  match s.target slot with
  | .ok .null => none
  | .ok (.address a) => if s.isMapped a then none else
      some ⟨.danglingReference, slot, what ++ " points to unmapped address " ++ Text.hex a.toNat⟩
  | .ok (.symbol t) => some ⟨.unexpectedBind, slot, what ++ " is bound to " ++ t.symbol⟩
  | .error e => some (.ofError slot what e)

/-- The warning for a slot that is not empty and has no record. -/
def loss? (kind : RecordKind) (slot : UInt64) : Option Warning :=
  (s.astray? slot kind.list.name).or
    (((s.followed? slot).filter s.isEncryptedAt).map kind.encrypted)

def losses : List Warning :=
  RecordKind.all.flatMap fun kind => (s.listed kind).filterMap (s.loss? kind)

variable {s}

theorem loss?_eq_none_iff {kind : RecordKind} {slot : UInt64} :
    s.loss? kind slot = none ↔ s.target slot = .ok .null ∨ (s.record? slot).isSome := by
  unfold loss? record? astray? followed?
  cases s.target slot with
  | error e => simp
  | ok value =>
    cases value with
    | null => simp
    | symbol t => simp
    | address a =>
      by_cases hm : s.isMapped a = true
      · cases he : s.isEncryptedAt a <;> simp [hm, he, Option.filter]
      · simp [hm]

theorem astray?_eq_none_or (slot : UInt64) (what : String) :
    s.astray? slot what = none ∨ s.followed? slot = none := by
  unfold astray? followed?
  cases s.target slot with
  | error e => exact .inr rfl
  | ok value =>
    cases value with
    | null => exact .inl rfl
    | symbol t => exact .inr rfl
    | address a =>
      by_cases hm : s.isMapped a = true
      · exact .inl (if_pos hm)
      · exact .inr (if_neg hm)

end Slice

theorem filterMap_or_perm {α β : Type} {f g : α → Option β} (h : ∀ a, f a = none ∨ g a = none)
    (as : List α) :
    (as.filterMap fun a => (f a).or (g a)).Perm (as.filterMap f ++ as.filterMap g) := by
  induction as with
  | nil => exact .refl _
  | cons a as ih =>
    rcases h a with ha | ha
    · cases hg : g a with
      | none => simpa [List.filterMap_cons, ha, hg] using ih
      | some b => simpa [List.filterMap_cons, ha, hg] using (ih.cons b).trans List.perm_middle.symm
    · cases hf : f a with
      | none => simpa [List.filterMap_cons, ha, hf] using ih
      | some b => simpa [List.filterMap_cons, ha, hf] using ih.cons b

namespace Survey

variable {α β : Type} {s : Slice}

/-- What is found in going through a list, item by item, and the events of all items. -/
inductive Collected (R : α → Option β → List Event → Prop) : List α → List β → List Event → Prop
  | nil : Collected R [] [] []
  | cons {a : α} {as : List α} {found : Option β} {rest : List β} {events more : List Event}
      (ha : R a found events) (has : Collected R as rest more) :
      Collected R (a :: as) (found.toList ++ rest) (events ++ more)

theorem leaves_collect {step : α → Survey (Option β)} {R : α → Option β → List Event → Prop}
    (h : ∀ a, Leaves s (step a) (R a)) (as : List α) :
    Leaves s (collect step as) (Collected R as) := by
  induction as with
  | nil => exact leaves_pure .nil
  | cons a as ih =>
    refine (h a).bind fun found events ha => ih.bind fun rest more has => leaves_pure ?_
    rw [List.append_nil]
    exact .cons ha has

theorem leaves_follow (slot : UInt64) (what : String) :
    Leaves s (follow s slot what) fun r events =>
      r = s.followed? slot ∧ events = (s.astray? slot what).toList.map .warning := by
  unfold follow Slice.followed? Slice.astray?
  cases s.target slot with
  | error e => exact leaves_lost (WarningKind.ofError_ne_typeSyntax e)
  | ok value =>
    cases value with
    | null => exact leaves_pure ⟨rfl, rfl⟩
    | symbol t => exact leaves_lost (by exact nofun)
    | address a =>
      by_cases hm : s.isMapped a = true
      · simp only [hm, ↓reduceIte]
        exact leaves_pure ⟨rfl, rfl⟩
      · simp only [hm]
        exact leaves_lost (by exact nofun)

theorem Collected.follow {slots addresses : List UInt64} {what : String} {events : List Event}
    (h : Collected (fun slot r events => r = s.followed? slot ∧
      events = (s.astray? slot what).toList.map .warning) slots addresses events) :
    addresses = slots.filterMap s.followed? ∧
      events = (slots.filterMap fun slot => s.astray? slot what).map .warning := by
  induction h with
  | nil => exact ⟨rfl, rfl⟩
  | @cons slot slots found rest events more ha _ ih =>
    obtain ⟨rfl, rfl⟩ := ha
    obtain ⟨rfl, rfl⟩ := ih
    constructor
    · cases hf : s.followed? slot <;> simp [hf]
    · cases hw : s.astray? slot what <;> simp [hw]

theorem leaves_recordAddresses (kind : RecordKind) :
    Leaves s (recordAddresses s kind.list) fun addresses events =>
      addresses = (s.listed kind).filterMap s.followed? ∧
        events =
          ((s.listed kind).filterMap fun slot => s.astray? slot kind.list.name).map .warning := by
  unfold recordAddresses Slice.listed
  cases kind.list.find? s with
  | none => exact leaves_pure ⟨rfl, rfl⟩
  | some found =>
    exact (leaves_collect (fun slot => leaves_follow slot _) _).imp fun _ _ h => h.follow

def RecordLeft (s : Slice) (kind : RecordKind) (address : UInt64) (P : β → Prop) (r : Option β)
    (events : List Event) : Prop :=
  if s.isEncryptedAt address then r = none ∧ events = [.warning (kind.encrypted address)]
  else ∃ b, r = some b ∧ P b

theorem Collected.records {kind : RecordKind} {R : UInt64 → β → Prop} {addresses : List UInt64}
    {found : List β} {events : List Event}
    (h : Collected (fun a => RecordLeft s kind a (R a)) addresses found events) :
    List.Forall₂ R (addresses.filter fun a => !s.isEncryptedAt a) found ∧
      (((addresses.filter s.isEncryptedAt).map kind.encrypted).map Event.warning).Sublist
        events := by
  induction h with
  | nil => exact ⟨.nil, .refl _⟩
  | @cons address addresses r rest events more ha _ ih =>
    obtain ⟨hfound, hevents⟩ := ih
    unfold RecordLeft at ha
    cases he : s.isEncryptedAt address with
    | true =>
      simp only [he, if_true] at ha
      obtain ⟨rfl, rfl⟩ := ha
      constructor
      · simpa [List.filter_cons, he] using hfound
      · simpa [List.filter_cons, he] using hevents
    | false =>
      simp only [he, Bool.false_eq_true, if_false] at ha
      obtain ⟨b, rfl, hb⟩ := ha
      constructor
      · simpa [List.filter_cons, he] using ⟨hb, hfound⟩
      · simp only [List.filter_cons, he, Bool.false_eq_true, if_false]
        exact hevents.trans (List.sublist_append_right events more)

/-- What one list of records comes to: its records in the order of their slots, and among the
    events one warning for each slot that should have had a record. -/
structure Listing (s : Slice) (kind : RecordKind) (R : UInt64 → β → Prop) (found : List β)
    (events : List Event) : Prop where
  records : List.Forall₂ R ((s.listed kind).filterMap s.record?) found
  losses : (((s.listed kind).filterMap (s.loss? kind)).map Event.warning).Subperm events

theorem leaves_listing {kind : RecordKind} {R : UInt64 → β → Prop}
    {step : UInt64 → Survey (Option β)} (h : ∀ a, Leaves s (step a) (RecordLeft s kind a (R a))) :
    Leaves s (recordAddresses s kind.list >>= collect step) (Listing s kind R) := by
  refine (leaves_recordAddresses kind).bind fun addresses events haddresses => ?_
  obtain ⟨rfl, rfl⟩ := haddresses
  refine (leaves_collect h _).imp fun found more hfound => ?_
  obtain ⟨hrecords, hwarnings⟩ := hfound.records
  constructor
  · have hfilter : ((s.listed kind).filterMap s.followed?).filter (fun a => !s.isEncryptedAt a) =
        (s.listed kind).filterMap s.record? := List.filter_filterMap
    rw [← hfilter]
    exact hrecords
  · -- Slots that lead astray come before those whose records are encrypted.
    have hsplit : ((s.listed kind).filterMap (s.loss? kind)).Perm
        (((s.listed kind).filterMap fun slot => s.astray? slot kind.list.name) ++
          (((s.listed kind).filterMap s.followed?).filter s.isEncryptedAt).map kind.encrypted) := by
      rw [List.filter_filterMap, List.map_filterMap]
      apply filterMap_or_perm
      intro slot
      rcases s.astray?_eq_none_or slot kind.list.name with hslot | hslot
      · exact .inl hslot
      · rw [hslot]
        exact .inr rfl
    have hmap := hsplit.map Event.warning
    rw [List.map_append] at hmap
    exact hmap.subperm.trans ((List.Sublist.refl _).append hwarnings).subperm

theorem leaves_recordAt {step : Survey α} (h : Steady s step) (address : UInt64)
    (kind : RecordKind) :
    Leaves s (recordAt s address kind step)
      (RecordLeft s kind address fun r => r.1 = (step {}).1) := by
  unfold recordAt RecordLeft
  split
  · exact leaves_lost (by exact nofun)
  · obtain ⟨a, ha⟩ := h
    have hfresh : (step {}).1 = a := (ha {} (Notes.sound_empty s)).2.choose_spec.2.2
    rw [hfresh]
    exact ha.watched.bind fun r _ hr => leaves_pure ⟨r, rfl, hr⟩

/-- A record is what a survey finds at its address from the start, whatever else it has seen; it
    may only know more about what is amiss. -/
theorem leaves_recordFrom {kind : RecordKind} {step : Survey α} (h : Steady s step)
    (address : UInt64) (f : α → Bool → β) :
    Leaves s (recordAt s address kind step >>= fun r => pure (r.map fun x => f x.1 x.2))
      (RecordLeft s kind address fun b => ∃ degraded, b = f (step {}).1 degraded) := by
  refine (leaves_recordAt h address kind).bind fun r events hr => leaves_pure ?_
  unfold RecordLeft at hr ⊢
  cases he : s.isEncryptedAt address with
  | true =>
    simp only [he, if_true] at hr ⊢
    obtain ⟨rfl, rfl⟩ := hr
    exact ⟨rfl, rfl⟩
  | false =>
    simp only [he, Bool.false_eq_true, if_false] at hr ⊢
    obtain ⟨⟨a, degraded⟩, rfl, rfl⟩ := hr
    exact ⟨_, rfl, degraded, rfl⟩

theorem classAt_eq (s : Slice) (address : UInt64) :
    classAt s address = recordAt s address .objcClass (classRecord s address) >>= fun r =>
      pure (r.map fun c => { c.1 with degraded := c.2 }) := by
  refine bind_congr fun r => ?_
  rcases r with - | ⟨c, degraded⟩ <;> rfl

theorem categoryAt_eq (s : Slice) (hasClassProperties : Bool) (address : UInt64) :
    categoryAt s hasClassProperties address =
      recordAt s address .category (categoryBody s hasClassProperties address) >>= fun r =>
        pure (r.map fun c => { c.1 with degraded := c.2 }) := by
  refine bind_congr fun r => ?_
  rcases r with - | ⟨c, degraded⟩ <;> rfl

theorem protocolAt_eq (s : Slice) (address : UInt64) :
    protocolAt s address = recordAt s address .protocol (protocolBody s address) >>= fun r =>
      pure (r.map fun p => { p.1 with degraded := p.2 }) := by
  refine bind_congr fun r => ?_
  rcases r with - | ⟨p, degraded⟩ <;> rfl

theorem leaves_classAt (address : UInt64) :
    Leaves s (classAt s address) (RecordLeft s .objcClass address fun c => ∃ degraded,
      c = { (classRecord s address {}).1 with degraded }) := by
  rw [classAt_eq]
  exact leaves_recordFrom (steady_classRecord address) address fun c degraded => { c with degraded }

theorem leaves_categoryAt (hasClassProperties : Bool) (address : UInt64) :
    Leaves s (categoryAt s hasClassProperties address)
      (RecordLeft s .category address fun c => ∃ degraded,
        c = { (categoryBody s hasClassProperties address {}).1 with degraded }) := by
  rw [categoryAt_eq]
  exact leaves_recordFrom (steady_categoryBody hasClassProperties address) address
    fun c degraded => { c with degraded }

theorem leaves_protocolAt (address : UInt64) :
    Leaves s (protocolAt s address) (RecordLeft s .protocol address fun p => ∃ degraded,
      p = { (protocolBody s address {}).1 with degraded }) := by
  rw [protocolAt_eq]
  exact leaves_recordFrom (fixed_protocolBody address).steady address
    fun p degraded => { p with degraded }

structure Surveyed (s : Slice) (found : Findings) (events : List Event) : Prop where
  classes : List.Forall₂ (fun a c => ∃ degraded, c = { (classRecord s a {}).1 with degraded })
    ((s.listed .objcClass).filterMap s.record?) found.classes
  categories : List.Forall₂ (fun a c => ∃ degraded, c =
      { (categoryBody s (found.imageInfo.any ImageInfo.hasCategoryClassProperties) a {}).1 with
        degraded })
    ((s.listed .category).filterMap s.record?) found.categories
  protocols : List.Forall₂ (fun a p => ∃ degraded, p = { (protocolBody s a {}).1 with degraded })
    ((s.listed .protocol).filterMap s.record?) found.protocols
  losses : (s.losses.map Event.warning).Subperm events

theorem fixed_imageInfo : Fixed s (imageInfo s) := by
  unfold imageInfo
  split
  · exact fixed_read _ _ _
  · exact fixed_pure _

theorem image_eq (s : Slice) : image s = do
    let info ← imageInfo s
    let classes ← recordAddresses s .classes >>= collect (classAt s)
    let categories ← recordAddresses s .categories >>=
      collect (categoryAt s (info.any ImageInfo.hasCategoryClassProperties))
    let protocols ← recordAddresses s .protocols >>= collect (protocolAt s)
    return { imageInfo := info, classes, categories, protocols } := by
  simp only [image, bind_assoc]

theorem leaves_image (s : Slice) : Leaves s (image s) (Surveyed s) := by
  obtain ⟨info, hinfo⟩ := (fixed_imageInfo (s := s)).steady
  rw [image_eq]
  refine hinfo.bind fun _ front hi => ?_
  subst hi
  refine (leaves_listing leaves_classAt).bind fun classes l₁ hclasses => ?_
  refine (leaves_listing (leaves_categoryAt _)).bind fun categories l₂ hcategories => ?_
  refine (leaves_listing leaves_protocolAt).bind fun protocols l₃ hprotocols => leaves_pure ?_
  refine ⟨hclasses.records, hcategories.records, hprotocols.records, ?_⟩
  have hlosses := hclasses.losses.append (hcategories.losses.append hprotocols.losses)
  simp only [Slice.losses, RecordKind.all, List.flatMap_cons, List.flatMap_nil, List.append_nil,
    List.map_append]
  exact hlosses.trans (List.sublist_append_right front _).subperm

end Survey

theorem Slice.survey_surveyed (s : Slice) : Survey.Surveyed s s.survey.1 s.survey.2 := by
  obtain ⟨-, events, hlog, -, h⟩ := Survey.leaves_image s {} (Notes.sound_empty s)
  have hevents : s.survey.2 = events := hlog
  rw [hevents]
  exact h

theorem Slice.survey_plain (s : Slice) : ∀ e ∈ s.survey.2, e.IsPlain := by
  obtain ⟨-, events, hlog, hplain, -⟩ := Survey.leaves_image s {} (Notes.sound_empty s)
  have hevents : s.survey.2 = events := hlog
  rw [hevents]
  exact hplain

namespace Slice

variable {s s' : Slice}

theorem fileOffset_congr (hsegments : s'.segments = s.segments) :
    s'.fileOffset = s.fileOffset := by
  funext a
  rw [fileOffset, fileOffset, hsegments]

theorem isMapped_congr (hsegments : s'.segments = s.segments) : s'.isMapped = s.isMapped := by
  funext a
  rw [isMapped, isMapped, fileOffset_congr hsegments]

theorem isEncryptedAt_congr (hcommands : s'.commands = s.commands)
    (hsegments : s'.segments = s.segments) : s'.isEncryptedAt = s.isEncryptedAt := by
  funext a
  simp only [isEncryptedAt, isEncryptedOffset, encryption?, fileOffset_congr hsegments, hcommands]

theorem find?_congr (hsegments : s'.segments = s.segments) (t : RuntimeSection) :
    t.find? s' = t.find? s := by
  simp only [RuntimeSection.find?, findSection?, section?, segment?, hsegments]

theorem record?_congr (hcommands : s'.commands = s.commands) (hsegments : s'.segments = s.segments)
    {slot : UInt64} (htarget : s'.target slot = s.target slot) :
    s'.record? slot = s.record? slot := by
  rw [record?, record?, followed?, followed?, htarget, isMapped_congr hsegments,
    isEncryptedAt_congr hcommands hsegments]

theorem listed_congr (hheader : s'.header = s.header) (hsegments : s'.segments = s.segments)
    (kind : RecordKind) : s'.listed kind = s.listed kind := by
  rw [listed, listed, find?_congr hsegments]
  cases kind.list.find? s with
  | none => rfl
  | some found =>
    change Survey.slots s' found = Survey.slots s found
    simp only [Survey.slots, bits, hheader]

end Slice

end ObjcAtlas
