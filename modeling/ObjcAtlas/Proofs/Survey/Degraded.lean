import ObjcAtlas.Proofs.Result
import ObjcAtlas.Proofs.Survey.Records

set_option autoImplicit false

namespace ObjcAtlas

/-- The class that a slot refers to was looked up before and had no name. -/
def Notes.isNameless (n : Notes) (s : Slice) (slot : UInt64) : Bool :=
  (s.followed? slot).any fun address => n.names[address]? == some none

namespace Survey

variable {α β : Type} {s : Slice} {n : Notes}

def warned (step : Survey α) : Bool := (watched step {}).1.2

/-- From the notes `n` the step finds `a` and leaves sound notes; `amiss` tells whether it leaves a
    warning. -/
structure Runs (s : Slice) (step : Survey α) (n : Notes) (a : α) (amiss : Bool) : Prop where
  found : (step n).1 = a
  sound : (step n).2.Sound s
  events : ∃ events, (step n).2.log.toList = n.log.toList ++ events ∧
    events.any Event.isWarning = amiss

theorem Runs.bind {step : Survey α} {f : α → Survey β} {a : α} {b : β} {amiss amiss' : Bool}
    (h : Runs s step n a amiss) (k : Runs s (f a) (step n).2 b amiss') :
    Runs s (step >>= f) n b (amiss || amiss') := by
  have hrun : (step >>= f) n = f a (step n).2 := by
    rw [← h.found]
    rfl
  obtain ⟨events, hlog, hevents⟩ := h.events
  obtain ⟨more, hmore, hwarned⟩ := k.events
  refine ⟨by rw [hrun, k.found], by rw [hrun]; exact k.sound, events ++ more, ?_, ?_⟩
  · rw [hrun, hmore, hlog, List.append_assoc]
  · rw [List.any_append, hevents, hwarned]

theorem Runs.of_eq {step step' : Survey α} {a : α} {amiss : Bool} (h : Runs s step' n a amiss)
    (he : step n = step' n) : Runs s step n a amiss :=
  ⟨he ▸ h.found, he ▸ h.sound, he ▸ h.events⟩

theorem Fixed.runs {step : Survey α} (h : Fixed s step) (hn : n.Sound s) :
    Runs s step n (step {}).1 (warned step) := by
  obtain ⟨a, events, ha⟩ := h
  obtain ⟨hsound, _, hlog, -, hfound, rfl⟩ := ha n hn
  obtain ⟨-, _, hlog', -, hfound', rfl⟩ := ha {} (Notes.sound_empty s)
  refine ⟨hfound.trans hfound'.symm, hsound, _, hlog, ?_⟩
  change _ = (step {}).2.log.any Event.isWarning
  rw [← Array.any_toList, hlog']
  rfl

theorem runs_pure (a : α) (hn : n.Sound s) : Runs s (pure a) n a false :=
  ⟨rfl, hn, [], (List.append_nil _).symm, rfl⟩

theorem Runs.bind_pure {step : Survey α} {f : α → Survey β} {a : α} {b : β} {amiss : Bool}
    (h : Runs s step n a amiss) (hf : f a = pure b) : Runs s (step >>= f) n b amiss := by
  have hb : Runs s (f a) (step n).2 b false := by
    rw [hf]
    exact runs_pure b h.sound
  have hboth := h.bind hb
  rwa [Bool.or_false] at hboth

theorem Runs.watched_eq {step : Survey α} {a : α} {amiss : Bool}
    (h : Runs s step { n with log := #[] } a amiss) : (watched step n).1 = (a, amiss) := by
  obtain ⟨events, hlog, hevents⟩ := h.events
  have hwarned : (step { n with log := #[] }).2.log.any Event.isWarning = amiss := by
    rw [← Array.any_toList, hlog]
    exact hevents
  exact Prod.ext h.found hwarned

theorem Runs.warned_eq {step : Survey α} {a : α} {amiss : Bool} (h : Runs s step {} a amiss) :
    warned step = amiss :=
  congrArg Prod.snd (Runs.watched_eq (n := {}) h)

theorem follow_eq_pure {slot address : UInt64} (h : s.followed? slot = some address)
    (what : String) : follow s slot what = pure (some address) := by
  unfold Slice.followed? at h
  unfold follow
  split at h
  next a ha =>
    split at h
    next hm =>
      cases h
      rw [ha]
      exact if_pos hm
    next => cases h
  next => cases h

theorem text_eq_pure {address : UInt64} {found : String} (h : s.text? address = some found)
    (what : String) : text s address what = pure (some found) := by
  unfold Slice.text? at h
  unfold text
  split at h
  next => cases h
  next he =>
    rw [if_neg he]
    cases hread : s.cstringAt address with
    | error e =>
      rw [hread] at h
      cases h
    | ok found =>
      rw [hread] at h
      cases h
      rfl

theorem readClassName_eq_pure {address : UInt64} {name : String}
    (h : s.className? address = some name) : readClassName s address = pure (some name) := by
  obtain ⟨word, hword, hname⟩ := Option.bind_eq_some_iff.1 h
  obtain ⟨place, hplace, htext⟩ := Option.bind_eq_some_iff.1 hname
  rw [readClassName, classWord, follow_eq_pure hword, pure_bind]
  change followText s _ _ = _
  rw [followText, follow_eq_pure hplace, pure_bind]
  exact text_eq_pure htext _

theorem runs_className (address : UInt64) (hn : n.Sound s) :
    Runs s (className s address) n (s.className? address)
      (n.names[address]?.isNone && warned (readClassName s address)) := by
  have happly := className_apply s address n
  cases hname : n.names[address]? with
  | some name =>
    rw [hname] at happly
    have hknown : Runs s (pure name) n (s.className? address) false :=
      ⟨hn address name hname, hn, [], (List.append_nil _).symm, rfl⟩
    exact hknown.of_eq happly
  | none =>
    rw [hname] at happly
    have hread := (fixed_readClassName address).runs hn
    rw [readClassName_gives s address {}] at hread
    -- The name is remembered as it was read, which leaves nothing in the log.
    have hremember : Runs s (rememberName address (s.className? address))
        (readClassName s address n).2 () false := by
      obtain ⟨_, _, hr⟩ := @fixed_rememberName s address _ rfl
      exact ⟨rfl, (hr _ hread.sound).1, [], (List.append_nil _).symm, rfl⟩
    have hagain := hremember.bind_pure (f := fun _ => pure (s.className? address)) rfl
    have hboth := (hread.bind hagain).of_eq happly
    rwa [Bool.or_false] at hboth

theorem classReference_of_followed {slot address : UInt64} (h : s.followed? slot = some address)
    (what : String) : classReference s slot what = className s address >>= fun name =>
      pure (.local (.ofOption .objcClass address name) address) := by
  unfold Slice.followed? at h
  unfold classReference
  split at h
  next a ha =>
    split at h
    next hm =>
      cases h
      rw [ha]
      exact if_pos hm
    next => cases h
  next => cases h

theorem fixed_classReference {slot : UInt64} (h : s.followed? slot = none) (what : String) :
    Fixed s (classReference s slot what) := by
  unfold Slice.followed? at h
  unfold classReference
  split
  · exact fixed_pure _
  · exact fixed_pure _
  next a ha =>
    rw [ha] at h
    have hm : ¬ s.isMapped a = true := by
      intro hm
      simp [hm] at h
    rw [if_neg hm]
    exact (fixed_warn (by decide) _ _).bind fun _ => fixed_pure _
  · exact (fixed_warnUnread _ _ _).bind fun _ => fixed_pure _

/-- A reference warns as it does from the start, unless its class is remembered to have no name. -/
theorem runs_classReference (slot : UInt64) (what : String) (hn : n.Sound s) :
    Runs s (classReference s slot what) n (classReference s slot what {}).1
      (warned (classReference s slot what) && !n.isNameless s slot) := by
  cases hslot : s.followed? slot with
  | none =>
    have hquiet : n.isNameless s slot = false := by rw [Notes.isNameless, hslot]; rfl
    rw [hquiet, Bool.not_false, Bool.and_true]
    exact (fixed_classReference hslot what).runs hn
  | some address =>
    have hrun {n : Notes} (hn : n.Sound s) : Runs s (classReference s slot what) n
        (.local (.ofOption .objcClass address (s.className? address)) address)
          (n.names[address]?.isNone && warned (readClassName s address)) := by
      rw [classReference_of_followed hslot]
      exact (runs_className address hn).bind_pure rfl
    have hstart := hrun (Notes.sound_empty s)
    have hwarned : warned (classReference s slot what) = warned (readClassName s address) := by
      rw [hstart.warned_eq]
      simp
    have hnameless : n.isNameless s slot = (n.names[address]? == some none) := by
      rw [Notes.isNameless, hslot]
      rfl
    have hn' := hrun hn
    rw [hstart.found, hwarned, hnameless]
    cases hname : n.names[address]? with
    | none => simpa [hname] using hn'
    | some name =>
      cases name with
      | none => simpa [hname] using hn'
      | some name =>
        -- A name that is known could be read, so there is nothing to warn of.
        have hquiet : warned (readClassName s address) = false := by
          rw [readClassName_eq_pure (hn address _ hname).symm]
          exact (runs_pure (some name) (Notes.sound_empty s)).warned_eq
        simpa [hname, hquiet] using hn'

def KeepsNames (step : Survey α) : Prop := ∀ n, (step n).2.names = n.names

theorem KeepsNames.bind {step : Survey α} {f : α → Survey β} (h : KeepsNames step)
    (hf : ∀ a, KeepsNames (f a)) : KeepsNames (step >>= f) :=
  fun n => (hf _ _).trans (h n)

theorem keepsNames_follow (slot : UInt64) (what : String) : KeepsNames (follow s slot what) := by
  unfold follow
  split
  · exact fun _ => rfl
  · split <;> exact fun _ => rfl
  · exact fun _ => rfl
  · exact fun _ => rfl

theorem keepsNames_text (address : UInt64) (what : String) : KeepsNames (text s address what) := by
  unfold text
  split
  · exact fun _ => rfl
  · cases s.cstringAt address <;> exact fun _ => rfl

theorem keepsNames_followText (slot : UInt64) (what : String) :
    KeepsNames (followText s slot what) := by
  refine (keepsNames_follow slot what).bind fun r => ?_
  cases r with
  | none => exact fun _ => rfl
  | some address => exact keepsNames_text address what

def superclassSlot (s : Slice) (address : UInt64) : UInt64 :=
  address + ClassField.superclass.offset s.bits

def superclassAmiss (s : Slice) (address : UInt64) : Bool :=
  warned (classReference s (superclassSlot s address) "superclass")

/-- Whether reading anything else of a class leaves a warning. -/
def classAmiss (s : Slice) (address : UInt64) : Bool :=
  warned (classOwn s address (classReference s (superclassSlot s address) "superclass" {}).1)

theorem watched_classRecord (address : UInt64) (hn : n.Sound s) :
    (watched (classRecord s address) n).1 = ((classRecord s address {}).1,
      superclassAmiss s address && !n.isNameless s (superclassSlot s address) ||
        classAmiss s address) := by
  have hrun {n : Notes} (hn : n.Sound s) : Runs s (classRecord s address) n
      (classOwn s address (classReference s (superclassSlot s address) "superclass" {}).1 {}).1
        (superclassAmiss s address && !n.isNameless s (superclassSlot s address) ||
          classAmiss s address) := by
    have href := runs_classReference (superclassSlot s address) "superclass" hn
    exact href.bind ((fixed_classOwn address _).runs href.sound)
  rw [(hrun (Notes.sound_empty s)).found]
  exact Runs.watched_eq (hrun (n := { n with log := #[] }) hn)

def targetSlot (s : Slice) (address : UInt64) : UInt64 :=
  address + CategoryField.target.offset s.bits

def targetAmiss (s : Slice) (address : UInt64) : Bool :=
  warned (classReference s (targetSlot s address) "category class")

def categoryName (s : Slice) (address : UInt64) : Survey (Option String) :=
  followText s (address + CategoryField.name.offset s.bits) "category name"

def categoryAmiss (s : Slice) (hasClassProperties : Bool) (address : UInt64) : Bool :=
  warned (categoryName s address) || warned (categoryOwn s hasClassProperties address
    (categoryName s address {}).1 (classReference s (targetSlot s address) "category class" {}).1)

theorem watched_categoryBody (hasClassProperties : Bool) (address : UInt64) (hn : n.Sound s) :
    (watched (categoryBody s hasClassProperties address) n).1 =
      ((categoryBody s hasClassProperties address {}).1,
        targetAmiss s address && !n.isNameless s (targetSlot s address) ||
          categoryAmiss s hasClassProperties address) := by
  have hrun {n : Notes} (hn : n.Sound s) : Runs s (categoryBody s hasClassProperties address) n
      (categoryOwn s hasClassProperties address (categoryName s address {}).1
        (classReference s (targetSlot s address) "category class" {}).1 {}).1
        (targetAmiss s address && !n.isNameless s (targetSlot s address) ||
          categoryAmiss s hasClassProperties address) := by
    have hname : Runs s (categoryName s address) n (categoryName s address {}).1
        (warned (categoryName s address)) := (fixed_followText _ _).runs hn
    have href := runs_classReference (targetSlot s address) "category class" hname.sound
    have hsame : (categoryName s address n).2.isNameless s (targetSlot s address) =
        n.isNameless s (targetSlot s address) := by
      rw [Notes.isNameless, Notes.isNameless, categoryName, keepsNames_followText]
    have hown := (fixed_categoryOwn hasClassProperties address (categoryName s address {}).1
      (classReference s (targetSlot s address) "category class" {}).1).runs href.sound
    have hall := hname.bind (f := fun name => classReference s (targetSlot s address)
      "category class" >>= categoryOwn s hasClassProperties address name) (href.bind hown)
    rw [hsame, Bool.or_left_comm] at hall
    exact hall
  rw [(hrun (Notes.sound_empty s)).found]
  exact Runs.watched_eq (hrun (n := { n with log := #[] }) hn)

theorem recordAt_found (address : UInt64) (kind : RecordKind) (step : Survey α)
    (f : α × Bool → β) (n : Notes) :
    ((recordAt s address kind step >>= fun r => pure (r.map f)) n).1 =
      if s.isEncryptedAt address then none else some (f (watched step n).1) := by
  unfold recordAt
  split <;> rfl

theorem isNameless_empty (s : Slice) (slot : UInt64) :
    ({} : Notes).isNameless s slot = false := by
  rw [Notes.isNameless]
  cases s.followed? slot with
  | none => rfl
  | some address => simp

/-- The mark that tells only of what is not remembered, beside the one from the start. -/
theorem amiss_eq (reference nameless own : Bool) :
    (reference && !nameless || own) = if nameless then own else reference || own := by
  cases nameless <;> simp

theorem protocolAt_found (address : UInt64) (hn : n.Sound s) :
    (protocolAt s address n).1 = (protocolAt s address {}).1 := by
  have hwatched {n : Notes} (hn : n.Sound s) :=
    Runs.watched_eq ((fixed_protocolBody address).runs (n := { n with log := #[] }) hn)
  rw [protocolAt_eq, recordAt_found, recordAt_found, hwatched hn, hwatched (Notes.sound_empty s)]

theorem classAt_found (address : UInt64) (hn : n.Sound s) :
    (classAt s address n).1 = if s.isEncryptedAt address then none else
      some { (classRecord s address {}).1 with
        degraded := if n.isNameless s (superclassSlot s address) then classAmiss s address
          else superclassAmiss s address || classAmiss s address } := by
  rw [classAt_eq, recordAt_found, watched_classRecord address hn, amiss_eq]

theorem categoryAt_found (hasClassProperties : Bool) (address : UInt64) (hn : n.Sound s) :
    (categoryAt s hasClassProperties address n).1 = if s.isEncryptedAt address then none else
      some { (categoryBody s hasClassProperties address {}).1 with
        degraded := if n.isNameless s (targetSlot s address) then
            categoryAmiss s hasClassProperties address
          else targetAmiss s address || categoryAmiss s hasClassProperties address } := by
  rw [categoryAt_eq, recordAt_found, watched_categoryBody hasClassProperties address hn, amiss_eq]

end Survey

end ObjcAtlas
