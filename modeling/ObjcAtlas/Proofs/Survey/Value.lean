import ObjcAtlas.Proofs.Survey.Record

set_option autoImplicit false

namespace ObjcAtlas

namespace Slice

variable (s : Slice)

def followed? (slot : UInt64) : Option UInt64 :=
  match s.target slot with
  | .ok (.address a) => if s.isMapped a then some a else none
  | _ => none

/-- The text at an address, unless it is encrypted. -/
def text? (address : UInt64) : Option String :=
  if s.isEncryptedAt address then none else (s.cstringAt address).toOption

def textThrough? (slot : UInt64) : Option String := (s.followed? slot).bind s.text?

end Slice

namespace Survey

variable {α β : Type}

/-- Whatever the notes are, the step finds something of the kind. -/
def Ensures (step : Survey α) (P : α → Prop) : Prop := ∀ n, P (step n).1

/-- Whatever the notes are, the step finds this. -/
def Gives (step : Survey α) (a : α) : Prop := Ensures step (· = a)

theorem ensures_pure {P : α → Prop} {a : α} (h : P a) : Ensures (pure a) P := fun _ => h

theorem Ensures.bind {step : Survey α} {f : α → Survey β} {P : α → Prop} {Q : β → Prop}
    (h : Ensures step P) (hf : ∀ a, P a → Ensures (f a) Q) : Ensures (step >>= f) Q :=
  fun n => hf (step n).1 (h n) (step n).2

theorem Ensures.watched {step : Survey α} {P : α → Prop} (h : Ensures step P) :
    Ensures (watched step) fun r => P r.1 := fun n => h { n with log := #[] }

theorem ensures_any (step : Survey α) : Ensures step fun _ => True := fun _ => trivial

theorem gives_pure (a : α) : Gives (pure a) a := fun _ => rfl

theorem Gives.bind {step : Survey α} {f : α → Survey β} {a : α} {Q : β → Prop}
    (h : Gives step a) (hf : Ensures (f a) Q) : Ensures (step >>= f) Q := by
  refine Ensures.bind h fun b hb => ?_
  rw [hb]
  exact hf

theorem lost_gives (w : Survey Unit) : Gives (lost (α := α) w) none := fun _ => rfl

theorem read_gives (address : UInt64) (what : String) (r : Except ImageError α) :
    Gives (read address what r) r.toOption := by
  cases r with
  | ok a => exact gives_pure _
  | error e => exact lost_gives _

/-- Going through a list keeps what is found for each item. -/
theorem collect_gives {step : α → Survey (Option β)} {f : α → Option β}
    (h : ∀ a, Gives (step a) (f a)) (as : List α) : Gives (collect step as) (as.filterMap f) := by
  induction as with
  | nil => exact gives_pure _
  | cons a as ih =>
    refine Gives.bind (h a) (Gives.bind ih ?_)
    refine ensures_pure ?_
    cases hf : f a with
    | none => rw [List.filterMap_cons_none hf]; rfl
    | some b => rw [List.filterMap_cons_some hf]; rfl

theorem follow_gives (s : Slice) (slot : UInt64) (what : String) :
    Gives (follow s slot what) (s.followed? slot) := by
  unfold follow Slice.followed?
  cases s.target slot with
  | error e => exact lost_gives _
  | ok value =>
    cases value with
    | null => exact gives_pure _
    | symbol t => exact lost_gives _
    | address a =>
      simp only
      split
      · exact gives_pure _
      · exact lost_gives _

theorem text_gives (s : Slice) (address : UInt64) (what : String) :
    Gives (text s address what) (s.text? address) := by
  unfold text Slice.text?
  split
  · exact lost_gives _
  · exact read_gives _ _ _

theorem followText_gives (s : Slice) (slot : UInt64) (what : String) :
    Gives (followText s slot what) (s.textThrough? slot) := by
  refine Gives.bind (follow_gives s slot what) ?_
  rw [Slice.textThrough?]
  cases s.followed? slot with
  | none => exact gives_pure _
  | some address => exact text_gives s address what

theorem u32_gives (s : Slice) (address : UInt64) (what : String) :
    Gives (u32 s address what) ((s.u32At address).toOption.getD 0) :=
  Gives.bind (read_gives address what _) (gives_pure _)

theorem ensures_after {step : Survey α} {f : α → Survey β} {Q : β → Prop}
    (h : ∀ a, Ensures (f a) Q) : Ensures (step >>= f) Q :=
  Ensures.bind (ensures_any step) fun a _ => h a

theorem ensures_ite {c : Prop} [Decidable c] {x y : Survey α} {P : α → Prop} (hx : Ensures x P)
    (hy : Ensures y P) : Ensures (if c then x else y) P := by
  split
  · exact hx
  · exact hy

theorem classBody_address (s : Slice) (c : ClassRecord) :
    Ensures (classBody s c) fun c' => c'.address = c.address := by
  apply ensures_after
  intro r
  cases r with
  | none => exact ensures_pure rfl
  | some word =>
    -- Three numbers and the name, the name perhaps remembered, and four lists.
    refine ensures_after fun _ => ensures_after fun _ => ensures_after fun _ =>
      ensures_after fun _ => ensures_ite (ensures_after fun _ => ?_) ?_
    all_goals
      exact ensures_after fun _ => ensures_after fun _ => ensures_after fun _ =>
        ensures_after fun _ => ensures_pure rfl

theorem metaclassBody_address (s : Slice) (c : ClassRecord) :
    Ensures (metaclassBody s c) fun c' => c'.address = c.address := by
  apply ensures_after
  intro r
  cases r with
  | none => exact ensures_pure rfl
  | some address =>
    apply ensures_after
    intro r
    cases r with
    | none => exact ensures_pure rfl
    | some word => exact ensures_after fun _ => ensures_after fun _ => ensures_pure rfl

theorem classRecord_address (s : Slice) (address : UInt64) :
    Ensures (classRecord s address) fun c => c.address = address := by
  apply ensures_after
  intro superclass
  refine (classBody_address s _).bind fun c hc => ?_
  intro n
  rw [metaclassBody_address s c n, hc]

theorem categoryBody_address (s : Slice) (hasClassProperties : Bool) (address : UInt64) :
    Ensures (categoryBody s hasClassProperties address) fun c => c.address = address := by
  refine ensures_after fun _ => ensures_after fun _ => ensures_after fun _ =>
    ensures_after fun _ => ensures_after fun _ => ensures_after fun _ => ensures_ite ?_ ?_
  all_goals exact ensures_after fun _ => ensures_pure rfl

theorem extendProtocol_address (s : Slice) (array : UInt64) (p : ProtocolRecord) :
    Ensures (extendProtocol s array p) fun q => q.address = p.address :=
  ensures_after fun _ => ensures_after fun _ => ensures_after fun _ => ensures_after fun _ =>
    ensures_pure rfl

theorem protocolBody_address (s : Slice) (address : UInt64) :
    Ensures (protocolBody s address) fun p => p.address = address := by
  have hlast {c : Prop} [Decidable c] {x y : Survey (List PropertyRecord)} {p : ProtocolRecord}
      (hp : p.address = address) :
      Ensures (if c then x >>= fun ps => pure { p with classProperties := ps }
        else y >>= fun ps => pure { p with classProperties := ps }) fun q => q.address = address :=
    ensures_ite (ensures_after fun _ => ensures_pure hp) (ensures_after fun _ => ensures_pure hp)
  refine ensures_after fun _ => ensures_after fun _ => ensures_after fun _ =>
    ensures_after fun _ => ensures_after fun _ => ensures_after fun _ => ensures_after fun _ =>
    ensures_after fun _ => ensures_ite (ensures_after fun r => ?_) ?_
  · cases r with
    | none => exact Gives.bind (gives_pure _) (hlast rfl)
    | some array => exact (extendProtocol_address s array _).bind fun p hp => hlast hp
  · exact Gives.bind (gives_pure _) (hlast rfl)

end Survey

end ObjcAtlas
