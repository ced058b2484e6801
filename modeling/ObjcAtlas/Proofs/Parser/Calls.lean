import ObjcAtlas.Encoding.Method
import ObjcAtlas.Proofs.Parser.Type

set_option autoImplicit false

namespace ObjcAtlas

namespace Parsing

section

variable (text : String)

def atEnd : Parsing Bool := do return decide (text.utf8ByteSize ≤ (← position))

def nonempty : Parsing Unit := if text.utf8ByteSize = 0 then throw .empty else return ()

def complete : Parsing ObjcType := do
  nonempty text
  let t ← type text
  if ← atEnd text then return t else throw (.trailingInput (← position))

def methodArguments : (fuel : Nat) → Parsing (List MethodArgument)
  | 0 => trap
  | fuel + 1 => do
    if ← atEnd text then return []
    else
      let t ← type text
      let o ← offset text
      return ⟨t, o⟩ :: (← methodArguments fuel)

def frameSize : Parsing (Option Nat) := do
  match ← offset text with
  | none => return none
  | some n => if n < 0 then throw (.invalidNumber (← position)) else return some n.toNat

def signature : Parsing MethodSignature := do
  nonempty text
  let returns ← type text
  let size ← frameSize text
  let args ← methodArguments text (fuel text)
  return ⟨returns, size, args⟩

end

/-- The parser tracks the reader, and goes forward where there is a result. -/
structure Parses {α : Type} (low : Nat) (m : Parsing α) (r : Reading α) (c : Cursor) : Prop extends
    Tracks 0 low m r c where
  forward : ∀ a c', r c = .ok a c' → c.position < c'.position

variable {α β : Type} {text : String} {depth low : Nat} {c : Cursor}

theorem isEmpty_rest_iff (hc : c.In text) :
    c.rest.isEmpty = true ↔ text.utf8ByteSize ≤ c.position := by
  have hsize := hc.position_add
  cases hrest : c.rest with
  | nil =>
    rw [hrest, Cursor.width, Nat.add_zero] at hsize
    exact iff_of_true rfl hsize.ge
  | cons x xs =>
    have hpos := Cursor.width_pos (List.cons_ne_nil x xs)
    rw [hrest] at hsize
    exact iff_of_false Bool.false_ne_true (by omega)

theorem Tracks.atEnd {f : Bool → Parsing β} {r : Reading β} (hc : c.In text)
    (k : Tracks depth low (f c.rest.isEmpty) r c) :
    Tracks depth low (Parsing.atEnd text >>= f) r c := by
  refine .step (a := c.rest.isEmpty) ?_ k
  have hend : decide (text.utf8ByteSize ≤ c.position) = c.rest.isEmpty :=
    Bool.eq_iff_iff.2 (decide_eq_true_iff.trans (isEmpty_rest_iff hc).symm)
  rw [← hend]
  rfl

theorem tracks_nonempty (hc : c.From text low) :
    Tracks depth low (nonempty text) Reading.nonempty c := by
  have hblank : c.isBlank = true ↔ c.position = 0 ∧ text.utf8ByteSize ≤ c.position := by
    rw [Cursor.isBlank, Bool.and_eq_true, beq_iff_eq, isEmpty_rest_iff hc.inside]
  have hlow := hc.low_le
  refine .of_eq (Reading.bind_ok (a := c) rfl) (.ite ?_ (fun h => ?_) fun _ => tracks_pure ())
  · have hsize := hc.inside.position_add
    rw [hblank]
    omega
  · have hzero := (hblank.1 h).1
    rw [hzero] at hlow
    exact tracks_of_error rfl rfl c.reaches_self hlow (Nat.zero_le _) fun _ => hzero

theorem eq_of_nonempty {c' : Cursor} (h : Reading.nonempty c = .ok () c') : c' = c := by
  have hread : Reading.nonempty c =
      (if c.isBlank then throw .empty else pure () : Reading Unit) c :=
    Reading.bind_ok (a := c) rfl
  rw [hread] at h
  split at h <;> cases h
  rfl

theorem tracks_methodArguments {fuel fuel' : Nat} (hc : c.From text low)
    (hfuel : c.rest.length < fuel) (hfuel' : c.rest.length < fuel') :
    Tracks 0 low (methodArguments text fuel) (Reading.methodArguments fuel') c := by
  induction fuel generalizing fuel' c with
  | zero => exact absurd hfuel (Nat.not_lt_zero _)
  | succ fuel ih =>
    cases fuel' with
    | zero => exact absurd hfuel' (Nat.not_lt_zero _)
    | succ fuel' =>
      refine .atEnd hc.inside (.of_eq (Reading.bind_ok (a := c) rfl) ?_)
      refine .ite Iff.rfl (fun _ => tracks_pure []) fun _ => ?_
      refine (tracks_type hc).bind fun t c₁ ht hreach => ?_
      have hlt := rest_lt_of_typeWithin ht
      have hc₁ := hc.reach hreach
      refine (tracks_offset hc₁).bind fun o c₂ _ hreach => ?_
      have hle := hreach.length_le
      refine (ih (hc₁.reach hreach) (by omega) (by omega)).bind fun as _ _ _ => ?_
      exact tracks_pure _

theorem tracks_frameSize (hc : c.From text low) :
    Tracks depth low (frameSize text) Reading.frameSize c := by
  refine (tracks_offset hc).bind fun o c' _ hreach => ?_
  cases o with
  | none => exact tracks_pure none
  | some n =>
    refine .ite Iff.rfl (fun _ => ?_) fun _ => tracks_pure _
    exact tracks_of_error rfl rfl c'.reaches_self (hc.reach hreach).low_le (Nat.le_refl _) nofun

theorem parses_type (hc : c.From text low) : Parses low (type text) Reading.type c where
  toTracks := tracks_type hc
  forward _ _ h := (reaches_of_ok (tracks_type hc) h).position_lt (rest_lt_of_typeWithin h)

theorem Parses.bind {m : Parsing α} {r : Reading α} {f : α → Parsing β} {g : α → Reading β}
    (h : Parses low m r c)
    (k : ∀ a c', r c = .ok a c' → c.Reaches c' → Tracks 0 low (f a) (g a) c') :
    Parses low (m >>= f) (r >>= g) c where
  toTracks := h.toTracks.bind k
  forward b c' hb := by
    cases hr : r c with
    | error e c₁ =>
      rw [Reading.bind_error hr] at hb
      exact nomatch hb
    | ok a c₁ =>
      have hreach := reaches_of_ok (k a c₁ hr (reaches_of_ok h.toTracks hr))
        ((Reading.bind_ok hr).symm.trans hb)
      exact Nat.lt_of_lt_of_le (h.forward a c₁ hr) hreach.position_le

theorem Parses.nonempty {m : Parsing α} {r : Reading α} (hc : c.From text low)
    (h : Parses low m r c) :
    Parses low (do nonempty text; m) (do Reading.nonempty; r) c where
  toTracks := (tracks_nonempty hc).bind fun _ c' hc' _ => eq_of_nonempty hc' ▸ h.toTracks
  forward a c' ha := by
    cases hn : Reading.nonempty c with
    | error e c₁ =>
      rw [Reading.bind_error hn] at ha
      exact nomatch ha
    | ok u c₁ =>
      rw [Reading.bind_ok hn, eq_of_nonempty hn] at ha
      exact h.forward a c' ha

theorem parses_complete (hc : c.From text low) :
    Parses low (complete text) Reading.complete c := by
  refine .nonempty hc ((parses_type hc).bind fun t c' _ hreach => ?_)
  have hc' := hc.reach hreach
  refine .atEnd hc'.inside (.of_eq (Reading.bind_ok (a := c') rfl) ?_)
  refine .ite Iff.rfl (fun _ => tracks_pure t) fun _ => ?_
  exact tracks_of_error rfl rfl c'.reaches_self hc'.low_le (Nat.le_refl _) nofun

theorem parses_signature (hc : c.From text low) :
    Parses low (signature text) Reading.signature c := by
  refine .nonempty hc ((parses_type hc).bind fun t c₁ _ hreach => ?_)
  have hc₁ := hc.reach hreach
  refine (tracks_frameSize hc₁).bind fun size c₂ _ hreach => ?_
  have hc₂ := hc₁.reach hreach
  refine .of_eq (Reading.bind_ok (a := c₂) rfl) ?_
  exact (tracks_methodArguments hc₂ (length_lt_fuel hc₂.inside) (Nat.lt_succ_self _)).bind
    fun _ _ _ _ => tracks_pure _

end Parsing

inductive Call where
  | type
  | complete
  | signature
deriving DecidableEq, Repr

namespace Call

def Answer : Call → Type
  | .type | .complete => ObjcType
  | .signature => MethodSignature

def read : (call : Call) → Reading call.Answer
  | .type => Reading.type
  | .complete => Reading.complete
  | .signature => Reading.signature

def run (text : String) : (call : Call) → Parsing call.Answer
  | .type => Parsing.type text
  | .complete => Parsing.complete text
  | .signature => Parsing.signature text

open Parsing (Parses)

theorem parses {text : String} {low : Nat} {c : Cursor} (call : Call) (hc : c.From text low) :
    Parses low (call.run text) call.read c :=
  match call with
  | .type => Parsing.parses_type hc
  | .complete => Parsing.parses_complete hc
  | .signature => Parsing.parses_signature hc

end Call

/-- Where a reader stands after calls, failed ones among them. -/
def Cursor.after (c : Cursor) (calls : List Call) : Cursor :=
  calls.foldl (fun c call => (Parsing.outcome (call.read c)).2) c

namespace Parsing

variable {text : String} {c : Cursor}

def after (text : String) (s : Place) (calls : List Call) : Option Place :=
  calls.foldlM (fun s call => (call.run text s).map Prod.snd) s

theorem after_eq (hc : c.In text) (calls : List Call) :
    after text ⟨c.position, 0⟩ calls = some ⟨(c.after calls).position, 0⟩ ∧
      c.Reaches (c.after calls) := by
  induction calls generalizing c with
  | nil => exact ⟨rfl, c.reaches_self⟩
  | cons call calls ih =>
    have hcall := call.parses ⟨hc, Nat.le_refl c.position⟩
    obtain ⟨hrun, hreach⟩ := ih (hc.reach hcall.reaches)
    refine ⟨?_, hcall.reaches.trans hreach⟩
    rw [after, List.foldlM_cons, hcall.run]
    exact hrun

/-- Any call after any others: it takes the parser from one place between characters to another,
    and forward if it gives a result; an error lies on the way. -/
theorem calls_keep_place (text : String) (earlier : List Call) (call : Call) :
    let c := (Cursor.ofString text).after earlier
    let result := (outcome (call.read c)).1
    let c' := (outcome (call.read c)).2
    after text ⟨0, 0⟩ earlier = some ⟨c.position, 0⟩ ∧
      call.run text ⟨c.position, 0⟩ = some (result, ⟨c'.position, 0⟩) ∧
      String.Pos.Raw.IsValid text ⟨c.position⟩ ∧ String.Pos.Raw.IsValid text ⟨c'.position⟩ ∧
      c.position ≤ c'.position ∧ c'.position ≤ text.utf8ByteSize ∧
      (∀ a, result = .ok a → c.position < c'.position) ∧
      ∀ e, result = .error e → c.position ≤ e.offset ∧ e.offset ≤ c'.position ∧
        (e = .empty → c'.position = 0) := by
  intro c result c'
  have hstart := Cursor.in_ofString text
  obtain ⟨hafter, hreach⟩ := after_eq hstart earlier
  have hc : c.In text := hstart.reach hreach
  have hcall := call.parses ⟨hc, Nat.le_refl c.position⟩
  have hc' : c'.In text := hc.reach hcall.reaches
  have hsize := hc'.position_add
  refine ⟨hafter, hcall.run, hc.isValid, hc'.isValid, hcall.reaches.position_le, by omega,
    fun a ha => hcall.forward a c' (eq_of_outcome ha), hcall.error⟩

-- The first call fails behind a character of two bytes, and the last one at the end.
example : after "éi" ⟨0, 0⟩ [.type, .complete, .type] = some ⟨3, 0⟩ := by decide

end Parsing

end ObjcAtlas
