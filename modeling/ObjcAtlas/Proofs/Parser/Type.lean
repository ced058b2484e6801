import ObjcAtlas.Proofs.Parser.Stretch

set_option autoImplicit false

namespace ObjcAtlas.Parsing

section

variable (text : String)

def members (item : Parsing ObjcType) (closing : Char) : (fuel : Nat) → Parsing (List Member)
  | 0 => trap
  | fuel + 1 => do
    match ← peek text with
    | none => throw (.unexpectedEnd (← position))
    | some x =>
      if x = closing then
        let _ ← next text
        return []
      else if x = '"' then
        let _ ← next text
        let name ← quoted text
        let type ← item
        return ⟨some name, type⟩ :: (← members item closing fuel)
      else
        let type ← item
        return ⟨none, type⟩ :: (← members item closing fuel)

def aggregate (nested : Bool → Parsing ObjcType) (kind : AggregateKind) : Parsing ObjcType := do
  let name ← tag text kind.closing
  if (← peek text) = some kind.closing then
    let _ ← next text
    return .incomplete kind name
  expect text '='
  let named := (← peek text) == some '"'
  let ms ← members text (nested named) kind.closing (fuel text)
  return .aggregate kind name ms

def arguments (item : Parsing ObjcType) : (fuel : Nat) → Parsing (List ObjcType)
  | 0 => trap
  | fuel + 1 => do
    match ← peek text with
    | none => throw (.unexpectedEnd (← position))
    | some '>' =>
      let _ ← next text
      return []
    | some _ =>
      let type ← item
      return type :: (← arguments item fuel)

def quotesClass (named : Bool) : Parsing Bool := if named then closesMember text else return true

def object (nested : Bool → Parsing ObjcType) (named : Bool) : Parsing ObjcType := do
  match ← peek text with
  | some '?' =>
    let _ ← next text
    if (← peek text) = some '<' then
      let _ ← next text
      let returns ← nested false
      let args ← arguments text (nested false) (fuel text)
      return .blockOf returns args
    else return .block
  | some '"' =>
    if ← quotesClass text named then
      let _ ← next text
      splitPayload (← quoted text)
    else return .id
  | _ => return .id

def unqualified (nested : Bool → Parsing ObjcType) (named : Bool) : Parsing ObjcType := do
  let start ← position
  let x ← any text
  if x = '^' then return .pointer (← nested named)
  else if x = '[' then
    let length ← number text
    let element ← nested false
    expect text ']'
    return .array length element
  else if x = AggregateKind.struct.opening then aggregate text nested .struct
  else if x = AggregateKind.union.opening then aggregate text nested .union
  else if x = 'b' then
    let digits ← position
    let width ← number text
    if width.toNat < UInt32.size then return .bitfield (UInt32.ofNat width.toNat)
    else throw (.invalidNumber digits)
  else if x = '@' then object text nested named
  else match Primitive.ofCode? x with
    | some p => return .primitive p
    | none => throw (.unexpectedChar start x)

def qualified (nested : Bool → Parsing ObjcType) (named : Bool) : Parsing ObjcType := do
  let qs ← qualifiers text
  let inner ← unqualified text nested named
  return if qs.isEmpty then inner else .qualified qs inner

/-- A type, inside of no more than `maxNesting` others; `fuel` exceeds what is left of them. -/
def typeIn : (fuel : Nat) → (named : Bool) → Parsing ObjcType
  | 0, _ => trap
  | fuel + 1, named => do
    if maxNesting ≤ (← get).depth then throw (.tooDeep (← position))
    else deeper (qualified text (typeIn fuel) named)

def type : Parsing ObjcType := typeIn text (maxNesting + 1) false

end

variable {text : String} {depth low : Nat} {c : Cursor}

section Lists

variable {item : Parsing ObjcType} {reader : Reading ObjcType}
  (hitem : ∀ c, c.From text low → Tracks depth low item reader c)
  (htakes : ∀ c t c', reader c = .ok t c' → c'.rest.length < c.rest.length)

include hitem htakes

theorem tracks_members (closing : Char) {fuel fuel' : Nat} (hc : c.From text low)
    (hfuel : c.rest.length < fuel) (hfuel' : c.rest.length < fuel') :
    Tracks depth low (members text item closing fuel) (Reading.members reader closing fuel') c := by
  induction fuel generalizing fuel' c with
  | zero => exact absurd hfuel (Nat.not_lt_zero _)
  | succ fuel ih =>
    cases fuel' with
    | zero => exact absurd hfuel' (Nat.not_lt_zero _)
    | succ fuel' =>
      -- A member, with its name before it, in front of the others.
      have hcons (name : Option String) {c' : Cursor} (hreach : c.Reaches c') :
          Tracks depth low
            (do let t ← item; return ⟨name, t⟩ :: (← members text item closing fuel))
            (do let t ← reader; return ⟨name, t⟩ :: (← Reading.members reader closing fuel'))
            c' := by
        have hle := hreach.length_le
        refine (hitem c' (hc.reach hreach)).bind fun t c'' ht hreach' => ?_
        have hlt := htakes c' t c'' ht
        refine (ih (hc.reach (hreach.trans hreach')) (by omega) (by omega)).bind fun ms _ _ _ => ?_
        exact tracks_pure _
      refine .peek hc.inside ?_
      cases c.rest.head? with
      | none => exact tracks_unexpectedEnd hc
      | some x =>
        refine .ite Iff.rfl (fun _ => ?_) fun _ => .ite Iff.rfl (fun _ => ?_) fun _ => ?_
        · exact (tracks_next hc).bind fun _ _ _ _ => tracks_pure []
        · refine (tracks_next hc).bind fun _ c' _ hreach => ?_
          refine .quoted (hc.reach hreach) fun name c'' hreach' => ?_
          exact hcons (some (String.ofList name)) (hreach.trans hreach')
        · exact hcons none c.reaches_self

theorem tracks_arguments {fuel fuel' : Nat} (hc : c.From text low)
    (hfuel : c.rest.length < fuel) (hfuel' : c.rest.length < fuel') :
    Tracks depth low (arguments text item fuel) (Reading.arguments reader fuel') c := by
  induction fuel generalizing fuel' c with
  | zero => exact absurd hfuel (Nat.not_lt_zero _)
  | succ fuel ih =>
    cases fuel' with
    | zero => exact absurd hfuel' (Nat.not_lt_zero _)
    | succ fuel' =>
      refine .peek hc.inside ?_
      cases c.rest.head? with
      | none => exact tracks_unexpectedEnd hc
      | some x =>
        by_cases hx : x = '>'
        · rw [hx]
          exact (tracks_next hc).bind fun _ _ _ _ => tracks_pure []
        · simp only
          refine (hitem c hc).bind fun t c' ht hreach => ?_
          have hlt := htakes c t c' ht
          refine (ih (hc.reach hreach) (by omega) (by omega)).bind fun ts _ _ _ => ?_
          exact tracks_pure _

end Lists

section Level

variable {nested : Bool → Parsing ObjcType} {reader : Bool → Reading ObjcType}
  (hnested : ∀ named c, c.From text low → Tracks depth low (nested named) (reader named) c)
  (htakes : ∀ named c t c', reader named c = .ok t c' → c'.rest.length < c.rest.length)

include hnested htakes

theorem tracks_aggregate (kind : AggregateKind) (hc : c.From text low) :
    Tracks depth low (aggregate text nested kind) (Reading.aggregate reader kind) c := by
  have hopen : kind.closing ≠ '<' := by cases kind <;> decide
  have hclose : kind.closing ≠ '>' := by cases kind <;> decide
  refine (tracks_tag hopen hclose hc).bind fun name c₁ _ hreach => ?_
  have hc₁ := hc.reach hreach
  refine .peek hc₁.inside (.ite Iff.rfl (fun _ => ?_) fun _ => ?_)
  · exact (tracks_next hc₁).bind fun _ _ _ _ => tracks_pure _
  · refine (tracks_expect hc₁ '=').bind fun _ c₂ _ hreach => ?_
    have hc₂ := hc₁.reach hreach
    refine .peek hc₂.inside (.of_eq (Reading.bind_ok (a := c₂) rfl) ?_)
    refine (tracks_members (hnested _) (htakes _) kind.closing hc₂ (length_lt_fuel hc₂.inside)
      (Nat.lt_succ_self _)).bind fun ms _ _ _ => ?_
    exact tracks_pure _

theorem tracks_object (named : Bool) (hc : c.From text low) :
    Tracks depth low (object text nested named) (Reading.object reader named) c := by
  refine .peek hc.inside ?_
  by_cases hblock : c.rest.head? = some '?'
  · rw [hblock]
    refine (tracks_next hc).bind fun _ c₁ _ hreach => ?_
    have hc₁ := hc.reach hreach
    refine .peek hc₁.inside (.ite Iff.rfl (fun _ => ?_) fun _ => tracks_pure _)
    refine (tracks_next hc₁).bind fun _ c₂ _ hreach => ?_
    have hc₂ := hc₁.reach hreach
    refine (hnested false c₂ hc₂).bind fun returns c₃ _ hreach => ?_
    have hc₃ := hc₂.reach hreach
    refine .of_eq (Reading.bind_ok (a := c₃) rfl) ?_
    refine (tracks_arguments (hnested false) (htakes false) hc₃ (length_lt_fuel hc₃.inside)
      (Nat.lt_succ_self _)).bind fun args _ _ _ => ?_
    exact tracks_pure _
  by_cases hquote : c.rest.head? = some '"'
  · obtain ⟨xs, hrest⟩ := List.head?_eq_some_iff.1 hquote
    have hclass : quotesClass text named ⟨c.position, depth⟩ =
        some (.ok (!(named && !Reading.closesMember (c.rest.drop 1))), ⟨c.position, depth⟩) := by
      rw [hrest]
      cases named with
      | false => rfl
      | true =>
        refine (closesMember_eq hc.inside hrest).trans ?_
        rw [Bool.true_and, Bool.not_not]
        rfl
    rw [hquote]
    refine .of_eq (Reading.bind_ok (a := c) rfl) (.step hclass ?_)
    cases named && !Reading.closesMember (c.rest.drop 1) with
    | true => exact tracks_pure _
    | false =>
      refine (tracks_next hc).bind fun _ c₁ _ hreach => ?_
      refine .quoted (hc.reach hreach) fun payload c₂ _ => ?_
      rw [splitPayload_eq]
      exact tracks_pure _
  · simp only
    exact tracks_pure _

theorem tracks_unqualified (named : Bool) (hc : c.From text low) :
    Tracks depth low (unqualified text nested named) (Reading.unqualified reader named) c := by
  refine .of_eq (Reading.bind_ok rfl) (.step rfl ?_)
  refine (tracks_any hc).bind fun x c' _ hreach => ?_
  have hc' := hc.reach hreach
  -- One case for each opening character, in the order of the reader.
  refine .ite Iff.rfl (fun _ => ?_) fun _ => .ite Iff.rfl (fun _ => ?_) fun _ =>
    .ite Iff.rfl (fun _ => ?_) fun _ => .ite Iff.rfl (fun _ => ?_) fun _ =>
    .ite Iff.rfl (fun _ => ?_) fun _ => .ite Iff.rfl (fun _ => ?_) fun _ => ?_
  · exact (hnested named c' hc').bind fun t _ _ _ => tracks_pure _
  · refine (tracks_number hc').bind fun length c₁ _ hreach => ?_
    have hc₁ := hc'.reach hreach
    refine (hnested false c₁ hc₁).bind fun element c₂ _ hreach => ?_
    exact (tracks_expect (hc₁.reach hreach) ']').bind fun _ _ _ _ => tracks_pure _
  · exact tracks_aggregate hnested htakes .struct hc'
  · exact tracks_aggregate hnested htakes .union hc'
  · refine .of_eq (Reading.bind_ok rfl) (.step rfl ?_)
    refine (tracks_number hc').bind fun width c₁ _ hreach => ?_
    refine .ite Iff.rfl (fun _ => tracks_pure _) fun _ => ?_
    exact tracks_of_error rfl rfl c₁.reaches_self hc'.low_le hreach.position_le nofun
  · exact tracks_object hnested htakes named hc'
  · cases Primitive.ofCode? x with
    | some p => exact tracks_pure _
    | none => exact tracks_of_error rfl rfl c'.reaches_self hc.low_le hreach.position_le nofun

theorem tracks_qualified (named : Bool) (hc : c.From text low) :
    Tracks depth low (qualified text nested named)
      (do
        let qs ← Reading.qualifiers
        let inner ← Reading.unqualified reader named
        return if qs.isEmpty then inner else .qualified qs inner) c := by
  refine (tracks_qualifiers hc.inside).bind fun qs c' _ hreach => ?_
  exact (tracks_unqualified hnested htakes named (hc.reach hreach)).bind fun _ _ _ _ =>
    tracks_pure _

end Level

theorem rest_lt_of_typeWithin {budget : Nat} {named : Bool} {t : ObjcType} {c' : Cursor}
    (h : Reading.typeWithin budget named c = .ok t c') : c'.rest.length < c.rest.length := by
  obtain ⟨x, hx, ht⟩ := Reading.takes_typeWithin budget named c.rest c.position t c' h
  have hpos := List.length_pos_of_ne_nil ht.written.ne_nil
  rw [hx, List.length_append]
  omega

theorem tracks_typeIn {budget fuel : Nat} (hdepth : depth + budget = maxNesting)
    (hfuel : budget < fuel) (named : Bool) (hc : c.From text low) :
    Tracks depth low (typeIn text fuel named) (Reading.typeWithin budget named) c := by
  induction budget generalizing depth fuel named c with
  | zero =>
    obtain ⟨fuel, rfl⟩ := Nat.exists_eq_succ_of_ne_zero (Nat.ne_zero_of_lt hfuel)
    refine .step (a := ⟨c.position, depth⟩) rfl ?_
    dsimp only
    rw [if_pos (by omega)]
    exact tracks_of_error rfl rfl c.reaches_self hc.low_le (Nat.le_refl _) nofun
  | succ budget ih =>
    obtain ⟨fuel, rfl⟩ := Nat.exists_eq_succ_of_ne_zero (Nat.ne_zero_of_lt hfuel)
    refine .step (a := ⟨c.position, depth⟩) rfl ?_
    dsimp only
    rw [if_neg (by omega)]
    refine tracks_deeper
      (tracks_qualified (fun named c hc => ?_) (fun named c t c' h => ?_) named hc)
    · exact ih (by omega) (by omega) named hc
    · exact rest_lt_of_typeWithin h

theorem tracks_type (hc : c.From text low) : Tracks 0 low (type text) Reading.type c :=
  tracks_typeIn (Nat.zero_add maxNesting) (Nat.lt_succ_self maxNesting) false hc

end ObjcAtlas.Parsing
