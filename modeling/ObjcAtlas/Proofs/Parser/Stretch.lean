import Mathlib.Data.List.TakeWhile
import ObjcAtlas.Proofs.Parser.Step
import ObjcAtlas.Proofs.Word.Run

set_option autoImplicit false

namespace ObjcAtlas.Parsing

section

variable (text : String)

def fuel : Nat := text.utf8ByteSize + 1

def skipWhile (p : Char → Bool) : (fuel : Nat) → Parsing Unit
  | 0 => trap
  | fuel + 1 => do
    match ← peek text with
    | none => return ()
    | some x =>
      if p x then
        let _ ← next text
        skipWhile p fuel
      else return ()

def qualifiersFrom : (fuel : Nat) → Parsing (List Qualifier)
  | 0 => trap
  | fuel + 1 => do
    match (← peek text).bind Qualifier.ofCode? with
    | none => return []
    | some q =>
      let _ ← next text
      return q :: (← qualifiersFrom fuel)

def qualifiers : Parsing (List Qualifier) := qualifiersFrom text (fuel text)

def skipQuoted : (fuel : Nat) → Parsing Unit
  | 0 => trap
  | fuel + 1 => do
    match ← next text with
    | none => throw (.unexpectedEnd (← position))
    | some x => if x = '"' then return () else skipQuoted fuel

def skipTag (closing : Char) : (fuel brackets : Nat) → Parsing Unit
  | 0, _ => trap
  | fuel + 1, brackets => do
    match ← peek text with
    | none => throw (.unexpectedEnd (← position))
    | some x =>
      if x ≠ '<' ∧ x ≠ '>' ∧ brackets = 0 ∧ (x = '=' ∨ x = closing) then return ()
      else
        let _ ← next text
        skipTag closing fuel
          (if x = '<' then brackets + 1 else if x = '>' then brackets - 1 else brackets)

def number : Parsing UInt64 := do
  let start ← position
  skipWhile text Char.isDigit (fuel text)
  let stop ← position
  if start = stop then unexpected text
  else
    let digits ← cut text start stop
    if Text.decimalValue digits.toList < UInt64.size then
      return UInt64.ofNat (Text.decimalValue digits.toList)
    else throw (.invalidNumber start)

def sign : Parsing Bool := do
  let x ← peek text
  if x = some '-' then
    let _ ← next text
    return true
  else if x = some '+' then
    let _ ← next text
    return false
  else return false

/-- The number behind a sign that stands at `start`; without a sign there need not be one. -/
def magnitude (start : Nat) (negative : Bool) : Parsing (Option Int) := do
  if (← peek text).any Char.isDigit then
    let n ← number text
    if n.toNat < UInt64.size / 2 then
      return some (if negative then -(n.toNat : Int) else n.toNat)
    else throw (.invalidNumber start)
  else if (← position) = start then return none
  else unexpected text

def offset : Parsing (Option Int) := do
  let start ← position
  let negative ← sign text
  magnitude text start negative

def quoted : Parsing String := do
  let start ← position
  skipQuoted text (fuel text)
  let stop ← Word.minus (← position) 1
  cut text start stop

def tag (closing : Char) : Parsing (Option String) := do
  let start ← position
  skipTag text closing (fuel text) 0
  let name ← cut text start (← position)
  return if name = "" ∨ name = "?" then none else some name

end

def find? (text : String) (x : Char) : Option Nat :=
  if x ∈ text.toList then some (Cursor.width (text.toList.takeWhile (· != x))) else none

def splitBefore (text : String) (x : Char) : Option (String × String) :=
  match find? text x with
  | none => some (text, "")
  | some stop => do
    let front ← cut text 0 stop
    let behind ← cut text stop text.utf8ByteSize
    return (front, behind)

def splitPayload (payload : String) : Option ObjcType := do
  let (className, rest) ← splitBefore payload '<'
  let pieces := Text.splitAtAny (fun c => c == '<' || c == '>' || c == ',') rest.toList
  let protocols := (pieces.map Text.trim).filter fun p => !p.isEmpty
  return .object (if className = "" then none else some className) (protocols.map String.ofList)

def closesMember (text : String) : Parsing Bool := do
  let rest ← cut text ((← position) + 1) text.utf8ByteSize
  match find? rest '"' with
  | none => return false
  | some stop =>
    let behind ← cut rest (stop + 1) rest.utf8ByteSize
    match behind.toList.head? with
    | none => return true
    | some x => return x == '"' || x == '\x7d' || x == ')'

variable {α : Type} {text : String} {depth low : Nat} {c : Cursor}

theorem length_lt_fuel (hc : c.In text) : c.rest.length < fuel text := by
  have hle := Cursor.length_le_width c.rest
  have hsize := hc.position_add
  rw [fuel]
  omega

theorem skipWhile_eq (p : Char → Bool) (hc : c.In text) {fuel : Nat}
    (hfuel : c.rest.length < fuel) :
    skipWhile text p fuel ⟨c.position, depth⟩ =
      some (.ok (), ⟨(c.past (c.rest.takeWhile p) (c.rest.dropWhile p)).position, depth⟩) := by
  induction fuel generalizing c with
  | zero => exact absurd hfuel (Nat.not_lt_zero _)
  | succ fuel ih =>
    rw [skipWhile, bind_ok (peek_eq hc _)]
    obtain ⟨position, rest⟩ := c
    cases rest with
    | nil => rfl
    | cons x xs =>
      rw [List.takeWhile_cons, List.dropWhile_cons]
      dsimp only [List.head?_cons]
      by_cases hx : p x = true
      · rw [if_pos hx, if_pos hx, if_pos hx, bind_ok (next_eq hc rfl), ← Cursor.past_next _ x xs]
        exact ih (hc.reach (Cursor.reaches_next rfl)) (Nat.lt_of_succ_lt_succ hfuel)
      · rw [if_neg hx, if_neg hx, if_neg hx]
        rfl

theorem Tracks.takeWhile {β : Type} {f : Unit → Parsing β} {g : List Char → Reading β}
    {p : Char → Bool} (hc : c.In text)
    (k : ∀ taken rest, c.rest = taken ++ rest →
      Tracks depth low (f ()) (g taken) (c.past taken rest)) :
    Tracks depth low (skipWhile text p (fuel text) >>= f) (Reading.takeWhile p >>= g) c :=
  have hsplit : c.rest = c.rest.takeWhile p ++ c.rest.dropWhile p :=
    List.takeWhile_append_dropWhile.symm
  .advance rfl (skipWhile_eq p hc (length_lt_fuel hc)) (Cursor.reaches_past hsplit)
    (k _ _ hsplit)

theorem qualifiersFrom_eq (hc : c.In text) {fuel : Nat} (hfuel : c.rest.length < fuel) :
    qualifiersFrom text fuel ⟨c.position, depth⟩ =
      let isCode := fun x => (Qualifier.ofCode? x).isSome
      some (.ok ((c.rest.takeWhile isCode).filterMap Qualifier.ofCode?),
        ⟨(c.past (c.rest.takeWhile isCode) (c.rest.dropWhile isCode)).position, depth⟩) := by
  induction fuel generalizing c with
  | zero => exact absurd hfuel (Nat.not_lt_zero _)
  | succ fuel ih =>
    rw [qualifiersFrom, bind_ok (peek_eq hc _)]
    obtain ⟨p, rest⟩ := c
    cases rest with
    | nil => rfl
    | cons x xs =>
      dsimp only [List.head?_cons, Option.bind_some]
      rw [List.takeWhile_cons, List.dropWhile_cons]
      cases hx : Qualifier.ofCode? x with
      | none => rfl
      | some q =>
        have hrest := ih (hc.reach (Cursor.reaches_next rfl)) (Nat.lt_of_succ_lt_succ hfuel)
        refine (bind_ok (next_eq hc rfl)).trans ((bind_ok hrest).trans ?_)
        rw [Option.isSome_some, if_pos rfl, if_pos rfl, List.filterMap_cons_some hx,
          Cursor.past_next]
        rfl

theorem tracks_qualifiers (hc : c.In text) :
    Tracks depth low (qualifiers text) Reading.qualifiers c :=
  tracks_of_ok rfl (qualifiersFrom_eq hc (length_lt_fuel hc))
    (Cursor.reaches_past List.takeWhile_append_dropWhile.symm)

theorem tracks_number (hc : c.From text low) :
    Tracks depth low (number text) Reading.number c := by
  refine .of_eq (Reading.bind_ok rfl) (.step rfl ?_)
  refine .takeWhile hc.inside fun digits rest hsplit => ?_
  have hreach : c.Reaches (c.past digits rest) := Cursor.reaches_past hsplit
  refine .step rfl (.ite ?_ (fun _ => tracks_unexpected (hc.reach hreach)) fun _ => ?_)
  · -- The parser has moved unless there was no digit.
    cases digits with
    | nil => exact ⟨fun _ => rfl, fun _ => rfl⟩
    | cons d ds =>
      have hpos := Cursor.width_pos (List.cons_ne_nil d ds)
      constructor
      · intro h
        change c.position = c.position + Cursor.width (d :: ds) at h
        omega
      · exact fun h => absurd h nofun
  · refine .step (lift_eq (hc.inside.cut_eq hsplit) _) ?_
    rw [String.toList_ofList]
    refine .ite Iff.rfl (fun _ => tracks_pure _) fun _ => ?_
    exact tracks_of_error rfl rfl (Cursor.reaches_self _) hc.low_le hreach.position_le nofun

def readMagnitude (start : Nat) (sign : Option Char) : Reading (Option Int) := do
  match ← Reading.peek with
  | some d =>
    if d.isDigit then
      let magnitude ← Reading.number
      if magnitude.toNat < UInt64.size / 2 then
        return some (if sign = some '-' then -(magnitude.toNat : Int) else magnitude.toNat)
      else throw (.invalidNumber start)
    else if (← Reading.position) = start then return none
    else Reading.unexpected
  | none => if (← Reading.position) = start then return none else Reading.unexpected

theorem readOffset_eq : Reading.offset = (do
    let start ← Reading.position
    let sign ← Reading.peek
    if sign = some '-' ∨ sign = some '+' then
      let _ ← Reading.next
      readMagnitude start sign
    else readMagnitude start sign) := rfl

theorem tracks_magnitude {start : Nat} {negative : Bool} {sign : Option Char}
    (hsign : negative = true ↔ sign = some '-') (hstart : low ≤ start) (hle : start ≤ c.position)
    (hc : c.From text low) :
    Tracks depth low (magnitude text start negative) (readMagnitude start sign) c := by
  have hnone : Tracks depth low
      (do if (← position) = start then return none else unexpected text : Parsing (Option Int))
      (do if (← Reading.position) = start then return none else Reading.unexpected) c :=
    .of_eq (Reading.bind_ok rfl) (.step rfl (.ite Iff.rfl (fun _ => tracks_pure none) fun _ =>
      tracks_unexpected hc))
  refine .peek hc.inside ?_
  cases c.rest.head? with
  | none => exact hnone
  | some d =>
    refine .ite Iff.rfl (fun _ => ?_) fun _ => hnone
    refine (tracks_number hc).bind fun n c' _ hreach => ?_
    refine .ite Iff.rfl (fun _ => ?_) fun _ => ?_
    · simp only [hsign]
      exact tracks_pure _
    · exact tracks_of_error rfl rfl c'.reaches_self hstart
        (Nat.le_trans hle hreach.position_le) nofun

theorem tracks_offset (hc : c.From text low) :
    Tracks depth low (offset text) Reading.offset c := by
  rw [readOffset_eq]
  refine .of_eq (Reading.bind_ok rfl) (.of_eq (Reading.bind_ok rfl) (.step rfl ?_))
  have hpeek := peek_eq hc.inside depth
  -- Behind a sign the number has to be there.
  have hsigned {x : Char} (negative : Bool) (hx : c.rest.head? = some x)
      (hnegative : negative = true ↔ c.rest.head? = some '-')
      (hrun : sign text ⟨c.position, depth⟩ =
        (do let _ ← next text; return negative : Parsing Bool) ⟨c.position, depth⟩) :
      Tracks depth low (sign text >>= magnitude text c.position)
        (do let _ ← Reading.next; readMagnitude c.position c.rest.head?) c := by
    obtain ⟨xs, hrest⟩ := List.head?_eq_some_iff.1 hx
    have hreach := Cursor.reaches_next hrest
    have hnext : Reading.next c = .ok (some x) (c.past [x] xs) := by
      rw [Reading.next, hrest]
    exact .advance hnext (hrun.trans (bind_ok (next_eq hc.inside hrest))) hreach
      (tracks_magnitude hnegative hc.low_le hreach.position_le (hc.reach hreach))
  by_cases hminus : c.rest.head? = some '-'
  · rw [if_pos (.inl hminus)]
    refine hsigned true hminus (iff_of_true rfl hminus) ?_
    rw [sign, bind_ok hpeek, if_pos hminus]
  by_cases hplus : c.rest.head? = some '+'
  · rw [if_pos (.inr hplus)]
    refine hsigned false hplus (iff_of_false nofun hminus) ?_
    rw [sign, bind_ok hpeek, if_neg hminus, if_pos hplus]
  · have hsign : sign text ⟨c.position, depth⟩ = some (.ok false, ⟨c.position, depth⟩) := by
      rw [sign, bind_ok hpeek, if_neg hminus, if_neg hplus]
      rfl
    rw [if_neg (not_or.2 ⟨hminus, hplus⟩)]
    exact .step hsign
      (tracks_magnitude (iff_of_false nofun hminus) hc.low_le (Nat.le_refl _) hc)

theorem skipQuoted_append (hc : c.In text) {payload rest : List Char}
    (hrest : c.rest = payload ++ rest) (hquote : '"' ∉ payload) (fuel : Nat) :
    skipQuoted text (fuel + payload.length) ⟨c.position, depth⟩ =
      skipQuoted text fuel ⟨(c.past payload rest).position, depth⟩ := by
  induction payload generalizing c with
  | nil => rfl
  | cons x xs ih =>
    have hx : x ≠ '"' := fun h => hquote (h ▸ List.mem_cons_self)
    rw [List.length_cons, ← Nat.add_assoc, skipQuoted, bind_ok (next_eq hc hrest),
      ← Cursor.past_next _ x (xs ++ rest)]
    refine (congrFun (if_neg hx) _).trans ?_
    exact ih (hc.reach (Cursor.reaches_next hrest)) rfl fun h => hquote (List.mem_cons_of_mem x h)

theorem exists_skipQuoted_eq (hc : c.In text) {payload rest : List Char}
    (hrest : c.rest = payload ++ rest) (hquote : '"' ∉ payload) (depth : Nat) :
    ∃ fuel', skipQuoted text (fuel text) ⟨c.position, depth⟩ =
      skipQuoted text (fuel' + 1) ⟨(c.past payload rest).position, depth⟩ := by
  refine ⟨fuel text - 1 - payload.length, ?_⟩
  have hfuel := length_lt_fuel hc
  rw [hrest, List.length_append] at hfuel
  rw [← skipQuoted_append hc hrest hquote]
  congr 1
  omega

theorem quoted_unclosed (hc : c.In text) (hquote : '"' ∉ c.rest) :
    quoted text ⟨c.position, depth⟩ =
      some (.error (.unexpectedEnd (c.past c.rest []).position),
        ⟨(c.past c.rest []).position, depth⟩) := by
  have hrest : c.rest = c.rest ++ [] := (List.append_nil _).symm
  obtain ⟨fuel', hskip⟩ := exists_skipQuoted_eq hc hrest hquote depth
  rw [skipQuoted, bind_ok (next_eq_none (hc.reach (Cursor.reaches_past hrest)) rfl)] at hskip
  exact bind_error (m := skipQuoted text (fuel text)) hskip

theorem quoted_closed (hc : c.In text) {payload rest : List Char}
    (hrest : c.rest = payload ++ '"' :: rest) (hquote : '"' ∉ payload) :
    quoted text ⟨c.position, depth⟩ = some (.ok (String.ofList payload),
      ⟨((c.past payload ('"' :: rest)).past ['"'] rest).position, depth⟩) := by
  obtain ⟨fuel', hskip⟩ := exists_skipQuoted_eq hc hrest hquote depth
  have hminus : Word.minus (c.position + Cursor.width payload + 1) 1 =
      some (c.position + Cursor.width payload) := Word.minus_eq (Nat.le_add_left 1 _)
  rw [skipQuoted, bind_ok (next_eq (hc.reach (Cursor.reaches_past hrest)) rfl)] at hskip
  rw [quoted, bind_ok (a := c.position) rfl, bind_ok hskip,
    bind_ok (a := c.position + Cursor.width payload + 1) rfl, bind_ok (lift_eq hminus _),
    lift_eq (hc.cut_eq hrest)]
  rfl

theorem Tracks.quoted {β : Type} {f : String → Parsing β} {g : List Char → Reading β}
    (hc : c.From text low)
    (k : ∀ payload c', c.Reaches c' → Tracks depth low (f (String.ofList payload)) (g payload) c') :
    Tracks depth low (Parsing.quoted text >>= f) (Reading.quoted >>= g) c := by
  by_cases hquote : '"' ∈ c.rest
  · obtain ⟨payload, rest, hrest, hpayload⟩ := List.eq_append_cons_of_mem hquote
    have hreach := (Cursor.reaches_past hrest).trans (Cursor.reaches_next rfl)
    have hread : Reading.quoted ⟨c.position, (payload ++ ['"']) ++ rest⟩ = .ok payload _ :=
      Reading.reads_quoted hpayload c.position
    rw [Cursor.width_append, ← Nat.add_assoc, List.append_assoc] at hread
    refine .advance ?_ (quoted_closed hc.inside hrest hpayload) hreach (k payload _ hreach)
    obtain ⟨p, cs⟩ := c
    cases hrest
    exact hread
  · have hrest : c.rest = c.rest ++ [] := (List.append_nil _).symm
    have hreach : c.Reaches (c.past c.rest []) := Cursor.reaches_past hrest
    have hread : Reading.quoted c =
        (do let _ ← Reading.any; return c.rest.takeWhile (· != '"') : Reading (List Char))
          (c.past (c.rest.takeWhile (· != '"')) (c.rest.dropWhile (· != '"'))) :=
      Reading.bind_ok rfl
    rw [List.takeWhile_eq_self_iff.2 (Reading.bne_of_notMem hquote),
      List.dropWhile_eq_nil_iff.2 (Reading.bne_of_notMem hquote)] at hread
    exact tracks_of_error (Reading.bind_error hread)
      (bind_error (quoted_unclosed hc.inside hquote)) hreach (hc.reach hreach).low_le
      (Nat.le_refl _) nofun

theorem skipTag_eq {closing : Char} (hopen : closing ≠ '<') (hclose : closing ≠ '>')
    (hc : c.In text) {fuel brackets : Nat} (hfuel : c.rest.length < fuel) {name rest : List Char}
    (hsplit : Reading.splitTag closing brackets c.rest = (name, rest)) (depth : Nat) :
    skipTag text closing fuel brackets ⟨c.position, depth⟩ =
      some (if rest.isEmpty then .error (.unexpectedEnd (c.past name rest).position) else .ok (),
        ⟨(c.past name rest).position, depth⟩) := by
  induction fuel generalizing c brackets name with
  | zero => exact absurd hfuel (Nat.not_lt_zero _)
  | succ fuel ih =>
    rw [skipTag, bind_ok (peek_eq hc _)]
    obtain ⟨p, cs⟩ := c
    cases cs with
    | nil =>
      cases hsplit
      rfl
    | cons x xs =>
      rw [Reading.splitTag] at hsplit
      dsimp only [List.head?_cons]
      by_cases hends : brackets = 0 ∧ (x = '=' ∨ x = closing)
      · have hx : x ≠ '<' ∧ x ≠ '>' := by
          rcases hends.2 with rfl | rfl
          · decide
          · exact ⟨hopen, hclose⟩
        rw [if_pos hends] at hsplit
        cases hsplit
        rw [if_pos ⟨hx.1, hx.2, hends⟩]
        rfl
      · rw [if_neg hends] at hsplit
        cases hsplit
        rw [if_neg fun h => hends h.2.2, bind_ok (next_eq hc rfl), ← Cursor.past_next _ x xs]
        exact ih (hc.reach (Cursor.reaches_next rfl)) (Nat.lt_of_succ_lt_succ hfuel) rfl

theorem tracks_tag {closing : Char} (hopen : closing ≠ '<') (hclose : closing ≠ '>')
    (hc : c.From text low) : Tracks depth low (tag text closing) (Reading.tag closing) c := by
  obtain ⟨⟨name, rest⟩, h⟩ : ∃ r, Reading.splitTag closing 0 c.rest = r := ⟨_, rfl⟩
  have hsplit : c.rest = name ++ rest := by
    rw [← Reading.splitTag_fst_append_snd closing 0 c.rest, h]
  have hreach : c.Reaches (c.past name rest) := Cursor.reaches_past hsplit
  have hskip := skipTag_eq hopen hclose hc.inside (length_lt_fuel hc.inside) h depth
  refine .step rfl ?_
  by_cases hrest : rest = []
  · subst hrest
    have hread : Reading.tag closing c =
        .error (.unexpectedEnd (c.past name []).position) (c.past name []) := by
      have hget : (get : Reading Cursor) c = .ok c c := rfl
      rw [Reading.tag, Reading.bind_ok hget]
      simp only [h]
      rfl
    exact tracks_of_error hread (bind_error hskip) hreach (hc.reach hreach).low_le (Nat.le_refl _)
      fun h => DecodeError.noConfusion h
  · have hcut := lift_eq (hc.inside.cut_eq hsplit) ⟨c.position + Cursor.width name, depth⟩
    have hblank : (String.ofList name = "" ∨ String.ofList name = "?") ↔
        (name = [] ∨ name = ['?']) :=
      or_congr String.ofList_eq_empty_iff (@String.ofList_inj name ['?'])
    rw [if_neg (by simpa using hrest)] at hskip
    refine tracks_of_ok (Reading.tag_apply h hrest) ((bind_ok hskip).trans ?_) hreach
    refine (bind_ok hcut).trans ?_
    simp only [hblank]
    rfl

theorem find?_eq_none {s : String} {x : Char} (h : x ∉ s.toList) : find? s x = none := if_neg h

theorem find?_eq_some {s : String} {x : Char} {front behind : List Char}
    (h : s.toList = front ++ x :: behind) (hx : x ∉ front) :
    find? s x = some (Cursor.width front) := by
  have hmem : x ∈ s.toList := by
    rw [h]
    exact List.mem_append_right front List.mem_cons_self
  rw [find?, if_pos hmem, h, List.takeWhile_append_of_pos (Reading.bne_of_notMem hx),
    List.takeWhile_cons_of_neg (by simp), List.append_nil]

theorem splitBefore_eq (payload : List Char) (x : Char) :
    splitBefore (String.ofList payload) x =
      some (String.ofList (payload.takeWhile (· != x)),
        String.ofList (payload.dropWhile (· != x))) := by
  rw [splitBefore]
  by_cases hx : x ∈ payload
  · obtain ⟨front, behind, rfl, hfront⟩ := List.eq_append_cons_of_mem hx
    have hrest : (Cursor.ofString (String.ofList (front ++ x :: behind))).rest =
        front ++ x :: behind := String.toList_ofList
    have hstart := Cursor.in_ofString (String.ofList (front ++ x :: behind))
    have hcut := hstart.cut_eq hrest
    have hbehind := (hstart.reach (Cursor.reaches_past hrest)).cut_rest
    rw [List.takeWhile_append_of_pos (Reading.bne_of_notMem hfront),
      List.dropWhile_append_of_pos (Reading.bne_of_notMem hfront),
      List.takeWhile_cons_of_neg (by simp),
      List.dropWhile_cons_of_neg (by simp), List.append_nil, find?_eq_some hrest hfront]
    change cut _ 0 (0 + _) = _ at hcut
    change cut _ (0 + _) _ = _ at hbehind
    rw [Nat.zero_add] at hcut hbehind
    simp only [hcut, hbehind]
    rfl
  · rw [find?_eq_none (by rwa [String.toList_ofList]),
      List.takeWhile_eq_self_iff.2 (Reading.bne_of_notMem hx),
      List.dropWhile_eq_nil_iff.2 (Reading.bne_of_notMem hx)]

theorem splitPayload_eq (payload : List Char) :
    splitPayload (String.ofList payload) = some (Reading.splitPayload payload) := by
  rw [splitPayload, splitBefore_eq, Reading.splitPayload]
  simp only [Option.bind_eq_bind, Option.bind_some, String.toList_ofList,
    String.ofList_eq_empty_iff, List.isEmpty_iff]
  rfl

theorem closesMember_eq (hc : c.In text) {xs : List Char} (hrest : c.rest = '"' :: xs) :
    closesMember text ⟨c.position, depth⟩ =
      some (.ok (Reading.closesMember xs), ⟨c.position, depth⟩) := by
  have hcut := (hc.reach (Cursor.reaches_next hrest)).cut_rest
  rw [closesMember, bind_ok (a := c.position) rfl]
  refine (bind_ok (lift_eq hcut _)).trans ?_
  dsimp only [Cursor.past]
  by_cases hquote : '"' ∈ xs
  · obtain ⟨front, behind, rfl, hfront⟩ := List.eq_append_cons_of_mem hquote
    have hmiddle : (Cursor.ofString (String.ofList (front ++ '"' :: behind))).rest =
        (front ++ ['"']) ++ behind := by simp [Cursor.ofString]
    have hbehind :=
      ((Cursor.in_ofString _).reach (Cursor.reaches_past hmiddle)).cut_rest
    rw [find?_eq_some String.toList_ofList hfront, Reading.closesMember_append hfront]
    change cut _ (0 + Cursor.width (front ++ ['"'])) _ = _ at hbehind
    rw [Nat.zero_add, Cursor.width_append] at hbehind
    refine (bind_ok (lift_eq hbehind _)).trans ?_
    rw [String.toList_ofList]
    cases behind with
    | nil => rfl
    | cons y ys => rfl
  · rw [find?_eq_none (by rwa [String.toList_ofList]), Reading.closesMember,
      List.dropWhile_eq_nil_iff.2 (Reading.bne_of_notMem hquote)]
    rfl

end ObjcAtlas.Parsing
