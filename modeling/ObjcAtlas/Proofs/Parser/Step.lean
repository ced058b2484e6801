import Mathlib.Data.String.Basic
import ObjcAtlas.Proofs.Encoding.Locality

set_option autoImplicit false

/-!
# Steps of a parser

The readers of this library take characters off a list. A parser keeps the text instead, with a
byte offset into it and the number of types that it is inside of, and cuts the text at offsets that
it computes. A cut that is not between two characters traps, and so does a number below zero; traps
are neither results nor errors.

`Tracks` says that from some place on a parser takes a step as a reader does: without a trap, to the
same result or error and the same offset, as deep at the end as at the start, and with its error
somewhere on the way. There is one rule for each way to put steps together.
-/
namespace ObjcAtlas

structure Place where
  position : Nat
  depth : Nat
deriving DecidableEq

/-- Steps of a parser; `none` is a trap. -/
abbrev Parsing := ExceptT DecodeError (StateT Place Option)

namespace Parsing

variable {α β : Type}

def trap : Parsing α := fun _ => none

def position : Parsing Nat := do return (← get).position

/-- The text from one byte offset to another; both have to be between two characters. -/
def cut (text : String) (start stop : Nat) : Option String :=
  if start ≤ stop ∧ String.Pos.Raw.IsValid text ⟨start⟩ ∧ String.Pos.Raw.IsValid text ⟨stop⟩ then
    some (String.Pos.Raw.extract text ⟨start⟩ ⟨stop⟩)
  else none

def enter : Parsing Unit := modify fun s => { s with depth := s.depth + 1 }

def leave : Parsing Unit := fun s =>
  match s.depth with
  | 0 => none
  | depth + 1 => some (.ok (), ⟨s.position, depth⟩)

def attempt (m : Parsing α) : Parsing (Except DecodeError α) :=
  fun s => (m s).map fun (result, s) => (.ok result, s)

def deeper (m : Parsing α) : Parsing α := do
  enter
  let result ← attempt m
  leave
  match result with
  | .ok a => return a
  | .error e => throw e

theorem bind_ok {m : Parsing α} {f : α → Parsing β} {s s' : Place} {a : α}
    (h : m s = some (.ok a, s')) : (m >>= f) s = f a s' := by
  change (m s).bind _ = _
  rw [h]
  rfl

theorem bind_error {m : Parsing α} {f : α → Parsing β} {s s' : Place} {e : DecodeError}
    (h : m s = some (.error e, s')) : (m >>= f) s = some (.error e, s') := by
  change (m s).bind _ = _
  rw [h]
  rfl

theorem lift_eq {o : Option α} {a : α} (h : o = some a) (s : Place) :
    (liftM o : Parsing α) s = some (.ok a, s) := by
  rw [h]
  rfl

end Parsing

namespace Cursor

/-- The cursor stands in the text, with all of it in front or behind. -/
def In (c : Cursor) (text : String) : Prop :=
  ∃ front, text.toList = front ++ c.rest ∧ c.position = width front

def Reaches (c c' : Cursor) : Prop :=
  ∃ taken, c.rest = taken ++ c'.rest ∧ c'.position = c.position + width taken

variable {c c' c'' : Cursor} {text : String}

theorem reaches_self (c : Cursor) : c.Reaches c := ⟨[], rfl, rfl⟩

theorem reaches_past {taken rest : List Char} (h : c.rest = taken ++ rest) :
    c.Reaches (c.past taken rest) := ⟨taken, h, rfl⟩

theorem reaches_next {x : Char} {xs : List Char} (h : c.rest = x :: xs) :
    c.Reaches (c.past [x] xs) := reaches_past h

theorem Reaches.trans (h : c.Reaches c') (h' : c'.Reaches c'') : c.Reaches c'' := by
  obtain ⟨taken, hrest, hposition⟩ := h
  obtain ⟨taken', hrest', hposition'⟩ := h'
  refine ⟨taken ++ taken', ?_, ?_⟩
  · rw [hrest, hrest', List.append_assoc]
  · rw [hposition', hposition, width_append, Nat.add_assoc]

theorem Reaches.position_le (h : c.Reaches c') : c.position ≤ c'.position := by
  obtain ⟨taken, -, hposition⟩ := h
  omega

theorem Reaches.length_le (h : c.Reaches c') : c'.rest.length ≤ c.rest.length := by
  obtain ⟨taken, hrest, -⟩ := h
  rw [hrest, List.length_append]
  omega

theorem width_pos {taken : List Char} (h : taken ≠ []) : 0 < width taken := by
  cases taken with
  | nil => exact absurd rfl h
  | cons x xs => exact Nat.lt_of_lt_of_le x.utf8Size_pos (Nat.le_add_right _ _)

theorem Reaches.position_lt (h : c.Reaches c') (hlt : c'.rest.length < c.rest.length) :
    c.position < c'.position := by
  obtain ⟨taken, hrest, hposition⟩ := h
  have hpos : 0 < width taken := width_pos fun hnil => by
    rw [hrest, hnil] at hlt
    exact absurd hlt (Nat.lt_irrefl _)
  omega

theorem length_le_width (cs : List Char) : cs.length ≤ width cs := by
  induction cs with
  | nil => exact Nat.le_refl 0
  | cons x xs ih =>
    have := x.utf8Size_pos
    rw [width, List.length_cons]
    omega

theorem width_eq_utf8Len (cs : List Char) : width cs = String.utf8Len cs := by
  induction cs with
  | nil => rfl
  | cons x xs ih => rw [width, ih, String.utf8Len, Nat.add_comm]

theorem past_next (c : Cursor) (x : Char) (xs taken rest : List Char) :
    (c.past [x] xs).past taken rest = c.past (x :: taken) rest :=
  congrArg (Cursor.mk · rest) (Nat.add_assoc _ _ _)

theorem in_ofString (text : String) : (ofString text).In text := ⟨[], rfl, rfl⟩

theorem In.reach (h : c.In text) (hc : c.Reaches c') : c'.In text := by
  obtain ⟨front, htext, hposition⟩ := h
  obtain ⟨taken, hrest, hposition'⟩ := hc
  refine ⟨front ++ taken, ?_, ?_⟩
  · rw [htext, hrest, List.append_assoc]
  · rw [hposition', hposition, width_append]

theorem In.position_add (h : c.In text) : c.position + width c.rest = text.utf8ByteSize := by
  obtain ⟨front, htext, hposition⟩ := h
  rw [← width_toList, htext, width_append, hposition]

theorem In.isValid (h : c.In text) : String.Pos.Raw.IsValid text ⟨c.position⟩ := by
  obtain ⟨front, htext, hposition⟩ := h
  refine String.Pos.Raw.isValid_iff_exists_append.2
    ⟨String.ofList front, String.ofList c.rest, ?_, ?_⟩
  · rw [← String.ofList_append, ← htext, String.ofList_toList]
  · change (⟨c.position⟩ : String.Pos.Raw) = ⟨(String.ofList front).utf8ByteSize⟩
    rw [hposition, ← width_toList, String.toList_ofList]

/-- The cursor stands in the text, not before `low`. -/
structure From (text : String) (low : Nat) (c : Cursor) : Prop where
  inside : c.In text
  low_le : low ≤ c.position

theorem From.reach {low : Nat} (h : c.From text low) (hc : c.Reaches c') : c'.From text low :=
  ⟨h.inside.reach hc, Nat.le_trans h.low_le hc.position_le⟩

/-- Characters that were taken are what the text has between the two offsets. -/
theorem In.cut_eq (h : c.In text) {taken rest : List Char} (hrest : c.rest = taken ++ rest) :
    Parsing.cut text c.position (c.position + width taken) = some (String.ofList taken) := by
  have hstop := (h.reach (reaches_past hrest)).isValid
  rw [Parsing.cut, if_pos ⟨Nat.le_add_right _ _, h.isValid, hstop⟩]
  obtain ⟨front, htext, hposition⟩ := h
  have hextract := String.extract_of_valid front taken rest
  rw [← width_eq_utf8Len, ← width_eq_utf8Len, ← hposition, List.append_assoc, ← hrest, ← htext,
    String.ofList_toList] at hextract
  exact congrArg some hextract

theorem In.cut_rest (h : c.In text) :
    Parsing.cut text c.position text.utf8ByteSize = some (String.ofList c.rest) := by
  rw [← h.position_add]
  exact h.cut_eq (List.append_nil c.rest).symm

end Cursor

namespace Parsing

variable {α β : Type}

def outcome : EStateM.Result DecodeError Cursor α → Except DecodeError α × Cursor
  | .ok a c => (.ok a, c)
  | .error e c => (.error e, c)

theorem eq_of_outcome {result : EStateM.Result DecodeError Cursor α} {a : α}
    (h : (outcome result).1 = .ok a) : result = .ok a (outcome result).2 := by
  cases result with
  | ok b c => exact congrArg (EStateM.Result.ok · c) (Except.ok.inj h)
  | error e c => exact nomatch h

/-- From the cursor on, the parser at depth `depth` does what the reader does, and an error lies
    neither before `low` nor behind what was read. -/
structure Tracks (depth low : Nat) (m : Parsing α) (r : Reading α) (c : Cursor) : Prop where
  run : m ⟨c.position, depth⟩ = some ((outcome (r c)).1, ⟨(outcome (r c)).2.position, depth⟩)
  reaches : c.Reaches (outcome (r c)).2
  error : ∀ e, (outcome (r c)).1 = .error e →
    low ≤ e.offset ∧ e.offset ≤ (outcome (r c)).2.position ∧
      (e = .empty → (outcome (r c)).2.position = 0)

variable {depth low : Nat} {m : Parsing α} {r : Reading α} {f : α → Parsing β}
  {g : α → Reading β} {c c' : Cursor}

theorem tracks_of_ok {a : α} (hr : r c = .ok a c')
    (hm : m ⟨c.position, depth⟩ = some (.ok a, ⟨c'.position, depth⟩)) (hc : c.Reaches c') :
    Tracks depth low m r c where
  run := by rw [hr]; exact hm
  reaches := by rw [hr]; exact hc
  error := by rw [hr]; exact nofun

theorem tracks_of_error {e : DecodeError} (hr : r c = .error e c')
    (hm : m ⟨c.position, depth⟩ = some (.error e, ⟨c'.position, depth⟩)) (hc : c.Reaches c')
    (hlow : low ≤ e.offset) (hhigh : e.offset ≤ c'.position)
    (hempty : e = .empty → c'.position = 0) : Tracks depth low m r c where
  run := by rw [hr]; exact hm
  reaches := by rw [hr]; exact hc
  error := by
    rw [hr]
    rintro _ ⟨⟩
    exact ⟨hlow, hhigh, hempty⟩

theorem tracks_pure (a : α) : Tracks depth low (pure a) (pure a) c :=
  tracks_of_ok rfl rfl c.reaches_self

theorem reaches_of_ok {a : α} (h : Tracks depth low m r c) (hr : r c = .ok a c') :
    c.Reaches c' := by
  have hreaches := h.reaches
  rwa [hr] at hreaches

/-- The steps behind matter where the first gave a result. -/
theorem Tracks.bind (h : Tracks depth low m r c)
    (k : ∀ a c', r c = .ok a c' → c.Reaches c' → Tracks depth low (f a) (g a) c') :
    Tracks depth low (m >>= f) (r >>= g) c := by
  have hrun := h.run
  cases hr : r c with
  | error e c' =>
    have hreaches := h.reaches
    have herror := h.error e (by rw [hr]; rfl)
    rw [hr] at hrun hreaches herror
    exact tracks_of_error (Reading.bind_error hr) (bind_error hrun) hreaches herror.1 herror.2.1
      herror.2.2
  | ok a c' =>
    have hreaches := reaches_of_ok h hr
    have hk := k a c' hr hreaches
    rw [hr] at hrun
    constructor
    · rw [bind_ok hrun, Reading.bind_ok hr]
      exact hk.run
    · rw [Reading.bind_ok hr]
      exact hreaches.trans hk.reaches
    · rw [Reading.bind_ok hr]
      exact hk.error

theorem Tracks.advance {γ : Type} {r : Reading γ} {g : γ → Reading β} {a : α} {b : γ}
    (hr : r c = .ok b c') (hm : m ⟨c.position, depth⟩ = some (.ok a, ⟨c'.position, depth⟩))
    (hc : c.Reaches c') (k : Tracks depth low (f a) (g b) c') :
    Tracks depth low (m >>= f) (r >>= g) c where
  run := by rw [bind_ok hm, Reading.bind_ok hr, k.run]
  reaches := by
    rw [Reading.bind_ok hr]
    exact hc.trans k.reaches
  error := by
    rw [Reading.bind_ok hr]
    exact k.error

theorem Tracks.step {o : Parsing α} {a : α} {r : Reading β}
    (h : o ⟨c.position, depth⟩ = some (.ok a, ⟨c.position, depth⟩))
    (k : Tracks depth low (f a) r c) : Tracks depth low (o >>= f) r c where
  run := by rw [bind_ok h, k.run]
  reaches := k.reaches
  error := k.error

theorem Tracks.of_eq {r' : Reading α} (h : r c = r' c) (k : Tracks depth low m r' c) :
    Tracks depth low m r c where
  run := by rw [h, k.run]
  reaches := by rw [h]; exact k.reaches
  error := by rw [h]; exact k.error

theorem Tracks.ite {p p' : Prop} [Decidable p] [Decidable p'] {m' : Parsing α} {r' : Reading α}
    (hp : p ↔ p') (h : p' → Tracks depth low m r c) (h' : ¬ p' → Tracks depth low m' r' c) :
    Tracks depth low (if p then m else m') (if p' then r else r') c := by
  by_cases hc : p'
  · rw [if_pos hc, if_pos (hp.2 hc)]
    exact h hc
  · rw [if_neg hc, if_neg (mt hp.1 hc)]
    exact h' hc

/-- Whatever the steps end with, the depth is the same again. -/
theorem tracks_deeper (h : Tracks (depth + 1) low m r c) : Tracks depth low (deeper m) r c where
  run := by
    have hattempt : attempt m ⟨c.position, depth + 1⟩ =
        some (.ok (outcome (r c)).1, ⟨(outcome (r c)).2.position, depth + 1⟩) := by
      rw [attempt, h.run]
      rfl
    have henter : enter ⟨c.position, depth⟩ = some (.ok (), ⟨c.position, depth + 1⟩) := rfl
    rw [deeper, bind_ok henter, bind_ok hattempt]
    cases (outcome (r c)).1 <;> rfl
  reaches := h.reaches
  error := h.error

section

variable (text : String)

def peek : Parsing (Option Char) := do
  let rest ← cut text (← position) text.utf8ByteSize
  return rest.toList.head?

def next : Parsing (Option Char) := do
  match ← peek text with
  | none => return none
  | some x =>
    modify fun s => { s with position := s.position + x.utf8Size }
    return some x

def any : Parsing Char := do
  match ← next text with
  | some x => return x
  | none => throw (.unexpectedEnd (← position))

def expect (want : Char) : Parsing Unit := do
  let start ← position
  match ← next text with
  | some x => if x = want then return () else throw (.unexpectedChar start x)
  | none => throw (.unexpectedEnd start)

def unexpected : Parsing α := do
  match ← peek text with
  | none => throw (.unexpectedEnd (← position))
  | some x => throw (.unexpectedChar (← position) x)

end

variable {text : String}

theorem tracks_unexpectedEnd (hc : c.From text low) :
    Tracks depth low (do throw (.unexpectedEnd (← position)) : Parsing α)
      (do throw (.unexpectedEnd (← Reading.position))) c :=
  tracks_of_error rfl rfl c.reaches_self hc.low_le (Nat.le_refl _) nofun

theorem peek_eq (hc : c.In text) (depth : Nat) :
    peek text ⟨c.position, depth⟩ = some (.ok c.rest.head?, ⟨c.position, depth⟩) := by
  rw [peek, bind_ok (a := c.position) rfl, bind_ok (lift_eq hc.cut_rest _), String.toList_ofList]
  rfl

theorem Tracks.peek {f : Option Char → Parsing β} {g : Option Char → Reading β} (hc : c.In text)
    (k : Tracks depth low (f c.rest.head?) (g c.rest.head?) c) :
    Tracks depth low (Parsing.peek text >>= f) (Reading.peek >>= g) c :=
  .of_eq (Reading.bind_ok rfl) (.step (peek_eq hc _) k)

theorem next_eq (hc : c.In text) {x : Char} {xs : List Char} (hrest : c.rest = x :: xs) :
    next text ⟨c.position, depth⟩ =
      some (.ok (some x), ⟨c.position + Cursor.width [x], depth⟩) := by
  have hpeek := peek_eq hc depth
  rw [hrest] at hpeek
  rw [next, bind_ok hpeek]
  rfl

theorem next_eq_none (hc : c.In text) (hrest : c.rest = []) :
    next text ⟨c.position, depth⟩ = some (.ok none, ⟨c.position, depth⟩) := by
  have hpeek := peek_eq hc depth
  rw [hrest] at hpeek
  rw [next, bind_ok hpeek]
  rfl

theorem tracks_next (hc : c.From text low) : Tracks depth low (next text) Reading.next c := by
  obtain ⟨p, rest⟩ := c
  cases rest with
  | nil => exact tracks_of_ok rfl (next_eq_none hc.inside rfl) (Cursor.reaches_self _)
  | cons x xs => exact tracks_of_ok rfl (next_eq hc.inside rfl) (Cursor.reaches_past rfl)

theorem tracks_any (hc : c.From text low) : Tracks depth low (any text) Reading.any c := by
  refine (tracks_next hc).bind fun x c' _ hreach => ?_
  cases x with
  | none => exact tracks_unexpectedEnd (hc.reach hreach)
  | some x => exact tracks_pure x

theorem tracks_expect (hc : c.From text low) (want : Char) :
    Tracks depth low (expect text want) (Reading.expect want) c := by
  refine .of_eq (Reading.bind_ok rfl) (.step rfl ?_)
  refine (tracks_next hc).bind fun x c' _ hreach => ?_
  have hle := hreach.position_le
  cases x with
  | none => exact tracks_of_error rfl rfl c'.reaches_self hc.low_le hle nofun
  | some x =>
    refine .ite Iff.rfl (fun _ => tracks_pure ()) fun _ => ?_
    exact tracks_of_error rfl rfl c'.reaches_self hc.low_le hle nofun

theorem tracks_unexpected (hc : c.From text low) :
    Tracks depth low (unexpected text : Parsing α) Reading.unexpected c := by
  obtain ⟨p, rest⟩ := c
  refine .of_eq (Reading.bind_ok rfl) (.step (peek_eq hc.inside _) ?_)
  cases rest with
  | nil => exact tracks_unexpectedEnd hc
  | cons x xs =>
    exact tracks_of_error rfl rfl (Cursor.reaches_self _) hc.low_le (Nat.le_refl _) nofun

end Parsing

end ObjcAtlas
