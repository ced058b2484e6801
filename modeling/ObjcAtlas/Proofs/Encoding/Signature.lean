import Mathlib.Algebra.Ring.Int.Defs
import Mathlib.Algebra.Ring.Nat
import Mathlib.Data.List.Chain
import ObjcAtlas.Encoding.Method
import ObjcAtlas.Proofs.Encoding.RoundTrip

set_option autoImplicit false

namespace ObjcAtlas

open ObjcType Reading MethodSignature

namespace MethodSignature

def items (s : MethodSignature) : List MethodArgument :=
  ⟨s.returns, s.frameSize.map Int.ofNat⟩ :: s.arguments

end MethodSignature

/-- A type and a number that are read as the two that they are. -/
structure MethodArgument.Legible (a : MethodArgument) : Prop where
  canonical : a.type.Canonical
  nesting : a.type.nesting ≤ maxNesting
  number : ∀ n ∈ a.offset, n.natAbs < 2 ^ 63
  bitfield : a.offset.isSome → endsInBitfield a.type = false

/-- Without a number in between, a bare `?` does not stand right behind an object of any class. -/
def MethodArgument.Apart (a b : MethodArgument) : Prop :=
  a.offset = none → endsInId a.type = true → b.type ≠ .primitive .unknown

structure MethodSignature.Legible (s : MethodSignature) : Prop where
  items : ∀ a ∈ s.items, a.Legible
  apart : s.items.IsChain MethodArgument.Apart

namespace Reading

def startsOffset (c : Char) : Bool := c.isDigit || c == '-' || c == '+'

theorem reads_offset_none {rest : List Char} (hr : Stops startsOffset rest) :
    Reads offset (spellOffset none) rest none := by
  intro p
  have hposition : position ⟨p, rest⟩ = .ok p ⟨p, rest⟩ := rfl
  have hpeek : peek ⟨p, rest⟩ = .ok rest.head? ⟨p, rest⟩ := rfl
  have hsign : ¬ (rest.head? = some '-' ∨ rest.head? = some '+') := by
    rintro (h | h) <;> exact absurd (hr _ h) (by decide)
  rw [spellOffset, List.nil_append, offset, bind_ok hposition, bind_ok hpeek, if_neg hsign]
  change (peek >>= _ : Reading (Option Int)) _ = _
  rw [bind_ok hpeek]
  cases hd : rest.head? with
  | none =>
    simp only
    rw [bind_ok hposition, if_pos rfl]
    rfl
  | some d =>
    have hdigit : d.isDigit = false := by
      have h := hr d hd
      simp only [startsOffset, Bool.or_eq_false_iff] at h
      exact h.1.1
    simp only
    rw [hdigit, if_neg (by decide), bind_ok hposition, if_pos rfl]
    rfl

theorem toDigits_eq_cons (n : Nat) :
    ∃ d ds, Nat.toDigits 10 n = d :: ds ∧ d.isDigit = true ∧ d ≠ '-' ∧ d ≠ '+' := by
  obtain ⟨hne, hall⟩ := isDigit_of_isNumeral (isNumeral_toDigits n)
  obtain ⟨d, ds, hds⟩ := List.exists_cons_of_ne_nil hne
  have hd : d.isDigit = true := hall d (by simp [hds])
  refine ⟨d, ds, hds, hd, ?_, ?_⟩ <;> (rintro rfl; cases hd)

theorem reads_offset_some {rest : List Char} {n : Int} (hn : n.natAbs < 2 ^ 63)
    (hr : Stops Char.isDigit rest) : Reads offset (spellOffset (some n)) rest (some n) := by
  have hhalf : n.natAbs < UInt64.size / 2 := hn
  have hwide : (UInt64.ofNat n.natAbs).toNat = n.natAbs :=
    UInt64.toNat_ofNat_of_lt' (Nat.lt_of_lt_of_le hn (by decide))
  have hnumber : Reads number (Nat.toDigits 10 n.natAbs) rest (UInt64.ofNat n.natAbs) :=
    reads_number (by rw [hwide]; exact isNumeral_toDigits _) hr
  obtain ⟨d, ds, hds, hd, hminus, hplus⟩ := toDigits_eq_cons n.natAbs
  rw [hds] at hnumber
  have h : ReadsIf True offset (spellOffset (some n)) rest (some n) := by
    refine ReadsIf.position_bind fun start => ReadsIf.peek_bind ?_
    rw [spellOffset, hds]
    by_cases hneg : n < 0
    · simp only [hneg, List.cons_append, List.nil_append, List.head?_cons, true_or, ↓reduceIte]
      refine ReadsIf.next_bind (ReadsIf.peek_bind ?_)
      simp only [List.cons_append, List.head?_cons, hd, ↓reduceIte]
      refine hnumber.toReadsIf.bind_pure ?_
      rw [hwide, if_pos hhalf]
      congr 2
      omega
    · simp only [hneg, List.cons_append, List.nil_append, List.head?_cons, Option.some.injEq,
        hminus, hplus, or_self, ↓reduceIte]
      refine ReadsIf.peek_bind ?_
      simp only [List.cons_append, List.head?_cons, hd, ↓reduceIte]
      refine hnumber.toReadsIf.bind_pure ?_
      rw [hwide, if_pos hhalf]
      congr 2
      omega
  exact h.reads trivial

end Reading

theorem ObjcType.Written.stops {named : Bool} {rest x : List Char} {t : ObjcType}
    (h : Written named rest t x) (z : List Char) : Stops startsOffset (x ++ z) := by
  cases h with
  | primitive p => rintro c ⟨⟩; cases p <;> rfl
  | @aggregate _ _ _ _ k => rintro c ⟨⟩; cases k <;> rfl
  | @incomplete _ _ _ k => rintro c ⟨⟩; cases k <;> rfl
  | @qualified _ _ _ qs _ hqs =>
    cases qs with
    | nil => exact absurd rfl hqs
    | cons q qs => rintro c ⟨⟩; cases q <;> rfl
  | pointer | array | bitfield | id | object | block | blockOf => rintro c ⟨⟩; rfl

namespace MethodSignature

theorem stops_items {as : List MethodArgument} (h : ∀ a ∈ as, a.Legible) :
    Stops startsOffset (as.flatMap spellArgument) := by
  cases as with
  | nil => rintro c ⟨⟩
  | cons a as =>
    have hw := written_spell a.type (h a List.mem_cons_self).canonical (precedes_nil false a.type)
    rw [List.flatMap_cons, spellArgument, List.append_assoc]
    exact hw.stops _

theorem precedes_number {t : ObjcType} {n : Int} (rest : List Char)
    (ht : endsInBitfield t = false) : Precedes false (spellOffset (some n) ++ rest) t := by
  obtain ⟨d, ds, hds, hd, -, -⟩ := toDigits_eq_cons n.natAbs
  have hhead : ∀ c, c.isDigit = false → c ≠ '-' →
      (spellOffset (some n) ++ rest).head? ≠ some c := by
    intro c hc hminus
    rw [spellOffset, hds]
    split
    · simpa using hminus.symm
    · simpa using fun he : d = c => by rw [he, hc] at hd; cases hd
  apply precedes_of_head
  · intro he
    rw [ht] at he
    cases he
  · exact hhead _ (by decide) (by decide)
  · exact fun _ => hhead _ (by decide) (by decide)
  · exact fun _ => hhead _ (by decide) (by decide)

theorem precedes_items {a : MethodArgument} {as : List MethodArgument} (ha : a.Legible)
    (has : ∀ b ∈ as, b.Legible) (hc : (a :: as).IsChain MethodArgument.Apart) :
    Precedes false (spellOffset a.offset ++ as.flatMap spellArgument) a.type := by
  cases ho : a.offset with
  | some n => exact precedes_number _ (ha.bitfield (by rw [ho]; rfl))
  | none =>
    rw [spellOffset, List.nil_append]
    cases as with
    | nil => exact precedes_nil false a.type
    | cons b bs =>
      have hb := (has b List.mem_cons_self).canonical
      obtain ⟨c, cs, hcs, hl⟩ := (written_spell b.type hb (precedes_nil false b.type)).leads
      have hapart : a.Apart b := (List.isChain_cons_cons.1 hc).1
      rw [List.flatMap_cons, spellArgument, hcs]
      exact precedes_of_leads _ hl (hapart ho)

end MethodSignature

namespace Reading

theorem reads_offset {o : Option Int} {rest : List Char} (ho : ∀ n ∈ o, n.natAbs < 2 ^ 63)
    (hr : Stops startsOffset rest) : Reads offset (spellOffset o) rest o := by
  cases o with
  | none => exact reads_offset_none hr
  | some n =>
    refine reads_offset_some (ho n rfl) fun c hc => ?_
    have h := hr c hc
    simp only [startsOffset, Bool.or_eq_false_iff] at h
    exact h.1.1

theorem reads_type {a : MethodArgument} {as : List MethodArgument}
    (h : ∀ b ∈ a :: as, b.Legible) (hc : (a :: as).IsChain MethodArgument.Apart) :
    Reads type (spell a.type) (spellOffset a.offset ++ as.flatMap spellArgument) a.type := by
  obtain ⟨ha, has⟩ := List.forall_mem_cons.1 h
  have hr := precedes_items ha has hc
  exact (typeWithin_spell a.type ha.canonical maxNesting false _ hr).reads ha.nesting

theorem reads_methodArguments (as : List MethodArgument) (h : ∀ a ∈ as, a.Legible)
    (hc : as.IsChain MethodArgument.Apart) (fuel : Nat) (hf : as.length < fuel) :
    Reads (methodArguments fuel) (as.flatMap spellArgument) [] as := by
  induction as generalizing fuel with
  | nil =>
    intro p
    cases fuel with
    | zero => rfl
    | succ fuel => rfl
  | cons a as ih =>
    cases fuel with
    | zero => exact absurd hf (Nat.not_lt_zero _)
    | succ fuel =>
      obtain ⟨ha, has⟩ := List.forall_mem_cons.1 h
      have htype := reads_type h hc
      have hoffset := reads_offset ha.number (stops_items has)
      have htail := ih has hc.tail fuel (by simpa using hf)
      have hne : spell a.type ≠ [] := List.ne_nil_of_length_pos (spell_length_pos _ ha.canonical)
      have hstep : ReadsIf True (methodArguments (fuel + 1))
          (spell a.type ++ (spellOffset a.offset ++ as.flatMap spellArgument)) [] (a :: as) := by
        rw [methodArguments]
        refine ReadsIf.get_bind fun p => ?_
        rw [List.append_nil, List.isEmpty_eq_false_iff.2 (by simp [hne])]
        refine Reads.bind (by simpa using htype) (Reads.bind (by simpa using hoffset) ?_)
        exact htail.toReadsIf.bind_pure rfl
      simpa [spellArgument] using hstep.reads trivial

theorem reads_frameSize {size : Option Nat} {rest : List Char}
    (h : Reads offset (spellOffset (size.map Int.ofNat)) rest (size.map Int.ofNat)) :
    Reads frameSize (spellOffset (size.map Int.ofNat)) rest size := by
  have hread : ReadsIf True frameSize (spellOffset (size.map Int.ofNat)) rest size := by
    refine h.toReadsIf.bind_pure ?_
    cases size with
    | none => rfl
    | some n => exact if_neg (by simp)
  exact hread.reads trivial

theorem length_le_items (as : List MethodArgument) (h : ∀ a ∈ as, a.Legible) :
    as.length ≤ (as.flatMap spellArgument).length := by
  induction as with
  | nil => simp
  | cons a as ih =>
    obtain ⟨ha, has⟩ := List.forall_mem_cons.1 h
    have hpos := spell_length_pos a.type ha.canonical
    have hle := ih has
    simp only [List.flatMap_cons, spellArgument, List.length_append, List.length_cons]
    omega

theorem reads_nonempty {rest : List Char} (h : rest ≠ []) : Reads nonempty [] rest () := by
  intro p
  have hget : (get : Reading Cursor) ⟨p, rest⟩ = .ok ⟨p, rest⟩ ⟨p, rest⟩ := rfl
  have hblank : Cursor.isBlank ⟨p, rest⟩ = false := by
    simp [Cursor.isBlank, h]
  rw [nonempty, List.nil_append, bind_ok hget, hblank]
  rfl

theorem reads_signature {s : MethodSignature} (h : s.Legible) :
    Reads signature (s.items.flatMap spellArgument) [] s := by
  obtain ⟨hreturns, hargs⟩ := List.forall_mem_cons.1 h.items
  have htype := reads_type h.items h.apart
  have hsize := reads_frameSize (reads_offset hreturns.number (stops_items hargs))
  have hlength := length_le_items s.arguments hargs
  have hparts : s.items.flatMap spellArgument = [] ++ (spell s.returns ++
      (spellOffset (s.frameSize.map Int.ofNat) ++ s.arguments.flatMap spellArgument)) := by
    simp [items, spellArgument]
  have hne : spell s.returns ≠ [] :=
    List.ne_nil_of_length_pos (spell_length_pos _ hreturns.canonical)
  have hread : ReadsIf True signature (s.items.flatMap spellArgument) [] s := by
    rw [hparts]
    refine Reads.bind (reads_nonempty (by simp [hne])) ?_
    refine Reads.bind (by simpa using htype) (Reads.bind (by simpa using hsize) ?_)
    refine ReadsIf.get_bind fun p => (Reads.toReadsIf ?_).bind_pure rfl
    exact reads_methodArguments _ hargs h.apart.tail _ (by simpa using Nat.lt_succ_of_le hlength)
  exact hread.reads trivial

end Reading

namespace MethodSignature

theorem Legible.decode_encode {s : MethodSignature} (h : s.Legible) : decode s.encode = .ok s := by
  have hread := reads_signature h 0
  have hcursor : Cursor.ofString s.encode = ⟨0, s.items.flatMap spellArgument⟩ := by
    rw [Cursor.ofString, encode, String.toList_ofList]
    rfl
  rw [List.append_nil] at hread
  rw [decode, hcursor, run, EStateM.run, hread]

theorem sameTypes_iff (s t : MethodSignature) :
    s.sameTypes t = true ↔ s.returns = t.returns ∧ s.argumentTypes = t.argumentTypes := by
  rw [sameTypes, Bool.and_eq_true, beq_iff_eq, beq_iff_eq]

/-- A legible signature is read back from its compact form. Two of them with the same types are
    therefore decoded to signatures of the same types, whatever numbers stand in either text. -/
theorem decode_encode_of_legible (s : MethodSignature) (h : s.Legible) :
    decode s.encode = .ok s ∧ ∀ t : MethodSignature, t.Legible →
      ∃ d e, decode s.encode = .ok d ∧ decode t.encode = .ok e ∧
        (d.sameTypes e = true ↔ s.returns = t.returns ∧ s.argumentTypes = t.argumentTypes) :=
  ⟨h.decode_encode, fun t ht => ⟨s, t, h.decode_encode, ht.decode_encode, sameTypes_iff s t⟩⟩

/-- An object of any class before a bare `?`, with a number in between, and a bitfield without
    one. -/
def sampleSignature (size : Option Nat) (offset : Option Int) : MethodSignature where
  returns := .pointer .id
  frameSize := size
  arguments := [
    ⟨.id, offset⟩,
    ⟨.qualified [.const] .id, some 8⟩,
    ⟨.primitive .unknown, offset⟩,
    ⟨.pointer (.bitfield 3), none⟩,
    ⟨.aggregate .struct (some "a<b=c>") [⟨none, .array 4 .id⟩, ⟨none, .block⟩], offset⟩]

theorem legible_sampleSignature {size : Option Nat} {offset : Option Int}
    (hsize : ∀ n ∈ size, n < 2 ^ 63) (hoffset : ∀ n ∈ offset, n.natAbs < 2 ^ 63) :
    (sampleSignature size offset).Legible := by
  have hid : ObjectOk none [] := ⟨nofun, nofun⟩
  have hframe : ∀ n ∈ size.map Int.ofNat, n.natAbs < 2 ^ 63 := by
    cases size with
    | none => nofun
    | some n => simpa using hsize
  have hitems : ∀ a ∈ (sampleSignature size offset).items, a.Legible := by
    simp only [items, sampleSignature, List.forall_mem_cons]
    refine ⟨⟨?_, ?_, hframe, ?_⟩, ⟨?_, ?_, hoffset, ?_⟩, ⟨?_, ?_, by simp, ?_⟩,
      ⟨?_, ?_, hoffset, ?_⟩, ⟨?_, ?_, nofun, ?_⟩, ⟨?_, ?_, hoffset, ?_⟩, nofun⟩ <;>
      simp [ObjcType.id, Canonical, CanonicalMembers, CanonicalMember, TagOk, Enclosed, angleDepth,
        NamesOk, NoClash, endsInId, endsInBitfield, isQualified, AggregateKind.closing, hid,
        ObjcType.nesting, nestingMembers, nestingMember, maxNesting]
  have hapart : (sampleSignature size offset).items.IsChain MethodArgument.Apart := by
    simp [items, sampleSignature, MethodArgument.Apart, ObjcType.id, endsInId]
  exact ⟨hitems, hapart⟩

theorem decode_encode_sampleSignature :
    (sampleSignature none none).Legible ∧
      (sampleSignature (some (2 ^ 63 - 1)) (some (1 - 2 ^ 63))).Legible ∧
      ∃ d e, decode (sampleSignature none none).encode = .ok d ∧
        decode (sampleSignature (some (2 ^ 63 - 1)) (some (1 - 2 ^ 63))).encode = .ok e ∧
        d ≠ e ∧ d.sameTypes e = true := by
  have hs : (sampleSignature none none).Legible := legible_sampleSignature nofun nofun
  have ht : (sampleSignature (some (2 ^ 63 - 1)) (some (1 - 2 ^ 63))).Legible :=
    legible_sampleSignature (by simp) (by simp)
  obtain ⟨d, e, hd, he, hsame⟩ := (decode_encode_of_legible _ hs).2 _ ht
  refine ⟨hs, ht, d, e, hd, he, ?_, hsame.2 ⟨rfl, rfl⟩⟩
  rw [(decode_encode_of_legible _ hs).1] at hd
  rw [(decode_encode_of_legible _ ht).1] at he
  cases hd
  cases he
  simp [sampleSignature]

end MethodSignature

end ObjcAtlas
