import Mathlib.Algebra.Ring.Nat
import ObjcAtlas.Fixup.Draft
import ObjcAtlas.Proofs.Fixup.Walk

set_option autoImplicit false

namespace ObjcAtlas

namespace SlotWord

theorem toNat_shiftLeft {n k : UInt64} {i : Nat} (hk : k.toNat = i) (hi : i < 64)
    (h : n.toNat * 2 ^ i < 2 ^ 64) : (n <<< k).toNat = n.toNat * 2 ^ i := by
  rw [UInt64.toNat_shiftLeft, hk, Nat.mod_eq_of_lt hi, Nat.shiftLeft_eq, Nat.mod_eq_of_lt h]

theorem or_eq_add {high low i : Nat} (h : low < 2 ^ i) :
    high * 2 ^ i ||| low = high * 2 ^ i + low := by
  rw [← Nat.shiftLeft_eq, ← Nat.shiftLeft_add_eq_or_of_lt h]

theorem toNat_rebase64 {target : UInt64} {next : Nat} (ht : target.toNat < 2 ^ 36)
    (hn : next < 2 ^ 12) :
    (rebase64 target (UInt64.ofNat next)).toNat = next * 2 ^ 51 + target.toNat := by
  have hnext : (UInt64.ofNat next).toNat = next := by
    rw [UInt64.toNat_ofNat', Nat.mod_eq_of_lt (by omega)]
  have hlow : (target &&& (0xFFFFFFFFF : UInt64)).toNat = target.toNat := by
    rw [UInt64.toNat_and, show (0xFFFFFFFFF : UInt64).toNat = 2 ^ 36 - 1 from rfl,
      Nat.and_two_pow_sub_one_eq_mod, Nat.mod_eq_of_lt ht]
  have hhigh : (UInt64.ofNat next <<< (51 : UInt64)).toNat = next * 2 ^ 51 := by
    rw [toNat_shiftLeft (i := 51) rfl (by decide) (by rw [hnext]; omega), hnext]
  rw [rebase64, UInt64.toNat_or, hlow, hhigh, Nat.or_comm, or_eq_add (by omega)]

theorem toNat_bind64 {ordinal : UInt32} {next : Nat} (addend : UInt8)
    (ho : ordinal.toNat < 2 ^ 24) (hn : next < 2 ^ 12) :
    (bind64 ordinal addend (UInt64.ofNat next)).toNat =
      2 ^ 63 + next * 2 ^ 51 + addend.toNat * 2 ^ 24 + ordinal.toNat := by
  have hnext : (UInt64.ofNat next).toNat = next := by
    rw [UInt64.toNat_ofNat', Nat.mod_eq_of_lt (by omega)]
  have haddend := addend.toNat_lt
  have hhigh : (UInt64.ofNat next <<< (51 : UInt64)).toNat = next * 2 ^ 51 := by
    rw [toNat_shiftLeft (i := 51) rfl (by decide) (by rw [hnext]; omega), hnext]
  have hmid : (addend.toUInt64 <<< (24 : UInt64)).toNat = addend.toNat * 2 ^ 24 := by
    rw [toNat_shiftLeft (i := 24) rfl (by decide) (by rw [UInt8.toNat_toUInt64]; omega),
      UInt8.toNat_toUInt64]
  have htop : 2 ^ 63 ||| next * 2 ^ 51 = (2 ^ 12 + next) * 2 ^ 51 := by
    rw [show 2 ^ 63 = 1 * 2 ^ 63 by omega, or_eq_add (by omega)]
    omega
  have hall : (2 ^ 12 + next) * 2 ^ 51 ||| addend.toNat * 2 ^ 24 =
      ((2 ^ 12 + next) * 2 ^ 27 + addend.toNat) * 2 ^ 24 := by
    rw [or_eq_add (by omega)]
    omega
  rw [bind64, UInt64.toNat_or, UInt64.toNat_or, UInt64.toNat_or, hhigh, hmid,
    UInt32.toNat_toUInt64, show (0x8000000000000000 : UInt64).toNat = 2 ^ 63 from rfl, htop, hall,
    or_eq_add (by omega)]
  omega

end SlotWord

/-- What is written to a slot: an address, or the number of an import and an addend. -/
inductive SlotDraft where
  | rebase (target : UInt64)
  | bind (number : Nat) (addend : UInt8)
deriving DecidableEq, Repr

namespace SlotDraft

/-- The slot's word when the next slot is `next` strides ahead. -/
def word (next : Nat) : SlotDraft → UInt64
  | .rebase target => SlotWord.rebase64 target (UInt64.ofNat next)
  | .bind number addend => SlotWord.bind64 (UInt32.ofNat number) addend (UInt64.ofNat next)

def entry : SlotDraft → ChainEntry
  | .rebase target => .rebase target 0 none
  | .bind number addend => .bind (UInt32.ofNat number) (Int64.ofNat addend.toNat) none

def Fits (importCount : Nat) : SlotDraft → Prop
  | .rebase target => target.toNat < 2 ^ 36
  | .bind number _ => number < importCount

theorem toNat_number {importCount number : Nat} (hs : number < importCount)
    (hc : importCount < 2 ^ 24) : (UInt32.ofNat number).toNat = number := by
  rw [UInt32.toNat_ofNat', Nat.mod_eq_of_lt (by omega)]

theorem decode_word {slot : SlotDraft} {importCount next : Nat} (hs : slot.Fits importCount)
    (hc : importCount < 2 ^ 24) (hn : next < 2 ^ 12) :
    ChainEntry.decode .ptr64 (slot.word next) = (slot.entry, next) := by
  cases slot with
  | rebase target =>
    have ht : target.toNat < 2 ^ 36 := hs
    have hraw := SlotWord.toNat_rebase64 ht hn
    have hmark : (next * 2 ^ 51 + target.toNat) / 2 ^ 63 % 2 ^ 1 = 0 := by omega
    have htarget : (next * 2 ^ 51 + target.toNat) / 2 ^ 0 % 2 ^ 36 = target.toNat := by omega
    have hhigh : (next * 2 ^ 51 + target.toNat) / 2 ^ 36 % 2 ^ 8 = 0 := by omega
    have hnext : (next * 2 ^ 51 + target.toNat) / 2 ^ 51 % 2 ^ 12 = next := by omega
    simp only [ChainEntry.decode, word, entry, bitSet, bitField, hraw, Nat.shiftRight_eq_div_pow,
      Nat.one_shiftLeft, hmark, htarget, hhigh, hnext, UInt64.ofNat_toNat]
    rfl
  | bind number addend =>
    have hi : number < importCount := hs
    have hordinal := toNat_number hi hc
    have haddend := addend.toNat_lt
    have hraw := SlotWord.toNat_bind64 addend (by rw [hordinal]; omega) hn
    rw [hordinal] at hraw
    generalize hw : 2 ^ 63 + next * 2 ^ 51 + addend.toNat * 2 ^ 24 + number = raw at hraw
    have hmark : raw / 2 ^ 63 % 2 ^ 1 = 1 := by omega
    have hnumber : raw / 2 ^ 0 % 2 ^ 24 = number := by omega
    have hmid : raw / 2 ^ 24 % 2 ^ 8 = addend.toNat := by omega
    have hnext : raw / 2 ^ 51 % 2 ^ 12 = next := by omega
    simp only [ChainEntry.decode, word, entry, bitSet, bitField, hraw, Nat.shiftRight_eq_div_pow,
      Nat.one_shiftLeft, hmark, hnumber, hmid, hnext]
    rfl

/-- Strides from a slot to the first of those behind it, zero if there are none. -/
def gap (offset : Nat) : List (Nat × SlotDraft) → Nat
  | [] => 0
  | (next, _) :: _ => (next - offset) / 4

/-- The words of slots that lead one to the next. -/
def linked : List (Nat × SlotDraft) → List (Nat × UInt64)
  | [] => []
  | (offset, slot) :: rest => (offset, slot.word (gap offset rest)) :: linked rest

structure Ordered (importCount : Nat) (slots : List (Nat × SlotDraft)) : Prop where
  aligned : ∀ x ∈ slots, x.1 % 4 = 0
  inPage : ∀ x ∈ slots, x.1 + 8 ≤ 0x4000
  apart : slots.Pairwise fun x y => x.1 + 8 ≤ y.1
  fits : ∀ x ∈ slots, x.2.Fits importCount

theorem Ordered.tail {importCount : Nat} {x : Nat × SlotDraft} {slots : List (Nat × SlotDraft)}
    (h : Ordered importCount (x :: slots)) : Ordered importCount slots where
  aligned y hy := h.aligned y (List.mem_cons_of_mem _ hy)
  inPage y hy := h.inPage y (List.mem_cons_of_mem _ hy)
  apart := (List.pairwise_cons.1 h.apart).2
  fits y hy := h.fits y (List.mem_cons_of_mem _ hy)

theorem Ordered.gap_lt {importCount offset : Nat} {slot : SlotDraft}
    {slots : List (Nat × SlotDraft)} (h : Ordered importCount ((offset, slot) :: slots)) :
    gap offset slots < 2 ^ 12 := by
  cases slots with
  | nil => exact Nat.two_pow_pos 12
  | cons y rest =>
    have hy := h.inPage y (List.mem_cons_of_mem _ List.mem_cons_self)
    rw [gap]
    omega

theorem Ordered.decode_linked {importCount : Nat} {slots : List (Nat × SlotDraft)}
    (h : Ordered importCount slots) (hc : importCount < 2 ^ 24) :
    (linked slots).map (fun x => (x.1, (ChainEntry.decode .ptr64 x.2).1)) =
      slots.map fun x => (x.1, x.2.entry) := by
  induction slots with
  | nil => rfl
  | cons x slots ih =>
    rw [linked, List.map_cons, List.map_cons, ih h.tail,
      decode_word (h.fits x List.mem_cons_self) hc h.gap_lt]

theorem map_fst_linked (slots : List (Nat × SlotDraft)) :
    (linked slots).map Prod.fst = slots.map Prod.fst := by
  induction slots with
  | nil => rfl
  | cons x slots ih => rw [linked, List.map_cons, List.map_cons, ih]

theorem Ordered.linked_apart {importCount : Nat} {slots : List (Nat × SlotDraft)}
    (h : Ordered importCount slots) : (linked slots).Pairwise fun x y => x.1 + 8 ≤ y.1 := by
  have hfst : ((linked slots).map Prod.fst).Pairwise fun a b => a + 8 ≤ b := by
    rw [map_fst_linked, List.pairwise_map]
    exact h.apart
  rwa [List.pairwise_map] at hfst

def visits (w : PageWalk) (slots : List (Nat × SlotDraft)) : List ChainVisit :=
  (linked slots).map fun x => ⟨w, x.1, x.2⟩

section

variable {w : PageWalk} {slots : List (Nat × SlotDraft)}

/-- Where the words stand in the page, a chain runs through all slots. -/
theorem Ordered.chain {offset : Nat} {slot : SlotDraft} (hf : w.starts.format = .ptr64)
    (hc : w.importCount < 2 ^ 24) (h : Ordered w.importCount ((offset, slot) :: slots))
    (hr : ∀ v ∈ visits w ((offset, slot) :: slots), v.Read) :
    Chain w offset (visits w ((offset, slot) :: slots)) := by
  induction slots generalizing offset slot with
  | nil =>
    refine .last (hr _ List.mem_cons_self) ?_
    rw [ChainVisit.next, ChainVisit.format, hf,
      decode_word (h.fits _ List.mem_cons_self) hc h.gap_lt]
    rfl
  | cons y rest ih =>
    obtain ⟨offset', slot'⟩ := y
    have hnext : ChainVisit.next ⟨w, offset, slot.word (gap offset ((offset', slot') :: rest))⟩ =
        (offset' - offset) / 4 := by
      rw [ChainVisit.next, ChainVisit.format, hf,
        decode_word (h.fits _ List.mem_cons_self) hc h.gap_lt]
      rfl
    have hap : offset + 8 ≤ offset' :=
      (List.pairwise_cons.1 h.apart).1 (offset', slot') List.mem_cons_self
    have ha : offset % 4 = 0 := h.aligned (offset, slot) List.mem_cons_self
    have ha' : offset' % 4 = 0 :=
      h.aligned (offset', slot') (List.mem_cons_of_mem _ List.mem_cons_self)
    have htail := ih h.tail fun v hv => hr v (List.mem_cons_of_mem _ hv)
    refine .step (hr _ List.mem_cons_self) (by rw [hnext]; omega) ?_
    rw [hnext, hf, show offset + (offset' - offset) / 4 * PointerFormat.ptr64.stride = offset' by
      change offset + (offset' - offset) / 4 * 4 = offset'
      omega]
    exact htail

theorem Ordered.exists_of_mem_visits (hf : w.starts.format = .ptr64) (hc : w.importCount < 2 ^ 24)
    (h : Ordered w.importCount slots) {v : ChainVisit} (hv : v ∈ visits w slots) :
    ∃ x ∈ slots, v.walk = w ∧ v.offset = x.1 ∧ v.entry = x.2.entry := by
  obtain ⟨y, hy, rfl⟩ := List.mem_map.1 hv
  have hmem := List.mem_map_of_mem
    (f := fun x : Nat × UInt64 => (x.1, (ChainEntry.decode .ptr64 x.2).1)) hy
  rw [h.decode_linked hc] at hmem
  obtain ⟨x, hx, heq⟩ := List.mem_map.1 hmem
  obtain ⟨ho, he⟩ := Prod.mk.inj heq
  refine ⟨x, hx, rfl, ho.symm, ?_⟩
  rw [ChainVisit.entry, ChainVisit.format, hf]
  exact he.symm

theorem Ordered.exists_mem_visits (hf : w.starts.format = .ptr64) (hc : w.importCount < 2 ^ 24)
    (h : Ordered w.importCount slots) {x : Nat × SlotDraft} (hx : x ∈ slots) :
    ∃ v ∈ visits w slots, v.walk = w ∧ v.offset = x.1 ∧ v.entry = x.2.entry := by
  have hmem := List.mem_map_of_mem (f := fun x : Nat × SlotDraft => (x.1, x.2.entry)) hx
  rw [← h.decode_linked hc] at hmem
  obtain ⟨y, hy, heq⟩ := List.mem_map.1 hmem
  obtain ⟨ho, he⟩ := Prod.mk.inj heq
  refine ⟨⟨w, y.1, y.2⟩, List.mem_map_of_mem hy, rfl, ho, ?_⟩
  rw [ChainVisit.entry, ChainVisit.format, hf]
  exact he

def start : List (Nat × SlotDraft) → UInt16
  | [] => noStart
  | (offset, _) :: _ => UInt16.ofNat offset

theorem Ordered.pageVisits (hf : w.starts.format = .ptr64) (hc : w.importCount < 2 ^ 24)
    (h : Ordered w.importCount slots) (hr : ∀ v ∈ visits w slots, v.Read) :
    PageVisits w (start slots) (visits w slots) := by
  cases slots with
  | nil => exact ⟨[], .none, .nil⟩
  | cons x slots =>
    obtain ⟨offset, slot⟩ := x
    have hin : offset + 8 ≤ 0x4000 := h.inPage (offset, slot) List.mem_cons_self
    have hnat : (UInt16.ofNat offset).toNat = offset := by
      rw [UInt16.toNat_ofNat', Nat.mod_eq_of_lt (by omega)]
    have hsome : UInt16.ofNat offset ≠ noStart := by
      intro hnone
      have hat : (UInt16.ofNat offset).toNat = 0xFFFF := congrArg UInt16.toNat hnone
      omega
    have hheads := PageHeads.single (s := w.starts) hsome (by rw [hf]; exact nofun)
    rw [hnat] at hheads
    have hall := Concat.cons (h.chain hf hc hr) .nil
    rw [List.append_nil] at hall
    exact ⟨[offset], hheads, hall⟩

theorem Ordered.visits_apart (h : Ordered w.importCount slots) :
    (visits w slots).Pairwise ChainVisit.Apart := by
  refine List.pairwise_map.2 (h.linked_apart.imp fun {x y} hxy _ hslot => ?_)
  simp only [ChainVisit.slot, PageWalk.slot] at hslot
  omega

end

end SlotDraft

end ObjcAtlas
