import ObjcAtlas.Proofs.Fixup.Walk
import ObjcAtlas.Proofs.Image.Stretch

set_option autoImplicit false

/-!
# Steps along one chain

A walk along a chain may take no more steps than the page has strides, and one. It never needs
more: each link leads on by a stride at least, only a slot that lies in the page has a link, and a
slot is no smaller than a stride. So what ends a walk is always its last slot, and the slots of one
chain are never the same; a walk that is said to come back to a slot has met the slot of another.
-/
namespace ObjcAtlas

namespace PageWalk

/-- Why the slot at `offset` is not entered into the table. -/
inductive Fault (w : PageWalk) (offset : Nat) (table : FixupTable) : ImageError → Prop where
  | revisited (h : w.slot offset ∈ table) : Fault w offset table (w.cycle offset)
  | outside (h : w.starts.pageSize.toNat < offset + w.starts.format.entrySize ∨
        w.segment.hasOffset (w.slot offset) = false) :
      Fault w offset table (.badStructure "fixup chain" (w.slot offset)
        ("entry runs past page " ++ Text.decimal w.page ++ " of " ++ w.segment.name))
  | missing (hin : offset + w.starts.format.entrySize ≤ w.starts.pageSize.toNat)
      (h : w.image.size < w.slot offset + w.starts.format.entrySize) :
      Fault w offset table
        (.outOfBounds (w.slot offset) w.starts.format.entrySize w.image.size)
  | unnamed (ordinal : UInt32) (h : w.importCount ≤ ordinal.toNat) :
      Fault w offset table (.badStructure "fixup chain" (w.slot offset) ("bind ordinal " ++
        Text.decimal ordinal.toNat ++ " with " ++ Text.decimal w.importCount ++ " imports"))

variable {w : PageWalk} {head links offset distance : Nat} {table now next : FixupTable}

theorem fixup?_failsOnly {raw : UInt64} {entry : ChainEntry} :
    FailsOnly (w.Fault offset table) (w.fixup? offset raw entry) := by
  cases entry with
  | rebase target high8 signing => exact failsOnly_ok _
  | bind ordinal addend signing =>
    rw [fixup?]
    by_cases hcount : w.importCount ≤ ordinal.toNat
    · rw [if_pos hcount]
      exact failsOnly_error (.unnamed ordinal hcount)
    · rw [if_neg hcount]
      exact failsOnly_ok _

theorem visit_failsOnly : FailsOnly (w.Fault offset table) (w.visit offset table) := by
  by_cases hmem : w.slot offset ∈ table
  · rw [visit_of_mem hmem]
    exact failsOnly_error (.revisited hmem)
  rw [visit, if_neg (mt Std.TreeMap.mem_iff_contains.2 hmem)]
  by_cases hout : w.starts.pageSize.toNat < offset + w.starts.format.entrySize ∨
      w.segment.hasOffset (w.slot offset) = false
  · rw [if_pos hout]
    exact failsOnly_error (.outside hout)
  rw [if_neg hout]
  have hin := (ChainVisit.inBounds_iff.1 hout).1
  refine FailsOnly.bind ?_ fun n _ => FailsOnly.bind ?_ fun found _ => ?_
  · intro e he
    obtain ⟨hsize, rfl⟩ := Reader.number_eq_error.1 he
    exact .missing hin hsize
  · exact fixup?_failsOnly
  · cases found with
    | none => exact failsOnly_ok _
    | some f => exact failsOnly_ok _

theorem of_visit (h : w.visit offset now = .ok (next, distance)) :
    ∃ raw, ChainVisit.Read ⟨w, offset, raw⟩ ∧
      offset + w.starts.format.entrySize ≤ w.starts.pageSize.toNat ∧
      next = ChainVisit.enter ⟨w, offset, raw⟩ now ∧
      distance = ChainVisit.next ⟨w, offset, raw⟩ * w.starts.format.stride := by
  obtain ⟨raw, hread, -, hsound, heq⟩ := ChainVisit.visit_eq_ok.1 h
  obtain ⟨rfl, rfl⟩ := Prod.mk.inj heq
  exact ⟨raw, hread, hsound.inPage, rfl, rfl⟩

theorem stride_le_of_visit (h : w.visit offset now = .ok (next, distance)) (hd : distance ≠ 0) :
    w.starts.format.stride ≤ distance := by
  obtain ⟨raw, -, -, -, rfl⟩ := of_visit h
  exact Nat.le_mul_of_pos_left _ (Nat.pos_of_ne_zero (Nat.ne_zero_of_mul_ne_zero_left hd))

theorem mem_of_visit (h : w.visit offset now = .ok (next, distance)) {place : Nat}
    (hp : w.slot offset < place) : place ∈ next ↔ place ∈ now := by
  obtain ⟨raw, -, -, rfl, -⟩ := of_visit h
  rw [ChainVisit.enter]
  split
  · exact Iff.rfl
  · rw [Std.TreeMap.mem_insert, Nat.compare_eq_eq]
    exact or_iff_right (Nat.ne_of_lt hp)

/-- From `head` and with `table`, the walk comes to `offset` after so many links, with the table
    `now`. -/
inductive Stands (w : PageWalk) (head : Nat) (table : FixupTable) :
    (links offset : Nat) → (now : FixupTable) → Prop where
  | head : Stands w head table 0 head table
  | link {links offset distance : Nat} {now next : FixupTable}
      (h : Stands w head table links offset now) (hv : w.visit offset now = .ok (next, distance))
      (hd : distance ≠ 0) : Stands w head table (links + 1) (offset + distance) next

def Ends (w : PageWalk) (offset : Nat) (now : FixupTable) : Prop :=
  ∀ next distance, w.visit offset now = .ok (next, distance) → distance = 0

/-- The walk is refused, and not for the number of its steps: a slot is no part of a chain, or it
    is one that the table had before. -/
def Refused (w : PageWalk) (head : Nat) (table : FixupTable) : Prop :=
  (∃ place reason, w.follow w.maxSteps head table =
    .error (.badStructure "fixup chain" place reason)) ∨
  ∃ place ∈ table, w.follow w.maxSteps head table =
    .error (.chainCycle w.starts.segment w.page place)

namespace Stands

theorem le_offset (h : Stands w head table links offset now) :
    head + links * w.starts.format.stride ≤ offset := by
  induction h with
  | head => omega
  | link h hv hd ih =>
    have hmove := stride_le_of_visit hv hd
    rw [Nat.succ_mul]
    omega

/-- The page has room for a stride behind each slot with a link. -/
theorem links_lt (h : Stands w head table links offset now) : links < w.maxSteps := by
  cases h with
  | head => exact Nat.succ_pos _
  | @link links offset distance now next h hv hd =>
    obtain ⟨raw, -, hin, -, -⟩ := of_visit hv
    have hat := h.le_offset
    have hsize := w.starts.format.stride_le_entrySize
    have hroom : (links + 1) * w.starts.format.stride ≤ w.starts.pageSize.toNat := by
      rw [Nat.succ_mul]
      omega
    exact w.lt_maxSteps_iff.2 hroom

theorem unique {offset' : Nat} {now' : FixupTable} (h : Stands w head table links offset now)
    (h' : Stands w head table links offset' now') : offset = offset' ∧ now = now' := by
  induction h generalizing offset' now' with
  | head =>
    cases h'
    exact ⟨rfl, rfl⟩
  | link h hv hd ih =>
    cases h' with
    | link h' hv' _ =>
      obtain ⟨rfl, rfl⟩ := ih h'
      obtain ⟨rfl, rfl⟩ := Prod.mk.inj (Except.ok.inj (hv.symm.trans hv'))
      exact ⟨rfl, rfl⟩

theorem offset_lt {links' offset' : Nat} {now' : FixupTable}
    (h : Stands w head table links offset now) (h' : Stands w head table links' offset' now')
    (hl : links < links') : offset < offset' := by
  induction h' with
  | head => exact absurd hl (Nat.not_lt_zero _)
  | @link before offset' distance now' next h' hv hd ih =>
    rcases Nat.lt_succ_iff_lt_or_eq.1 hl with hl | rfl
    · have hlt := ih hl
      omega
    · obtain ⟨rfl, -⟩ := h.unique h'
      omega

theorem mem_iff (h : Stands w head table links offset now) {place : Nat}
    (hp : w.slot offset ≤ place) : place ∈ now ↔ place ∈ table := by
  induction h with
  | head => exact Iff.rfl
  | @link links offset distance now next h hv hd ih =>
    have hbehind : w.slot offset < place := by
      rw [slot] at hp ⊢
      omega
    exact (mem_of_visit hv hbehind).trans (ih (Nat.le_of_lt hbehind))

theorem follow_eq (h : Stands w head table links offset now) (steps : Nat) :
    w.follow (links + steps) head table = w.follow steps offset now := by
  induction h generalizing steps with
  | head => rw [Nat.zero_add]
  | link h hv hd ih =>
    rw [Nat.add_assoc, Nat.add_comm 1, ih, follow, hv]
    exact if_neg hd

theorem follow_of_ends (h : Stands w head table links offset now) (he : w.Ends offset now)
    {steps : Nat} (hs : links < steps) :
    w.follow steps head table = (w.visit offset now).map Prod.fst := by
  obtain ⟨left, rfl⟩ : ∃ left, steps = links + (left + 1) := ⟨steps - links - 1, by omega⟩
  rw [h.follow_eq, follow]
  cases hv : w.visit offset now with
  | error e => rfl
  | ok found =>
    obtain ⟨next, distance⟩ := found
    exact if_pos (he next distance hv)

theorem exists_ends (h : Stands w head table links offset now) :
    ∃ links offset now, Stands w head table links offset now ∧ w.Ends offset now := by
  induction hk : w.maxSteps - links using Nat.strongRecOn generalizing links offset now with
  | ind k ih =>
    cases hv : w.visit offset now with
    | error e =>
      exact ⟨links, offset, now, h, fun _ _ h' => absurd (hv.symm.trans h') nofun⟩
    | ok found =>
      obtain ⟨next, distance⟩ := found
      by_cases hd : distance = 0
      · refine ⟨links, offset, now, h, fun _ _ h' => ?_⟩
        obtain ⟨-, rfl⟩ := Prod.mk.inj (Except.ok.inj (hv.symm.trans h'))
        exact hd
      · have hlt := h.links_lt
        exact ih _ (by omega) (h.link hv hd) rfl

theorem follow_of_error (h : Stands w head table links offset now) {e : ImageError}
    (he : w.visit offset now = .error e) : w.follow w.maxSteps head table = .error e := by
  have hends : w.Ends offset now := by
    intro next distance hv
    exact absurd (he.symm.trans hv) nofun
  rw [h.follow_of_ends hends h.links_lt, he]
  rfl

theorem refused (h : Stands w head table links offset now) {e : ImageError}
    (he : w.visit offset now = .error e)
    (hread : offset + w.starts.format.entrySize ≤ w.starts.pageSize.toNat →
      w.slot offset + w.starts.format.entrySize ≤ w.image.size) : w.Refused head table := by
  have hfollow := h.follow_of_error he
  cases visit_failsOnly e he with
  | revisited hmem => exact .inr ⟨_, (h.mem_iff (Nat.le_refl _)).1 hmem, hfollow⟩
  | outside _ => exact .inl ⟨_, _, hfollow⟩
  | missing hin hsize => exact absurd (hread hin) (Nat.not_le.2 hsize)
  | unnamed _ _ => exact .inl ⟨_, _, hfollow⟩

end Stands

theorem exists_end (w : PageWalk) (head : Nat) (table : FixupTable) :
    ∃ links offset now, Stands w head table links offset now ∧ w.Ends offset now :=
  Stands.head.exists_ends

theorem fault_of_follow {e : ImageError} (h : w.follow w.maxSteps head table = .error e) :
    ∃ links offset now, Stands w head table links offset now ∧ w.Fault offset now e := by
  obtain ⟨links, offset, now, hat, hends⟩ := w.exists_end head table
  rw [hat.follow_of_ends hends hat.links_lt, map_eq_error] at h
  exact ⟨links, offset, now, hat, visit_failsOnly e h⟩

theorem follow_eq_cycle_iff {segment page place : Nat} :
    w.follow w.maxSteps head table = .error (.chainCycle segment page place) ↔
      segment = w.starts.segment ∧ page = w.page ∧ place ∈ table ∧
        ∃ links offset now, Stands w head table links offset now ∧ w.slot offset = place := by
  constructor
  · intro h
    obtain ⟨links, offset, now, hat, hfault⟩ := fault_of_follow h
    cases hfault with
    | revisited hmem =>
      exact ⟨rfl, rfl, (hat.mem_iff (Nat.le_refl _)).1 hmem, links, offset, now, hat, rfl⟩
  · rintro ⟨rfl, rfl, hmem, links, offset, now, hat, rfl⟩
    exact hat.follow_of_error (visit_of_mem ((hat.mem_iff (Nat.le_refl _)).2 hmem))

/-- The walk comes to every place that the chain comes to, unless it is refused before. -/
theorem stands_or_refused (h : Reached w head offset) :
    (∃ links now, Stands w head table links offset now) ∨ w.Refused head table := by
  induction h with
  | head => exact .inl ⟨0, table, .head⟩
  | @next offset raw h hr hn ih =>
    rcases ih with ⟨links, now, hat⟩ | hrefused
    · cases hv : w.visit offset now with
      | error e =>
        refine .inr (hat.refused hv fun _ => Nat.not_lt.1 fun hsize => ?_)
        obtain ⟨n, hn, -⟩ := map_eq_ok.1 hr
        exact absurd (hn.symm.trans (Reader.number_eq_error.2 ⟨hsize, rfl⟩)) nofun
      | ok found =>
        obtain ⟨next, distance⟩ := found
        obtain ⟨raw', hr', -, -, rfl⟩ := of_visit hv
        obtain rfl : raw' = raw := Except.ok.inj (hr'.symm.trans hr)
        exact .inl ⟨links + 1, next,
          hat.link hv (Nat.mul_ne_zero hn (Nat.ne_of_gt w.starts.format.stride_pos))⟩
    · exact .inr hrefused

theorem refused_of_leaves (h : Reached w head offset)
    (hout : w.starts.pageSize.toNat < offset + w.starts.format.entrySize) :
    w.Refused head table := by
  rcases stands_or_refused h with ⟨links, now, hat⟩ | hrefused
  · cases hv : w.visit offset now with
    | error e => exact hat.refused hv fun hin => absurd hin (Nat.not_le.2 hout)
    | ok found =>
      obtain ⟨next, distance⟩ := found
      obtain ⟨raw, -, hin, -, -⟩ := of_visit hv
      exact absurd hin (Nat.not_le.2 hout)
  · exact hrefused

/-- A walk along a chain is never stopped for the number of its steps. Each link leads it at least
    a stride on, so it comes to its end in as many steps as it may take, and would give the same if
    it might take more. It fails only as a visit of its last slot does; it is said to come back
    exactly where it comes to a slot that was in the table before, and a chain that leaves its page
    is refused for that, for an earlier slot, or for coming to such a one. -/
theorem follow_never_capped (w : PageWalk) (head : Nat) (table : FixupTable) :
    (∀ links offset now, Stands w head table links offset now →
      links + 1 ≤ w.starts.pageSize.toNat / w.starts.format.stride + 1 ∧
        head + links * w.starts.format.stride ≤ offset ∧
        (w.slot offset ∈ now ↔ w.slot offset ∈ table)) ∧
    (∀ links links' offset offset' now now', Stands w head table links offset now →
      Stands w head table links' offset' now' → links < links' → offset < offset') ∧
    (∃ links offset now, Stands w head table links offset now ∧ w.Ends offset now ∧
      ∀ steps, w.maxSteps ≤ steps →
        w.follow steps head table = (w.visit offset now).map Prod.fst) ∧
    (∀ e, w.follow w.maxSteps head table = .error e →
      ∃ links offset now, Stands w head table links offset now ∧ w.Fault offset now e) ∧
    (∀ segment page place,
      w.follow w.maxSteps head table = .error (.chainCycle segment page place) ↔
        segment = w.starts.segment ∧ page = w.page ∧ place ∈ table ∧
          ∃ links offset now, Stands w head table links offset now ∧ w.slot offset = place) ∧
    ∀ offset, Reached w head offset →
      w.starts.pageSize.toNat < offset + w.starts.format.entrySize → w.Refused head table := by
  refine ⟨?_, ?_, ?_, fun e => fault_of_follow, fun segment page place => follow_eq_cycle_iff,
    fun offset => refused_of_leaves⟩
  · intro links offset now hat
    exact ⟨hat.links_lt, hat.le_offset, hat.mem_iff (Nat.le_refl _)⟩
  · intro links links' offset offset' now now' hat hat' hlt
    exact hat.offset_lt hat' hlt
  · obtain ⟨links, offset, now, hat, hends⟩ := w.exists_end head table
    refine ⟨links, offset, now, hat, hends, fun steps hsteps => ?_⟩
    exact hat.follow_of_ends hends (Nat.lt_of_lt_of_le hat.links_lt hsteps)

/-- A page of twelve bytes. Its chain has slots at 0 and 4 and leads on to 8, where no slot fits. -/
def leavingWalk : PageWalk where
  image := ⟨⟨#[0, 0, 0, 0, 0, 0, 8, 0, 0, 0, 8, 0, 0, 0, 0, 0]⟩, .little⟩
  base := 0
  importCount := 0
  segment := ⟨"__DATA", 0, 16, 0, 16, 3, 3, 0, []⟩
  starts := ⟨0, 12, .ptr64, 0, 0, 1, [0]⟩
  page := 0

theorem reached_leavingWalk : Reached leavingWalk 0 8 :=
  .next (.next .head (by rfl : ChainVisit.Read ⟨leavingWalk, 0, 0x8000000000000⟩) (by decide))
    (by rfl : ChainVisit.Read ⟨leavingWalk, 4, 0x8000000080000⟩) (by decide)

def takenTable : FixupTable :=
  (∅ : FixupTable).insert 4 ⟨4, .ptr64, 0, .rebase 0 0 none, some 0⟩

theorem follow_never_capped_leaving :
    Reached leavingWalk 0 8 ∧ 12 < 8 + leavingWalk.starts.format.entrySize ∧
      leavingWalk.Refused 0 ∅ ∧
      leavingWalk.follow leavingWalk.maxSteps 0 takenTable = .error (.chainCycle 0 0 4) ∧
      4 ∈ takenTable ∧ ∃ links offset now, Stands leavingWalk 0 takenTable links offset now ∧
        leavingWalk.slot offset = 4 := by
  have hleaves : leavingWalk.starts.pageSize.toNat < 8 + leavingWalk.starts.format.entrySize := by
    decide
  have hcycle : leavingWalk.follow leavingWalk.maxSteps 0 takenTable =
      .error (.chainCycle 0 0 4) := by rfl
  obtain ⟨-, -, -, -, -, hrefused⟩ := follow_never_capped leavingWalk 0 ∅
  obtain ⟨-, -, -, -, htaken, -⟩ := follow_never_capped leavingWalk 0 takenTable
  obtain ⟨-, -, hmem, hat⟩ := (htaken 0 0 4).1 hcycle
  exact ⟨reached_leavingWalk, hleaves, hrefused 8 reached_leavingWalk hleaves, hcycle, hmem, hat⟩

end PageWalk

end ObjcAtlas
