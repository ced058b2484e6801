import ObjcAtlas.Fixup.Draft
import ObjcAtlas.Proofs.Fixup.Located
import ObjcAtlas.Proofs.Image.Holds

set_option autoImplicit false

namespace ObjcAtlas

namespace ChainVisit

theorem isNumber_iff {v : ChainVisit} : v.isNumber = true ↔ v.format = .ptr32 ∧
    ∃ target high8 signing, v.entry = .rebase target high8 signing ∧
      v.walk.starts.maxValidPointer.toUInt64 < target := by
  unfold isNumber PageWalk.isNumber format
  cases v.entry with
  | rebase target high8 signing => simp
  | bind ordinal addend signing => simp

theorem Apart.isNumber {u v : ChainVisit} (h : u.Apart v) (hslot : u.slot = v.slot) :
    u.isNumber = true := by
  cases hn : u.isNumber with
  | true => rfl
  | false => exact absurd hslot (h hn)

theorem nodup_slots_iff {vs : List ChainVisit} (h : vs.Pairwise Apart) :
    (vs.map slot).Nodup ↔ vs.Pairwise fun u v => u.isNumber = true → u.slot ≠ v.slot := by
  rw [List.Nodup, List.pairwise_map]
  constructor
  · intro hne
    refine hne.imp ?_
    intro u v huv _
    exact huv
  · intro hnumbers
    refine (hnumbers.and h).imp ?_
    rintro u v ⟨hnumber, hapart⟩ hslot
    exact hnumber (hapart.isNumber hslot) hslot

structure Belongs (image : Reader) (segments : List Segment) (base : UInt64) (importCount : Nat)
    (starts : List SegmentStarts) (v : ChainVisit) : Prop where
  read : v.Read
  starts : v.walk.starts ∈ starts
  segment : segments[v.walk.starts.segment]? = some v.walk.segment
  walk : v.walk = { v.walk with image, base, importCount }

variable {image : Reader} {segments : List Segment} {base : UInt64} {importCount : Nat}
  {starts : List SegmentStarts} {u v : ChainVisit}

/-- A page has its slots to itself, and a slot has one word. -/
theorem Belongs.eq_of_slot_eq (hu : Belongs image segments base importCount starts u)
    (hv : Belongs image segments base importCount starts v) (hsu : u.Sound) (hsv : v.Sound)
    (hstarts : u.walk.starts = v.walk.starts) (hslot : u.slot = v.slot) : u = v := by
  obtain ⟨⟨uimage, ubase, ucount, usegment, ustarts, upage⟩, uoffset, uraw⟩ := u
  obtain ⟨⟨vimage, vbase, vcount, vsegment, vstarts, vpage⟩, voffset, vraw⟩ := v
  obtain rfl : ustarts = vstarts := hstarts
  obtain rfl : usegment = vsegment := Option.some.inj (hu.segment.symm.trans hv.segment)
  cases hu.walk
  cases hv.walk
  have hsize := ustarts.format.entrySize_pos
  have huin : uoffset + ustarts.format.entrySize ≤ ustarts.pageSize.toNat := hsu.inPage
  have hvin : voffset + ustarts.format.entrySize ≤ ustarts.pageSize.toNat := hsv.inPage
  have hplace : usegment.fileOffset.toNat + upage * ustarts.pageSize.toNat + uoffset =
      usegment.fileOffset.toNat + vpage * ustarts.pageSize.toNat + voffset := hslot
  have hpage (page : Nat) {offset : Nat} (h : offset < ustarts.pageSize.toNat) :
      (page * ustarts.pageSize.toNat + offset) / ustarts.pageSize.toNat = page := by
    rw [Nat.mul_comm, Nat.mul_add_div (by omega), Nat.div_eq_of_lt h, Nat.add_zero]
  have hsum : upage * ustarts.pageSize.toNat + uoffset =
      vpage * ustarts.pageSize.toNat + voffset := by omega
  obtain rfl : upage = vpage := by
    rw [← hpage upage (by omega : uoffset < _), hsum, hpage vpage (by omega)]
  obtain rfl : uoffset = voffset := by omega
  obtain rfl : uraw = vraw := Except.ok.inj (hu.read.symm.trans hv.read)
  rfl

end ChainVisit

theorem Chain.read {w : PageWalk} {offset : Nat} {vs : List ChainVisit} (h : Chain w offset vs) :
    ∀ v ∈ vs, v.Read := by
  induction h with
  | last hr _ => exact List.forall_mem_cons.2 ⟨hr, nofun⟩
  | step hr _ _ ih => exact List.forall_mem_cons.2 ⟨hr, ih⟩

theorem Concat.exists_of_mem {α β : Type} {R : α → List β → Prop} {as : List α} {xs : List β}
    (h : Concat R as xs) {x : β} (hx : x ∈ xs) : ∃ a ∈ as, ∃ ys, R a ys ∧ x ∈ ys := by
  induction h with
  | nil => exact absurd hx nofun
  | @cons a as ys zs hy _ ih =>
    rcases List.mem_append.1 hx with hx | hx
    · exact ⟨a, List.mem_cons_self, ys, hy, hx⟩
    · obtain ⟨b, hb, hfound⟩ := ih hx
      exact ⟨b, List.mem_cons_of_mem a hb, hfound⟩

theorem belongs_of_imageVisits {image : Reader} {segments : List Segment} {base : UInt64}
    {importCount : Nat} {starts : List SegmentStarts} {vs : List ChainVisit}
    (h : ImageVisits image segments base importCount starts vs) :
    ∀ v ∈ vs, v.Belongs image segments base importCount starts := by
  intro v hv
  obtain ⟨s, hs, ys, ⟨segment, hsegment, hpages⟩, hv⟩ := h.exists_of_mem hv
  obtain ⟨x, -, zs, ⟨heads, -, hchains⟩, hv⟩ := hpages.exists_of_mem hv
  obtain ⟨head, -, us, hchain, hv⟩ := hchains.exists_of_mem hv
  have hwalk := hchain.walk_eq v hv
  refine ⟨hchain.read v hv, ?_, ?_, ?_⟩
  · rw [hwalk]
    exact hs
  · rw [hwalk]
    exact hsegment
  · rw [hwalk]

/-- A part of the walk that visits what `R` says fails at the first visit that comes back to a
    pointer, if there is one. -/
def Detects (f : FixupTable → Except ImageError FixupTable) (R : List ChainVisit → Prop) : Prop :=
  ∀ {past vs : List ChainVisit} {table : FixupTable}, table.Records past → R vs →
    (∀ v ∈ vs, v.Sound) → ¬ (past ++ vs).Pairwise ChainVisit.Apart →
    ∃ front v back, vs = front ++ v :: back ∧
      (∃ u ∈ past ++ front, u.isNumber = false ∧ u.slot = v.slot) ∧
      f table = .error (v.walk.cycle v.offset)

theorem PageWalk.follow_detects (w : PageWalk) (steps offset : Nat) :
    Detects (w.follow steps offset) fun vs => Chain w offset vs ∧ vs.length ≤ steps := by
  induction steps generalizing offset with
  | zero =>
    rintro past vs table - ⟨hchain, hlen⟩ - -
    exact absurd (List.length_eq_zero_iff.1 (Nat.le_zero.1 hlen)) hchain.ne_nil
  | succ steps ih =>
    rintro past vs table hrec ⟨hchain, hlen⟩ hsound hnot
    obtain ⟨raw, back, rfl⟩ : ∃ raw back, vs = ⟨w, offset, raw⟩ :: back := by
      cases hchain with
      | last _ _ => exact ⟨_, _, rfl⟩
      | step _ _ _ => exact ⟨_, _, rfl⟩
    cases hnew : table[w.slot offset]? with
    | some f =>
      obtain ⟨u, hu, hnumber, hslot, -⟩ := (hrec.entry _ _).1 hnew
      refine ⟨[], ⟨w, offset, raw⟩, back, rfl, ⟨u, by simpa using hu, hnumber, hslot⟩, ?_⟩
      have hmem : w.slot offset ∈ table := by
        rw [Std.TreeMap.mem_iff_isSome_getElem?, hnew]
        rfl
      rw [follow, visit_of_mem hmem]
      rfl
    | none =>
      have henter := hrec.enter (v := ⟨w, offset, raw⟩) hnew
      rw [← List.singleton_append, ← List.append_assoc] at hnot
      cases hchain with
      | last _ _ =>
        rw [List.append_nil] at hnot
        exact absurd henter.apart hnot
      | step hread hn htail =>
        obtain ⟨front, v, rest, rfl, ⟨u, hu, hback⟩, herror⟩ := ih _ henter
          ⟨htail, Nat.le_of_succ_le_succ hlen⟩ (List.forall_mem_cons.1 hsound).2 hnot
        refine ⟨⟨w, offset, raw⟩ :: front, v, rest, rfl, ⟨u, by simpa using hu, hback⟩, ?_⟩
        have hvisit := ChainVisit.visit_eq_ok.2
          ⟨raw, hread, hnew, (List.forall_mem_cons.1 hsound).1, rfl⟩
        have hmove : ChainVisit.next ⟨w, offset, raw⟩ * w.starts.format.stride ≠ 0 :=
          Nat.mul_ne_zero hn (Nat.ne_of_gt (PointerFormat.stride_pos _))
        rw [follow, hvisit]
        exact (if_neg hmove).trans herror

theorem Detects.foldlM {α : Type} {g : FixupTable → α → Except ImageError FixupTable}
    {R : α → List ChainVisit → Prop} (hw : ∀ a, Walks (fun table => g table a) (R a))
    (h : ∀ a, Detects (fun table => g table a) (R a)) (as : List α) :
    Detects (as.foldlM g) (Concat R as) := by
  induction as with
  | nil =>
    rintro past vs table hrec ⟨⟩ - hnot
    rw [List.append_nil] at hnot
    exact absurd hrec.apart hnot
  | cons a as ih =>
    intro past vs table hrec hvs hsound hnot
    cases hvs with
    | @cons _ _ xs ys hx hy =>
      obtain ⟨hsx, hsy⟩ := List.forall_mem_append.1 hsound
      simp only [List.foldlM_cons]
      by_cases hfirst : (past ++ xs).Pairwise ChainVisit.Apart
      · obtain ⟨mid, hmid, hrec'⟩ := (hw a).complete hrec hx hsx hfirst
        rw [← List.append_assoc] at hnot
        obtain ⟨front, v, back, rfl, ⟨u, hu, hback⟩, herror⟩ := ih hrec' hy hsy hnot
        refine ⟨xs ++ front, v, back, (List.append_assoc ..).symm, ⟨u, ?_, hback⟩, ?_⟩
        · rwa [← List.append_assoc]
        · rw [hmid]
          exact herror
      · obtain ⟨front, v, back, rfl, hback, herror⟩ := h a hrec hx hsx hfirst
        refine ⟨front, v, back ++ ys, by simp, hback, ?_⟩
        simp only [herror]
        rfl

theorem PageWalk.run_detects (w : PageWalk) (start : UInt16) :
    Detects (w.run start) (PageVisits w start) := by
  rintro past vs table hrec ⟨heads, hheads, hvs⟩ hsound hnot
  have hchain (head : Nat) : Detects (w.follow w.maxSteps head) (Chain w head) :=
    fun hrec hvs hsound => w.follow_detects w.maxSteps head hrec
      ⟨hvs, hvs.length_le_maxSteps hsound⟩ hsound
  obtain ⟨front, v, back, hsplit, hback, herror⟩ :=
    Detects.foldlM w.chain_walks hchain heads hrec hvs hsound hnot
  refine ⟨front, v, back, hsplit, hback, ?_⟩
  rw [run, SegmentStarts.heads_eq_true.2 hheads]
  simp only [herror]
  rfl

namespace ChainTable

variable (image : Reader) (segments : List Segment) (base : UInt64) (importCount : Nat)

theorem walkSegment_detects (starts : SegmentStarts) :
    Detects (fun table => walkSegment image segments base importCount table starts)
      (SegmentVisits image segments base importCount starts) := by
  rintro past vs table hrec ⟨segment, hsegment, hvs⟩ hsound hnot
  simp only [walkSegment, hsegment]
  let page (x : UInt16 × Nat) : PageWalk :=
    { image, base, importCount, segment, starts, page := x.2 }
  exact Detects.foldlM (fun x => (page x).run_walks x.1) (fun x => (page x).run_detects x.1) _
    hrec hvs hsound hnot

theorem walk_detects (starts : List SegmentStarts) :
    Detects (starts.foldlM (walkSegment image segments base importCount))
      (ImageVisits image segments base importCount starts) :=
  Detects.foldlM (walkSegment_walks image segments base importCount)
    (walkSegment_detects image segments base importCount) starts

/-- The blob holds the tables of `t`: whatever the segments are, it is left to the walk over its
    chains whether they are read. -/
def HasTables (image : Reader) (range : FileRange) (t : ChainTable) : Prop :=
  ∀ segments base, read image range segments base =
    walk image segments base t.imports.size t.starts >>= fun fixups => pure { t with fixups }

/-- A step that does not look at the segments fails whatever they are, or leaves the rest. -/
def Decided (f : List Segment → UInt64 → Except ImageError ChainTable) : Prop :=
  (∃ e, ∀ segments base, f segments base = .error e) ∨
    ∃ t : ChainTable, ∀ segments base, f segments base =
      walk image segments base t.imports.size t.starts >>= fun fixups => pure { t with fixups }

variable {image}

theorem decided_bind {α : Type} {step : Except ImageError α}
    {f : List Segment → UInt64 → α → Except ImageError ChainTable}
    (h : ∀ a, Decided image fun segments base => f segments base a) :
    Decided image fun segments base => step >>= f segments base := by
  cases step with
  | error e => exact .inl ⟨e, fun _ _ => rfl⟩
  | ok a => exact h a

theorem decided_throw_if {c : Prop} [Decidable c] {e : ImageError}
    {f : List Segment → UInt64 → PUnit → Except ImageError ChainTable}
    (h : Decided image fun segments base => f segments base ⟨⟩) :
    Decided image fun segments base =>
      if c then throw e >>= f segments base else f segments base ⟨⟩ := by
  by_cases hc : c
  · exact .inl ⟨e, fun _ _ => (if_pos hc).trans rfl⟩
  · simp only [if_neg hc]
    exact h

variable (image) in
/-- A blob that cannot be read is refused whatever the segments are. -/
theorem hasTables_or_error (range : FileRange) :
    (∃ e, ∀ segments base, read image range segments base = .error e) ∨
      ∃ t, HasTables image range t := by
  unfold HasTables
  change Decided image (read image range)
  unfold read
  refine decided_bind fun blob => decided_throw_if (decided_bind fun version =>
    decided_bind fun startsOffset => decided_bind fun importsOffset =>
    decided_bind fun symbolsOffset => decided_bind fun importCount =>
    decided_bind fun importsCode => decided_bind fun symbolsFormat =>
    decided_throw_if (decided_throw_if (decided_bind fun importsFormat =>
    decided_bind fun imports => decided_bind fun starts => .inr ?_)))
  exact ⟨⟨version, importsFormat, imports.toArray, starts, ∅⟩, fun _ _ => rfl⟩

theorem read_iff_of_visits {range : FileRange} {t : ChainTable} {vs : List ChainVisit}
    (htables : HasTables image range t)
    (hvs : ImageVisits image segments base t.imports.size t.starts vs) :
    (∃ t', read image range segments base = .ok t') ↔
      (∀ v ∈ vs, v.Sound) ∧ vs.Pairwise ChainVisit.Apart := by
  have hread := htables segments base
  constructor
  · rintro ⟨t', ht'⟩
    obtain ⟨table, htable, -⟩ := bind_eq_ok.1 (hread.symm.trans ht')
    obtain ⟨vs', -, hunique, hsound, hrecords⟩ := visits_of_walk htable
    obtain rfl := hunique vs hvs
    exact ⟨hsound, hrecords.apart⟩
  · rintro ⟨hsound, hapart⟩
    obtain ⟨table, htable, -⟩ := walk_of_visits hvs hsound hapart
    exact ⟨_, hread.trans (bind_eq_ok.2 ⟨table, htable, rfl⟩)⟩

variable (image) in
/-- No pointer is visited twice. If an image is read, only slots with numbers have been visited
    again, in one segment always with the same number, so that all slots are distinct exactly if no
    number was met again; in formats without such numbers they always are. A blob that has its
    tables is read exactly if all visits are sound and none comes back to a pointer, and the first
    that does is reported. -/
theorem read_revisits (range : FileRange) :
    (∀ t, read image range segments base = .ok t →
      ∃ vs, ImageVisits image segments base t.imports.size t.starts vs ∧
        (∀ vs', ImageVisits image segments base t.imports.size t.starts vs' → vs' = vs) ∧
        (vs.Pairwise fun u v => u.slot = v.slot →
          u.isNumber = true ∧ (u.walk.starts = v.walk.starts → u = v)) ∧
        ((vs.map ChainVisit.slot).Nodup ↔
          vs.Pairwise fun u v => u.isNumber = true → u.slot ≠ v.slot) ∧
        ((∀ s ∈ t.starts, s.format ≠ .ptr32) → (vs.map ChainVisit.slot).Nodup)) ∧
    ((∃ e, ∀ segments base, read image range segments base = .error e) ∨
      ∃ t, HasTables image range t) ∧
    ∀ t vs, HasTables image range t →
      ImageVisits image segments base t.imports.size t.starts vs →
      ((∃ t', read image range segments base = .ok t') ↔
        (∀ v ∈ vs, v.Sound) ∧ vs.Pairwise ChainVisit.Apart) ∧
      ((∀ v ∈ vs, v.Sound) → ¬ vs.Pairwise ChainVisit.Apart →
        ∃ front v back, vs = front ++ v :: back ∧
          (∃ u ∈ front, u.isNumber = false ∧ u.slot = v.slot) ∧
          read image range segments base = .error (v.walk.cycle v.offset)) := by
  refine ⟨?_, hasTables_or_error image range, ?_⟩
  · intro t ht
    obtain ⟨vs, hvs, hunique, hsound, hrecords⟩ := visits_of_walk (of_read ht).1
    have hbelongs := belongs_of_imageVisits hvs
    have hnodup := ChainVisit.nodup_slots_iff hrecords.apart
    refine ⟨vs, hvs, hunique, ?_, hnodup, fun hformat => hnodup.2 ?_⟩
    · refine hrecords.apart.imp_of_mem ?_
      intro u v hu hv hapart hslot
      exact ⟨hapart.isNumber hslot,
        fun h => (hbelongs u hu).eq_of_slot_eq (hbelongs v hv) (hsound u hu) (hsound v hv) h hslot⟩
    · refine hrecords.apart.imp_of_mem ?_
      intro u v hu _ _ hnumber
      exact absurd (ChainVisit.isNumber_iff.1 hnumber).1 (hformat _ (hbelongs u hu).starts)
  · intro t vs htables hvs
    refine ⟨read_iff_of_visits segments base htables hvs, fun hsound hnot => ?_⟩
    obtain ⟨front, v, back, hsplit, hback, hwalk⟩ := walk_detects image segments base
      t.imports.size t.starts FixupTable.records_empty hvs hsound hnot
    have herror : walk image segments base t.imports.size t.starts =
      .error (v.walk.cycle v.offset) := hwalk
    refine ⟨front, v, back, hsplit, hback, (htables segments base).trans ?_⟩
    rw [herror]
    rfl

/-- One page of eight bytes with two numbers that are not pointers, in a segment that the image
    starts with. Of the two chains, one starts at the first number. -/
def sharedStarts (second : UInt16) : SegmentStarts where
  segment := 0
  pageSize := 8
  format := .ptr32
  segmentOffset := 0
  maxValidPointer := 0
  pageCount := 1
  pageStarts := [0x8001, 0, second]

def sharedImage (second : UInt16) : Reader :=
  .ofList .little ([1, 0, 0, 0, 2, 0, 0, 0] ++
    ChainDraft.encode { segmentCount := 1, starts := [sharedStarts second] })

def sharedSegment : Segment := ⟨"__DATA", 0, 8, 0, 8, 3, 3, 0, []⟩

def readShared (second : UInt16) : Except ImageError ChainTable :=
  read (sharedImage second) ⟨8, 73⟩ [sharedSegment] 0

def sharedWalk (second : UInt16) : PageWalk where
  image := sharedImage second
  base := 0
  importCount := 0
  segment := sharedSegment
  starts := sharedStarts second
  page := 0

theorem imageVisits_shared {second : UInt16} {raw : UInt64} (hsecond : isMarked second = true)
    (hfirst : Chain (sharedWalk second) 0 [⟨sharedWalk second, 0, 1⟩])
    (hchain : Chain (sharedWalk second) (plainStart second)
      [⟨sharedWalk second, plainStart second, raw⟩]) :
    ImageVisits (sharedImage second) [sharedSegment] 0 0 [sharedStarts second]
      [⟨sharedWalk second, 0, 1⟩, ⟨sharedWalk second, plainStart second, raw⟩] := by
  have hlist : [(0 : UInt16)] ++ [second] <+:
      (sharedStarts second).pageStarts.drop (plainStart 0x8001) := ⟨[], rfl⟩
  have hheads : PageHeads (sharedStarts second) 0x8001 [0, plainStart second] :=
    .list (by decide) ⟨rfl, by decide⟩ hlist (List.forall_mem_singleton.2 (by decide)) hsecond
  have hpage : PageVisits (sharedWalk second) 0x8001
      [⟨sharedWalk second, 0, 1⟩, ⟨sharedWalk second, plainStart second, raw⟩] :=
    ⟨_, hheads, Concat.cons hfirst (Concat.cons hchain .nil)⟩
  have hsegment : SegmentVisits (sharedImage second) [sharedSegment] 0 0 (sharedStarts second)
      [⟨sharedWalk second, 0, 1⟩, ⟨sharedWalk second, plainStart second, raw⟩] := by
    refine ⟨sharedSegment, rfl, ?_⟩
    change Concat _ [((0x8001 : UInt16), 0)] ([_, _] ++ [])
    exact .cons hpage .nil
  exact Concat.cons hsegment .nil

theorem exists_readShared {second : UInt16} {vs : List ChainVisit}
    (hok : (readShared second).map (fun t => (t.imports.size, t.starts)) =
      .ok (0, [sharedStarts second]))
    (hvs : ImageVisits (sharedImage second) [sharedSegment] 0 0 [sharedStarts second] vs) :
    ∃ t, readShared second = .ok t ∧
      ImageVisits (sharedImage second) [sharedSegment] 0 t.imports.size t.starts vs := by
  obtain ⟨t, ht, htables⟩ := map_eq_ok.1 hok
  obtain ⟨hcount, hstarts⟩ := Prod.mk.inj htables
  refine ⟨t, ht, ?_⟩
  rw [hcount, hstarts]
  exact hvs

/-- Two numbers, each visited once. -/
theorem read_revisits_apart : ∃ t vs, readShared 0x8004 = .ok t ∧
    ImageVisits (sharedImage 0x8004) [sharedSegment] 0 t.imports.size t.starts vs ∧
    vs.length = 2 ∧ (vs.map ChainVisit.slot).Nodup := by
  have hvisits := imageVisits_shared (by decide : isMarked 0x8004 = true)
    (.last (by rfl) (by rfl)) (.last (by rfl : ChainVisit.Read ⟨_, _, 2⟩) (by rfl))
  obtain ⟨t, ht, hshared⟩ := exists_readShared (by decide +kernel) hvisits
  obtain ⟨vs, hvs, hunique, -, hnodup, -⟩ := (read_revisits _ _ _ _).1 t ht
  obtain rfl := hunique _ hshared
  refine ⟨t, _, ht, hvs, rfl, hnodup.2 (.cons ?_ (.cons nofun .nil))⟩
  simp only [List.mem_singleton, forall_eq]
  exact fun _ => by decide

/-- Both chains start at one number, and the image is read all the same. -/
theorem read_revisits_unseen : ∃ t vs, readShared 0x8000 = .ok t ∧
    ImageVisits (sharedImage 0x8000) [sharedSegment] 0 t.imports.size t.starts vs ∧
    vs.map ChainVisit.slot = [0, 0] ∧ ¬ (vs.map ChainVisit.slot).Nodup := by
  have hvisits := imageVisits_shared (by decide : isMarked 0x8000 = true)
    (.last (by rfl) (by rfl)) (.last (by rfl : ChainVisit.Read ⟨_, _, 1⟩) (by rfl))
  obtain ⟨t, ht, hshared⟩ := exists_readShared (by decide +kernel) hvisits
  exact ⟨t, _, ht, hshared, rfl, by decide⟩

end ChainTable

end ObjcAtlas
