import ObjcAtlas.Fixup.Draft
import ObjcAtlas.Proofs.Fixup.Lists
import ObjcAtlas.Proofs.Image.Holds

set_option autoImplicit false

namespace ObjcAtlas

/-- A list that was not read, or not to its end. -/
def listError : ImageError :=
  .badStructure "chained starts" 0 "overflow chain index out of range"

def IsOther (e : ImageError) : Prop := e ≠ listError

theorem isOther_bounds (offset length size : Nat) :
    IsOther (.outOfBounds offset length size) := nofun

namespace ChainImport

theorem isOther_read (blob : Reader) (format : ImportsFormat) (symbols offset : Nat) :
    FailsOnly IsOther (read blob format symbols offset) := by
  have hnumber := Reader.failsOnly_number isOther_bounds blob
  have hname := Reader.failsOnly_cstring isOther_bounds blob
  cases format with
  | plain =>
    apply ((hnumber _ _).map _).bind
    intro raw _
    apply (hname _).bind
    intro name _
    exact failsOnly_ok _
  | withAddend =>
    apply ((hnumber _ _).map _).bind
    intro raw _
    apply ((((hnumber _ _).map _).map _).map _).bind
    intro addend _
    apply (hname _).bind
    intro name _
    exact failsOnly_ok _
  | withAddend64 =>
    apply ((hnumber _ _).map _).bind
    intro raw _
    apply ((hnumber _ _).map _).bind
    intro addend _
    apply (hname _).bind
    intro name _
    exact failsOnly_ok _

theorem isOther_readTable (blob : Reader) (format : ImportsFormat) (offset count symbols : Nat) :
    FailsOnly IsOther (readTable blob format offset count symbols) := by
  apply (Reader.failsOnly_slice isOther_bounds _ _ _).bind
  intro _ _
  apply failsOnly_mapM
  intro i _
  exact isOther_read _ _ _ _

end ChainImport

namespace SegmentStarts

theorem isOther_readMarked (blob : Reader) (fuel offset : Nat) :
    FailsOnly IsOther (readMarked blob fuel offset) := by
  induction fuel generalizing offset with
  | zero => exact failsOnly_error (isOther_bounds _ _ _)
  | succ fuel ih =>
    apply ((Reader.failsOnly_number isOther_bounds _ _ _).map _).bind
    intro v _
    split
    · exact failsOnly_ok _
    · apply (ih _).bind
      intro rest _
      exact failsOnly_ok _

theorem isOther_read (blob : Reader) (number base : Nat) :
    FailsOnly IsOther (read blob number base) := by
  have hnumber := Reader.failsOnly_number isOther_bounds blob
  apply ((hnumber _ _).map _).bind
  intro pageSize _
  apply ((hnumber _ _).map _).bind
  intro code _
  have hformat : FailsOnly IsOther (PointerFormat.ofCode code.toNat) := by
    rw [PointerFormat.ofCode]
    split
    · exact failsOnly_ok _
    · exact failsOnly_error nofun
  apply hformat.bind
  intro format _
  apply ((hnumber _ _).map _).bind
  intro segmentOffset _
  apply ((hnumber _ _).map _).bind
  intro maxValidPointer _
  apply ((hnumber _ _).map _).bind
  intro pageCount _
  refine failsOnly_throw_if (by simp [IsOther, listError]) ?_
  intro _
  have hpages : FailsOnly IsOther
      ((List.range pageCount.toNat).mapM fun i => blob.u16 (base + 22 + 2 * i)) := by
    apply failsOnly_mapM
    intro i _
    exact (hnumber _ _).map _
  apply hpages.bind
  intro pages _
  dsimp only
  split
  · apply (isOther_readMarked _ _ _).bind
    intro lists _
    exact failsOnly_ok _
  · exact failsOnly_ok _

theorem isOther_readTable (blob : Reader) (table : Nat) :
    FailsOnly IsOther (readTable blob table) := by
  have hnumber := Reader.failsOnly_number isOther_bounds blob
  apply ((hnumber _ _).map _).bind
  intro count _
  apply (Reader.failsOnly_slice isOther_bounds _ _ _).bind
  intro _ _
  have hall : FailsOnly IsOther
      ((List.range count.toNat).mapM (readAt blob table)) := by
    apply failsOnly_mapM
    intro number _
    apply ((hnumber _ _).map _).bind
    intro offset _
    dsimp only
    split
    · exact failsOnly_ok _
    · apply (isOther_read _ _ _).bind
      intro s _
      exact failsOnly_ok _
  apply hall.bind
  intro found _
  exact failsOnly_ok _

end SegmentStarts

namespace PageWalk

variable (w : PageWalk)

theorem isOther_visit (offset : Nat) (table : FixupTable) :
    FailsOnly IsOther (w.visit offset table) := by
  rw [visit]
  refine failsOnly_throw_if (by simp [IsOther, listError, cycle]) ?_
  intro _
  refine failsOnly_throw_if (by simp [IsOther, listError]) ?_
  intro _
  apply (Reader.failsOnly_number isOther_bounds _ _ _).bind
  intro n _
  have hfixup (raw : UInt64) (entry : ChainEntry) :
      FailsOnly IsOther (w.fixup? offset raw entry) := by
    cases entry with
    | rebase target high8 signing => exact failsOnly_ok _
    | bind ordinal addend signing =>
      rw [fixup?]
      split
      · exact failsOnly_error (by simp [IsOther, listError])
      · exact failsOnly_ok _
  apply (hfixup _ _).bind
  intro f _
  cases f with
  | none => exact failsOnly_ok _
  | some f => exact failsOnly_ok _

theorem isOther_follow (steps offset : Nat) (table : FixupTable) :
    FailsOnly IsOther (w.follow steps offset table) := by
  induction steps generalizing offset table with
  | zero => exact failsOnly_error nofun
  | succ steps ih =>
    apply (w.isOther_visit offset table).bind
    rintro ⟨table, distance⟩ _
    dsimp only
    split
    · exact failsOnly_ok _
    · exact ih _ _

theorem isOther_run {start : UInt16} {heads : List Nat}
    (h : PageHeads w.starts start heads) (table : FixupTable) :
    FailsOnly IsOther (w.run start table) := by
  rw [run, SegmentStarts.heads_eq_true.2 h]
  have hchains : FailsOnly IsOther
      (heads.foldlM (fun table head => w.follow w.maxSteps head table) table) := by
    apply failsOnly_foldlM
    intro head _ table
    exact w.isOther_follow _ _ _
  apply hchains.bind
  intro table _
  exact failsOnly_ok _

end PageWalk

theorem ChainTable.isOther_walk {image : Reader} {segments : List Segment} {base : UInt64}
    {importCount : Nat} {starts : List SegmentStarts}
    (h : ∀ s ∈ starts, ∀ x ∈ (s.pageStarts.take s.pageCount.toNat).zipIdx,
      ∃ heads, PageHeads s x.1 heads) :
    FailsOnly IsOther (walk image segments base importCount starts) := by
  apply failsOnly_foldlM
  intro s hs table
  rw [walkSegment]
  split
  next =>
    apply failsOnly_foldlM
    intro x hx table
    obtain ⟨heads, hheads⟩ := h s hs x hx
    exact PageWalk.isOther_run _ hheads table
  next =>
    apply failsOnly_error
    -- The two texts differ in their first letter.
    intro h
    have htext := (ImageError.badStructure.inj h).2.2
    have hhead := congrArg (fun t => t.toList.head?) htext
    simp at hhead

theorem Concat.infix_of_mem {α β : Type} {R : α → List β → Prop} {as : List α} {xs : List β}
    (h : Concat R as xs) {a : α} (ha : a ∈ as) : ∃ ys, R a ys ∧ ys <:+: xs := by
  induction h with
  | nil => exact absurd ha List.not_mem_nil
  | @cons b bs front rest hx _ ih =>
    rcases List.mem_cons.1 ha with rfl | ha
    · exact ⟨front, hx, List.infix_append' [] front rest⟩
    · obtain ⟨ys, hys, hin⟩ := ih ha
      exact ⟨ys, hys, hin.trans (List.suffix_append front rest).isInfix⟩

namespace ChainTable

variable {image blob : Reader} {range : FileRange} {segments : List Segment} {base : UInt64}
  {importCount : Nat} {starts : List SegmentStarts} {s : SegmentStarts} {vs : List ChainVisit}
  {start : UInt16} {page : Nat}

theorem pageVisits_of_imageVisits (h : ImageVisits image segments base importCount starts vs)
    (hs : s ∈ starts) (hm : (start, page) ∈ (s.pageStarts.take s.pageCount.toNat).zipIdx) :
    ∃ segment heads, segments[s.segment]? = some segment ∧ PageHeads s start heads ∧
      ∀ head ∈ heads, ∃ chain,
        Chain ⟨image, base, importCount, segment, s, page⟩ head chain ∧ chain <:+: vs := by
  obtain ⟨ofSegment, ⟨segment, hsegment, hpages⟩, hin⟩ := Concat.infix_of_mem h hs
  obtain ⟨ofPage, ⟨heads, hheads, hchains⟩, hin'⟩ := hpages.infix_of_mem hm
  refine ⟨segment, heads, hsegment, hheads, ?_⟩
  intro head hhead
  obtain ⟨chain, hchain, hin''⟩ := hchains.infix_of_mem hhead
  exact ⟨chain, hchain, hin''.trans (hin'.trans hin)⟩

theorem isOther_read (hblob : image.sub range.offset.toNat range.size.toNat = .ok blob)
    (hin : SegmentStarts.ListsInside blob) (hun : SegmentStarts.Unbroken blob) :
    FailsOnly IsOther (read image range segments base) := by
  have hnumber := Reader.failsOnly_number isOther_bounds blob
  apply ((Reader.failsOnly_slice isOther_bounds _ _ _).map _).bind
  intro blob' hblob'
  obtain rfl := Except.ok.inj (hblob.symm.trans hblob')
  refine failsOnly_throw_if (by simp [IsOther, listError]) ?_
  intro _
  apply ((hnumber _ _).map _).bind
  intro version _
  apply ((hnumber _ _).map _).bind
  intro table htable
  apply ((hnumber _ _).map _).bind
  intro importsOffset _
  apply ((hnumber _ _).map _).bind
  intro symbolsOffset _
  apply ((hnumber _ _).map _).bind
  intro importCount _
  apply ((hnumber _ _).map _).bind
  intro importsCode _
  apply ((hnumber _ _).map _).bind
  intro symbolsFormat _
  refine failsOnly_throw_if (by simp [IsOther, listError]) ?_
  intro _
  refine failsOnly_throw_if (by simp [IsOther, listError]) ?_
  intro _
  have hformat : FailsOnly IsOther (ImportsFormat.ofCode importsCode) := by
    rw [ImportsFormat.ofCode]
    split_ifs
    · exact failsOnly_ok _
    · exact failsOnly_ok _
    · exact failsOnly_ok _
    · exact failsOnly_error (by simp [IsOther, listError])
  apply hformat.bind
  intro importsFormat _
  apply (ChainImport.isOther_readTable _ _ _ _ _).bind
  intro imports _
  apply (SegmentStarts.isOther_readTable _ _).bind
  intro starts hstarts
  have hwalk : FailsOnly IsOther (walk image segments base imports.length starts) := by
    apply isOther_walk
    rintro s hs ⟨start, page⟩ hm
    obtain ⟨place, hat, hread⟩ := SegmentStarts.standAt_of_readTable htable hstarts hs
    exact SegmentStarts.exists_pageHeads hin hun hat hread hm
  apply hwalk.bind
  intro fixups _
  exact failsOnly_ok _

/-- The walk has followed a chain from each head of each page with a list. -/
theorem heads_of_read (hblob : image.sub range.offset.toNat range.size.toNat = .ok blob)
    {t : ChainTable} (ht : read image range segments base = .ok t) :
    ∃ vs, ImageVisits image segments base t.imports.size t.starts vs ∧ t.fixups.Records vs ∧
      ∀ number place page count start, SegmentStarts.StandAt blob number place →
        SegmentStarts.HasList blob place page count start → ∃ w heads,
          SegmentStarts.read blob number place = .ok w.starts ∧ w.image = image ∧
          segments[number]? = some w.segment ∧ w.page = page ∧ PageHeads w.starts start heads ∧
          ∀ head ∈ heads, ∃ chain, Chain w head chain ∧ chain <:+: vs := by
  obtain ⟨hwalk, blob', table, hblob', htable, hstarts⟩ := of_read ht
  obtain rfl := Except.ok.inj (hblob.symm.trans hblob')
  have hwalks := walk_walks image segments base t.imports.size t.starts
  obtain ⟨vs, hvisits, -, hrecords⟩ := hwalks.sound FixupTable.records_empty hwalk
  refine ⟨vs, hvisits, hrecords, ?_⟩
  intro number place page count start hat hl
  obtain ⟨s, hs, hread⟩ := SegmentStarts.read_of_standAt htable hstarts hat
  obtain ⟨rfl, -⟩ := SegmentStarts.of_read hread
  obtain ⟨segment, heads, hsegment, hheads, hchains⟩ :=
    pageVisits_of_imageVisits hvisits hs (SegmentStarts.mem_of_hasList hread hl)
  exact ⟨_, heads, hread, rfl, hsegment, rfl, hheads, hchains⟩

/-- Reading takes every list in full, or fails; and unless some list ends in front of another one,
    it does not fail for want of a list. -/
theorem read_lists (hblob : image.sub range.offset.toNat range.size.toNat = .ok blob)
    (hin : SegmentStarts.ListsInside blob) :
    (∀ t, read image range segments base = .ok t → SegmentStarts.Unbroken blob ∧
      ∃ vs, ImageVisits image segments base t.imports.size t.starts vs ∧ t.fixups.Records vs ∧
        ∀ number place page count start values, SegmentStarts.StandAt blob number place →
          SegmentStarts.HasList blob place page count start →
          SegmentStarts.ListAt blob place (plainStart start) values →
          ∀ value ∈ values, ∃ w chain, SegmentStarts.read blob number place = .ok w.starts ∧
            w.image = image ∧ segments[number]? = some w.segment ∧ w.page = page ∧
            Chain w (plainStart value) chain ∧ chain <:+: vs) ∧
    (SegmentStarts.Unbroken blob → read image range segments base ≠
      .error (.badStructure "chained starts" 0 "overflow chain index out of range")) := by
  constructor
  · intro t ht
    obtain ⟨vs, hvisits, hrecords, hheads⟩ := heads_of_read hblob ht
    refine ⟨?_, vs, hvisits, hrecords, ?_⟩
    · intro number place page count start hat hl
      obtain ⟨w, heads, hread, -, -, -, hpage, -⟩ := hheads _ _ _ _ _ hat hl
      obtain ⟨hbehind, values, hv⟩ := hin _ _ _ _ _ hat hl
      exact ((SegmentStarts.pageHeads_iff hread hl hbehind hv).1 hpage).1
    · intro number place page count start values hat hl hv value hvalue
      obtain ⟨w, heads, hread, himage, hsegment, hnumber, hpage, hchains⟩ := hheads _ _ _ _ _ hat hl
      obtain ⟨hbehind, -⟩ := hin _ _ _ _ _ hat hl
      obtain ⟨-, rfl⟩ := (SegmentStarts.pageHeads_iff hread hl hbehind hv).1 hpage
      obtain ⟨chain, hchain, hinside⟩ := hchains _ (List.mem_map_of_mem hvalue)
      exact ⟨w, chain, hread, himage, hsegment, hnumber, hchain, hinside⟩
  · intro hun herror
    exact isOther_read hblob hin hun _ herror rfl

/-- Two pages of eight bytes, in a segment that the image starts with. The first page has a list
    of two chains, and behind it stands a list of one. -/
def pairBlob (second : UInt16) : List UInt8 :=
  ChainDraft.encode { segmentCount := 1, starts := [{
    segment := 0, pageSize := 8, format := .ptr32, segmentOffset := 0, maxValidPointer := 0,
    pageCount := 2, pageStarts := [0x8002, second, 0, 0x8004, 0x8000] }] }

def pairImage (second : UInt16) : Reader :=
  .ofList .little (List.replicate 16 0 ++ pairBlob second)

def pairRange : FileRange := ⟨16, 73⟩

def readPair (second : UInt16) : Except ImageError ChainTable :=
  read (pairImage second) pairRange [⟨"__DATA", 0, 16, 0, 16, 3, 3, 0, []⟩] 0

section

open SegmentStarts

variable {second : UInt16}

theorem sub_pairImage (h : second = 0x8003 ∨ second = 0x8004) :
    (pairImage second).sub pairRange.offset.toNat pairRange.size.toNat =
      .ok (.ofList .little (pairBlob second)) := by
  have hlength : (pairBlob second).length = pairRange.size.toNat := by
    rcases h with rfl | rfl <;> rfl
  have hhas : (pairImage second).Has 16 (pairBlob second) :=
    ⟨List.replicate 16 0, [], by simp [pairImage, Reader.ofList], rfl⟩
  rw [← hlength]
  exact hhas.sub

theorem standAt_pairBlob (h : second = 0x8003 ∨ second = 0x8004) {number base : Nat}
    (hat : StandAt (.ofList .little (pairBlob second)) number base) : number = 0 ∧ base = 40 := by
  obtain ⟨table, count, offset, htable, hcount, hnumber, hoffset, -, rfl⟩ := hat
  rcases h with rfl | rfl
  all_goals
    obtain rfl : 32 = table := Except.ok.inj htable
    obtain rfl : 1 = count := Except.ok.inj hcount
    obtain rfl : number = 0 := Nat.lt_one_iff.1 hnumber
    obtain rfl : 8 = offset := Except.ok.inj hoffset
    exact ⟨rfl, rfl⟩

theorem hasList_pairBlob (h : second = 0x8003 ∨ second = 0x8004) {page : Nat} {count start : UInt16}
    (hl : HasList (.ofList .little (pairBlob second)) 40 page count start) :
    count = 2 ∧ (page = 0 ∧ start = 0x8002 ∨ page = 1 ∧ start = second) := by
  have hcount : 2 = count := by
    rcases h with rfl | rfl <;> exact Except.ok.inj hl.pages
  subst hcount
  have hpage : page < 2 := hl.inPages
  obtain rfl | rfl : page = 0 ∨ page = 1 := by omega
  · refine ⟨rfl, .inl ⟨rfl, ?_⟩⟩
    rcases h with rfl | rfl <;> exact (Except.ok.inj hl.value).symm
  · refine ⟨rfl, .inr ⟨rfl, ?_⟩⟩
    rcases h with rfl | rfl <;> exact (Except.ok.inj hl.value).symm

theorem listsInside_pairBlob (h : second = 0x8003 ∨ second = 0x8004) :
    ListsInside (.ofList .little (pairBlob second)) := by
  intro number base page count start hat hl
  obtain ⟨rfl, rfl⟩ := standAt_pairBlob h hat
  obtain ⟨rfl, ⟨rfl, rfl⟩ | ⟨rfl, rfl⟩⟩ := hasList_pairBlob h hl
  · refine ⟨by decide, [0, 0x8004], ?_⟩
    rcases h with rfl | rfl
    · exact .cons rfl rfl (.last rfl rfl)
    · exact .cons rfl rfl (.last rfl rfl)
  · rcases h with rfl | rfl
    · exact ⟨by decide, [0x8004], .last rfl rfl⟩
    · exact ⟨by decide, [0x8000], .last rfl rfl⟩

end

/-- The second page may share the end of the list of the first. -/
theorem read_lists_shared :
    SegmentStarts.ListsInside (.ofList .little (pairBlob 0x8003)) ∧
      ∃ t vs, readPair 0x8003 = .ok t ∧ t.fixups.Records vs ∧
        ∃ w chain, w.page = 1 ∧ Chain w 4 chain ∧ chain <:+: vs := by
  have hin := listsInside_pairBlob (.inl rfl)
  have hok : (readPair 0x8003).isOk = true := by decide +kernel
  cases ht : readPair 0x8003 with
  | error e =>
    rw [ht] at hok
    exact absurd hok nofun
  | ok t =>
    obtain ⟨-, vs, -, hrecords, hlists⟩ := (read_lists (sub_pairImage (.inl rfl)) hin).1 t ht
    obtain ⟨w, chain, -, -, -, hpage, hchain, hinside⟩ :=
      hlists 0 40 1 2 0x8003 [0x8004] ⟨32, 1, 8, rfl, rfl, by decide, rfl, by decide, rfl⟩
        ⟨⟨3, .ptr32, rfl, rfl, rfl⟩, by decide, rfl, rfl, by decide, by decide⟩ (.last rfl rfl)
        0x8004 List.mem_cons_self
    exact ⟨hin, t, vs, rfl, hrecords, w, chain, hpage, hchain, hinside⟩

/-- The second page has a list of its own, which is not read. -/
theorem read_lists_apart :
    SegmentStarts.ListsInside (.ofList .little (pairBlob 0x8004)) ∧
      (pairImage 0x8004).sub pairRange.offset.toNat pairRange.size.toNat =
        .ok (.ofList .little (pairBlob 0x8004)) ∧
      readPair 0x8004 =
        .error (.badStructure "chained starts" 0 "overflow chain index out of range") := by
  refine ⟨listsInside_pairBlob (.inr rfl), sub_pairImage (.inr rfl), ?_⟩
  have herror : (readPair 0x8004).map (fun _ => ()) = .error listError := by decide +kernel
  cases h : readPair 0x8004 with
  | ok t =>
    rw [h] at herror
    exact absurd herror nofun
  | error e =>
    rw [h] at herror
    exact congrArg Except.error (Except.error.inj herror)

end ChainTable

end ObjcAtlas
