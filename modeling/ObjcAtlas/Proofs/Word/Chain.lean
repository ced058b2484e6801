import ObjcAtlas.Proofs.Fixup.Lists
import ObjcAtlas.Proofs.Fixup.PointerBits
import ObjcAtlas.Proofs.Word.Image

set_option autoImplicit false

namespace ObjcAtlas.Run

open Word

def chainImport (blob : Reader) (format : ImportsFormat) (symbols offset : Nat) :
    Run ChainImport := do
  match format with
  | .withAddend64 =>
    let raw ← u64 blob offset
    let addend ← u64 blob (← plus offset 8)
    return {
      symbol := ← cstring blob (← plus symbols (bitField raw 32 32))
      ordinal := ChainImport.ordinalOf (bitField raw 0 16) 16
      weak := bitSet raw 16
      addend := addend.toInt64 }
  | _ =>
    let raw := (← u32 blob offset).toUInt64
    let addend ← if format = .withAddend then
        (·.toInt64) <$> (do i32 blob (← plus offset 4))
      else pure 0
    return {
      symbol := ← cstring blob (← plus symbols (bitField raw 9 23))
      ordinal := ChainImport.ordinalOf (bitField raw 0 8) 8
      weak := bitSet raw 8
      addend }

def chainImports (blob : Reader) (format : ImportsFormat) (offset count symbols : Nat) :
    Run (List ChainImport) := do
  let _ ← slice blob offset (← times count format.entrySize)
  (List.range count).mapM fun i => do
    chainImport blob format symbols (← plus offset (← times i format.entrySize))

def marked (blob : Reader) : (fuel cursor : Nat) → Run (List UInt16)
  | 0, _ => trap
  | fuel + 1, cursor => do
    let v ← u16 blob cursor
    let cursor ← plus cursor 2
    if isMarked v then return [v]
    else return v :: (← marked blob fuel cursor)

def segmentStarts (blob : Reader) (segment base : Nat) : Run SegmentStarts := do
  let pageSize ← u16 blob (← plus base 4)
  let format ← plain (PointerFormat.ofCode (← u16 blob (← plus base 6)).toNat)
  let segmentOffset ← u64 blob (← plus base 8)
  let maxValidPointer ← u32 blob (← plus base 16)
  let pageCount ← u16 blob (← plus base 20)
  if pageSize = 0 then throw (.badStructure "chained starts" base "page size of zero")
  let (pages, cursor) ← stepping (u16 blob) 2 pageCount.toNat (← plus base 22)
  let lists ← if format.is32Bit && pages.any fun v => v != noStart && isMarked v
    then marked blob (blob.size + 1) cursor
    else pure []
  let pageStarts := pages ++ lists
  return { segment, pageSize, format, segmentOffset, maxValidPointer, pageCount, pageStarts }

def startsAt (blob : Reader) (table segment : Nat) : Run (Option SegmentStarts) := do
  let offset := (← u32 blob (← plus (← plus table 4) (← times segment 4))).toNat
  if offset = 0 then return none
  else return some (← segmentStarts blob segment (← plus table offset))

def startsTable (blob : Reader) (table : Nat) : Run (List SegmentStarts) := do
  let count := (← u32 blob table).toNat
  let _ ← slice blob (← plus table 4) (← times count 4)
  let found ← (List.range count).mapM (startsAt blob table)
  return found.filterMap fun s => s

def hasOffset (t : Segment) (offset : Nat) : Run Bool := do
  if t.fileOffset.toNat ≤ offset then
    return decide ((← minus offset t.fileOffset.toNat) < t.fileSize.toNat)
  else return false

/-- Treats the slot at the file offset `place`, which is at `offset` in the page. -/
def visit (w : PageWalk) (place offset : Nat) (table : FixupTable) : Run (FixupTable × Nat) := do
  let format := w.starts.format
  if table.contains place then throw (.chainCycle w.starts.segment w.page place)
  let stop ← plus offset format.entrySize
  if w.starts.pageSize.toNat < stop ∨ (← hasOffset w.segment place) = false then
    throw (.badStructure "fixup chain" place
      ("entry runs past page " ++ Text.decimal w.page ++ " of " ++ w.segment.name))
  let raw := UInt64.ofNat (← number w.image format.entrySize place)
  let (entry, next) := ChainEntry.decode format raw
  let distance ← times next format.stride
  match ← plain (w.fixup? offset raw entry) with
  | some f => return (table.insert f.offset f, distance)
  | none => return (table, distance)

/-- Follows a chain in the page that starts at the file offset `base`; it may take `most` steps in
    all. -/
def follow (w : PageWalk) (base most : Nat) :
    (fuel steps offset : Nat) → FixupTable → Run FixupTable
  | 0, _, _, _ => trap
  | fuel + 1, steps, offset, table => do
    let place ← plus base offset
    let steps ← plus steps 1
    if most < steps then throw (.chainCycle w.starts.segment w.page place)
    let (table, distance) ← visit w place offset table
    if distance = 0 then return table
    else follow w base most fuel steps (← plus offset distance) table

def chain (w : PageWalk) (head : Nat) (table : FixupTable) : Run FixupTable := do
  let base ← plus w.segment.fileOffset.toNat (← times w.page w.starts.pageSize.toNat)
  let most ← plus (w.starts.pageSize.toNat / w.starts.format.stride) 1
  follow w base most (most + 1) 0 head table

def chainList (w : PageWalk) : (fuel index : Nat) → FixupTable → Run FixupTable
  | 0, _, _ => trap
  | fuel + 1, index, table => do
    match w.starts.pageStarts[index]? with
    | some v =>
      let table ← chain w (plainStart v) table
      if isMarked v then return table
      else chainList w fuel (← plus index 1) table
    | none => throw (.badStructure "chained starts" 0 "overflow chain index out of range")

def walkPage (w : PageWalk) (start : UInt16) (table : FixupTable) : Run FixupTable := do
  if start = noStart then return table
  else if w.starts.format.is32Bit && isMarked start then
    chainList w (w.starts.pageStarts.length + 1) (plainStart start) table
  else chain w start.toNat table

def walkSegment (image : Reader) (segments : List Segment) (base : UInt64) (importCount : Nat)
    (table : FixupTable) (starts : SegmentStarts) : Run FixupTable := do
  let some segment := segments[starts.segment]?
    | throw (.badStructure "chained starts" 0
        ("segment index " ++ Text.decimal starts.segment ++ " out of range"))
  let walk (table : FixupTable) (page : Nat) : Run FixupTable := do
    let start ← (item starts.pageStarts page : Option UInt16)
    walkPage { image, base, importCount, segment, starts, page } start table
  (List.range starts.pageCount.toNat).foldlM walk table

def chainTable (image : Reader) (range : FileRange) (segments : List Segment) (base : UInt64) :
    Run ChainTable := do
  let blob ← sub image range.offset.toNat range.size.toNat
  if blob.size < 28 then throw (.tooShort 28 blob.size)
  let version ← u32 blob 0
  let startsOffset := (← u32 blob 4).toNat
  let importsOffset := (← u32 blob 8).toNat
  let symbolsOffset := (← u32 blob 12).toNat
  let importCount := (← u32 blob 16).toNat
  let importsCode ← u32 blob 20
  let symbolsFormat ← u32 blob 24
  if version != 0 then throw (.unsupportedVersion "chained fixups" version.toNat)
  if symbolsFormat != 0 then
    throw (.unsupportedVersion "chained fixups symbol pool" symbolsFormat.toNat)
  let importsFormat ← plain (ImportsFormat.ofCode importsCode)
  let imports ← chainImports blob importsFormat importsOffset importCount symbolsOffset
  let starts ← startsTable blob startsOffset
  let fixups ← starts.foldlM (walkSegment image segments base imports.length) ∅
  return { version, importsFormat, imports := imports.toArray, starts, fixups }

section

variable {blob : Reader} (hr : blob.size < 2 ^ 63)

include hr

theorem runs_chainImport {format : ImportsFormat} {symbols offset : Nat} (hs : symbols < 2 ^ 32)
    (ho : offset < 2 ^ 40) :
    Runs (chainImport blob format symbols offset)
      (ChainImport.read blob format symbols offset) := by
  have hsmall {raw : UInt64} {low width : Nat} (h : width ≤ 32) :
      symbols + bitField raw low width < 2 ^ 64 := by
    have hlt := bitField_lt raw low width
    have hle := Nat.pow_le_pow_right (n := 2) (by decide) h
    omega
  cases format with
  | withAddend64 =>
    refine (runs_u64 hr _).bind fun raw _ => ?_
    refine .step (plus_eq (by omega)) ((runs_u64 hr _).bind fun _ _ => ?_)
    exact .step (plus_eq (hsmall (by decide))) ((runs_cstring hr _).bind fun _ _ => runs_pure _)
  | withAddend =>
    refine (runs_u32 hr _).bind fun raw _ => Runs.bind ?_ fun _ _ => ?_
    · exact Runs.map (.step (plus_eq (by omega)) (runs_i32 hr _)) _
    · exact .step (plus_eq (hsmall (by decide))) ((runs_cstring hr _).bind fun _ _ => runs_pure _)
  | plain =>
    refine (runs_u32 hr _).bind fun raw _ => (runs_pure 0).bind fun _ _ => ?_
    exact .step (plus_eq (hsmall (by decide))) ((runs_cstring hr _).bind fun _ _ => runs_pure _)

theorem runs_chainImports {format : ImportsFormat} {offset count symbols : Nat}
    (ho : offset < 2 ^ 32) (hc : count < 2 ^ 32) (hs : symbols < 2 ^ 32) :
    Runs (chainImports blob format offset count symbols)
      (ChainImport.readTable blob format offset count symbols) := by
  have hentry : format.entrySize ≤ 16 := by cases format <;> decide
  have hplace {i : Nat} (hi : i ≤ count) : i * format.entrySize ≤ 2 ^ 32 * 16 :=
    Nat.mul_le_mul (by omega) hentry
  have hroom := hplace (Nat.le_refl count)
  refine .step (times_eq (by omega)) ((runs_slice hr _ _).bind fun _ _ => .mapM fun i hi => ?_)
  have hat := hplace (Nat.le_of_lt (List.mem_range.1 hi))
  refine .step (times_eq (by omega)) (.step (plus_eq (by omega)) ?_)
  exact runs_chainImport hr hs (by omega)

omit hr in
theorem lt_size_of_u16 {offset : Nat} {v : UInt16} (h : blob.u16 offset = .ok v) :
    offset + 2 ≤ blob.size := by
  obtain ⟨n, hn, -⟩ := map_eq_ok.1 h
  obtain ⟨bytes, hbytes, -⟩ := map_eq_ok.1 hn
  exact (Reader.le_of_slice hbytes).1

/-- Every value that was read is in the blob, so that the blob bounds the number of rounds. -/
theorem runs_marked {fuel cursor : Nat} (hf : blob.size ≤ cursor + fuel) :
    Runs (marked blob (fuel + 1) cursor) (SegmentStarts.readMarked blob (fuel + 1) cursor) := by
  induction fuel generalizing cursor with
  | zero =>
    refine (runs_u16 hr cursor).bind fun v hv => ?_
    have := lt_size_of_u16 hv
    omega
  | succ fuel ih =>
    refine (runs_u16 hr cursor).bind fun v hv => ?_
    have hin := lt_size_of_u16 hv
    refine .step (plus_eq (by omega)) (.ite (fun _ => runs_pure _) fun _ => ?_)
    exact (ih (by omega)).bind fun _ _ => runs_pure _

theorem runs_segmentStarts {segment base : Nat} (hb : base < 2 ^ 33) :
    Runs (segmentStarts blob segment base) (SegmentStarts.read blob segment base) := by
  refine .step (plus_eq (by omega)) ((runs_u16 hr _).bind fun pageSize _ => ?_)
  refine .step (plus_eq (by omega)) ((runs_u16 hr _).bind fun code _ => ?_)
  refine (runs_plain _).bind fun format _ => ?_
  refine .step (plus_eq (by omega)) ((runs_u64 hr _).bind fun _ _ => ?_)
  refine .step (plus_eq (by omega)) ((runs_u32 hr _).bind fun _ _ => ?_)
  refine .step (plus_eq (by omega)) ((runs_u16 hr _).bind fun pageCount _ => ?_)
  refine .throw_if Iff.rfl fun _ => .step (plus_eq (by omega)) ?_
  have hcount := pageCount.toNat_lt
  have hpages := Runs.stepping (f := u16 blob) 2 pageCount.toNat (base + 22)
    (fun i _ => runs_u16 hr _) (by omega)
  simp only [Nat.mul_comm _ 2] at hpages
  refine hpages.bind_of_map fun pages _ => ?_
  refine .ite (fun _ => ?_) fun _ => ?_
  · exact (runs_marked hr (by omega)).bind fun _ _ => runs_pure _
  · exact (runs_pure []).bind fun _ _ => runs_pure _

theorem runs_startsAt {table segment : Nat} (ht : table < 2 ^ 32) (hs : segment < 2 ^ 32) :
    Runs (startsAt blob table segment) (SegmentStarts.readAt blob table segment) := by
  refine .step (plus_eq (by omega)) (.step (times_eq (by omega)) ?_)
  refine .step (plus_to (by omega) (by omega)) ((runs_u32 hr _).bind fun offset _ => ?_)
  have hoffset := offset.toNat_lt
  refine .ite (fun _ => runs_pure _) fun _ => .step (plus_eq (by omega)) ?_
  exact (runs_segmentStarts hr (by omega)).bind fun _ _ => runs_pure _

theorem runs_startsTable {table : Nat} (ht : table < 2 ^ 32) :
    Runs (startsTable blob table) (SegmentStarts.readTable blob table) := by
  refine (runs_u32 hr _).bind fun count _ => ?_
  have hcount := count.toNat_lt
  refine .step (plus_eq (by omega)) (.step (times_eq (by omega)) ?_)
  refine (runs_slice hr _ _).bind fun _ _ => Runs.bind ?_ fun _ _ => runs_pure _
  refine .mapM fun i hi => runs_startsAt hr ht ?_
  exact Nat.lt_trans (List.mem_range.1 hi) hcount

end

theorem runs_hasOffset (t : Segment) (offset : Nat) :
    Runs (hasOffset t offset) (.ok (t.hasOffset offset)) := by
  rw [hasOffset, Segment.hasOffset, Segment.fileEnd]
  by_cases h : t.fileOffset.toNat ≤ offset
  · rw [if_pos h]
    refine .step (minus_eq h) ?_
    have hiff : offset - t.fileOffset.toNat < t.fileSize.toNat ↔
        offset < t.fileOffset.toNat + t.fileSize.toNat := by omega
    simp only [h, hiff, decide_true, Bool.true_and]
    rfl
  · rw [if_neg h]
    simp only [h, decide_false, Bool.false_and]
    rfl

theorem next_lt (format : PointerFormat) (raw : UInt64) :
    (ChainEntry.decode format raw).2 < 2 ^ 12 := by
  have hfield {low width : Nat} (h : width ≤ 12) : bitField raw low width < 2 ^ 12 :=
    Nat.lt_of_lt_of_le (bitField_lt raw low width) (Nat.pow_le_pow_right (by decide) h)
  cases format <;> exact hfield (by decide)

theorem stride_le (format : PointerFormat) : format.stride ≤ 8 := by
  cases format <;> decide

structure Placed (w : PageWalk) : Prop where
  image : w.image.size < 2 ^ 63
  segment : w.segment.fileOffset.toNat ≤ w.image.size
  page : w.page < 2 ^ 16
  starts : w.starts.pageStarts.length < 2 ^ 64

section

variable {w : PageWalk} (hw : Placed w)

include hw

theorem runs_visit {offset : Nat} (ho : offset < 2 ^ 17) (table : FixupTable) :
    Runs (visit w (w.slot offset) offset table) (w.visit offset table) := by
  have hentry := w.starts.format.entrySize_le
  rw [visit, PageWalk.visit]
  refine .throw_if Iff.rfl fun _ => .step (plus_eq (by omega)) ?_
  refine (runs_hasOffset _ _).of_ok (.throw_if Iff.rfl fun _ => ?_)
  refine (runs_number hw.image _ _).bind fun n _ => ?_
  have hnext := next_lt w.starts.format (UInt64.ofNat n)
  have hdistance := Nat.mul_le_mul (Nat.le_of_lt hnext) (stride_le w.starts.format)
  have htimes := times_eq (Nat.lt_of_le_of_lt hdistance (by decide))
  refine .step htimes ((runs_plain _).bind fun f _ => ?_)
  cases f with
  | none => exact runs_pure _
  | some f => exact runs_pure _

/-- The steps that are left and those that were taken make up all that may be taken. -/
theorem runs_follow {left steps offset : Nat} (hs : steps + left = w.maxSteps)
    (ho : offset < 2 ^ 17) (table : FixupTable) :
    Runs (follow w (w.slot 0) w.maxSteps (left + 1) steps offset table)
      (w.follow left offset table) := by
  have hpage := w.starts.pageSize.toNat_lt
  have hsteps : w.maxSteps ≤ 2 ^ 16 := by
    have := Nat.div_le_self w.starts.pageSize.toNat w.starts.format.stride
    rw [PageWalk.maxSteps]
    omega
  have hbase : w.slot 0 < 2 ^ 63 + 2 ^ 32 := by
    have hplace : w.page * w.starts.pageSize.toNat < 2 ^ 16 * 2 ^ 16 :=
      Nat.mul_lt_mul'' hw.page hpage
    have hsegment := hw.segment
    have himage := hw.image
    rw [PageWalk.slot]
    omega
  have hslot : w.slot 0 + offset = w.slot offset := rfl
  induction left generalizing steps offset table with
  | zero =>
    rw [follow, PageWalk.follow]
    refine .step (plus_eq (by omega)) (.step (plus_eq (by omega)) ?_)
    rw [if_pos (by omega)]
    rfl
  | succ left ih =>
    rw [follow, PageWalk.follow]
    refine .step (plus_eq (by omega)) (.step (plus_eq (by omega)) ?_)
    rw [if_neg (by omega), hslot]
    refine (runs_visit hw ho table).bind fun found hfound => ?_
    obtain ⟨raw, -, -, hsound, rfl⟩ := ChainVisit.visit_eq_ok.1 hfound
    have hin : offset + w.starts.format.entrySize ≤ w.starts.pageSize.toNat := hsound.inPage
    have hnext := next_lt w.starts.format raw
    have hdistance : ChainVisit.next ⟨w, offset, raw⟩ * w.starts.format.stride ≤ 2 ^ 12 * 8 :=
      Nat.mul_le_mul (Nat.le_of_lt hnext) (stride_le w.starts.format)
    refine .ite (fun _ => runs_pure _) fun _ => .step (plus_eq (by omega)) ?_
    exact ih (by omega) (by omega) _ rfl

theorem runs_chain {head : Nat} (hh : head < 2 ^ 16) (table : FixupTable) :
    Runs (chain w head table) (w.follow w.maxSteps head table) := by
  have hpage := w.starts.pageSize.toNat_lt
  have hplace : w.page * w.starts.pageSize.toNat < 2 ^ 16 * 2 ^ 16 :=
    Nat.mul_lt_mul'' hw.page hpage
  have hsegment := hw.segment
  have himage := hw.image
  have hdiv := Nat.div_le_self w.starts.pageSize.toNat w.starts.format.stride
  refine .step (times_eq (by omega)) (.step (plus_eq (by omega)) ?_)
  refine .step (plus_eq (by omega)) ?_
  exact runs_follow hw (Nat.zero_add _) (by omega) table

theorem runs_chainList {fuel index : Nat} (hf : w.starts.pageStarts.length ≤ index + fuel)
    (table : FixupTable) :
    Runs (chainList w (fuel + 1) index table)
      ((SegmentStarts.headsOf (w.starts.pageStarts.drop index)).1.foldlM
          (fun table head => w.follow w.maxSteps head table) table >>= fun table =>
        if (SegmentStarts.headsOf (w.starts.pageStarts.drop index)).2 then pure table
        else throw (.badStructure "chained starts" 0 "overflow chain index out of range")) := by
  have hlength := hw.starts
  induction fuel generalizing index table with
  | zero =>
    rw [List.drop_of_length_le (by omega), chainList, List.getElem?_eq_none (by omega)]
    rfl
  | succ fuel ih =>
    rw [chainList]
    by_cases hin : index < w.starts.pageStarts.length
    · rw [List.getElem?_eq_getElem hin, List.drop_eq_getElem_cons hin, SegmentStarts.headsOf]
      generalize w.starts.pageStarts[index] = v
      have hhead : plainStart v < 2 ^ 16 := by
        have := v.toNat_lt
        rw [plainStart]
        omega
      dsimp only
      cases isMarked v with
      | true =>
        simp only [if_true, List.foldlM_cons, List.foldlM_nil, bind_pure]
        exact runs_chain hw hhead table
      | false =>
        simp only [Bool.false_eq_true, if_false, List.foldlM_cons, bind_assoc]
        refine (runs_chain hw hhead table).bind fun table _ => .step (plus_eq (by omega)) ?_
        exact ih (by omega) table
    · rw [List.drop_of_length_le (by omega), List.getElem?_eq_none (by omega)]
      rfl

theorem runs_walkPage (start : UInt16) (table : FixupTable) :
    Runs (walkPage w start table) (w.run start table) := by
  rw [walkPage, PageWalk.run, SegmentStarts.heads]
  by_cases hnone : start = noStart
  · rw [if_pos hnone, if_pos hnone]
    exact runs_pure table
  · rw [if_neg hnone, if_neg hnone]
    by_cases hlist : (w.starts.format.is32Bit && isMarked start) = true
    · rw [if_pos hlist, if_pos hlist]
      exact runs_chainList hw (by omega) table
    · rw [if_neg hlist, if_neg hlist]
      simp only [List.foldlM_cons, List.foldlM_nil, bind_pure, if_true]
      exact runs_chain hw start.toNat_lt table

end

theorem Runs.foldlM_items {α β : Type} {f : β → α → Nat → Run β}
    {g : β → α × Nat → Except ImageError β} {as : List α} {count : Nat} (hc : count ≤ as.length)
    (h : ∀ b a, ∀ i < count, Runs (f b a i) (g b (a, i))) (b : β) :
    Runs ((List.range count).foldlM (fun b i => (liftM (item as i) : Run α) >>= (f b · i)) b)
      ((as.take count).zipIdx.foldlM g b) := by
  induction count with
  | zero => exact runs_pure b
  | succ count ih =>
    have hin : count < as.length := hc
    rw [List.range_succ, List.foldlM_append, List.take_succ_eq_append_getElem hin,
      List.zipIdx_append, List.foldlM_append, List.length_take_of_le (by omega)]
    refine (ih (by omega) fun b a i hi => h b a i (by omega)).bind fun b' _ => ?_
    simp only [List.foldlM_cons, List.foldlM_nil, bind_pure, List.zipIdx_cons, List.zipIdx_nil,
      Nat.zero_add]
    exact .step (List.getElem?_eq_getElem hin) (h b' _ count (by omega))

theorem length_readMarked_le {blob : Reader} {fuel offset : Nat} {values : List UInt16}
    (h : SegmentStarts.readMarked blob fuel offset = .ok values) : values.length ≤ fuel := by
  induction fuel generalizing offset values with
  | zero => exact absurd h nofun
  | succ fuel ih =>
    obtain ⟨v, -, h⟩ := bind_eq_ok.1 h
    split at h
    · cases h
      exact Nat.le_add_left 1 fuel
    · obtain ⟨rest, hrest, h⟩ := bind_eq_ok.1 h
      cases h
      exact Nat.succ_le_succ (ih hrest)

/-- There is a start for each page, and a word can count the starts. -/
structure Filled (s : SegmentStarts) : Prop where
  pages : s.pageCount.toNat ≤ s.pageStarts.length
  length : s.pageStarts.length < 2 ^ 64

theorem filled_of_read {blob : Reader} {number base : Nat} {s : SegmentStarts}
    (hr : blob.size < 2 ^ 63) (h : SegmentStarts.read blob number base = .ok s) : Filled s := by
  rw [SegmentStarts.read] at h
  obtain ⟨pageSize, -, h⟩ := bind_eq_ok.1 h
  obtain ⟨code, -, h⟩ := bind_eq_ok.1 h
  obtain ⟨format, -, h⟩ := bind_eq_ok.1 h
  obtain ⟨segmentOffset, -, h⟩ := bind_eq_ok.1 h
  obtain ⟨maxValidPointer, -, h⟩ := bind_eq_ok.1 h
  obtain ⟨pageCount, -, h⟩ := bind_eq_ok.1 h
  obtain ⟨-, h⟩ := throw_if_eq_ok.1 h
  obtain ⟨pages, hpages, h⟩ := bind_eq_ok.1 h
  have hlength := (of_mapM_range_eq_ok hpages).1
  have hcount := pageCount.toNat_lt
  dsimp only at h
  split at h
  · obtain ⟨lists, hlists, h⟩ := bind_eq_ok.1 h
    have hmarked := length_readMarked_le hlists
    cases h
    constructor <;> simp only [List.length_append] <;> omega
  · cases h
    constructor <;> simp only [List.append_nil] <;> omega

section

variable {image : Reader} (hi : image.size < 2 ^ 63) {segments : List Segment}
  (hsegments : ∀ t ∈ segments, t.fileEnd ≤ image.size)

include hi hsegments

theorem runs_walkSegment {starts : SegmentStarts} (hs : Filled starts) (base : UInt64)
    (importCount : Nat) (table : FixupTable) :
    Runs (walkSegment image segments base importCount table starts)
      (ChainTable.walkSegment image segments base importCount table starts) := by
  rw [walkSegment, ChainTable.walkSegment]
  cases hsegment : segments[starts.segment]? with
  | none => exact runs_throw _
  | some segment =>
    have hend := hsegments segment (List.mem_of_getElem? hsegment)
    rw [Segment.fileEnd] at hend
    refine .foldlM_items hs.pages (fun table start page hpage => ?_) table
    have hcount := starts.pageCount.toNat_lt
    refine runs_walkPage ⟨hi, ?_, ?_, hs.length⟩ start table
    · exact Nat.le_trans (Nat.le_add_right _ _) hend
    · exact Nat.lt_trans hpage hcount

theorem runs_chainTable (range : FileRange) (base : UInt64) :
    Runs (chainTable image range segments base) (ChainTable.read image range segments base) := by
  rw [chainTable, ChainTable.read]
  refine (runs_sub hi _ _).bind fun blob hblob => .throw_if Iff.rfl fun _ => ?_
  have hr := size_lt_of_sub hi hblob
  refine (runs_u32 hr 0).bind fun version _ => (runs_u32 hr 4).bind fun starts hstarts => ?_
  refine (runs_u32 hr 8).bind fun imports _ => (runs_u32 hr 12).bind fun symbols _ => ?_
  refine (runs_u32 hr 16).bind fun count _ => (runs_u32 hr 20).bind fun code _ => ?_
  refine (runs_u32 hr 24).bind fun symbolsFormat _ => ?_
  refine .throw_if Iff.rfl fun _ => .throw_if Iff.rfl fun _ => ?_
  refine (runs_plain _).bind fun format _ => ?_
  refine (runs_chainImports hr imports.toNat_lt count.toNat_lt symbols.toNat_lt).bind
    fun found _ => ?_
  refine (runs_startsTable hr starts.toNat_lt).bind fun all hall => ?_
  refine Runs.bind ?_ fun fixups _ => runs_pure _
  refine .foldlM _ fun table s hs => ?_
  obtain ⟨place, -, hread⟩ := SegmentStarts.standAt_of_readTable hstarts hall hs
  exact runs_walkSegment hi hsegments (filled_of_read hr hread) base found.length table

end

end ObjcAtlas.Run
