import ObjcAtlas.Fixup.Chain

set_option autoImplicit false

namespace ObjcAtlas

/-- One stop of a chain: a place in a page and the word that stands there. -/
structure ChainVisit where
  walk : PageWalk
  offset : Nat
  raw : UInt64

namespace ChainVisit

variable (v : ChainVisit)

def format : PointerFormat := v.walk.starts.format

def slot : Nat := v.walk.slot v.offset

def entry : ChainEntry := (ChainEntry.decode v.format v.raw).1

def next : Nat := (ChainEntry.decode v.format v.raw).2

def isNumber : Bool := v.walk.isNumber v.entry

def fixup : ChainFixup where
  offset := v.slot
  format := v.format
  raw := v.raw
  entry := v.entry
  target := v.entry.address? v.format v.walk.base

/-- The word is the one in the image. -/
def Read : Prop := (v.walk.image.number v.format.entrySize v.slot).map UInt64.ofNat = .ok v.raw

/-- The slot is one that a chain may run through. -/
structure Sound : Prop where
  inPage : v.offset + v.format.entrySize ≤ v.walk.starts.pageSize.toNat
  inSegment : v.walk.segment.fileOffset.toNat ≤ v.slot ∧ v.slot < v.walk.segment.fileEnd
  imported : ∀ ordinal addend signing, v.entry = .bind ordinal addend signing →
    ordinal.toNat < v.walk.importCount

/-- A later visit does not come back to a pointer. -/
def Apart (u v : ChainVisit) : Prop := u.isNumber = false → u.slot ≠ v.slot

end ChainVisit

/-- The visits of the chain that starts at `offset` in the page. -/
inductive Chain (w : PageWalk) : (offset : Nat) → List ChainVisit → Prop where
  | last {offset : Nat} {raw : UInt64} (hr : ChainVisit.Read ⟨w, offset, raw⟩)
      (hn : ChainVisit.next ⟨w, offset, raw⟩ = 0) : Chain w offset [⟨w, offset, raw⟩]
  | step {offset : Nat} {raw : UInt64} {vs : List ChainVisit}
      (hr : ChainVisit.Read ⟨w, offset, raw⟩) (hn : ChainVisit.next ⟨w, offset, raw⟩ ≠ 0)
      (h : Chain w (offset + ChainVisit.next ⟨w, offset, raw⟩ * w.starts.format.stride) vs) :
      Chain w offset (⟨w, offset, raw⟩ :: vs)

/-- Where the chains of a page start: nowhere, at one place, or at the places of a list that ends
    with its first marked value. -/
inductive PageHeads (s : SegmentStarts) : (start : UInt16) → List Nat → Prop where
  | none : PageHeads s noStart []
  | single {start : UInt16} (hs : start ≠ noStart)
      (hm : ¬ (s.format.is32Bit = true ∧ isMarked start = true)) :
      PageHeads s start [start.toNat]
  | list {start last : UInt16} {values : List UInt16} (hs : start ≠ noStart)
      (hm : s.format.is32Bit = true ∧ isMarked start = true)
      (hl : values ++ [last] <+: s.pageStarts.drop (plainStart start))
      (hv : ∀ v ∈ values, isMarked v = false) (he : isMarked last = true) :
      PageHeads s start ((values ++ [last]).map plainStart)

/-- Each item of a list gives a stretch, and these stand one behind the other. -/
inductive Concat {α β : Type} (R : α → List β → Prop) : List α → List β → Prop where
  | nil : Concat R [] []
  | cons {a : α} {as : List α} {xs ys : List β} (h : R a xs) (hs : Concat R as ys) :
      Concat R (a :: as) (xs ++ ys)

/-- The places in the page that the chain from `head` comes to. -/
inductive Reached (w : PageWalk) (head : Nat) : (offset : Nat) → Prop where
  | head : Reached w head head
  | next {offset : Nat} {raw : UInt64} (h : Reached w head offset)
      (hr : ChainVisit.Read ⟨w, offset, raw⟩) (hn : ChainVisit.next ⟨w, offset, raw⟩ ≠ 0) :
      Reached w head (offset + ChainVisit.next ⟨w, offset, raw⟩ * w.starts.format.stride)

/-- The chains of a page have starts, and a word of the page wherever they come to. -/
def PageReadable (w : PageWalk) (start : UInt16) : Prop :=
  ∃ heads, PageHeads w.starts start heads ∧ ∀ head ∈ heads, ∀ offset, Reached w head offset →
    offset + w.starts.format.entrySize ≤ w.starts.pageSize.toNat ∧
      ∃ raw, ChainVisit.Read ⟨w, offset, raw⟩

def PageVisits (w : PageWalk) (start : UInt16) (vs : List ChainVisit) : Prop :=
  ∃ heads, PageHeads w.starts start heads ∧ Concat (Chain w) heads vs

section

variable (image : Reader) (segments : List Segment) (base : UInt64) (importCount : Nat)

def SegmentVisits (starts : SegmentStarts) (vs : List ChainVisit) : Prop :=
  ∃ segment, segments[starts.segment]? = some segment ∧
    Concat (fun (x : UInt16 × Nat) =>
      PageVisits { image, base, importCount, segment, starts, page := x.2 } x.1)
      (starts.pageStarts.take starts.pageCount.toNat).zipIdx vs

def SegmentReadable (starts : SegmentStarts) : Prop :=
  ∃ segment, segments[starts.segment]? = some segment ∧
    ∀ x ∈ (starts.pageStarts.take starts.pageCount.toNat).zipIdx,
      PageReadable { image, base, importCount, segment, starts, page := x.2 } x.1

def ImageVisits (starts : List SegmentStarts) (vs : List ChainVisit) : Prop :=
  Concat (SegmentVisits image segments base importCount) starts vs

end

/-- The table holds one entry for each visit of a pointer, and nothing else. -/
structure FixupTable.Records (vs : List ChainVisit) (table : FixupTable) : Prop where
  entry : ∀ offset f, table[offset]? = some f ↔
    ∃ v ∈ vs, v.isNumber = false ∧ v.slot = offset ∧ v.fixup = f
  count : table.size = (vs.filter fun v => !v.isNumber).length
  apart : vs.Pairwise ChainVisit.Apart

end ObjcAtlas
