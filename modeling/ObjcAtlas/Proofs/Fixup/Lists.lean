import ObjcAtlas.Proofs.Fixup.Located

set_option autoImplicit false

/-!
# Lists of chains

A page of a 32-bit format may have several chains. Its start is then the number of a value in the
same array, behind the starts of all pages, and the chains start at this value and those behind it,
through the first marked one. Reading keeps only the values through the first marked one behind the
pages. So a list is there in full when no marked value stands in front of it, and not at all
otherwise: the lists of a segment have to end with the same value.
-/
namespace ObjcAtlas

namespace SegmentStarts

variable {blob : Reader} {base first number page : Nat} {values values' : List UInt16}
  {s : SegmentStarts}

def valueAt (blob : Reader) (base number : Nat) : Except ImageError UInt16 :=
  blob.u16 (base + 22 + 2 * number)

/-- The values from a number on, through the first marked one. -/
inductive ListAt (blob : Reader) (base : Nat) : (first : Nat) → List UInt16 → Prop where
  | last {first : Nat} {v : UInt16} (hv : valueAt blob base first = .ok v)
      (hm : isMarked v = true) : ListAt blob base first [v]
  | cons {first : Nat} {v : UInt16} {values : List UInt16}
      (hv : valueAt blob base first = .ok v) (hm : isMarked v = false)
      (h : ListAt blob base (first + 1) values) : ListAt blob base first (v :: values)

/-- A page of a 32-bit format has a list of chains. -/
structure HasList (blob : Reader) (base page : Nat) (count start : UInt16) : Prop where
  format : ∃ code f, blob.u16 (base + 6) = .ok code ∧ PointerFormat.ofCode code.toNat = .ok f ∧
    f.is32Bit = true
  inPages : page < count.toNat
  pages : blob.u16 (base + 20) = .ok count
  value : valueAt blob base page = .ok start
  starts : start ≠ noStart
  marked : isMarked start = true

/-- The starts of the segment with this number stand at `base`. -/
def StandAt (blob : Reader) (number base : Nat) : Prop :=
  ∃ table count offset, blob.u32 4 = .ok table ∧ blob.u32 table.toNat = .ok count ∧
    number < count.toNat ∧ blob.u32 (table.toNat + 4 + 4 * number) = .ok offset ∧
    offset.toNat ≠ 0 ∧ base = table.toNat + offset.toNat

/-- No marked value stands between the pages and the value with this number. -/
def ClearTo (blob : Reader) (base count first : Nat) : Prop :=
  ∀ i v, count ≤ i → i < first → valueAt blob base i = .ok v → isMarked v = false

namespace ListAt

theorem unique (h : ListAt blob base first values) (h' : ListAt blob base first values') :
    values = values' := by
  induction h generalizing values' with
  | last hv hm =>
    cases h' with
    | last hv' hm' => rw [Except.ok.inj (hv.symm.trans hv')]
    | cons hv' hm' _ =>
      obtain rfl := Except.ok.inj (hv.symm.trans hv')
      exact absurd (hm.symm.trans hm') nofun
  | cons hv hm _ ih =>
    cases h' with
    | last hv' hm' =>
      obtain rfl := Except.ok.inj (hv.symm.trans hv')
      exact absurd (hm.symm.trans hm') nofun
    | cons hv' hm' hrest => rw [Except.ok.inj (hv.symm.trans hv'), ih hrest]

theorem headsOf_eq (h : ListAt blob base first values) :
    headsOf values = (values.map plainStart, true) := by
  induction h with
  | last hv hm => simp [headsOf, hm]
  | cons hv hm _ ih => simp [headsOf, hm, ih]

theorem drop (h : ListAt blob base first values) {n : Nat} (hn : n < values.length) :
    ListAt blob base (first + n) (values.drop n) := by
  induction h generalizing n with
  | last hv hm =>
    obtain rfl : n = 0 := by simpa using hn
    exact .last hv hm
  | @cons first v values hv hm h ih =>
    cases n with
    | zero => exact .cons hv hm h
    | succ n =>
      have hrest := ih (n := n) (by simpa using hn)
      rwa [Nat.add_assoc, Nat.add_comm 1] at hrest

theorem lt_length_iff (h : ListAt blob base first values) {n : Nat} :
    n < values.length ↔ ClearTo blob base first (first + n) := by
  induction h generalizing n with
  | @last first v hv hm =>
    constructor
    · intro hn i w hlow hhigh _
      rw [List.length_singleton] at hn
      omega
    · intro hclear
      by_contra hn
      rw [List.length_singleton] at hn
      have := hclear first v (Nat.le_refl _) (by omega) hv
      exact absurd (hm.symm.trans this) nofun
  | @cons first v values hv hm h ih =>
    cases n with
    | zero =>
      constructor
      · intro _ i w hlow hhigh _
        omega
      · intro _
        exact Nat.succ_pos _
    | succ n =>
      rw [List.length_cons, Nat.succ_lt_succ_iff, ih]
      constructor
      · intro hclear i w hlow hhigh hw
        by_cases hi : i = first
        · subst hi
          rw [← Except.ok.inj (hv.symm.trans hw)]
          exact hm
        · exact hclear i w (by omega) (by omega) hw
      · intro hclear i w hlow hhigh hw
        exact hclear i w (by omega) (by omega) hw

end ListAt

theorem listAt_of_readMarked {fuel : Nat}
    (h : readMarked blob fuel (base + 22 + 2 * first) = .ok values) :
    ListAt blob base first values := by
  induction fuel generalizing first values with
  | zero => exact absurd h nofun
  | succ fuel ih =>
    rw [readMarked] at h
    obtain ⟨v, hv, h⟩ := bind_eq_ok.1 h
    split at h
    next hm =>
      cases h
      exact .last hv hm
    next hm =>
      obtain ⟨rest, hrest, h⟩ := bind_eq_ok.1 h
      cases h
      exact .cons hv (Bool.eq_false_iff.2 hm) (ih hrest)

theorem of_read (h : read blob number base = .ok s) :
    s.segment = number ∧ blob.u16 (base + 20) = .ok s.pageCount ∧
      (∃ code, blob.u16 (base + 6) = .ok code ∧
        PointerFormat.ofCode code.toNat = .ok s.format) ∧
      ∃ pages lists, s.pageStarts = pages ++ lists ∧ pages.length = s.pageCount.toNat ∧
        (∀ page start, pages[page]? = some start ↔
          page < s.pageCount.toNat ∧ valueAt blob base page = .ok start) ∧
        (s.format.is32Bit = true → (∃ v ∈ pages, v ≠ noStart ∧ isMarked v = true) →
          ListAt blob base s.pageCount.toNat lists) := by
  rw [read] at h
  obtain ⟨pageSize, -, h⟩ := bind_eq_ok.1 h
  obtain ⟨code, hcode, h⟩ := bind_eq_ok.1 h
  obtain ⟨format, hformat, h⟩ := bind_eq_ok.1 h
  obtain ⟨segmentOffset, -, h⟩ := bind_eq_ok.1 h
  obtain ⟨maxValidPointer, -, h⟩ := bind_eq_ok.1 h
  obtain ⟨pageCount, hcount, h⟩ := bind_eq_ok.1 h
  obtain ⟨-, h⟩ := throw_if_eq_ok.1 h
  obtain ⟨pages, hpages, h⟩ := bind_eq_ok.1 h
  obtain ⟨hlength, hvalues⟩ := of_mapM_range_eq_ok hpages
  dsimp only at h
  split at h
  next =>
    obtain ⟨lists, hlists, h⟩ := bind_eq_ok.1 h
    cases h
    refine ⟨rfl, hcount, ⟨code, hcode, hformat⟩, pages, lists, rfl, hlength, hvalues, ?_⟩
    intro _ _
    exact listAt_of_readMarked hlists
  next hnone =>
    cases h
    refine ⟨rfl, hcount, ⟨code, hcode, hformat⟩, pages, [], rfl, hlength, hvalues, ?_⟩
    rintro hbits ⟨v, hv, hsome, hmark⟩
    refine absurd ?_ hnone
    simp only [Bool.and_eq_true, List.any_eq_true, bne_iff_ne]
    exact ⟨hbits, v, hv, hsome, hmark⟩

section

variable {table : UInt32} {starts : List SegmentStarts}

theorem readAt_eq_ok {table : Nat} {found : Option SegmentStarts} :
    readAt blob table number = .ok found ↔
      ∃ offset, blob.u32 (table + 4 + 4 * number) = .ok offset ∧
        if offset.toNat = 0 then found = none
        else ∃ s, read blob number (table + offset.toNat) = .ok s ∧ found = some s := by
  rw [readAt, bind_eq_ok]
  apply exists_congr
  intro offset
  apply and_congr_right
  intro _
  by_cases hzero : offset.toNat = 0
  · simp [hzero, pure, Except.pure, eq_comm]
  · rw [if_neg hzero, if_neg hzero, bind_eq_ok]
    apply exists_congr
    intro s
    simp [pure, Except.pure, eq_comm]

theorem standAt_of_readTable (htable : blob.u32 4 = .ok table)
    (h : readTable blob table.toNat = .ok starts) (hs : s ∈ starts) :
    ∃ base, StandAt blob s.segment base ∧ read blob s.segment base = .ok s := by
  obtain ⟨count, hcount, h⟩ := bind_eq_ok.1 h
  obtain ⟨_, -, h⟩ := bind_eq_ok.1 h
  obtain ⟨found, hfound, h⟩ := bind_eq_ok.1 h
  cases h
  obtain ⟨_, hmem, rfl⟩ := List.mem_filterMap.1 hs
  obtain ⟨number, hat⟩ := List.mem_iff_getElem?.1 hmem
  obtain ⟨hnumber, hread⟩ := ((of_mapM_range_eq_ok hfound).2 number _).1 hat
  obtain ⟨offset, hoffset, hread⟩ := readAt_eq_ok.1 hread
  split at hread
  · cases hread
  next hne =>
    obtain ⟨_, hread, hsome⟩ := hread
    cases hsome
    obtain ⟨rfl, -⟩ := of_read hread
    exact ⟨_, ⟨table, count, offset, htable, hcount, hnumber, hoffset, hne, rfl⟩, hread⟩

theorem read_of_standAt (htable : blob.u32 4 = .ok table)
    (h : readTable blob table.toNat = .ok starts) (hat : StandAt blob number base) :
    ∃ s ∈ starts, read blob number base = .ok s := by
  obtain ⟨table', count', offset, htable', hcount', hnumber, hoffset, hne, rfl⟩ := hat
  obtain rfl := Except.ok.inj (htable.symm.trans htable')
  obtain ⟨count, hcount, h⟩ := bind_eq_ok.1 h
  obtain rfl := Except.ok.inj (hcount.symm.trans hcount')
  obtain ⟨_, -, h⟩ := bind_eq_ok.1 h
  obtain ⟨found, hfound, h⟩ := bind_eq_ok.1 h
  cases h
  obtain ⟨hlength, hvalues⟩ := of_mapM_range_eq_ok hfound
  have hin : number < found.length := hlength ▸ hnumber
  have hread := ((hvalues number _).1 (List.getElem?_eq_getElem hin)).2
  obtain ⟨offset', hoffset', hread⟩ := readAt_eq_ok.1 hread
  obtain rfl := Except.ok.inj (hoffset.symm.trans hoffset')
  rw [if_neg hne] at hread
  obtain ⟨s, hs, hsome⟩ := hread
  exact ⟨s, List.mem_filterMap.2 ⟨some s, hsome ▸ List.getElem_mem hin, rfl⟩, hs⟩

end

section

variable {count start : UInt16} {heads : List Nat}

theorem of_hasList (h : read blob number base = .ok s)
    (hl : HasList blob base page count start) :
    s.pageCount = count ∧ s.format.is32Bit = true ∧ ∃ pages lists,
      s.pageStarts = pages ++ lists ∧ pages.length = count.toNat ∧ pages[page]? = some start ∧
        ListAt blob base count.toNat lists := by
  obtain ⟨-, hcount, ⟨code, hcode, hformat⟩, pages, lists, hstarts, hlength, hpages, hlists⟩ :=
    of_read h
  obtain ⟨code', f, hcode', hformat', hbits⟩ := hl.format
  obtain rfl := Except.ok.inj (hcode.symm.trans hcode')
  obtain rfl := Except.ok.inj (hformat.symm.trans hformat')
  obtain rfl := Except.ok.inj (hcount.symm.trans hl.pages)
  have hpage := (hpages page start).2 ⟨hl.inPages, hl.value⟩
  have hlist := hlists hbits ⟨start, List.mem_of_getElem? hpage, hl.starts, hl.marked⟩
  exact ⟨rfl, hbits, pages, lists, hstarts, hlength, hpage, hlist⟩

/-- A list behind the pages is taken in full, unless another one ends in front of it: then none of
    it has been read. -/
theorem pageHeads_iff (h : read blob number base = .ok s)
    (hl : HasList blob base page count start) (hbehind : count.toNat ≤ plainStart start)
    (hv : ListAt blob base (plainStart start) values) :
    PageHeads s start heads ↔
      ClearTo blob base count.toNat (plainStart start) ∧ heads = values.map plainStart := by
  obtain ⟨-, hbits, pages, lists, hstarts, hlength, -, hlists⟩ := of_hasList h hl
  -- What is kept behind the pages is the first list; the page's list is the end of it, or missing.
  obtain ⟨n, hn⟩ := Nat.exists_eq_add_of_le hbehind
  have hdrop : s.pageStarts.drop (plainStart start) = lists.drop n := by
    rw [hstarts, hn, ← hlength, List.drop_append]
    simp
  have hmarked : (s.format.is32Bit && isMarked start) = true := by
    rw [hbits, hl.marked]
    rfl
  rw [← heads_eq_true, SegmentStarts.heads, if_neg hl.starts, if_pos hmarked, hdrop]
  rw [hn] at hv ⊢
  rw [← hlists.lt_length_iff]
  by_cases hin : n < lists.length
  · rw [(hlists.drop hin).unique hv, hv.headsOf_eq]
    simp [hin, eq_comm]
  · rw [List.drop_eq_nil_of_le (Nat.le_of_not_lt hin)]
    simp [headsOf, hin]

theorem hasList_of_mem (h : read blob number base = .ok s) (hbits : s.format.is32Bit = true)
    (hm : (start, page) ∈ (s.pageStarts.take s.pageCount.toNat).zipIdx) (hs : start ≠ noStart)
    (hmark : isMarked start = true) : HasList blob base page s.pageCount start := by
  obtain ⟨-, hcount, ⟨code, hcode, hformat⟩, pages, lists, hstarts, hlength, hpages, -⟩ := of_read h
  rw [hstarts, ← hlength, List.take_left, List.mk_mem_zipIdx_iff_getElem?] at hm
  obtain ⟨hin, hvalue⟩ := (hpages page start).1 hm
  exact ⟨⟨code, s.format, hcode, hformat, hbits⟩, hin, hcount, hvalue, hs, hmark⟩

theorem mem_of_hasList (h : read blob number base = .ok s)
    (hl : HasList blob base page count start) :
    (start, page) ∈ (s.pageStarts.take s.pageCount.toNat).zipIdx := by
  obtain ⟨rfl, -, pages, lists, hstarts, hlength, hpage, -⟩ := of_hasList h hl
  rwa [hstarts, ← hlength, List.take_left, List.mk_mem_zipIdx_iff_getElem?]

end

/-- The start of a page with a list is the number of a value behind the pages, and the blob has a
    marked value there or further on. -/
def ListsInside (blob : Reader) : Prop :=
  ∀ number base page count start, StandAt blob number base → HasList blob base page count start →
    count.toNat ≤ plainStart start ∧ ∃ values, ListAt blob base (plainStart start) values

/-- No list ends in front of the beginning of another one. -/
def Unbroken (blob : Reader) : Prop :=
  ∀ number base page count start, StandAt blob number base → HasList blob base page count start →
    ClearTo blob base count.toNat (plainStart start)

theorem exists_pageHeads (hin : ListsInside blob) (hun : Unbroken blob)
    (hat : StandAt blob number base) (h : read blob number base = .ok s) {start : UInt16}
    (hm : (start, page) ∈ (s.pageStarts.take s.pageCount.toNat).zipIdx) :
    ∃ heads, PageHeads s start heads := by
  by_cases hs : start = noStart
  · rw [hs]
    exact ⟨[], .none⟩
  · by_cases hlist : s.format.is32Bit = true ∧ isMarked start = true
    · have hl := hasList_of_mem h hlist.1 hm hs hlist.2
      obtain ⟨hbehind, values, hv⟩ := hin _ _ _ _ _ hat hl
      exact ⟨_, (pageHeads_iff h hl hbehind hv).2 ⟨hun _ _ _ _ _ hat hl, rfl⟩⟩
    · exact ⟨_, .single hs hlist⟩

end SegmentStarts

end ObjcAtlas
