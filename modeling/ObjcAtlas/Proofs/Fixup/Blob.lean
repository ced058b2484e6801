import Mathlib.Algebra.Ring.Nat
import ObjcAtlas.Fixup.Draft
import ObjcAtlas.Proofs.Image.Holds
import ObjcAtlas.Proofs.Result

set_option autoImplicit false

namespace ObjcAtlas

namespace ImportDraft

def library (i : ImportDraft) : Int32 :=
  if 0xFD ≤ i.ordinal.toNat then Int32.ofInt (i.ordinal.toNat - 256)
  else Int32.ofNat i.ordinal.toNat

def chainImport (i : ImportDraft) : ChainImport := ⟨i.symbol, i.library, i.weak, 0⟩

theorem ordinalOf_ordinal (i : ImportDraft) :
    ChainImport.ordinalOf i.ordinal.toNat 8 = i.library := by
  have hlt := i.ordinal.toNat_lt
  have hsigned : signedField i.ordinal.toNat 8 =
      if i.ordinal.toNat < 128 then (i.ordinal.toNat : Int) else i.ordinal.toNat - 256 := by
    rw [signedField, Int.bmod_def]
    simp only [Nat.one_shiftLeft]
    split <;> split <;> omega
  rw [ChainImport.ordinalOf, library, hsigned]
  by_cases hlow : i.ordinal.toNat < 128
  · rw [if_pos hlow, if_neg (by omega), if_neg (by omega)]
  · rw [if_neg hlow]
    by_cases hhigh : 0xFD ≤ i.ordinal.toNat
    · rw [if_pos (by omega), if_pos hhigh]
    · rw [if_neg (by omega), if_neg hhigh]

end ImportDraft

namespace ChainDraft

theorem length_le (width n : Nat) : (le width n).length = width := ByteOrder.bytes_length ..

theorem length_encodeImport (i : ImportDraft) (name : Nat) : (encodeImport i name).length = 4 :=
  length_le ..

theorem length_encodeImports (name : Nat) (imports : List ImportDraft) :
    (encodeImports name imports).length = 4 * imports.length := by
  induction imports generalizing name with
  | nil => rfl
  | cons i imports ih =>
    rw [encodeImports, List.length_append, ih, length_encodeImport, List.length_cons]
    omega

theorem holds_import {imports : List ImportDraft} {number : Nat} {i : ImportDraft} (first : Nat)
    (hi : imports[number]? = some i) :
    ∃ place, Holds (encodeImports first imports) (number * 4) (encodeImport i (first + place)) ∧
      Holds (imports.flatMap fun i => Bytes.cstring i.symbol) place (Bytes.cstring i.symbol) := by
  induction imports generalizing first number with
  | nil => exact absurd hi nofun
  | cons x imports ih =>
    rw [encodeImports, List.flatMap_cons]
    have hself := Holds.self (encodeImport x first ++
      encodeImports (first + (Bytes.cstring x.symbol).length) imports)
    have hpool := Holds.self (Bytes.cstring x.symbol ++
      imports.flatMap fun i => Bytes.cstring i.symbol)
    cases number with
    | zero =>
      obtain rfl : x = i := Option.some.inj hi
      exact ⟨0, by simpa using hself.append_left, hpool.append_left⟩
    | succ number =>
      obtain ⟨place, himport, hname⟩ := ih (first + (Bytes.cstring x.symbol).length) hi
      refine ⟨(Bytes.cstring x.symbol).length + place, ?_, ?_⟩
      · have h := hself.append_right.trans himport
        rw [length_encodeImport, Nat.zero_add, Nat.add_assoc] at h
        rwa [Nat.succ_mul, Nat.add_comm (number * 4)]
      · have h := hpool.append_right.trans hname
        rwa [Nat.zero_add] at h

end ChainDraft

namespace ChainImport

theorem toNat_importWord {i : ImportDraft} {name : Nat} (hn : name < 2 ^ 23) :
    (UInt32.ofNat (i.ordinal.toNat + (if i.weak then 256 else 0) + 512 * name)).toUInt64.toNat =
      i.ordinal.toNat + (if i.weak then 256 else 0) + 512 * name := by
  have hlt := i.ordinal.toNat_lt
  rw [UInt32.toNat_toUInt64, UInt32.toNat_ofNat', Nat.mod_eq_of_lt]
  split <;> omega

theorem read_encodeImport {blob : Reader} {i : ImportDraft} {symbols offset name : Nat}
    (horder : blob.order = .little) (h : blob.Has offset (ChainDraft.encodeImport i name))
    (hname : blob.Has (symbols + name) (Bytes.cstring i.symbol)) (hn : name < 2 ^ 23)
    (hz : '\x00' ∉ i.symbol.toList) : read blob .plain symbols offset = .ok i.chainImport := by
  have hlt := i.ordinal.toNat_lt
  rw [ChainDraft.encodeImport, ChainDraft.le, ← horder] at h
  have hraw := toNat_importWord (i := i) hn
  generalize hw : i.ordinal.toNat + (if i.weak then 256 else 0) + 512 * name = raw at h hraw
  have hordinal : raw / 2 ^ 0 % 2 ^ 8 = i.ordinal.toNat := by
    rw [← hw]
    split <;> omega
  have hplace : raw / 2 ^ 9 % 2 ^ 23 = name := by
    rw [← hw]
    split <;> omega
  have hweak : (raw / 2 ^ 8 % 2 ^ 1 == 1) = i.weak := by
    rw [← hw]
    cases i.weak with
    | true => exact beq_iff_eq.2 (by simp only [if_true]; omega)
    | false => exact beq_eq_false_iff_ne.2 (by simp only [Bool.false_eq_true, if_false]; omega)
  simp only [read, h.u32, bitSet, bitField, hraw, Nat.shiftRight_eq_div_pow, Nat.one_shiftLeft,
    hordinal, hplace, hweak, hname.cstring hz, i.ordinalOf_ordinal, bind, Except.bind]
  rfl

theorem readTable_encodeImports {blob : Reader} {imports : List ImportDraft}
    {symbols offset : Nat} (horder : blob.order = .little)
    (h : blob.Has offset (ChainDraft.encodeImports 1 imports))
    (hpool : blob.Has symbols (ChainDraft.symbolPool imports))
    (hsize : (ChainDraft.symbolPool imports).length < 2 ^ 23)
    (hz : ∀ i ∈ imports, '\x00' ∉ i.symbol.toList) :
    readTable blob .plain offset imports.length symbols =
      .ok (imports.map ImportDraft.chainImport) := by
  have hslice := h.slice
  rw [ChainDraft.length_encodeImports, Nat.mul_comm] at hslice
  refine bind_eq_ok.2 ⟨_, hslice, ?_⟩
  rw [← List.length_map ImportDraft.chainImport]
  refine mapM_range_eq_ok fun number c hc => ?_
  rw [List.getElem?_map, Option.map_eq_some_iff] at hc
  obtain ⟨i, hi, rfl⟩ := hc
  obtain ⟨place, himport, hname⟩ := ChainDraft.holds_import 1 hi
  have hafter : Holds (ChainDraft.symbolPool imports) (1 + place) (Bytes.cstring i.symbol) :=
    Holds.trans ⟨[0], [], by rw [List.append_nil]; rfl, rfl⟩ hname
  have hlen := hafter.length_le
  have hlong : 0 < (Bytes.cstring i.symbol).length := by
    rw [Bytes.cstring, List.length_append]
    exact Nat.succ_pos _
  refine read_encodeImport horder (h.trans himport) (hpool.trans hafter) ?_
    (hz i (List.mem_of_getElem? hi))
  omega

end ChainImport

theorem PointerFormat.ofCode_code (f : PointerFormat) : ofCode f.code = .ok f := by
  cases f <;> rfl

namespace SegmentStarts

/-- Starts that can be written and read: the pages are all there is, and they have a size. -/
structure Plain (s : SegmentStarts) : Prop where
  pageSize : s.pageSize ≠ 0
  format : s.format.is32Bit = false
  pageCount : s.pageCount.toNat = s.pageStarts.length

theorem read_encodeStarts {blob : Reader} {s : SegmentStarts} {base : Nat} (hs : s.Plain)
    (horder : blob.order = .little) (h : blob.Has base (ChainDraft.encodeStarts s)) :
    read blob s.segment base = .ok s := by
  have hparts : blob.Has base
      ([ChainDraft.le 4 (22 + 2 * s.pageStarts.length), ChainDraft.le 2 s.pageSize.toNat,
        ChainDraft.le 2 s.format.code, ChainDraft.le 8 s.segmentOffset.toNat,
        ChainDraft.le 4 s.maxValidPointer.toNat, ChainDraft.le 2 s.pageCount.toNat].flatten ++
        s.pageStarts.flatMap fun v => ChainDraft.le 2 v.toNat) := by
    have hlead := h.append_left
    simpa [Reader.Has] using hlead
  have hlead : blob.Has base _ := hparts.append_left
  have hall := hlead.all
  simp only [Reader.HasAll, ChainDraft.le, ByteOrder.bytes_length, ← horder] at hall
  obtain ⟨-, h₂, h₃, h₄, h₅, h₆, -⟩ := hall
  have hpages : ∀ i v, s.pageStarts[i]? = some v → blob.u16 (base + 22 + 2 * i) = .ok v := by
    intro i v hv
    have hat := hparts.append_right.flatMap (fun v _ => ChainDraft.length_le 2 v.toNat) hv
    simp only [List.length_flatten, List.map_cons, List.map_nil, ByteOrder.bytes_length,
      List.sum_cons, List.sum_nil, Nat.reduceAdd, ChainDraft.le, ← horder] at hat
    have hword : blob.Has (base + 22 + 2 * i) (blob.order.bytes 2 v.toNat) := by
      rwa [Nat.mul_comm 2 i]
    rw [hword.u16, UInt16.ofNat_toNat]
  have hcode : (UInt16.ofNat s.format.code).toNat = s.format.code := by
    cases s.format <;> rfl
  have hmapM := mapM_range_eq_ok hpages
  rw [← hs.pageCount] at hmapM
  simp only [read, h₂.u16, h₃.u16, h₄.u64, h₅.u32, h₆.u16, UInt16.ofNat_toNat, UInt32.ofNat_toNat,
    UInt64.ofNat_toNat, hcode, PointerFormat.ofCode_code, if_neg hs.pageSize, hmapM,
    hs.format, Bool.false_and, Bool.false_eq_true, if_false, bind, Except.bind, pure, Except.pure,
    List.append_nil]

end SegmentStarts

namespace ChainDraft

variable {n : Nat} {s : SegmentStarts} {imports : List ImportDraft}

theorem startsOffset_single (i : Nat) :
    startsOffset ⟨n, [s], imports⟩ i =
      if i = s.segment then startsHead ⟨n, [s], imports⟩ else 0 := by
  rw [startsOffset]
  simp only [placeStarts, List.reverse_singleton, List.lookup_cons, List.lookup_nil]
  by_cases hi : i = s.segment
  · rw [if_pos hi, beq_iff_eq.2 hi]
    rfl
  · rw [if_neg hi, beq_eq_false_iff_ne.2 hi]
    rfl

theorem le_startsHead (d : ChainDraft) :
    4 + 4 * d.segmentCount ≤ d.startsHead ∧ d.startsHead ≤ 11 + 4 * d.segmentCount := by
  rw [startsHead, Bytes.roundUp]
  omega

end ChainDraft

namespace SegmentStarts

theorem filterMap_range_single {α : Type} {a : α} {k n : Nat} (h : k < n) :
    (List.range n).filterMap (fun i => if i = k then some a else none) = [a] := by
  induction n with
  | zero => exact absurd h (Nat.not_lt_zero _)
  | succ n ih =>
    rw [List.range_succ, List.filterMap_append]
    by_cases hk : k = n
    · subst hk
      have hnone : (List.range k).filterMap (fun i => if i = k then some a else none) = [] := by
        rw [List.filterMap_eq_nil_iff]
        intro i hi
        exact if_neg (Nat.ne_of_lt (List.mem_range.1 hi))
      rw [hnone]
      simp
    · rw [ih (by omega)]
      simp [Ne.symm hk]

section

variable {blob : Reader} {n table : Nat} {s : SegmentStarts} {imports : List ImportDraft}

theorem has_offsets (h : blob.Has table (ChainDraft.encodeStartsTable ⟨n, [s], imports⟩)) :
    blob.Has table (ChainDraft.le 4 n) ∧ blob.Has (table + 4) ((List.range n).flatMap fun i =>
      ChainDraft.le 4 (ChainDraft.startsOffset ⟨n, [s], imports⟩ i)) := by
  have hhead := h.append_left.append_left
  have hrest := hhead.append_right
  rw [ChainDraft.length_le] at hrest
  exact ⟨hhead.append_left, hrest⟩

theorem length_offsets (f : Nat → Nat) (n : Nat) :
    ((List.range n).flatMap fun i => ChainDraft.le 4 (f i)).length = n * 4 := by
  rw [List.length_flatMap, List.map_congr_left fun i _ => ChainDraft.length_le 4 (f i),
    List.map_const', List.sum_replicate_nat, List.length_range]

theorem has_starts (h : blob.Has table (ChainDraft.encodeStartsTable ⟨n, [s], imports⟩)) :
    blob.Has (table + ChainDraft.startsHead ⟨n, [s], imports⟩) (ChainDraft.encodeStarts s) := by
  have hhead := (ChainDraft.le_startsHead ⟨n, [s], imports⟩).1
  simp only at hhead
  have hrest := h.append_right
  rw [Bytes.length_pad, List.length_append, ChainDraft.length_le, length_offsets,
    Nat.max_eq_left (by dsimp only; omega)] at hrest
  exact hrest.append_left

theorem readAt_encode (hs : s.Plain) (horder : blob.order = .little)
    (h : blob.Has table (ChainDraft.encodeStartsTable ⟨n, [s], imports⟩))
    (hn : 11 + 4 * n < 2 ^ 32) {i : Nat} (hi : i < n) :
    readAt blob table i = .ok (if i = s.segment then some s else none) := by
  have hhead := ChainDraft.le_startsHead ⟨n, [s], imports⟩
  simp only at hhead
  have hword : blob.Has (table + 4 + 4 * i) (blob.order.bytes 4
      (ChainDraft.startsOffset ⟨n, [s], imports⟩ i)) := by
    have hat := (has_offsets h).2.flatMap (fun i _ => ChainDraft.length_le 4 _)
      (List.getElem?_range hi)
    rw [Nat.mul_comm i 4, ChainDraft.le, ← horder] at hat
    exact hat
  rw [ChainDraft.startsOffset_single] at hword
  simp only [readAt, hword.u32, bind, Except.bind]
  by_cases hseg : i = s.segment
  · have hoffset : (UInt32.ofNat (ChainDraft.startsHead ⟨n, [s], imports⟩)).toNat =
        ChainDraft.startsHead ⟨n, [s], imports⟩ := by
      rw [UInt32.toNat_ofNat', Nat.mod_eq_of_lt (by omega)]
    rw [if_pos hseg, if_pos hseg, hoffset, if_neg (by omega), hseg,
      read_encodeStarts hs horder (has_starts h)]
    rfl
  · rw [if_neg hseg, if_neg hseg]
    rfl

theorem readTable_encode (hs : s.Plain) (horder : blob.order = .little)
    (h : blob.Has table (ChainDraft.encodeStartsTable ⟨n, [s], imports⟩)) (hseg : s.segment < n)
    (hn : 11 + 4 * n < 2 ^ 32) : readTable blob table = .ok [s] := by
  have hcount : blob.Has table (blob.order.bytes 4 n) := by
    rw [horder]
    exact (has_offsets h).1
  have hslice : blob.Has (table + 4) _ := (has_offsets h).2
  have hslice := hslice.slice
  rw [length_offsets] at hslice
  have hnat : (UInt32.ofNat n).toNat = n := by
    rw [UInt32.toNat_ofNat', Nat.mod_eq_of_lt (by omega)]
  have hitems : (List.range n).mapM (readAt blob table) =
      .ok ((List.range n).map fun i => if i = s.segment then some s else none) := by
    refine mapM_eq_ok ?_
    rw [List.map_map]
    exact List.map_congr_left fun i hi => readAt_encode hs horder h hn (List.mem_range.1 hi)
  simp only [readTable, hcount.u32, hnat, hslice, hitems, bind, Except.bind, pure, Except.pure]
  rw [List.filterMap_map]
  exact congrArg Except.ok (filterMap_range_single hseg)

end

end SegmentStarts

namespace ChainDraft

variable {d : ChainDraft} {blob : Reader}

def importsOffset (d : ChainDraft) : Nat := headerSize + d.encodeStartsTable.length

def symbolsOffset (d : ChainDraft) : Nat := d.importsOffset + 4 * d.imports.length

def headerFields (d : ChainDraft) : List Nat :=
  [0, headerSize, d.importsOffset, d.symbolsOffset, d.imports.length, 1, 0]

theorem encode_eq (d : ChainDraft) : d.encode =
    Bytes.pad headerSize (d.headerFields.flatMap (le 4)) ++ (d.encodeStartsTable ++
      (encodeImports 1 d.imports ++ symbolPool d.imports)) := by
  simp only [encode, headerFields, symbolsOffset, importsOffset, length_encodeImports,
    List.append_assoc]

theorem length_header (d : ChainDraft) :
    (Bytes.pad headerSize (d.headerFields.flatMap (le 4))).length = headerSize := by
  rw [Bytes.length_pad]
  simp [headerFields, length_le, headerSize]

theorem length_encode (d : ChainDraft) :
    d.encode.length = d.symbolsOffset + (symbolPool d.imports).length := by
  rw [encode_eq, List.length_append, length_header, List.length_append, List.length_append,
    length_encodeImports, symbolsOffset, importsOffset]
  omega

theorem startsHead_le_length (d : ChainDraft) : d.startsHead ≤ d.encodeStartsTable.length := by
  rw [encodeStartsTable, List.length_append, Bytes.length_pad]
  omega

theorem length_encodeStarts_le (s : SegmentStarts) :
    (encodeStarts s).length ≤ 29 + 2 * s.pageStarts.length := by
  have hpages : (s.pageStarts.flatMap fun v => le 2 v.toNat).length =
      2 * s.pageStarts.length := by
    rw [List.length_flatMap, List.map_congr_left fun v _ => length_le 2 v.toNat, List.map_const',
      List.sum_replicate_nat, Nat.mul_comm]
  simp only [encodeStarts, Bytes.length_pad, List.length_append, length_le, hpages, Bytes.roundUp]
  omega

theorem length_encodeStartsTable_le (n : Nat) (s : SegmentStarts) (imports : List ImportDraft) :
    (encodeStartsTable ⟨n, [s], imports⟩).length ≤ 40 + 4 * n + 2 * s.pageStarts.length := by
  have hhead : startsHead ⟨n, [s], imports⟩ ≤ 11 + 4 * n := (le_startsHead _).2
  have hstarts := length_encodeStarts_le s
  simp only [encodeStartsTable, List.length_append, Bytes.length_pad, length_le,
    SegmentStarts.length_offsets, List.flatMap_cons, List.flatMap_nil, List.append_nil]
  omega

theorem has_startsTable (h : blob.Has 0 d.encode) : blob.Has headerSize d.encodeStartsTable := by
  rw [encode_eq] at h
  have hrest := h.append_right.append_left
  rwa [length_header, Nat.zero_add] at hrest

theorem has_imports (h : blob.Has 0 d.encode) :
    blob.Has d.importsOffset (encodeImports 1 d.imports) := by
  rw [encode_eq] at h
  have hrest := h.append_right.append_right.append_left
  rwa [length_header, Nat.zero_add] at hrest

theorem has_symbols (h : blob.Has 0 d.encode) :
    blob.Has d.symbolsOffset (symbolPool d.imports) := by
  rw [encode_eq] at h
  have hrest := h.append_right.append_right.append_right
  rwa [length_header, Nat.zero_add, length_encodeImports] at hrest

theorem read_headerField (h : blob.Has 0 d.encode) (horder : blob.order = .little) {i value : Nat}
    (hi : d.headerFields[i]? = some value) : blob.u32 (4 * i) = .ok (UInt32.ofNat value) := by
  rw [encode_eq] at h
  have hat := h.append_left.append_left.flatMap (fun v _ => length_le 4 v) hi
  have hword : blob.Has (4 * i) (blob.order.bytes 4 value) := by
    rw [Nat.zero_add, Nat.mul_comm, le, ← horder] at hat
    exact hat
  exact hword.u32

end ChainDraft

/-- A blob in an image is read, and the chains walked, as what was written. -/
theorem ChainTable.read_encode {image : Reader} {range : FileRange} {segments : List Segment}
    {base : UInt64} {n : Nat} {s : SegmentStarts} {imports : List ImportDraft} {table : FixupTable}
    (horder : image.order = .little)
    (h : image.Has range.offset.toNat (ChainDraft.encode ⟨n, [s], imports⟩))
    (hsize : range.size.toNat = (ChainDraft.encode ⟨n, [s], imports⟩).length)
    (hs : s.Plain) (hseg : s.segment < n)
    (hpool : (ChainDraft.symbolPool imports).length < 2 ^ 23)
    (hz : ∀ i ∈ imports, '\x00' ∉ i.symbol.toList)
    (hwalk : walk image segments base imports.length [s] = .ok table) :
    ChainTable.read image range segments base = .ok {
      version := 0
      importsFormat := .plain
      imports := (imports.map ImportDraft.chainImport).toArray
      starts := [s]
      fixups := table } := by
  obtain ⟨blob, hsub, hlittle, hblob, hlong⟩ : ∃ blob : Reader,
      image.sub range.offset.toNat range.size.toNat = .ok blob ∧ blob.order = .little ∧
      blob.Has 0 (ChainDraft.encode ⟨n, [s], imports⟩) ∧ blob.size = range.size.toNat := by
    rw [hsize]
    exact ⟨_, h.sub, horder, Holds.self _, rfl⟩
  -- Every number in the header is below the size of the blob, which fits in 32 bits.
  have hlen := ChainDraft.length_encode ⟨n, [s], imports⟩
  have htable := ChainDraft.startsHead_le_length ⟨n, [s], imports⟩
  have hhead : 4 + 4 * n ≤ ChainDraft.startsHead ⟨n, [s], imports⟩ :=
    (ChainDraft.le_startsHead ⟨n, [s], imports⟩).1
  have hlt : range.size.toNat < 2 ^ 32 := range.size.toNat_lt
  have hsymbols : ChainDraft.symbolsOffset ⟨n, [s], imports⟩ =
      ChainDraft.importsOffset ⟨n, [s], imports⟩ + 4 * imports.length := rfl
  have himports : ChainDraft.importsOffset ⟨n, [s], imports⟩ =
      32 + (ChainDraft.encodeStartsTable ⟨n, [s], imports⟩).length := rfl
  have field {i value : Nat}
      (hi : (ChainDraft.headerFields ⟨n, [s], imports⟩)[i]? = some value) :=
    ChainDraft.read_headerField hblob hlittle hi
  have short {value : Nat} (h : value < 2 ^ 32) : (UInt32.ofNat value).toNat = value := by
    rw [UInt32.toNat_ofNat', Nat.mod_eq_of_lt h]
  have h₀ := field (i := 0) rfl
  have h₁ := field (i := 1) rfl
  have h₂ := field (i := 2) rfl
  have h₃ := field (i := 3) rfl
  have h₄ := field (i := 4) rfl
  have h₅ := field (i := 5) rfl
  have h₆ := field (i := 6) rfl
  simp only [Nat.reduceMul] at h₀ h₁ h₂ h₃ h₄ h₅ h₆
  have hread := ChainImport.readTable_encodeImports hlittle (ChainDraft.has_imports hblob)
    (ChainDraft.has_symbols hblob) hpool hz
  have hstarts := SegmentStarts.readTable_encode hs hlittle (ChainDraft.has_startsTable hblob)
    hseg (by omega)
  have himportsAt := short (show ChainDraft.importsOffset ⟨n, [s], imports⟩ < 2 ^ 32 by omega)
  have hsymbolsAt := short (show ChainDraft.symbolsOffset ⟨n, [s], imports⟩ < 2 ^ 32 by omega)
  have hstartsAt : (UInt32.ofNat ChainDraft.headerSize).toNat = ChainDraft.headerSize := rfl
  have hcount := short (show imports.length < 2 ^ 32 by omega)
  have hformat : ImportsFormat.ofCode (UInt32.ofNat 1) = .ok .plain := rfl
  simp only [ChainTable.read, hsub, bind, Except.bind]
  rw [if_neg (by omega)]
  simp only [h₀, h₁, h₂, h₃, h₄, h₅, h₆, hformat, hstartsAt, himportsAt, hsymbolsAt, hcount, hread,
    hstarts, List.length_map, hwalk]
  rfl

end ObjcAtlas
