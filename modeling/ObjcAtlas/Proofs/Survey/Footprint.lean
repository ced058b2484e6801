import ObjcAtlas.Proofs.Image.Stretch
import ObjcAtlas.Proofs.Survey.ExtendedTypes
import ObjcAtlas.Proofs.Survey.Records

set_option autoImplicit false

/-!
# Bytes that a survey reads

The footprint of an image is the list of file offsets whose bytes a survey looks at. Slots that a
fixup table knows are not read, nor are texts and records that start in the encrypted part of the
file. All other reads count, wherever they are: the data of a class, lists and their entries,
distances, offsets of instance variables, and texts and records that run into the encrypted part.
Two images that agree on the bytes of a read, and otherwise differ in nothing, read the same there.
-/
namespace ObjcAtlas

/-- Offsets that the search for a zero byte looks at, among the `count` from `i` on. -/
def Reader.scanned (bytes : ByteArray) : (count i : Nat) → List Nat
  | 0, _ => []
  | count + 1, i => i :: if byteAt bytes i = 0 then [] else scanned bytes count (i + 1)

namespace Slice

variable (s : Slice)

def cell (address : UInt64) (width : Nat) : List Nat :=
  match s.fileOffset address with
  | .ok offset => List.range' offset width
  | .error _ => []

/-- What the fixup tables say of the slot at a file offset. -/
def tabled? (offset : Nat) : Option SlotValue :=
  (s.fixups.chains.bind (·.resolve? offset 0)).or (s.fixups.binds[offset]?.map .symbol)

def slotReads (slot : UInt64) : List Nat :=
  match s.fileOffset slot with
  | .ok offset =>
    if (s.tabled? offset).isSome then [] else List.range' offset s.bits.pointerSize
  | .error _ => []

def textReads (address : UInt64) : List Nat :=
  if s.isEncryptedAt address then []
  else match s.fileOffset address with
    | .ok offset =>
      (s.segmentAt? offset).elim [] fun t =>
        Reader.scanned s.reader.bytes (t.fileEnd - offset) offset
    | .error _ => []

def slotTextReads (slot : UInt64) : List Nat :=
  s.slotReads slot ++ (s.followed? slot).elim [] s.textReads

def headerReads (list : UInt64) : List Nat := s.cell list 4 ++ s.cell (list + 4) 4

def pointerMethodReads (entry : UInt64) : List Nat :=
  s.slotTextReads entry ++
    if (s.textThrough? entry).isSome then
      s.slotTextReads (entry + s.bits.words 1) ++ s.slotReads (entry + s.bits.words 2)
    else []

def selectorReads (direct : Bool) (selector : UInt64) : List Nat :=
  if direct then s.textReads selector else s.slotTextReads selector

def relativeMethodReads (direct : Bool) (entry : UInt64) : List Nat :=
  s.cell entry 4 ++ s.cell (entry + 4) 4 ++ s.cell (entry + 8) 4 ++
    match MethodEntry.distances s entry with
    | .ok (toName, toTypes, _) =>
      s.selectorReads direct (relativeAddress entry toName) ++
        if (MethodEntry.relative? s direct entry).isSome then
          s.textReads (relativeAddress (entry + 4) toTypes)
        else []
    | .error _ => []

def methodReads (e : MethodEntry) : List Nat :=
  if Layout.isRelative e.flags then
    s.relativeMethodReads (Layout.hasDirectSelectors e.flags) e.address
  else s.pointerMethodReads e.address

def methodsReads (slot : UInt64) : List Nat :=
  s.slotReads slot ++ (s.followed? slot).elim [] s.headerReads ++
    (s.methodEntries slot).flatMap s.methodReads

def listEntries (slot least : UInt64) : List UInt64 :=
  (s.followed? slot).elim [] fun list =>
    (s.listHeader? list least 0).elim [] fun h => h.entries list

def listReads (slot least : UInt64) (entryReads : UInt64 → List Nat) : List Nat :=
  s.slotReads slot ++ (s.followed? slot).elim [] s.headerReads ++
    (s.listEntries slot least).flatMap entryReads

def ivarReads (entry : UInt64) : List Nat :=
  s.slotReads entry ++ (s.followed? entry).elim [] (s.cell · 4) ++
    s.slotTextReads (entry + s.bits.words 1) ++ s.slotTextReads (entry + s.bits.words 2) ++
    s.cell (entry + s.bits.words 3) 4 ++ s.cell (entry + s.bits.words 3 + 4) 4

def ivarsReads (slot : UInt64) : List Nat :=
  s.listReads slot (Layout.ivarSize s.bits) s.ivarReads

def propertyReads (entry : UInt64) : List Nat :=
  s.slotTextReads entry ++
    if (s.textThrough? entry).isSome then s.slotTextReads (entry + s.bits.words 1) else []

def propertiesReads (slot : UInt64) : List Nat :=
  s.listReads slot (Layout.propertySize s.bits) s.propertyReads

def adoptedEntries (slot : UInt64) : List UInt64 :=
  (s.followed? slot).elim [] fun list =>
    (s.wordAt list).toOption.elim [] fun count =>
      let first := list + s.bits.words 1
      if (s.bytesAt first (count.toNat * s.bits.pointerSize)).isOk then
        (List.range count.toNat).map fun i => first + s.bits.words (UInt64.ofNat i)
      else []

def protocolNameReads (entry : UInt64) : List Nat :=
  s.slotReads entry ++
    match s.target entry with
    | .ok (.address a) => s.slotTextReads (a + ProtocolField.name.offset s.bits)
    | _ => []

def adoptedReads (slot : UInt64) : List Nat :=
  s.slotReads slot ++ (s.followed? slot).elim [] (s.cell · s.bits.pointerSize) ++
    (s.adoptedEntries slot).flatMap s.protocolNameReads

def dataSlot (address : UInt64) : UInt64 := address + ClassField.data.offset s.bits

def dataField (word : UInt64) (f : ClassDataField) : UInt64 :=
  Layout.classData s.bits word + f.offset s.bits

def classDataReads (address : UInt64) (dataReads : UInt64 → List Nat) : List Nat :=
  s.slotReads (s.dataSlot address) ++ (s.followed? (s.dataSlot address)).elim [] dataReads

def classNameReads (address : UInt64) : List Nat :=
  s.classDataReads address fun word => s.slotTextReads (s.dataField word .name)

def classReferenceReads (slot : UInt64) : List Nat :=
  s.slotReads slot ++ (s.followed? slot).elim [] s.classNameReads

def classBodyReads (address : UInt64) : List Nat :=
  s.classDataReads address fun word =>
    s.cell (s.dataField word .flags) 4 ++ s.cell (s.dataField word .instanceStart) 4 ++
      s.cell (s.dataField word .instanceSize) 4 ++ s.slotTextReads (s.dataField word .name) ++
      s.methodsReads (s.dataField word .methods) ++ s.adoptedReads (s.dataField word .protocols) ++
      s.ivarsReads (s.dataField word .ivars) ++ s.propertiesReads (s.dataField word .properties)

def metaclassBodyReads (address : UInt64) : List Nat :=
  let slot := address + ClassField.isa.offset s.bits
  s.slotReads slot ++ (s.followed? slot).elim [] fun metaclass =>
    s.classDataReads metaclass fun word =>
      s.methodsReads (s.dataField word .methods) ++ s.propertiesReads (s.dataField word .properties)

def classReads (address : UInt64) : List Nat :=
  s.classReferenceReads (address + ClassField.superclass.offset s.bits) ++
    s.classBodyReads address ++ s.metaclassBodyReads address

def categoryReads (hasClassProperties : Bool) (address : UInt64) : List Nat :=
  let field (f : CategoryField) : UInt64 := address + f.offset s.bits
  s.slotTextReads (field .name) ++ s.classReferenceReads (field .target) ++
    s.methodsReads (field .instanceMethods) ++ s.methodsReads (field .classMethods) ++
    s.adoptedReads (field .protocols) ++ s.propertiesReads (field .properties) ++
    if hasClassProperties then s.propertiesReads (field .classProperties) else []

def protocolHas (protocol : UInt64) (f : ProtocolField) : Bool :=
  f.offset s.bits + s.bits.words 1 ≤
    ((s.u32At (protocol + ProtocolField.size.offset s.bits)).toOption.getD 0).toUInt64

def keptMethods (protocol : UInt64) : Nat :=
  (MethodGroup.all.map fun g =>
    ((s.groupEntries protocol g).filterMap (MethodEntry.method? s)).length).sum

def extendedReads (protocol : UInt64) : List Nat :=
  let slot := protocol + ProtocolField.extendedTypes.offset s.bits
  if s.protocolHas protocol .extendedTypes then
    s.slotReads slot ++ (s.followed? slot).elim [] fun array =>
      (List.range (s.keptMethods protocol)).flatMap fun i =>
        s.slotTextReads (array + s.bits.words (UInt64.ofNat i))
  else []

def protocolReads (address : UInt64) : List Nat :=
  let field (f : ProtocolField) : UInt64 := address + f.offset s.bits
  s.slotTextReads (field .name) ++ s.adoptedReads (field .protocols) ++
    MethodGroup.all.flatMap (fun g => s.methodsReads (field g.field)) ++
    s.propertiesReads (field .properties) ++ s.cell (field .size) 4 ++ s.extendedReads address ++
    if s.protocolHas address .classProperties then s.propertiesReads (field .classProperties)
    else []

def imageInfo? : Option ImageInfo := do
  let found ← RuntimeSection.imageInfo.find? s
  return ⟨← (s.u32At found.address).toOption, ← (s.u32At (found.address + 4)).toOption⟩

def recordReads : RecordKind → UInt64 → List Nat
  | .objcClass => s.classReads
  | .category => s.categoryReads (s.imageInfo?.any ImageInfo.hasCategoryClassProperties)
  | .protocol => s.protocolReads

/-- Offsets of all bytes that a survey of the image looks at. -/
def footprint : List Nat :=
  (RuntimeSection.imageInfo.find? s).elim [] (fun found => s.headerReads found.address) ++
    RecordKind.all.flatMap fun kind => (s.listed kind).flatMap fun slot =>
      s.slotReads slot ++ (s.record? slot).elim [] (s.recordReads kind)

end Slice

namespace Reader

theorem extract_congr {x y : ByteArray} (hsize : x.size = y.size) {a b : Nat}
    (h : ∀ i, a ≤ i → i < b → i < x.size → byteAt x i = byteAt y i) :
    x.extract a b = y.extract a b := by
  apply ByteArray.ext_getElem
  · simp only [ByteArray.size_extract, hsize]
  · intro i hx hy
    rw [ByteArray.size_extract] at hx hy
    have hi := h (a + i) (by omega) (by omega) (by omega)
    rw [byteAt, byteAt, dif_pos (by omega), dif_pos (by omega)] at hi
    rw [ByteArray.getElem_extract, ByteArray.getElem_extract]
    exact hi

theorem isOk_slice (r : Reader) (offset length : Nat) :
    (r.slice offset length).isOk = decide (offset + length ≤ r.size) := by
  unfold slice
  split
  · rename_i hfits
    exact (decide_eq_true hfits).symm
  · rename_i hfits
    exact (decide_eq_false hfits).symm

theorem number_congr {r r' : Reader} (horder : r.order = r'.order) (hsize : r.size = r'.size)
    {width offset : Nat}
    (h : ∀ i ∈ List.range' offset width, byteAt r.bytes i = byteAt r'.bytes i) :
    r.number width offset = r'.number width offset := by
  unfold number slice
  rw [hsize, horder]
  split
  · rw [extract_congr hsize fun i hlo hhi _ => h i (by rw [List.mem_range'_1]; omega)]
  · rfl

theorem zeroFrom_congr {x y : ByteArray} {count i : Nat}
    (h : ∀ j ∈ scanned x count i, byteAt x j = byteAt y j) :
    zeroFrom x count i = zeroFrom y count i := by
  induction count generalizing i with
  | zero => rfl
  | succ count ih =>
    rw [scanned, List.forall_mem_cons] at h
    obtain ⟨hi, hrest⟩ := h
    rw [zeroFrom, zeroFrom, ← hi]
    by_cases hz : byteAt x i = 0
    · rw [if_pos hz, if_pos hz]
    · rw [if_neg hz] at hrest ⊢
      rw [if_neg hz, ih hrest]

theorem mem_scanned {x : ByteArray} {count i stop j : Nat} (h : zeroFrom x count i = some stop)
    (hlo : i ≤ j) (hhi : j ≤ stop) : j ∈ scanned x count i := by
  induction count generalizing i with
  | zero => exact absurd h nofun
  | succ count ih =>
    rw [scanned, List.mem_cons]
    rcases Nat.eq_or_lt_of_le hlo with heq | hlt
    · exact .inl heq.symm
    · right
      rw [zeroFrom] at h
      split at h
      · have := Option.some.inj h
        omega
      · rename_i hz
        rw [if_neg hz]
        exact ih h hlt

theorem cstring_congr {x y : ByteArray} {order order' : ByteOrder} (hsize : x.size = y.size)
    {a n i : Nat} (ha : a + n ≤ x.size)
    (h : ∀ j ∈ scanned x (n - i) (a + i), byteAt x j = byteAt y j) :
    cstring ⟨x.extract a (a + n), order⟩ i = cstring ⟨y.extract a (a + n), order'⟩ i := by
  have ha' : a + n ≤ y.size := by omega
  have hx : (x.extract a (a + n)).size = n := by
    rw [ByteArray.size_extract]
    omega
  have hy : (y.extract a (a + n)).size = n := by
    rw [ByteArray.size_extract]
    omega
  unfold cstring untilZero
  simp only [size, hx, hy]
  split
  · rfl
  · rename_i hle
    have hfind : zeroFrom x (n - i) (a + i) =
        (zeroFrom (x.extract a (a + n)) (n - i) i).map (a + ·) := zeroFrom_extract ha (by omega)
    have hsame : zeroFrom (x.extract a (a + n)) (n - i) i =
        zeroFrom (y.extract a (a + n)) (n - i) i := by
      apply Option.map_injective fun _ _ => Nat.add_left_cancel
      rw [← hfind, ← zeroFrom_extract ha' (by omega), zeroFrom_congr h]
    rw [← hsame]
    cases hstop : zeroFrom (x.extract a (a + n)) (n - i) i with
    | none => rfl
    | some stop =>
      have hfound : zeroFrom x (n - i) (a + i) = some (a + stop) := by
        rw [hfind, hstop]
        rfl
      have hbytes : (x.extract a (a + n)).extract i stop =
          (y.extract a (a + n)).extract i stop := by
        apply extract_congr (hx.trans hy.symm)
        intro j hlo hhi hj
        rw [hx] at hj
        rw [byteAt_extract ha hj, byteAt_extract ha' hj]
        exact h _ (mem_scanned hfound (by omega) (by omega))
      simp only [hbytes]

end Reader

namespace Slice

variable {s s' : Slice}

/-- Images that differ in nothing but their bytes; what the fixup tables say is the same too. -/
structure Twin (s s' : Slice) : Prop where
  order : s.reader.order = s'.reader.order
  size : s.reader.size = s'.reader.size
  header : s.header = s'.header
  commands : s.commands = s'.commands
  segments : s.segments = s'.segments
  tabled : ∀ offset, s.tabled? offset = s'.tabled? offset
  errors : s.fixups.errors = s'.fixups.errors

def Agree (s s' : Slice) (offsets : List Nat) : Prop :=
  ∀ i ∈ offsets, Reader.byteAt s.reader.bytes i = Reader.byteAt s'.reader.bytes i

@[simp] theorem agree_append {xs ys : List Nat} :
    Agree s s' (xs ++ ys) ↔ Agree s s' xs ∧ Agree s s' ys := List.forall_mem_append

theorem Agree.of_mem {α : Type} {reads : α → List Nat} {as : List α}
    (h : Agree s s' (as.flatMap reads)) {a : α} (ha : a ∈ as) : Agree s s' (reads a) :=
  fun i hi => h i (List.mem_flatMap.2 ⟨a, ha, hi⟩)

/-- A slot is read only where no table knows it. -/
theorem resolve_eq (s : Slice) (offset : Nat) :
    s.resolve offset 0 = match s.tabled? offset with
      | some value => .ok value
      | none => (s.reader.pointer s.bits offset).map fun raw =>
          if raw = 0 then .null else .address raw := by
  unfold resolve Fixups.resolve tabled?
  cases s.fixups.chains.bind (·.resolve? offset 0) with
  | some value => rfl
  | none =>
    cases s.fixups.binds[offset]? with
    | some target => rfl
    | none =>
      cases s.reader.pointer s.bits offset with
      | error e => rfl
      | ok raw => simp [Except.map, bind, Except.bind, pure, Except.pure]

namespace Twin

variable (tw : Twin s s')

include tw

theorem bits_eq : s'.bits = s.bits := by
  rw [bits, bits, tw.header]

theorem fileOffset_eq : s'.fileOffset = s.fileOffset := fileOffset_congr tw.segments.symm

theorem isMapped_eq : s'.isMapped = s.isMapped := isMapped_congr tw.segments.symm

theorem isEncryptedAt_eq : s'.isEncryptedAt = s.isEncryptedAt :=
  isEncryptedAt_congr tw.commands.symm tw.segments.symm

theorem find?_eq (t : RuntimeSection) : t.find? s' = t.find? s := find?_congr tw.segments.symm t

theorem segmentAt?_eq : s'.segmentAt? = s.segmentAt? := by
  funext offset
  rw [segmentAt?, segmentAt?, tw.segments]

theorem library?_eq : s'.library? = s.library? := by
  funext ordinal
  rw [library?, library?, dylibNames, dylibNames, tw.commands]

/-- The region of an address is the same stretch of both files, or in neither. -/
theorem region_cases (address : UInt64) :
    (∃ e, s.region address = .error e ∧ s'.region address = .error e) ∨
    ∃ offset t, s.fileOffset address = .ok offset ∧ s.segmentAt? offset = some t ∧
      t.fileEnd ≤ s.reader.size ∧
      s.region address = .ok (⟨s.reader.bytes.extract t.fileOffset.toNat t.fileEnd,
        s.reader.order⟩, offset - t.fileOffset.toNat) ∧
      s'.region address = .ok (⟨s'.reader.bytes.extract t.fileOffset.toNat t.fileEnd,
        s'.reader.order⟩, offset - t.fileOffset.toNat) := by
  unfold region
  rw [tw.fileOffset_eq, tw.segmentAt?_eq]
  cases s.fileOffset address with
  | error e => exact .inl ⟨e, rfl, rfl⟩
  | ok offset =>
    simp only [bind, Except.bind]
    cases ht : s.segmentAt? offset with
    | none => exact .inl ⟨_, rfl, rfl⟩
    | some t =>
      simp only [Reader.sub, Reader.slice, ← tw.size]
      by_cases hfits : t.fileEnd ≤ s.reader.size
      · rw [Segment.fileEnd] at hfits
        simp only [hfits, if_true]
        exact .inr ⟨offset, t, rfl, ht, hfits, rfl, rfl⟩
      · rw [Segment.fileEnd] at hfits
        simp only [hfits, if_false]
        exact .inl ⟨_, rfl, rfl⟩

theorem bytesAt_isOk (address : UInt64) (length : Nat) :
    (s'.bytesAt address length).isOk = (s.bytesAt address length).isOk := by
  unfold bytesAt
  rcases tw.region_cases address with ⟨e, h, h'⟩ | ⟨offset, t, -, -, hfits, h, h'⟩
  · rw [h, h']
  · have hsize := tw.size
    rw [Reader.size, Reader.size] at hsize
    rw [h, h']
    change (Reader.slice _ _ _).isOk = (Reader.slice _ _ _).isOk
    rw [Reader.isOk_slice, Reader.isOk_slice]
    simp only [Reader.size, ByteArray.size_extract, hsize]

theorem cell_congr {α : Type} (read : Reader → Nat → Except ImageError α) {width : Nat}
    (hread : ∀ offset, s.reader.number width offset = s'.reader.number width offset →
      read s.reader offset = read s'.reader offset)
    {address : UInt64} (h : Agree s s' (s.cell address width)) :
    (do read s.reader (← s.fileOffset address)) =
      (do read s'.reader (← s'.fileOffset address)) := by
  rw [tw.fileOffset_eq]
  unfold cell at h
  cases hoffset : s.fileOffset address with
  | error e => rfl
  | ok offset =>
    rw [hoffset] at h
    exact hread offset (Reader.number_congr tw.order tw.size h)

theorem u32At_congr {address : UInt64} (h : Agree s s' (s.cell address 4)) :
    s.u32At address = s'.u32At address :=
  tw.cell_congr Reader.u32 (fun offset hn => by rw [Reader.u32, Reader.u32, hn]) h

theorem i32At_congr {address : UInt64} (h : Agree s s' (s.cell address 4)) :
    s.i32At address = s'.i32At address :=
  tw.cell_congr Reader.i32
    (fun offset hn => by rw [Reader.i32, Reader.i32, Reader.u32, Reader.u32, hn]) h

theorem wordAt_congr {address : UInt64} (h : Agree s s' (s.cell address s.bits.pointerSize)) :
    s.wordAt address = s'.wordAt address := by
  unfold wordAt
  rw [tw.bits_eq]
  exact tw.cell_congr (fun r => r.pointer s.bits)
    (fun offset hn => by rw [Reader.pointer, Reader.pointer, hn]) h

theorem target_congr {slot : UInt64} (h : Agree s s' (s.slotReads slot)) :
    s.target slot = s'.target slot := by
  unfold target
  rw [tw.fileOffset_eq, tw.bits_eq]
  unfold slotReads at h
  cases hoffset : s.fileOffset slot with
  | error e => rfl
  | ok offset =>
    rw [hoffset] at h
    have hresolve : s.resolve offset 0 = s'.resolve offset 0 := by
      rw [resolve_eq, resolve_eq, ← tw.tabled, tw.bits_eq]
      cases htabled : s.tabled? offset with
      | some value => rfl
      | none =>
        simp only [htabled, Option.isSome_none, Bool.false_eq_true, if_false] at h
        rw [Reader.pointer, Reader.pointer, Reader.number_congr tw.order tw.size h]
    simp only [bind, Except.bind, hresolve]

theorem cstringAt_congr {address : UInt64} (hclear : s.isEncryptedAt address = false)
    (h : Agree s s' (s.textReads address)) : s.cstringAt address = s'.cstringAt address := by
  unfold cstringAt
  rcases tw.region_cases address with ⟨e, hr, hr'⟩ | ⟨offset, t, hoffset, ht, hfits, hr, hr'⟩
  · rw [hr, hr']
  · rw [hr, hr']
    have hstart : t.hasOffset offset = true := by
      have hfound := List.find?_some ht
      rw [Bool.and_eq_true] at hfound
      exact hfound.2
    simp only [Segment.hasOffset, Bool.and_eq_true, decide_eq_true_eq] at hstart
    -- The search in the segment's data is one from the text's own place in the file.
    simp only [textReads, hclear, hoffset, ht, Bool.false_eq_true, if_false, Option.elim_some] at h
    apply Reader.cstring_congr tw.size hfits
    rw [Nat.add_sub_cancel' hstart.1]
    have hcount : t.fileSize.toNat - (offset - t.fileOffset.toNat) = t.fileEnd - offset := by
      rw [Segment.fileEnd]
      omega
    rw [hcount]
    exact h

end Twin

end Slice

end ObjcAtlas
