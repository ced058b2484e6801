import ObjcAtlas.Image.Universal
import ObjcAtlas.Proofs.Image.Build
import ObjcAtlas.Proofs.Metadata.Encrypted

set_option autoImplicit false

namespace ObjcAtlas

namespace Slice

/-- The same image, read from files that may have it at different places. -/
structure SameImage (s s' : Slice) : Prop where
  reader : s.reader = s'.reader
  header : s.header = s'.header
  commands : s.commands = s'.commands
  segments : s.segments = s'.segments
  fixups : s.fixups = s'.fixups
  fileOffset : ∀ address, s.fileOffset address = s'.fileOffset address
  address : ∀ offset, s.address offset = s'.address offset
  bytesAt : ∀ address length, s.bytesAt address length = s'.bytesAt address length
  resolve : ∀ offset slide, s.resolve offset slide = s'.resolve offset slide
  metadata : ∀ options, Metadata.extract s options = Metadata.extract s' options

theorem twin_offset (s : Slice) (offset : Nat) : Twin { s with offset } s where
  order := rfl
  size := rfl
  header := rfl
  commands := rfl
  segments := rfl
  tabled := fun _ => rfl
  errors := rfl

theorem sameImage_offset (s : Slice) (offset : Nat) : SameImage { s with offset } s where
  reader := rfl
  header := rfl
  commands := rfl
  segments := rfl
  fixups := rfl
  fileOffset := fun _ => rfl
  address := fun _ => rfl
  bytesAt := fun _ _ => rfl
  resolve := fun _ _ => rfl
  metadata := Metadata.extract_congr (s.twin_offset offset) fun _ _ => rfl

/-- The place of an image in its file is kept and not looked at. -/
theorem read_offset (bytes : ByteArray) (offset : Nat) :
    read bytes offset = (read bytes 0).map fun s => { s with offset } := by
  unfold read
  cases Header.read bytes with
  | error e => rfl
  | ok header =>
    simp only [bind, Except.bind]
    cases readCommandTable ⟨bytes, header.order⟩ header with
    | error e => rfl
    | ok commands =>
      simp only
      cases checkSegments (Reader.size ⟨bytes, header.order⟩)
          (commands.filterMap Command.segment?) with
      | error e => rfl
      | ok _ => rfl

end Slice

namespace Universal

variable {members : List UniversalMember} {offset : Nat} {out : List UInt8}

theorem map_fst_placeFrom (offset : Nat) (members : List UniversalMember) :
    (placeFrom offset members).map Prod.fst = members := by
  induction members generalizing offset with
  | nil => rfl
  | cons m members ih => simp only [placeFrom, List.map_cons, ih]

theorem dvd_placeFrom (h : align ∣ offset) : ∀ x ∈ placeFrom offset members, align ∣ x.2 := by
  induction members generalizing offset with
  | nil => exact nofun
  | cons m members ih =>
    have hnext : align ∣ offset + Bytes.roundUp align m.bytes.length :=
      Nat.dvd_add h (Nat.dvd_mul_left ..)
    intro x hx
    rcases List.mem_cons.1 hx with rfl | hmem
    · exact h
    · exact ih hnext x hmem

def append (out : List UInt8) (x : UniversalMember × Nat) : List UInt8 :=
  Bytes.fit x.2 out ++ x.1.bytes

theorem build_eq (members : List UniversalMember) :
    build members = (place members).foldl append (table members) := rfl

theorem length_append_le (m : UniversalMember) :
    (append out (m, offset)).length ≤ offset + Bytes.roundUp align m.bytes.length := by
  have hle : m.bytes.length ≤ Bytes.roundUp align m.bytes.length := Bytes.le_roundUp (by decide) _
  simp only [append, List.length_append, Bytes.length_fit]
  omega

theorem holds_append {start : Nat} {part : List UInt8} (h : Holds out start part)
    (hout : out.length ≤ offset) (m : UniversalMember) :
    Holds (append out (m, offset)) start part := by
  have hself : Holds (append out (m, offset)) 0 (Bytes.fit offset out ++ m.bytes) := Holds.self _
  have hfit : Holds (append out (m, offset)) 0 (Bytes.fit offset out) := hself.append_left
  rw [Bytes.fit, List.take_of_length_le hout] at hfit
  have hpart := hfit.trans (h.pad offset)
  rwa [Nat.zero_add] at hpart

theorem holds_foldl_append {start : Nat} {part : List UInt8} (h : Holds out start part)
    (hout : out.length ≤ offset) :
    Holds ((placeFrom offset members).foldl append out) start part := by
  induction members generalizing offset out with
  | nil => exact h
  | cons m members ih => exact ih (holds_append h hout m) (length_append_le m)

theorem holds_member (hout : out.length ≤ offset) : ∀ x ∈ placeFrom offset members,
    Holds ((placeFrom offset members).foldl append out) x.2 x.1.bytes := by
  induction members generalizing offset out with
  | nil => exact nofun
  | cons m members ih =>
    intro x hx
    rcases List.mem_cons.1 hx with rfl | hmem
    · have hhere : Holds (append out (m, offset)) offset m.bytes :=
        ⟨Bytes.fit offset out, [], by rw [List.append_nil]; rfl, Bytes.length_fit ..⟩
      rw [placeFrom, List.foldl_cons]
      exact holds_foldl_append hhere (length_append_le m)
    · exact ih (length_append_le m) x hmem

theorem length_entry (x : UniversalMember × Nat) : (entry x.1 x.2).length = 20 := by
  simp [entry, ByteOrder.bytes_length]

theorem length_place (members : List UniversalMember) :
    (place members).length = members.length := by
  have hmap := congrArg List.length (map_fst_placeFrom align members)
  rwa [List.length_map] at hmap

theorem length_table (members : List UniversalMember) :
    (table members).length = 8 + 20 * members.length := by
  have hentries : ((place members).flatMap fun x => entry x.1 x.2).length =
      20 * members.length := by
    rw [List.length_flatMap, List.map_congr_left fun x _ => length_entry x, List.map_const',
      List.sum_replicate_nat, length_place, Nat.mul_comm]
  change (ByteOrder.half .big Magic.universal ++ ByteOrder.bytes .big 4 members.length ++
    (place members).flatMap fun x => entry x.1 x.2).length = _
  rw [List.length_append, List.length_append, hentries, ByteOrder.half, ByteOrder.bytes_length,
    ByteOrder.bytes_length]

def file (members : List UniversalMember) : ByteArray := ⟨(build members).toArray⟩

def placement (x : UniversalMember × Nat) : Placement where
  cpuType := x.1.cpuType
  subtype := x.1.subtype
  offset := UInt64.ofNat x.2
  size := UInt64.ofNat x.1.bytes.length
  align := 14

/-- The table fits before the first member, and all places are numbers of 32 bits. -/
structure Sound (members : List UniversalMember) : Prop where
  table : 8 + 20 * members.length ≤ 0x4000
  size : (build members).length < 2 ^ 32

def reader (members : List UniversalMember) : Reader := ⟨file members, .big⟩

theorem length_table_le (h : Sound members) : (table members).length ≤ align := by
  rw [length_table]
  exact h.table

theorem has_member (h : Sound members) {x : UniversalMember × Nat} (hx : x ∈ place members) :
    (reader members).Has x.2 x.1.bytes :=
  holds_member (length_table_le h) x hx

theorem has_table (h : Sound members) : (reader members).Has 0 (table members) :=
  holds_foldl_append (Holds.self _) (length_table_le h)

theorem member_end_lt (h : Sound members) {x : UniversalMember × Nat} (hx : x ∈ place members) :
    x.2 + x.1.bytes.length < 2 ^ 32 :=
  Nat.lt_of_le_of_lt (has_member h hx).length_le h.size

theorem toNat_placement (h : Sound members) {x : UniversalMember × Nat} (hx : x ∈ place members) :
    (placement x).offset.toNat = x.2 ∧ (placement x).size.toNat = x.1.bytes.length := by
  have hlt := member_end_lt h hx
  simp only [placement, UInt64.toNat_ofNat']
  omega

theorem read_placement (h : Sound members) {x : UniversalMember × Nat} (hx : x ∈ place members)
    {start : Nat} (hentry : (reader members).Has start (entry x.1 x.2)) :
    Placement.read (reader members) .bits32 start = .ok (placement x) := by
  obtain ⟨hoffset, hsize⟩ := toNat_placement h hx
  have hlt := member_end_lt h hx
  have hparts : (reader members).Has start
      [ByteOrder.half .big x.1.cpuType, ByteOrder.half .big x.1.subtype,
        ByteOrder.word .big .bits32 (placement x).offset,
        ByteOrder.word .big .bits32 (placement x).size, ByteOrder.half .big 14].flatten := by
    rw [ByteOrder.word, ByteOrder.word, hoffset, hsize]
    exact hentry
  have hall := hparts.all
  have hnext : start + 4 + 4 = start + 8 := by omega
  have hlast : start + 8 + 4 + 4 = start + 8 + 2 * 4 := by omega
  simp only [Reader.HasAll, ByteOrder.word, ByteOrder.half, ByteOrder.bytes_length,
    Bitness.pointerSize, hnext, hlast] at hall
  obtain ⟨hcpu, hsubtype, hplace, hlength, halign, -⟩ := hall
  have nplace : (reader members).pointer .bits32 (start + 8) = .ok (placement x).offset :=
    hplace.word fun _ => by omega
  have nlength : (reader members).pointer .bits32 (start + 8 + 4) = .ok (placement x).size :=
    hlength.word fun _ => by omega
  simp only [Placement.read, Bitness.pointerSize, hcpu.half, hsubtype.half, nplace, nlength,
    halign.half, bind, Except.bind]
  rfl

theorem table_parts (h : Sound members) :
    (reader members).HasAll 0 [ByteOrder.half .big Magic.universal,
      ByteOrder.bytes .big 4 members.length,
      (place members).flatMap fun x => entry x.1 x.2] := by
  refine Reader.Has.all ?_
  have htable := has_table h
  simpa [table] using htable

theorem classify_file (h : Sound members) :
    Magic.classifyUniversal (Magic.first .big (file members)) = some (.bits32, .big) := by
  have hfirst := (table_parts h).1.first .big
  have hmagic : Magic.classifyUniversal (UInt32.ofNat
      (ByteOrder.big.value (ByteOrder.half .big Magic.universal))) = some (.bits32, .big) := by
    decide
  rw [← hmagic, ← hfirst]
  rfl

theorem readTable_file (h : Sound members) :
    Placement.readTable (file members) = .ok ((place members).map placement) := by
  have hparts := table_parts h
  simp only [Reader.HasAll, ByteOrder.half, ByteOrder.bytes_length, Nat.zero_add, Nat.reduceAdd]
    at hparts
  obtain ⟨-, hcount, hentries, -⟩ := hparts
  have htable := h.table
  have hsize := (has_table h).length_le
  rw [length_table, Nat.zero_add, ← Reader.size_eq_length] at hsize
  have hlong : 8 + 20 * members.length ≤ (file members).size := hsize
  have hnumber : (UInt32.ofNat members.length).toNat = members.length := by
    rw [UInt32.toNat_ofNat', Nat.mod_eq_of_lt (by omega)]
  have hlength : ((place members).map placement).length = members.length := by
    rw [List.length_map, length_place]
  have hread : (List.range members.length).mapM
      (fun i => Placement.read (reader members) .bits32 (8 + i * 20)) =
        .ok ((place members).map placement) := by
    rw [← hlength]
    refine mapM_range_eq_ok fun i p hp => ?_
    rw [List.getElem?_map, Option.map_eq_some_iff] at hp
    obtain ⟨x, hx, rfl⟩ := hp
    refine read_placement h (List.mem_of_getElem? hx) ?_
    exact hentries.flatMap (fun y _ => length_entry y) hx
  have hu32 : Reader.u32 ⟨file members, .big⟩ 4 = .ok (UInt32.ofNat members.length) := hcount.u32
  simp only [Placement.readTable, classify_file h, hu32, hnumber, Placement.entrySize, bind,
    Except.bind]
  rw [if_neg (by omega), if_neg (by omega)]
  exact hread

theorem isUniversal_file (h : Sound members) : isUniversal (file members) = true := by
  rw [isUniversal, classify_file h]
  rfl

/-- The first member that the selector accepts; without one the first for x86-64, else the first
    for arm64, else the first. -/
def chosen? (members : List UniversalMember) : Option ArchSelector → Option UniversalMember
  | some selector => members.find? fun m => selector.accepts m.cpuType m.subtype
  | none => (members.find? (·.cpuType == Cpu.x86_64)).or
      ((members.find? (·.cpuType == Cpu.arm64)).or members.head?)

def chosenPlace? (members : List UniversalMember) :
    Option ArchSelector → Option (UniversalMember × Nat)
  | some selector => (place members).find? fun x => selector.accepts x.1.cpuType x.1.subtype
  | none => ((place members).find? (·.1.cpuType == Cpu.x86_64)).or
      (((place members).find? (·.1.cpuType == Cpu.arm64)).or (place members).head?)

theorem chosen?_eq (members : List UniversalMember) (selector : Option ArchSelector) :
    chosen? members selector = (chosenPlace? members selector).map Prod.fst := by
  have hfind (p : UniversalMember → Bool) :
      members.find? p = ((place members).find? (p ∘ Prod.fst)).map Prod.fst := by
    rw [← List.find?_map]
    exact congrArg (List.find? p) (map_fst_placeFrom align members).symm
  have hhead : members.head? = (place members).head?.map Prod.fst := by
    rw [← List.head?_map]
    exact congrArg List.head? (map_fst_placeFrom align members).symm
  cases selector with
  | some selector => exact hfind _
  | none =>
    rw [chosen?, hfind, hfind, hhead, ← Option.map_or, ← Option.map_or]
    rfl

theorem mem_of_chosenPlace? {selector : Option ArchSelector} {x : UniversalMember × Nat}
    (h : chosenPlace? members selector = some x) : x ∈ place members := by
  cases selector with
  | some selector => exact List.mem_of_find?_eq_some h
  | none =>
    simp only [chosenPlace?, Option.or_eq_some_iff] at h
    rcases h with h | ⟨-, h | ⟨-, h⟩⟩
    · exact List.mem_of_find?_eq_some h
    · exact List.mem_of_find?_eq_some h
    · exact List.mem_of_head? h

theorem choose_eq_ok {selector : Option ArchSelector} {x : UniversalMember × Nat}
    (h : chosenPlace? members selector = some x) :
    Slice.choose ((place members).map placement) selector = .ok (placement x) := by
  cases selector with
  | some selector =>
    have hfind : ((place members).map placement).find?
        (fun p => selector.accepts p.cpuType p.subtype) = some (placement x) := by
      rw [List.find?_map]
      exact congrArg (Option.map placement) h
    rw [Slice.choose, hfind]
  | none =>
    have hpreferred : Slice.preferred? ((place members).map placement) = some (placement x) := by
      rw [Slice.preferred?, List.find?_map, List.find?_map, List.head?_map, ← Option.map_or,
        ← Option.map_or]
      exact congrArg (Option.map placement) h
    rw [Slice.choose, hpreferred]

theorem choose_eq_error {selector : ArchSelector} (h : chosen? members (some selector) = none) :
    Slice.choose ((place members).map placement) (some selector) =
      .error (.sliceNotFound selector.cpuType.toNat) := by
  rw [chosen?_eq, Option.map_eq_none_iff] at h
  have hfind : ((place members).map placement).find?
      (fun p => selector.accepts p.cpuType p.subtype) = none := by
    rw [List.find?_map]
    exact congrArg (Option.map placement) h
  rw [Slice.choose, hfind]

theorem load_member (h : Sound members) {x : UniversalMember × Nat} (hx : x ∈ place members)
    {selector : Option ArchSelector}
    (hchoose : Slice.choose ((place members).map placement) selector = .ok (placement x)) :
    Slice.load (file members) selector = Slice.read ⟨x.1.bytes.toArray⟩ x.2 := by
  obtain ⟨hoffset, hsize⟩ := toNat_placement h hx
  have hmember : (Reader.ofList .little (build members)).Has x.2 x.1.bytes := has_member h hx
  have hslice := hmember.slice
  rw [Slice.load, if_pos (isUniversal_file h), readTable_file h]
  simp only [bind, Except.bind, hchoose, hoffset, hsize]
  rw [show Reader.slice ⟨file members, .little⟩ x.2 x.1.bytes.length = _ from hslice]
  rfl

/-- A universal file lists its members in order, each at a multiple of the alignment, and reading
    one out of it is reading its bytes. -/
theorem load_file (members : List UniversalMember) (hne : members ≠ []) (h : Sound members)
    (hthin : ∀ m ∈ members, isUniversal ⟨m.bytes.toArray⟩ = false) :
    (place members).map Prod.fst = members ∧ (∀ x ∈ place members, 0x4000 ∣ x.2) ∧
      Placement.list (file members) = .ok ((place members).map placement) ∧
      (chosen? members none).isSome ∧
      (∀ selector, chosen? members (some selector) = none →
        Slice.load (file members) (some selector) =
          .error (.sliceNotFound selector.cpuType.toNat)) ∧
      ∀ selector m, chosen? members selector = some m → ∃ offset, (m, offset) ∈ place members ∧
        match Slice.load ⟨m.bytes.toArray⟩ none with
        | .error e => Slice.load (file members) selector = .error e
        | .ok s => ∃ t, Slice.load (file members) selector = .ok t ∧ t.SameImage s ∧
            t.offset = offset := by
  refine ⟨map_fst_placeFrom align members, dvd_placeFrom (Nat.dvd_refl align), ?_, ?_, ?_, ?_⟩
  · rw [Placement.list, if_pos (isUniversal_file h), readTable_file h]
  · obtain ⟨m, rest, rfl⟩ := List.exists_cons_of_ne_nil hne
    simp [chosen?]
  · intro selector hnone
    rw [Slice.load, if_pos (isUniversal_file h), readTable_file h]
    simp only [bind, Except.bind, choose_eq_error hnone]
  · intro selector m hm
    rw [chosen?_eq, Option.map_eq_some_iff] at hm
    obtain ⟨x, hx, rfl⟩ := hm
    have hmem := mem_of_chosenPlace? hx
    have hmember : x.1 ∈ members := by
      rw [← map_fst_placeFrom align members]
      exact List.mem_map_of_mem hmem
    refine ⟨x.2, hmem, ?_⟩
    have hload := load_member h hmem (choose_eq_ok hx)
    rw [Slice.read_offset] at hload
    rw [hload, Slice.load_of_thin (hthin x.1 hmember)]
    cases Slice.read ⟨x.1.bytes.toArray⟩ 0 with
    | error e => rfl
    | ok s => exact ⟨{ s with offset := x.2 }, rfl, s.sameImage_offset x.2, rfl⟩

def armDraft : ImageDraft where
  bits := .bits32
  cpuType := Cpu.arm
  subtype := 9

def arm64Draft : ImageDraft where
  bits := .bits64
  cpuType := Cpu.arm64

def sample : List UniversalMember :=
  [⟨Cpu.arm, 9, armDraft.build⟩, ⟨Cpu.arm64, 0, arm64Draft.build⟩]

theorem place_sample : place sample =
    [(⟨Cpu.arm, 9, armDraft.build⟩, 0x4000), (⟨Cpu.arm64, 0, arm64Draft.build⟩, 0x8000)] := rfl

theorem sound_sample : Sound sample where
  table := by decide
  size := by
    have hlast : arm64Draft.build.length = 32 := rfl
    rw [build_eq, place_sample, List.foldl_cons, List.foldl_cons, List.foldl_nil, append,
      List.length_append, Bytes.length_fit, hlast]
    decide

theorem load_sample : sample ≠ [] ∧ Sound sample ∧
    (∀ m ∈ sample, isUniversal ⟨m.bytes.toArray⟩ = false) ∧
    Slice.load (file sample) (some { cpuType := Cpu.x86_64 }) = .error (.sliceNotFound 0x1000007) ∧
    ∃ s t, Slice.load ⟨arm64Draft.build.toArray⟩ none = .ok s ∧
      Slice.load (file sample) none = .ok t ∧ t.SameImage s ∧ t.offset = 0x8000 := by
  have hne : sample ≠ [] := nofun
  have hthin : ∀ m ∈ sample, isUniversal ⟨m.bytes.toArray⟩ = false := by decide
  obtain ⟨-, -, -, -, herror, hload⟩ := load_file sample hne sound_sample hthin
  refine ⟨hne, sound_sample, hthin, herror _ rfl, ?_⟩
  have hthinLoad : Slice.load ⟨arm64Draft.build.toArray⟩ none = .ok (arm64Draft.loaded []) :=
    arm64Draft.load_build (show [].map Prod.fst = _ from rfl) nofun (by decide) (by decide) rfl
  obtain ⟨offset, hmem, hmember⟩ := hload none ⟨Cpu.arm64, 0, arm64Draft.build⟩ rfl
  simp only [hthinLoad] at hmember
  obtain ⟨t, ht, hsame, hoffset⟩ := hmember
  refine ⟨_, t, hthinLoad, ht, hsame, hoffset.trans ?_⟩
  rw [place_sample] at hmem
  simp only [List.mem_cons, List.not_mem_nil, Prod.mk.injEq, UniversalMember.mk.injEq,
    show Cpu.arm64 ≠ Cpu.arm by decide, false_and, true_and, false_or, or_false] at hmem
  exact hmem

end Universal

end ObjcAtlas
