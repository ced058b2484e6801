import ObjcAtlas.Proofs.Fixup.Walk
import ObjcAtlas.Proofs.Image.Translation

set_option autoImplicit false

namespace ObjcAtlas

/-- One of the segments has file data at the offset. -/
def Covered (segments : List Segment) (offset : Nat) : Prop :=
  ∃ t ∈ segments, t.hasOffset offset = true

namespace BindState

variable {s s' : BindState} {table table' : BindTable} {distance : UInt64} {pc count : Nat}

theorem bind_eq_ok : s.bind pc table = .ok table' ↔
    ∃ t, s.segment = some t ∧ s.offset < t.fileSize ∧
      table' = if s.isAnnouncement then table
        else table.insert (t.fileOffset.toNat + s.offset.toNat) s.target := by
  rw [bind]
  cases s.segment with
  | none => exact ⟨nofun, nofun⟩
  | some t =>
    by_cases hout : t.fileSize ≤ s.offset
    · simp [hout, UInt64.not_lt.2 hout]
    · by_cases ha : s.isAnnouncement = true
      · simp [hout, ha, eq_comm, UInt64.not_le.1 hout]
      · simp [hout, ha, eq_comm, UInt64.not_le.1 hout]

theorem bindTimes_succ_eq_ok :
    bindTimes distance pc (count + 1) s table = .ok (s', table') ↔ ∃ mid,
      s.bind pc table = .ok mid ∧ bindTimes distance pc count (s.advance distance) mid =
        .ok (s', table') :=
  ObjcAtlas.bind_eq_ok

theorem bindTimes_one (h : s.bind pc table = .ok table') :
    bindTimes distance pc 1 s table = .ok (s.advance distance, table') :=
  bindTimes_succ_eq_ok.2 ⟨table', h, rfl⟩

structure Located (segments : List Segment) (s : BindState) (table : BindTable) : Prop where
  segment : ∀ t, s.segment = some t → t ∈ segments
  slots : ∀ offset ∈ table, Covered segments offset

theorem Located.bind {segments : List Segment} (h : Located segments s table)
    (hb : s.bind pc table = .ok table') : Located segments s table' := by
  obtain ⟨t, ht, hin, rfl⟩ := bind_eq_ok.1 hb
  refine ⟨h.segment, ?_⟩
  intro offset ho
  split at ho
  · exact h.slots offset ho
  · rcases Std.TreeMap.mem_insert.1 ho with hnew | hold
    · have hcovers : t.hasOffset (t.fileOffset.toNat + s.offset.toNat) = true := by
        rw [UInt64.lt_iff_toNat_lt] at hin
        rw [Segment.hasOffset_iff, Segment.fileEnd]
        omega
      rw [Nat.compare_eq_eq] at hnew
      exact ⟨t, h.segment t ht, hnew ▸ hcovers⟩
    · exact h.slots offset hold

theorem Located.bindTimes {segments : List Segment} (h : Located segments s table)
    (hb : bindTimes distance pc count s table = .ok (s', table')) :
    Located segments s' table' := by
  induction count generalizing s table with
  | zero =>
    obtain ⟨rfl, rfl⟩ := Prod.mk.inj (Except.ok.inj hb)
    exact h
  | succ count ih =>
    obtain ⟨mid, hmid, hrest⟩ := bindTimes_succ_eq_ok.1 hb
    have hnext : Located segments (s.advance distance) mid := ⟨h.segment, (h.bind hmid).slots⟩
    exact ih hnext hrest

end BindState

namespace BindProgram

variable {p : BindProgram} {s s' : BindState} {table table' : BindTable} {byte pc fuel : Nat}

/-- What an instruction may do: change other registers than the segment, choose a segment, or bind
    slots of the current one. -/
inductive Effect (p : BindProgram) (s : BindState) (table : BindTable) :
    BindState → BindTable → Prop where
  | registers {s' : BindState} (h : s'.segment = s.segment) : Effect p s table s' table
  | segment {s' : BindState} {t : Segment} (ht : t ∈ p.segments) (h : s'.segment = some t) :
      Effect p s table s' table
  | binds {s' : BindState} {table' : BindTable} {distance : UInt64} {pc count : Nat}
      (h : BindState.bindTimes distance pc count s table = .ok (s', table')) :
      Effect p s table s' table'

def HasEffect (p : BindProgram) (s : BindState) (table : BindTable) : BindStep → Prop
  | .done table' => table' = table
  | .next _ s' table' => Effect p s table s' table'

theorem step_hasEffect {r : BindStep} (h : p.step byte pc s table = .ok r) :
    p.HasEffect s table r := by
  rw [step] at h
  split at h
  · obtain rfl := Except.ok.inj h
    split
    · exact .registers rfl
    · rfl
  · cases h
    exact .registers rfl
  · obtain ⟨n, -, h⟩ := bind_eq_ok.1 h
    cases h
    exact .registers rfl
  · cases h
    exact .registers rfl
  · obtain ⟨symbol, -, h⟩ := bind_eq_ok.1 h
    cases h
    exact .registers rfl
  · cases h
    exact .registers rfl
  · obtain ⟨n, -, h⟩ := bind_eq_ok.1 h
    cases h
    exact .registers rfl
  · obtain ⟨n, -, h⟩ := bind_eq_ok.1 h
    dsimp only at h
    split at h
    next t ht =>
      cases h
      exact .segment (List.mem_of_getElem? ht) rfl
    next => exact absurd h nofun
  · obtain ⟨n, -, h⟩ := bind_eq_ok.1 h
    cases h
    exact .registers rfl
  · obtain ⟨table', hb, h⟩ := bind_eq_ok.1 h
    cases h
    exact .binds (BindState.bindTimes_one hb)
  · obtain ⟨table', hb, h⟩ := bind_eq_ok.1 h
    obtain ⟨n, -, h⟩ := bind_eq_ok.1 h
    cases h
    exact .binds (BindState.bindTimes_one hb)
  · obtain ⟨table', hb, h⟩ := bind_eq_ok.1 h
    cases h
    exact .binds (BindState.bindTimes_one hb)
  · obtain ⟨count, -, h⟩ := bind_eq_ok.1 h
    obtain ⟨skip, -, h⟩ := bind_eq_ok.1 h
    obtain ⟨⟨s', table'⟩, hb, h⟩ := bind_eq_ok.1 h
    cases h
    exact .binds hb
  · exact absurd h nofun
  · exact absurd h nofun

theorem Effect.located (h : p.Effect s table s' table')
    (hl : BindState.Located p.segments s table) : BindState.Located p.segments s' table' := by
  cases h with
  | registers hs => exact ⟨fun t ht => hl.segment t (hs ▸ ht), hl.slots⟩
  | segment hin hs =>
    refine ⟨?_, hl.slots⟩
    intro t ht
    obtain rfl := Option.some.inj (hs.symm.trans ht)
    exact hin
  | binds hb => exact hl.bindTimes hb

theorem covered_of_runFrom (hl : BindState.Located p.segments s table)
    (h : p.runFrom fuel pc s table = .ok table') :
    ∀ offset ∈ table', Covered p.segments offset := by
  induction fuel generalizing pc s table with
  | zero =>
    cases h
    exact hl.slots
  | succ fuel ih =>
    rw [runFrom] at h
    split at h
    · obtain ⟨byte, -, hbyte⟩ := bind_eq_ok.1 h
      obtain ⟨r, hr, hrest⟩ := bind_eq_ok.1 hbyte
      have heffect := step_hasEffect hr
      cases r with
      | done last =>
        obtain rfl : last = table := heffect
        obtain rfl := Except.ok.inj hrest
        exact hl.slots
      | next pc' s' mid => exact ih (Effect.located heffect hl) hrest
    · cases h
      exact hl.slots

end BindProgram

namespace BindTable

variable {image : Reader} {segments : List Segment} {bits : Bitness} {table table' : BindTable}

theorem covered_of_runRange {weak : Bool} {range : FileRange}
    (ht : ∀ offset ∈ table, Covered segments offset)
    (h : runRange image segments bits weak range table = .ok table') :
    ∀ offset ∈ table', Covered segments offset := by
  rw [runRange] at h
  split at h
  · cases h
    exact ht
  · obtain ⟨code, -, h⟩ := bind_eq_ok.1 h
    have hinitial : BindState.Located segments (.initial weak) table :=
      ⟨fun t hsome => by simp [BindState.initial] at hsome, ht⟩
    exact BindProgram.covered_of_runFrom (p := ⟨code, segments, bits, weak⟩) hinitial h

theorem covered_of_read {bind weakBind : FileRange}
    (h : read image bind weakBind segments bits = .ok table) :
    ∀ offset ∈ table, Covered segments offset := by
  obtain ⟨mid, hmid, h⟩ := bind_eq_ok.1 h
  refine covered_of_runRange (covered_of_runRange ?_ hmid) h
  intro offset ho
  exact absurd ho Std.TreeMap.not_mem_emptyc

end BindTable

theorem Concat.forall_mem {α β : Type} {R : α → List β → Prop} {P : β → Prop} {as : List α}
    {xs : List β} (h : Concat R as xs) (hR : ∀ a ys, R a ys → ∀ y ∈ ys, P y) : ∀ x ∈ xs, P x := by
  induction h with
  | nil => exact nofun
  | cons hx _ ih => exact List.forall_mem_append.2 ⟨hR _ _ hx, ih⟩

theorem Chain.walk_eq {w : PageWalk} {offset : Nat} {vs : List ChainVisit}
    (h : Chain w offset vs) : ∀ v ∈ vs, v.walk = w := by
  induction h with
  | last _ _ => simp
  | step _ _ _ ih => exact List.forall_mem_cons.2 ⟨rfl, ih⟩

theorem walk_of_imageVisits {image : Reader} {segments : List Segment} {base : UInt64}
    {importCount : Nat} {starts : List SegmentStarts} {vs : List ChainVisit}
    (h : ImageVisits image segments base importCount starts vs) :
    ∀ v ∈ vs, v.walk.segment ∈ segments ∧ v.walk.importCount = importCount := by
  refine Concat.forall_mem (P := fun v => _ ∧ _) h ?_
  rintro s ys ⟨segment, hsegment, hpages⟩
  refine Concat.forall_mem (P := fun v => _ ∧ _) hpages ?_
  rintro x zs ⟨heads, -, hchains⟩
  refine Concat.forall_mem (P := fun v => _ ∧ _) hchains ?_
  intro head us hchain u hu
  rw [hchain.walk_eq u hu]
  exact ⟨List.mem_of_getElem? hsegment, rfl⟩

def SlotValue.movedBy (slide : UInt64) : SlotValue → SlotValue
  | .null => .null
  | .address a => .address (a + slide)
  | .symbol target => .symbol target

theorem ChainVisit.exists_target {v : ChainVisit} {target : UInt64} {high8 : UInt8}
    {signing : Option Signing} (h : v.entry = .rebase target high8 signing) :
    ∃ a, v.fixup.target = some a := by
  simp only [fixup, h]
  cases signing <;> exact ⟨_, rfl⟩

namespace ChainTable

variable {image : Reader} {range : FileRange} {segments : List Segment} {base : UInt64}
  {t : ChainTable} {offset : Nat}

theorem of_read (h : read image range segments base = .ok t) :
    walk image segments base t.imports.size t.starts = .ok t.fixups ∧
      ∃ blob table, image.sub range.offset.toNat range.size.toNat = .ok blob ∧
        blob.u32 4 = .ok table ∧ SegmentStarts.readTable blob table.toNat = .ok t.starts := by
  rw [read] at h
  obtain ⟨blob, hblob, h⟩ := bind_eq_ok.1 h
  obtain ⟨-, h⟩ := throw_if_eq_ok.1 h
  obtain ⟨version, -, h⟩ := bind_eq_ok.1 h
  obtain ⟨table, htable, h⟩ := bind_eq_ok.1 h
  obtain ⟨importsOffset, -, h⟩ := bind_eq_ok.1 h
  obtain ⟨symbolsOffset, -, h⟩ := bind_eq_ok.1 h
  obtain ⟨importCount, -, h⟩ := bind_eq_ok.1 h
  obtain ⟨importsCode, -, h⟩ := bind_eq_ok.1 h
  obtain ⟨symbolsFormat, -, h⟩ := bind_eq_ok.1 h
  obtain ⟨-, h⟩ := throw_if_eq_ok.1 h
  obtain ⟨-, h⟩ := throw_if_eq_ok.1 h
  obtain ⟨importsFormat, -, h⟩ := bind_eq_ok.1 h
  obtain ⟨imports, -, h⟩ := bind_eq_ok.1 h
  obtain ⟨starts, hstarts, h⟩ := bind_eq_ok.1 h
  obtain ⟨fixups, hwalk, h⟩ := bind_eq_ok.1 h
  cases h
  exact ⟨hwalk, blob, table, hblob, htable, hstarts⟩

theorem resolve?_of_read (h : read image range segments base = .ok t) (ho : offset ∈ t.fixups) :
    Covered segments offset ∧ ∃ value : SlotValue, value.isNull = false ∧
      ∀ slide, t.resolve? offset slide = some (value.movedBy slide) := by
  have hwalks := walk_walks image segments base t.imports.size t.starts
  obtain ⟨vs, hvisits, hsound, hrecords⟩ :=
    hwalks.sound FixupTable.records_empty (of_read h).1
  have hfound : t.fixups[offset]? = some t.fixups[offset] :=
    Std.TreeMap.getElem?_eq_some_getElem ho
  obtain ⟨v, hv, -, hslot, hfixup⟩ := (hrecords.entry offset _).1 hfound
  obtain ⟨hsegment, hcount⟩ := walk_of_imageVisits hvisits v hv
  have hs := hsound v hv
  rw [← hfixup] at hfound
  constructor
  · refine ⟨v.walk.segment, hsegment, ?_⟩
    rw [← hslot]
    exact Segment.hasOffset_iff.2 hs.inSegment
  · cases hentry : v.entry with
    | rebase target high8 signing =>
      obtain ⟨a, ha⟩ := ChainVisit.exists_target hentry
      refine ⟨.address a, rfl, ?_⟩
      intro slide
      have hrebase : v.fixup.entry = .rebase target high8 signing := hentry
      simp only [resolve?, hfound, hrebase, ha, bind, Option.bind, SlotValue.movedBy]
      rfl
    | bind ordinal addend signing =>
      have hin := hs.imported ordinal addend signing hentry
      rw [hcount] at hin
      obtain ⟨i, himport⟩ : ∃ i, t.imports[ordinal.toNat]? = some i :=
        ⟨_, Array.getElem?_eq_getElem hin⟩
      refine ⟨.symbol ⟨i.symbol, i.ordinal, i.weak, i.addend + addend⟩, rfl, ?_⟩
      intro slide
      have hbind : v.fixup.entry = .bind ordinal addend signing := hentry
      simp only [resolve?, hfound, hbind, himport, bind, Option.bind, SlotValue.movedBy]
      rfl

end ChainTable

namespace Fixups

variable {f : Fixups} {image : Reader} {bits : Bitness} {segments : List Segment} {offset : Nat}

/-- What the tables say of a slot, whatever bytes are there. -/
def recorded? (f : Fixups) (offset : Nat) (slide : UInt64) : Option SlotValue :=
  (f.chains.bind (·.resolve? offset slide)).or (f.binds[offset]?.map .symbol)

structure Located (segments : List Segment) (f : Fixups) : Prop where
  chains : ∀ t, f.chains = some t → ∀ offset ∈ t.fixups, Covered segments offset ∧
    ∃ value : SlotValue, value.isNull = false ∧
      ∀ slide, t.resolve? offset slide = some (value.movedBy slide)
  binds : ∀ offset ∈ f.binds, Covered segments offset

theorem Located.take (h : f.Located segments) (command : Command) :
    (take image bits segments f command).Located segments := by
  unfold Fixups.take
  split
  · split
    next t ht =>
      refine ⟨?_, h.binds⟩
      intro t' ht' offset ho
      obtain rfl := Option.some.inj ht'
      exact ChainTable.resolve?_of_read ht ho
    next => exact ⟨h.chains, h.binds⟩
  · split
    next table htable => exact ⟨h.chains, BindTable.covered_of_read htable⟩
    next => exact ⟨h.chains, h.binds⟩
  · exact h

theorem located_read (image : Reader) (bits : Bitness) (segments : List Segment)
    (commands : List Command) : (read image bits segments commands).Located segments := by
  have hall (f : Fixups) (h : f.Located segments) :
      (commands.foldl (take image bits segments) f).Located segments := by
    induction commands generalizing f with
    | nil => exact h
    | cons c commands ih => exact ih _ (h.take c)
  apply hall
  exact ⟨nofun, fun offset ho => absurd ho Std.TreeMap.not_mem_emptyc⟩

theorem resolve_of_recorded {slide : UInt64} {value : SlotValue}
    (h : f.recorded? offset slide = some value) :
    f.resolve image bits offset slide = .ok value := by
  rw [recorded?] at h
  rw [resolve]
  cases hchains : f.chains.bind (·.resolve? offset slide) with
  | some found =>
    rw [hchains] at h
    exact congrArg Except.ok (Option.some.inj h)
  | none =>
    rw [hchains, Option.none_or] at h
    obtain ⟨target, htarget, rfl⟩ := Option.map_eq_some_iff.1 h
    simp only [htarget]
    rfl

end Fixups

end ObjcAtlas
