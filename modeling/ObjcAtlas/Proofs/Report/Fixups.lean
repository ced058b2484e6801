import ObjcAtlas.CommandLine.Run
import ObjcAtlas.Proofs.Fixup.Located
import ObjcAtlas.Proofs.Fixup.Page

set_option autoImplicit false

namespace ObjcAtlas

namespace FixupEntry

variable {s : Slice} {e : FixupEntry} {offset : Nat}

def movedBy (slide : UInt64) (e : FixupEntry) : FixupEntry :=
  { e with address := e.address + slide, value := e.value.movedBy slide }

/-- The entry is what an image that is not moved has in the slot, and a slide moves the slot as it
    moves the entry. -/
structure Describes (s : Slice) (e : FixupEntry) : Prop where
  address : s.address e.offset = .ok e.address
  isNull : e.value.isNull = false
  recorded : ∀ slide, s.fixups.recorded? e.offset slide = some (e.value.movedBy slide)
  library : e.library = e.value.symbol?.bind fun t => s.library? t.ordinal

theorem Describes.resolve (h : e.Describes s) (slide : UInt64) :
    s.resolve e.offset slide = .ok (e.value.movedBy slide) :=
  Fixups.resolve_of_recorded (h.recorded slide)

theorem symbol?_movedBy (slide : UInt64) (value : SlotValue) :
    (value.movedBy slide).symbol? = value.symbol? := by
  cases value <;> rfl

theorem isBind_movedBy (slide : UInt64) (e : FixupEntry) : (e.movedBy slide).isBind = e.isBind := by
  simp [isBind, movedBy, symbol?_movedBy]

theorem Describes.ofSlot_eq (h : e.Describes s) (slide : UInt64) :
    ofSlot s slide e.offset = .ok (e.movedBy slide) := by
  have hlibrary : (e.value.movedBy slide).symbol?.bind (fun t => s.library? t.ordinal) =
      e.library := by
    rw [symbol?_movedBy, h.library]
  simp only [ofSlot, h.address, h.resolve slide, bind, Except.bind, hlibrary]
  rfl

end FixupEntry

namespace Slice

variable {s : Slice} {bytes : ByteArray} {selector : Option ArchSelector} {offset : Nat}

theorem located_of_load (h : load bytes selector = .ok s) : s.fixups.Located s.segments := by
  rw [fixups_of_load h]
  exact Fixups.located_read _ _ _ _

theorem mem_fixupOffsets_of_chains {t : ChainTable} (h : s.fixups.chains = some t) :
    offset ∈ s.fixupOffsets ↔ offset ∈ t.fixups := by
  rw [fixupOffsets, h]
  exact Std.TreeMap.mem_keys

theorem mem_fixupOffsets_of_binds (h : s.fixups.chains = none) :
    offset ∈ s.fixupOffsets ↔ offset ∈ s.fixups.binds := by
  rw [fixupOffsets, h]
  exact Std.TreeMap.mem_keys

theorem exists_address_of_covered (h : Covered s.segments offset) :
    ∃ address, s.address offset = .ok address := by
  obtain ⟨t, ht, hin⟩ := h
  rw [address, segmentAt?]
  cases hfind : s.segments.find? fun t => t.isBacked && t.hasOffset offset with
  | some u => exact ⟨_, rfl⟩
  | none =>
    have hnone := List.find?_eq_none.1 hfind t ht
    simp [hin, Segment.isBacked_of_hasOffset hin] at hnone

theorem exists_entry (h : load bytes selector = .ok s) (ho : offset ∈ s.fixupOffsets) :
    ∃ e : FixupEntry, e.offset = offset ∧ e.Describes s := by
  have hlocated := located_of_load h
  cases hchains : s.fixups.chains with
  | some t =>
    have hmem := (mem_fixupOffsets_of_chains hchains).1 ho
    obtain ⟨hcovered, value, hnull, hvalue⟩ := hlocated.chains t hchains offset hmem
    obtain ⟨address, haddress⟩ := exists_address_of_covered hcovered
    refine ⟨⟨address, offset, value, value.symbol?.bind fun t => s.library? t.ordinal⟩, rfl,
      haddress, hnull, ?_, rfl⟩
    intro slide
    simp [Fixups.recorded?, hchains, hvalue slide]
  | none =>
    have hmem := (mem_fixupOffsets_of_binds hchains).1 ho
    obtain ⟨address, haddress⟩ := exists_address_of_covered (hlocated.binds offset hmem)
    obtain ⟨target, htarget⟩ : ∃ target, s.fixups.binds[offset]? = some target :=
      ⟨_, Std.TreeMap.getElem?_eq_some_getElem hmem⟩
    refine ⟨⟨address, offset, .symbol target, s.library? target.ordinal⟩, rfl, haddress, rfl, ?_,
      rfl⟩
    intro slide
    simp [Fixups.recorded?, hchains, htarget, SlotValue.movedBy]

theorem exists_entries {offsets : List Nat}
    (h : ∀ offset ∈ offsets, ∃ e : FixupEntry, e.offset = offset ∧ e.Describes s) :
    ∃ entries : List FixupEntry,
      entries.map (·.offset) = offsets ∧ ∀ e ∈ entries, e.Describes s := by
  induction offsets with
  | nil => exact ⟨[], rfl, nofun⟩
  | cons offset offsets ih =>
    obtain ⟨e, rfl, he⟩ := h offset List.mem_cons_self
    obtain ⟨entries, rfl, hentries⟩ := ih fun o ho => h o (List.mem_cons_of_mem _ ho)
    exact ⟨e :: entries, rfl, List.forall_mem_cons.2 ⟨he, hentries⟩⟩

theorem fixupOffsets_pairwise (s : Slice) : s.fixupOffsets.Pairwise (· < ·) := by
  have ordered {β : Type} (m : Std.TreeMap Nat β) : m.keys.Pairwise (· < ·) :=
    m.ordered_keys.imp Nat.compare_eq_lt.1
  rw [fixupOffsets]
  cases s.fixups.chains with
  | some t => exact ordered t.fixups
  | none => exact ordered s.fixups.binds

theorem fixupEntries_eq {entries : List FixupEntry}
    (hoffsets : entries.map (·.offset) = s.fixupOffsets) (h : ∀ e ∈ entries, e.Describes s)
    (slide : UInt64) (bindsOnly : Bool) : s.fixupEntries slide bindsOnly =
      .ok ((entries.filter fun e => !bindsOnly || e.isBind).map (·.movedBy slide)) := by
  have hall : s.fixupOffsets.mapM (FixupEntry.ofSlot s slide) =
      .ok (entries.map (·.movedBy slide)) := by
    apply mapM_eq_ok
    rw [← hoffsets, List.map_map, List.map_map]
    apply List.map_congr_left
    intro e he
    exact (h e he).ofSlot_eq slide
  have hkeep : (fun e : FixupEntry => !bindsOnly || e.isBind) ∘ FixupEntry.movedBy slide =
      fun e => !bindsOnly || e.isBind := by
    funext e
    simp [FixupEntry.isBind_movedBy]
  rw [fixupEntries, hall]
  simp only [bind, Except.bind, List.filter_map, hkeep]
  rfl

/-- The listed slots are those of the chain table if there is one, and of the bind table if not, in
    the order of the file. Each has one entry: its address, and the address or the symbol that the
    tables have for it. With any slide the listing gives these entries, moved, and the command
    succeeds. The sums of `Slice.address` and of `movedBy` are modulo `2 ^ 64`. -/
theorem fixups_listed_of_load (hload : load bytes selector = .ok s) :
    s.fixupOffsets.Pairwise (· < ·) ∧
    (∀ t, s.fixups.chains = some t → ∀ offset, offset ∈ s.fixupOffsets ↔ offset ∈ t.fixups) ∧
    (s.fixups.chains = none → ∀ offset, offset ∈ s.fixupOffsets ↔ offset ∈ s.fixups.binds) ∧
    ∃ entries : List FixupEntry, entries.map (·.offset) = s.fixupOffsets ∧
      (∀ e ∈ entries, s.address e.offset = .ok e.address ∧ e.value.isNull = false ∧
        ∀ slide, s.fixups.recorded? e.offset slide = some (e.value.movedBy slide) ∧
          s.resolve e.offset slide = .ok (e.value.movedBy slide)) ∧
      (∀ slide bindsOnly, s.fixupEntries slide bindsOnly =
        .ok ((entries.filter fun e => !bindsOnly || e.isBind).map (·.movedBy slide))) ∧
      ∀ (i : Invocation) (file : ByteArray) (bindsOnly : Bool),
        ∃ outcome, i.report s file (.fixups bindsOnly) = .ok outcome ∧ outcome.exitCode = 0 := by
  obtain ⟨entries, hoffsets, hentries⟩ := exists_entries fun offset ho => exists_entry hload ho
  have hlisted := fixupEntries_eq hoffsets hentries
  refine ⟨s.fixupOffsets_pairwise, fun t ht _ => mem_fixupOffsets_of_chains ht,
    fun hnone _ => mem_fixupOffsets_of_binds hnone, entries, hoffsets, ?_, hlisted, ?_⟩
  · intro e he
    have hd := hentries e he
    exact ⟨hd.address, hd.isNull, fun slide => ⟨hd.recorded slide, hd.resolve slide⟩⟩
  · intro i file bindsOnly
    simp only [Invocation.report, hlisted i.slide bindsOnly, Except.mapError, bind, Except.bind]
    exact ⟨_, rfl, rfl⟩

theorem mem_fixupOffsets_loaded {p : PagePlan} (h : p.Sound) {x : Nat × SlotDraft}
    (hx : x ∈ p.slots) : p.pageOffset + x.1 ∈ p.loaded.fixupOffsets := by
  obtain ⟨fixups, hrecords, hfixups⟩ := PagePlan.fixups_loaded h
  apply (mem_fixupOffsets_of_chains (congrArg Fixups.chains hfixups)).2
  exact (PagePlan.mem_iff_of_records h hrecords _).2 ⟨x, hx, rfl⟩

theorem fixups_listed_samplePage :
    ∃ s, load ⟨PagePlan.samplePage.draft.build.toArray⟩ none = .ok s ∧
      PagePlan.samplePage.pageOffset + 12 ∈ s.fixupOffsets ∧
      PagePlan.samplePage.pageOffset + 0x20 ∈ s.fixupOffsets ∧
      ∀ slide, ∃ entries, s.fixupEntries slide false = .ok entries ∧
        entries.map (·.offset) = s.fixupOffsets := by
  have hsound := PagePlan.sound_samplePage
  have hload := PagePlan.load_build hsound
  obtain ⟨-, -, -, entries, hmap, -, hlisted, -⟩ := fixups_listed_of_load hload
  refine ⟨_, hload, ?_, ?_, ?_⟩
  · exact mem_fixupOffsets_loaded hsound (x := (12, .rebase 0x100004000)) (by decide)
  · exact mem_fixupOffsets_loaded hsound (x := (0x20, .bind 1 7)) (by decide)
  · intro slide
    have hall : entries.filter (fun e => !false || e.isBind) = entries :=
      List.filter_eq_self.2 fun _ _ => rfl
    refine ⟨_, hlisted slide false, ?_⟩
    rw [hall, ← hmap, List.map_map]
    rfl

end Slice

end ObjcAtlas
