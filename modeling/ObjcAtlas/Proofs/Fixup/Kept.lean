import ObjcAtlas.Proofs.Fixup.InPlace
import ObjcAtlas.Proofs.Image.Translation

set_option autoImplicit false

namespace ObjcAtlas

namespace Fixups

variable {α τ : Type}

def result? : Option (Except ImageError α) → Option α
  | some (.ok a) => some a
  | _ => none

def error? : Option (Except ImageError α) → Option ImageError
  | some (.error e) => some e
  | _ => none

/-- The last table that can be read. -/
def lastOf (read? : Command → Option (Except ImageError α)) (commands : List Command) : Option α :=
  (commands.filterMap fun c => result? (read? c)).getLast?

theorem lastOf_cons (read? : Command → Option (Except ImageError α)) (c : Command)
    (commands : List Command) :
    lastOf read? (c :: commands) = (lastOf read? commands).or (result? (read? c)) := by
  unfold lastOf
  cases hc : result? (read? c) with
  | none => simp [hc]
  | some a => cases h : (commands.filterMap fun c => result? (read? c)).getLast? <;>
      simp [hc, List.getLast?_cons, h]

theorem result?_eq_some {r : Option (Except ImageError α)} {a : α} (h : result? r = some a) :
    r = some (.ok a) := by
  unfold result? at h
  split at h
  · rw [Option.some.inj h]
  · cases h

theorem exists_of_lastOf {read? : Command → Option (Except ImageError α)}
    {commands : List Command} {a : α} (h : lastOf read? commands = some a) :
    ∃ c ∈ commands, read? c = some (.ok a) := by
  obtain ⟨c, hc, ha⟩ := List.mem_filterMap.1 (List.mem_of_getLast? h)
  exact ⟨c, hc, result?_eq_some ha⟩

section

variable (image : Reader) (bits : Bitness) (segments : List Segment)

def chainRead? : Command → Option (Except ImageError ChainTable)
  | .linkedit .chainedFixups range =>
    some (ChainTable.read image range segments (preferredBase segments))
  | _ => none

def bindRead? : Command → Option (Except ImageError BindTable)
  | .dyldInfo _ info => some (BindTable.read image info.bind info.weakBind segments bits)
  | _ => none

def failure? (c : Command) : Option ImageError :=
  (error? (chainRead? image segments c)).or (error? (bindRead? image bits segments c))

theorem take_eq (f : Fixups) (c : Command) :
    take image bits segments f c =
      { chains := (result? (chainRead? image segments c)).or f.chains
        binds := (result? (bindRead? image bits segments c)).getD f.binds
        errors := f.errors ++ (failure? image bits segments c).toList } := by
  unfold take failure? chainRead? bindRead?
  split
  next range =>
    cases h : ChainTable.read image range segments (preferredBase segments) <;>
      simp [h, result?, error?]
  next info =>
    cases h : BindTable.read image info.bind info.weakBind segments bits <;>
      simp [h, result?, error?]
  · simp [result?, error?]

theorem foldl_take_eq (commands : List Command) (f : Fixups) :
    commands.foldl (take image bits segments) f =
      { chains := (lastOf (chainRead? image segments) commands).or f.chains
        binds := (lastOf (bindRead? image bits segments) commands).getD f.binds
        errors := f.errors ++ commands.filterMap (failure? image bits segments) } := by
  induction commands generalizing f with
  | nil => simp [lastOf]
  | cons c commands ih =>
    rw [List.foldl_cons, ih, take_eq, lastOf_cons, lastOf_cons, Option.or_assoc, Option.getD_or]
    cases hc : failure? image bits segments c <;> simp [hc]

def chainRun? : Command → Option (Except ImageError Unit × FixupTable)
  | .linkedit .chainedFixups range =>
    some (ChainTable.fill image range segments (preferredBase segments) ∅)
  | _ => none

def bindRun? : Command → Option (Except ImageError Unit × BindTable)
  | .dyldInfo _ info => some (BindTable.fill image segments bits info.bind info.weakBind ∅)
  | _ => none

theorem chainRun?_fst (c : Command) : (chainRun? image segments c).map Prod.fst =
    (chainRead? image segments c).map fun r => r.map fun _ => () := by
  unfold chainRun? chainRead?
  split
  · exact congrArg some (ChainTable.fill_result ..)
  · rfl

theorem bindRun?_fst (c : Command) : (bindRun? image bits segments c).map Prod.fst =
    (bindRead? image bits segments c).map fun r => r.map fun _ => () := by
  unfold bindRun? bindRead?
  split
  · exact congrArg some (BindTable.fill_result ..)
  · rfl

variable {image bits segments}

theorem chainRun?_of_chainRead? {c : Command} {t : ChainTable}
    (h : chainRead? image segments c = some (.ok t)) :
    chainRun? image segments c = some (.ok (), t.fixups) := by
  unfold chainRead? at h
  split at h
  · exact congrArg some (ChainTable.fill_of_read (Option.some.inj h))
  · cases h

theorem bindRun?_of_bindRead? {c : Command} {t : BindTable}
    (h : bindRead? image bits segments c = some (.ok t)) :
    bindRun? image bits segments c = some (.ok (), t) := by
  unfold bindRead? at h
  split at h
  · exact congrArg some (BindTable.fill_of_read image segments bits (Option.some.inj h))
  · cases h

end

section

variable [Membership Nat τ] (run? : Command → Option (Except ImageError Unit × τ))
variable (commands : List Command) (offset : Nat)

/-- Of the commands, only such as fail have entered the offset. -/
def OnlyFailed : Prop :=
  ∀ c ∈ commands, ∀ run ∈ run? c, offset ∈ run.2 → run.1.isOk = false

instance [∀ table : τ, Decidable (offset ∈ table)] :
    Decidable (OnlyFailed run? commands offset) :=
  inferInstanceAs (Decidable (∀ c ∈ commands, ∀ run ∈ run? c, offset ∈ run.2 → run.1.isOk = false))

variable {run? commands offset} {read? : Command → Option (Except ImageError α)} {table : α → τ}

theorem OnlyFailed.not_mem (h : OnlyFailed run? commands offset)
    (hrun : ∀ {c t}, read? c = some (.ok t) → run? c = some (.ok (), table t)) {t : α}
    (ht : lastOf read? commands = some t) : offset ∉ table t := by
  intro hmem
  obtain ⟨c, hc, hread⟩ := exists_of_lastOf ht
  exact absurd (h c hc _ (hrun hread) hmem) nofun

end

theorem OnlyFailed.not_mem_binds {image : Reader} {bits : Bitness} {segments : List Segment}
    {commands : List Command} {offset : Nat}
    (h : OnlyFailed (bindRun? image bits segments) commands offset) :
    offset ∉ (lastOf (bindRead? image bits segments) commands).getD ∅ := by
  cases ht : lastOf (bindRead? image bits segments) commands with
  | none => exact Std.TreeMap.not_mem_emptyc
  | some t => exact h.not_mem bindRun?_of_bindRead? ht

variable {f : Fixups} {offset : Nat}

theorem resolve_of_not_mem_chains (h : ∀ t, f.chains = some t → offset ∉ t.fixups)
    (image : Reader) (bits : Bitness) (slide : UInt64) :
    f.resolve image bits offset slide =
      { f with chains := none }.resolve image bits offset slide := by
  have hnone : f.chains.bind (·.resolve? offset slide) = none := by
    cases ht : f.chains with
    | none => rfl
    | some t => simp [ChainTable.resolve?, Std.TreeMap.getElem?_eq_none (h t ht)]
  simp only [resolve, hnone, Option.bind_none]

theorem resolve_of_not_mem_binds (h : offset ∉ f.binds) (image : Reader) (bits : Bitness)
    (slide : UInt64) :
    f.resolve image bits offset slide = { f with binds := ∅ }.resolve image bits offset slide := by
  simp only [resolve, Std.TreeMap.getElem?_eq_none h, Std.TreeMap.getElem?_emptyc]

theorem resolve_empty (image : Reader) (bits : Bitness) (offset : Nat) (slide : UInt64) :
    resolve {} image bits offset slide = (image.pointer bits offset).map fun raw =>
      if raw = 0 then .null else .address (raw + slide) := by
  simp only [resolve, Option.bind_none, Std.TreeMap.getElem?_emptyc]
  cases image.pointer bits offset <;> rfl

end Fixups

namespace Slice

open Fixups

variable {s : Slice} {bytes : ByteArray} {selector : Option ArchSelector}

/-- In an image that can be read, the chains are those of the last command whose chains can be read,
    the bound slots those of the last command whose bind programs can, and the errors those of the
    commands that fail, in order; no more than these two tables decides what a slot holds. Readers
    that enter their slots in place end as these do; but a slot that only failing readers of a kind
    have entered holds what it holds without that kind, and its own bytes if that goes for both. -/
theorem kept_tables_of_load (hload : load bytes selector = .ok s) :
    s.fixups.chains = lastOf (chainRead? s.reader s.segments) s.commands ∧
    s.fixups.binds = (lastOf (bindRead? s.reader s.bits s.segments) s.commands).getD ∅ ∧
    s.fixups.errors = s.commands.filterMap (failure? s.reader s.bits s.segments) ∧
    (∀ c, (chainRun? s.reader s.segments c).map Prod.fst =
        (chainRead? s.reader s.segments c).map (Except.map fun _ => ()) ∧
      (bindRun? s.reader s.bits s.segments c).map Prod.fst =
        (bindRead? s.reader s.bits s.segments c).map (Except.map fun _ => ())) ∧
    ∀ offset slide,
      s.resolve offset slide = Fixups.resolve
        { chains := lastOf (chainRead? s.reader s.segments) s.commands
          binds := (lastOf (bindRead? s.reader s.bits s.segments) s.commands).getD ∅ }
        s.reader s.bits offset slide ∧
      (OnlyFailed (chainRun? s.reader s.segments) s.commands offset →
        s.resolve offset slide = Fixups.resolve
          { binds := (lastOf (bindRead? s.reader s.bits s.segments) s.commands).getD ∅ }
          s.reader s.bits offset slide) ∧
      (OnlyFailed (bindRun? s.reader s.bits s.segments) s.commands offset →
        s.resolve offset slide = Fixups.resolve
          { chains := lastOf (chainRead? s.reader s.segments) s.commands }
          s.reader s.bits offset slide) ∧
      (OnlyFailed (chainRun? s.reader s.segments) s.commands offset →
        OnlyFailed (bindRun? s.reader s.bits s.segments) s.commands offset →
          s.resolve offset slide = (s.reader.pointer s.bits offset).map fun raw =>
            if raw = 0 then .null else .address (raw + slide)) := by
  have hfixups : s.fixups =
      { chains := lastOf (chainRead? s.reader s.segments) s.commands
        binds := (lastOf (bindRead? s.reader s.bits s.segments) s.commands).getD ∅
        errors := s.commands.filterMap (failure? s.reader s.bits s.segments) } := by
    rw [fixups_of_load hload, Fixups.read, foldl_take_eq]
    simp
  refine ⟨by rw [hfixups], by rw [hfixups], by rw [hfixups],
    fun c => ⟨chainRun?_fst _ _ c, bindRun?_fst _ _ _ c⟩, fun offset slide => ?_⟩
  unfold Slice.resolve
  rw [hfixups]
  refine ⟨rfl, fun hchains => ?_, fun hbinds => ?_, fun hchains hbinds => ?_⟩
  · rw [resolve_of_not_mem_chains fun t ht => hchains.not_mem chainRun?_of_chainRead? ht]
    rfl
  · rw [resolve_of_not_mem_binds hbinds.not_mem_binds]
    rfl
  · rw [resolve_of_not_mem_chains fun t ht => hchains.not_mem chainRun?_of_chainRead? ht,
      resolve_of_not_mem_binds hbinds.not_mem_binds]
    exact resolve_empty s.reader s.bits offset slide

/-- A chain that fails at its second slot, a bind program for the first of the two slots, and one
    for the second that fails behind its bind. -/
def halfRead : ByteArray := ⟨#[
  0xCE, 0xFA, 0xED, 0xFE, 12, 0, 0, 0, 0, 0, 0, 0, 2, 0, 0, 0, 4, 0, 0, 0, 0xA8, 0, 0, 0, 0, 0, 0,
  0,
  1, 0, 0, 0, 0x38, 0, 0, 0, 0x5F, 0x5F, 0x44, 0x41, 0x54, 0x41, 0, 0, 0, 0, 0, 0, 0, 0, 0, 0, 0,
  0x10, 0, 0, 0x18, 1, 0, 0, 0, 0, 0, 0, 0x18, 1, 0, 0, 3, 0, 0, 0, 3, 0, 0, 0, 0, 0, 0, 0, 0, 0, 0,
  0,
  0x34, 0, 0, 0x80, 0x10, 0, 0, 0, 0xCC, 0, 0, 0, 0x3C, 0, 0, 0,
  0x22, 0, 0, 0x80, 0x30, 0, 0, 0, 0, 0, 0, 0, 0, 0, 0, 0, 8, 1, 0, 0, 8, 0, 0, 0, 0, 0, 0, 0, 0, 0,
  0, 0, 0, 0, 0, 0, 0, 0, 0, 0, 0, 0, 0, 0, 0, 0, 0, 0,
  0x22, 0, 0, 0x80, 0x30, 0, 0, 0, 0, 0, 0, 0, 0, 0, 0, 0, 0x10, 1, 0, 0, 8, 0, 0, 0, 0, 0, 0, 0, 0,
  0, 0, 0, 0, 0, 0, 0, 0, 0, 0, 0, 0, 0, 0, 0, 0, 0, 0, 0,
  0x10, 0x10, 0, 4, 0, 0, 0, 0x80,
  0, 0, 0, 0, 0x1C, 0, 0, 0, 0x3C, 0, 0, 0, 0x3C, 0, 0, 0, 0, 0, 0, 0, 1, 0, 0, 0, 0, 0, 0, 0,
  1, 0, 0, 0, 8, 0, 0, 0, 0x18, 0, 0, 0, 0, 0x10, 3, 0, 0, 0, 0, 0, 0, 0, 0, 0, 0, 0x20, 0, 0, 1, 0,
  0xC4, 0,
  0x40, 0x5F, 0, 0x70, 0xC4, 1, 0x90, 0,
  0x40, 0x5F, 0, 0x70, 0xC8, 1, 0x90, 0xD0]⟩

/-- The first slot was entered by the chain and holds what the bind program has for it; the second
    was entered by the program that fails and holds its own bytes. -/
theorem kept_tables_halfRead :
    ∃ s, load halfRead none = .ok s ∧
      ((∃ c ∈ s.commands, ∃ run ∈ chainRun? s.reader s.segments c, 0xC4 ∈ run.2) ∧
        ∃ c ∈ s.commands, ∃ run ∈ bindRun? s.reader s.bits s.segments c, 0xC8 ∈ run.2) ∧
      s.fixups.chains.isNone ∧ s.fixups.errors.length = 2 ∧
      s.resolve 0xC4 0 = .ok (.symbol ⟨"_", 0, false, 0⟩) ∧
      s.resolve 0xC8 0 = .ok (.address 0x80000000) := by
  have h : (load halfRead none).map (fun s => decide (
      ((∃ c ∈ s.commands, ∃ run ∈ chainRun? s.reader s.segments c, 0xC4 ∈ run.2) ∧
        ∃ c ∈ s.commands, ∃ run ∈ bindRun? s.reader s.bits s.segments c, 0xC8 ∈ run.2) ∧
      OnlyFailed (chainRun? s.reader s.segments) s.commands 0xC4 ∧
      OnlyFailed (chainRun? s.reader s.segments) s.commands 0xC8 ∧
      OnlyFailed (bindRun? s.reader s.bits s.segments) s.commands 0xC8 ∧
      (lastOf (chainRead? s.reader s.segments) s.commands).isNone ∧
      (s.commands.filterMap (failure? s.reader s.bits s.segments)).length = 2 ∧
      Fixups.resolve { binds := (lastOf (bindRead? s.reader s.bits s.segments) s.commands).getD ∅ }
        s.reader s.bits 0xC4 0 = .ok (.symbol ⟨"_", 0, false, 0⟩) ∧
      s.reader.pointer s.bits 0xC8 = .ok 0x80000000)) = .ok true := by
    decide +kernel
  obtain ⟨s, hload, h⟩ := map_eq_ok.1 h
  obtain ⟨hentered, hfirst, hsecond, hbinds, hnone, herrors, hbound, hword⟩ := of_decide_eq_true h
  obtain ⟨hc, -, he, -, hresolve⟩ := kept_tables_of_load hload
  refine ⟨s, hload, hentered, hc ▸ hnone, he ▸ herrors, ?_, ?_⟩
  · rw [(hresolve 0xC4 0).2.1 hfirst, hbound]
  · rw [(hresolve 0xC8 0).2.2.2 hsecond hbinds, hword]
    rfl

end Slice

end ObjcAtlas
