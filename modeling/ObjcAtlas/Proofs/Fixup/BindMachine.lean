import Mathlib.Algebra.Ring.Nat
import Mathlib.Logic.Function.Basic
import ObjcAtlas.Fixup.Bind
import ObjcAtlas.Proofs.Image.Leb128
import ObjcAtlas.Proofs.Result

set_option autoImplicit false

/-!
# Bind programs as instructions

An abstract machine with nine instructions and a table of slots says what a bind program means.
Each opcode stands for a few instructions: those that bind also move on, and one of them repeats
this. `read_eq_execute` says that the bytes of a strong and a weak program, read one after the
other, do what the machine does with their instructions: they fail where it fails, and else leave
the same slots.

Numbers in the bytes may be spelled with groups to spare. Nothing is said of bytes that are not the
code of a program.
-/
namespace ObjcAtlas

structure BindMachine where
  ordinal : Int32
  symbol : String := ""
  flags : Nat := 0
  addend : Int64 := 0
  segment : Option Segment := none
  offset : UInt64 := 0
  slots : Nat → Option BindTarget

inductive BindInstruction where
  | setOrdinal (ordinal : UInt64)
  | setSpecialOrdinal (operand : Fin 16)
  | setSymbol (flags : Fin 16) (name : String)
  | setType (kind : Fin 16)
  | setAddend (addend : Int64)
  | setSegment (index : Fin 16) (offset : UInt64)
  | addAddress (distance : UInt64)
  | bind
  | done
deriving DecidableEq

namespace BindMachine

/-- Bit of the symbol flags: the symbol may be absent. -/
def weakImportBit : Nat := 0

/-- Bit of the symbol flags: a definition that is not weak exists, and there is nothing to bind. -/
def nonWeakDefinitionBit : Nat := 3

def initial (weak : Bool) (slots : Nat → Option BindTarget) : BindMachine where
  ordinal := if weak then -3 else 0
  slots := slots

def bind (m : BindMachine) : Option BindMachine :=
  m.segment.bind fun s =>
    if s.fileSize ≤ m.offset then none
    else if m.flags.testBit nonWeakDefinitionBit then some m
    else
      let target : BindTarget :=
        ⟨m.symbol, m.ordinal, m.flags.testBit weakImportBit, m.addend⟩
      some { m with
        slots := Function.update m.slots (s.fileOffset.toNat + m.offset.toNat) (some target) }

/-- Carries out one instruction; `none` when it fails. -/
def step (segments : List Segment) (m : BindMachine) : BindInstruction → Option BindMachine
  | .setOrdinal n => some { m with ordinal := Int32.ofNat n.toNat }
  | .setSpecialOrdinal n =>
    some { m with ordinal := if n = 0 then 0 else Int32.ofInt (n.val - 16) }
  | .setSymbol flags name => some { m with symbol := name, flags := flags.val }
  | .setType _ => some m
  | .setAddend n => some { m with addend := n }
  | .setSegment index offset =>
    segments[index.val]?.map fun s => { m with segment := some s, offset := offset }
  | .addAddress distance => some { m with offset := m.offset + distance }
  | .bind => m.bind
  | .done => some m

/-- The slots after the instructions; `done` ends a strong program early. -/
def execute (segments : List Segment) (weak : Bool) :
    List BindInstruction → BindMachine → Option (Nat → Option BindTarget)
  | [], m => some m.slots
  | i :: is, m =>
    if i = .done ∧ weak = false then some m.slots
    else (m.step segments i).bind (execute segments weak is)

end BindMachine

/-- A text that ends at its zero byte and not before. -/
abbrev ZeroFree := { s : String // '\x00' ∉ s.toList }

inductive BindOpcode where
  | done
  | setOrdinal (ordinal : Fin 16)
  | setOrdinalUleb (ordinal : Uleb)
  | setSpecialOrdinal (operand : Fin 16)
  | setSymbol (flags : Fin 16) (name : ZeroFree)
  | setType (kind : Fin 16)
  | setAddend (addend : Sleb)
  | setSegment (index : Fin 16) (offset : Uleb)
  | addAddress (distance : Uleb)
  | doBind
  | doBindAddAddress (distance : Uleb)
  | doBindScaled (count : Fin 16)
  | doBindTimes (count skip : Uleb)

namespace BindOpcode

def code : BindOpcode → Nat
  | .done => 0x0
  | .setOrdinal _ => 0x1
  | .setOrdinalUleb _ => 0x2
  | .setSpecialOrdinal _ => 0x3
  | .setSymbol .. => 0x4
  | .setType _ => 0x5
  | .setAddend _ => 0x6
  | .setSegment .. => 0x7
  | .addAddress _ => 0x8
  | .doBind => 0x9
  | .doBindAddAddress _ => 0xA
  | .doBindScaled _ => 0xB
  | .doBindTimes .. => 0xC

def operand : BindOpcode → Fin 16
  | .setOrdinal n | .setSpecialOrdinal n | .setType n | .doBindScaled n => n
  | .setSymbol flags _ => flags
  | .setSegment index _ => index
  | _ => 0

def rest : BindOpcode → List UInt8
  | .setOrdinalUleb n | .addAddress n | .doBindAddAddress n => n.bytes
  | .setSymbol _ name => Bytes.cstring name.val
  | .setAddend n => n.bytes
  | .setSegment _ offset => offset.bytes
  | .doBindTimes count skip => count.bytes ++ skip.bytes
  | _ => []

def lead (op : BindOpcode) : Nat := 16 * op.code + op.operand.val

def encode (op : BindOpcode) : List UInt8 := UInt8.ofNat op.lead :: op.rest

/-- What an opcode stands for in an image with pointers of this size. -/
def expand (pointer : UInt64) : BindOpcode → List BindInstruction
  | .done => [.done]
  | .setOrdinal n => [.setOrdinal (UInt64.ofNat n.val)]
  | .setOrdinalUleb n => [.setOrdinal n.value]
  | .setSpecialOrdinal n => [.setSpecialOrdinal n]
  | .setSymbol flags name => [.setSymbol flags name.val]
  | .setType kind => [.setType kind]
  | .setAddend n => [.setAddend n.value]
  | .setSegment index offset => [.setSegment index offset.value]
  | .addAddress n => [.addAddress n.value]
  | .doBind => [.bind, .addAddress pointer]
  | .doBindAddAddress n => [.bind, .addAddress (n.value + pointer)]
  | .doBindScaled n => [.bind, .addAddress (UInt64.ofNat n.val * pointer + pointer)]
  | .doBindTimes count skip =>
    (List.replicate count.value.toNat
      [BindInstruction.bind, .addAddress (skip.value + pointer)]).flatten

def encodeAll (program : List BindOpcode) : List UInt8 := program.flatMap encode

def expandAll (pointer : UInt64) (program : List BindOpcode) : List BindInstruction :=
  program.flatMap (expand pointer)

theorem code_lt (op : BindOpcode) : op.code < 16 := by
  cases op <;> simp [code]

theorem lead_lt (op : BindOpcode) : op.lead < 256 := by
  have hcode := op.code_lt
  have hoperand := op.operand.isLt
  rw [lead]
  omega

theorem lead_div (op : BindOpcode) : op.lead / 16 = op.code := by
  have hoperand := op.operand.isLt
  rw [lead]
  omega

theorem lead_mod (op : BindOpcode) : op.lead % 16 = op.operand.val := by
  have hoperand := op.operand.isLt
  rw [lead]
  omega

end BindOpcode

def BindMachine.executeBoth (segments : List Segment) (bits : Bitness)
    (strong weak : List BindOpcode) : Option (Nat → Option BindTarget) :=
  let pointer := UInt64.ofNat bits.pointerSize
  (execute segments false (BindOpcode.expandAll pointer strong) (initial false fun _ => none)).bind
    fun slots =>
      execute segments true (BindOpcode.expandAll pointer weak) (initial true slots)

def BindTable.slots (table : BindTable) (offset : Nat) : Option BindTarget := table[offset]?

theorem BindTable.slots_insert (table : BindTable) (offset : Nat) (target : BindTarget) :
    BindTable.slots (table.insert offset target) =
      Function.update table.slots offset (some target) := by
  funext place
  simp only [slots, Std.TreeMap.getElem?_insert, Function.update_apply, compare_eq_iff_eq,
    eq_comm (a := offset)]

namespace BindMachine

theorem bind_of_outside {m : BindMachine} {s : Segment} (hs : m.segment = some s)
    (h : s.fileSize ≤ m.offset) : m.bind = none := by
  rw [bind, hs, Option.bind_some, if_pos h]

theorem bind_of_flag {m : BindMachine} {s : Segment} (hs : m.segment = some s)
    (h : ¬ s.fileSize ≤ m.offset) (hf : m.flags.testBit nonWeakDefinitionBit = true) :
    m.bind = some m := by
  rw [bind, hs, Option.bind_some, if_neg h, if_pos hf]

theorem bind_of_inside {m : BindMachine} {s : Segment} (hs : m.segment = some s)
    (h : ¬ s.fileSize ≤ m.offset) (hf : ¬ m.flags.testBit nonWeakDefinitionBit = true) :
    m.bind = some { m with
      slots := Function.update m.slots (s.fileOffset.toNat + m.offset.toNat)
        (some ⟨m.symbol, m.ordinal, m.flags.testBit weakImportBit, m.addend⟩) } := by
  rw [bind, hs, Option.bind_some, if_neg h, if_neg hf]

def steps (segments : List Segment) (m : BindMachine) (is : List BindInstruction) :
    Option BindMachine :=
  is.foldlM (step segments) m

theorem steps_append (segments : List Segment) (m : BindMachine)
    (is more : List BindInstruction) :
    m.steps segments (is ++ more) = (m.steps segments is).bind (·.steps segments more) :=
  List.foldlM_append

theorem execute_append {segments : List Segment} {weak : Bool} {is more : List BindInstruction}
    (h : .done ∉ is) (m : BindMachine) :
    execute segments weak (is ++ more) m =
      (m.steps segments is).bind (execute segments weak more) := by
  induction is generalizing m with
  | nil => rfl
  | cons i is ih =>
    rw [List.mem_cons, not_or] at h
    have hi : ¬ (i = .done ∧ weak = false) := fun hdone => h.1 hdone.1.symm
    rw [List.cons_append, execute, if_neg hi, steps, List.foldlM_cons]
    cases hstep : m.step segments i with
    | none => rfl
    | some m' => exact ih h.2 m'

end BindMachine

namespace BindState

def machine (s : BindState) (table : BindTable) : BindMachine where
  ordinal := s.ordinal
  symbol := s.symbol
  flags := s.flags
  addend := s.addend
  segment := s.segment
  offset := s.offset
  slots := table.slots

theorem isAnnouncement_eq (s : BindState) :
    s.isAnnouncement = s.flags.testBit BindMachine.nonWeakDefinitionBit := by
  rw [Nat.testBit_eq_decide_div_mod_eq]
  rfl

theorem isWeakImport_eq (s : BindState) :
    s.isWeakImport = s.flags.testBit BindMachine.weakImportBit := by
  rw [Nat.testBit_eq_decide_div_mod_eq, BindMachine.weakImportBit, Nat.pow_zero, Nat.div_one]
  rfl

theorem bind_machine (s : BindState) (pc : Nat) (table : BindTable) :
    (s.bind pc table).toOption.map s.machine = (s.machine table).bind := by
  cases hs : s.segment with
  | none => simp [bind, BindMachine.bind, machine, hs, Except.toOption]
  | some segment =>
    have hm : (s.machine table).segment = some segment := hs
    simp only [bind, hs, isAnnouncement_eq]
    by_cases houtside : segment.fileSize ≤ s.offset
    · rw [if_pos houtside, BindMachine.bind_of_outside hm houtside]
      rfl
    by_cases hflag : s.flags.testBit BindMachine.nonWeakDefinitionBit = true
    · rw [if_neg houtside, if_pos hflag, BindMachine.bind_of_flag hm houtside hflag]
      rfl
    · rw [if_neg houtside, if_neg hflag, BindMachine.bind_of_inside hm houtside hflag]
      simp only [Except.toOption, Option.map_some, machine, BindTable.slots_insert, target,
        isWeakImport_eq]

theorem bind_advance_machine (segments : List Segment) (distance : UInt64) (pc : Nat)
    (s : BindState) (table : BindTable) :
    (s.bind pc table).toOption.map (s.advance distance).machine =
      (s.machine table).steps segments [.bind, .addAddress distance] := by
  change _ = (s.machine table).bind.bind fun m =>
    (m.step segments (.addAddress distance)).bind some
  rw [← s.bind_machine pc table]
  cases s.bind pc table <;> rfl

theorem bindTimes_machine (segments : List Segment) (distance : UInt64) (pc count : Nat)
    (s : BindState) (table : BindTable) :
    (bindTimes distance pc count s table).toOption.map (fun r => r.1.machine r.2) =
      (s.machine table).steps segments
        (List.replicate count [BindInstruction.bind, .addAddress distance]).flatten := by
  induction count generalizing s table with
  | zero => rfl
  | succ count ih =>
    rw [bindTimes, List.replicate_succ, List.flatten_cons, BindMachine.steps_append,
      ← bind_advance_machine segments distance pc s table]
    cases s.bind pc table with
    | error e => rfl
    | ok table' => exact ih (s.advance distance) table'

end BindState

/-- How the machine sees an instruction of the interpreter: where the next one is and what the
    registers are, or the end. -/
def BindStep.view : BindStep → Option (Nat × BindMachine)
  | .done _ => none
  | .next pc s table => some (pc, s.machine table)

namespace BindProgram

variable {p : BindProgram} {pc : Nat}

theorem step_machine {op : BindOpcode} (hop : op ≠ .done)
    (h : p.code.Has pc op.rest) (s : BindState) (table : BindTable) :
    (p.step op.lead pc s table).toOption.map BindStep.view =
      ((s.machine table).steps p.segments (op.expand p.pointerSize)).map fun m =>
        some (pc + op.rest.length, m) := by
  simp only [step, op.lead_div, op.lead_mod]
  cases op with
  | done => exact absurd rfl hop
  | setOrdinal n =>
    have hn : (UInt64.ofNat n.val).toNat = n.val := by
      rw [UInt64.toNat_ofNat']
      omega
    simp only [BindOpcode.expand, BindMachine.steps, List.foldlM_cons, BindMachine.step, hn]
    rfl
  | setOrdinalUleb n =>
    have hread : p.code.uleb pc = .ok (n.value, n.bytes.length) := Reader.Has.uleb h
    simp only [BindOpcode.code, hread]
    rfl
  | setSpecialOrdinal n =>
    have hn : specialOrdinal n.val = if n = 0 then 0 else Int32.ofInt (n.val - 16) :=
      if_congr (Fin.ext_iff (b := 0)).symm rfl rfl
    simp only [BindOpcode.code, BindOpcode.operand, hn]
    rfl
  | setSymbol flags name =>
    have hread : p.code.cstring pc = .ok name.val := Reader.Has.cstring h name.property
    have hlength : (Bytes.cstring name.val).length = name.val.utf8ByteSize + 1 := by
      rw [Bytes.cstring, List.length_append, Utf8.length_encode, List.length_singleton]
    simp only [BindOpcode.code, BindOpcode.operand, BindOpcode.rest, hread, hlength]
    rfl
  | setType kind => rfl
  | setAddend n =>
    have hread : p.code.sleb pc = .ok (n.value, n.bytes.length) := Reader.Has.sleb h
    simp only [BindOpcode.code, hread]
    rfl
  | setSegment index offset =>
    have hread : p.code.uleb pc = .ok (offset.value, offset.bytes.length) := Reader.Has.uleb h
    simp only [BindOpcode.code, BindOpcode.operand, hread, BindOpcode.expand, BindMachine.steps,
      List.foldlM_cons, BindMachine.step]
    cases p.segments[index.val]? <;> rfl
  | addAddress n =>
    have hread : p.code.uleb pc = .ok (n.value, n.bytes.length) := Reader.Has.uleb h
    simp only [BindOpcode.code, hread]
    rfl
  | doBind =>
    simp only [BindOpcode.code, BindOpcode.expand]
    rw [← BindState.bind_advance_machine p.segments p.pointerSize pc s table]
    cases s.bind pc table <;> rfl
  | doBindAddAddress n =>
    have hread : p.code.uleb pc = .ok (n.value, n.bytes.length) := Reader.Has.uleb h
    simp only [BindOpcode.code, BindOpcode.expand, hread]
    rw [← BindState.bind_advance_machine p.segments _ pc s table]
    cases s.bind pc table <;> rfl
  | doBindScaled n =>
    simp only [BindOpcode.code, BindOpcode.expand, BindOpcode.operand]
    rw [← BindState.bind_advance_machine p.segments _ pc s table]
    cases s.bind pc table <;> rfl
  | doBindTimes count skip =>
    have hcount : p.code.uleb pc = .ok (count.value, count.bytes.length) :=
      Reader.Has.uleb (Holds.append_left h)
    have hskip : p.code.uleb (pc + count.bytes.length) = .ok (skip.value, skip.bytes.length) :=
      Reader.Has.uleb (Holds.append_right h)
    simp only [BindOpcode.code, BindOpcode.expand, BindOpcode.rest, hcount, hskip, bind,
      Except.bind, List.length_append, ← Nat.add_assoc]
    rw [← BindState.bindTimes_machine p.segments _ (pc + count.bytes.length + skip.bytes.length)]
    cases BindState.bindTimes (skip.value + p.pointerSize)
      (pc + count.bytes.length + skip.bytes.length) count.value.toNat s table <;> rfl

end BindProgram

theorem BindOpcode.done_not_mem_expand {op : BindOpcode} (h : op ≠ .done) (pointer : UInt64) :
    .done ∉ op.expand pointer := by
  cases op with
  | done => exact absurd rfl h
  | doBindTimes count skip =>
    simp only [expand, List.mem_flatten, List.mem_replicate]
    rintro ⟨is, ⟨-, rfl⟩, hdone⟩
    simp at hdone
  | _ => simp [expand]

namespace BindProgram

variable {p : BindProgram} {pc : Nat}

theorem step_cases {op : BindOpcode} (hop : op ≠ .done) (h : p.code.Has pc op.rest)
    (s : BindState) (table : BindTable) :
    (∃ e, p.step op.lead pc s table = .error e ∧
      (s.machine table).steps p.segments (op.expand p.pointerSize) = none) ∨
    ∃ s' table', p.step op.lead pc s table = .ok (.next (pc + op.rest.length) s' table') ∧
      (s.machine table).steps p.segments (op.expand p.pointerSize) = some (s'.machine table') := by
  have hstep := step_machine hop h s table
  cases hsteps : (s.machine table).steps p.segments (op.expand p.pointerSize) with
  | none =>
    rw [hsteps] at hstep
    cases hres : p.step op.lead pc s table with
    | error e => exact .inl ⟨e, rfl, rfl⟩
    | ok r =>
      rw [hres] at hstep
      exact absurd hstep nofun
  | some m =>
    rw [hsteps] at hstep
    rcases hres : p.step op.lead pc s table with e | r
    · rw [hres] at hstep
      exact absurd hstep nofun
    · rw [hres] at hstep
      cases r with
      | done table' => exact absurd hstep nofun
      | next pc' s' table' =>
        obtain ⟨rfl, rfl⟩ := Prod.mk.inj (Option.some.inj (Option.some.inj hstep))
        exact .inr ⟨s', table', rfl, rfl⟩

theorem runFrom_byte {lead : Nat} {part : List UInt8} (hlead : lead < 256)
    (h : p.code.Has pc (UInt8.ofNat lead :: part)) (fuel : Nat) (s : BindState)
    (table : BindTable) :
    p.runFrom (fuel + 1) pc s table =
      (p.step lead (pc + 1) s table >>= fun
        | .done table => .ok table
        | .next pc s table => p.runFrom fuel pc s table) := by
  have hpc : pc < p.code.size := by
    have := h.length_le
    rw [← Reader.size_eq_length, List.length_cons] at this
    omega
  rw [runFrom, if_pos hpc, h.u8]
  change p.step (UInt8.ofNat lead).toNat (pc + 1) s table >>= _ = _
  rw [Leb.toNat_byte hlead]
  rfl

theorem runFrom_machine {program : List BindOpcode} {fuel : Nat}
    (h : p.code.Has pc (BindOpcode.encodeAll program))
    (hend : pc + (BindOpcode.encodeAll program).length = p.code.size)
    (hfuel : (BindOpcode.encodeAll program).length ≤ fuel) (s : BindState) (table : BindTable) :
    (p.runFrom fuel pc s table).toOption.map BindTable.slots =
      BindMachine.execute p.segments p.weak (BindOpcode.expandAll p.pointerSize program)
        (s.machine table) := by
  induction program generalizing fuel pc s table with
  | nil =>
    have hpc : ¬ pc < p.code.size := by
      rw [← hend]
      exact Nat.lt_irrefl _
    cases fuel with
    | zero => rfl
    | succ fuel =>
      rw [runFrom, if_neg hpc]
      rfl
  | cons op program ih =>
    have hbytes : p.code.Has pc
        (UInt8.ofNat op.lead :: (op.rest ++ BindOpcode.encodeAll program)) := h
    have hlength : (BindOpcode.encodeAll (op :: program)).length =
        op.rest.length + 1 + (BindOpcode.encodeAll program).length := List.length_append
    have hrest : p.code.Has (pc + 1) (op.rest ++ BindOpcode.encodeAll program) :=
      Reader.Has.tail hbytes
    have hexpand : BindOpcode.expandAll p.pointerSize (op :: program) =
        op.expand p.pointerSize ++ BindOpcode.expandAll p.pointerSize program := rfl
    rw [hlength] at hend hfuel
    obtain ⟨fuel, rfl⟩ : ∃ left, fuel = left + 1 := ⟨fuel - 1, by omega⟩
    rw [runFrom_byte op.lead_lt hbytes, hexpand]
    -- What is left to run behind the opcode.
    have hnext : ∀ s table, (p.runFrom fuel (pc + 1 + op.rest.length) s table).toOption.map
        BindTable.slots = BindMachine.execute p.segments p.weak
          (BindOpcode.expandAll p.pointerSize program) (s.machine table) :=
      ih hrest.append_right (by omega) (by omega)
    by_cases hop : op = .done
    · subst hop
      have hstep : p.step BindOpcode.done.lead (pc + 1) s table =
          .ok (if p.weak then .next (pc + 1) s table else .done table) := rfl
      rw [hstep]
      cases hweak : p.weak with
      | false => rfl
      | true =>
        rw [hweak] at hnext
        exact hnext s table
    · rw [BindMachine.execute_append (op.done_not_mem_expand hop _)]
      rcases step_cases hop hrest.append_left s table with ⟨e, hstep, hsteps⟩ |
        ⟨s', table', hstep, hsteps⟩
      · rw [hstep, hsteps]
        rfl
      · rw [hstep, hsteps]
        exact hnext s' table'

theorem run_machine {program : List BindOpcode} {order : ByteOrder}
    (h : p.code = .ofList order (BindOpcode.encodeAll program)) (table : BindTable) :
    (p.run table).toOption.map BindTable.slots =
      BindMachine.execute p.segments p.weak (BindOpcode.expandAll p.pointerSize program)
        (.initial p.weak table.slots) := by
  have hsize : p.code.size = (BindOpcode.encodeAll program).length := by
    rw [h]
    rfl
  have hcode : p.code.Has 0 (BindOpcode.encodeAll program) := by
    rw [h]
    exact Holds.self _
  exact runFrom_machine hcode (by omega) (by omega) (.initial p.weak) table

end BindProgram

/-- The range of the file holds these bytes; an empty range may stand anywhere. -/
def FileRange.Holds (range : FileRange) (image : Reader) (bytes : List UInt8) : Prop :=
  range.size.toNat = bytes.length ∧ (bytes ≠ [] → image.Has range.offset.toNat bytes)

namespace BindTable

variable {image : Reader}

theorem runRange_of_holds {range : FileRange} {bytes : List UInt8} (h : range.Holds image bytes)
    (segments : List Segment) (bits : Bitness) (weak : Bool) (table : BindTable) :
    runRange image segments bits weak range table =
      BindProgram.run ⟨.ofList image.order bytes, segments, bits, weak⟩ table := by
  obtain ⟨hsize, hbytes⟩ := h
  by_cases hzero : range.size = 0
  · have hnil : bytes = [] := by
      rw [hzero] at hsize
      exact List.length_eq_zero_iff.1 hsize.symm
    subst hnil
    rw [runRange, if_pos hzero]
    rfl
  · have hsome : bytes ≠ [] := by
      rintro rfl
      exact hzero (UInt32.toNat.inj hsize)
    rw [runRange, if_neg hzero, hsize, (hbytes hsome).sub]
    rfl

theorem runRange_machine {range : FileRange} {program : List BindOpcode}
    (h : range.Holds image (BindOpcode.encodeAll program)) (segments : List Segment)
    (bits : Bitness) (weak : Bool) (table : BindTable) :
    (runRange image segments bits weak range table).toOption.map slots =
      BindMachine.execute segments weak
        (BindOpcode.expandAll (UInt64.ofNat bits.pointerSize) program)
        (.initial weak table.slots) := by
  rw [runRange_of_holds h]
  exact BindProgram.run_machine (p := ⟨_, segments, bits, weak⟩) rfl table

/-- Reading the two programs of an image gives the slots that the machine binds, and fails where
    the machine does. -/
theorem read_eq_execute {bind weakBind : FileRange} {strong weak : List BindOpcode}
    (hstrong : bind.Holds image (BindOpcode.encodeAll strong))
    (hweak : weakBind.Holds image (BindOpcode.encodeAll weak)) (segments : List Segment)
    (bits : Bitness) :
    (read image bind weakBind segments bits).toOption.map slots =
      BindMachine.executeBoth segments bits strong weak := by
  have hfirst := runRange_machine hstrong segments bits false ∅
  have hempty : slots ∅ = fun _ => none := by
    funext offset
    exact Std.TreeMap.getElem?_emptyc
  rw [hempty] at hfirst
  rw [read, BindMachine.executeBoth, ← hfirst]
  cases runRange image segments bits false bind ∅ with
  | error e => rfl
  | ok table => exact runRange_machine hweak segments bits true table

/-- Three slots, a fourth with an addend, and what is not reached behind the end. -/
def sampleStrong : List BindOpcode :=
  [.setOrdinalUleb (.ofWord 300), .setSymbol 0 ⟨"_größe", by decide⟩,
    .setSegment 0 ⟨[0x90, 0x80, 0x00], by decide, by decide, by decide⟩,
    .doBindTimes (.ofWord 3) (.ofWord 8), .setAddend (.ofWord (-4)), .doBind, .done,
    .setSegment 9 (.ofWord 0)]

/-- Binds the second of these slots anew, behind a `done` that ends nothing, and then a symbol that
    is only announced. -/
def sampleWeak : List BindOpcode :=
  [.setSymbol 1 ⟨"_weak", by decide⟩, .done, .setSegment 0 (.ofWord 0x20), .doBind,
    .setSymbol 8 ⟨"_strong", by decide⟩, .doBind]

def sampleSegment : Segment :=
  ⟨"__DATA", 0x100004000, 0x1000, 0x4000, 0x1000, 3, 3, 0, []⟩

def sampleImage : Reader :=
  .ofList .little (BindOpcode.encodeAll sampleStrong ++ BindOpcode.encodeAll sampleWeak)

theorem read_eq_execute_sample :
    ∃ table, read sampleImage ⟨0, 26⟩ ⟨26, 21⟩ [sampleSegment] .bits64 = .ok table ∧
      table.slots 0x4010 = some ⟨"_größe", 300, false, 0⟩ ∧
      table.slots 0x4020 = some ⟨"_weak", -3, true, 0⟩ ∧
      table.slots 0x4028 = none ∧
      table.slots 0x4040 = some ⟨"_größe", 300, false, -4⟩ := by
  have hstrong : FileRange.Holds ⟨0, 26⟩ sampleImage (BindOpcode.encodeAll sampleStrong) :=
    ⟨by decide, fun _ => ⟨[], BindOpcode.encodeAll sampleWeak, rfl, rfl⟩⟩
  have hweak : FileRange.Holds ⟨26, 21⟩ sampleImage (BindOpcode.encodeAll sampleWeak) :=
    ⟨by decide, fun _ => ⟨BindOpcode.encodeAll sampleStrong, [], by simp; rfl, by decide⟩⟩
  have hboth := read_eq_execute hstrong hweak [sampleSegment] .bits64
  have hslots : (BindMachine.executeBoth [sampleSegment] .bits64 sampleStrong sampleWeak).map
      (fun slots => (slots 0x4010, slots 0x4020, slots 0x4028, slots 0x4040)) =
        some (some ⟨"_größe", 300, false, 0⟩, some ⟨"_weak", -3, true, 0⟩, none,
          some ⟨"_größe", 300, false, -4⟩) := by
    decide +kernel
  rw [← hboth] at hslots
  cases hread : read sampleImage ⟨0, 26⟩ ⟨26, 21⟩ [sampleSegment] .bits64 with
  | error e =>
    rw [hread] at hslots
    exact absurd hslots nofun
  | ok table =>
    rw [hread] at hslots
    simpa [Except.toOption] using hslots

end BindTable

end ObjcAtlas
