import Mathlib.Data.List.Forall2
import ObjcAtlas.Proofs.Fixup.BindMachine
import ObjcAtlas.Proofs.Text.Lossy

set_option autoImplicit false

/-!
# Symbol names in bind programs

A bind program gives its symbols as bytes, which need not be text. What a program binds, and
whether it fails, should not depend on them. Two programs that differ in names of the same length
run in step as long as these keep their length when they are read as text. The interpreter moves on
by the length of the text, so a name that becomes longer takes what stands behind it along.
-/
namespace ObjcAtlas

theorem Reader.Has.cstringBytes {r : Reader} {offset : Nat} {name : List UInt8}
    (h : r.Has offset (name ++ [0])) (hz : 0 ∉ name) :
    r.cstring offset = .ok (Utf8.decodeLossy name) := by
  have hlen := h.length_le
  rw [List.length_append, List.length_singleton, ← Reader.size_eq_length] at hlen
  have hname : r.Has offset name := h.append_left
  have hs := hname.slice
  rw [Reader.slice, if_pos (by omega)] at hs
  rw [Reader.cstring, Reader.untilZero, if_neg (by omega), h.zeroFrom hz (by omega)]
  simp only [Except.ok.inj hs]
  rfl

def BindTarget.anonymous (t : BindTarget) : BindTarget := { t with symbol := "" }

def anonymousSlots (slots : Nat → Option BindTarget) : Nat → Option BindTarget :=
  fun offset => (slots offset).map BindTarget.anonymous

theorem anonymousSlots_update (slots : Nat → Option BindTarget) (offset : Nat) (t : BindTarget) :
    anonymousSlots (Function.update slots offset (some t)) =
      Function.update (anonymousSlots slots) offset (some t.anonymous) := by
  funext place
  by_cases h : place = offset
  · subst h
    simp [anonymousSlots]
  · simp [anonymousSlots, h]

/-- What a table binds, with everything but the names. -/
def BindTable.bound (table : BindTable) : Nat → Option BindTarget := anonymousSlots table.slots

namespace BindMachine

variable {m m' : BindMachine}

def anonymous (m : BindMachine) : BindMachine :=
  { m with symbol := "", slots := anonymousSlots m.slots }

theorem bind_anonymous (m : BindMachine) : m.bind.map anonymous = m.anonymous.bind := by
  cases hs : m.segment with
  | none => simp [bind, anonymous, hs]
  | some s =>
    have hs' : m.anonymous.segment = some s := hs
    by_cases houtside : s.fileSize ≤ m.offset
    · rw [bind_of_outside hs houtside, bind_of_outside hs' houtside]
      rfl
    by_cases hflag : m.flags.testBit nonWeakDefinitionBit = true
    · rw [bind_of_flag hs houtside hflag, bind_of_flag hs' houtside hflag]
      rfl
    · rw [bind_of_inside hs houtside hflag, bind_of_inside hs' houtside hflag, Option.map_some]
      simp only [anonymous, anonymousSlots_update]
      rfl

theorem step_alike (h : m.anonymous = m'.anonymous) (segments : List Segment)
    (i : BindInstruction) :
    (m.step segments i).map anonymous = (m'.step segments i).map anonymous := by
  cases i with
  | bind =>
    change m.bind.map anonymous = m'.bind.map anonymous
    rw [bind_anonymous, bind_anonymous, h]
  | setOrdinal n => exact congrArg (fun m => some { m with ordinal := Int32.ofNat n.toNat }) h
  | setSpecialOrdinal n =>
    exact congrArg
      (fun m => some { m with ordinal := if n = 0 then 0 else Int32.ofInt (n.val - 16) }) h
  | setSymbol flags name => exact congrArg (fun m => some { m with flags := flags.val }) h
  | setAddend n => exact congrArg (fun m => some { m with addend := n }) h
  | setSegment index offset =>
    simp only [step]
    cases segments[index.val]? with
    | none => rfl
    | some s => exact congrArg (fun m => some { m with segment := some s, offset := offset }) h
  | addAddress distance =>
    exact congrArg (fun m => some { m with offset := m.offset + distance }) h
  | setType kind => exact congrArg some h
  | done => exact congrArg some h

/-- The machine never looks at a name. -/
theorem steps_alike (h : m.anonymous = m'.anonymous) (segments : List Segment)
    (is : List BindInstruction) :
    (m.steps segments is).map anonymous = (m'.steps segments is).map anonymous := by
  induction is generalizing m m' with
  | nil => exact congrArg some h
  | cons i is ih =>
    have hstep := step_alike h segments i
    simp only [steps, List.foldlM_cons] at ih ⊢
    cases hm : m.step segments i with
    | none =>
      rw [hm, Option.map_none, eq_comm, Option.map_eq_none_iff] at hstep
      rw [hstep]
    | some n =>
      rw [hm, Option.map_some, eq_comm, Option.map_eq_some_iff] at hstep
      obtain ⟨n', hn', halike⟩ := hstep
      rw [hn']
      exact ih halike.symm

end BindMachine

abbrev RawName := { bytes : List UInt8 // 0 ∉ bytes }

namespace RawName

def text (name : RawName) : String := Utf8.decodeLossy name.val

/-- Read as text, the name takes as many bytes as it has. -/
def KeepsLength (name : RawName) : Prop := name.text.utf8ByteSize = name.val.length

instance (name : RawName) : Decidable name.KeepsLength := inferInstanceAs (Decidable (_ = _))

def ofText (name : ZeroFree) : RawName :=
  ⟨Utf8.encode name.val, Utf8.zero_not_mem_encode name.property⟩

theorem keepsLength_ofText (name : ZeroFree) : (ofText name).KeepsLength := by
  change (Utf8.decodeLossy (Utf8.encode name.val)).utf8ByteSize = (Utf8.encode name.val).length
  rw [Utf8.decodeLossy_encode, Utf8.length_encode]

theorem length_lt_of_not_keepsLength {name : RawName} (h : ¬ name.KeepsLength) :
    name.val.length < name.text.utf8ByteSize :=
  Nat.lt_of_le_of_ne (Utf8.length_le_decodeLossy name.val) (Ne.symm h)

end RawName

inductive RawOpcode where
  | symbol (flags : Fin 16) (name : RawName)
  | other (op : BindOpcode) (h : op.code ≠ 0x4)
  /-- An opcode that no program may have, with whatever belongs to it. -/
  | refused (low : Fin 48) (operands : List UInt8)

namespace RawOpcode

def lead : RawOpcode → Nat
  | .symbol flags _ => 0x40 + flags.val
  | .other op _ => op.lead
  | .refused low _ => 0xD0 + low.val

def rest : RawOpcode → List UInt8
  | .symbol _ name => name.val ++ [0]
  | .other op _ => op.rest
  | .refused _ operands => operands

def encode (op : RawOpcode) : List UInt8 := UInt8.ofNat op.lead :: op.rest

def encodeAll (program : List RawOpcode) : List UInt8 := program.flatMap encode

def KeepsLength : RawOpcode → Prop
  | .symbol _ name => name.KeepsLength
  | _ => True

/-- The same opcode, but for another name of the same length. -/
inductive Renamed : RawOpcode → RawOpcode → Prop where
  | symbol (flags : Fin 16) (name name' : RawName) (h : name.val.length = name'.val.length) :
      Renamed (.symbol flags name) (.symbol flags name')
  | other (op : BindOpcode) (h : op.code ≠ 0x4) : Renamed (.other op h) (.other op h)
  | refused (low : Fin 48) (operands : List UInt8) :
      Renamed (.refused low operands) (.refused low operands)

theorem lead_lt (op : RawOpcode) : op.lead < 256 := by
  cases op with
  | symbol flags name =>
    rw [lead]
    omega
  | other op h => exact op.lead_lt
  | refused low operands =>
    rw [lead]
    omega

theorem Renamed.length_rest {op op' : RawOpcode} (h : Renamed op op') :
    op.rest.length = op'.rest.length := by
  cases h with
  | symbol flags name name' h => simp [rest, h]
  | other op h => rfl
  | refused low operands => rfl

theorem length_encode_symbol (flags : Fin 16) (name : RawName) :
    (encode (.symbol flags name)).length = name.val.length + 2 := by
  rw [encode, List.length_cons, rest, List.length_append]
  rfl

theorem length_encodeAll_cons (op : RawOpcode) (program : List RawOpcode) :
    (encodeAll (op :: program)).length = op.rest.length + 1 + (encodeAll program).length :=
  List.length_append

theorem length_encodeAll {program program' : List RawOpcode}
    (h : List.Forall₂ Renamed program program') :
    (encodeAll program).length = (encodeAll program').length := by
  induction h with
  | nil => rfl
  | cons hop _ ih => rw [length_encodeAll_cons, length_encodeAll_cons, hop.length_rest, ih]

end RawOpcode

/-- Both steps fail, or end with the same slots bound, or go on at `pc` with the same registers. -/
inductive BindStep.Alike (pc : Nat) :
    Except ImageError BindStep → Except ImageError BindStep → Prop where
  | error (e e' : ImageError) : Alike pc (.error e) (.error e')
  | done {table table' : BindTable} (h : table.bound = table'.bound) :
      Alike pc (.ok (.done table)) (.ok (.done table'))
  | next {s s' : BindState} {table table' : BindTable}
      (h : (s.machine table).anonymous = (s'.machine table').anonymous) :
      Alike pc (.ok (.next pc s table)) (.ok (.next pc s' table'))

theorem BindStep.Alike.bound_eq {pc : Nat} {r r' : Except ImageError BindStep}
    (h : Alike pc r r') {k k' : Nat → BindState → BindTable → Except ImageError BindTable}
    (hnext : ∀ {s s' table table'},
      (BindState.machine s table).anonymous = (BindState.machine s' table').anonymous →
        (k pc s table).toOption.map BindTable.bound =
          (k' pc s' table').toOption.map BindTable.bound) :
    (r >>= fun
      | .done table => .ok table
      | .next pc s table => k pc s table).toOption.map BindTable.bound =
    (r' >>= fun
      | .done table => .ok table
      | .next pc s table => k' pc s table).toOption.map BindTable.bound := by
  cases h with
  | error e e' => rfl
  | done hbound => exact congrArg some hbound
  | next hs => exact hnext hs

namespace BindProgram

variable {p : BindProgram} {code : Reader} {pc : Nat} {s s' : BindState} {table table' : BindTable}

theorem step_symbol {flags : Fin 16} {name : RawName} (h : p.code.Has pc (name.val ++ [0]))
    (s : BindState) (table : BindTable) :
    p.step (0x40 + flags.val) pc s table =
      .ok (.next (pc + name.text.utf8ByteSize + 1)
        { s with symbol := name.text, flags := flags.val } table) := by
  have hcode : (0x40 + flags.val) / 16 = 0x4 := by omega
  have hoperand : (0x40 + flags.val) % 16 = flags.val := by omega
  simp only [step, hcode, hoperand, h.cstringBytes name.property]
  rfl

theorem step_refused (low : Fin 48) (pc : Nat) (s : BindState) (table : BindTable) :
    ∃ e, p.step (0xD0 + low.val) pc s table = .error e := by
  have hcode : (0xD0 + low.val) / 16 = 0xD ∨ (0xD0 + low.val) / 16 = 0xE ∨
      (0xD0 + low.val) / 16 = 0xF := by omega
  rcases hcode with hcode | hcode | hcode
  all_goals
    simp only [step, hcode]
    exact ⟨_, rfl⟩

theorem step_done (p : BindProgram) (pc : Nat) (s : BindState) (table : BindTable) :
    p.step BindOpcode.done.lead pc s table =
      .ok (if p.weak then .next pc s table else .done table) := rfl

def withCode (p : BindProgram) (code : Reader) : BindProgram := { p with code }

theorem step_alike {op op' : RawOpcode} (hop : op.Renamed op') (hkeeps : op.KeepsLength)
    (hkeeps' : op'.KeepsLength) (h : p.code.Has pc op.rest) (h' : code.Has pc op'.rest)
    (hs : (s.machine table).anonymous = (s'.machine table').anonymous) :
    BindStep.Alike (pc + op.rest.length) (p.step op.lead pc s table)
      ((p.withCode code).step op'.lead pc s' table') := by
  cases hop with
  | symbol flags name name' hlength =>
    have hpc : pc + name.text.utf8ByteSize + 1 = pc + (name.val ++ [0]).length := by
      rw [show _ = _ from hkeeps, List.length_append, List.length_singleton, Nat.add_assoc]
    have hpc' : pc + name'.text.utf8ByteSize + 1 = pc + (name.val ++ [0]).length := by
      rw [← hpc, show _ = _ from hkeeps, show _ = _ from hkeeps', hlength]
    rw [RawOpcode.lead, step_symbol h, RawOpcode.lead, step_symbol h', hpc, hpc']
    exact .next (congrArg (fun m => { m with flags := flags.val }) hs)
  | other op hcode =>
    rw [RawOpcode.lead]
    by_cases hdone : op = .done
    · subst hdone
      rw [step_done, step_done, withCode]
      cases p.weak with
      | false => exact .done (congrArg BindMachine.slots hs)
      | true => exact .next hs
    · have hsteps : _ = ((s'.machine table').steps (p.withCode code).segments
          (op.expand (p.withCode code).pointerSize)).map BindMachine.anonymous :=
        BindMachine.steps_alike hs p.segments (op.expand p.pointerSize)
      rcases step_cases hdone h s table with ⟨e, hstep, hm⟩ | ⟨t, tab, hstep, hm⟩
      all_goals
        rcases step_cases (p := p.withCode code) hdone h' s' table' with
          ⟨e', hstep', hm'⟩ | ⟨t', tab', hstep', hm'⟩
        all_goals
          rw [hm, hm'] at hsteps
          rw [hstep, hstep']
      · exact .error e e'
      · exact absurd hsteps nofun
      · exact absurd hsteps nofun
      · exact .next (Option.some.inj hsteps)
  | refused low operands =>
    obtain ⟨e, he⟩ := step_refused low pc s table
    obtain ⟨e', he'⟩ := step_refused (p := p.withCode code) low pc s' table'
    rw [RawOpcode.lead, he, he']
    exact .error e e'

theorem runFrom_alike {program program' : List RawOpcode} {fuel : Nat}
    (hren : List.Forall₂ RawOpcode.Renamed program program')
    (hkeeps : ∀ op ∈ program, op.KeepsLength) (hkeeps' : ∀ op ∈ program', op.KeepsLength)
    (h : p.code.Has pc (RawOpcode.encodeAll program))
    (h' : code.Has pc (RawOpcode.encodeAll program'))
    (hend : pc + (RawOpcode.encodeAll program).length = p.code.size)
    (hsize : p.code.size = code.size)
    (hs : (s.machine table).anonymous = (s'.machine table').anonymous) :
    (p.runFrom fuel pc s table).toOption.map BindTable.bound =
      ((p.withCode code).runFrom fuel pc s' table').toOption.map BindTable.bound := by
  -- Both runs stand at the same byte whenever an opcode begins.
  induction fuel generalizing program program' pc s s' table table' with
  | zero =>
    rw [runFrom, runFrom]
    exact congrArg (some ∘ BindMachine.slots) hs
  | succ fuel ih =>
    cases hren with
    | nil =>
      have hpc : ¬ pc < p.code.size := by
        rw [← hend]
        exact Nat.lt_irrefl _
      have hpc' : ¬ pc < (p.withCode code).code.size := by rwa [hsize] at hpc
      rw [runFrom, if_neg hpc, runFrom, if_neg hpc']
      exact congrArg (some ∘ BindMachine.slots) hs
    | @cons op op' program program' hop hren =>
      have hbytes : p.code.Has pc
          (UInt8.ofNat op.lead :: (op.rest ++ RawOpcode.encodeAll program)) := h
      have hbytes' : code.Has pc
          (UInt8.ofNat op'.lead :: (op'.rest ++ RawOpcode.encodeAll program')) := h'
      have hrest := hbytes.tail
      have hrest' := hbytes'.tail
      obtain ⟨hkeep, hkeeps⟩ := List.forall_mem_cons.1 hkeeps
      obtain ⟨hkeep', hkeeps'⟩ := List.forall_mem_cons.1 hkeeps'
      have hstep := step_alike hop hkeep hkeep' hrest.append_left hrest'.append_left hs
      have hright := hrest'.append_right
      rw [← hop.length_rest] at hright
      rw [RawOpcode.length_encodeAll_cons] at hend
      rw [runFrom_byte op.lead_lt hbytes,
        runFrom_byte (p := p.withCode code) op'.lead_lt hbytes']
      exact hstep.bound_eq fun hnext =>
        ih hren hkeeps hkeeps' hrest.append_right hright (by omega) hnext

theorem run_alike {program program' : List RawOpcode} {order order' : ByteOrder}
    (hren : List.Forall₂ RawOpcode.Renamed program program')
    (hkeeps : ∀ op ∈ program, op.KeepsLength) (hkeeps' : ∀ op ∈ program', op.KeepsLength)
    (h : p.code = .ofList order (RawOpcode.encodeAll program))
    (h' : code = .ofList order' (RawOpcode.encodeAll program'))
    (hbound : table.bound = table'.bound) :
    (p.run table).toOption.map BindTable.bound =
      ((p.withCode code).run table').toOption.map BindTable.bound := by
  have hend : 0 + (RawOpcode.encodeAll program).length = p.code.size := by
    rw [h, Nat.zero_add, Reader.size_ofList]
  have hsize : p.code.size = code.size := by
    rw [h, h', Reader.size_ofList, Reader.size_ofList, RawOpcode.length_encodeAll hren]
  have hcode : p.code.Has 0 (RawOpcode.encodeAll program) := by
    rw [h]
    exact Holds.self _
  have hcode' : code.Has 0 (RawOpcode.encodeAll program') := by
    rw [h']
    exact Holds.self _
  rw [run, run, show (p.withCode code).code.size = p.code.size from hsize.symm]
  exact runFrom_alike hren hkeeps hkeeps' hcode hcode' hend hsize
    (congrArg (fun slots => { BindMachine.initial p.weak slots with slots }) hbound)

theorem run_symbol {flags : Fin 16} {name : RawName} {part : List UInt8} {order : ByteOrder}
    (h : p.code = .ofList order (RawOpcode.encode (.symbol flags name) ++ part))
    (table : BindTable) :
    p.run table = p.runFrom (name.val.length + 1 + part.length) (name.text.utf8ByteSize + 2)
      { BindState.initial p.weak with symbol := name.text, flags := flags.val } table := by
  have hcode : p.code.Has 0 (UInt8.ofNat (0x40 + flags.val) :: ((name.val ++ [0]) ++ part)) := by
    rw [h]
    exact Holds.self _
  have hsize : p.code.size = name.val.length + 1 + part.length + 1 := by
    rw [h, Reader.size_ofList, List.length_append, RawOpcode.length_encode_symbol]
    omega
  rw [run, hsize, runFrom_byte (by omega) hcode, step_symbol hcode.tail.append_left,
    show 0 + 1 + name.text.utf8ByteSize + 1 = name.text.utf8ByteSize + 2 by omega]
  rfl

/-- A name that gains as many bytes as stand behind it ends the program. -/
theorem run_symbol_skips {flags : Fin 16} {name : RawName} {part : List UInt8} {order : ByteOrder}
    (h : p.code = .ofList order (RawOpcode.encode (.symbol flags name) ++ part))
    (hlength : name.val.length + part.length ≤ name.text.utf8ByteSize) (table : BindTable) :
    p.run table = .ok table := by
  have hpc : ¬ name.text.utf8ByteSize + 2 < p.code.size := by
    rw [h, Reader.size_ofList, List.length_append, RawOpcode.length_encode_symbol]
    omega
  rw [run_symbol h, Nat.add_right_comm, runFrom, if_neg hpc]

theorem run_symbol_bind {flags : Fin 16} {name : RawName} {order : ByteOrder}
    (h : p.code = .ofList order
      (RawOpcode.encode (.symbol flags name) ++ BindOpcode.doBind.encode))
    (hname : name.KeepsLength) (table : BindTable) : ∃ e, p.run table = .error e := by
  have hbind : p.code.Has (0 + (RawOpcode.encode (.symbol flags name)).length)
      BindOpcode.doBind.encode := by
    rw [h]
    exact (Holds.self _).append_right
  rw [RawOpcode.length_encode_symbol, Nat.zero_add, ← show _ = _ from hname] at hbind
  rw [run_symbol h]
  change ∃ e, p.runFrom (name.val.length + 1 + 1) _ _ table = .error e
  rw [runFrom_byte BindOpcode.doBind.lead_lt hbind]
  exact ⟨_, rfl⟩

end BindProgram

structure RawBinds where
  image : Reader
  bind : FileRange
  weakBind : FileRange
  strong : List RawOpcode
  weak : List RawOpcode
  holdsStrong : bind.Holds image (RawOpcode.encodeAll strong)
  holdsWeak : weakBind.Holds image (RawOpcode.encodeAll weak)

namespace RawBinds

def read (b : RawBinds) (segments : List Segment) (bits : Bitness) : Except ImageError BindTable :=
  BindTable.read b.image b.bind b.weakBind segments bits

structure KeepsLength (b : RawBinds) : Prop where
  strong : ∀ op ∈ b.strong, op.KeepsLength
  weak : ∀ op ∈ b.weak, op.KeepsLength

structure Renamed (b b' : RawBinds) : Prop where
  strong : List.Forall₂ RawOpcode.Renamed b.strong b'.strong
  weak : List.Forall₂ RawOpcode.Renamed b.weak b'.weak

end RawBinds

namespace BindTable

variable {image image' : Reader} {range range' : FileRange} {table table' : BindTable}

theorem runRange_alike {program program' : List RawOpcode}
    (hren : List.Forall₂ RawOpcode.Renamed program program')
    (hkeeps : ∀ op ∈ program, op.KeepsLength) (hkeeps' : ∀ op ∈ program', op.KeepsLength)
    (h : range.Holds image (RawOpcode.encodeAll program))
    (h' : range'.Holds image' (RawOpcode.encodeAll program')) (segments : List Segment)
    (bits : Bitness) (weak : Bool) (hbound : table.bound = table'.bound) :
    (runRange image segments bits weak range table).toOption.map bound =
      (runRange image' segments bits weak range' table').toOption.map bound := by
  rw [runRange_of_holds h, runRange_of_holds h']
  exact BindProgram.run_alike (p := ⟨_, segments, bits, weak⟩) hren hkeeps hkeeps' rfl rfl hbound

theorem bind_alike {r r' : Except ImageError BindTable}
    {k k' : BindTable → Except ImageError BindTable}
    (h : r.toOption.map bound = r'.toOption.map bound)
    (hk : ∀ t t', bound t = bound t' → (k t).toOption.map bound = (k' t').toOption.map bound) :
    (r >>= k).toOption.map bound = (r' >>= k').toOption.map bound := by
  cases r with
  | error e =>
    cases r' with
    | error e' => rfl
    | ok t' => exact absurd h nofun
  | ok t =>
    cases r' with
    | error e' => exact absurd h nofun
    | ok t' => exact hk t t' (Option.some.inj h)

end BindTable

namespace RawBinds

theorem read_alike {b b' : RawBinds} (hren : b.Renamed b') (h : b.KeepsLength)
    (h' : b'.KeepsLength) (segments : List Segment) (bits : Bitness) :
    (b.read segments bits).toOption.map BindTable.bound =
      (b'.read segments bits).toOption.map BindTable.bound := by
  have hstrong := BindTable.runRange_alike hren.strong h.strong h'.strong b.holdsStrong
    b'.holdsStrong segments bits false (rfl : BindTable.bound ∅ = _)
  refine BindTable.bind_alike hstrong fun t t' hbound => ?_
  exact BindTable.runRange_alike hren.weak h.weak h'.weak b.holdsWeak b'.holdsWeak segments bits
    true hbound

theorem read_of_strong (b : RawBinds) (hweak : b.weak = []) (segments : List Segment)
    (bits : Bitness) :
    b.read segments bits =
      BindProgram.run
        ⟨.ofList b.image.order (RawOpcode.encodeAll b.strong), segments, bits, false⟩ ∅ := by
  have hsecond (table : BindTable) :
      BindTable.runRange b.image segments bits true b.weakBind table = .ok table := by
    rw [BindTable.runRange_of_holds b.holdsWeak, hweak]
    rfl
  rw [read, BindTable.read, BindTable.runRange_of_holds b.holdsStrong]
  simp only [hsecond]
  exact bind_pure _

/-- The names of a program do not matter as long as they keep their length, as those that are text
    do. A name that becomes longer matters: in front of a `doBind` it hides this opcode, which fails
    behind any other name. -/
theorem read_renamed (segments : List Segment) (bits : Bitness) :
    (∀ b b' : RawBinds, b.Renamed b' → b.KeepsLength → b'.KeepsLength →
      (b.read segments bits).toOption.map BindTable.bound =
        (b'.read segments bits).toOption.map BindTable.bound) ∧
    (∀ name : ZeroFree, (RawName.ofText name).KeepsLength) ∧
    ∀ (b : RawBinds) (flags : Fin 16) (name : RawName), b.weak = [] →
      b.strong = [.symbol flags name, .other .doBind (by decide)] →
      (¬ name.KeepsLength → b.read segments bits = .ok ∅) ∧
      (name.KeepsLength → ∃ e, b.read segments bits = .error e) := by
  refine ⟨fun b b' hren h h' => read_alike hren h h' segments bits, RawName.keepsLength_ofText, ?_⟩
  intro b flags name hweak hstrong
  have hread := b.read_of_strong hweak segments bits
  rw [hstrong] at hread
  refine ⟨fun hname => ?_, fun hname => ?_⟩
  · have hlength : name.val.length + BindOpcode.doBind.encode.length ≤ name.text.utf8ByteSize :=
      RawName.length_lt_of_not_keepsLength hname
    rw [hread]
    exact BindProgram.run_symbol_skips rfl hlength ∅
  · rw [hread]
    exact BindProgram.run_symbol_bind rfl hname ∅

def ofStrong (program : List RawOpcode) (h : (RawOpcode.encodeAll program).length < 2 ^ 32) :
    RawBinds where
  image := .ofList .little (RawOpcode.encodeAll program)
  bind := ⟨0, UInt32.ofNat (RawOpcode.encodeAll program).length⟩
  weakBind := ⟨0, 0⟩
  strong := program
  weak := []
  holdsStrong := ⟨UInt32.toNat_ofNat_of_lt' h, fun _ => Holds.self _⟩
  holdsWeak := ⟨rfl, absurd rfl⟩

def zeroOperand : Fin 16 := ⟨0, Nat.zero_lt_succ 15⟩

def bindFirst (name : RawName) : List RawOpcode :=
  [.other (.setSegment zeroOperand (.ofWord 0)) (by decide), .symbol zeroOperand name,
    .other .doBind (by decide)]

theorem length_bindFirst (name : RawName) :
    (RawOpcode.encodeAll (bindFirst name)).length = name.val.length + 5 := by
  simp only [bindFirst, RawOpcode.length_encodeAll_cons, RawOpcode.rest, List.length_append]
  change 1 + 1 + (name.val.length + 1 + 1 + (0 + 1 + 0)) = _
  omega

def first (name : RawName) (h : name.val.length < 0x100) : RawBinds :=
  ofStrong (bindFirst name) (by rw [length_bindFirst]; omega)

theorem renamed_first {name name' : RawName} {h : name.val.length < 0x100}
    {h' : name'.val.length < 0x100} (hlength : name.val.length = name'.val.length) :
    (first name h).Renamed (first name' h') :=
  ⟨.cons (.other _ _) (.cons (.symbol _ _ _ hlength) (.cons (.other _ _) .nil)), .nil⟩

theorem keepsLength_first {name : RawName} {h : name.val.length < 0x100}
    (hname : name.KeepsLength) : (first name h).KeepsLength := by
  refine ⟨fun op hop => ?_, nofun⟩
  rcases hop with _ | ⟨_, _ | ⟨_, _ | ⟨_, hop⟩⟩⟩
  · trivial
  · exact hname
  · trivial
  · exact absurd hop nofun

def firstSegment : Segment := ⟨"__DATA", 0x1000, 8, 0x100, 8, 3, 3, 0, []⟩

/-- A character of four bytes that lacks its last. -/
def brokenName : RawName := ⟨[0xF0, 0x90, 0x80], by decide⟩

def strayName : RawName := ⟨[0xFF], by decide⟩

def plainName : RawName := .ofText ⟨"_ab", by decide⟩

/-- The broken character is replaced by one of the same length, and the slot is bound as with a
    text. The stray byte hides what stands behind it. -/
theorem read_renamed_broken :
    (∃ t t', (first brokenName (by decide)).read [firstSegment] .bits64 = .ok t ∧
      (first plainName (by decide)).read [firstSegment] .bits64 = .ok t' ∧
      BindTable.slots t' 0x100 = some ⟨"_ab", 0, false, 0⟩ ∧ t.bound = t'.bound) ∧
    (ofStrong [.symbol 0 strayName, .other .doBind (by decide)] (by decide)).read
      [firstSegment] .bits64 = .ok ∅ := by
  obtain ⟨halike, htext, hhidden⟩ := read_renamed [firstSegment] .bits64
  have hsame := halike (first brokenName (by decide)) (first plainName (by decide))
    (renamed_first rfl) (keepsLength_first (by decide +kernel)) (keepsLength_first (htext _))
  have hplain : ((first plainName (by decide)).read [firstSegment] .bits64).map
      (BindTable.slots · 0x100) = .ok (some ⟨"_ab", 0, false, 0⟩) := by decide +kernel
  obtain ⟨t', ht', hslot⟩ := map_eq_ok.1 hplain
  refine ⟨?_, (hhidden _ 0 strayName rfl rfl).1 (by decide +kernel)⟩
  cases ht : (first brokenName (by decide)).read [firstSegment] .bits64 with
  | error e =>
    rw [ht, ht'] at hsame
    exact absurd hsame nofun
  | ok t =>
    rw [ht, ht'] at hsame
    exact ⟨t, t', rfl, ht', hslot, Option.some.inj hsame⟩

/-- A byte becomes three, which hide the opcode that binds the slot behind any letter. -/
theorem read_renamed_lengthened :
    (first strayName (by decide)).Renamed (first (.ofText ⟨"A", by decide⟩) (by decide)) ∧
    ((first strayName (by decide)).read [firstSegment] .bits64).map (BindTable.bound · 0x100) =
      .ok none ∧
    ((first (.ofText ⟨"A", by decide⟩) (by decide)).read [firstSegment] .bits64).map
      (BindTable.bound · 0x100) = .ok (some ⟨"", 0, false, 0⟩) :=
  ⟨renamed_first (by decide), by decide +kernel, by decide +kernel⟩

end RawBinds

end ObjcAtlas
