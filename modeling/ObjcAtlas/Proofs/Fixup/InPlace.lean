import ObjcAtlas.Fixup.Bind
import ObjcAtlas.Fixup.Chain
import ObjcAtlas.Proofs.Result

set_option autoImplicit false

/-!
# Tables filled in place

The readers of fixup tables give a whole table or an error. Here they write to one table as they
go, and what is written stays in it when a later step fails; so the table also tells what a reader
has recorded before it failed. `Mirrors` says that both ways agree: the same results, the same
errors, and on success the same table.
-/
namespace ObjcAtlas

/-- Steps that write to a table of type `τ`, which outlasts a failure. -/
abbrev InPlace (τ : Type) := ExceptT ImageError (StateM τ)

namespace InPlace

variable {τ α β : Type}

def lift (r : Except ImageError α) : InPlace τ α := fun table => (r, table)

/-- A step that writes all it has to write, or fails and writes nothing. -/
def whole (f : τ → Except ImageError (α × τ)) : InPlace τ α := fun table =>
  match f table with
  | .ok (a, table) => (.ok a, table)
  | .error e => (.error e, table)

/-- The step does in place what `f` does, and fails as `f` does. -/
def Mirrors (step : InPlace τ α) (f : τ → Except ImageError (α × τ)) : Prop :=
  ∀ table, (step table).1 = (f table).map Prod.fst ∧
    ∀ a table', f table = .ok (a, table') → (step table).2 = table'

theorem mirrors_whole (f : τ → Except ImageError (α × τ)) : Mirrors (whole f) f := by
  intro table
  unfold whole
  cases f table with
  | error e => exact ⟨rfl, nofun⟩
  | ok x => exact ⟨rfl, fun a table' h => by rw [← (Prod.mk.inj (Except.ok.inj h)).2]⟩

theorem mirrors_pure (a : α) : Mirrors (pure a : InPlace τ α) fun table => .ok (a, table) := by
  intro table
  exact ⟨rfl, fun a' table' h => (Prod.mk.inj (Except.ok.inj h)).2⟩

theorem mirrors_throw (e : ImageError) :
    Mirrors (throw e : InPlace τ α) fun _ => .error e := by
  intro table
  exact ⟨rfl, nofun⟩

theorem bind_apply (step : InPlace τ α) (k : α → InPlace τ β) (table : τ) :
    (step >>= k) table = match step table with
      | (.ok a, table) => k a table
      | (.error e, table) => (.error e, table) := by
  change (match step table with
    | (r, table) => ExceptT.bindCont k r table) = _
  cases step table with
  | mk r table => cases r <;> rfl

theorem Mirrors.bind {step : InPlace τ α} {k : α → InPlace τ β}
    {f : τ → Except ImageError (α × τ)} {g : α → τ → Except ImageError (β × τ)}
    (h : Mirrors step f) (hk : ∀ a, Mirrors (k a) (g a)) :
    Mirrors (step >>= k) fun table => f table >>= fun x => g x.1 x.2 := by
  intro table
  obtain ⟨hresult, htable⟩ := h table
  simp only [bind_apply]
  generalize step table = out at hresult htable ⊢
  obtain ⟨r, rest⟩ := out
  cases hf : f table with
  | error e =>
    rw [hf] at hresult
    obtain rfl : r = .error e := hresult
    exact ⟨rfl, nofun⟩
  | ok x =>
    rw [hf] at hresult
    obtain rfl : r = .ok x.1 := hresult
    obtain rfl : rest = x.2 := htable x.1 x.2 hf
    exact hk x.1 x.2

theorem Mirrors.lift_bind {r : Except ImageError α} {k : α → InPlace τ β}
    {g : α → τ → Except ImageError (β × τ)} (hk : ∀ a, Mirrors (k a) (g a)) :
    Mirrors (lift r >>= k) fun table => r >>= fun a => g a table := by
  intro table
  rw [bind_apply]
  cases r with
  | error e => exact ⟨rfl, nofun⟩
  | ok a => exact hk a table

theorem Mirrors.congr {step : InPlace τ α} {f g : τ → Except ImageError (α × τ)}
    (h : Mirrors step f) (hfg : ∀ table, f table = g table) : Mirrors step g := by
  rwa [← funext hfg]

theorem Mirrors.ite {c : Prop} [Decidable c] {x y : InPlace τ α}
    {f g : τ → Except ImageError (α × τ)} (hx : Mirrors x f) (hy : Mirrors y g) :
    Mirrors (if c then x else y) fun table => if c then f table else g table := by
  split
  · exact hx
  · exact hy

def filling (f : τ → Except ImageError τ) (table : τ) : Except ImageError (Unit × τ) :=
  (fun table => ((), table)) <$> f table

theorem Mirrors.forM {step : α → InPlace τ Unit} {f : τ → α → Except ImageError τ}
    (h : ∀ a, Mirrors (step a) (filling fun table => f table a)) (as : List α) :
    Mirrors (as.forM step) (filling fun table => as.foldlM f table) := by
  induction as with
  | nil => exact mirrors_pure ()
  | cons a as ih =>
    refine ((h a).bind fun _ => ih).congr fun table => ?_
    simp only [filling, List.foldlM_cons, bind_map_left, map_bind]

theorem Mirrors.result_eq {step : InPlace τ Unit} {f : τ → Except ImageError τ}
    (h : Mirrors step (filling f)) (table : τ) : (step table).1 = (f table).map fun _ => () := by
  rw [(h table).1, filling]
  cases f table <;> rfl

theorem Mirrors.of_ok {step : InPlace τ Unit} {f : τ → Except ImageError τ}
    (h : Mirrors step (filling f)) {table table' : τ} (hf : f table = .ok table') :
    step table = (.ok (), table') := by
  obtain ⟨hresult, htable⟩ := h table
  simp only [filling, hf] at hresult htable
  exact Prod.ext hresult (htable () table' rfl)

end InPlace

open InPlace

namespace PageWalk

variable (w : PageWalk)

/-- Treats the slot at `offset`, and gives the distance to the next. A slot is entered last. -/
def visitIn (offset : Nat) : InPlace FixupTable Nat :=
  whole fun table => Prod.swap <$> w.visit offset table

def followIn : (steps offset : Nat) → InPlace FixupTable Unit
  | 0, offset => throw (w.cycle offset)
  | steps + 1, offset => do
    let distance ← w.visitIn offset
    if distance = 0 then return ()
    followIn steps (offset + distance)

def runIn (start : UInt16) : InPlace FixupTable Unit := do
  let (heads, complete) := w.starts.heads start
  heads.forM fun head => w.followIn w.maxSteps head
  if complete then return ()
  throw (.badStructure "chained starts" 0 "overflow chain index out of range")

theorem mirrors_follow (steps offset : Nat) :
    Mirrors (w.followIn steps offset) (filling (w.follow steps offset)) := by
  induction steps generalizing offset with
  | zero => exact mirrors_throw _
  | succ steps ih =>
    refine ((mirrors_whole _).bind fun distance =>
      (mirrors_pure ()).ite (c := distance = 0) (ih (offset + distance))).congr fun table => ?_
    simp only [filling, follow, bind_map_left, map_bind, apply_ite (Functor.map _)]
    rfl

theorem mirrors_run (start : UInt16) : Mirrors (w.runIn start) (filling (w.run start)) := by
  refine ((Mirrors.forM (fun head => w.mirrors_follow w.maxSteps head)
    (w.starts.heads start).1).bind fun _ => (mirrors_pure ()).ite
      (c := (w.starts.heads start).2 = true) (mirrors_throw _)).congr fun table => ?_
  simp only [filling, run, bind_map_left, map_bind, apply_ite (Functor.map _)]
  rfl

end PageWalk

namespace ChainTable

section

variable (image : Reader) (segments : List Segment) (base : UInt64) (importCount : Nat)

def walkSegmentIn (starts : SegmentStarts) : InPlace FixupTable Unit :=
  match segments[starts.segment]? with
  | none => throw (.badStructure "chained starts" 0
      ("segment index " ++ Text.decimal starts.segment ++ " out of range"))
  | some segment =>
    (starts.pageStarts.take starts.pageCount.toNat).zipIdx.forM fun (start, page) =>
      PageWalk.runIn { image, base, importCount, segment, starts, page } start

def walkIn (starts : List SegmentStarts) : InPlace FixupTable Unit :=
  starts.forM (walkSegmentIn image segments base importCount)

theorem mirrors_walkSegment (starts : SegmentStarts) :
    Mirrors (walkSegmentIn image segments base importCount starts)
      (filling fun table => walkSegment image segments base importCount table starts) := by
  unfold walkSegmentIn walkSegment
  cases segments[starts.segment]? with
  | none => exact mirrors_throw _
  | some segment => exact Mirrors.forM (fun x : UInt16 × Nat => PageWalk.mirrors_run _ x.1) _

theorem mirrors_walk (starts : List SegmentStarts) :
    Mirrors (walkIn image segments base importCount starts)
      (filling fun table => starts.foldlM (walkSegment image segments base importCount) table) :=
  Mirrors.forM (mirrors_walkSegment image segments base importCount) starts

end

def tables (image : Reader) (range : FileRange) : Except ImageError ChainTable := do
  let blob ← image.sub range.offset.toNat range.size.toNat
  if blob.size < 28 then throw (.tooShort 28 blob.size)
  let version ← blob.u32 0
  let startsOffset := (← blob.u32 4).toNat
  let importsOffset := (← blob.u32 8).toNat
  let symbolsOffset := (← blob.u32 12).toNat
  let importCount := (← blob.u32 16).toNat
  let importsCode ← blob.u32 20
  let symbolsFormat ← blob.u32 24
  if version != 0 then throw (.unsupportedVersion "chained fixups" version.toNat)
  if symbolsFormat != 0 then
    throw (.unsupportedVersion "chained fixups symbol pool" symbolsFormat.toNat)
  let importsFormat ← ImportsFormat.ofCode importsCode
  let imports ← ChainImport.readTable blob importsFormat importsOffset importCount symbolsOffset
  let starts ← SegmentStarts.readTable blob startsOffset
  return { version, importsFormat, imports := imports.toArray, starts, fixups := ∅ }

theorem read_eq (image : Reader) (range : FileRange) (segments : List Segment) (base : UInt64) :
    read image range segments base = tables image range >>= fun t =>
      walk image segments base t.imports.size t.starts >>= fun fixups =>
        pure { t with fixups } := by
  refine bind_split fun blob => throw_if_split (bind_split fun version => bind_split fun _ =>
    bind_split fun _ => bind_split fun _ => bind_split fun _ => bind_split fun _ =>
    bind_split fun _ => throw_if_split (throw_if_split (bind_split fun _ => bind_split fun _ =>
    bind_split fun _ => rfl)))

/-- Enters the slots of the chains as they are met. -/
def fill (image : Reader) (range : FileRange) (segments : List Segment) (base : UInt64) :
    InPlace FixupTable Unit := do
  let t ← lift (tables image range)
  walkIn image segments base t.imports.size t.starts

theorem fill_of_read {image : Reader} {range : FileRange} {segments : List Segment} {base : UInt64}
    {t : ChainTable} (h : read image range segments base = .ok t) :
    fill image range segments base ∅ = (.ok (), t.fixups) := by
  rw [read_eq] at h
  obtain ⟨t', htables, h⟩ := bind_eq_ok.1 h
  obtain ⟨fixups, hwalk, h⟩ := bind_eq_ok.1 h
  cases h
  rw [fill, bind_apply, htables]
  exact (mirrors_walk image segments base _ _).of_ok hwalk

theorem fill_result (image : Reader) (range : FileRange) (segments : List Segment)
    (base : UInt64) : (fill image range segments base ∅).1 =
      (read image range segments base).map fun _ => () := by
  rw [read_eq, fill, bind_apply]
  cases tables image range with
  | error e => rfl
  | ok t =>
    have hwalk := (mirrors_walk image segments base t.imports.size t.starts).result_eq ∅
    change (walkIn image segments base t.imports.size t.starts ∅).1 = Except.map _ (walk .. >>= _)
    rw [hwalk, walk]
    cases t.starts.foldlM (walkSegment image segments base t.imports.size) ∅ <;> rfl

end ChainTable

namespace BindState

def bindIn (s : BindState) (pc : Nat) : InPlace BindTable Unit := whole (filling (s.bind pc))

def bindTimesIn (distance : UInt64) (pc : Nat) :
    (count : Nat) → BindState → InPlace BindTable BindState
  | 0, s => return s
  | count + 1, s => do
    s.bindIn pc
    bindTimesIn distance pc count (s.advance distance)

theorem mirrors_bindTimes (distance : UInt64) (pc count : Nat) (s : BindState) :
    Mirrors (bindTimesIn distance pc count s) (bindTimes distance pc count s) := by
  induction count generalizing s with
  | zero => exact mirrors_pure s
  | succ count ih =>
    refine ((mirrors_whole _).bind fun _ => ih (s.advance distance)).congr fun table => ?_
    simp only [filling, bindTimes, bind_map_left]

end BindState

def BindStep.split : BindStep → Option (Nat × BindState) × BindTable
  | .done table => (none, table)
  | .next pc s table => (some (pc, s), table)

namespace BindProgram

variable (p : BindProgram)

/-- Carries out an instruction. Two of them can fail after they have written: the one that binds and
    then reads how far to move, and the one that binds several times. -/
def stepIn (byte pc : Nat) (s : BindState) : InPlace BindTable (Option (Nat × BindState)) :=
  match byte / 16 with
  | 0xA => do
    s.bindIn pc
    let (value, length) ← lift (p.code.uleb pc)
    return some (pc + length, s.advance (value + p.pointerSize))
  | 0xC => do
    let (count, length) ← lift (p.code.uleb pc)
    let (skip, length') ← lift (p.code.uleb (pc + length))
    let pc := pc + length + length'
    let s ← BindState.bindTimesIn (skip + p.pointerSize) pc count.toNat s
    return some (pc, s)
  | _ => whole fun table => BindStep.split <$> p.step byte pc s table

def runFromIn : (fuel pc : Nat) → BindState → InPlace BindTable Unit
  | 0, _, _ => return ()
  | fuel + 1, pc, s =>
    if pc < p.code.size then do
      let byte ← lift (p.code.u8 pc)
      match ← p.stepIn byte.toNat (pc + 1) s with
      | none => return ()
      | some (pc, s) => runFromIn fuel pc s
    else return ()

theorem mirrors_step (byte pc : Nat) (s : BindState) :
    Mirrors (p.stepIn byte pc s) fun table => BindStep.split <$> p.step byte pc s table := by
  unfold stepIn
  split
  next h =>
    refine ((mirrors_whole (filling (s.bind pc))).bind fun _ => Mirrors.lift_bind
      fun x : UInt64 × Nat =>
        mirrors_pure (some (pc + x.2, s.advance (x.1 + p.pointerSize)))).congr fun table => ?_
    simp only [filling, step, h, bind_map_left, map_bind, map_pure]
    rfl
  next h =>
    refine (Mirrors.lift_bind fun x : UInt64 × Nat => Mirrors.lift_bind fun y : UInt64 × Nat =>
      (BindState.mirrors_bindTimes (y.1 + p.pointerSize) (pc + x.2 + y.2) x.1.toNat s).bind
        fun s => mirrors_pure (some (pc + x.2 + y.2, s))).congr fun table => ?_
    simp only [step, h, map_bind, map_pure]
    rfl
  next => exact mirrors_whole _

theorem mirrors_runFrom (fuel pc : Nat) (s : BindState) :
    Mirrors (p.runFromIn fuel pc s) (filling (p.runFrom fuel pc s)) := by
  induction fuel generalizing pc s with
  | zero => exact mirrors_pure ()
  | succ fuel ih =>
    have hnext (r : Option (Nat × BindState)) :
        Mirrors (match r with
          | none => return ()
          | some (pc, s) => p.runFromIn fuel pc s)
        (match r with
          | none => fun table => .ok ((), table)
          | some (pc, s) => filling (p.runFrom fuel pc s)) := by
      cases r with
      | none => exact mirrors_pure ()
      | some x => exact ih x.1 x.2
    refine (Mirrors.ite (c := pc < p.code.size) (Mirrors.lift_bind fun byte : UInt8 =>
      (p.mirrors_step byte.toNat (pc + 1) s).bind hnext) (mirrors_pure ())).congr fun table => ?_
    simp only [filling, runFrom, bind_map_left, map_bind, apply_ite (Functor.map _)]
    split
    · refine bind_congr fun byte => bind_congr fun r => ?_
      cases r <;> rfl
    · rfl

end BindProgram

namespace BindTable

variable (image : Reader) (segments : List Segment) (bits : Bitness)

def runRangeIn (weak : Bool) (range : FileRange) : InPlace BindTable Unit :=
  if range.size = 0 then return ()
  else do
    let code ← lift (image.sub range.offset.toNat range.size.toNat)
    BindProgram.runFromIn { code, segments, bits, weak } code.size 0 (.initial weak)

def fill (bind weakBind : FileRange) : InPlace BindTable Unit := do
  runRangeIn image segments bits false bind
  runRangeIn image segments bits true weakBind

theorem mirrors_runRange (weak : Bool) (range : FileRange) :
    Mirrors (runRangeIn image segments bits weak range)
      (filling (runRange image segments bits weak range)) := by
  refine (Mirrors.ite (c := range.size = 0) (mirrors_pure ()) (Mirrors.lift_bind fun code =>
    BindProgram.mirrors_runFrom { code, segments, bits, weak } code.size 0
      (.initial weak))).congr fun table => ?_
  simp only [filling, runRange, BindProgram.run, map_bind, apply_ite (Functor.map _)]
  rfl

theorem mirrors_fill (bind weakBind : FileRange) :
    Mirrors (fill image segments bits bind weakBind) (filling fun table =>
      runRange image segments bits false bind table >>=
        runRange image segments bits true weakBind) := by
  refine ((mirrors_runRange image segments bits false bind).bind fun _ =>
    mirrors_runRange image segments bits true weakBind).congr fun table => ?_
  simp only [filling, bind_map_left, map_bind]

theorem fill_of_read {bind weakBind : FileRange} {table : BindTable}
    (h : read image bind weakBind segments bits = .ok table) :
    fill image segments bits bind weakBind ∅ = (.ok (), table) :=
  (mirrors_fill image segments bits bind weakBind).of_ok h

theorem fill_result (bind weakBind : FileRange) :
    (fill image segments bits bind weakBind ∅).1 =
      (read image bind weakBind segments bits).map fun _ => () :=
  (mirrors_fill image segments bits bind weakBind).result_eq ∅

end BindTable

end ObjcAtlas
