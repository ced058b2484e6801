import ObjcAtlas.Proofs.Fixup.Whole
import ObjcAtlas.Proofs.Word.Bind
import ObjcAtlas.Proofs.Word.Chain

set_option autoImplicit false

namespace ObjcAtlas.Run

open Word

def takeFixups (image : Reader) (bits : Bitness) (segments : List Segment) (f : Fixups) :
    Command → Run Fixups
  | .linkedit .chainedFixups range => do
    match ← attempt (chainTable image range segments (preferredBase segments)) with
    | .ok table => return { f with chains := some table }
    | .error e => return { f with errors := f.errors ++ [e] }
  | .dyldInfo _ info => do
    match ← attempt (bindTable image info.bind info.weakBind segments bits) with
    | .ok table => return { f with binds := table }
    | .error e => return { f with errors := f.errors ++ [e] }
  | _ => return f

/-- Reads one image. The sums in the check of the segments are checked ones: those that are no words
    are errors there. -/
def image (bytes : ByteArray) (offset : Nat) : Run Slice := do
  let header ← header bytes
  let reader : Reader := ⟨bytes, header.order⟩
  let commands ← commandTable reader header
  let segments := commands.filterMap Command.segment?
  plain (Slice.checkSegments reader.size segments)
  let fixups ← commands.foldlM (takeFixups reader header.bits segments) {}
  return { reader, offset, header, commands, segments, fixups }

def load (bytes : ByteArray) (selector : Option ArchSelector) : Run Slice := do
  if ← isUniversal bytes then
    let p ← plain (Slice.choose (← placements bytes) selector)
    let found ← (slice ⟨bytes, .little⟩ p.offset.toNat p.size.toNat).adapt fun _ =>
      .badStructure "fat arch" p.offset.toNat
        ("slice of " ++ Text.hex p.size.toNat ++ " bytes runs past end of file")
    image found p.offset.toNat
  else
    let s ← image bytes 0
    match selector with
    | some selector =>
      if selector.accepts s.header.cpuType s.header.subtype then return s
      else throw (.sliceNotFound selector.cpuType.toNat)
    | none => return s

section

variable {r : Reader} (hr : r.size < 2 ^ 63) {segments : List Segment}
  (hsegments : ∀ t ∈ segments, t.fileEnd ≤ r.size)

include hr hsegments

theorem runs_takeFixups (bits : Bitness) (f : Fixups) (c : Command) :
    Runs (takeFixups r bits segments f c) (.ok (f.take r bits segments c)) := by
  cases c with
  | linkedit table range =>
    cases table with
    | chainedFixups =>
      rw [takeFixups, Fixups.take]
      refine (runs_chainTable hr hsegments range _).attempt.of_ok ?_
      cases ChainTable.read r range segments (preferredBase segments) with
      | ok table => exact runs_pure _
      | error e => exact runs_pure _
    | _ => exact runs_pure f
  | dyldInfo only info =>
    rw [takeFixups, Fixups.take]
    refine (runs_bindTable hr hsegments bits _ _).attempt.of_ok ?_
    cases BindTable.read r info.bind info.weakBind segments bits with
    | ok table => exact runs_pure _
    | error e => exact runs_pure _
  | _ => exact runs_pure f

theorem runs_fixups (bits : Bitness) (commands : List Command) (f : Fixups) :
    Runs (commands.foldlM (takeFixups r bits segments) f)
      (.ok (commands.foldl (Fixups.take r bits segments) f)) := by
  induction commands generalizing f with
  | nil => exact runs_pure f
  | cons c commands ih =>
    rw [List.foldlM_cons, List.foldl_cons]
    exact (runs_takeFixups hr hsegments bits f c).of_ok (ih _)

end

theorem runs_image {bytes : ByteArray} (h : bytes.size < 2 ^ 63) (offset : Nat) :
    Runs (image bytes offset) (Slice.read bytes offset) := by
  rw [image, Slice.read]
  refine (runs_header h).bind fun header _ => ?_
  have hr : Reader.size ⟨bytes, header.order⟩ < 2 ^ 63 := h
  refine (runs_commandTable hr header).bind fun commands _ => ?_
  refine (runs_plain _).bind fun _ hcheck => ?_
  refine (runs_fixups hr ?_ header.bits commands {}).of_ok (runs_pure _)
  intro t ht
  exact (Segment.bounds_of_check (Slice.checkSegments_forall hcheck t ht)).2

/-- Loading bytes that fit in memory never traps, whatever image is asked for: in machine words it
    gives the result or the error that it gives in plain numbers. -/
theorem load_never_traps (bytes : ByteArray) (selector : Option ArchSelector)
    (h : bytes.size < 2 ^ 63) : (load bytes selector).run = some (Slice.load bytes selector) := by
  change Runs (load bytes selector) (Slice.load bytes selector)
  rw [load, Slice.load]
  refine (runs_isUniversal bytes).of_ok (.ite (fun _ => ?_) fun _ => ?_)
  · have hr : Reader.size ⟨bytes, .little⟩ < 2 ^ 63 := h
    refine (runs_placements h).bind fun found _ => (runs_plain _).bind fun p _ => ?_
    refine ((runs_slice hr _ _).adapt _).bind fun part hpart => runs_image ?_ _
    obtain ⟨-, rfl⟩ := Reader.le_of_slice (mapError_eq_ok.1 hpart)
    rw [ByteArray.size_extract]
    dsimp only
    omega
  · refine (runs_image h 0).bind fun s _ => ?_
    cases selector with
    | none => exact runs_pure s
    | some selector => exact .ite (fun _ => runs_pure s) fun _ => runs_throw _

theorem load_edgeDraft_never_traps :
    ∃ s, (load ⟨(Slice.edgeDraft 0x10 8).build.toArray⟩ none).run = some (.ok s) ∧
      s.fixups.chains.isSome ∧ 0xB0 ∈ s.fixups.binds := by
  obtain ⟨table, f, htable, -, -, -, hbound⟩ := Slice.of_slots? Slice.slots?_edgeDraft
  have hrun := load_never_traps ⟨(Slice.edgeDraft 0x10 8).build.toArray⟩ none (by decide +kernel)
  rw [Slice.edgeDraft.load_build 0x10 8 (by decide)] at hrun
  exact ⟨_, hrun, by rw [htable]; rfl, hbound⟩

end ObjcAtlas.Run
