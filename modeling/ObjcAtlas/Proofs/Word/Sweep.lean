import ObjcAtlas.Proofs.Image.Translation
import ObjcAtlas.Proofs.Survey.Value
import ObjcAtlas.Proofs.Word.Reader

set_option autoImplicit false

/-!
# Surveys on machine words

Addresses are words already, and their sums in a survey are those modulo `2 ^ 64`. A sweep is a
survey on a machine that traps at a sum or a product that is no word. `Tracks m x` says that the
sweep `m` never traps and is the survey `x`. Most sums are safe because a pointer that was followed
has lost its tag: it is less than `2 ^ 56`, and what is added to it is small.
-/
namespace ObjcAtlas

namespace Word

def sum (a b : UInt64) : Option UInt64 :=
  if a.toNat + b.toNat < 2 ^ 64 then some (a + b) else none

def product (a b : UInt64) : Option UInt64 :=
  if a.toNat * b.toNat < 2 ^ 64 then some (a * b) else none

def words (b : Bitness) (n : UInt64) : Option UInt64 := product n (UInt64.ofNat b.pointerSize)

theorem sum_eq {a b : UInt64} (h : a.toNat + b.toNat < 2 ^ 64) : sum a b = some (a + b) := if_pos h

theorem product_eq {a b : UInt64} (h : a.toNat * b.toNat < 2 ^ 64) : product a b = some (a * b) :=
  if_pos h

theorem toNat_pointerSize (b : Bitness) : (UInt64.ofNat b.pointerSize).toNat = b.pointerSize := by
  cases b <;> rfl

theorem words_eq {b : Bitness} {n : UInt64} (h : n.toNat * b.pointerSize < 2 ^ 64) :
    words b n = some (b.words n) :=
  product_eq (by rwa [toNat_pointerSize])

theorem toNat_words {b : Bitness} {n : UInt64} (h : n.toNat * b.pointerSize < 2 ^ 64) :
    (b.words n).toNat = n.toNat * b.pointerSize := by
  rw [Bitness.words, UInt64.toNat_mul, toNat_pointerSize]
  exact Nat.mod_eq_of_lt h

/-- A record fits behind the address. -/
def HasRoom (a : UInt64) : Prop := a.toNat + 2 ^ 10 ≤ 2 ^ 64

theorem HasRoom.sum_eq {a d : UInt64} (h : HasRoom a) (hd : d.toNat < 2 ^ 10) :
    sum a d = some (a + d) := by
  rw [HasRoom] at h
  exact Word.sum_eq (by omega)

end Word

theorem Bitness.words_lt (b : Bitness) {n : UInt64} (h : n.toNat ≤ 10) :
    (b.words n).toNat < 2 ^ 10 := by
  have hp : b.pointerSize ≤ 8 := by cases b <;> decide
  have hle : n.toNat * b.pointerSize ≤ 10 * 8 := Nat.mul_le_mul h hp
  rw [Word.toNat_words (by omega)]
  omega

theorem ClassField.offset_lt (f : ClassField) (b : Bitness) : (f.offset b).toNat < 2 ^ 10 := by
  cases f <;> cases b <;> decide

theorem ClassDataField.offset_lt (f : ClassDataField) (b : Bitness) :
    (f.offset b).toNat < 2 ^ 10 := by
  cases f <;> cases b <;> decide

theorem ProtocolField.offset_lt (f : ProtocolField) (b : Bitness) :
    (f.offset b).toNat < 2 ^ 10 := by
  cases f <;> cases b <;> decide

theorem CategoryField.offset_lt (f : CategoryField) (b : Bitness) :
    (f.offset b).toNat < 2 ^ 10 := by
  cases f <;> cases b <;> decide

theorem Bitness.untagged_lt (b : Bitness) (a : UInt64) : (b.untagged a).toNat < 2 ^ 56 := by
  cases b with
  | bits32 =>
    rw [untagged, UInt64.toNat_and]
    exact Nat.lt_of_le_of_lt Nat.and_le_right (by decide)
  | bits64 =>
    rw [untagged, UInt64.toNat_and]
    exact Nat.lt_of_le_of_lt Nat.and_le_right (by decide)

theorem Layout.classData_le (b : Bitness) (word : UInt64) :
    (classData b word).toNat ≤ word.toNat := by
  cases b with
  | bits32 =>
    rw [classData, UInt64.toNat_and]
    exact Nat.and_le_left
  | bits64 =>
    rw [classData, UInt64.toNat_and]
    exact Nat.and_le_left

namespace Slice

variable {s : Slice}

theorem target_lt {slot a : UInt64} (h : s.target slot = .ok (.address a)) : a.toNat < 2 ^ 56 := by
  obtain ⟨offset, -, h⟩ := bind_eq_ok.1 h
  obtain ⟨value, -, h⟩ := bind_eq_ok.1 h
  cases value with
  | null => exact absurd h nofun
  | symbol t => exact absurd h nofun
  | address pointer =>
    obtain rfl := SlotValue.address.inj (Except.ok.inj h)
    exact s.bits.untagged_lt pointer

theorem followed?_lt {slot a : UInt64} (h : s.followed? slot = some a) : a.toNat < 2 ^ 56 := by
  rw [followed?] at h
  split at h
  · rename_i pointer htarget
    split at h
    · exact Option.some.inj h ▸ target_lt htarget
    · exact absurd h nofun
  · exact absurd h nofun

/-- What loading an image has made sure of. -/
structure Checked (s : Slice) : Prop where
  size_lt : s.reader.size < 2 ^ 63
  fileEnd_le : ∀ g ∈ s.segments, g.fileEnd ≤ s.reader.size
  sectionEnd_lt : ∀ g ∈ s.segments, ∀ t ∈ g.sections, t.address.toNat + t.size.toNat < 2 ^ 64

end Slice

namespace Run

open Word

def fileOffset (s : Slice) (address : UInt64) : Run Nat :=
  match s.segments.find? (·.backs address) with
  | some t => do plus t.fileOffset.toNat (← minus address.toNat t.address.toNat)
  | none => throw (.unmapped address.toNat)

def resolve (s : Slice) (offset : Nat) (slide : UInt64) : Run SlotValue := do
  if let some value := s.fixups.chains.bind (·.resolve? offset slide) then return value
  if let some target := s.fixups.binds[offset]? then return .symbol target
  let raw ← pointer s.reader s.bits offset
  return if raw = 0 then .null else .address (raw + slide)

def target (s : Slice) (slot : UInt64) : Run SlotValue := do
  let offset ← fileOffset s slot
  match ← resolve s offset 0 with
  | .address a => return .address (s.bits.untagged a)
  | value => return value

def u32At (s : Slice) (address : UInt64) : Run UInt32 := do
  u32 s.reader (← fileOffset s address)

def i32At (s : Slice) (address : UInt64) : Run Int32 := do
  i32 s.reader (← fileOffset s address)

def wordAt (s : Slice) (address : UInt64) : Run UInt64 := do
  pointer s.reader s.bits (← fileOffset s address)

def region (s : Slice) (address : UInt64) : Run (Reader × Nat) := do
  let offset ← fileOffset s address
  let some t := s.segmentAt? offset | throw (.unmapped address.toNat)
  let data ← sub s.reader t.fileOffset.toNat t.fileSize.toNat
  return (data, ← minus offset t.fileOffset.toNat)

def bytesAt (s : Slice) (address : UInt64) (length : Nat) : Run ByteArray := do
  let (data, offset) ← region s address
  slice data offset length

def cstringAt (s : Slice) (address : UInt64) : Run String := do
  let (data, offset) ← region s address
  cstring data offset

section

variable {s : Slice} (hs : s.Checked)

include hs

theorem runs_fileOffset (address : UInt64) :
    Runs (fileOffset s address) (s.fileOffset address) := by
  rw [fileOffset, Slice.fileOffset]
  cases hfind : s.segments.find? (·.backs address) with
  | none => rfl
  | some t =>
    have hend := hs.fileEnd_le t (List.mem_of_find?_eq_some hfind)
    have hbacks : t.backs address = true := by simpa using List.find?_some hfind
    obtain ⟨hle, -, hfile⟩ := Segment.backs_iff.1 hbacks
    have hsize := hs.size_lt
    rw [Segment.fileEnd] at hend
    dsimp only
    rw [UInt64.toNat_sub_of_le _ _ (UInt64.le_iff_toNat_le.2 hle)]
    refine .step (minus_eq hle) ?_
    rw [plus_eq (by omega)]
    rfl

theorem runs_resolve (offset : Nat) (slide : UInt64) :
    Runs (resolve s offset slide) (s.resolve offset slide) := by
  rw [resolve, Slice.resolve, Fixups.resolve]
  cases s.fixups.chains.bind (·.resolve? offset slide) with
  | some value => exact runs_pure value
  | none =>
    cases s.fixups.binds[offset]? with
    | some t => exact runs_pure _
    | none => exact (runs_pointer hs.size_lt _ _).bind fun raw _ => runs_pure _

theorem runs_target (slot : UInt64) : Runs (target s slot) (s.target slot) := by
  refine (runs_fileOffset hs slot).bind fun offset _ => ?_
  refine (runs_resolve hs offset 0).bind fun value _ => ?_
  cases value <;> exact runs_pure _

theorem runs_u32At (address : UInt64) : Runs (u32At s address) (s.u32At address) :=
  (runs_fileOffset hs address).bind fun offset _ => runs_u32 hs.size_lt offset

theorem runs_i32At (address : UInt64) : Runs (i32At s address) (s.i32At address) :=
  (runs_fileOffset hs address).bind fun offset _ => runs_i32 hs.size_lt offset

theorem runs_wordAt (address : UInt64) : Runs (wordAt s address) (s.wordAt address) :=
  (runs_fileOffset hs address).bind fun offset _ => runs_pointer hs.size_lt s.bits offset

theorem runs_region (address : UInt64) : Runs (region s address) (s.region address) := by
  rw [region, Slice.region]
  refine (runs_fileOffset hs address).bind fun offset _ => ?_
  cases hfind : s.segmentAt? offset with
  | none => rfl
  | some t =>
    have hbacked := List.find?_some (p := fun t : Segment => t.isBacked && t.hasOffset offset) hfind
    have hin := (Bool.and_eq_true_iff.1 hbacked).2
    refine (runs_sub hs.size_lt _ _).bind fun data _ => ?_
    exact .step (minus_eq (Segment.hasOffset_iff.1 hin).1) (runs_pure _)

omit hs in
theorem size_le_of_region {address : UInt64} {place : Reader × Nat}
    (h : s.region address = .ok place) : place.1.size ≤ s.reader.size := by
  obtain ⟨offset, -, h⟩ := bind_eq_ok.1 h
  cases hfind : s.segmentAt? offset with
  | none =>
    rw [hfind] at h
    exact absurd h nofun
  | some t =>
    rw [hfind] at h
    obtain ⟨data, hdata, h⟩ := bind_eq_ok.1 h
    obtain rfl := Except.ok.inj h
    obtain ⟨bytes, hbytes, -⟩ := map_eq_ok.1 hdata
    have hle := (Reader.le_of_slice hbytes).1
    have hsize : data.size = t.fileSize.toNat := Reader.size_of_sub hdata
    dsimp only
    omega

theorem runs_bytesAt (address : UInt64) (length : Nat) :
    Runs (bytesAt s address length) (s.bytesAt address length) := by
  refine (runs_region hs address).bind fun place hplace => ?_
  exact runs_slice (Nat.lt_of_le_of_lt (size_le_of_region hplace) hs.size_lt) _ _

theorem runs_cstringAt (address : UInt64) : Runs (cstringAt s address) (s.cstringAt address) := by
  refine (runs_region hs address).bind fun place hplace => ?_
  exact runs_cstring (Nat.lt_of_le_of_lt (size_le_of_region hplace) hs.size_lt) _

end

theorem le_size_of_bytesAt {s : Slice} {address : UInt64} {length : Nat}
    (h : (s.bytesAt address length).isOk = true) : length ≤ s.reader.size := by
  cases hbytes : s.bytesAt address length with
  | error e =>
    rw [hbytes] at h
    exact absurd h nofun
  | ok bytes =>
    obtain ⟨place, hplace, hslice⟩ := bind_eq_ok.1 hbytes
    have hle := (Reader.le_of_slice hslice).1
    have hregion := size_le_of_region hplace
    omega

end Run

/-- A survey, or a trap. -/
abbrev Sweep := StateT Notes Option

namespace Sweep

variable {α β γ : Type}

def plain (x : Survey α) : Sweep α := fun n => some (x n)

/-- The sweep does not trap, and does what the survey does. -/
def Tracks (m : Sweep α) (x : Survey α) : Prop := ∀ n, m n = some (x n)

variable {m : Sweep α} {x : Survey α} {f : α → Sweep β} {g : α → Survey β}

theorem tracks_pure (a : α) : Tracks (pure a) (pure a) := fun _ => rfl

theorem tracks_plain (x : Survey α) : Tracks (plain x) x := fun _ => rfl

/-- Later steps need to be right only after what the first may find. -/
theorem Tracks.bind_of_ensures {P : α → Prop} (h : Tracks m x) (hP : Survey.Ensures x P)
    (k : ∀ a, P a → Tracks (f a) (g a)) : Tracks (m >>= f) (x >>= g) := by
  obtain rfl : m = plain x := funext h
  intro n
  exact k (x n).1 (hP n) (x n).2

theorem Tracks.bind (h : Tracks m x) (k : ∀ a, Tracks (f a) (g a)) : Tracks (m >>= f) (x >>= g) :=
  h.bind_of_ensures (Survey.ensures_any x) fun a _ => k a

theorem Tracks.bind_of_gives {a : α} (h : Tracks m x) (hg : Survey.Gives x a)
    (k : Tracks (f a) (g a)) : Tracks (m >>= f) (x >>= g) := by
  refine h.bind_of_ensures hg fun b hb => ?_
  rw [hb]
  exact k

theorem Tracks.step {o : Option α} {a : α} {y : Survey β} (h : o = some a)
    (k : Tracks (f a) y) : Tracks ((liftM o : Sweep α) >>= f) y := by
  subst h
  exact k

theorem Tracks.ite {c : Prop} [Decidable c] {m m' : Sweep α} {x x' : Survey α}
    (h : c → Tracks m x) (h' : ¬ c → Tracks m' x') :
    Tracks (if c then m else m') (if c then x else x') := by
  by_cases hc : c
  · rw [if_pos hc, if_pos hc]
    exact h hc
  · rw [if_neg hc, if_neg hc]
    exact h' hc

theorem Tracks.ite_bind {c : Prop} [Decidable c] {m m' : Sweep α} {x x' : Survey α}
    (h : Tracks m x) (h' : Tracks m' x') (k : ∀ a, Tracks (f a) (g a)) :
    Tracks (if c then m >>= f else m' >>= f) (if c then x >>= g else x' >>= g) :=
  .ite (fun _ => h.bind k) fun _ => h'.bind k

def watched (step : Sweep α) : Sweep (α × Bool) := fun n =>
  (step { n with log := #[] }).map fun (a, n') =>
    ((a, n'.log.any Event.isWarning), { n' with log := n.log ++ n'.log })

theorem Tracks.watched (h : Tracks m x) : Tracks (watched m) (Survey.watched x) := by
  obtain rfl : m = plain x := funext h
  exact fun _ => rfl

def collect (step : α → Sweep (Option β)) : List α → Sweep (List β)
  | [] => return []
  | a :: as => do
    let found ← step a
    let rest ← collect step as
    return found.toList ++ rest

theorem Tracks.collect_map {step : α → Sweep (Option β)} {step' : γ → Survey (Option β)}
    {place : α → γ} {as : List α} (h : ∀ a ∈ as, Tracks (step a) (step' (place a))) :
    Tracks (collect step as) (Survey.collect step' (as.map place)) := by
  induction as with
  | nil => exact tracks_pure []
  | cons a as ih =>
    obtain ⟨ha, has⟩ := List.forall_mem_cons.1 h
    exact ha.bind fun found => (ih has).bind fun rest => tracks_pure _

theorem Tracks.collect {step : α → Sweep (Option β)} {step' : α → Survey (Option β)} {as : List α}
    (h : ∀ a ∈ as, Tracks (step a) (step' a)) :
    Tracks (Sweep.collect step as) (Survey.collect step' as) := by
  have hmap : Tracks (Sweep.collect step as) (Survey.collect step' (as.map id)) := .collect_map h
  rwa [List.map_id] at hmap

def read (address : UInt64) (what : String) (m : Run α) : Sweep (Option α) := do
  plain (Survey.read address what (← m.run))

def u32 (s : Slice) (address : UInt64) (what : String) : Sweep UInt32 := do
  return (← read address what (Run.u32At s address)).getD 0

def isMapped (s : Slice) (address : UInt64) : Option Bool := do
  return (← (Run.fileOffset s address).run).isOk

def isEncryptedAt (s : Slice) (address : UInt64) : Option Bool := do
  match ← (Run.fileOffset s address).run with
  | .ok offset => return s.isEncryptedOffset offset
  | .error _ => return false

def follow (s : Slice) (slot : UInt64) (what : String) : Sweep (Option UInt64) := do
  match ← (Run.target s slot).run with
  | .ok .null => return none
  | .ok (.address a) =>
    if ← isMapped s a then return some a
    else plain (Survey.lost (Survey.warnDangling slot a what))
  | .ok (.symbol t) =>
    plain (Survey.lost (Survey.warn .unexpectedBind slot (what ++ " is bound to " ++ t.symbol)))
  | .error e => plain (Survey.lost (Survey.warnUnread slot what e))

def text (s : Slice) (address : UInt64) (what : String) : Sweep (Option String) := do
  if ← isEncryptedAt s address then
    plain (Survey.lost
      (Survey.warn .encryptedRegion address (what ++ " lies in the encrypted range")))
  else read address what (Run.cstringAt s address)

def followText (s : Slice) (slot : UInt64) (what : String) : Sweep (Option String) := do
  let some address ← follow s slot what | return none
  text s address what

theorem tracks_read {r : Except ImageError α} {m : Run α} (h : Run.Runs m r) (address : UInt64)
    (what : String) : Tracks (read address what m) (Survey.read address what r) :=
  .step h (tracks_plain _)

section

variable {s : Slice} (hs : s.Checked)

include hs

theorem tracks_u32 (address : UInt64) (what : String) :
    Tracks (u32 s address what) (Survey.u32 s address what) :=
  (tracks_read (Run.runs_u32At hs address) address what).bind fun _ => tracks_pure _

theorem isMapped_eq (address : UInt64) : isMapped s address = some (s.isMapped address) := by
  have hrun : (Run.fileOffset s address).run = _ := Run.runs_fileOffset hs address
  rw [isMapped, hrun]
  rfl

theorem isEncryptedAt_eq (address : UInt64) :
    isEncryptedAt s address = some (s.isEncryptedAt address) := by
  have hrun : (Run.fileOffset s address).run = _ := Run.runs_fileOffset hs address
  rw [isEncryptedAt, Slice.isEncryptedAt, hrun]
  cases s.fileOffset address with
  | ok offset => rfl
  | error e => rfl

theorem tracks_follow (slot : UInt64) (what : String) :
    Tracks (follow s slot what) (Survey.follow s slot what) := by
  rw [follow, Survey.follow]
  refine .step (Run.runs_target hs slot) ?_
  cases s.target slot with
  | error e => exact tracks_plain _
  | ok value =>
    cases value with
    | null => exact tracks_pure none
    | symbol t => exact tracks_plain _
    | address a =>
      exact .step (isMapped_eq hs a) (.ite (fun _ => tracks_pure _) fun _ => tracks_plain _)

theorem tracks_text (address : UInt64) (what : String) :
    Tracks (text s address what) (Survey.text s address what) := by
  refine .step (isEncryptedAt_eq hs address) (.ite (fun _ => tracks_plain _) fun _ => ?_)
  exact tracks_read (Run.runs_cstringAt hs address) address what

theorem tracks_followText (slot : UInt64) (what : String) :
    Tracks (followText s slot what) (Survey.followText s slot what) := by
  refine (tracks_follow hs slot what).bind fun found => ?_
  cases found with
  | none => exact tracks_pure none
  | some address => exact tracks_text hs address what

end

end Sweep

end ObjcAtlas
