import ObjcAtlas.Image.Slice
import ObjcAtlas.Proofs.Image.Stretch

set_option autoImplicit false

namespace ObjcAtlas

section Failures

variable {α β : Type} {step : Except ImageError α} {f : α → Except ImageError β}

/-- The step fails only with errors after which nothing of a slice can be used. -/
def FailsFatally (step : Except ImageError α) : Prop := ∀ e, step = .error e → e.isFatal = true

theorem failsFatally_ok (a : α) : FailsFatally (.ok a) := failsOnly_ok a

theorem FailsFatally.bind (h : FailsFatally step) (k : ∀ a, step = .ok a → FailsFatally (f a)) :
    FailsFatally (step >>= f) :=
  FailsOnly.bind h k

theorem failsFatally_throw_if {c : Prop} [Decidable c] {e : ImageError}
    {f : PUnit → Except ImageError β} (he : e.isFatal = true) (hf : ¬ c → FailsFatally (f ⟨⟩)) :
    FailsFatally (if c then throw e >>= f else f ⟨⟩) :=
  failsOnly_throw_if (P := fun x : ImageError => x.isFatal = true) he hf

theorem failsFatally_mapError {g : ImageError → ImageError} (hg : ∀ e, (g e).isFatal = true) :
    FailsFatally (step.mapError g) := by
  intro e he
  cases step with
  | ok a => exact absurd he nofun
  | error e' =>
    rw [← Except.error.inj he]
    exact hg e'

theorem ImageError.isFatal_iff {e : ImageError} : e.isFatal = true ↔
    (∃ expected actual, e = .badMagic expected actual) ∨
      (∃ expected actual, e = .tooShort expected actual) ∨
      ∃ index offset reason, e = .malformedCommand index offset reason := by
  cases e <;> simp [isFatal]

theorem failsFatally_forM {g : α → Except ImageError Unit} {as : List α}
    (h : ∀ a, FailsFatally (g a)) : FailsFatally (as.forM g) := by
  induction as with
  | nil => exact failsFatally_ok _
  | cons a as ih => exact (h a).bind fun _ _ => ih

end Failures

namespace Command

variable {r : Reader} {c : Command}

def Returns (step : Except ImageError Command) (kind : CommandKind) : Prop :=
  ∀ c, step = .ok c → c.kind? = some kind

theorem returns_after {α : Type} {step : Except ImageError α} {f : α → Except ImageError Command}
    {kind : CommandKind} (h : ∀ a, Returns (f a) kind) : Returns (step >>= f) kind := by
  intro c hc
  obtain ⟨a, -, ha⟩ := bind_eq_ok.1 hc
  exact h a c ha

theorem returns_pure {kind : CommandKind} (h : c.kind? = some kind) : Returns (pure c) kind := by
  intro c' hc
  rwa [← Except.ok.inj hc]

theorem readBody_returns (r : Reader) (kind : CommandKind) : Returns (readBody r kind) kind := by
  cases kind with
  | segment bits => exact returns_after fun _ => returns_pure rfl
  | symtab =>
    exact returns_after fun _ => returns_after fun _ => returns_after fun _ =>
      returns_after fun _ => returns_pure rfl
  | dysymtab =>
    exact returns_after fun _ => returns_after fun _ => returns_after fun _ =>
      returns_after fun _ => returns_after fun _ => returns_after fun _ => returns_pure rfl
  | dylib link => exact returns_after fun _ => returns_pure rfl
  | idDylib => exact returns_after fun _ => returns_pure rfl
  | rpath => exact returns_after fun _ => returns_pure rfl
  | uuid => exact returns_after fun _ => returns_pure rfl
  | buildVersion =>
    exact returns_after fun _ => returns_after fun _ => returns_after fun _ => returns_pure rfl
  | versionMin platform => exact returns_after fun _ => returns_after fun _ => returns_pure rfl
  | sourceVersion => exact returns_after fun _ => returns_pure rfl
  | entryPoint => exact returns_after fun _ => returns_after fun _ => returns_pure rfl
  | encryption bits =>
    exact returns_after fun _ => returns_after fun _ => returns_after fun _ => returns_pure rfl
  | dyldInfo only =>
    exact returns_after fun _ => returns_after fun _ => returns_after fun _ =>
      returns_after fun _ => returns_after fun _ => returns_pure rfl
  | linkedit table => exact returns_after fun _ => returns_pure rfl

theorem code_of_kind? {kind : CommandKind} (h : c.kind? = some kind) : c.code = kind.code := by
  cases c <;> cases h <;> rfl

theorem of_read (h : read r = .ok c) :
    r.u32 0 = .ok c.code ∧ ∀ code bytes, c = .unrecognized code bytes → bytes = r.bytes := by
  rw [read] at h
  obtain ⟨-, h⟩ := throw_if_eq_ok.1 h
  obtain ⟨code, hcode, h⟩ := bind_eq_ok.1 h
  rw [hcode]
  split at h
  next kind hkind =>
    have hc := readBody_returns r kind c h
    refine ⟨congrArg Except.ok ?_, ?_⟩
    · rw [code_of_kind? hc, CommandKind.code_of_ofCode? hkind]
    · rintro code bytes rfl
      exact absurd hc nofun
  next =>
    obtain rfl := Except.ok.inj h
    refine ⟨rfl, ?_⟩
    rintro _ _ ⟨⟩
    rfl

/-- The command stands at `start` and takes `size` bytes: these tell its size and its code, and it
    is read from them alone. -/
structure StandsAt (r : Reader) (c : Command) (start : Nat) (size : UInt32) : Prop where
  least : 8 ≤ size.toNat
  stored : r.u32 (start + 4) = .ok size
  read : ∃ body, r.sub start size.toNat = .ok body ∧ Command.read body = .ok c
  code : r.u32 start = .ok c.code
  kept : ∀ code bytes, c = .unrecognized code bytes → r.slice start size.toNat = .ok bytes

/-- What a command's own bytes say of it, seen from the whole image. -/
theorem standsAt {start : Nat} {size : UInt32} {body : Reader} (hleast : 8 ≤ size.toNat)
    (hstored : r.u32 (start + 4) = .ok size) (hbody : r.sub start size.toNat = .ok body)
    (hread : Command.read body = .ok c) : c.StandsAt r start size := by
  obtain ⟨hcode, hkept⟩ := of_read hread
  have hzero : body.u32 0 = r.u32 start := Reader.u32_sub hbody (by omega)
  refine ⟨hleast, hstored, ⟨body, hbody, hread⟩, by rw [← hcode, hzero], ?_⟩
  rintro code bytes hc
  obtain ⟨all, hall, hreader⟩ := map_eq_ok.1 hbody
  rw [hkept code bytes hc, hall, ← hreader]

end Command

namespace Slice

/-- The commands stand one behind the other, from `start` to `stop`. -/
inductive Tiles (r : Reader) : (start : Nat) → List Command → (stop : Nat) → Prop
  | nil (place : Nat) : Tiles r place [] place
  | cons {c : Command} {cs : List Command} {start stop : Nat} {size : UInt32}
      (hc : c.StandsAt r start size) (hcs : Tiles r (start + size.toNat) cs stop) :
      Tiles r start (c :: cs) stop

theorem readCommands_succ {table : Reader} {start count index offset : Nat} {cs : List Command}
    (h : readCommands table start (count + 1) index offset = .ok cs) :
    ∃ size body c rest, table.u32 (offset + 4) = .ok size ∧ 8 ≤ size.toNat ∧
      offset + size.toNat ≤ table.size ∧ table.sub offset size.toNat = .ok body ∧
      Command.read body = .ok c ∧
      readCommands table start count (index + 1) (offset + size.toNat) = .ok rest ∧
      cs = c :: rest := by
  rw [readCommands] at h
  obtain ⟨-, h⟩ := throw_if_eq_ok.1 h
  obtain ⟨size, hsize, h⟩ := bind_eq_ok.1 h
  obtain ⟨-, h⟩ := throw_if_eq_ok.1 h
  obtain ⟨hleast, h⟩ := throw_if_eq_ok.1 h
  obtain ⟨hend, h⟩ := throw_if_eq_ok.1 h
  obtain ⟨body, hbody, h⟩ := bind_eq_ok.1 h
  obtain ⟨c, hread, h⟩ := bind_eq_ok.1 h
  obtain ⟨rest, hrest, h⟩ := bind_eq_ok.1 h
  exact ⟨size, body, c, rest, hsize, Nat.not_lt.1 hleast, Nat.not_lt.1 hend, hbody,
    mapError_eq_ok.1 hread, hrest, (Except.ok.inj h).symm⟩

/-- The commands that are read from a table fill it from the place where reading starts. -/
theorem tiles_of_readCommands {r table : Reader} {start total count index offset : Nat}
    {cs : List Command} (ht : r.sub start total = .ok table) (hoffset : offset ≤ total)
    (h : readCommands table start count index offset = .ok cs) :
    cs.length = count ∧ ∃ stop ≤ start + total, Tiles r (start + offset) cs stop := by
  induction count generalizing index offset cs with
  | zero =>
    obtain rfl := Except.ok.inj h
    exact ⟨rfl, start + offset, by omega, .nil _⟩
  | succ count ih =>
    obtain ⟨size, body, c, rest, hstored, hleast, hend, hbody, hread, hrest, rfl⟩ :=
      readCommands_succ h
    rw [Reader.size_of_sub ht] at hend
    -- The table's own reads are reads of the image at the table's place.
    rw [Reader.u32_sub ht (by omega), ← Nat.add_assoc] at hstored
    rw [Reader.sub_sub ht hend] at hbody
    obtain ⟨hlength, stop, hstop, htiles⟩ := ih hend hrest
    rw [← Nat.add_assoc] at htiles
    exact ⟨congrArg Nat.succ hlength, stop, hstop,
      .cons (Command.standsAt hleast hstored hbody hread) htiles⟩

theorem failsFatally_readCommands {table : Reader} {start : Nat} (count index offset : Nat) :
    FailsFatally (readCommands table start count index offset) := by
  induction count generalizing index offset with
  | zero => exact failsFatally_ok _
  | succ count ih =>
    rw [readCommands]
    refine failsFatally_throw_if rfl fun hheader => ?_
    -- Behind this check the two words of the command's header are there, and behind the next ones
    -- all of its bytes.
    obtain ⟨size, hsize⟩ : ∃ size, table.u32 (offset + 4) = .ok size :=
      Reader.u32_of_le (by omega)
    rw [hsize]
    refine (failsFatally_ok size).bind fun size' _ => ?_
    refine failsFatally_throw_if rfl fun _ => failsFatally_throw_if rfl fun _ => ?_
    refine failsFatally_throw_if rfl fun hend => ?_
    have hbody : table.sub offset size'.toNat = .ok _ :=
      map_eq_ok.2 ⟨_, Reader.slice_of_le (Nat.not_lt.1 hend), rfl⟩
    rw [hbody]
    refine (failsFatally_ok _).bind fun body _ => ?_
    refine (failsFatally_mapError fun _ => rfl).bind fun c _ => ?_
    exact (ih _ _).bind fun rest _ => failsFatally_ok _

theorem failsFatally_header (bytes : ByteArray) : FailsFatally (Header.read bytes) := by
  rw [Header.read]
  refine failsFatally_throw_if rfl fun hshort => ?_
  dsimp only
  split
  next bits order _ =>
    refine failsFatally_throw_if rfl fun _ => ?_
    -- All six words lie in the first 28 bytes.
    have hword (offset : Nat) (h : offset + 4 ≤ 28) :
        FailsFatally ((⟨bytes, order⟩ : Reader).u32 offset) := by
      have hsize : offset + 4 ≤ (⟨bytes, order⟩ : Reader).size :=
        Nat.le_trans h (Nat.not_lt.1 hshort)
      obtain ⟨n, hn⟩ := Reader.u32_of_le hsize
      rw [hn]
      exact failsFatally_ok n
    refine (hword 4 (by decide)).bind fun _ _ => (hword 8 (by decide)).bind fun _ _ =>
      (hword 12 (by decide)).bind fun _ _ => (hword 16 (by decide)).bind fun _ _ =>
      (hword 20 (by decide)).bind fun _ _ => (hword 24 (by decide)).bind fun _ _ => ?_
    exact failsFatally_ok _
  next =>
    rintro e ⟨⟩
    rfl

theorem failsFatally_read (bytes : ByteArray) (offset : Nat) :
    FailsFatally (read bytes offset) := by
  refine (failsFatally_header bytes).bind fun header _ => ?_
  have htable (r : Reader) : FailsFatally (readCommandTable r header) :=
    (failsFatally_mapError fun _ => rfl).bind fun _ _ => failsFatally_readCommands _ _ _
  have hcheck (size : Nat) (segments : List Segment) : FailsFatally (checkSegments size segments) :=
    failsFatally_forM fun _ => failsFatally_mapError fun _ => rfl
  exact (htable _).bind fun commands _ => (hcheck _ _).bind fun _ _ => failsFatally_ok _

theorem checkSegments_forall {imageSize : Nat} {segments : List Segment}
    (h : checkSegments imageSize segments = .ok ()) :
    ∀ t ∈ segments, t.check imageSize = .ok () := by
  intro t ht
  obtain ⟨i, hi⟩ := List.getElem?_of_mem ht
  have hmem : (t, i) ∈ segments.zipIdx := by
    rw [List.mem_zipIdx_iff_getElem?]
    exact hi
  exact mapError_eq_ok.1 (of_forM_eq_ok h (t, i) hmem)

theorem of_read {bytes : ByteArray} {offset : Nat} {s : Slice} (h : read bytes offset = .ok s) :
    Header.read bytes = .ok s.header ∧ s.reader = ⟨bytes, s.header.order⟩ ∧
      readCommandTable s.reader s.header = .ok s.commands ∧
      s.segments = s.commands.filterMap Command.segment? ∧
      checkSegments bytes.size s.segments = .ok () := by
  obtain ⟨header, hheader, h⟩ := bind_eq_ok.1 h
  obtain ⟨commands, hcommands, h⟩ := bind_eq_ok.1 h
  obtain ⟨⟨⟩, hcheck, h⟩ := bind_eq_ok.1 h
  cases h
  exact ⟨hheader, rfl, hcommands, rfl, hcheck⟩

theorem load_of_thin {bytes : ByteArray} (h : isUniversal bytes = false) :
    load bytes none = read bytes 0 := by
  rw [load, h]
  cases read bytes 0 <;> rfl

theorem tiles_of_readCommandTable {r : Reader} {header : Header} {cs : List Command}
    (h : readCommandTable r header = .ok cs) :
    cs.length = header.commandCount.toNat ∧
      ∃ stop ≤ header.size + header.commandsSize.toNat, Tiles r header.size cs stop := by
  obtain ⟨table, htable, h⟩ := bind_eq_ok.1 h
  exact tiles_of_readCommands (mapError_eq_ok.1 htable) (Nat.zero_le _) h

/-- A file of one image is refused only for its magic number, its size or its commands. If it is
    read, it has as many commands as the header says. They fill the table behind the header one
    after the other, each read from its own bytes, which start with its code. The segments are those
    of the commands, in order, and each fits in the file. -/
theorem load_tiles (bytes : ByteArray) (hthin : isUniversal bytes = false) :
    (∀ e, load bytes none = .error e → e.isFatal = true ∧
      ((∃ expected actual, e = .badMagic expected actual) ∨
        (∃ expected actual, e = .tooShort expected actual) ∨
        ∃ index offset reason, e = .malformedCommand index offset reason)) ∧
    ∀ s, load bytes none = .ok s →
      Header.read bytes = .ok s.header ∧ s.reader = ⟨bytes, s.header.order⟩ ∧
      s.commands.length = s.header.commandCount.toNat ∧
      (∃ stop ≤ s.header.size + s.header.commandsSize.toNat,
        Tiles s.reader s.header.size s.commands stop) ∧
      s.segments = s.commands.filterMap Command.segment? ∧
      ∀ t ∈ s.segments, t.check bytes.size = .ok () := by
  rw [load_of_thin hthin]
  constructor
  · intro e he
    have hfatal := failsFatally_read bytes 0 e he
    exact ⟨hfatal, ImageError.isFatal_iff.1 hfatal⟩
  · intro s hs
    obtain ⟨hheader, hreader, hcommands, hsegments, hcheck⟩ := of_read hs
    obtain ⟨hcount, htiles⟩ := tiles_of_readCommandTable hcommands
    exact ⟨hheader, hreader, hcount, htiles, hsegments, checkSegments_forall hcheck⟩

/-- A 32-bit big-endian image with a command of unknown layout and one that gives a version, in a
    table with four bytes to spare. -/
def twoCommands : ByteArray := ⟨#[
  0xFE, 0xED, 0xFA, 0xCE, 0, 0, 0, 12, 0, 0, 0, 9, 0, 0, 0, 2, 0, 0, 0, 2, 0, 0, 0, 32, 0, 0, 0, 0,
  0, 0, 0, 0x99, 0, 0, 0, 12, 1, 2, 3, 4,
  0, 0, 0, 0x2A, 0, 0, 0, 16, 0, 0, 0, 0, 0, 0, 0, 7,
  0, 0, 0, 0]⟩

theorem load_tiles_twoCommands :
    isUniversal twoCommands = false ∧ ∃ s, load twoCommands none = .ok s ∧ s.commands.length = 2 ∧
      ∃ stop ≤ 60, Tiles s.reader 28 s.commands stop := by
  have hthin : isUniversal twoCommands = false := by decide +kernel
  have hheader : Header.read twoCommands =
      .ok ⟨0xCEFAEDFE, .bits32, .big, 12, 9, .execute, 2, 32, 0⟩ := by rfl
  have hok : (load twoCommands none).isOk = true := by decide +kernel
  refine ⟨hthin, ?_⟩
  cases hs : load twoCommands none with
  | error e => exact absurd (hs ▸ hok) nofun
  | ok s =>
    obtain ⟨hread, -, hcount, htiles, -⟩ := (load_tiles twoCommands hthin).2 s hs
    obtain hs := Except.ok.inj (hread.symm.trans hheader)
    rw [hs] at hcount htiles
    exact ⟨s, rfl, hcount, htiles⟩

end Slice

end ObjcAtlas
