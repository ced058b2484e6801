import ObjcAtlas.Image.Reader
import ObjcAtlas.Proofs.Result

set_option autoImplicit false

namespace ObjcAtlas

namespace Reader

variable {r : Reader} {offset length : Nat}

theorem slice_of_le (h : offset + length ≤ r.size) :
    r.slice offset length = .ok (r.bytes.extract offset (offset + length)) := if_pos h

theorem le_of_slice {bytes : ByteArray} (h : r.slice offset length = .ok bytes) :
    offset + length ≤ r.size ∧ bytes = r.bytes.extract offset (offset + length) := by
  unfold slice at h
  split at h
  next hle => exact ⟨hle, (Except.ok.inj h).symm⟩
  next => exact absurd h nofun

theorem u32_of_le (h : offset + 4 ≤ r.size) : ∃ n, r.u32 offset = .ok n := by
  rw [u32, number, slice_of_le h]
  exact ⟨_, rfl⟩

theorem number_eq_error {width : Nat} {e : ImageError} :
    r.number width offset = .error e ↔
      r.size < offset + width ∧ e = .outOfBounds offset width r.size := by
  rw [number, map_eq_error, slice]
  split
  next h => exact ⟨nofun, fun h' => absurd h (Nat.not_le.2 h'.1)⟩
  next h => exact ⟨fun he => ⟨Nat.not_le.1 h, (Except.error.inj he).symm⟩, fun he => by rw [he.2]⟩

theorem failsOnly_slice {P : ImageError → Prop}
    (h : ∀ offset length size, P (.outOfBounds offset length size)) (r : Reader)
    (offset length : Nat) : FailsOnly P (r.slice offset length) := by
  rw [slice]
  split
  · exact failsOnly_ok _
  · exact failsOnly_error (h _ _ _)

theorem failsOnly_number {P : ImageError → Prop}
    (h : ∀ offset length size, P (.outOfBounds offset length size)) (r : Reader)
    (width offset : Nat) : FailsOnly P (r.number width offset) :=
  (failsOnly_slice h r offset width).map _

theorem failsOnly_cstring {P : ImageError → Prop}
    (h : ∀ offset length size, P (.outOfBounds offset length size)) (r : Reader) (offset : Nat) :
    FailsOnly P (r.cstring offset) := by
  apply FailsOnly.map
  rw [untilZero]
  split
  · exact failsOnly_error (h _ _ _)
  · split
    · exact failsOnly_ok _
    · exact failsOnly_error (h _ _ _)

theorem slice_sub {table : Reader} {start size : Nat} (ht : r.sub start size = .ok table)
    (h : offset + length ≤ size) : table.slice offset length = r.slice (start + offset) length := by
  obtain ⟨bytes, hbytes, rfl⟩ := map_eq_ok.1 ht
  obtain ⟨hle, rfl⟩ := le_of_slice hbytes
  have hsize : (r.bytes.extract start (start + size)).size = size := by
    rw [ByteArray.size_extract]
    have : start + size ≤ r.bytes.size := hle
    omega
  have htable : offset + length ≤ (⟨r.bytes.extract start (start + size), r.order⟩ : Reader).size :=
    Nat.le_trans h (Nat.le_of_eq hsize.symm)
  rw [slice_of_le htable, slice_of_le (by omega)]
  refine congrArg Except.ok ?_
  rw [ByteArray.extract_extract]
  congr 1
  omega

theorem u32_sub {table : Reader} {start size : Nat} (ht : r.sub start size = .ok table)
    (h : offset + 4 ≤ size) : table.u32 offset = r.u32 (start + offset) := by
  have horder : table.order = r.order := by
    obtain ⟨bytes, -, rfl⟩ := map_eq_ok.1 ht
    rfl
  rw [u32, u32, number, number, slice_sub ht h, horder]

theorem sub_sub {table : Reader} {start size : Nat} (ht : r.sub start size = .ok table)
    (h : offset + length ≤ size) : table.sub offset length = r.sub (start + offset) length := by
  have horder : table.order = r.order := by
    obtain ⟨bytes, -, rfl⟩ := map_eq_ok.1 ht
    rfl
  rw [sub, sub, slice_sub ht h, horder]

theorem size_of_sub {table : Reader} {start size : Nat} (ht : r.sub start size = .ok table) :
    table.size = size := by
  obtain ⟨bytes, hbytes, rfl⟩ := map_eq_ok.1 ht
  obtain ⟨hle, rfl⟩ := le_of_slice hbytes
  have hall : start + size ≤ r.bytes.size := hle
  change (r.bytes.extract start (start + size)).size = size
  rw [ByteArray.size_extract]
  omega

theorem byteAt_extract {x : ByteArray} {a n i : Nat} (ha : a + n ≤ x.size) (hi : i < n) :
    byteAt (x.extract a (a + n)) i = byteAt x (a + i) := by
  have hsize : i < (x.extract a (a + n)).size := by
    rw [ByteArray.size_extract]
    omega
  rw [byteAt, byteAt, dif_pos hsize, dif_pos (by omega), ByteArray.getElem_extract]

theorem zeroFrom_extract {x : ByteArray} {a n count i : Nat} (ha : a + n ≤ x.size)
    (hi : i + count ≤ n) :
    zeroFrom x count (a + i) = (zeroFrom (x.extract a (a + n)) count i).map (a + ·) := by
  induction count generalizing i with
  | zero => rfl
  | succ count ih =>
    rw [zeroFrom, zeroFrom, byteAt_extract ha (by omega)]
    split
    · rfl
    · exact ih (i := i + 1) (by omega)

/-- The first zero byte from `start` on stands at `stop`. -/
def FirstZero (bytes : ByteArray) (start stop : Nat) : Prop :=
  start ≤ stop ∧ byteAt bytes stop = 0 ∧ ∀ i, start ≤ i → i < stop → byteAt bytes i ≠ 0

theorem zeroFrom_eq_some {bytes : ByteArray} {count start stop : Nat} :
    zeroFrom bytes count start = some stop ↔ FirstZero bytes start stop ∧ stop < start + count := by
  induction count generalizing start with
  | zero =>
    constructor
    · exact nofun
    · rintro ⟨⟨hle, -⟩, hlt⟩
      omega
  | succ count ih =>
    rw [zeroFrom]
    by_cases hz : byteAt bytes start = 0
    · rw [if_pos hz]
      constructor
      · intro h
        obtain rfl := Option.some.inj h
        exact ⟨⟨Nat.le_refl _, hz, fun i hlo hhi => by omega⟩, by omega⟩
      · rintro ⟨⟨hle, -, hbefore⟩, -⟩
        by_cases hlt : start < stop
        · exact absurd hz (hbefore start (Nat.le_refl _) hlt)
        · exact congrArg some (by omega)
    · rw [if_neg hz, ih]
      constructor
      · rintro ⟨⟨hle, hstop, hbefore⟩, hlt⟩
        refine ⟨⟨by omega, hstop, fun i hlo hhi => ?_⟩, by omega⟩
        by_cases hi : i = start
        · rwa [hi]
        · exact hbefore i (by omega) hhi
      · rintro ⟨⟨hle, hstop, hbefore⟩, hlt⟩
        have hne : start ≠ stop := fun h => hz (h ▸ hstop)
        exact ⟨⟨by omega, hstop, fun i hlo hhi => hbefore i (by omega) hhi⟩, by omega⟩

theorem cstring_sub {part : Reader} {start size : Nat} {text : String}
    (hp : r.sub start size = .ok part) (h : offset ≤ size) :
    part.cstring offset = .ok text ↔ ∃ stop, FirstZero r.bytes (start + offset) stop ∧
      stop < start + size ∧
      text = Utf8.decodeLossy (r.bytes.extract (start + offset) stop).data.toList := by
  have hsize := size_of_sub hp
  obtain ⟨bytes, hbytes, rfl⟩ := map_eq_ok.1 hp
  obtain ⟨hle, rfl⟩ := le_of_slice hbytes
  have hfind : zeroFrom r.bytes (size - offset) (start + offset) =
      (zeroFrom (r.bytes.extract start (start + size)) (size - offset) offset).map (start + ·) :=
    zeroFrom_extract hle (by omega)
  rw [cstring, untilZero, hsize, if_neg (by omega), map_eq_ok]
  cases hz : zeroFrom (r.bytes.extract start (start + size)) (size - offset) offset with
  | none =>
    rw [hz] at hfind
    constructor
    · rintro ⟨bytes, h, -⟩
      exact absurd h nofun
    · rintro ⟨stop, hstop, hlt, -⟩
      have hsome := zeroFrom_eq_some.2 ⟨hstop, (by omega : stop < start + offset + (size - offset))⟩
      rw [hfind] at hsome
      exact absurd hsome nofun
  | some place =>
    rw [hz, Option.map_some] at hfind
    obtain ⟨hzero, hlt⟩ := zeroFrom_eq_some.1 hfind
    have hextract : (r.bytes.extract start (start + size)).extract offset place =
        r.bytes.extract (start + offset) (start + place) := by
      rw [ByteArray.extract_extract]
      congr 1
      omega
    simp only [hextract, Except.ok.injEq, exists_eq_left']
    constructor
    · rintro rfl
      exact ⟨start + place, hzero, by omega, rfl⟩
    · rintro ⟨stop, hstop, hlt', rfl⟩
      have hsome := zeroFrom_eq_some.2
        ⟨hstop, (by omega : stop < start + offset + (size - offset))⟩
      rw [hfind] at hsome
      obtain rfl := Option.some.inj hsome
      rfl

end Reader

end ObjcAtlas
