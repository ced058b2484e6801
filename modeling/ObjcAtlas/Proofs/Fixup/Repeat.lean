import Mathlib.Data.List.Nodup
import Mathlib.Data.List.Perm.Subperm
import Mathlib.Data.Nat.ModEq
import Mathlib.Data.Nat.Prime.Basic
import ObjcAtlas.Proofs.Fixup.Located

set_option autoImplicit false

/-!
# Repeated binds

One instruction of a bind program binds many slots, each as far behind the one before. Every slot
has to lie in the segment, but that bounds their number only as long as they are different, and
moving on is modulo `2 ^ 64`. The places come back after `period` moves. In a segment that takes no
more than half of all addresses they leave the segment before they come back, unless the distance
is zero and they stay where they are, and then any number of binds succeeds.
-/
namespace ObjcAtlas

namespace BindState

variable {distance : UInt64} {i j count : Nat}

/-- How many moves by the distance lead back to where they started. -/
def period (distance : UInt64) : Nat := 2 ^ 64 / Nat.gcd (2 ^ 64) distance.toNat

theorem toNat_place (offset distance : UInt64) (i : Nat) :
    (offset + UInt64.ofNat i * distance).toNat =
      (offset.toNat + i * distance.toNat) % 2 ^ 64 := by
  rw [UInt64.toNat_add, UInt64.toNat_mul, UInt64.toNat_ofNat']
  simp [Nat.add_mod, Nat.mul_mod]

theorem period_mul_gcd (distance : UInt64) :
    period distance * Nat.gcd (2 ^ 64) distance.toNat = 2 ^ 64 :=
  Nat.div_mul_cancel (Nat.gcd_dvd_left _ _)

theorem period_pos (distance : UInt64) : 0 < period distance := by
  apply Nat.pos_of_ne_zero
  intro h0
  have h := period_mul_gcd distance
  rw [h0, Nat.zero_mul] at h
  omega

theorem modEq_mul_iff (distance : UInt64) (i j : Nat) :
    i * distance.toNat ≡ j * distance.toNat [MOD 2 ^ 64] ↔ i ≡ j [MOD period distance] := by
  constructor
  · intro h
    exact h.cancel_right_div_gcd (Nat.two_pow_pos 64)
  · intro h
    have hdvd : 2 ^ 64 ∣ period distance * distance.toNat := by
      nth_rewrite 1 [← period_mul_gcd distance]
      exact Nat.mul_dvd_mul_left _ (Nat.gcd_dvd_right _ _)
    exact (h.mul_right' distance.toNat).of_dvd hdvd

theorem place_eq_iff (offset distance : UInt64) (i j : Nat) :
    offset + UInt64.ofNat i * distance = offset + UInt64.ofNat j * distance ↔
      i ≡ j [MOD period distance] := by
  rw [← UInt64.toNat_inj, toNat_place, toNat_place, ← modEq_mul_iff]
  constructor
  · intro h
    exact Nat.ModEq.add_left_cancel' offset.toNat h
  · intro h
    exact h.add_left offset.toNat

theorem half_period (h : distance ≠ 0) :
    ∃ half, 0 < half ∧ half < period distance ∧ half * distance.toNat % 2 ^ 64 = 2 ^ 63 := by
  have hpos := period_pos distance
  have hzero : ¬ 2 ^ 64 ∣ distance.toNat := by
    intro hdvd
    have hlt := distance.toNat_lt
    have hne : distance.toNat ≠ 0 := fun h0 => h (UInt64.toNat_inj.1 h0)
    exact absurd (Nat.le_of_dvd (by omega) hdvd) (by omega)
  have hone : period distance ≠ 1 := by
    intro h1
    have hall := (modEq_mul_iff distance 1 0).2 (h1 ▸ Nat.modEq_one)
    rw [Nat.one_mul, Nat.zero_mul] at hall
    exact hzero (Nat.modEq_zero_iff_dvd.1 hall)
  obtain ⟨k, -, hk⟩ := (Nat.dvd_prime_pow Nat.prime_two).1
    (Dvd.intro _ (period_mul_gcd distance))
  obtain ⟨k, rfl⟩ : ∃ m, k = m + 1 := by
    cases k with
    | zero => exact absurd hk hone
    | succ m => exact ⟨m, rfl⟩
  rw [Nat.pow_succ] at hk
  refine ⟨2 ^ k, Nat.two_pow_pos k, by omega, ?_⟩
  -- Twice this many moves lead back, and these alone do not.
  have hback := (modEq_mul_iff distance (2 ^ k * 2) 0).2
    (hk ▸ Nat.modEq_zero_iff_dvd.2 (Nat.dvd_refl _))
  have haway : ¬ 2 ^ k * distance.toNat ≡ 0 * distance.toNat [MOD 2 ^ 64] := by
    rw [modEq_mul_iff, Nat.modEq_zero_iff_dvd, hk]
    intro hdvd
    have := Nat.le_of_dvd (Nat.two_pow_pos k) hdvd
    have := Nat.two_pow_pos k
    omega
  rw [Nat.mul_right_comm] at hback
  simp only [Nat.ModEq, Nat.zero_mul, Nat.zero_mod] at hback haway
  omega

variable {s : BindState} {t : Segment} {table : BindTable} {pc : Nat}

/-- Places in the segment where `count` binds happen, each `distance` bytes on. -/
def places (s : BindState) (distance : UInt64) (count : Nat) : List UInt64 :=
  (List.range count).map fun i => s.offset + UInt64.ofNat i * distance

def bound (s : BindState) (t : Segment) (places : List UInt64) (table : BindTable) : BindTable :=
  if s.isAnnouncement then table
  else places.foldl
    (fun table place => table.insert (t.fileOffset.toNat + place.toNat) s.target) table

theorem places_succ (s : BindState) (distance : UInt64) (count : Nat) :
    s.places distance (count + 1) = s.offset :: (s.advance distance).places distance count := by
  rw [places, List.range_succ_eq_map, List.map_cons, List.map_map]
  congr 1
  · simp
  · apply List.map_congr_left
    intro i _
    simp only [Function.comp, advance, UInt64.ofNat_add, Nat.succ_eq_add_one, UInt64.add_mul]
    rw [show UInt64.ofNat 1 = 1 from rfl, UInt64.one_mul, UInt64.add_assoc,
      UInt64.add_comm distance]

theorem bound_cons (s : BindState) (t : Segment) (place : UInt64) (places : List UInt64)
    (table : BindTable) :
    s.bound t (place :: places) table = s.bound t places (s.bound t [place] table) := by
  unfold bound
  split <;> rfl

theorem bind_eq_bound (hs : s.segment = some t) {table' : BindTable} :
    s.bind pc table = .ok table' ↔
      s.offset < t.fileSize ∧ table' = s.bound t [s.offset] table := by
  rw [bind_eq_ok, hs]
  constructor
  · rintro ⟨u, hu, h⟩
    obtain rfl := Option.some.inj hu
    exact h
  · intro h
    exact ⟨t, rfl, h⟩

/-- The loop succeeds when all its places lie in the segment, and has then bound them in turn. -/
theorem bindTimes_eq_ok (hs : s.segment = some t) {r : BindState × BindTable} :
    bindTimes distance pc count s table = .ok r ↔
      (∀ place ∈ s.places distance count, place < t.fileSize) ∧
        r = (s.advance (UInt64.ofNat count * distance),
          s.bound t (s.places distance count) table) := by
  induction count generalizing s table with
  | zero =>
    have hstay : s.advance (UInt64.ofNat 0 * distance) = s := by simp [advance]
    have hsame : s.bound t [] table = table := by simp [bound]
    rw [hstay, bindTimes, places, List.range_zero, List.map_nil, hsame, Except.ok.injEq]
    simp [eq_comm]
  | succ count ih =>
    have hmove : (s.advance distance).advance (UInt64.ofNat count * distance) =
        s.advance (UInt64.ofNat (count + 1) * distance) := by
      simp only [advance, UInt64.ofNat_add, UInt64.add_mul]
      rw [show UInt64.ofNat 1 = 1 from rfl, UInt64.one_mul, UInt64.add_assoc,
        UInt64.add_comm distance]
    rw [places_succ, bound_cons, List.forall_mem_cons, ← hmove, and_assoc, bindTimes_succ_eq_ok]
    simp only [bind_eq_bound hs, ih (s := s.advance distance) hs, and_assoc, exists_and_left,
      exists_eq_left]
    rfl

theorem nodup_places_iff : (s.places distance count).Nodup ↔ count ≤ period distance := by
  rw [places, List.nodup_map_iff_inj_on List.nodup_range]
  simp only [List.mem_range, place_eq_iff]
  constructor
  · intro h
    by_contra hlt
    have hpos := period_pos distance
    have hback : 0 ≡ period distance [MOD period distance] :=
      (Nat.modEq_zero_iff_dvd.2 (Nat.dvd_refl _)).symm
    have := h 0 (by omega) (period distance) (by omega) hback
    omega
  · intro h i hi j hj hij
    exact hij.eq_of_lt_of_lt (by omega) (by omega)

theorem count_le_of_nodup (h : (s.places distance count).Nodup)
    (hin : ∀ place ∈ s.places distance count, place < t.fileSize) :
    count ≤ t.fileSize.toNat := by
  have hnodup : ((s.places distance count).map UInt64.toNat).Nodup :=
    h.map fun _ _ => UInt64.toNat_inj.1
  have hsubset : (s.places distance count).map UInt64.toNat ⊆ List.range t.fileSize.toNat := by
    intro n hn
    obtain ⟨place, hplace, rfl⟩ := List.mem_map.1 hn
    exact List.mem_range.2 (UInt64.lt_iff_toNat_lt.1 (hin place hplace))
  have hle := (hnodup.subperm hsubset).length_le
  simpa [places] using hle

/-- In a segment of at most `2 ^ 63` bytes, places repeat only where they stand still. -/
theorem nodup_places_of_half (hsize : t.fileSize.toNat ≤ 2 ^ 63)
    (hin : ∀ place ∈ s.places distance count, place < t.fileSize) :
    (s.places distance count).Nodup ↔ count ≤ 1 ∨ distance ≠ 0 := by
  rw [nodup_places_iff]
  constructor
  · intro h
    by_cases hd : distance = 0
    · subst hd
      exact .inl h
    · exact .inr hd
  · rintro (hone | hd)
    · exact Nat.le_trans hone (period_pos distance)
    · by_contra hlt
      obtain ⟨half, hpos, hhalf, hmove⟩ := half_period hd
      have hplace (i : Nat) (hi : i < count) :
          (s.offset.toNat + i * distance.toNat) % 2 ^ 64 < 2 ^ 63 := by
        rw [← toNat_place]
        have hi' := hin _ (List.mem_map_of_mem (List.mem_range.2 hi))
        rw [UInt64.lt_iff_toNat_lt] at hi'
        omega
      have hfirst := hplace 0 (by omega)
      have hother := hplace half (by omega)
      omega

end BindState

namespace BindProgram

theorem runFrom_of_step {p : BindProgram} {fuel pc pc' : Nat} {b : UInt8} {s s' : BindState}
    {table table' : BindTable} (hpc : pc < p.code.size) (hb : p.code.u8 pc = .ok b)
    (hstep : p.step b.toNat (pc + 1) s table = .ok (.next pc' s' table')) :
    p.runFrom (fuel + 1) pc s table = p.runFrom fuel pc' s' table' := by
  rw [runFrom, if_pos hpc, hb]
  simp only [bind, Except.bind, hstep]

/-- The instruction that repeats a bind, in a segment `t`: it succeeds exactly when all its places
    lie in the segment, and has then bound each of them. They are pairwise different exactly when
    there are no more of them than the period, and then no more than the segment has bytes. In a
    segment of at most `2 ^ 63` bytes they are different unless the distance is zero. -/
theorem step_repeats {p : BindProgram} {byte pc length length' : Nat} {s : BindState} {t : Segment}
    {count skip : UInt64} (hbyte : byte / 16 = 0xC) (hs : s.segment = some t)
    (hcount : p.code.uleb pc = .ok (count, length))
    (hskip : p.code.uleb (pc + length) = .ok (skip, length')) (table : BindTable) :
    let distance := skip + p.pointerSize
    let places := s.places distance count.toNat
    (∀ r, p.step byte pc s table = .ok r ↔ (∀ place ∈ places, place < t.fileSize) ∧
      r = .next (pc + length + length') (s.advance (count * distance)) (s.bound t places table)) ∧
    (places.Nodup ↔ count.toNat ≤ BindState.period distance) ∧
    ((∀ place ∈ places, place < t.fileSize) →
      (places.Nodup → count.toNat ≤ t.fileSize.toNat) ∧
      (t.fileSize.toNat ≤ 2 ^ 63 → (places.Nodup ↔ count.toNat ≤ 1 ∨ distance ≠ 0))) := by
  intro distance places
  refine ⟨?_, BindState.nodup_places_iff, ?_⟩
  · intro r
    have hstep : p.step byte pc s table =
        (BindState.bindTimes distance (pc + length + length') count.toNat s table).map fun x =>
          .next (pc + length + length') x.1 x.2 := by
      simp only [step, hbyte, hcount, hskip, bind, Except.bind, distance]
      cases BindState.bindTimes distance (pc + length + length') count.toNat s table <;> rfl
    rw [hstep, map_eq_ok]
    simp only [BindState.bindTimes_eq_ok hs, and_assoc, exists_and_left, exists_eq_left,
      UInt64.ofNat_toNat]
    exact and_congr_right fun _ => eq_comm
  · intro hin
    exact ⟨fun h => BindState.count_le_of_nodup h hin,
      fun hsize => BindState.nodup_places_of_half hsize hin⟩

def spread : BindProgram where
  code := ⟨⟨#[0xC0, 3, 8]⟩, .little⟩
  segments := [⟨"__DATA", 4096, 64, 256, 64, 3, 3, 0, []⟩]
  bits := .bits64
  weak := false

def spreadState : BindState := { ordinal := 0, symbol := "_a", segment := spread.segments[0]? }

theorem step_repeats_spread :
    spread.code.uleb 1 = .ok (3, 1) ∧ spread.code.uleb 2 = .ok (8, 1) ∧
      (∃ r, spread.step 0xC0 1 spreadState ∅ = .ok r) ∧
      (spreadState.places (8 + spread.pointerSize) 3).Nodup := by
  have hcount : spread.code.uleb 1 = .ok (3, 1) := by rfl
  have hskip : spread.code.uleb 2 = .ok (8, 1) := by rfl
  have hsegment : spreadState.segment = some ⟨"__DATA", 4096, 64, 256, 64, 3, 3, 0, []⟩ := rfl
  have hbyte : 0xC0 / 16 = 0xC := rfl
  obtain ⟨hstep, -, hplaces⟩ := step_repeats hbyte hsegment hcount hskip ∅
  have hlist : spreadState.places (8 + spread.pointerSize) 3 = [0, 16, 32] := by decide +kernel
  have hin : ∀ place ∈ spreadState.places (8 + spread.pointerSize) 3, place < 64 := by
    rw [hlist]
    simp
  exact ⟨hcount, hskip, ⟨_, (hstep _).2 ⟨hin, rfl⟩⟩,
    ((hplaces hin).2 (by decide)).2 (.inr (by decide))⟩

/-- Nine binds in the one slot of a segment of eight bytes: the skip undoes the step to the next
    slot. -/
def standing : BindProgram where
  code := ⟨⟨#[0x40, 0x5F, 0x61, 0, 0x70, 0,
    0xC0, 9, 0xF8, 0xFF, 0xFF, 0xFF, 0xFF, 0xFF, 0xFF, 0xFF, 0xFF, 1]⟩, .little⟩
  segments := [⟨"__DATA", 4096, 8, 256, 8, 3, 3, 0, []⟩]
  bits := .bits64
  weak := false

def standingState : BindState :=
  { ordinal := 0, symbol := "_a", segment := standing.segments[0]? }

theorem repeats_standing :
    standing.run ∅ = standing.runFrom 16 6 standingState ∅ ∧ (standing.run ∅).isOk = true ∧
    standing.code.uleb 7 = .ok (9, 1) ∧ standing.code.uleb 8 = .ok (0xFFFFFFFFFFFFFFF8, 10) ∧
    (standing.step 0xC0 7 standingState ∅).isOk = true ∧
    standingState.places (0xFFFFFFFFFFFFFFF8 + standing.pointerSize) 9 = List.replicate 9 0 ∧
    ¬ (standingState.places (0xFFFFFFFFFFFFFFF8 + standing.pointerSize) 9).Nodup ∧
    standing.segments.map (·.fileSize.toNat) = [8] := by
  have hsymbol : standing.step 0x40 1 (.initial false) ∅ =
      .ok (.next 4 { ordinal := 0, symbol := "_a" } ∅) := by rfl
  have hsegment : standing.step 0x70 5 { ordinal := 0, symbol := "_a" } ∅ =
      .ok (.next 6 standingState ∅) := by rfl
  have hreach : standing.run ∅ = standing.runFrom 16 6 standingState ∅ := by
    calc standing.run ∅
        = standing.runFrom 17 4 { ordinal := 0, symbol := "_a" } ∅ :=
          runFrom_of_step (b := 0x40) (by decide) (by rfl) hsymbol
      _ = standing.runFrom 16 6 standingState ∅ :=
          runFrom_of_step (b := 0x70) (by decide) (by rfl) hsegment
  exact ⟨hreach, by decide +kernel, by rfl, by rfl, by decide +kernel, by decide +kernel,
    by decide +kernel, by decide⟩

end BindProgram

end ObjcAtlas
