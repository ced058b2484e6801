import ObjcAtlas.Image.Error

set_option autoImplicit false

namespace ObjcAtlas

variable {ε α β : Type}

theorem bind_eq_ok {step : Except ε α} {f : α → Except ε β} {b : β} :
    (step >>= f) = .ok b ↔ ∃ a, step = .ok a ∧ f a = .ok b := by
  cases step with
  | error e => exact ⟨nofun, nofun⟩
  | ok a => exact ⟨fun h => ⟨a, rfl, h⟩, fun ⟨_, ha, hb⟩ => Except.ok.inj ha ▸ hb⟩

theorem map_eq_ok {step : Except ε α} {f : α → β} {b : β} :
    step.map f = .ok b ↔ ∃ a, step = .ok a ∧ f a = b := by
  cases step with
  | error e => exact ⟨nofun, nofun⟩
  | ok a =>
    constructor
    · intro h
      exact ⟨a, rfl, Except.ok.inj h⟩
    · rintro ⟨_, ha, rfl⟩
      rw [ha]
      rfl

theorem map_eq_error {step : Except ε α} {f : α → β} {e : ε} :
    step.map f = .error e ↔ step = .error e := by
  cases step with
  | error e' => exact ⟨fun h => congrArg Except.error (Except.error.inj h),
      fun h => congrArg Except.error (Except.error.inj h)⟩
  | ok a => exact ⟨nofun, nofun⟩

theorem mapError_eq_ok {step : Except ε α} {g : ε → ε} {a : α} :
    step.mapError g = .ok a ↔ step = .ok a := by
  cases step with
  | error e => exact ⟨nofun, nofun⟩
  | ok a => rfl

theorem toOption_eq_some {step : Except ε α} {a : α} :
    step.toOption = some a ↔ step = .ok a := by
  cases step with
  | error e => exact ⟨nofun, nofun⟩
  | ok b => exact ⟨fun h => congrArg Except.ok (Option.some.inj h),
      fun h => congrArg some (Except.ok.inj h)⟩

theorem throw_if_eq_ok {c : Prop} [Decidable c] {e : ε} {f : PUnit → Except ε β} {b : β} :
    (if c then throw e >>= f else f ⟨⟩) = .ok b ↔ ¬ c ∧ f ⟨⟩ = .ok b := by
  by_cases hc : c
  · rw [if_pos hc]
    exact ⟨nofun, fun h => absurd hc h.1⟩
  · rw [if_neg hc]
    exact ⟨fun h => ⟨hc, h⟩, fun h => h.2⟩

section

variable {γ : Type} {k : γ → Except ε β}

theorem bind_split {step : Except ε α} {f : α → Except ε β} {g : α → Except ε γ}
    (h : ∀ a, f a = g a >>= k) : step >>= f = (step >>= g) >>= k := by
  cases step with
  | error e => rfl
  | ok a => exact h a

theorem throw_if_split {c : Prop} [Decidable c] {e : ε} {f : PUnit → Except ε β}
    {g : PUnit → Except ε γ} (h : f ⟨⟩ = g ⟨⟩ >>= k) :
    (if c then throw e >>= f else f ⟨⟩) = (if c then throw e >>= g else g ⟨⟩) >>= k := by
  split
  · rfl
  · exact h

end

theorem forM_eq_ok {f : α → Except ε Unit} {as : List α} (h : ∀ a ∈ as, f a = .ok ()) :
    as.forM f = .ok () := by
  induction as with
  | nil => rfl
  | cons a as ih =>
    obtain ⟨ha, hrest⟩ := List.forall_mem_cons.1 h
    exact bind_eq_ok.2 ⟨(), ha, ih hrest⟩

theorem of_forM_eq_ok {f : α → Except ε Unit} {as : List α} (h : as.forM f = .ok ()) :
    ∀ a ∈ as, f a = .ok () := by
  induction as with
  | nil => exact nofun
  | cons a as ih =>
    obtain ⟨⟨⟩, ha, hrest⟩ := bind_eq_ok.1 h
    exact List.forall_mem_cons.2 ⟨ha, ih hrest⟩

theorem mapM_eq_ok {f : α → Except ε β} {as : List α} {bs : List β}
    (h : as.map f = bs.map .ok) : as.mapM f = .ok bs := by
  induction as generalizing bs with
  | nil =>
    obtain rfl := List.map_eq_nil_iff.1 h.symm
    rfl
  | cons a as ih =>
    cases bs with
    | nil => exact absurd h nofun
    | cons b bs =>
      obtain ⟨hb, hbs⟩ := List.cons.inj h
      rw [List.mapM_cons, hb, ih hbs]
      rfl

theorem of_mapM_eq_ok {f : α → Except ε β} {as : List α} {bs : List β} (h : as.mapM f = .ok bs) :
    as.map f = bs.map .ok := by
  induction as generalizing bs with
  | nil =>
    cases h
    rfl
  | cons a as ih =>
    rw [List.mapM_cons] at h
    obtain ⟨b, hb, h⟩ := bind_eq_ok.1 h
    obtain ⟨rest, hrest, h⟩ := bind_eq_ok.1 h
    cases h
    rw [List.map_cons, List.map_cons, hb, ih hrest]

theorem mapM_range_eq_ok {f : Nat → Except ε β} {bs : List β}
    (h : ∀ i b, bs[i]? = some b → f i = .ok b) : (List.range bs.length).mapM f = .ok bs := by
  refine mapM_eq_ok (List.ext_getElem? fun i => ?_)
  rw [List.getElem?_map, List.getElem?_map]
  cases hb : bs[i]? with
  | none =>
    rw [List.getElem?_eq_none_iff] at hb
    rw [List.getElem?_eq_none (by rwa [List.length_range])]
    rfl
  | some b =>
    have hi := (List.getElem?_eq_some_iff.1 hb).1
    rw [List.getElem?_range hi, Option.map_some, h i b hb]
    rfl

theorem of_mapM_range_eq_ok {f : Nat → Except ε β} {count : Nat} {bs : List β}
    (h : (List.range count).mapM f = .ok bs) :
    bs.length = count ∧ ∀ i b, bs[i]? = some b ↔ i < count ∧ f i = .ok b := by
  have hmap := of_mapM_eq_ok h
  have hlength : bs.length = count := by
    simpa using (congrArg List.length hmap).symm
  refine ⟨hlength, ?_⟩
  intro i b
  by_cases hi : i < count
  · have hat := congrArg (·[i]?) hmap
    simp only [List.getElem?_map, List.getElem?_range hi, List.getElem?_eq_getElem (hlength ▸ hi),
      Option.map_some, Option.some.injEq] at hat
    rw [List.getElem?_eq_getElem (hlength ▸ hi), hat]
    simp [hi]
  · rw [List.getElem?_eq_none (by omega)]
    simp [hi]

section

variable {P : ε → Prop} {step : Except ε α} {f : α → Except ε β}

def FailsOnly (P : ε → Prop) (step : Except ε α) : Prop := ∀ e, step = .error e → P e

theorem failsOnly_ok (a : α) : FailsOnly P (.ok a) := nofun

theorem failsOnly_error {e : ε} (h : P e) : FailsOnly P (.error e : Except ε α) := by
  intro e' he
  rwa [← Except.error.inj he]

theorem FailsOnly.bind (h : FailsOnly P step) (k : ∀ a, step = .ok a → FailsOnly P (f a)) :
    FailsOnly P (step >>= f) := by
  cases hs : step with
  | error e =>
    intro e' he
    exact h e' (hs.trans (congrArg Except.error (Except.error.inj he)))
  | ok a => exact k a hs

theorem FailsOnly.map (h : FailsOnly P step) (g : α → β) : FailsOnly P (step.map g) := by
  cases step with
  | error e =>
    intro e' he
    exact h e' (congrArg Except.error (Except.error.inj he))
  | ok a => exact failsOnly_ok _

theorem failsOnly_throw_if {c : Prop} [Decidable c] {e : ε} {f : PUnit → Except ε β} (he : P e)
    (hf : ¬ c → FailsOnly P (f ⟨⟩)) : FailsOnly P (if c then throw e >>= f else f ⟨⟩) := by
  by_cases hc : c
  · rw [if_pos hc]
    exact failsOnly_error he
  · rw [if_neg hc]
    exact hf hc

theorem failsOnly_mapM {as : List α} (h : ∀ a ∈ as, FailsOnly P (f a)) :
    FailsOnly P (as.mapM f) := by
  induction as with
  | nil => exact failsOnly_ok _
  | cons a as ih =>
    rw [List.mapM_cons]
    obtain ⟨ha, hrest⟩ := List.forall_mem_cons.1 h
    exact ha.bind fun b _ => (ih hrest).bind fun bs _ => failsOnly_ok _

theorem failsOnly_foldlM {g : β → α → Except ε β} {as : List α} {b : β}
    (h : ∀ a ∈ as, ∀ b, FailsOnly P (g b a)) : FailsOnly P (as.foldlM g b) := by
  induction as generalizing b with
  | nil => exact failsOnly_ok _
  | cons a as ih =>
    rw [List.foldlM_cons]
    obtain ⟨ha, hrest⟩ := List.forall_mem_cons.1 h
    exact (ha b).bind fun b' _ => ih hrest

end

/-- The step traps, whatever was before. -/
def Traps {σ : Type} (m : StateT σ Option α) : Prop := ∀ s, m s = none

theorem Traps.bind {σ : Type} {m : StateT σ Option α} (h : Traps m) (f : α → StateT σ Option β) :
    Traps (m >>= f) := by
  intro s
  change (m s).bind _ = none
  rw [h s, Option.bind_none]

/-- A step behind another traps as well, if that comes so far. -/
theorem Traps.after {σ : Type} {f : α → StateT σ Option β} (h : ∀ a, Traps (f a))
    (m : StateT σ Option α) : Traps (m >>= f) := by
  intro s
  change (m s).bind (fun r => f r.1 r.2) = none
  exact Option.bind_eq_none_iff.2 fun r _ => h r.1 r.2

end ObjcAtlas
