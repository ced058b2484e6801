import Mathlib.Algebra.Ring.Nat
import ObjcAtlas.Proofs.Result

set_option autoImplicit false

/-!
# Runs on machine words

Offsets and sizes are plain numbers in this library; a machine has words of 64 bits for them. A run
takes the steps that a machine takes: a sum, a product or a difference that is no word traps, and
so does an index outside its list. Traps are neither results nor errors. `Runs m x` says that the
run `m` never traps and ends as `x` does; there is one lemma for each way to put runs together, and
a proof that a run does not trap goes through its steps with them.
-/
namespace ObjcAtlas

namespace Word

def plus (a b : Nat) : Option Nat := if a + b < 2 ^ 64 then some (a + b) else none

def times (a b : Nat) : Option Nat := if a * b < 2 ^ 64 then some (a * b) else none

def minus (a b : Nat) : Option Nat := if b ≤ a then some (a - b) else none

def shifted (a distance : Nat) : Option Nat :=
  if distance < 64 then some (a <<< distance) else none

/-- The bytes from `start` up to `stop`, which have to be there. -/
def cut (bytes : ByteArray) (start stop : Nat) : Option ByteArray :=
  if start ≤ stop ∧ stop ≤ bytes.size then some (bytes.extract start stop) else none

def item {α : Type} (as : List α) (i : Nat) : Option α := as[i]?

theorem plus_eq {a b : Nat} (h : a + b < 2 ^ 64) : plus a b = some (a + b) := if_pos h

example : plus (2 ^ 64 - 1) 1 = none := by decide

theorem plus_to {a b c : Nat} (h : a + b = c) (hc : c < 2 ^ 64) : plus a b = some c :=
  h ▸ plus_eq (h ▸ hc)

theorem times_eq {a b : Nat} (h : a * b < 2 ^ 64) : times a b = some (a * b) := if_pos h

theorem minus_eq {a b : Nat} (h : b ≤ a) : minus a b = some (a - b) := if_pos h

theorem shifted_eq {a distance : Nat} (h : distance < 64) :
    shifted a distance = some (a <<< distance) := if_pos h

theorem cut_eq {bytes : ByteArray} {start stop : Nat} (h : start ≤ stop) (h' : stop ≤ bytes.size) :
    cut bytes start stop = some (bytes.extract start stop) := if_pos ⟨h, h'⟩

end Word

/-- A result or an error, or a trap. -/
abbrev Run := ExceptT ImageError Option

namespace Run

variable {α β γ : Type}

def trap : Run α := ExceptT.mk none

def attempt (m : Run α) : Run (Except ImageError α) := ExceptT.mk (m.run.map .ok)

def stepping (step : Nat → Run α) (size : Nat) : (count place : Nat) → Run (List α × Nat)
  | 0, place => return ([], place)
  | count + 1, place => do
    let found ← step place
    let (rest, last) ← stepping step size count (← Word.plus place size)
    return (found :: rest, last)

def plain (x : Except ImageError α) : Run α := ExceptT.mk (some x)

/-- The run does not trap, and ends as `x` does. -/
def Runs (m : Run α) (x : Except ImageError α) : Prop := m.run = some x

variable {m : Run α} {x : Except ImageError α} {f : α → Run β} {g : α → Except ImageError β}

theorem runs_pure (a : α) : Runs (pure a) (pure a) := rfl

theorem runs_throw (e : ImageError) : Runs (throw e : Run α) (throw e) := rfl

theorem runs_plain (x : Except ImageError α) : Runs (plain x) x := rfl

theorem Runs.eq_plain (h : Runs m x) : m = plain x := h

/-- Later steps matter only where the first gave a result. -/
theorem Runs.bind (h : Runs m x) (k : ∀ a, x = .ok a → Runs (f a) (g a)) :
    Runs (m >>= f) (x >>= g) := by
  obtain rfl := h.eq_plain
  cases x with
  | error e => rfl
  | ok a => exact k a rfl

theorem Runs.step {o : Option α} {a : α} {y : Except ImageError β} (h : o = some a)
    (k : Runs (f a) y) : Runs ((liftM o : Run α) >>= f) y := by
  subst h
  exact k

theorem Runs.of_ok {a : α} {y : Except ImageError β} (h : Runs m (.ok a)) (k : Runs (f a) y) :
    Runs (m >>= f) y := by
  obtain rfl := h.eq_plain
  exact k

theorem Runs.bind_of_map {l : γ → Run β} {p : α → γ} {m : Run γ} (h : Runs m (x.map p))
    (k : ∀ a, x = .ok a → Runs (l (p a)) (g a)) : Runs (m >>= l) (x >>= g) := by
  obtain rfl := h.eq_plain
  cases x with
  | error e => rfl
  | ok a => exact k a rfl

theorem Runs.map (h : Runs m x) (f : α → β) : Runs (f <$> m) (x.map f) := by
  obtain rfl := h.eq_plain
  cases x with
  | error e => rfl
  | ok a => rfl

theorem Runs.adapt (h : Runs m x) (f : ImageError → ImageError) :
    Runs (m.adapt f) (x.mapError f) := by
  obtain rfl := h.eq_plain
  cases x with
  | error e => rfl
  | ok a => rfl

theorem Runs.attempt (h : Runs m x) : Runs (attempt m) (.ok x) := by
  obtain rfl := h.eq_plain
  rfl

theorem Runs.throw_if {c c' : Prop} [Decidable c] [Decidable c'] {e : ImageError}
    {f : PUnit → Run β} {g : PUnit → Except ImageError β} (hc : c ↔ c')
    (k : ¬ c' → Runs (f ⟨⟩) (g ⟨⟩)) :
    Runs (if c then throw e >>= f else f ⟨⟩) (if c' then throw e >>= g else g ⟨⟩) := by
  by_cases h : c'
  · rw [if_pos h, if_pos (hc.2 h)]
    rfl
  · rw [if_neg h, if_neg (mt hc.1 h)]
    exact k h

theorem Runs.ite {c : Prop} [Decidable c] {m m' : Run β} {x x' : Except ImageError β}
    (h : c → Runs m x) (h' : ¬ c → Runs m' x') :
    Runs (if c then m else m') (if c then x else x') := by
  by_cases hc : c
  · rw [if_pos hc, if_pos hc]
    exact h hc
  · rw [if_neg hc, if_neg hc]
    exact h' hc

theorem Runs.mapM {f : α → Run β} {g : α → Except ImageError β} {as : List α}
    (h : ∀ a ∈ as, Runs (f a) (g a)) : Runs (as.mapM f) (as.mapM g) := by
  induction as with
  | nil => exact runs_pure []
  | cons a as ih =>
    obtain ⟨ha, has⟩ := List.forall_mem_cons.1 h
    rw [List.mapM_cons, List.mapM_cons]
    exact ha.bind fun b _ => (ih has).bind fun bs _ => runs_pure (b :: bs)

theorem Runs.stepping {f : Nat → Run β} {g : Nat → Except ImageError β} (size count place : Nat)
    (h : ∀ i < count, Runs (f (place + i * size)) (g (place + i * size)))
    (hend : place + count * size < 2 ^ 64) :
    Runs (stepping f size count place)
      (((List.range count).mapM fun i => g (place + i * size)).map (·, place + count * size)) := by
  induction count generalizing place with
  | zero =>
    rw [Nat.zero_mul]
    rfl
  | succ count ih =>
    rw [Nat.succ_mul] at hend
    -- The places behind the first are those from the next place on.
    have hplace (i : Nat) : place + (i + 1) * size = place + size + i * size := by
      rw [Nat.succ_mul]
      omega
    have hrest := ih (place + size)
      (fun i hi => hplace i ▸ h (i + 1) (by omega)) (by omega)
    have hfirst := h 0 (by omega)
    rw [Nat.zero_mul, Nat.add_zero] at hfirst
    rw [Run.stepping, List.range_succ_eq_map, List.mapM_cons, List.mapM_map]
    simp only [Function.comp_def, Nat.succ_eq_add_one, hplace, Nat.zero_mul, Nat.add_zero]
    cases hg : g place with
    | error e =>
      rw [hg] at hfirst
      rw [hfirst.eq_plain]
      rfl
    | ok b =>
      rw [hg] at hfirst
      refine hfirst.of_ok (.step (Word.plus_eq (by omega)) ?_)
      rw [hrest.eq_plain]
      cases (List.range count).mapM fun i => g (place + size + i * size) with
      | error e => rfl
      | ok bs => rfl

theorem Runs.foldlM {f : β → α → Run β} {g : β → α → Except ImageError β} {as : List α} (b : β)
    (h : ∀ b, ∀ a ∈ as, Runs (f b a) (g b a)) : Runs (as.foldlM f b) (as.foldlM g b) := by
  induction as generalizing b with
  | nil => exact runs_pure b
  | cons a as ih =>
    rw [List.foldlM_cons, List.foldlM_cons]
    refine (h b a List.mem_cons_self).bind fun b' _ => ih b' ?_
    intro c x hx
    exact h c x (List.mem_cons_of_mem a hx)

end Run

end ObjcAtlas
