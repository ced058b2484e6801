import Mathlib.Algebra.Ring.Nat
import ObjcAtlas.Proofs.Extraction.Record
import ObjcAtlas.Proofs.Result

set_option autoImplicit false

namespace ObjcAtlas

/-- The method lists of a protocol. -/
inductive MethodGroup where
  | ofInstance | ofClass | optionalInstance | optionalClass
deriving DecidableEq, Repr

namespace MethodGroup

def all : List MethodGroup := [.ofInstance, .ofClass, .optionalInstance, .optionalClass]

def field : MethodGroup → ProtocolField
  | .ofInstance => .instanceMethods
  | .ofClass => .classMethods
  | .optionalInstance => .optionalInstanceMethods
  | .optionalClass => .optionalClassMethods

def methods (p : ProtocolRecord) : MethodGroup → List MethodRecord
  | .ofInstance => p.instanceMethods
  | .ofClass => p.classMethods
  | .optionalInstance => p.optionalInstanceMethods
  | .optionalClass => p.optionalClassMethods

def earlier : MethodGroup → List MethodGroup
  | .ofInstance => []
  | .ofClass => [.ofInstance]
  | .optionalInstance => [.ofInstance, .ofClass]
  | .optionalClass => [.ofInstance, .ofClass, .optionalInstance]

def later : MethodGroup → List MethodGroup
  | .ofInstance => [.ofClass, .optionalInstance, .optionalClass]
  | .ofClass => [.optionalInstance, .optionalClass]
  | .optionalInstance => [.optionalClass]
  | .optionalClass => []

theorem all_eq (g : MethodGroup) : all = g.earlier ++ g :: g.later := by
  cases g <;> rfl

theorem ne_of_mem {g h : MethodGroup} (hm : h ∈ g.earlier ∨ h ∈ g.later) : h ≠ g := by
  rintro rfl
  revert hm
  cases h <;> decide

/-- Methods in the groups before this one. -/
def before (p : ProtocolRecord) (g : MethodGroup) : Nat :=
  (g.earlier.map fun h => (methods p h).length).sum

end MethodGroup

def MethodRecord.withExtended (m : MethodRecord) (text : Option String) : MethodRecord :=
  { m with extendedEncoding := text }

namespace Slice

variable (s : Slice) (protocol : UInt64)

def groupEntries (g : MethodGroup) : List MethodEntry :=
  s.methodEntries (protocol + g.field.offset s.bits)

/-- The entries of all four lists; an entry's number is its place here. -/
def protocolEntries : List (MethodGroup × MethodEntry) :=
  MethodGroup.all.flatMap fun g => (s.groupEntries protocol g).map (g, ·)

def extendedArray? : Option UInt64 :=
  let size := (s.u32At (protocol + ProtocolField.size.offset s.bits)).toOption.getD 0
  if ProtocolField.extendedTypes.offset s.bits + s.bits.words 1 ≤ size.toUInt64 then
    s.followed? (protocol + ProtocolField.extendedTypes.offset s.bits)
  else none

def extendedText? (number : Nat) : Option String :=
  (s.extendedArray? protocol).bind fun array =>
    s.textThrough? (array + s.bits.words (UInt64.ofNat number))

/-- How many of the first `number` entries have a method. -/
def rank (number : Nat) : Nat :=
  ((s.protocolEntries protocol).take number).countP fun e => (e.2.method? s).isSome

/-- The method in an entry with its number, if it belongs to the group, with the extended encoding
    at the place of the number. -/
def extendedMethod? (place : Nat → Nat) (g : MethodGroup)
    (x : (MethodGroup × MethodEntry) × Nat) : Option MethodRecord :=
  if x.1.1 = g then
    (x.1.2.method? s).map fun m => m.withExtended (s.extendedText? protocol (place x.2))
  else none

def extendedBy (place : Nat → Nat) (g : MethodGroup) : List MethodRecord :=
  (s.protocolEntries protocol).zipIdx.filterMap (s.extendedMethod? protocol place g)

end Slice

section

variable {α β γ : Type}

theorem zipIdx_filterMap_of_count {f : α → Option β} {t : β → Nat → γ} {place : Nat → Nat}
    {as : List α} {first kept : Nat}
    (h : ∀ i < as.length, place (first + i) = kept + (as.take i).countP fun a => (f a).isSome) :
    (as.zipIdx first).filterMap (fun x => (f x.1).map fun b => t b (place x.2)) =
      ((as.filterMap f).zipIdx kept).map fun x => t x.1 x.2 := by
  induction as generalizing first kept with
  | nil => rfl
  | cons a as ih =>
    have hfirst : place first = kept := h 0 (Nat.zero_lt_succ _)
    rw [List.zipIdx_cons]
    cases hf : f a with
    | none =>
      rw [List.filterMap_cons_none (by simp [hf]), List.filterMap_cons_none hf]
      refine ih fun i hi => ?_
      have := h (i + 1) (Nat.succ_lt_succ hi)
      rw [List.take_succ_cons, List.countP_cons_of_neg (by simp [hf])] at this
      rw [← this]
      congr 1
      omega
    | some b =>
      rw [List.filterMap_cons_some (by rw [hf]; rfl), List.filterMap_cons_some hf,
        List.zipIdx_cons, List.map_cons, hfirst]
      refine congrArg _ (ih fun i hi => ?_)
      have := h (i + 1) (Nat.succ_lt_succ hi)
      rw [List.take_succ_cons, List.countP_cons_of_pos (by simp [hf])] at this
      rw [show first + 1 + i = first + (i + 1) by omega, this]
      omega

theorem filterMap_eq_filterMap_iff {f f' : α → Option β} {as : List α}
    (hs : ∀ a ∈ as, (f a).isSome = (f' a).isSome) :
    as.filterMap f = as.filterMap f' ↔ ∀ a ∈ as, f a = f' a := by
  induction as with
  | nil => exact ⟨fun _ => nofun, fun _ => rfl⟩
  | cons a as ih =>
    obtain ⟨ha, hrest⟩ := List.forall_mem_cons.1 hs
    rw [List.forall_mem_cons, ← ih hrest]
    cases hf : f a with
    | none =>
      cases hf' : f' a with
      | none =>
        rw [List.filterMap_cons_none hf, List.filterMap_cons_none hf']
        exact ⟨fun h => ⟨rfl, h⟩, fun h => h.2⟩
      | some b' =>
        rw [hf, hf'] at ha
        exact absurd ha nofun
    | some b =>
      cases hf' : f' a with
      | none =>
        rw [hf, hf'] at ha
        exact absurd ha nofun
      | some b' =>
        rw [List.filterMap_cons_some hf, List.filterMap_cons_some hf', List.cons.injEq,
          Option.some.injEq]

end

namespace Slice

variable {s : Slice} {protocol : UInt64}

theorem filterMap_extendedMethod?_eq_nil {place : Nat → Nat} {g : MethodGroup}
    {es : List (MethodGroup × MethodEntry)} (h : ∀ e ∈ es, e.1 ≠ g) (first : Nat) :
    (es.zipIdx first).filterMap (s.extendedMethod? protocol place g) = [] := by
  rw [List.filterMap_eq_nil_iff]
  intro x hx
  exact if_neg (h x.1 (List.fst_mem_of_mem_zipIdx hx))

theorem extendedBy_rank_of_split {g : MethodGroup} {pre post : List (MethodGroup × MethodEntry)}
    {mid : List MethodEntry}
    (h : s.protocolEntries protocol = pre ++ (mid.map (g, ·) ++ post))
    (hpre : ∀ e ∈ pre, e.1 ≠ g) (hpost : ∀ e ∈ post, e.1 ≠ g) :
    s.extendedBy protocol (s.rank protocol) g =
      ((mid.filterMap (MethodEntry.method? s)).zipIdx
        (pre.countP fun e => (e.2.method? s).isSome)).map fun x =>
          x.1.withExtended (s.extendedText? protocol x.2) := by
  have hrank : ∀ i < mid.length, s.rank protocol (pre.length + i) =
      pre.countP (fun e => (e.2.method? s).isSome) +
        (mid.take i).countP fun e => (e.method? s).isSome := by
    intro i hi
    rw [rank, h, List.take_length_add_append, List.countP_append, List.take_append_of_le_length,
      ← List.map_take, List.countP_map]
    · rfl
    · rw [List.length_map]
      omega
  rw [extendedBy, h, List.zipIdx_append, List.filterMap_append, List.zipIdx_append,
    List.filterMap_append, filterMap_extendedMethod?_eq_nil hpre,
    filterMap_extendedMethod?_eq_nil hpost, List.nil_append, List.append_nil, List.zipIdx_map,
    List.filterMap_map, Nat.zero_add,
    ← zipIdx_filterMap_of_count (t := fun m i => m.withExtended (s.extendedText? protocol i)) hrank]
  exact congrArg (List.filterMap · _) (funext fun x => if_pos rfl)

theorem group_ne_of_mem {g : MethodGroup} {gs : List MethodGroup}
    {e : MethodGroup × MethodEntry} (hgs : ∀ h ∈ gs, h ≠ g)
    (he : e ∈ gs.flatMap fun h => (s.groupEntries protocol h).map (h, ·)) : e.1 ≠ g := by
  obtain ⟨h, hh, hm⟩ := List.mem_flatMap.1 he
  obtain ⟨x, -, rfl⟩ := List.mem_map.1 hm
  exact hgs h hh

theorem countP_groups (gs : List MethodGroup) :
    (gs.flatMap fun h => (s.groupEntries protocol h).map (h, ·)).countP
        (fun e => (e.2.method? s).isSome) =
      (gs.map fun h =>
        ((s.groupEntries protocol h).filterMap (MethodEntry.method? s)).length).sum := by
  rw [List.countP_flatMap]
  refine congrArg List.sum (List.map_congr_left fun h _ => ?_)
  rw [Function.comp_apply, List.countP_map, List.length_filterMap_eq_countP]
  rfl

/-- When the methods of a protocol are those of its lists, its groups are numbered one behind the
    other. -/
theorem extendedBy_rank {p : ProtocolRecord} (h : ∀ g, MethodGroup.methods p g =
      (s.groupEntries protocol g).filterMap (MethodEntry.method? s)) (g : MethodGroup) :
    s.extendedBy protocol (s.rank protocol) g =
      ((MethodGroup.methods p g).zipIdx (MethodGroup.before p g)).map fun x =>
        x.1.withExtended (s.extendedText? protocol x.2) := by
  have hsplit : s.protocolEntries protocol =
      (g.earlier.flatMap fun h => (s.groupEntries protocol h).map (h, ·)) ++
        ((s.groupEntries protocol g).map (g, ·) ++
          g.later.flatMap fun h => (s.groupEntries protocol h).map (h, ·)) := by
    rw [protocolEntries, g.all_eq, List.flatMap_append, List.flatMap_cons]
  rw [extendedBy_rank_of_split hsplit
    (fun _ => group_ne_of_mem fun _ hm => MethodGroup.ne_of_mem (.inl hm))
    (fun _ => group_ne_of_mem fun _ hm => MethodGroup.ne_of_mem (.inr hm)), countP_groups,
    MethodGroup.before]
  simp only [h]

end Slice

namespace Survey

variable (s : Slice)

theorem extendMethods_gives (array : UInt64) (index : Nat) (ms : List MethodRecord) :
    Gives (extendMethods s array index ms) ((ms.zipIdx index).map fun x =>
      x.1.withExtended (s.textThrough? (array + s.bits.words (UInt64.ofNat x.2)))) := by
  induction ms generalizing index with
  | nil => exact gives_pure _
  | cons m ms ih =>
    refine Gives.bind (followText_gives s _ _) ?_
    refine Ensures.bind (ensures_any _) fun _ _ => ?_
    exact Gives.bind (ih (index + 1)) (gives_pure _)

theorem extendProtocol_ensures (array : UInt64) (p : ProtocolRecord) :
    Ensures (extendProtocol s array p) fun q => ∀ g, MethodGroup.methods q g =
      ((MethodGroup.methods p g).zipIdx (MethodGroup.before p g)).map fun x =>
        x.1.withExtended (s.textThrough? (array + s.bits.words (UInt64.ofNat x.2))) := by
  refine Gives.bind (extendMethods_gives s array _ _) ?_
  refine Gives.bind (extendMethods_gives s array _ _) ?_
  refine Gives.bind (extendMethods_gives s array _ _) ?_
  refine Gives.bind (extendMethods_gives s array _ _) ?_
  refine ensures_pure fun g => ?_
  cases g <;> simp [MethodGroup.methods, MethodGroup.before, MethodGroup.earlier, Nat.add_assoc]

theorem extendProtocol_of_array {address array : UInt64} {p : ProtocolRecord}
    (h : ∀ g, MethodGroup.methods p g =
      (s.groupEntries address g).filterMap (MethodEntry.method? s))
    (harray : s.extendedArray? address = some array) :
    Ensures (extendProtocol s array p) fun q =>
      ∀ g, MethodGroup.methods q g = s.extendedBy address (s.rank address) g := by
  intro n g
  rw [extendProtocol_ensures s array p n g, Slice.extendedBy_rank h]
  refine List.map_congr_left fun x _ => ?_
  rw [Slice.extendedText?, harray]
  rfl

theorem methods_of_no_array {address : UInt64} {p : ProtocolRecord}
    (h : ∀ g, MethodGroup.methods p g =
      (s.groupEntries address g).filterMap (MethodEntry.method? s))
    (harray : s.extendedArray? address = none) (g : MethodGroup) :
    MethodGroup.methods p g = s.extendedBy address (s.rank address) g := by
  have hplain : ∀ m ∈ MethodGroup.methods p g, m.withExtended none = m := by
    intro m hm
    rw [h, List.mem_filterMap] at hm
    obtain ⟨e, -, he⟩ := hm
    rw [MethodRecord.withExtended, ← MethodEntry.extendedEncoding_of_method? he]
  have htext (i : Nat) : s.extendedText? address i = none := by
    rw [Slice.extendedText?, harray]
    rfl
  rw [Slice.extendedBy_rank h]
  simp only [htext]
  calc MethodGroup.methods p g
      = (MethodGroup.methods p g).map fun m => m.withExtended none := by
        rw [List.map_congr_left hplain, List.map_id']
    _ = (((MethodGroup.methods p g).zipIdx (MethodGroup.before p g)).map Prod.fst).map
          fun m => m.withExtended none := by
        rw [List.zipIdx_map_fst]
    _ = _ := List.map_map

theorem classProperties_ensures {α : Type} {c : Prop} [Decidable c] {x y : Survey α}
    {f : α → List PropertyRecord} {p : ProtocolRecord} {r : MethodGroup → List MethodRecord}
    (h : ∀ g, MethodGroup.methods p g = r g) :
    Ensures (if c then do let a ← x; pure { p with classProperties := f a }
      else do let a ← y; pure { p with classProperties := f a })
      fun q => ∀ g, MethodGroup.methods q g = r g := by
  have hsame (cs : List PropertyRecord) (g : MethodGroup) :
      MethodGroup.methods { p with classProperties := cs } g = r g := by
    rw [← h g]
    cases g <;> rfl
  split
  · exact Ensures.bind (ensures_any _) fun a _ => ensures_pure (hsame _)
  · exact Ensures.bind (ensures_any _) fun a _ => ensures_pure (hsame _)

theorem protocolBody_ensures (address : UInt64) :
    Ensures (protocolBody s address) fun p =>
      ∀ g, MethodGroup.methods p g = s.extendedBy address (s.rank address) g := by
  refine Ensures.bind (ensures_any _) fun name _ => ?_
  refine Ensures.bind (ensures_any _) fun protocols _ => ?_
  refine Gives.bind (methods_gives s _ _) ?_
  refine Gives.bind (methods_gives s _ _) ?_
  refine Gives.bind (methods_gives s _ _) ?_
  refine Gives.bind (methods_gives s _ _) ?_
  refine Ensures.bind (ensures_any _) fun own _ => ?_
  refine Gives.bind (u32_gives s _ _) ?_
  have hlists (p : ProtocolRecord)
      (h₁ : p.instanceMethods =
        (s.groupEntries address .ofInstance).filterMap (MethodEntry.method? s))
      (h₂ : p.classMethods = (s.groupEntries address .ofClass).filterMap (MethodEntry.method? s))
      (h₃ : p.optionalInstanceMethods =
        (s.groupEntries address .optionalInstance).filterMap (MethodEntry.method? s))
      (h₄ : p.optionalClassMethods =
        (s.groupEntries address .optionalClass).filterMap (MethodEntry.method? s))
      (g : MethodGroup) : MethodGroup.methods p g =
        (s.groupEntries address g).filterMap (MethodEntry.method? s) := by
    cases g with
    | ofInstance => exact h₁
    | ofClass => exact h₂
    | optionalInstance => exact h₃
    | optionalClass => exact h₄
  have hsplit : s.extendedArray? address = if _ then _ else none := rfl
  by_cases hhas : ProtocolField.extendedTypes.offset s.bits + s.bits.words 1 ≤
      ((s.u32At (address + ProtocolField.size.offset s.bits)).toOption.getD 0).toUInt64
  · rw [if_pos hhas] at hsplit
    simp only [hhas, decide_true, if_true]
    refine Gives.bind (follow_gives s _ _) ?_
    rw [← hsplit]
    cases harray : s.extendedArray? address with
    | none =>
      exact classProperties_ensures (methods_of_no_array s (hlists _ rfl rfl rfl rfl) harray)
    | some array =>
      exact Ensures.bind (extendProtocol_of_array s (hlists _ rfl rfl rfl rfl) harray)
        fun q hq => classProperties_ensures hq
  · rw [if_neg hhas] at hsplit
    simp only [hhas, decide_false, Bool.false_eq_true, if_false]
    exact classProperties_ensures (methods_of_no_array s (hlists _ rfl rfl rfl rfl) hsplit)

end Survey

namespace Slice

variable {s : Slice} {protocol : UInt64}

/-- Numbering the entries gives the same as numbering the kept methods exactly when the array has
    the same text at both places of every method; and so if the methods are looked at in a way that
    shows their extended encodings. -/
theorem map_extendedBy_rank_eq_iff {β : Type} {look : MethodRecord → β}
    (hlook : ∀ m m', look m = look m' → m.extendedEncoding = m'.extendedEncoding) :
    (∀ g, (s.extendedBy protocol (s.rank protocol) g).map look =
        (s.extendedBy protocol id g).map look) ↔
      ∀ number g e, (s.protocolEntries protocol)[number]? = some (g, e) →
        (e.method? s).isSome →
        s.extendedText? protocol (s.rank protocol number) = s.extendedText? protocol number := by
  have hsome (g : MethodGroup) : ∀ x ∈ (s.protocolEntries protocol).zipIdx,
      ((s.extendedMethod? protocol (s.rank protocol) g x).map look).isSome =
        ((s.extendedMethod? protocol id g x).map look).isSome := by
    intro x _
    unfold extendedMethod?
    split <;> simp only [Option.isSome_map]
  simp only [extendedBy, List.map_filterMap, filterMap_eq_filterMap_iff (hsome _)]
  constructor
  · intro h number g e he hm
    obtain ⟨m, hm⟩ := Option.isSome_iff_exists.1 hm
    have heq := h g ((g, e), number) (List.mem_zipIdx_iff_getElem?.2 he)
    simp only [extendedMethod?, if_true, hm, Option.map_some, Option.some.injEq] at heq
    exact hlook _ _ heq
  · rintro h g ⟨⟨group, e⟩, number⟩ hx
    unfold extendedMethod?
    split
    · cases hm : e.method? s with
      | none => rfl
      | some m =>
        have htext := h number group e (List.mem_zipIdx_iff_getElem?.1 hx)
          (Option.isSome_iff_exists.2 ⟨m, hm⟩)
        simp only [Option.map_some, htext, id]
    · rfl

theorem rank_eq_self_iff {number : Nat} (h : number ≤ (s.protocolEntries protocol).length) :
    s.rank protocol number = number ↔
      ∀ e ∈ (s.protocolEntries protocol).take number, (e.2.method? s).isSome := by
  have hlen : ((s.protocolEntries protocol).take number).length = number := by
    rw [List.length_take]
    omega
  rw [rank, ← List.countP_eq_length, hlen]

end Slice

namespace Survey

theorem protocolAt_ensures (s : Slice) (address : UInt64) :
    Ensures (protocolAt s address) fun r => r.isSome = !s.isEncryptedAt address ∧
      ∀ p ∈ r, ∀ g, MethodGroup.methods p g = s.extendedBy address (s.rank address) g := by
  unfold protocolAt recordAt
  cases s.isEncryptedAt address with
  | true => exact Gives.bind (lost_gives _) (ensures_pure ⟨rfl, nofun⟩)
  | false =>
    rw [if_neg Bool.false_ne_true]
    have hread : Ensures (some <$> watched (protocolBody s address)) fun r => ∃ p degraded,
        r = some (p, degraded) ∧
          ∀ g, MethodGroup.methods p g = s.extendedBy address (s.rank address) g :=
      fun n => ⟨_, _, rfl, (protocolBody_ensures s address).watched n⟩
    refine Ensures.bind hread fun r hr => ?_
    obtain ⟨p, degraded, rfl, hp⟩ := hr
    refine ensures_pure ⟨rfl, fun q hq g => ?_⟩
    obtain rfl := Option.some.inj hq
    rw [← hp g]
    cases g <;> rfl

end Survey

namespace Extraction

theorem MethodGroup.methods_report (o : ExtractOptions) (M : DecodeMemo) (p : ProtocolRecord)
    (g : MethodGroup) : MethodGroup.methods ((p.decode M).move o.slide) g =
      (MethodGroup.methods p g).map fun m => (m.decode M).move o.slide := by
  cases g <;> exact List.map_map

/-- A protocol is read unless it is encrypted, whatever was read before. Each of its methods has the
    extended encoding at the count of methods before it. That is the encoding at the number of its
    own entry for all methods exactly when the array has the same text at both places; and the
    places are the same exactly when all entries before have methods. -/
theorem protocolAt_extended (s : Slice) (address : UInt64) :
    (∀ o p, p.memo.Serves o → ∃ r q, protocolAt s address o p = some (r, q) ∧
      r.isSome = !s.isEncryptedAt address ∧
      let report (m : MethodRecord) : MethodRecord := (m.decode q.memo).move o.slide
      ∀ found ∈ r,
        (∀ g, MethodGroup.methods found g =
          (s.extendedBy address (s.rank address) g).map report) ∧
        ((∀ g, MethodGroup.methods found g = (s.extendedBy address id g).map report) ↔
          ∀ number g e, (s.protocolEntries address)[number]? = some (g, e) →
            (e.method? s).isSome →
            s.extendedText? address (s.rank address number) = s.extendedText? address number)) ∧
    ∀ number ≤ (s.protocolEntries address).length, s.rank address number = number ↔
      ∀ e ∈ (s.protocolEntries address).take number, (e.2.method? s).isSome := by
  refine ⟨fun o p hp => ?_, fun number h => Slice.rank_eq_self_iff h⟩
  have hrun := (run_of_mirrors (fun _ hM => mirrors_protocolAt s hM address) hp).1
  obtain ⟨hsome, hmethods⟩ := Survey.protocolAt_ensures s address p.notes
  refine ⟨_, _, hrun, ?_, fun found hfound => ?_⟩
  · rw [Option.isSome_map, hsome]
  obtain ⟨r, hr, rfl⟩ := Option.map_eq_some_iff.1 hfound
  have hreported (g : MethodGroup) := (MethodGroup.methods_report o
    (p.past o (Survey.protocolAt s address)).memo r g).trans
      (congrArg (List.map _) (hmethods r hr g))
  refine ⟨hreported, ?_⟩
  simp only [hreported]
  refine Slice.map_extendedBy_rank_eq_iff fun m m' h => ?_
  have hextended := congrArg MethodRecord.extendedEncoding h
  exact hextended

/-- A protocol at `0x1054` with two methods, of which the first has its selector outside the image,
    and with the extended encodings `v8@0:4` and `q8@0:4`. -/
def droppedEntry : ByteArray := ⟨#[
  0xCE, 0xFA, 0xED, 0xFE, 12, 0, 0, 0, 0, 0, 0, 0, 2, 0, 0, 0, 1, 0, 0, 0, 56, 0, 0, 0, 0, 0, 0, 0,
  1, 0, 0, 0, 56, 0, 0, 0, 0x5F, 0x5F, 0x44, 0x41, 0x54, 0x41, 0, 0, 0, 0, 0, 0, 0, 0, 0, 0,
  0, 0x10, 0, 0, 0xB8, 0, 0, 0, 0, 0, 0, 0, 0xB8, 0, 0, 0, 3, 0, 0, 0, 3, 0, 0, 0, 0, 0, 0, 0,
  0, 0, 0, 0,
  0, 0, 0, 0, 0, 0, 0, 0, 0, 0, 0, 0, 0x80, 0x10, 0, 0, 0, 0, 0, 0, 0, 0, 0, 0, 0, 0, 0, 0,
  0, 0, 0, 0, 44, 0, 0, 0, 0, 0, 0, 0, 0xA0, 0x10, 0, 0,
  12, 0, 0, 0, 2, 0, 0, 0, 0, 0x20, 0, 0, 0xAA, 0x10, 0, 0, 0, 0, 0, 0,
  0xA8, 0x10, 0, 0, 0xAA, 0x10, 0, 0, 0, 0, 0, 0, 0xAA, 0x10, 0, 0, 0xB1, 0x10, 0, 0,
  0x66, 0, 0x76, 0x38, 0x40, 0x30, 0x3A, 0x34, 0, 0x71, 0x38, 0x40, 0x30, 0x3A, 0x34, 0]⟩

/-- The method that is left is from the second entry and has the first of the encodings. -/
theorem protocolAt_extended_droppedEntry :
    ∃ s p q, Slice.load droppedEntry none = .ok s ∧
      protocolAt s 0x1054 {} {} = some (some p, q) ∧
      p.instanceMethods.map (fun m => (m.name, m.extendedEncoding)) = [("f", some "v8@0:4")] ∧
      s.rank 0x1054 1 ≠ 1 ∧ s.extendedText? 0x1054 1 = some "q8@0:4" := by
  have h : (Slice.load droppedEntry none).map (fun s =>
      decide (s.isEncryptedAt 0x1054 = false ∧
        (s.extendedBy 0x1054 (s.rank 0x1054) .ofInstance).map
          (fun m => (m.name, m.extendedEncoding)) = [("f", some "v8@0:4")] ∧
        ((s.protocolEntries 0x1054).take 1).all (fun e => (e.2.method? s).isSome) = false ∧
        1 ≤ (s.protocolEntries 0x1054).length ∧
        s.extendedText? 0x1054 1 = some "q8@0:4")) = .ok true := by
    decide +kernel
  obtain ⟨s, hs, h⟩ := map_eq_ok.1 h
  obtain ⟨hclear, hmethods, hdropped, hlength, htext⟩ := of_decide_eq_true h
  obtain ⟨hread, hrank⟩ := protocolAt_extended s 0x1054
  obtain ⟨r, q, hrun, hsome, hfound⟩ := hread {} {} (DecodeMemo.serves_empty {})
  rw [hclear] at hsome
  obtain ⟨p, rfl⟩ := Option.isSome_iff_exists.1 hsome
  refine ⟨s, p, q, hs, hrun, ?_, ?_, htext⟩
  · have hp := (hfound p rfl).1 .ofInstance
    change p.instanceMethods = _ at hp
    rw [hp, List.map_map, ← hmethods]
    rfl
  · rw [ne_eq, hrank 1 hlength]
    simpa using hdropped

end Extraction

end ObjcAtlas
