import ObjcAtlas.Proofs.Fixup.Visit
import ObjcAtlas.Proofs.Result

set_option autoImplicit false

/-!
# The walk over all chains

Walking the chains gives a table exactly when every slot that they reach may be visited, and the
table then holds exactly the visited pointers. `Walks` states this for any part of the walk, on
top of what was visited before; one lemma carries it through each of the nested loops, and only a
single visit looks at the table.
-/
namespace ObjcAtlas

namespace ChainVisit

def enter (v : ChainVisit) (table : FixupTable) : FixupTable :=
  if v.isNumber then table else table.insert v.slot v.fixup

theorem fixup?_eq_ok (v : ChainVisit) (f : Option ChainFixup) :
    v.walk.fixup? v.offset v.raw v.entry = .ok f ↔
      (∀ ordinal addend signing, v.entry = .bind ordinal addend signing →
        ordinal.toNat < v.walk.importCount) ∧
      f = if v.isNumber then none else some v.fixup := by
  unfold PageWalk.fixup? isNumber fixup
  cases he : v.entry with
  | rebase target high8 signing =>
    simp only [Except.ok.injEq, reduceCtorEq, false_implies, implies_true, true_and]
    exact eq_comm
  | bind ordinal addend signing =>
    simp only
    split
    · rename_i hc
      refine ⟨nofun, fun h => ?_⟩
      have := h.1 ordinal addend signing rfl
      omega
    · rename_i hc
      simp only [Except.ok.injEq, ChainEntry.bind.injEq]
      constructor
      · intro h
        refine ⟨fun i _ _ hi => ?_, h.symm⟩
        rw [← hi.1]
        omega
      · intro h
        exact h.2.symm

theorem contains_eq_false {table : FixupTable} {offset : Nat} :
    ¬ table.contains offset = true ↔ table[offset]? = none := by
  rw [Std.TreeMap.contains_eq_isSome_getElem?, Bool.not_eq_true, Option.isSome_eq_false_iff,
    Option.isNone_iff_eq_none]

theorem inBounds_iff {w : PageWalk} {offset : Nat} :
    ¬ (w.starts.pageSize.toNat < offset + w.starts.format.entrySize ∨
        w.segment.hasOffset (w.slot offset) = false) ↔
      offset + w.starts.format.entrySize ≤ w.starts.pageSize.toNat ∧
        w.segment.fileOffset.toNat ≤ w.slot offset ∧ w.slot offset < w.segment.fileEnd := by
  rw [not_or, Nat.not_lt, Bool.not_eq_false, Segment.hasOffset, Bool.and_eq_true,
    decide_eq_true_iff, decide_eq_true_iff]

/-- A visit succeeds when the slot is new to the table, readable and sound. -/
theorem visit_eq_ok {w : PageWalk} {offset : Nat} {table : FixupTable} {r : FixupTable × Nat} :
    w.visit offset table = .ok r ↔
      ∃ raw, Read ⟨w, offset, raw⟩ ∧ table[w.slot offset]? = none ∧ Sound ⟨w, offset, raw⟩ ∧
        r = (enter ⟨w, offset, raw⟩ table, next ⟨w, offset, raw⟩ * w.starts.format.stride) := by
  unfold PageWalk.visit
  simp only [throw_if_eq_ok, bind_eq_ok, contains_eq_false, inBounds_iff]
  constructor
  · rintro ⟨hnew, hin, n, hn, f, hf, hr⟩
    obtain ⟨himp, rfl⟩ := (fixup?_eq_ok ⟨w, offset, UInt64.ofNat n⟩ f).1 hf
    refine ⟨UInt64.ofNat n, map_eq_ok.2 ⟨n, hn, rfl⟩, hnew, ⟨hin.1, hin.2, himp⟩, ?_⟩
    rw [enter]
    by_cases hnum : isNumber ⟨w, offset, UInt64.ofNat n⟩ = true
    · rw [if_pos hnum] at hr ⊢
      exact (Except.ok.inj hr).symm
    · rw [if_neg hnum] at hr ⊢
      exact (Except.ok.inj hr).symm
  · rintro ⟨raw, hread, hnew, hs, rfl⟩
    obtain ⟨n, hn, rfl⟩ := map_eq_ok.1 hread
    refine ⟨hnew, ⟨hs.inPage, hs.inSegment⟩, n, hn, _,
      (fixup?_eq_ok ⟨w, offset, UInt64.ofNat n⟩ _).2 ⟨hs.imported, rfl⟩, ?_⟩
    rw [enter]
    by_cases hnum : isNumber ⟨w, offset, UInt64.ofNat n⟩ = true
    · rw [if_pos hnum, if_pos hnum]
      rfl
    · rw [if_neg hnum, if_neg hnum]
      rfl

end ChainVisit

theorem PageWalk.visit_of_mem {w : PageWalk} {offset : Nat} {table : FixupTable}
    (h : w.slot offset ∈ table) : w.visit offset table = .error (w.cycle offset) := by
  rw [visit, if_pos (Std.TreeMap.mem_iff_contains.1 h)]
  rfl

namespace FixupTable

theorem records_empty : Records [] ∅ where
  entry offset f := by simp
  count := rfl
  apart := .nil

theorem Records.isNew_iff {vs : List ChainVisit} {table : FixupTable} (h : Records vs table)
    (v : ChainVisit) : table[v.slot]? = none ↔ ∀ u ∈ vs, u.Apart v := by
  constructor
  · intro hnew u hu hnum hslot
    have hf := (h.entry v.slot u.fixup).2 ⟨u, hu, hnum, hslot, rfl⟩
    rw [hnew] at hf
    exact absurd hf nofun
  · intro hap
    cases hf : table[v.slot]? with
    | none => rfl
    | some f =>
      obtain ⟨u, hu, hnum, hslot, -⟩ := (h.entry v.slot f).1 hf
      exact absurd hslot (hap u hu hnum)

theorem Records.enter {vs : List ChainVisit} {table : FixupTable} (h : Records vs table)
    {v : ChainVisit} (hnew : table[v.slot]? = none) : Records (vs ++ [v]) (v.enter table) := by
  have hap := (h.isNew_iff v).1 hnew
  refine ⟨fun offset f => ?_, ?_, ?_⟩
  · have hsplit : (∃ u ∈ vs ++ [v], u.isNumber = false ∧ u.slot = offset ∧ u.fixup = f) ↔
        table[offset]? = some f ∨ (v.isNumber = false ∧ v.slot = offset ∧ v.fixup = f) := by
      rw [h.entry]
      simp only [List.mem_append, List.mem_singleton, or_and_right, exists_or, exists_eq_left]
    rw [hsplit, ChainVisit.enter]
    cases hnum : v.isNumber with
    | true => simp
    | false =>
      rw [if_neg Bool.false_ne_true, Std.TreeMap.getElem?_insert]
      by_cases ho : v.slot = offset
      · subst ho
        simp [hnew]
      · simp [ho]
  · rw [List.filter_append, List.length_append, ← h.count, ChainVisit.enter]
    cases hnum : v.isNumber with
    | true => simp [hnum]
    | false =>
      rw [if_neg Bool.false_ne_true, Std.TreeMap.size_insert,
        if_neg (ChainVisit.contains_eq_false.2 hnew)]
      simp [hnum]
  · rw [List.pairwise_append]
    refine ⟨h.apart, List.pairwise_singleton _ _, fun u hu x hx => ?_⟩
    rw [List.mem_singleton.1 hx]
    exact hap u hu

end FixupTable

/-- A part of the walk that visits what `R` says, on top of what was visited before: it gives a
    table exactly when the new visits are sound and come back to no pointer. -/
structure Walks (f : FixupTable → Except ImageError FixupTable) (R : List ChainVisit → Prop) :
    Prop where
  sound : ∀ {past : List ChainVisit} {table table' : FixupTable}, table.Records past →
    f table = .ok table' →
    ∃ vs, R vs ∧ (∀ v ∈ vs, v.Sound) ∧ table'.Records (past ++ vs)
  complete : ∀ {past vs : List ChainVisit} {table : FixupTable}, table.Records past → R vs →
    (∀ v ∈ vs, v.Sound) → (past ++ vs).Pairwise ChainVisit.Apart →
    ∃ table', f table = .ok table' ∧ table'.Records (past ++ vs)

theorem PointerFormat.stride_pos (f : PointerFormat) : 0 < f.stride := by
  cases f <;> decide

theorem PointerFormat.entrySize_pos (f : PointerFormat) : 0 < f.entrySize := by
  cases f <;> decide

theorem PointerFormat.stride_le_entrySize (f : PointerFormat) : f.stride ≤ f.entrySize := by
  cases f <;> decide

theorem PageWalk.lt_maxSteps_iff (w : PageWalk) {n : Nat} :
    n < w.maxSteps ↔ n * w.starts.format.stride ≤ w.starts.pageSize.toNat := by
  rw [maxSteps, Nat.lt_succ_iff, Nat.le_div_iff_mul_le w.starts.format.stride_pos]

namespace Chain

variable {w : PageWalk}

theorem ne_nil {offset : Nat} {vs : List ChainVisit} (h : Chain w offset vs) : vs ≠ [] := by
  cases h <;> nofun

theorem unique {offset : Nat} {vs vs' : List ChainVisit} (h : Chain w offset vs)
    (h' : Chain w offset vs') : vs = vs' := by
  -- Both chains read the same word, and so agree on where the next slot is.
  have same {offset : Nat} {raw raw' : UInt64} (hr : ChainVisit.Read ⟨w, offset, raw⟩)
      (hr' : ChainVisit.Read ⟨w, offset, raw'⟩) : raw = raw' := Except.ok.inj (hr.symm.trans hr')
  induction h generalizing vs' with
  | last hr hn =>
    cases h' with
    | last hr' _ => rw [same hr hr']
    | step hr' hn' _ =>
      obtain rfl := same hr hr'
      exact absurd hn hn'
  | step hr hn _ ih =>
    cases h' with
    | last hr' hn' =>
      obtain rfl := same hr hr'
      exact absurd hn' hn
    | step hr' _ ht' =>
      obtain rfl := same hr hr'
      rw [ih ht']

theorem exists_of_reached {head : Nat} (h : ∀ offset, Reached w head offset →
      offset + w.starts.format.entrySize ≤ w.starts.pageSize.toNat ∧
        ∃ raw, ChainVisit.Read ⟨w, offset, raw⟩)
    {offset : Nat} (hat : Reached w head offset) : ∃ vs, Chain w offset vs := by
  -- What is left of the page gets smaller from slot to slot.
  induction hk : w.starts.pageSize.toNat - offset using Nat.strongRecOn generalizing offset with
  | ind k ih =>
    obtain ⟨hin, raw, hread⟩ := h offset hat
    by_cases hn : ChainVisit.next ⟨w, offset, raw⟩ = 0
    · exact ⟨_, .last hread hn⟩
    · have hmove := Nat.mul_pos (Nat.pos_of_ne_zero hn) w.starts.format.stride_pos
      have hsize := w.starts.format.entrySize_pos
      have hat' := hat.next hread hn
      obtain ⟨vs, hvs⟩ := ih _ (by omega) hat' rfl
      exact ⟨_, .step hread hn hvs⟩

theorem length_le {offset : Nat} {vs : List ChainVisit} (h : Chain w offset vs)
    (hs : ∀ v ∈ vs, v.Sound) :
    offset + (vs.length - 1) * w.starts.format.stride ≤ w.starts.pageSize.toNat := by
  induction h with
  | @last offset raw _ _ =>
    have hin : offset + w.starts.format.entrySize ≤ w.starts.pageSize.toNat :=
      (hs _ List.mem_cons_self).inPage
    simp only [List.length_singleton, Nat.sub_self, Nat.zero_mul]
    omega
  | @step offset raw vs _ hn ht ih =>
    have hi := ih fun v hv => hs v (List.mem_cons_of_mem _ hv)
    have hlen : vs.length = vs.length - 1 + 1 := by
      have := List.length_pos_iff.2 ht.ne_nil
      omega
    have hstep : w.starts.format.stride ≤
        ChainVisit.next ⟨w, offset, raw⟩ * w.starts.format.stride :=
      Nat.le_mul_of_pos_left _ (Nat.pos_of_ne_zero hn)
    rw [List.length_cons, Nat.add_sub_cancel, hlen, Nat.add_mul, Nat.one_mul]
    omega

theorem length_le_maxSteps {offset : Nat} {vs : List ChainVisit} (h : Chain w offset vs)
    (hs : ∀ v ∈ vs, v.Sound) : vs.length ≤ w.maxSteps := by
  have hlen := h.length_le hs
  have hlast := w.lt_maxSteps_iff.2 (Nat.le_trans (Nat.le_add_left _ offset) hlen)
  omega

end Chain

namespace PageWalk

variable (w : PageWalk)

theorem follow_succ_eq_ok {steps offset : Nat} {table table' : FixupTable} :
    w.follow (steps + 1) offset table = .ok table' ↔
      ∃ raw, ChainVisit.Read ⟨w, offset, raw⟩ ∧ table[w.slot offset]? = none ∧
        ChainVisit.Sound ⟨w, offset, raw⟩ ∧
        if ChainVisit.next ⟨w, offset, raw⟩ = 0 then
          table' = ChainVisit.enter ⟨w, offset, raw⟩ table
        else w.follow steps
          (offset + ChainVisit.next ⟨w, offset, raw⟩ * w.starts.format.stride)
          (ChainVisit.enter ⟨w, offset, raw⟩ table) = .ok table' := by
  rw [follow, bind_eq_ok]
  have hz (raw : UInt64) : ChainVisit.next ⟨w, offset, raw⟩ * w.starts.format.stride = 0 ↔
      ChainVisit.next ⟨w, offset, raw⟩ = 0 :=
    Nat.mul_eq_zero.trans (or_iff_left (Nat.ne_of_gt (PointerFormat.stride_pos _)))
  constructor
  · rintro ⟨r, hv, hr⟩
    obtain ⟨raw, hread, hnew, hs, rfl⟩ := ChainVisit.visit_eq_ok.1 hv
    refine ⟨raw, hread, hnew, hs, ?_⟩
    simp only [hz] at hr
    split
    · rename_i hn
      rw [if_pos hn] at hr
      exact (Except.ok.inj hr).symm
    · rename_i hn
      rw [if_neg hn] at hr
      exact hr
  · rintro ⟨raw, hread, hnew, hs, hr⟩
    refine ⟨_, ChainVisit.visit_eq_ok.2 ⟨raw, hread, hnew, hs, rfl⟩, ?_⟩
    simp only [hz]
    split
    · rename_i hn
      rw [if_pos hn] at hr
      rw [hr]
      rfl
    · rename_i hn
      rw [if_neg hn] at hr
      exact hr

/-- Following a chain with enough steps visits the chain. -/
theorem follow_walks (steps offset : Nat) :
    Walks (w.follow steps offset) fun vs => Chain w offset vs ∧ vs.length ≤ steps := by
  induction steps generalizing offset with
  | zero =>
    refine ⟨nofun, fun _ hR _ _ => ?_⟩
    exact absurd (List.length_eq_zero_iff.1 (Nat.le_zero.1 hR.2)) hR.1.ne_nil
  | succ steps ih =>
    constructor
    · intro past table table' hrec hok
      obtain ⟨raw, hread, hnew, hs, hrest⟩ := (w.follow_succ_eq_ok).1 hok
      have henter := hrec.enter (v := ⟨w, offset, raw⟩) hnew
      split at hrest
      · rename_i hn
        subst hrest
        refine ⟨[⟨w, offset, raw⟩], ⟨.last hread hn, Nat.le_add_left 1 steps⟩, ?_, henter⟩
        intro v hv
        rw [List.mem_singleton.1 hv]
        exact hs
      · rename_i hn
        obtain ⟨vs, hR, hvs, hrec'⟩ := (ih _).sound henter hrest
        refine ⟨⟨w, offset, raw⟩ :: vs, ⟨.step hread hn hR.1, Nat.succ_le_succ hR.2⟩, ?_, ?_⟩
        · exact List.forall_mem_cons.2 ⟨hs, hvs⟩
        · rwa [List.append_assoc] at hrec'
    · rintro past vs table hrec ⟨hchain, hlen⟩ hvs hap
      cases hchain with
      | @last _ raw hread hn =>
        have hnew := (hrec.isNew_iff ⟨w, offset, raw⟩).2 fun u hu =>
          (List.pairwise_append.1 hap).2.2 u hu _ List.mem_cons_self
        refine ⟨_, (w.follow_succ_eq_ok).2
          ⟨raw, hread, hnew, hvs _ List.mem_cons_self, ?_⟩, hrec.enter hnew⟩
        rw [if_pos hn]
      | @step _ raw vs hread hn htail =>
        have hnew := (hrec.isNew_iff ⟨w, offset, raw⟩).2 fun u hu =>
          (List.pairwise_append.1 hap).2.2 u hu _ List.mem_cons_self
        have hap' :
            ((past ++ [(⟨w, offset, raw⟩ : ChainVisit)]) ++ vs).Pairwise ChainVisit.Apart := by
          rwa [List.append_assoc]
        obtain ⟨table', hok, hrec'⟩ := (ih _).complete (hrec.enter hnew)
          ⟨htail, Nat.le_of_succ_le_succ hlen⟩ (fun v hv => hvs v (List.mem_cons_of_mem _ hv)) hap'
        rw [List.append_assoc] at hrec'
        refine ⟨table', (w.follow_succ_eq_ok).2
          ⟨raw, hread, hnew, hvs _ List.mem_cons_self, ?_⟩, hrec'⟩
        rw [if_neg hn]
        exact hok

theorem chain_walks (offset : Nat) : Walks (w.follow w.maxSteps offset) (Chain w offset) where
  sound hrec hok := by
    obtain ⟨vs, hR, hvs⟩ := (w.follow_walks w.maxSteps offset).sound hrec hok
    exact ⟨vs, hR.1, hvs⟩
  complete hrec hchain hvs hap :=
    (w.follow_walks w.maxSteps offset).complete hrec ⟨hchain, hchain.length_le_maxSteps hvs⟩ hvs hap

end PageWalk

theorem Concat.unique {α β : Type} {R : α → List β → Prop}
    (hR : ∀ a xs xs', R a xs → R a xs' → xs = xs') {as : List α} {xs xs' : List β}
    (h : Concat R as xs) (h' : Concat R as xs') : xs = xs' := by
  induction h generalizing xs' with
  | nil =>
    cases h'
    rfl
  | cons hx _ ih =>
    cases h' with
    | cons hx' ht' => rw [hR _ _ _ hx hx', ih ht']

theorem Concat.exists_of_forall {α β : Type} {R : α → List β → Prop} {as : List α}
    (h : ∀ a ∈ as, ∃ xs, R a xs) : ∃ xs, Concat R as xs := by
  induction as with
  | nil => exact ⟨[], .nil⟩
  | cons a as ih =>
    obtain ⟨xs, hx⟩ := h a List.mem_cons_self
    obtain ⟨ys, hy⟩ := ih fun b hb => h b (List.mem_cons_of_mem _ hb)
    exact ⟨xs ++ ys, .cons hx hy⟩

theorem Concat.append {α β : Type} {R : α → List β → Prop} {as bs : List α} {xs ys : List β}
    (h : Concat R as xs) (h' : Concat R bs ys) : Concat R (as ++ bs) (xs ++ ys) := by
  induction h with
  | nil => exact h'
  | cons hx _ ih =>
    rw [List.cons_append, List.append_assoc]
    exact .cons hx ih

theorem Concat.of_forall_nil {α β : Type} {R : α → List β → Prop} {as : List α}
    (h : ∀ a ∈ as, R a []) : Concat R as [] := by
  induction as with
  | nil => exact .nil
  | cons a as ih =>
    obtain ⟨ha, has⟩ := List.forall_mem_cons.1 h
    exact .cons ha (ih has)

/-- A loop visits what its rounds visit, one behind the other. -/
theorem Walks.foldlM {α : Type} {g : FixupTable → α → Except ImageError FixupTable}
    {R : α → List ChainVisit → Prop} (h : ∀ a, Walks (fun table => g table a) (R a))
    (as : List α) : Walks (as.foldlM g) (Concat R as) := by
  induction as with
  | nil =>
    constructor
    · intro past table table' hrec hok
      obtain rfl := Except.ok.inj hok
      exact ⟨[], .nil, nofun, by rwa [List.append_nil]⟩
    · intro past vs table hrec hR _ _
      cases hR
      exact ⟨table, rfl, by rwa [List.append_nil]⟩
  | cons a as ih =>
    constructor
    · intro past table table' hrec hok
      rw [List.foldlM_cons] at hok
      obtain ⟨mid, hmid, hrest⟩ := bind_eq_ok.1 hok
      obtain ⟨xs, hxs, hsx, hrec₁⟩ := (h a).sound hrec hmid
      obtain ⟨ys, hys, hsy, hrec₂⟩ := ih.sound hrec₁ hrest
      refine ⟨xs ++ ys, .cons hxs hys, List.forall_mem_append.2 ⟨hsx, hsy⟩, ?_⟩
      rwa [← List.append_assoc]
    · intro past vs table hrec hR hs hap
      cases hR with
      | cons hxs hys =>
        obtain ⟨hsx, hsy⟩ := List.forall_mem_append.1 hs
        rw [← List.append_assoc] at hap ⊢
        obtain ⟨mid, hmid, hrec₁⟩ := (h a).complete hrec hxs hsx (List.pairwise_append.1 hap).1
        obtain ⟨table', hok, hrec₂⟩ := ih.complete hrec₁ hys hsy hap
        refine ⟨table', ?_, hrec₂⟩
        rw [List.foldlM_cons]
        exact bind_eq_ok.2 ⟨mid, hmid, hok⟩

namespace SegmentStarts

theorem headsOf_eq_true {values : List UInt16} {heads : List Nat} :
    headsOf values = (heads, true) ↔ ∃ front last, front ++ [last] <+: values ∧
      (∀ v ∈ front, isMarked v = false) ∧ isMarked last = true ∧
      heads = (front ++ [last]).map plainStart := by
  induction values generalizing heads with
  | nil => simp [headsOf]
  | cons v values ih =>
    rw [headsOf]
    cases hv : isMarked v with
    | true =>
      rw [if_pos rfl]
      constructor
      · intro h
        refine ⟨[], v, ⟨values, rfl⟩, nofun, hv, ?_⟩
        exact (Prod.mk.inj h).1.symm
      · rintro ⟨front, last, hpre, hfront, -, rfl⟩
        cases front with
        | nil =>
          obtain rfl := (List.cons_prefix_cons.1 hpre).1
          rfl
        | cons x front =>
          obtain rfl := (List.cons_prefix_cons.1 hpre).1
          exact absurd ((hfront x List.mem_cons_self).symm.trans hv) nofun
    | false =>
      rw [if_neg Bool.false_ne_true]
      constructor
      · intro h
        obtain ⟨hh, hc⟩ := Prod.mk.inj h
        obtain ⟨front, last, hpre, hfront, hlast, hheads⟩ := ih.1 (Prod.ext rfl hc)
        refine ⟨v :: front, last, List.cons_prefix_cons.2 ⟨rfl, hpre⟩,
          List.forall_mem_cons.2 ⟨hv, hfront⟩, hlast, ?_⟩
        rw [← hh]
        exact congrArg (plainStart v :: ·) hheads
      · rintro ⟨front, last, hpre, hfront, hlast, rfl⟩
        cases front with
        | nil =>
          obtain rfl := (List.cons_prefix_cons.1 hpre).1
          exact absurd (hlast.symm.trans hv) nofun
        | cons x front =>
          obtain ⟨rfl, hrest⟩ := List.cons_prefix_cons.1 hpre
          have htail := ih.2 ⟨front, last, hrest, (List.forall_mem_cons.1 hfront).2, hlast, rfl⟩
          simp only [htail]
          rfl

theorem heads_eq_true {s : SegmentStarts} {start : UInt16} {heads : List Nat} :
    s.heads start = (heads, true) ↔ PageHeads s start heads := by
  rw [SegmentStarts.heads]
  by_cases hs : start = noStart
  · rw [if_pos hs]
    constructor
    · intro h
      obtain rfl := (Prod.mk.inj h).1
      rw [hs]
      exact .none
    · intro h
      cases h with
      | none => rfl
      | single hn _ => exact absurd hs hn
      | list hn _ _ _ _ => exact absurd hs hn
  rw [if_neg hs]
  by_cases hm : s.format.is32Bit = true ∧ isMarked start = true
  · rw [if_pos (Bool.and_eq_true_iff.2 hm), headsOf_eq_true]
    constructor
    · rintro ⟨front, last, hpre, hfront, hlast, rfl⟩
      exact .list hs hm hpre hfront hlast
    · intro h
      cases h with
      | none => exact absurd rfl hs
      | single _ hn => exact absurd hm hn
      | list _ _ hpre hfront hlast => exact ⟨_, _, hpre, hfront, hlast, rfl⟩
  · rw [if_neg fun h => hm (Bool.and_eq_true_iff.1 h)]
    constructor
    · intro h
      obtain rfl := (Prod.mk.inj h).1
      exact .single hs hm
    · intro h
      cases h with
      | none => exact absurd rfl hs
      | single _ _ => rfl
      | list _ hn _ _ _ => exact absurd hn hm

end SegmentStarts

theorem PageHeads.unique {s : SegmentStarts} {start : UInt16} {heads heads' : List Nat}
    (h : PageHeads s start heads) (h' : PageHeads s start heads') : heads = heads' :=
  (Prod.mk.inj ((SegmentStarts.heads_eq_true.2 h).symm.trans (SegmentStarts.heads_eq_true.2 h'))).1

theorem PageWalk.run_eq_ok {w : PageWalk} {start : UInt16} {table table' : FixupTable} :
    w.run start table = .ok table' ↔ ∃ heads, PageHeads w.starts start heads ∧
      heads.foldlM (fun table head => w.follow w.maxSteps head table) table = .ok table' := by
  rw [run]
  simp only [bind_eq_ok, ← SegmentStarts.heads_eq_true]
  constructor
  · rintro ⟨mid, hmid, hr⟩
    split at hr
    · rename_i hc
      obtain rfl := Except.ok.inj hr
      exact ⟨_, Prod.ext rfl hc, hmid⟩
    · exact absurd hr nofun
  · rintro ⟨heads, hh, hok⟩
    rw [hh]
    exact ⟨table', hok, rfl⟩

theorem PageWalk.run_walks (w : PageWalk) (start : UInt16) :
    Walks (w.run start) (PageVisits w start) := by
  have loop (heads : List Nat) := Walks.foldlM w.chain_walks heads
  constructor
  · intro past table table' hrec hok
    obtain ⟨heads, hh, hfold⟩ := run_eq_ok.1 hok
    obtain ⟨vs, hvs, hrest⟩ := (loop heads).sound hrec hfold
    exact ⟨vs, ⟨heads, hh, hvs⟩, hrest⟩
  · rintro past vs table hrec ⟨heads, hh, hvs⟩ hs hap
    obtain ⟨table', hfold, hrec'⟩ := (loop heads).complete hrec hvs hs hap
    exact ⟨table', run_eq_ok.2 ⟨heads, hh, hfold⟩, hrec'⟩

theorem PageReadable.exists_visits {w : PageWalk} {start : UInt16} (h : PageReadable w start) :
    ∃ vs, PageVisits w start vs := by
  obtain ⟨heads, hh, hreach⟩ := h
  obtain ⟨vs, hvs⟩ := Concat.exists_of_forall (R := Chain w) fun head hm =>
    Chain.exists_of_reached (hreach head hm) .head
  exact ⟨vs, heads, hh, hvs⟩

theorem PageVisits.unique {w : PageWalk} {start : UInt16} {vs vs' : List ChainVisit}
    (h : PageVisits w start vs) (h' : PageVisits w start vs') : vs = vs' := by
  obtain ⟨heads, hh, hvs⟩ := h
  obtain ⟨heads', hh', hvs'⟩ := h'
  obtain rfl := hh.unique hh'
  exact hvs.unique (fun _ _ _ hx hx' => hx.unique hx') hvs'

namespace ChainTable

variable (image : Reader) (segments : List Segment) (base : UInt64) (importCount : Nat)

theorem walkSegment_walks (starts : SegmentStarts) :
    Walks (fun table => walkSegment image segments base importCount table starts)
      (SegmentVisits image segments base importCount starts) := by
  cases hseg : segments[starts.segment]? with
  | none =>
    constructor
    · intro past table table' _ hok
      simp only [walkSegment, hseg] at hok
      exact absurd hok nofun
    · rintro past vs table _ ⟨segment, hsome, -⟩ _ _
      rw [hseg] at hsome
      exact absurd hsome nofun
  | some segment =>
    have loop := Walks.foldlM (fun (x : UInt16 × Nat) =>
      PageWalk.run_walks { image, base, importCount, segment, starts, page := x.2 } x.1)
      (starts.pageStarts.take starts.pageCount.toNat).zipIdx
    simp only [walkSegment, hseg]
    constructor
    · intro past table table' hrec hok
      obtain ⟨vs, hvs, hrest⟩ := loop.sound hrec hok
      exact ⟨vs, ⟨segment, hseg, hvs⟩, hrest⟩
    · rintro past vs table hrec ⟨segment', hsome, hvs⟩ hs hap
      obtain rfl := Option.some.inj (hseg.symm.trans hsome)
      exact loop.complete hrec hvs hs hap

theorem walk_walks (starts : List SegmentStarts) :
    Walks (starts.foldlM (walkSegment image segments base importCount))
      (ImageVisits image segments base importCount starts) :=
  Walks.foldlM (walkSegment_walks image segments base importCount) starts

variable {image segments base importCount}

theorem imageVisits_unique {starts : List SegmentStarts} {vs vs' : List ChainVisit}
    (h : ImageVisits image segments base importCount starts vs)
    (h' : ImageVisits image segments base importCount starts vs') : vs = vs' := by
  refine Concat.unique (fun s xs xs' hx hx' => ?_) h h'
  obtain ⟨segment, hseg, hvs⟩ := hx
  obtain ⟨segment', hseg', hvs'⟩ := hx'
  obtain rfl := Option.some.inj (hseg.symm.trans hseg')
  exact hvs.unique (fun _ _ _ hp hp' => hp.unique hp') hvs'

theorem imageVisits_exists {starts : List SegmentStarts}
    (h : ∀ s ∈ starts, SegmentReadable image segments base importCount s) :
    ∃ vs, ImageVisits image segments base importCount starts vs := by
  refine Concat.exists_of_forall fun s hs => ?_
  obtain ⟨segment, hseg, hpages⟩ := h s hs
  have hvisits := Concat.exists_of_forall fun x hx => PageReadable.exists_visits (hpages x hx)
  obtain ⟨vs, hvs⟩ := hvisits
  exact ⟨vs, segment, hseg, hvs⟩

theorem visits_of_walk {starts : List SegmentStarts} {table : FixupTable}
    (hok : walk image segments base importCount starts = .ok table) :
    ∃ vs, ImageVisits image segments base importCount starts vs ∧
      (∀ vs', ImageVisits image segments base importCount starts vs' → vs' = vs) ∧
      (∀ v ∈ vs, v.Sound) ∧ table.Records vs := by
  obtain ⟨vs, hvs, hs, hrec⟩ :=
    (walk_walks image segments base importCount starts).sound FixupTable.records_empty hok
  exact ⟨vs, hvs, fun vs' hvs' => imageVisits_unique hvs' hvs, hs, hrec⟩

theorem walk_of_visits {starts : List SegmentStarts} {vs : List ChainVisit}
    (hvs : ImageVisits image segments base importCount starts vs) (hs : ∀ v ∈ vs, v.Sound)
    (hap : vs.Pairwise ChainVisit.Apart) :
    ∃ table, walk image segments base importCount starts = .ok table ∧ table.Records vs :=
  (walk_walks image segments base importCount starts).complete FixupTable.records_empty hvs hs hap

/-- A walk that succeeds gives the table of all visits, which are sound. It succeeds when all
    visits are sound and none comes back to a pointer; and there are such visits, unless a chain
    leaves its page or the image. -/
theorem walk_records_visits (image : Reader) (segments : List Segment) (base : UInt64)
    (importCount : Nat) (starts : List SegmentStarts) :
    (∀ table, walk image segments base importCount starts = .ok table →
      ∃ vs, ImageVisits image segments base importCount starts vs ∧
        (∀ vs', ImageVisits image segments base importCount starts vs' → vs' = vs) ∧
        (∀ v ∈ vs, v.Sound) ∧ table.Records vs) ∧
    (∀ vs, ImageVisits image segments base importCount starts vs → (∀ v ∈ vs, v.Sound) →
      vs.Pairwise ChainVisit.Apart →
      ∃ table, walk image segments base importCount starts = .ok table ∧ table.Records vs) ∧
    ((∀ s ∈ starts, SegmentReadable image segments base importCount s) →
      ∃ vs, ImageVisits image segments base importCount starts vs) :=
  ⟨fun _ => visits_of_walk, fun _ => walk_of_visits, imageVisits_exists⟩

/-- A page of sixteen bytes with one chain, which has slots at 0 and 8. -/
def linkedWalk : PageWalk where
  image := ⟨⟨#[0, 0x10, 0, 0, 0, 0, 0x10, 0, 0, 0x20, 0, 0, 0, 0, 0, 0]⟩, .little⟩
  base := 0
  importCount := 0
  segment := ⟨"__DATA", 0, 16, 0, 16, 3, 3, 0, []⟩
  starts := ⟨0, 16, .ptr64, 0, 0, 1, [0]⟩
  page := 0

namespace linkedWalk

def first : ChainVisit := ⟨linkedWalk, 0, 0x10000000001000⟩

def second : ChainVisit := ⟨linkedWalk, 8, 0x2000⟩

theorem read_first : first.Read := by rfl

theorem read_second : second.Read := by rfl

theorem reached {offset : Nat} (h : Reached linkedWalk 0 offset) : offset = 0 ∨ offset = 8 := by
  induction h with
  | head => exact .inl rfl
  | next _ hr hn ih =>
    rcases ih with rfl | rfl
    · obtain rfl := Except.ok.inj (read_first.symm.trans hr)
      exact .inr rfl
    · obtain rfl := Except.ok.inj (read_second.symm.trans hr)
      exact absurd (by rfl) hn

theorem readable : SegmentReadable linkedWalk.image [linkedWalk.segment] 0 0 linkedWalk.starts := by
  refine ⟨linkedWalk.segment, rfl, ?_⟩
  change ∀ x ∈ [((0 : UInt16), 0)], _
  rw [List.forall_mem_singleton]
  refine ⟨[0], .single (by decide) (by decide), ?_⟩
  rw [List.forall_mem_singleton]
  intro offset hat
  rcases reached hat with rfl | rfl
  · exact ⟨by decide, _, read_first⟩
  · exact ⟨by decide, _, read_second⟩

theorem visits :
    ImageVisits linkedWalk.image [linkedWalk.segment] 0 0 [linkedWalk.starts] [first, second] := by
  have hchain : Chain linkedWalk 0 [first, second] :=
    .step read_first (by decide) (.last read_second (by rfl))
  have hpage : PageVisits linkedWalk 0 [first, second] :=
    ⟨[0], .single (by decide) (by decide), .cons hchain .nil⟩
  have hsegment : SegmentVisits linkedWalk.image [linkedWalk.segment] 0 0 linkedWalk.starts
      [first, second] := by
    refine ⟨linkedWalk.segment, rfl, ?_⟩
    change Concat _ [((0 : UInt16), 0)] ([_, _] ++ [])
    exact .cons hpage .nil
  exact Concat.cons hsegment .nil

theorem sound : ∀ v ∈ [first, second], v.Sound := by
  rw [List.forall_mem_cons, List.forall_mem_singleton]
  exact ⟨⟨by decide, by decide, nofun⟩, by decide, by decide, nofun⟩

end linkedWalk

open linkedWalk in
theorem walk_records_linked :
    (∃ table, walk linkedWalk.image [linkedWalk.segment] 0 0 [linkedWalk.starts] = .ok table ∧
      table.Records [first, second]) ∧
    ∃ vs, ImageVisits linkedWalk.image [linkedWalk.segment] 0 0 [linkedWalk.starts] vs := by
  have hrecords := walk_records_visits linkedWalk.image [linkedWalk.segment] 0 0 [linkedWalk.starts]
  have hapart : [first, second].Pairwise ChainVisit.Apart := by
    rw [List.pairwise_pair]
    exact fun _ => by decide
  exact ⟨hrecords.2.1 _ visits sound hapart,
    hrecords.2.2 (List.forall_mem_singleton.2 readable)⟩

end ChainTable

end ObjcAtlas
