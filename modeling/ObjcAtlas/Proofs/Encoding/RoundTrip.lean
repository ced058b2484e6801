import ObjcAtlas.Proofs.Encoding.Written

set_option autoImplicit false

namespace ObjcAtlas

open ObjcType

namespace Reading

theorem readsIf_zero {t : ObjcType} (named : Bool) (text rest : List Char) :
    ReadsIf (t.nesting ≤ 0) (typeWithin 0 named) text rest t where
  reads h := absurd h (Nat.not_le.2 (nesting_pos t))
  exceeds _ p := ⟨p, _, rfl⟩

section Level

variable {fits fits' : Prop} {budget : Nat} {nested : Bool → Reading ObjcType} {named : Bool}
  {x y rest : List Char} {t : ObjcType}

/-- Qualifiers in front of a type go with it and cost no nesting. -/
theorem ReadsIf.qualified (qs : List Qualifier) (hw : Written named rest t x)
    (hq : isQualified t = false)
    (h : ReadsIf fits (unqualified (typeWithin budget) named) x rest t) :
    ReadsIf fits (typeWithin (budget + 1) named) (qs.map Qualifier.code ++ x) rest
      (if qs.isEmpty then t else .qualified qs t) := by
  have hstop : Stops (fun c => (Qualifier.ofCode? c).isSome) (x ++ rest) := by
    obtain ⟨c, cs, rfl, hl⟩ := hw.leads
    rintro d ⟨⟩
    change (Qualifier.ofCode? c).isSome = false
    rw [hl.qualifier hq]
    rfl
  exact Reads.bind (reads_qualifiers qs hstop) (h.bind_pure rfl)

theorem readsIf_primitive (p : Primitive) :
    ReadsIf True (unqualified nested named) [p.code] rest (.primitive p) := by
  refine ReadsIf.position_bind fun start => ReadsIf.any_bind ?_
  cases p <;> exact (reads_pure _).toReadsIf

theorem readsIf_bitfield {w : UInt32} (hw : Text.IsNumeral w.toNat x)
    (hr : Stops Char.isDigit rest) :
    ReadsIf True (unqualified nested named) ('b' :: x) rest (.bitfield w) := by
  have hwide : w.toUInt64.toNat = w.toNat := w.toNat_toUInt64
  have hn : Reads number x rest w.toUInt64 := reads_number (by rwa [hwide]) hr
  refine ReadsIf.position_bind fun start => ReadsIf.any_bind ?_
  refine ReadsIf.position_bind fun digits => hn.toReadsIf.bind_pure ?_
  rw [hwide, if_pos w.toNat_lt, UInt32.ofNat_toNat]

theorem readsIf_id (hr : Precedes named rest .id) :
    ReadsIf True (unqualified nested named) ['@'] rest .id := by
  obtain ⟨hq, hn⟩ := hr
  refine ReadsIf.position_bind fun start => ReadsIf.any_bind (ReadsIf.peek_bind ?_)
  rw [List.nil_append]
  split
  · exact absurd ‹_› hq
  · obtain ⟨hnamed, hcloses⟩ := hn ‹_›
    refine ReadsIf.get_bind fun p => ?_
    rw [List.nil_append, hnamed, hcloses]
    exact (reads_pure _).toReadsIf
  · exact (reads_pure _).toReadsIf

theorem readsIf_object {payload : List Char} (hq : '"' ∉ payload)
    (hr : named = true → rest.head?.all (fun c => c == '"' || c == '\x7d' || c == ')') = true) :
    ReadsIf True (unqualified nested named) ('@' :: '"' :: (payload ++ ['"'])) rest
      (splitPayload payload) := by
  refine ReadsIf.position_bind fun start => ReadsIf.any_bind ?_
  refine ReadsIf.peek_bind (ReadsIf.get_bind fun p => ?_)
  have hdrop : ('"' :: (payload ++ ['"']) ++ rest).drop 1 = payload ++ '"' :: rest := by simp
  have hclass : (named && !closesMember (payload ++ '"' :: rest)) = false := by
    rw [closesMember_append hq]
    cases named with
    | false => rfl
    | true => rw [hr rfl]; rfl
  rw [hdrop, hclass]
  exact ReadsIf.next_bind ((reads_quoted hq).toReadsIf.bind_pure rfl)

theorem unqualified_opening (k : AggregateKind) (h : ReadsIf fits (aggregate nested k) x rest t) :
    ReadsIf fits (unqualified nested named) (k.opening :: x) rest t := by
  refine ReadsIf.position_bind fun start => ReadsIf.any_bind ?_
  cases k with
  | struct => exact h
  | union => exact h

theorem readsIf_incomplete {k : AggregateKind} {name : Option String}
    (h : TagText k.closing name x) :
    ReadsIf True (aggregate nested k) (x ++ [k.closing]) rest (.incomplete k name) := by
  refine Reads.bind (reads_tag h ⟨_, _, rfl, .inr rfl⟩) (ReadsIf.peek_bind ?_)
  rw [if_pos (by rfl)]
  exact ReadsIf.next_bind (reads_pure _).toReadsIf

theorem readsIf_aggregate {k : AggregateKind} {name : Option String} {ms : List Member}
    (ht : TagText k.closing name x) (hw : WrittenMembers (startNamed ms) k rest ms y)
    (h : ∀ fuel, ms.length < fuel → ReadsIf fits (members (nested (startNamed ms)) k.closing fuel)
      (y ++ [k.closing]) rest ms) :
    ReadsIf fits (aggregate nested k) (x ++ '=' :: (y ++ [k.closing])) rest
      (.aggregate k name ms) := by
  refine Reads.bind (reads_tag ht ⟨_, _, rfl, .inl rfl⟩) (ReadsIf.peek_bind ?_)
  have hk : ('=' :: (y ++ [k.closing]) ++ rest).head? ≠ some k.closing := by
    cases k <;> simp [AggregateKind.closing]
  rw [if_neg hk]
  refine ReadsIf.expect_bind (ReadsIf.peek_bind (ReadsIf.get_bind fun p => ?_))
  rw [List.append_assoc, List.singleton_append, hw.startNamed_eq rest]
  refine (h _ ?_).bind_pure rfl
  have hl := hw.length_le
  simp only [List.length_append]
  omega

theorem readsIf_pointer (h : ReadsIf fits (nested named) x rest t) :
    ReadsIf fits (unqualified nested named) ('^' :: x) rest (.pointer t) :=
  ReadsIf.position_bind fun _ => ReadsIf.any_bind (h.bind_pure rfl)

theorem readsIf_array {n : UInt64} {digits : List Char} (hn : Text.IsNumeral n.toNat digits)
    (hw : Written false (']' :: rest) t x) (h : ReadsIf fits (nested false) x (']' :: rest) t) :
    ReadsIf fits (unqualified nested named) ('[' :: (digits ++ (x ++ [']']))) rest
      (.array n t) := by
  have hstop : Stops Char.isDigit (x ++ [']'] ++ rest) := by
    obtain ⟨c, cs, rfl, hl⟩ := hw.leads
    rintro d ⟨⟩
    exact hl.digit
  have hend : ReadsIf True (expect ']' >>= fun _ => pure (ObjcType.array n t)) [']'] rest
      (.array n t) := ReadsIf.expect_bind (reads_pure _).toReadsIf
  have helement : ReadsIf fits (nested false >>= fun element =>
      expect ']' >>= fun _ => pure (ObjcType.array n element)) (x ++ [']']) rest (.array n t) := by
    have hb := ReadsIf.bind (f := fun element => expect ']' >>= fun _ =>
      pure (ObjcType.array n element)) h hend
    exact hb.congr ⟨And.left, fun hf => ⟨hf, trivial⟩⟩
  exact ReadsIf.position_bind fun _ => ReadsIf.any_bind
    (Reads.bind (reads_number hn hstop) helement)

theorem readsIf_block (hr : rest.head? ≠ some '<') :
    ReadsIf True (unqualified nested named) ['@', '?'] rest .block := by
  refine ReadsIf.position_bind fun start => ReadsIf.any_bind ?_
  refine ReadsIf.peek_bind (ReadsIf.next_bind (ReadsIf.peek_bind ?_))
  rw [List.nil_append, if_neg hr]
  exact (reads_pure _).toReadsIf

theorem readsIf_blockOf {r : ObjcType} {ts : List ObjcType} (hw : WrittenTypes rest ts y)
    (h : ReadsIf fits (nested false) x (y ++ '>' :: rest) r)
    (hts : ∀ fuel, ts.length < fuel → ReadsIf fits' (arguments (nested false) fuel) (y ++ ['>'])
      rest ts) :
    ReadsIf (fits ∧ fits') (unqualified nested named) ('@' :: '?' :: '<' :: (x ++ (y ++ ['>'])))
      rest (.blockOf r ts) := by
  have hr : ReadsIf fits (nested false) x (y ++ ['>'] ++ rest) r := by
    rwa [List.append_assoc]
  refine ReadsIf.position_bind fun start => ReadsIf.any_bind ?_
  refine ReadsIf.peek_bind (ReadsIf.next_bind (ReadsIf.peek_bind ?_))
  rw [if_pos (by rfl)]
  refine ReadsIf.next_bind (hr.bind (ReadsIf.get_bind fun p => (hts _ ?_).bind_pure rfl))
  have hl := hw.length_le
  simp only [List.length_append]
  omega

theorem readsIf_member {item : Reading ObjcType} {fuel : Nat} {k : AggregateKind}
    {name : Option String} {ms : List Member} (hw : Written named (y ++ k.closing :: rest) t x)
    (hn : ∀ s ∈ name, '"' ∉ s.toList) (h : ReadsIf fits item x (y ++ k.closing :: rest) t)
    (hms : ReadsIf fits' (members item k.closing fuel) (y ++ [k.closing]) rest ms) :
    ReadsIf (fits ∧ fits') (members item k.closing (fuel + 1))
      (spellName name ++ (x ++ (y ++ [k.closing]))) rest (⟨name, t⟩ :: ms) := by
  have hpair : ∀ m : Option String, ReadsIf (fits ∧ fits')
      (item >>= fun type => members item k.closing fuel >>= fun ms => pure (⟨m, type⟩ :: ms))
      (x ++ (y ++ [k.closing])) rest (⟨m, t⟩ :: ms) := by
    intro m
    have hx : ReadsIf fits item x (y ++ [k.closing] ++ rest) t := by rwa [List.append_assoc]
    exact hx.bind (hms.bind_pure rfl)
  rw [members]
  refine ReadsIf.peek_bind ?_
  cases name with
  | none =>
    obtain ⟨c, cs, rfl, hl⟩ := hw.leads
    have hm := hl.mark
    simp only [List.mem_cons, List.not_mem_nil, or_false, not_or] at hm
    have hk : c ≠ k.closing := by cases k <;> simp [AggregateKind.closing, hm]
    simp only [spellName, Option.elim_none, List.nil_append, List.cons_append, List.head?_cons, hk,
      hm.1, ↓reduceIte]
    exact hpair none
  | some s =>
    have htext : spellName (some s) ++ (x ++ (y ++ [k.closing])) =
        '"' :: (s.toList ++ ['"'] ++ (x ++ (y ++ [k.closing]))) := by
      simp [spellName, spellQuoted]
    have hk : '"' ≠ k.closing := by cases k <;> decide
    rw [htext]
    simp only [List.cons_append, List.head?_cons, hk, ↓reduceIte]
    refine ReadsIf.next_bind (Reads.bind (reads_quoted (hn s rfl)) ?_)
    rw [String.ofList_toList]
    exact hpair (some s)

theorem readsIf_argument {item : Reading ObjcType} {fuel : Nat} {ts : List ObjcType}
    (hw : Written false (y ++ '>' :: rest) t x) (h : ReadsIf fits item x (y ++ '>' :: rest) t)
    (hts : ReadsIf fits' (arguments item fuel) (y ++ ['>']) rest ts) :
    ReadsIf (fits ∧ fits') (arguments item (fuel + 1)) (x ++ (y ++ ['>'])) rest (t :: ts) := by
  have hx : ReadsIf fits item x (y ++ ['>'] ++ rest) t := by rwa [List.append_assoc]
  obtain ⟨c, cs, rfl, hl⟩ := hw.leads
  have hm := hl.mark
  simp only [List.mem_cons, List.not_mem_nil, or_false, not_or] at hm
  rw [arguments]
  refine ReadsIf.peek_bind ?_
  split
  · rename_i h
    cases h
  · rename_i h
    exact absurd (Option.some.inj h) hm.2.2.1
  · exact hx.bind (hts.bind_pure rfl)

end Level

mutual

theorem unqualified_written (t : ObjcType) {named : Bool} {rest x : List Char}
    (h : Written named rest t x) (hq : isQualified t = false) (budget : Nat) :
    ReadsIf (t.nesting ≤ budget + 1) (unqualified (typeWithin budget) named) x rest t := by
  match t, h with
  | .primitive _, .primitive p => exact (readsIf_primitive p).congr (by simp [nesting])
  | .pointer t, .pointer h =>
    exact (readsIf_pointer (typeWithin_written t h budget)).congr (by simp [nesting])
  | .array n t, .array hn h =>
    simp only [List.cons_append, List.append_assoc]
    exact (readsIf_array hn h (typeWithin_written t h budget)).congr (by simp [nesting])
  | .aggregate k n ms, .aggregate htag h =>
    have hread := readsIf_aggregate htag h fun fuel hf => members_written ms h budget fuel hf
    simp only [List.cons_append, List.append_assoc]
    exact (unqualified_opening k hread).congr (by simp [nesting])
  | .incomplete k n, .incomplete htag =>
    exact (unqualified_opening k (readsIf_incomplete htag)).congr (by simp [nesting])
  | .bitfield w, .bitfield hw hr => exact (readsIf_bitfield hw hr).congr (by simp [nesting])
  | .object _ _, .id hr => exact (readsIf_id hr).congr (by simp [nesting])
  | .object c ps, .object hpayload hp hr =>
    rw [← hp]
    exact (readsIf_object hpayload hr).congr (by simp [hp, nesting])
  | .block, .block hr => exact (readsIf_block hr).congr (by simp [nesting])
  | .blockOf r ts, .blockOf hr h =>
    simp only [List.cons_append, List.append_assoc]
    refine (readsIf_blockOf h (typeWithin_written r hr budget)
      fun fuel hf => arguments_written ts h budget fuel hf).congr ?_
    simp only [nesting, Nat.add_le_add_iff_right, Nat.max_le]
termination_by (sizeOf t, 0)

theorem typeWithin_written (t : ObjcType) {named : Bool} {rest x : List Char}
    (h : Written named rest t x) (budget : Nat) :
    ReadsIf (t.nesting ≤ budget) (typeWithin budget named) x rest t := by
  match budget with
  | 0 => exact readsIf_zero named x rest
  | budget + 1 =>
    cases hq : isQualified t with
    | false => exact (unqualified_written t h hq budget).qualified [] h hq
    | true =>
      match t, h with
      | .qualified qs t, .qualified hqs hq h =>
        have hread := (unqualified_written t h hq budget).qualified qs h hq
        rw [List.isEmpty_eq_false_iff.2 hqs] at hread
        exact hread
termination_by (sizeOf t, 1)

theorem members_written (ms : List Member) {named : Bool} {k : AggregateKind} {rest y : List Char}
    (h : WrittenMembers named k rest ms y) (budget fuel : Nat) (hf : ms.length < fuel) :
    ReadsIf (nestingMembers ms ≤ budget) (members (typeWithin budget named) k.closing fuel)
      (y ++ [k.closing]) rest ms := by
  match ms, h, fuel with
  | _, _, 0 => exact absurd hf (Nat.not_lt_zero _)
  | [], .nil, fuel + 1 =>
    have h : ReadsIf True (members (typeWithin budget named) k.closing (fuel + 1)) [k.closing] rest
        [] := by
      rw [members]
      refine ReadsIf.peek_bind ?_
      simp only [List.cons_append, List.head?_cons, ↓reduceIte]
      exact ReadsIf.next_bind (reads_pure _).toReadsIf
    exact h.congr (by simp [nestingMembers])
  | ⟨name, t⟩ :: ms, .cons hn ht h, fuel + 1 =>
    have hread := readsIf_member ht hn (typeWithin_written t ht budget)
      (members_written ms h budget fuel (by simpa using hf))
    simpa using hread.congr (by simp only [nestingMembers, nestingMember, Nat.max_le])
termination_by (sizeOf ms, 0)

theorem arguments_written (ts : List ObjcType) {rest y : List Char} (h : WrittenTypes rest ts y)
    (budget fuel : Nat) (hf : ts.length < fuel) :
    ReadsIf (nestingTypes ts ≤ budget) (arguments (typeWithin budget false) fuel)
      (y ++ ['>']) rest ts := by
  match ts, h, fuel with
  | _, _, 0 => exact absurd hf (Nat.not_lt_zero _)
  | [], .nil, fuel + 1 =>
    have h : ReadsIf True (arguments (typeWithin budget false) (fuel + 1)) ['>'] rest [] := by
      rw [arguments]
      exact ReadsIf.peek_bind (ReadsIf.next_bind (reads_pure _).toReadsIf)
    exact h.congr (by simp [nestingTypes])
  | t :: ts, .cons ht h, fuel + 1 =>
    have hread := readsIf_argument ht (typeWithin_written t ht budget)
      (arguments_written ts h budget fuel (by simpa using hf))
    simpa using hread.congr (by simp only [nestingTypes, Nat.max_le])
termination_by (sizeOf ts, 0)

end

end Reading

namespace ObjcType

theorem quote_not_mem_spellPayload {className : Option String} {protocols : List String}
    (h : ObjectOk className protocols) : '"' ∉ spellPayload className protocols := by
  rw [spellPayload, List.mem_append, List.mem_flatMap]
  rintro (hc | ⟨p, hp, hc⟩)
  · cases className with
    | none => simp at hc
    | some s => exact (h.className s rfl).2.1 hc
  · simp only [List.cons_append, List.mem_cons, List.mem_append, List.not_mem_nil, or_false] at hc
    rcases hc with hc | hc | hc
    · cases hc
    · exact ((h.protocols p hp).2.2 _ hc).1 rfl
    · cases hc

theorem written_spellObject {className : Option String} {protocols : List String} {named : Bool}
    {rest : List Char} (h : ObjectOk className protocols)
    (hr : Precedes named rest (.object className protocols)) :
    Written named rest (.object className protocols) (spellObject className protocols) := by
  have hq := quote_not_mem_spellPayload h
  have hp := Reading.splitPayload_spellPayload h
  rcases className with - | s
  · rcases protocols with - | ⟨p, ps⟩
    · exact .id hr
    · exact .object hq hp hr
  · exact .object hq hp hr

theorem namesOk_startNamed {ms : List Member} (h : NamesOk true ms ∨ NamesOk false ms) :
    NamesOk (startNamed ms) ms := by
  cases ms with
  | nil => exact ⟨nofun, trivial⟩
  | cons m ms =>
    rcases h with h | h
    · obtain ⟨s, hs, -⟩ := h _ List.mem_cons_self
      simpa [startNamed, hs] using h
    · have hn := h.1 _ List.mem_cons_self
      simpa [startNamed, hn] using h

theorem NamesOk.tail {named : Bool} {m : Member} {ms : List Member} (h : NamesOk named (m :: ms)) :
    NamesOk named ms := by
  cases named with
  | true => exact fun n hn => h n (List.mem_cons_of_mem _ hn)
  | false => exact ⟨fun n hn => h.1 n (List.mem_cons_of_mem _ hn), h.2.tail⟩

theorem NamesOk.quote_not_mem {named : Bool} {m : Member} {ms : List Member}
    (h : NamesOk named (m :: ms)) : ∀ s ∈ m.name, '"' ∉ s.toList := by
  intro s hs
  cases named with
  | true =>
    obtain ⟨s', hs', hq⟩ := h m List.mem_cons_self
    cases hs.symm.trans hs'
    exact hq
  | false => cases hs.symm.trans (h.1 m List.mem_cons_self)

theorem NamesOk.clear {ms : List Member} (h : NamesOk false ms) : Clear ms := by
  induction ms with
  | nil => trivial
  | cons m ms ih =>
    cases ms with
    | nil => trivial
    | cons n ms => exact ⟨fun he => ⟨h.1 n (by simp), h.2.1 he⟩, ih h.tail⟩

theorem NamesOk.precedes {named : Bool} {k : AggregateKind} {name : Option String} {t : ObjcType}
    {ms : List Member} {rest y : List Char} (hn : NamesOk named (⟨name, t⟩ :: ms))
    (h : WrittenMembers named k rest ms y) : Precedes named (y ++ k.closing :: rest) t := by
  cases named with
  | false => exact h.precedes_of_clear hn.clear
  | true =>
    refine h.precedes_of_named (fun m hm => ?_) t
    obtain ⟨s, hs, -⟩ := hn m (List.mem_cons_of_mem _ (List.mem_of_mem_head? hm))
    rw [hs]
    rfl

theorem spellMembers_cons (name : Option String) (t : ObjcType) (ms : List Member) :
    spellMembers (⟨name, t⟩ :: ms) = spellName name ++ spell t ++ spellMembers ms := by
  cases name <;> rfl

mutual

theorem written_spell (t : ObjcType) (hc : t.Canonical) {named : Bool} {rest : List Char}
    (hr : Precedes named rest t) : Written named rest t (spell t) := by
  match t with
  | .primitive p => exact .primitive p
  | .pointer t => exact .pointer (written_spell t hc hr)
  | .array n t =>
    have hct : t.Canonical := hc
    exact .array (Reading.isNumeral_toDigits _)
      (written_spell t hct (precedes_of_closing t rest (by decide)))
  | .aggregate k n ms =>
    obtain ⟨htag, hnames, hms⟩ := hc
    exact .aggregate (tagText_spellTag htag)
      (writtenMembers_spell ms hms k rest (namesOk_startNamed hnames))
  | .incomplete k n => exact .incomplete (tagText_spellTag hc)
  | .bitfield w => exact .bitfield (Reading.isNumeral_toDigits _) hr
  | .object c ps => exact written_spellObject hc hr
  | .block => exact .block hr
  | .blockOf r ts =>
    obtain ⟨hclash, hcr, hcts⟩ := hc
    have hts := writtenTypes_spell ts hcts rest hclash.tail
    exact .blockOf (written_spell r hcr (hts.precedes hclash)) hts
  | .qualified qs t =>
    obtain ⟨hqs, hq, hct⟩ := hc
    exact .qualified hqs hq (written_spell t hct hr)

theorem writtenMembers_spell (ms : List Member) (hc : CanonicalMembers ms) (k : AggregateKind)
    {named : Bool} (rest : List Char) (hn : NamesOk named ms) :
    WrittenMembers named k rest ms (spellMembers ms) := by
  match ms with
  | [] => exact .nil
  | ⟨name, t⟩ :: ms =>
    have hms := writtenMembers_spell ms hc.2 k rest hn.tail
    rw [spellMembers_cons]
    exact .cons hn.quote_not_mem (written_spell t hc.1 (hn.precedes hms)) hms

theorem writtenTypes_spell (ts : List ObjcType) (hc : CanonicalTypes ts) (rest : List Char)
    (hn : NoClash ts) : WrittenTypes rest ts (spellTypes ts) := by
  match ts with
  | [] => exact .nil
  | t :: ts =>
    have hts := writtenTypes_spell ts hc.2 rest hn.tail
    exact .cons (written_spell t hc.1 (hts.precedes hn)) hts

end

theorem spell_length_pos (t : ObjcType) (h : t.Canonical) : 0 < (spell t).length :=
  List.length_pos_iff.2 (written_spell t h (precedes_nil false t)).ne_nil

end ObjcType

namespace Reading

theorem typeWithin_spell (t : ObjcType) (hc : t.Canonical) (budget : Nat) (named : Bool)
    (rest : List Char) (hr : Precedes named rest t) :
    ReadsIf (t.nesting ≤ budget) (typeWithin budget named) (spell t) rest t :=
  typeWithin_written t (written_spell t hc hr) budget

theorem complete_of_ok {text rest : List Char} {t : ObjcType} {p : Nat} (hne : text ≠ [])
    (h : type ⟨0, text⟩ = .ok t ⟨p, rest⟩) (hr : rest = []) :
    complete.run ⟨0, text⟩ = .ok t := by
  obtain ⟨c, cs, rfl⟩ := List.exists_cons_of_ne_nil hne
  subst hr
  have hc : complete ⟨0, c :: cs⟩ = .ok t ⟨p, []⟩ := by
    change EStateM.bind type _ ⟨0, c :: cs⟩ = _
    rw [EStateM.bind, h]
    rfl
  rw [run, EStateM.run, hc]

theorem complete_of_error {text : List Char} {e : DecodeError} {c : Cursor} (hne : text ≠ [])
    (h : type ⟨0, text⟩ = .error e c) : complete.run ⟨0, text⟩ = .error e := by
  obtain ⟨x, xs, rfl⟩ := List.exists_cons_of_ne_nil hne
  have hc : complete ⟨0, x :: xs⟩ = .error e c := by
    change EStateM.bind type _ ⟨0, x :: xs⟩ = _
    rw [EStateM.bind, h]
  rw [run, EStateM.run, hc]

end Reading

namespace ObjcType

/-- The compact form of a canonical tree is decoded to that tree, up to the greatest nesting that
    is allowed; a deeper tree is refused as too deep. -/
theorem decode_encode_of_canonical (t : ObjcType) (h : t.Canonical) :
    (t.nesting ≤ maxNesting → decode t.encode = .ok t) ∧
      (maxNesting < t.nesting → ∃ offset, decode t.encode = .error (.tooDeep offset)) := by
  have hread := Reading.typeWithin_spell t h maxNesting false [] (precedes_nil false t)
  have hne : spell t ≠ [] := List.ne_nil_of_length_pos (spell_length_pos t h)
  have hcursor : Cursor.ofString t.encode = ⟨0, spell t⟩ := by
    rw [Cursor.ofString, encode, String.toList_ofList]
  rw [decode, hcursor]
  constructor
  · intro hn
    have ht := hread.reads hn 0
    rw [List.append_nil] at ht
    exact Reading.complete_of_ok hne ht rfl
  · intro hn
    obtain ⟨offset, c, ht⟩ := hread.exceeds (Nat.not_le.2 hn) 0
    rw [List.append_nil] at ht
    exact ⟨offset, Reading.complete_of_error hne ht⟩

/-- A tree with a templated name, names of members that could be taken for classes, an object of
    any class before a function pointer, and a block. -/
def sampleTree : ObjcType :=
  .aggregate .struct (some "pair<a=b, map<c\x7d>>") [
    ⟨some "owner", .id⟩,
    ⟨some "next", .pointer (.qualified [.const, .atomic] .id)⟩,
    ⟨some "delegate", .object (some "NSView") ["NSCopying", "NSCoding"]⟩,
    ⟨some "bits", .aggregate .union none
      [⟨none, .bitfield 3⟩, ⟨none, .id⟩, ⟨none, .pointer (.primitive .unknown)⟩]⟩,
    ⟨some "done", .blockOf (.primitive .void) [.block, .array 16 (.incomplete .struct none)]⟩]

theorem decode_encode_sampleTree :
    sampleTree.Canonical ∧ decode sampleTree.encode = .ok sampleTree := by
  have hid : ObjectOk none [] := ⟨nofun, nofun⟩
  have hview : ObjectOk (some "NSView") ["NSCopying", "NSCoding"] :=
    ⟨by simp, by simp [Text.trim, Text.isBlank]⟩
  have hc : sampleTree.Canonical := by
    simp [sampleTree, ObjcType.id, Canonical, CanonicalMembers, CanonicalMember, CanonicalTypes,
      TagOk, Enclosed, angleDepth, NamesOk, NoClash, endsInId, isQualified, AggregateKind.closing,
      hid, hview]
  exact ⟨hc, (decode_encode_of_canonical sampleTree hc).1 (by decide)⟩

end ObjcType

end ObjcAtlas
