import ObjcAtlas.Proofs.Survey.DecodedLog
import ObjcAtlas.Proofs.Survey.Steady

set_option autoImplicit false

/-!
# Extractions and surveys

A step of an extraction mirrors a step of a survey if it never traps, reports what the survey finds,
and leaves the warnings, the names and the memo that come of the survey's events. A record that was
decoded with the memo of its time is compared with the one that a later memo gives: `Serves` is what
the later memo must be, and `Covers` what it must know.
-/
namespace ObjcAtlas

def Warning.isPlain (w : Warning) : Bool := w.kind != .typeSyntax

def readOn (decodeTypes : Bool) (log : List Event) (memo : DecodeMemo) :
    List Warning × DecodeMemo :=
  if decodeTypes then decodeLog log memo else (plainWarnings log, memo)

theorem readLog_eq_readOn (decodeTypes : Bool) (log : List Event) :
    readLog decodeTypes log = readOn decodeTypes log {} := rfl

theorem readOn_append (decodeTypes : Bool) (log more : List Event) (memo : DecodeMemo) :
    readOn decodeTypes (log ++ more) memo =
      ((readOn decodeTypes log memo).1 ++
          (readOn decodeTypes more (readOn decodeTypes log memo).2).1,
        (readOn decodeTypes more (readOn decodeTypes log memo).2).2) := by
  cases decodeTypes with
  | false => exact congrArg (·, memo) (plainWarnings_append log more)
  | true => exact decodeLog_append log more memo

theorem filter_decodeLog {log : List Event} (h : ∀ e ∈ log, e.IsPlain) (memo : DecodeMemo) :
    (decodeLog log memo).1.filter (·.isPlain) = plainWarnings log := by
  induction log generalizing memo with
  | nil => rfl
  | cons event log ih =>
    obtain ⟨hevent, hlog⟩ := List.forall_mem_cons.1 h
    cases event with
    | warning w =>
      have hw : w.isPlain = true := bne_iff_ne.2 hevent
      have hrest := ih hlog memo
      simp [decodeLog, plainWarnings, hw, hrest]
    | encoding address kind text =>
      have hrest := ih hlog (kind.decode memo text).2
      have hfailure (e : DecodeError) : (kind.warning address text e).isPlain = false := rfl
      cases hdecode : (kind.decode memo text).1 with
      | none => simp [decodeLog, plainWarnings, hdecode, hrest]
      | some e => simp [decodeLog, plainWarnings, hdecode, hfailure, hrest]

theorem filter_readOn {log : List Event} (h : ∀ e ∈ log, e.IsPlain) (decodeTypes : Bool)
    (memo : DecodeMemo) :
    (readOn decodeTypes log memo).1.filter (·.isPlain) = plainWarnings log := by
  cases decodeTypes with
  | false =>
    refine List.filter_eq_self.2 fun w hw => bne_iff_ne.2 ?_
    obtain ⟨event, hevent, hw⟩ := List.mem_filterMap.1 hw
    cases event with
    | warning w' => exact Option.some.inj hw ▸ h _ hevent
    | encoding address kind text => exact absurd hw nofun
  | true => exact filter_decodeLog h memo

theorem any_readOn {log : List Event} (h : ∀ e ∈ log, e.IsPlain) (decodeTypes : Bool)
    (memo : DecodeMemo) :
    (readOn decodeTypes log memo).1.any (·.isPlain) = log.any Event.isWarning := by
  have hplain : (plainWarnings log).any (fun _ => true) = log.any Event.isWarning := by
    rw [plainWarnings, List.any_filterMap]
    congr 1
    funext event
    cases event <;> rfl
  rw [← hplain, ← filter_readOn h decodeTypes memo, List.any_filter]
  simp only [Bool.and_true]

theorem right_readOn (decodeTypes : Bool) (log : List Event) {memo : DecodeMemo}
    (h : memo.Right) : (readOn decodeTypes log memo).2.Right := by
  cases decodeTypes with
  | false => exact h
  | true => exact right_decodeLog log h

namespace Progress

/-- What is kept after these events and with these names. -/
def after (o : ExtractOptions) (p : Progress) (events : List Event)
    (names : Std.TreeMap UInt64 (Option String)) : Progress :=
  let (warnings, memo) := readOn o.decodeTypes events p.memo
  { warnings := p.warnings ++ (warnings.map (·.move o.slide)).toArray, names, memo }

variable {o : ExtractOptions} {p : Progress}

theorem after_nil (names : Std.TreeMap UInt64 (Option String)) :
    p.after o [] names = { p with names } := by
  cases hdecode : o.decodeTypes <;> simp [after, readOn, hdecode, decodeLog, plainWarnings]

theorem after_warning (w : Warning) : p.after o [.warning w] p.names =
    { p with warnings := p.warnings.push (w.move o.slide) } := by
  cases hdecode : o.decodeTypes <;> simp [after, readOn, hdecode, decodeLog, plainWarnings]

theorem after_append (events more : List Event)
    (names names' : Std.TreeMap UInt64 (Option String)) :
    (p.after o events names).after o more names' = p.after o (events ++ more) names' := by
  simp [after, readOn_append]

theorem right_after (h : p.memo.Right) (events : List Event)
    (names : Std.TreeMap UInt64 (Option String)) : (p.after o events names).memo.Right :=
  right_readOn o.decodeTypes events h

end Progress

/-- The memo has what these options may decode, and nothing else. -/
structure DecodeMemo.Serves (M : DecodeMemo) (o : ExtractOptions) : Prop where
  right : M.Right
  known : ∀ x, M.Known x → o.decodeTypes = true ∧ x.2.isEmpty = false

theorem DecodeMemo.serves_empty (o : ExtractOptions) : DecodeMemo.Serves {} o :=
  ⟨right_empty, fun x h => absurd h (not_known_empty x)⟩

/-- The memo knows the encodings among the events, if these are decoded. -/
def DecodeMemo.Covers (M : DecodeMemo) (o : ExtractOptions) (events : List Event) : Prop :=
  o.decodeTypes = true → ∀ address kind text, .encoding address kind text ∈ events →
    M.Known (kind, text)

namespace Progress

variable {α : Type} {o : ExtractOptions} {p : Progress}

def notes (p : Progress) : Notes := { names := p.names }

/-- What is kept after what the survey does in this step. -/
def past (o : ExtractOptions) (p : Progress) (x : Survey α) : Progress :=
  p.after o (x p.notes).2.log.toList (x p.notes).2.names

variable {x : Survey α}

theorem warnings_past : (p.past o x).warnings = p.warnings ++
    ((readOn o.decodeTypes (x p.notes).2.log.toList p.memo).1.map (·.move o.slide)).toArray := rfl

theorem known_past (e : EncodingKind × String) : (p.past o x).memo.Known e ↔ p.memo.Known e ∨
    o.decodeTypes = true ∧ ∃ address, .encoding address e.1 e.2 ∈ (x p.notes).2.log.toList := by
  change (readOn o.decodeTypes (x p.notes).2.log.toList p.memo).2.Known e ↔ _
  cases o.decodeTypes with
  | false => simp [readOn]
  | true => simpa [readOn] using known_decodeLog (x p.notes).2.log.toList p.memo e

theorem serves_past (h : p.memo.Serves o) (hplain : ∀ e ∈ (x p.notes).2.log.toList, e.IsPlain) :
    (p.past o x).memo.Serves o where
  right := right_after h.right _ _
  known e he := by
    rcases (known_past e).1 he with hold | ⟨hdecode, address, hmem⟩
    · exact h.known e hold
    · exact ⟨hdecode, hplain _ hmem⟩

theorem covers_past : (p.past o x).memo.Covers o (x p.notes).2.log.toList :=
  fun hdecode address kind text hmem => (known_past (kind, text)).2 (.inr ⟨hdecode, address, hmem⟩)

end Progress

namespace Extraction

variable {α β γ : Type} {o : ExtractOptions} {M : DecodeMemo}

/-- The step does with these options what the survey does, and gives what `report` makes of what the
    survey finds. -/
def Mirrors (o : ExtractOptions) (M : DecodeMemo) (m : Extraction β) (x : Survey α)
    (report : α → β) : Prop :=
  ∀ n, ∃ events, (x n).2.log.toList = n.log.toList ++ events ∧ (∀ e ∈ events, e.IsPlain) ∧
    ∀ p, p.names = n.names → p.memo.Right → M.Covers o events →
      m o p = some (report (x n).1, p.after o events (x n).2.names)

/-- The memo that a step leaves will do for what the step reports. -/
theorem run_of_mirrors {m : Extraction β} {x : Survey α} {report : DecodeMemo → α → β}
    (h : ∀ M : DecodeMemo, M.Serves o → Mirrors o M m x (report M)) {p : Progress}
    (hp : p.memo.Serves o) :
    m o p = some (report (p.past o x).memo (x p.notes).1, p.past o x) ∧
      (p.past o x).memo.Serves o ∧ ∀ e ∈ (x p.notes).2.log.toList, e.IsPlain := by
  obtain ⟨events, hlog, hplain, -⟩ := h p.memo hp p.notes
  obtain rfl : (x p.notes).2.log.toList = events := hlog
  have hpast := Progress.serves_past hp hplain
  obtain ⟨events', hlog', -, hrun⟩ := h _ hpast p.notes
  obtain rfl : (x p.notes).2.log.toList = events' := hlog'
  exact ⟨hrun p rfl hp.right Progress.covers_past, hpast, hplain⟩

section

variable {m : Extraction β} {x : Survey α} {report : α → β}

theorem mirrors_pure {a : α} {b : β} (h : b = report a) : Mirrors o M (pure b) (pure a) report := by
  intro n
  refine ⟨[], (List.append_nil _).symm, nofun, fun p hnames _ _ => ?_⟩
  change some (b, p) = some (report a, p.after o [] n.names)
  rw [Progress.after_nil, ← hnames, h]

theorem Mirrors.bind_of_ensures {δ : Type} {P : α → Prop} {f : β → Extraction γ}
    {g : α → Survey δ} {report' : δ → γ} (h : Mirrors o M m x report) (hP : Survey.Ensures x P)
    (k : ∀ a, P a → Mirrors o M (f (report a)) (g a) report') :
    Mirrors o M (m >>= f) (x >>= g) report' := by
  intro n
  obtain ⟨events, hlog, hplain, hrun⟩ := h n
  obtain ⟨more, hlog', hplain', hrun'⟩ := k (x n).1 (hP n) (x n).2
  refine ⟨events ++ more, ?_, List.forall_mem_append.2 ⟨hplain, hplain'⟩, ?_⟩
  · rw [← List.append_assoc, ← hlog]
    exact hlog'
  intro p hnames hright hcovers
  have hfirst := hrun p hnames hright fun hdecode address kind text hmem =>
    hcovers hdecode address kind text (List.mem_append_left more hmem)
  have hthen := hrun' (p.after o events (x n).2.names) rfl (Progress.right_after hright events _)
    fun hdecode address kind text hmem =>
      hcovers hdecode address kind text (List.mem_append_right events hmem)
  change (m o p).bind (fun r => f r.1 o r.2) = _
  rw [hfirst, ← Progress.after_append]
  exact hthen

theorem Mirrors.bind {δ : Type} {f : β → Extraction γ} {g : α → Survey δ} {report' : δ → γ}
    (h : Mirrors o M m x report) (k : ∀ a, Mirrors o M (f (report a)) (g a) report') :
    Mirrors o M (m >>= f) (x >>= g) report' :=
  h.bind_of_ensures (Survey.ensures_any x) fun a _ => k a

theorem Mirrors.bind_of_gives {δ : Type} {a : α} {f : β → Extraction γ} {g : α → Survey δ}
    {report' : δ → γ} (h : Mirrors o M m x report) (hg : Survey.Gives x a)
    (k : Mirrors o M (f (report a)) (g a) report') : Mirrors o M (m >>= f) (x >>= g) report' := by
  refine h.bind_of_ensures hg fun b hb => ?_
  rw [hb]
  exact k

theorem Mirrors.bind_option {δ : Type} {m : Extraction (Option α)} {x : Survey (Option α)}
    {f : Option α → Extraction γ} {g : Option α → Survey δ} {report' : δ → γ}
    (h : Mirrors o M m x id) (hnone : Mirrors o M (f none) (g none) report')
    (hsome : ∀ a, Mirrors o M (f (some a)) (g (some a)) report') :
    Mirrors o M (m >>= f) (x >>= g) report' := by
  refine h.bind fun r => ?_
  cases r with
  | none => exact hnone
  | some a => exact hsome a

theorem Mirrors.slid {address : UInt64} {f : UInt64 → Extraction β}
    (h : Mirrors o M (f (address + o.slide)) x report) :
    Mirrors o M (Extraction.slid address >>= f) x report := h

theorem Mirrors.ite {c : Prop} [Decidable c] {m' : Extraction β} {x' : Survey α}
    (h : Mirrors o M m x report) (h' : Mirrors o M m' x' report) :
    Mirrors o M (if c then m else m') (if c then x else x') report := by
  split
  · exact h
  · exact h'

theorem Mirrors.some_map (h : Mirrors o M m x report) :
    Mirrors o M (some <$> m) (some <$> x) (Option.map report) := by
  intro n
  obtain ⟨events, hlog, hplain, hrun⟩ := h n
  refine ⟨events, hlog, hplain, fun p hnames hright hcovers => ?_⟩
  change (m o p).bind (fun r => some (some r.1, r.2)) = _
  rw [hrun p hnames hright hcovers]
  rfl

theorem Mirrors.when {δ : Type} {c : Prop} [Decidable c] {m : Extraction Unit} {x : Survey Unit}
    {f : Unit → Extraction γ} {g : Unit → Survey δ} {report' : δ → γ} (h : Mirrors o M m x id)
    (k : Mirrors o M (f ()) (g ()) report') :
    Mirrors o M (if c then m >>= f else f ()) (if c then x >>= g else g ()) report' :=
  (h.bind fun _ => k).ite k

theorem Mirrors.collect_map {δ : Type} {step : γ → Extraction (Option β)}
    {step' : δ → Survey (Option α)} {place : γ → δ}
    (h : ∀ c, Mirrors o M (step c) (step' (place c)) (Option.map report)) (cs : List γ) :
    Mirrors o M (Extraction.collect step cs) (Survey.collect step' (cs.map place))
      (List.map report) := by
  induction cs with
  | nil => exact mirrors_pure rfl
  | cons c cs ih =>
    refine (h c).bind fun found => ih.bind fun rest => mirrors_pure ?_
    cases found <;> rfl

theorem Mirrors.collect {step : γ → Extraction (Option β)} {step' : γ → Survey (Option α)}
    (h : ∀ c, Mirrors o M (step c) (step' c) (Option.map report)) (cs : List γ) :
    Mirrors o M (Extraction.collect step cs) (Survey.collect step' cs) (List.map report) := by
  have hmap : Mirrors o M (Extraction.collect step cs) (Survey.collect step' (cs.map id))
      (List.map report) := .collect_map h cs
  rwa [List.map_id] at hmap

end

theorem mirrors_note {w : Warning} (h : w.kind ≠ .typeSyntax) :
    Mirrors o M (note (w.move o.slide)) (Survey.note (.warning w)) id := by
  intro n
  refine ⟨[.warning w], Array.toList_push, List.forall_mem_singleton.2 h, fun p hnames _ _ => ?_⟩
  change _ = some ((), p.after o [.warning w] n.names)
  rw [← hnames, Progress.after_warning]
  rfl

theorem mirrors_warn {kind : WarningKind} (h : kind ≠ .typeSyntax) (address : UInt64)
    (message : String) :
    Mirrors o M (warn kind address message) (Survey.warn kind address message) id :=
  mirrors_note (w := ⟨kind, address, message⟩) h

theorem mirrors_warnUnread (address : UInt64) (what : String) (e : ImageError) :
    Mirrors o M (warnUnread address what e) (Survey.warnUnread address what e) id :=
  mirrors_note (w := .ofError address what e) (WarningKind.ofError_ne_typeSyntax e)

theorem mirrors_lost {report : Option α → Option β} {m : Extraction Unit} {x : Survey Unit}
    (h : Mirrors o M m x id) (hnone : report none = none) :
    Mirrors o M (lost m) (Survey.lost x) report :=
  h.bind fun _ => mirrors_pure hnone.symm

/-- How one kind of encoding is decoded and looked up in a memo. -/
structure DecodedBy (kind : EncodingKind) (decode : String → Except DecodeError α)
    (ask : DecodeMemo → String → Except DecodeError α × DecodeMemo)
    (find : DecodeMemo → String → Option α) : Prop where
  answer : ∀ {memo : DecodeMemo}, memo.Right → ∀ text, (ask memo text).1 = decode text
  asked : ∀ memo text, kind.decode memo text =
    (EncodingKind.decode.failure? (ask memo text).1, (ask memo text).2)
  found : ∀ {memo : DecodeMemo}, memo.Right → ∀ text, memo.Known (kind, text) →
    find memo text = (decode text).toOption
  missed : ∀ memo text, ¬ memo.Known (kind, text) → find memo text = none

theorem decodes_type :
    DecodedBy .type ObjcType.decode DecodeMemo.type DecodeMemo.type? where
  answer h text := (h.answers text).1
  asked _ _ := rfl
  found h text hknown := (h.type?_eq text).trans (if_pos hknown)
  missed memo text h := by rw [DecodeMemo.type?, Std.TreeMap.getElem?_eq_none h, Option.bind_none]

theorem decodes_signature :
    DecodedBy .signature MethodSignature.decode DecodeMemo.signature DecodeMemo.signature? where
  answer h text := (h.answers text).2.1
  asked _ _ := rfl
  found h text hknown := (h.signature?_eq text).trans (if_pos hknown)
  missed memo text h := by
    rw [DecodeMemo.signature?, Std.TreeMap.getElem?_eq_none h, Option.bind_none]

theorem decodes_property :
    DecodedBy .property PropertyAttributes.decode DecodeMemo.property DecodeMemo.property? where
  answer h text := (h.answers text).2.2
  asked _ _ := rfl
  found h text hknown := (h.property?_eq text).trans (if_pos hknown)
  missed memo text h := by
    rw [DecodeMemo.property?, Std.TreeMap.getElem?_eq_none h, Option.bind_none]

section

variable {kind : EncodingKind} {decode : String → Except DecodeError α}
variable {ask : DecodeMemo → String → Except DecodeError α × DecodeMemo}
variable {find : DecodeMemo → String → Option α}

theorem decoded_of_idle {address : UInt64} {text : String}
    (h : o.decodeTypes = false ∨ text.isEmpty = true) (p : Progress) :
    decoded kind ask address text o p = some (none, p) := by
  have hidle : (!o.decodeTypes || text.isEmpty) = true := by
    rcases h with h | h <;> simp [h]
  change (if (!o.decodeTypes || text.isEmpty) = true then _ else _ : Extraction (Option α)) o p = _
  rw [if_pos hidle]
  rfl

theorem decoded_of_asked (h : DecodedBy kind decode ask find) {address : UInt64} {text : String}
    (hdecode : o.decodeTypes = true) (htext : text.isEmpty = false) {p : Progress}
    (hright : p.memo.Right) : decoded kind ask address text o p =
      some ((decode text).toOption, p.after o [.encoding address kind text] p.names) := by
  have hbusy : ¬ (!o.decodeTypes || text.isEmpty) = true := by simp [hdecode, htext]
  have hanswer := h.answer hright text
  change (if (!o.decodeTypes || text.isEmpty) = true then _ else _ : Extraction (Option α)) o p = _
  rw [if_neg hbusy, Progress.after, readOn, hdecode, if_pos rfl]
  simp only [decodeLog, h.asked, hanswer]
  simp only [bind, ReaderT.bind, StateT.bind, Option.bind, get, getThe, MonadStateOf.get, liftM,
    monadLift, MonadLift.monadLift, StateT.get, pure, hanswer]
  cases decode text with
  | ok a =>
    simp only [EncodingKind.decode.failure?, Option.map_none, Option.toList_none, List.append_nil,
      List.map_nil, Array.append_empty]
    rfl
  | error e =>
    simp only [EncodingKind.decode.failure?, Option.map_some, Option.toList_some, List.append_nil,
      List.map_cons, List.map_nil, Array.append_singleton]
    rfl

theorem mirrors_decoded (h : DecodedBy kind decode ask find) (hM : M.Serves o) (address : UInt64)
    (text : String) :
    Mirrors o M (decoded kind ask address text) (Survey.noteEncoding address kind text)
      fun _ => find M text := by
  have hmissed (hidle : o.decodeTypes = false ∨ text.isEmpty = true) : find M text = none := by
    refine h.missed M text fun hknown => ?_
    obtain ⟨hdecode, htext⟩ := hM.known _ hknown
    rcases hidle with hidle | hidle
    · rw [hidle] at hdecode
      exact absurd hdecode nofun
    · rw [hidle] at htext
      exact absurd htext nofun
  intro n
  unfold Survey.noteEncoding
  cases htext : text.isEmpty with
  | true =>
    refine ⟨[], (List.append_nil _).symm, nofun, fun p hnames _ _ => ?_⟩
    rw [decoded_of_idle (.inr htext), hmissed (.inr htext)]
    change some (none, p) = some (none, p.after o [] n.names)
    rw [Progress.after_nil, ← hnames]
  | false =>
    refine ⟨[.encoding address kind text], Array.toList_push, List.forall_mem_singleton.2 htext,
      fun p hnames hright hcovers => ?_⟩
    change _ = some (_, p.after o _ n.names)
    rw [← hnames]
    cases hdecode : o.decodeTypes with
    | false =>
      rw [decoded_of_idle (.inl hdecode), hmissed (.inl hdecode)]
      have hsame : p.after o [.encoding address kind text] p.names = p := by
        simp [Progress.after, readOn, hdecode, plainWarnings]
      rw [hsame]
    | true =>
      have hknown := hcovers hdecode address kind text (List.mem_singleton_self _)
      rw [decoded_of_asked h hdecode htext hright, h.found hM.right text hknown]

end

/-- The mark is set by the warnings since, but for those about syntax. -/
theorem Mirrors.watched {m : Extraction β} {x : Survey α} {report : α → β}
    (h : Mirrors o M m x report) :
    Mirrors o M (watched m) (Survey.watched x) fun r => (report r.1, r.2) := by
  intro n
  obtain ⟨events, hlog, hplain, hrun⟩ := h { n with log := #[] }
  rw [List.nil_append] at hlog
  refine ⟨events, ?_, hplain, fun p hnames hright hcovers => ?_⟩
  · change (n.log ++ (x { n with log := #[] }).2.log).toList = _
    rw [Array.toList_append, hlog]
  have hstep := hrun p hnames hright hcovers
  have hsince : ((p.after o events (x { n with log := #[] }).2.names).warnings.extract
      p.warnings.size).any (·.isPlain) = (x { n with log := #[] }).2.log.any Event.isWarning := by
    rw [← Array.any_toList, ← Array.any_toList, hlog, ← any_readOn hplain o.decodeTypes p.memo]
    have hnew : ((p.after o events (x { n with log := #[] }).2.names).warnings.extract
        p.warnings.size).toList =
          (readOn o.decodeTypes events p.memo).1.map (·.move o.slide) := by
      simp [Progress.after, List.take_of_length_le]
    rw [hnew, List.any_map]
    rfl
  change (m o p).bind (fun r => some ((r.1, (r.2.warnings.extract p.warnings.size).any
    (·.isPlain)), r.2)) = _
  rw [hstep, Option.bind_some, hsince]
  rfl

theorem mirrors_read (address : UInt64) (what : String) (r : Except ImageError α) :
    Mirrors o M (read address what r) (Survey.read address what r) id := by
  cases r with
  | ok a => exact mirrors_pure rfl
  | error e => exact mirrors_lost (mirrors_warnUnread address what e) rfl

variable (s : Slice)

theorem mirrors_u32 (address : UInt64) (what : String) :
    Mirrors o M (u32 s address what) (Survey.u32 s address what) id :=
  (mirrors_read address what _).bind fun _ => mirrors_pure rfl

theorem mirrors_follow (slot : UInt64) (what : String) :
    Mirrors o M (follow s slot what) (Survey.follow s slot what) id := by
  unfold follow Survey.follow
  cases s.target slot with
  | error e => exact mirrors_lost (mirrors_warnUnread _ _ _) rfl
  | ok value =>
    cases value with
    | null => exact mirrors_pure rfl
    | symbol t => exact mirrors_lost (mirrors_warn (by decide) _ _) rfl
    | address a => exact .ite (mirrors_pure rfl) (mirrors_lost (mirrors_warn (by decide) _ _) rfl)

theorem mirrors_text (address : UInt64) (what : String) :
    Mirrors o M (text s address what) (Survey.text s address what) id :=
  .ite (mirrors_lost (mirrors_warn (by decide) _ _) rfl) (mirrors_read _ _ _)

theorem mirrors_followText (slot : UInt64) (what : String) :
    Mirrors o M (followText s slot what) (Survey.followText s slot what) id :=
  (mirrors_follow s slot what).bind_option (mirrors_pure rfl) fun address =>
    mirrors_text s address what

end Extraction

end ObjcAtlas
