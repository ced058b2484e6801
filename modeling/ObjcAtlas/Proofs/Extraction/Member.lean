import ObjcAtlas.Proofs.Extraction.Mirror

set_option autoImplicit false

namespace ObjcAtlas.Extraction

variable {o : ExtractOptions} {M : DecodeMemo} (s : Slice)

theorem mirrors_checkEntrySize (list : UInt64) (h : ListHeader) (least : UInt64) (what : String) :
    Mirrors o M (checkEntrySize list h least what) (Survey.checkEntrySize list h least what) id :=
  .ite (mirrors_lost (mirrors_warn (by decide) _ _) rfl) (mirrors_pure rfl)

theorem mirrors_listHeader (list least : UInt64) (mask : UInt32) (what : String) :
    Mirrors o M (listHeader s list least mask what) (Survey.listHeader s list least mask what)
      id := by
  refine (mirrors_read _ _ _).bind_option (mirrors_pure rfl) fun words => ?_
  refine (mirrors_checkEntrySize _ _ _ _).bind_option (mirrors_pure rfl) fun header => ?_
  exact .ite (mirrors_pure rfl) (mirrors_lost (mirrors_warn (by decide) _ _) rfl)

/-- The entries of a list that a slot leads to. -/
theorem mirrors_entries {α β : Type} {step : UInt64 → Extraction (Option β)}
    {step' : UInt64 → Survey (Option α)} {report : α → β}
    (h : ∀ entry, Mirrors o M (step entry) (step' entry) (Option.map report))
    (slot least : UInt64) (what : String) :
    Mirrors o M
      (do
        let some list ← follow s slot what | return []
        let some header ← listHeader s list least 0 what | return []
        collect step (header.entries list))
      (do
        let some list ← Survey.follow s slot what | return []
        let some header ← Survey.listHeader s list least 0 what | return []
        Survey.collect step' (header.entries list))
      (List.map report) := by
  refine (mirrors_follow s _ _).bind_option (mirrors_pure rfl) fun list => ?_
  exact (mirrors_listHeader s _ _ _ _).bind_option (mirrors_pure rfl) fun header => .collect h _

section

variable (hM : M.Serves o)

include hM

theorem mirrors_decodedMethod (entry : UInt64) (name encoding : String)
    (implementation : Option UInt64) :
    Mirrors o M (decodedMethod entry name encoding (implementation.map (· + o.slide)))
      (Survey.noteEncoding entry .signature encoding >>= fun _ =>
        pure (some { name, encoding, implementation }))
      (Option.map fun m : MethodRecord => (m.decode M).move o.slide) :=
  (mirrors_decoded decodes_signature hM _ _).bind fun _ => mirrors_pure rfl

theorem mirrors_pointerMethod (entry : UInt64) :
    Mirrors o M (pointerMethod s entry) (Survey.pointerMethod s entry)
      (Option.map fun m : MethodRecord => (m.decode M).move o.slide) := by
  refine (mirrors_followText s _ _).bind_option (mirrors_pure rfl) fun name => ?_
  refine (mirrors_followText s _ _).bind fun encoding => ?_
  dsimp only [id]
  cases s.target (entry + s.bits.words 2) with
  | error e => exact mirrors_decodedMethod hM entry name _ none
  | ok value =>
    cases value with
    | null => exact mirrors_decodedMethod hM entry name _ none
    | symbol t => exact mirrors_decodedMethod hM entry name _ none
    | address a => exact mirrors_decodedMethod hM entry name _ (some a)

theorem mirrors_relativeMethod (direct : Bool) (entry : UInt64) :
    Mirrors o M (relativeMethod s direct entry) (Survey.relativeMethod s direct entry)
      (Option.map fun m : MethodRecord => (m.decode M).move o.slide) := by
  refine (mirrors_read _ _ _).bind_option (mirrors_pure rfl) fun ⟨toName, toTypes, toCode⟩ => ?_
  have hrest (name : String) : Mirrors o M
      (do
        let encoding := (← text s (relativeAddress (entry + 4) toTypes) "method types").getD ""
        let implementation ← if toCode = 0 then pure none
          else some <$> slid (relativeAddress (entry + 8) toCode)
        decodedMethod entry name encoding implementation)
      (do
        let encoding :=
          (← Survey.text s (relativeAddress (entry + 4) toTypes) "method types").getD ""
        let implementation :=
          if toCode = 0 then none else some (relativeAddress (entry + 8) toCode)
        Survey.noteEncoding entry .signature encoding
        return some { name, encoding, implementation })
      (Option.map fun m : MethodRecord => (m.decode M).move o.slide) := by
    refine (mirrors_text s _ _).bind fun encoding => ?_
    by_cases hcode : toCode = 0
    · simp only [hcode, if_true]
      exact mirrors_decodedMethod hM entry name _ none
    · simp only [hcode, if_false]
      exact mirrors_decodedMethod hM entry name _ (some _)
  exact .ite ((mirrors_text s _ _).bind_option (mirrors_pure rfl) hrest)
    ((mirrors_followText s _ _).bind_option (mirrors_pure rfl) hrest)

theorem mirrors_methodsAt (list : UInt64) (what : String) :
    Mirrors o M (methodsAt s list what) (Survey.methodsAt s list what)
      (List.map fun m : MethodRecord => (m.decode M).move o.slide) := by
  refine (mirrors_listHeader s _ _ _ _).bind_option (mirrors_pure rfl) fun header => ?_
  refine (mirrors_checkEntrySize _ _ _ _).bind_option (mirrors_pure rfl) fun header => ?_
  exact .collect (fun entry =>
    .ite (mirrors_relativeMethod s hM _ _) (mirrors_pointerMethod s hM _)) _

theorem mirrors_methods (slot : UInt64) (what : String) :
    Mirrors o M (methods s slot what) (Survey.methods s slot what)
      (List.map fun m : MethodRecord => (m.decode M).move o.slide) :=
  (mirrors_follow s _ _).bind_option (mirrors_pure rfl) fun list => mirrors_methodsAt s hM list what

theorem mirrors_ivar (entry : UInt64) :
    Mirrors o M (ivar s entry) (Survey.ivar s entry) (Option.map (·.decode M)) := by
  have hoffset : Mirrors o M (ivarOffset s entry) (Survey.ivarOffset s entry) id :=
    (mirrors_follow s _ _).bind_option (mirrors_pure rfl) fun address => mirrors_read _ _ _
  refine hoffset.bind fun offset => ?_
  refine (mirrors_followText s _ _).bind fun name => ?_
  refine (mirrors_followText s _ _).bind fun encoding => ?_
  refine (mirrors_u32 s _ _).bind fun alignment => (mirrors_u32 s _ _).bind fun size => ?_
  exact (mirrors_decoded decodes_type hM _ _).bind fun _ => mirrors_pure rfl

theorem mirrors_ivars (slot : UInt64) :
    Mirrors o M (ivars s slot) (Survey.ivars s slot) (List.map (·.decode M)) :=
  mirrors_entries s (mirrors_ivar s hM) _ _ _

theorem mirrors_property (entry : UInt64) :
    Mirrors o M (property s entry) (Survey.property s entry) (Option.map (·.decode M)) := by
  refine (mirrors_followText s _ _).bind_option (mirrors_pure rfl) fun name => ?_
  refine (mirrors_followText s _ _).bind fun attributes => ?_
  exact (mirrors_decoded decodes_property hM _ _).bind fun _ => mirrors_pure rfl

theorem mirrors_properties (slot : UInt64) (what : String) :
    Mirrors o M (properties s slot what) (Survey.properties s slot what)
      (List.map (·.decode M)) :=
  mirrors_entries s (mirrors_property s hM) _ _ _

end

theorem mirrors_protocolName (entry : UInt64) :
    Mirrors o M (protocolName s entry) (Survey.protocolName s entry) id := by
  unfold protocolName Survey.protocolName
  cases s.target entry with
  | error e => exact mirrors_lost (mirrors_warnUnread _ _ _) rfl
  | ok value =>
    cases value with
    | null => exact mirrors_pure rfl
    | symbol t => exact mirrors_pure rfl
    | address a => exact mirrors_followText s _ _

theorem mirrors_protocolNames (slot : UInt64) :
    Mirrors o M (protocolNames s slot) (Survey.protocolNames s slot) id := by
  have hname (entry : UInt64) :
      Mirrors o M (protocolName s entry) (Survey.protocolName s entry) (Option.map id) := by
    rw [Option.map_id]
    exact mirrors_protocolName s entry
  refine (mirrors_follow s _ _).bind_option (mirrors_pure rfl) fun list => ?_
  refine (mirrors_read _ _ _).bind_option (mirrors_pure rfl) fun count => ?_
  refine .ite ?_ ((mirrors_warn (by decide) _ _).bind fun _ => mirrors_pure rfl)
  rw [← List.map_id_fun]
  exact .collect hname _

end ObjcAtlas.Extraction
