import EventSchema.Document.Parse
import EventSchema.Document.Writer
import EventSchema.Proofs.Json.Restatement
import EventSchema.Proofs.Table
import Mathlib.Data.Set.List

/-!
# Documents as JSON

A document is read from its JSON value and from each value that restates it (`ofJson?_of_restates`).
A field is read from what the record gives for it, and a record from its fields.
-/

namespace EventSchema

namespace Document

open Json (Restates Gives ofText? ofValue? ofList)

/-! ## Fields -/

theorem text?_of_gives {s : String} {o : Option Json} (h : Gives (.string s) o) :
    text? o = some s := by
  obtain ⟨w, rfl, hw⟩ | ⟨-, hnothing⟩ := h
  · rw [Json.eq_of_restates_string hw]
    rfl
  · cases hnothing

theorem optionalText?_of_gives {s : Option String} {o : Option Json} (h : Gives (ofText? s) o) :
    optionalText? o = some s := by
  cases s with
  | none =>
    obtain ⟨w, rfl, hw⟩ | ⟨rfl, -⟩ := h
    · rw [Json.eq_of_restates_null hw]
      rfl
    · rfl
  | some s =>
    obtain ⟨w, rfl, hw⟩ | ⟨-, hnothing⟩ := h
    · rw [Json.eq_of_restates_string hw]
      rfl
    · cases hnothing

theorem optionalNumber?_of_gives {v : Option UInt32} {o : Option Json} (h : Gives (ofValue? v) o) :
    optionalNumber? o = some v := by
  cases v with
  | none =>
    obtain ⟨w, rfl, hw⟩ | ⟨rfl, -⟩ := h
    · rw [Json.eq_of_restates_null hw]
      rfl
    · rfl
  | some v =>
    obtain ⟨w, rfl, hw⟩ | ⟨-, hnothing⟩ := h
    · rw [Json.eq_of_restates_number hw]
      simp [optionalNumber?, UInt32.toNat_lt_size]
    · cases hnothing

/-- Items are read one by one. -/
theorem mapM_of_restates {α : Type} {item : α → Json} {item? : Json → Option α} {l : List α}
    {ws : List Json} (hitem : ∀ a w, (item a).Restates w → item? w = some a)
    (h : List.Forall₂ Restates (l.map item) ws) : ws.mapM item? = some l := by
  induction l generalizing ws with
  | nil =>
    cases h
    rfl
  | cons a l ih =>
    obtain _ | ⟨hw, hws⟩ := h
    rw [List.mapM_cons, hitem a _ hw, ih hws]
    rfl

theorem list?_of_gives {α : Type} {item : α → Json} {item? : Json → Option α} {l : List α}
    {o : Option Json} (hitem : ∀ a w, (item a).Restates w → item? w = some a)
    (h : Gives (ofList item l) o) : list? item? o = some l := by
  obtain ⟨w, rfl, hw⟩ | ⟨rfl, hnothing⟩ := h
  · obtain ⟨ws, rfl, hws⟩ := Json.restates_array hw
    exact mapM_of_restates hitem hws
  · cases l with
    | nil => rfl
    | cons a l => cases hnothing

/-! ## Records -/

/-- The fields of a record are what it gives for their names. -/
theorem fields?_of_restates (names : List String) {ms : List (String × Json)} {w : Json}
    (h : (Json.object ms).Restates w) (hnames : ms.map (·.1) = names) (nodup : names.Nodup) :
    ∃ os, fields? names w = some os ∧ List.Forall₂ Gives (ms.map (·.2)) os := by
  subst hnames
  obtain ⟨ns, rfl, hnodup, -, hgives⟩ := Json.restates_object h nodup
  have hany : ((ms.map (·.1)).any fun name => decide (1 < (ns.map (·.1)).count name)) = false := by
    rw [List.any_eq_false]
    intro name _
    have := List.nodup_iff_count.1 hnodup name
    simpa using this
  refine ⟨(ms.map (·.1)).map fun name => ns.lookup name, ?_, ?_⟩
  · rw [fields?, hany, if_neg Bool.false_ne_true]
  · rw [List.map_map, List.forall₂_map_left_iff, List.forall₂_map_right_iff, List.forall₂_same]
    exact hgives

theorem opcodeOfJson?_of_restates (e : OpcodeEntry) (w : Json) (h : e.toJson.Restates w) :
    opcodeOfJson? w = some e := by
  obtain ⟨os, hfields, hgives⟩ := fields?_of_restates ["name", "value"] h rfl (by decide)
  obtain _ | ⟨hname, _ | ⟨hvalue, _ | _⟩⟩ := hgives
  simp only [opcodeOfJson?, hfields, Option.bind_eq_bind, Option.bind_some, text?_of_gives hname,
    optionalNumber?_of_gives hvalue]
  rfl

theorem channelOfJson?_of_restates (e : ChannelEntry) (w : Json) (h : e.toJson.Restates w) :
    channelOfJson? w = some e := by
  obtain ⟨os, hfields, hgives⟩ :=
    fields?_of_restates ["id", "name", "type", "value"] h rfl (by decide)
  obtain _ | ⟨hid, _ | ⟨hname, _ | ⟨htype, _ | ⟨hvalue, _ | _⟩⟩⟩⟩ := hgives
  simp only [channelOfJson?, hfields, Option.bind_eq_bind, Option.bind_some, text?_of_gives hid,
    text?_of_gives hname, text?_of_gives htype, optionalNumber?_of_gives hvalue]
  rfl

theorem taskOfJson?_of_restates (e : TaskEntry) (w : Json) (h : e.toJson.Restates w) :
    taskOfJson? w = some e := by
  obtain ⟨os, hfields, hgives⟩ := fields?_of_restates ["name", "value", "opcodes"] h rfl (by decide)
  obtain _ | ⟨hname, _ | ⟨hvalue, _ | ⟨hopcodes, _ | _⟩⟩⟩ := hgives
  simp only [taskOfJson?, hfields, Option.bind_eq_bind, Option.bind_some, text?_of_gives hname,
    optionalNumber?_of_gives hvalue, list?_of_gives opcodeOfJson?_of_restates hopcodes]
  rfl

theorem paramOfJson?_of_restates (p : String × String) (w : Json)
    (h : (Json.object [("type", .string p.1), ("name", .string p.2)]).Restates w) :
    paramOfJson? w = some p := by
  obtain ⟨os, hfields, hgives⟩ := fields?_of_restates ["type", "name"] h rfl (by decide)
  obtain _ | ⟨htype, _ | ⟨hname, _ | _⟩⟩ := hgives
  simp only [paramOfJson?, hfields, Option.bind_eq_bind, Option.bind_some, text?_of_gives htype,
    text?_of_gives hname]
  rfl

theorem eventOfJson?_of_restates (e : EventDecl) (w : Json) (h : e.toJson.Restates w) :
    eventOfJson? w = some e := by
  obtain ⟨os, hfields, hgives⟩ :=
    fields?_of_restates
      ["subsystem", "severity", "level", "channel", "task", "opcode", "value", "params"] h rfl
      (by decide)
  obtain _ | ⟨hsubsystem, _ | ⟨hseverity, _ | ⟨hlevel, _ | ⟨hchannel, hgives⟩⟩⟩⟩ := hgives
  obtain _ | ⟨htask, _ | ⟨hopcode, _ | ⟨hvalue, _ | ⟨hparams, _ | _⟩⟩⟩⟩ := hgives
  simp only [eventOfJson?, hfields, Option.bind_eq_bind, Option.bind_some,
    text?_of_gives hsubsystem, text?_of_gives hseverity, text?_of_gives hlevel,
    text?_of_gives hchannel, text?_of_gives htask, text?_of_gives hopcode,
    optionalNumber?_of_gives hvalue, list?_of_gives paramOfJson?_of_restates hparams]
  rfl

theorem providerOfJson?_of_restates (e : ProviderEntry) (w : Json) (h : e.toJson.Restates w) :
    providerOfJson? w = some e := by
  obtain ⟨os, hfields, hgives⟩ :=
    fields?_of_restates ["id", "name", "symbol", "description", "resourceName"] h rfl (by decide)
  obtain _ | ⟨hid, _ | ⟨hname, _ | ⟨hsymbol, _ | ⟨hdescription, hgives⟩⟩⟩⟩ := hgives
  obtain _ | ⟨hresourceName, _ | _⟩ := hgives
  simp only [providerOfJson?, hfields, Option.bind_eq_bind, Option.bind_some,
    optionalText?_of_gives hid, optionalText?_of_gives hname, optionalText?_of_gives hsymbol,
    optionalText?_of_gives hdescription, optionalText?_of_gives hresourceName]
  rfl

/-! ## Fields of documents -/

theorem optionalProvider?_of_gives {e : Option ProviderEntry} {o : Option Json}
    (h : Gives ((e.map ProviderEntry.toJson).getD .null) o) : optionalProvider? o = some e := by
  cases e with
  | none =>
    obtain ⟨w, rfl, hw⟩ | ⟨rfl, -⟩ := h
    · rw [Json.eq_of_restates_null hw]
      rfl
    · rfl
  | some e =>
    obtain ⟨w, rfl, hw⟩ | ⟨-, hnothing⟩ := h
    · have hread := providerOfJson?_of_restates e w hw
      cases w with
      | null => cases hw
      | _ => exact congrArg (Option.map some) hread
    · cases hnothing

/-- A text as the member of an object. -/
def textMember (e : String × String) : String × Json := (e.1, .string e.2)

theorem textMember_injective : Function.Injective textMember := by
  rintro ⟨k, s⟩ ⟨l, t⟩ h
  cases h
  rfl

theorem map_fst_textMember (l : List (String × String)) :
    (l.map textMember).map (·.1) = l.map (·.1) := by
  rw [List.map_map]
  rfl

/-- An object that restates the texts of a table has these texts. -/
theorem exists_texts_of_restates {t : Table String String} {w : Json}
    (h : (textsToJson t).Restates w) :
    ∃ l : List (String × String), w = .object (l.map textMember) ∧ (l.map (·.1)).Nodup ∧
      ∀ e, e ∈ l ↔ e ∈ t.entries := by
  have hkeys : (t.entries.map textMember).map (·.1) = t.keys := map_fst_textMember _
  have hobject : (Json.object (t.entries.map textMember)).Restates w := h
  obtain ⟨ns, rfl, hnodup, hknown, hgives⟩ := Json.restates_object hobject (hkeys ▸ t.keys_nodup)
  have hlookup : ∀ e ∈ t.entries, ns.lookup e.1 = some (.string e.2) := by
    intro e he
    obtain ⟨w, hw, hrestates⟩ | ⟨-, hnothing⟩ := hgives (textMember e) (List.mem_map_of_mem he)
    · rw [Json.eq_of_restates_string hrestates] at hw
      exact hw
    · cases hnothing
  have horigin : ∀ n ∈ ns, ∃ e ∈ t.entries, textMember e = n := by
    intro n hn
    obtain ⟨m, hm, hkey⟩ := List.mem_map.1 (hknown (List.mem_map_of_mem hn))
    obtain ⟨e, he, rfl⟩ := List.mem_map.1 hm
    have hvalue := Json.lookup_eq_some_of_mem hnodup hn
    rw [← hkey] at hvalue
    have hsame := (hlookup e he).symm.trans hvalue
    exact ⟨e, he, Prod.ext hkey (Option.some.inj hsame)⟩
  obtain ⟨l, rfl⟩ : ns ∈ Set.range (List.map textMember) := by
    rw [Set.range_list_map]
    exact fun n hn => (horigin n hn).imp fun e he => he.2
  refine ⟨l, rfl, map_fst_textMember l ▸ hnodup, fun e => ?_⟩
  rw [← List.mem_map_of_injective textMember_injective]
  constructor
  · intro he
    obtain ⟨e', he', heq⟩ := horigin _ he
    exact textMember_injective heq ▸ he'
  · intro he
    obtain ⟨l₁, l₂, hl, -⟩ := List.lookup_eq_some_iff.1 (hlookup e he)
    rw [hl]
    exact List.mem_append_right _ List.mem_cons_self

theorem table?_of_gives {t : Table String String} {o : Option Json} (h : Gives (textsToJson t) o) :
    table? o = some t := by
  obtain ⟨w, rfl, hw⟩ | ⟨rfl, hnothing⟩ := h
  · obtain ⟨l, rfl, hnodup, hmem⟩ := exists_texts_of_restates hw
    have hread : (l.map textMember).mapM (fun m => (text? (some m.2)).map (m.1, ·)) = some l := by
      have hpure : l.mapM (m := Option) (fun e => pure (id e)) = some (l.map id) := List.mapM_pure
      rw [List.map_id] at hpure
      rwa [List.mapM_map]
    rw [table?, hread, Option.map_some, Table.ofList_eq hnodup hmem]
  · have hempty : t.entries = [] := by
      cases hentries : t.entries with
      | nil => rfl
      | cons e l =>
        rw [textsToJson, hentries] at hnothing
        cases hnothing
    exact congrArg some (Table.ext_entries hempty.symm)

/-- **A document is read from every value that restates its JSON.** -/
theorem ofJson?_of_restates (d : Document) {w : Json} (h : d.toJson.Restates w) :
    ofJson? w = some d := by
  obtain ⟨os, hfields, hgives⟩ :=
    fields?_of_restates
      ["provider", "includes", "sources", "aliases", "typedefs", "channels", "tasks", "opcodes",
        "events"] h rfl (by decide)
  obtain _ | ⟨hprovider, _ | ⟨hincludes, _ | ⟨hsources, _ | ⟨haliases, hgives⟩⟩⟩⟩ := hgives
  obtain _ | ⟨htypedefs, _ | ⟨hchannels, _ | ⟨htasks, _ | ⟨hopcodes, _ | ⟨hevents, _ | _⟩⟩⟩⟩⟩ :=
    hgives
  have texts : ∀ {l : List String} {o : Option Json}, Gives (ofList .string l) o →
      list? (fun item => text? (some item)) o = some l :=
    fun hl => list?_of_gives (fun s w hw => text?_of_gives (.inl ⟨w, rfl, hw⟩)) hl
  simp only [ofJson?, hfields, Option.bind_eq_bind, Option.bind_some,
    optionalProvider?_of_gives hprovider, texts hincludes, texts hsources, table?_of_gives haliases,
    table?_of_gives htypedefs, list?_of_gives channelOfJson?_of_restates hchannels,
    list?_of_gives taskOfJson?_of_restates htasks, list?_of_gives opcodeOfJson?_of_restates hopcodes,
    list?_of_gives eventOfJson?_of_restates hevents]
  rfl

end Document

/-! ## Values of documents -/

namespace Json

theorem native_ofText? (s : Option String) : (ofText? s).Native := by
  cases s with
  | none => exact .null
  | some s => exact .string s

theorem native_ofValue? (v : Option UInt32) : (ofValue? v).Native := by
  cases v with
  | none => exact .null
  | some v => exact .number v.toNat

theorem native_ofList {α : Type} {item : α → Json} (h : ∀ a, (item a).Native) (l : List α) :
    (ofList item l).Native :=
  .array (List.forall_mem_map.2 fun a _ => h a)

end Json

open Json (native_ofText? native_ofValue? native_ofList)

theorem ProviderEntry.native_toJson (e : ProviderEntry) : e.toJson.Native := by
  refine .object ?_
  simp only [List.forall_mem_cons]
  exact ⟨native_ofText? _, native_ofText? _, native_ofText? _, native_ofText? _, native_ofText? _,
    nofun⟩

theorem ChannelEntry.native_toJson (e : ChannelEntry) : e.toJson.Native := by
  refine .object ?_
  simp only [List.forall_mem_cons]
  exact ⟨.string _, .string _, .string _, native_ofValue? _, nofun⟩

theorem OpcodeEntry.native_toJson (e : OpcodeEntry) : e.toJson.Native := by
  refine .object ?_
  simp only [List.forall_mem_cons]
  exact ⟨.string _, native_ofValue? _, nofun⟩

theorem TaskEntry.native_toJson (e : TaskEntry) : e.toJson.Native := by
  refine .object ?_
  simp only [List.forall_mem_cons]
  exact ⟨.string _, native_ofValue? _, native_ofList OpcodeEntry.native_toJson _, nofun⟩

theorem EventDecl.native_toJson (e : EventDecl) : e.toJson.Native := by
  have hparam : ∀ p : String × String,
      (Json.object [("type", .string p.1), ("name", .string p.2)]).Native := by
    intro p
    refine .object ?_
    simp only [List.forall_mem_cons]
    exact ⟨.string _, .string _, nofun⟩
  refine .object ?_
  simp only [List.forall_mem_cons]
  exact ⟨.string _, .string _, .string _, .string _, .string _, .string _, native_ofValue? _,
    native_ofList hparam _, nofun⟩

namespace Document

theorem native_textsToJson (t : Table String String) : (textsToJson t).Native :=
  .object (List.forall_mem_map.2 fun _ _ => .string _)

theorem native_toJson (d : Document) : d.toJson.Native := by
  have hprovider : ((d.provider.map ProviderEntry.toJson).getD .null).Native := by
    cases d.provider with
    | none => exact .null
    | some e => exact e.native_toJson
  refine .object ?_
  simp only [List.forall_mem_cons]
  exact ⟨hprovider, native_ofList .string _, native_ofList .string _, native_textsToJson _,
    native_textsToJson _, native_ofList ChannelEntry.native_toJson _,
    native_ofList TaskEntry.native_toJson _, native_ofList OpcodeEntry.native_toJson _,
    native_ofList EventDecl.native_toJson _, nofun⟩

/-! ## Texts -/

theorem isBlank_of_json {c : Char} (h : Json.isBlank c = true) : Text.isBlank c = true := by
  simp only [Json.isBlank, Bool.or_eq_true, beq_iff_eq] at h
  rcases h with ((rfl | rfl) | rfl) | rfl
  all_goals rfl

/-- A text that shows an opening brace first starts with it, but for blanks. -/
theorem exists_dropWhile_of_shows {ks : List Json.Token} {t : List Char}
    (h : Json.Shows (.openBrace :: ks) t) :
    ∃ u, t.dropWhile Text.isBlank = '\x7b' :: u ∧ Json.Shows (.openBrace :: ks) ('\x7b' :: u) := by
  generalize hls : Json.Token.openBrace :: ks = ls at h
  induction h with
  | nil => cases hls
  | blank blank _ ih =>
    rw [List.dropWhile_cons_of_pos (isBlank_of_json blank)]
    exact ih hls
  | token written ends rest _ =>
    cases hls
    exact ⟨_, rfl, .token written ends rest⟩

/-- **A document is read from every JSON text of it.** -/
theorem parse_of_shows (d : Document) (path : String) {w : Json} (h : d.toJson.Restates w)
    {text : String} (hshows : Json.Shows w.tokens text.toList) : parse path text = .ok [d] := by
  have hread := ofJson?_of_restates d h
  have hnative := d.native_toJson.of_restates h
  obtain ⟨ns, rfl⟩ : ∃ ns, w = .object ns := by
    cases h with
    | refl => exact ⟨_, rfl⟩
    | object => exact ⟨_, rfl⟩
  rw [Json.tokens, List.cons_append] at hshows
  obtain ⟨u, hdrop, hshown⟩ := exists_dropWhile_of_shows hshows
  have hjson : isJson text = true := by
    rw [isJson, hdrop]
    rfl
  have hvalue : Json.parse? (Text.trimStart text) = some (.object ns) := by
    refine Json.parse?_of_shows hnative ?_
    rwa [Text.trimStart, String.toList_ofList, hdrop, Json.tokens, List.cons_append]
  rw [parse, if_pos hjson, listOfJson?, hvalue]
  simp only [Option.bind_eq_bind, Option.bind_some, hread]
  rfl

end Document

end EventSchema
