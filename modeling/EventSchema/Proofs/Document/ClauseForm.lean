import EventSchema.Proofs.Document.ClauseStyle
import EventSchema.Proofs.Draft.AliasFree

/-!
# Documents as clauses

A document and the clauses that say the same are two ways to the same draft: merging the document
and carrying out its source text give the same result and leave the same provider and the same queue
behind, also where a declaration is refused (`applySource_toSource`). Both do what the document
declares, one declaration after the other (`merge_agrees`, `applyClauses_agree`).
-/

namespace EventSchema

open Source (Clause IsWord)
open Text.Utf8 (encode)

/-! ## What a document says -/

/-- Defines a channel as a document declares it, where there are no aliases. -/
def declareChannel (e : ChannelEntry) : Build Unit := do
  Build.defineChannel e.id e.name (← Build.word ChannelType e.type)

theorem declareChannel_keeps (e : ChannelEntry) :
    Leads (Keeping Draft.AliasFree) (declareChannel e) :=
  (MadeOf.bind (.word _ _) fun type => .update (.channel e.id e.name type) nofun).keeps_aliasFree

theorem declareTask_keeps (t : TaskEntry) :
    Leads (Keeping Draft.AliasFree) (Build.defineTask t.name) :=
  (MadeOf.update (.task t.name) nofun).keeps_aliasFree

theorem declareOpcode_keeps (o : OpcodeEntry) :
    Leads (Keeping Draft.AliasFree) (Build.defineOpcode o.name) :=
  (MadeOf.update (.opcode o.name) nofun).keeps_aliasFree

theorem declareEvent_keeps (e : EventDecl) :
    Leads (Keeping Draft.AliasFree) (Build.defineEvent e) :=
  (madeOf_defineEvent nofun e).keeps_aliasFree

/-- What a document says where there are no aliases. -/
def Document.declarations (d : Document) : Build Unit := do
  d.channels.forM declareChannel
  d.tasks.forM fun t => Build.defineTask t.name
  d.opcodes.forM fun o => Build.defineOpcode o.name
  d.events.forM Build.defineEvent
  Build.updateQueue fun q => d.sources.foldl WorkQueue.pushBack (q.pushFrontAll d.includes)

/-- Documents that have no more than clauses can say one by one. -/
structure Document.Plain (d : Document) : Prop where
  provider : d.provider = none
  aliases : d.aliases = ∅
  typedefs : d.typedefs = ∅
  channels : ∀ c ∈ d.channels, c.value = none
  tasks : ∀ t ∈ d.tasks, t.value = none ∧ t.opcodes = []
  opcodes : ∀ o ∈ d.opcodes, o.value = none
  events : ∀ e ∈ d.events, e.value = none

/-! ### Merged -/

theorem mergeChannel_agrees {e : ChannelEntry} (h : e.value = none) :
    AgreeOn Draft.AliasFree (Document.mergeChannel e) (declareChannel e) := by
  refine agreeOn_aliased_bind (agreeOn_aliased_bind ?_)
  refine agreeOn_bind (fun _ _ => rfl) (MadeOf.word _ _).keeps_aliasFree fun type => agreeOn_aliased_bind ?_
  rw [h]
  exact fun d _ => congrFun bind_pure_unit d

theorem mergeTask_agrees {e : TaskEntry} (h : e.value = none ∧ e.opcodes = []) :
    AgreeOn Draft.AliasFree (Document.mergeTask e) (Build.defineTask e.name) := by
  refine agreeOn_aliased_bind ?_
  rw [h.1, h.2]
  exact fun d _ => congrFun bind_pure_unit d

theorem mergeOpcode_agrees {e : OpcodeEntry} (h : e.value = none) :
    AgreeOn Draft.AliasFree (Document.mergeOpcode e) (Build.defineOpcode e.name) := by
  refine agreeOn_aliased_bind ?_
  rw [h]
  exact fun d _ => congrFun bind_pure_unit d

theorem mergeEvent_agrees (e : EventDecl) :
    AgreeOn Draft.AliasFree (Document.mergeEvent e) (Build.defineEvent e) := by
  intro d hd
  have hparams : e.params.map (fun param => (id param.1, id param.2)) = e.params := List.map_id _
  rw [Document.mergeEvent, get_bind_eq, aliased_eq_id hd, hparams]
  rfl

theorem mergeFiles_agrees (doc : Document) :
    AgreeOn Draft.AliasFree doc.mergeFiles
      (Build.updateQueue fun q =>
        doc.sources.foldl WorkQueue.pushBack (q.pushFrontAll doc.includes)) := by
  intro d hd
  rw [Document.mergeFiles, get_bind_eq, aliased_eq_id hd, List.map_id, List.map_id]

theorem merge_agrees {doc : Document} (plain : doc.Plain) :
    AgreeOn Draft.AliasFree doc.merge doc.declarations := by
  have hmerge : doc.merge = (do
      doc.channels.forM Document.mergeChannel
      doc.tasks.forM Document.mergeTask
      doc.opcodes.forM Document.mergeOpcode
      doc.events.forM Document.mergeEvent
      doc.mergeFiles) := by
    rw [Document.merge, plain.provider, plain.aliases, plain.typedefs]
    rfl
  rw [hmerge, Document.declarations]
  refine agreeOn_forM_bind (List.forall₂_same.2 fun c hc => ?_) declareChannel_keeps ?_
  · exact mergeChannel_agrees (plain.channels c hc)
  refine agreeOn_forM_bind (List.forall₂_same.2 fun t ht => ?_) declareTask_keeps ?_
  · exact mergeTask_agrees (plain.tasks t ht)
  refine agreeOn_forM_bind (List.forall₂_same.2 fun o ho => ?_) declareOpcode_keeps ?_
  · exact mergeOpcode_agrees (plain.opcodes o ho)
  exact agreeOn_forM_bind (List.forall₂_same.2 fun e _ => mergeEvent_agrees e) declareEvent_keeps
    (mergeFiles_agrees doc)

/-! ### Written as clauses -/

theorem applyClause_agrees (c : Clause) :
    AgreeOn Draft.AliasFree (Build.applyClause c)
      (Build.ofExcept (Statement.ofArguments c.method c.args) >>= Statement.apply) := by
  intro d hd
  rw [Build.applyClause, get_bind_eq, aliased_eq_id hd, List.map_id]

theorem applyClause_agrees_of_ok {c : Clause} {s : Statement}
    (h : Statement.ofArguments c.method c.args = .ok s) :
    AgreeOn Draft.AliasFree (Build.applyClause c) s.apply := by
  have hagrees := applyClause_agrees c
  rw [h] at hagrees
  exact hagrees

/-- Changes of the queue one after the other are one change. -/
theorem forM_updateQueue {α : Type} (change : WorkQueue → α → WorkQueue) (as : List α) :
    (as.forM fun a => Build.updateQueue fun q => change q a) =
      Build.updateQueue fun q => as.foldl change q := by
  induction as with
  | nil => rfl
  | cons a as ih =>
    change (Build.updateQueue (fun q => change q a) >>= fun _ =>
      as.forM fun a => Build.updateQueue fun q => change q a) = _
    rw [ih]
    rfl

section

variable {style : ClauseStyle} (lawful : style.Lawful)
include lawful

theorem applyClause_channel_agrees (e : ChannelEntry) :
    AgreeOn Draft.AliasFree (Build.applyClause (e.toClause style)) (declareChannel e) := by
  have hagrees := applyClause_agrees (e.toClause style)
  rw [ofArguments_channel lawful] at hagrees
  rw [declareChannel, Build.word]
  cases hparse : Vocabulary.parse ChannelType e.type with
  | ok type =>
    rw [hparse] at hagrees
    exact hagrees
  | error fault =>
    rw [hparse] at hagrees
    exact hagrees

theorem applyClause_text_agrees {method : String} {meaning : String → Statement}
    (h : SaysOfText method meaning) (text : String) :
    AgreeOn Draft.AliasFree (Build.applyClause ⟨method, [style.literal text]⟩)
      (meaning text).apply :=
  applyClause_agrees_of_ok (c := ⟨_, _⟩) (ofArguments_of_saysOfText lawful h text)

theorem applyClause_event_agrees (place : Nat) {e : EventDecl} (hvalue : e.value = none)
    (fits : 3 * e.params.length + 6 < UInt64.size) :
    AgreeOn Draft.AliasFree (Build.applyClause (e.toClause style place)) (Build.defineEvent e) := by
  have hagrees := applyClause_agrees_of_ok (ofArguments_event lawful place e fits)
  rw [← hvalue] at hagrees
  exact hagrees

theorem applyClauses_includes_agree (paths : List String) :
    AgreeOn Draft.AliasFree
      ((paths.reverse.map fun path => ⟨"INCLUDE", [style.literal path]⟩).forM Build.applyClause)
      (Build.updateQueue (·.pushFrontAll paths)) := by
  have hchange : Build.updateQueue (·.pushFrontAll paths) =
      paths.reverse.forM fun path => Build.updateQueue (·.pushFront path) := by
    rw [forM_updateQueue WorkQueue.pushFront]
    simp only [WorkQueue.foldl_pushFront_reverse]
  rw [hchange]
  refine agreeOn_forM (forall₂_map_agreeOn _ fun path _ => ?_) fun _ _ => id
  exact applyClause_text_agrees lawful .includedFile path

theorem applyClauses_sources_agree (paths : List String) :
    AgreeOn Draft.AliasFree
      ((paths.map fun path => ⟨"SOURCE", [style.literal path]⟩).forM Build.applyClause)
      (Build.updateQueue fun q => paths.foldl WorkQueue.pushBack q) := by
  rw [← forM_updateQueue WorkQueue.pushBack]
  refine agreeOn_forM (forall₂_map_agreeOn _ fun path _ => ?_) fun _ _ => id
  exact applyClause_text_agrees lawful .sourceFile path

theorem applyClauses_agree {doc : Document} (plain : doc.Plain)
    (fits : ∀ e ∈ doc.events, 3 * e.params.length + 6 < UInt64.size) :
    AgreeOn Draft.AliasFree ((doc.toClauses style).forM Build.applyClause) doc.declarations := by
  have hparts : (doc.toClauses style).forM Build.applyClause = (do
      (doc.channels.map (ChannelEntry.toClause style)).forM Build.applyClause
      (doc.tasks.map fun t => ⟨"TASK", [style.literal t.name]⟩).forM Build.applyClause
      (doc.opcodes.map fun o => ⟨"OPCODE", [style.literal o.name]⟩).forM Build.applyClause
      (doc.events.mapIdx (EventDecl.toClause style)).forM Build.applyClause
      (doc.includes.reverse.map fun path => ⟨"INCLUDE", [style.literal path]⟩).forM
        Build.applyClause
      (doc.sources.map fun path => ⟨"SOURCE", [style.literal path]⟩).forM Build.applyClause) := by
    rw [Document.toClauses]
    simp only [List.forM_eq_forM, List.forM_append, bind_assoc]
  have hfiles : (Build.updateQueue fun q =>
      doc.sources.foldl WorkQueue.pushBack (q.pushFrontAll doc.includes)) = (do
        Build.updateQueue (·.pushFrontAll doc.includes)
        Build.updateQueue fun q => doc.sources.foldl WorkQueue.pushBack q) := rfl
  have hevents : List.Forall₂ (fun c e => AgreeOn Draft.AliasFree (Build.applyClause c)
      (Build.defineEvent e)) (doc.events.mapIdx (EventDecl.toClause style)) doc.events := by
    refine List.forall₂_iff_get.2 ⟨List.length_mapIdx, fun i _ hi => ?_⟩
    have hmem : doc.events[i] ∈ doc.events := List.getElem_mem hi
    rw [List.get_eq_getElem, List.getElem_mapIdx]
    exact applyClause_event_agrees lawful i (plain.events _ hmem) (fits _ hmem)
  rw [hparts, Document.declarations, hfiles]
  refine agreeOn_forM_bind (forall₂_map_agreeOn _ fun e _ => applyClause_channel_agrees lawful e)
    declareChannel_keeps ?_
  refine agreeOn_forM_bind (forall₂_map_agreeOn _ fun t _ => ?_) declareTask_keeps ?_
  · exact applyClause_text_agrees lawful .task t.name
  refine agreeOn_forM_bind (forall₂_map_agreeOn _ fun o _ => ?_) declareOpcode_keeps ?_
  · exact applyClause_text_agrees lawful .opcode o.name
  refine agreeOn_forM_bind hevents declareEvent_keeps ?_
  exact agreeOn_bind (applyClauses_includes_agree lawful doc.includes) (fun _ => id)
    fun _ => applyClauses_sources_agree lawful doc.sources

end

/-! ## The whole text -/

theorem forM_applyText {cs : List Clause} (h : ∀ c ∈ cs, c.Readable) :
    (cs.map Clause.text).forM Build.applyText = cs.forM Build.applyClause := by
  have htext : ∀ c ∈ cs, Build.applyText c.text = Build.applyClause c := fun c hc => by
    rw [Build.applyText, Source.parse_text_of_readable (h c hc)]
    rfl
  rw [List.forM_eq_forM, List.forM_eq_forM, List.forM_map]
  clear h
  induction cs with
  | nil => rfl
  | cons c cs ih =>
    obtain ⟨hc, hcs⟩ := List.forall_mem_cons.1 htext
    rw [List.forM_cons, List.forM_cons, hc, ih hcs]

/-- A text does what the clauses do that are found in it. -/
theorem discard_applySource {marker text : String} {cs : List Clause}
    (hscan : Source.scan marker text = (cs.map Clause.text, none)) (h : ∀ c ∈ cs, c.Readable) :
    discard (Build.applySource marker text) = cs.forM Build.applyClause := by
  funext d
  rw [Build.applySource, hscan]
  dsimp only
  rw [forM_applyText h]
  change EStateM.map (fun _ => ()) (EStateM.bind (cs.forM Build.applyClause) _) d = _
  unfold EStateM.map EStateM.bind
  cases cs.forM Build.applyClause d <;> rfl

/-- **A document does the same as its clauses.** Carrying out the source text of a document, in any
style, is merging the document: the two succeed or fail with the same error, and in either case they
leave the same provider and the same queue. The number of the arguments of an event has to fit into
64 bits, as it does for all lists that fit into a memory. -/
theorem applySource_toSource {style : ClauseStyle} (lawful : style.Lawful) {doc : Document}
    (plain : doc.Plain) (fits : ∀ e ∈ doc.events, 3 * e.params.length + 6 < UInt64.size)
    {d : Draft} (hd : d.AliasFree) :
    discard (Build.applySource Source.defaultMarker (doc.toSource style)) d = doc.merge d := by
  have hmarker : Source.StartsClause (encode Source.defaultMarker) :=
    ⟨0x45, _, rfl, by decide, by decide, by decide, by decide⟩
  have hreadable := Document.readable_toClauses lawful doc
  rw [Document.toSource, discard_applySource (Source.scan_lines hmarker hreadable) hreadable,
    applyClauses_agree lawful plain fits d hd, merge_agrees plain d hd]

/-- A style whose literals hold no newline. -/
def oneLine : ClauseStyle where
  literal s := Source.Literal.quote (String.ofList (s.toList.flatMap fun c =>
    if c = '\n' then ['\\', 'n'] else if c = '\\' ∨ c = '"' then ['\\', c] else [c]))
  expression _ _ := "value_1"

theorem lawful_oneLine : oneLine.Lawful where
  expression _ _ := show IsWord "value_1" from ⟨by decide, by decide⟩
  literal s := by
    refine ⟨_, ?_, rfl⟩
    induction s.toList with
    | nil => exact .nil
    | cons c cs ih =>
      rw [List.flatMap_cons]
      refine .cons ?_ ih
      split
      · next h =>
        subst h
        exact .simple (by decide)
      · split
        · next h =>
          rcases h with rfl | rfl
          · exact .simple (by decide)
          · exact .simple (by decide)
        · next h => exact .plain (not_or.1 h).1 (not_or.1 h).2

/-- A document whose second event is refused, with texts that are hard to write. -/
def refusedDocument : Document where
  includes := ["a\nb.h", "c.h"]
  sources := ["d\"e.c"]
  channels := [{ id := "Admin", name := "A, (b", type := "admin" }]
  tasks := [{ name := "Disk" }]
  opcodes := [{ name := "/* Read" }]
  events := [
    { subsystem := "srv", severity := "Info", level := "Info", channel := "Admin", task := "Disk",
      opcode := "/* Read", params := [("UInt32", "size"), ("string", "path\\")] },
    { subsystem := "srv", severity := "Info", level := "Info", channel := "Admin", task := "Net",
      opcode := "Start" }]

/-- A draft that has a provider and a file to read. -/
def begunDraft : Draft where
  provider := some { name := some "Storage" }
  queue := ⟨["first.c"]⟩

theorem applySource_toSource_refused :
    oneLine.Lawful ∧ refusedDocument.Plain ∧
      (∀ e ∈ refusedDocument.events, 3 * e.params.length + 6 < UInt64.size) ∧
      begunDraft.AliasFree ∧
      discard (Build.applySource Source.defaultMarker (refusedDocument.toSource oneLine))
        begunDraft = refusedDocument.merge begunDraft := by
  have plain : refusedDocument.Plain :=
    ⟨rfl, rfl, rfl, by decide, by decide, by decide, by decide⟩
  have fits : ∀ e ∈ refusedDocument.events, 3 * e.params.length + 6 < UInt64.size := by decide
  exact ⟨lawful_oneLine, plain, fits, rfl, applySource_toSource lawful_oneLine plain fits rfl⟩

end EventSchema
