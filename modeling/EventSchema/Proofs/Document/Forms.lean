import EventSchema.Proofs.Document.JsonForm
import EventSchema.Proofs.Document.MarkupForm

/-!
# The two forms of a document

A document says the same in JSON and in markup: it is read from every text of either form
(`parse_forms`), and so from those that are written for it.
-/

namespace EventSchema.Document

/-- **A document is read from each of its texts.** It has a text in JSON for each value that
restates its members and each layout of that value, and a text in markup for each way to write its
elements and each layout of their tags; among them are the texts that are written for it. -/
theorem parse_forms (d : Document) (path : String) :
    (∀ v text, d.toJson.Restates v → Json.Shows v.tokens text.toList →
      parse path text = .ok [d]) ∧
    (∀ parts text, IsDocument d parts → Markup.Laid parts text.toList →
      parse path text = .ok [d]) ∧
    parse path d.toJson.compact = .ok [d] ∧
    parse path d.toJson.pretty = .ok [d] ∧
    parse path d.toMarkup = .ok [d] := by
  have hwritten : Markup.Laid d.toParts d.toMarkup.toList := by
    rw [toMarkup, Markup.write, String.toList_ofList]
    exact Markup.laid_flatMap d.toParts
  refine ⟨fun v text h hshows => parse_of_shows d path h hshows,
    fun parts text h laid => parse_of_laid d path h laid, ?_, ?_, ?_⟩
  · exact parse_of_shows d path (.refl _) d.native_toJson.shows_compact
  · exact parse_of_shows d path (.refl _) d.native_toJson.shows_pretty
  · exact parse_of_laid d path d.isDocument_toParts hwritten

/-- A document with a task in each form, read from a JSON text that leaves out what there is none of
and from a markup text. -/
theorem parse_forms_tasks :
    parse "root.json"
        (Json.compact (.object [
          ("opcodes", .array [.object [("name", .string "G"), ("value", .null)]]),
          ("tasks", .array [
            .object [("name", .string "T"), ("value", .number 3),
              ("opcodes", .array [.object [("name", .string "L"), ("value", .null)]])],
            .object [("name", .string "U"), ("value", .null), ("opcodes", .array [])]])])) =
      .ok [{
        tasks := [{ name := "T", value := some 3, opcodes := [{ name := "L" }] }, { name := "U" }]
        opcodes := [{ name := "G" }] }] ∧
    parse "root.xml"
        ("<schema><tasks><task name=\"T\" value=\"3\"><opcode name=\"L\"/></task>" ++
          "<task name=\"U\"/></tasks><opcodes><opcode name=\"G\"></opcode></opcodes></schema>") =
      .ok [{
        tasks := [{ name := "T", value := some 3, opcodes := [{ name := "L" }] }, { name := "U" }]
        opcodes := [{ name := "G" }] }] := by
  let d : Document := {
    tasks := [{ name := "T", value := some 3, opcodes := [{ name := "L" }] }, { name := "U" }]
    opcodes := [{ name := "G" }] }
  have hrestates : d.toJson.Restates (.object [
      ("opcodes", Json.ofList OpcodeEntry.toJson d.opcodes),
      ("tasks", Json.ofList TaskEntry.toJson d.tasks)]) :=
    Json.restates_of_subset (by decide) (by decide) (by simp [d]) (by decide)
  have htask : IsTask { name := "T", value := some 3, opcodes := [{ name := "L" }] }
      (element (taskTag { name := "T", value := some 3 })
        ([.empty (OpcodeEntry.toTag { name := "L" })] ++ [])) :=
    .pair (.cons .empty .nil)
  have htasks : Container "tasks" IsTask d.tasks _ :=
    .around (.cons htask (.cons (.empty rfl) .nil)) (.pair _)
  have hopcodes : Container "opcodes" (IsLeaf OpcodeEntry.toTag) d.opcodes _ :=
    .around (.cons (.pair []) .nil) (.pair _)
  have hbody := IsBody.mk (d := d) .omitted .omitted (.refl _) .omitted (.refl _) .omitted .omitted
    htasks hopcodes .omitted
  have hholder : IsHolder d { name := "schema" } := ⟨⟨by decide, nofun, .nil⟩, by decide⟩
  have hdocument : IsDocument d _ := .holder hholder hbody (.pair _)
  constructor
  · exact (parse_forms d "root.json").1 _ _ hrestates
      (d.native_toJson.of_restates hrestates).shows_compact
  · refine (parse_forms d "root.xml").2.1 _ _ hdocument ?_
    convert Markup.laid_flatMap _ using 1
    decide +kernel

end EventSchema.Document
