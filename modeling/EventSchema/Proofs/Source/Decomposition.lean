import EventSchema.Error
import EventSchema.Proofs.Source.ClauseEnd
import EventSchema.Proofs.Source.Lexeme

/-!
# The clauses of a source text

The grammar that a scan follows, without the scan: from left to right a text is made of contexts, of
markers with their clauses and of other bytes, where a context comes before a marker and a marker
before a byte (`Decomposes`). For a marker that is not empty there is one decomposition
(`decomposes_unique`), and a scan yields its clauses and, where it breaks off, one error
(`scan_decomposes`).
-/

namespace EventSchema.Source

open Text.Utf8

/-- What a source text is made of. -/
inductive Part
  | context (kind : Context) (text : Bytes)
  /-- A marker and its clause, of which this is the text. -/
  | clause (text : Bytes)
  | byte (b : UInt8)
  deriving DecidableEq, Repr

/-- How a decomposition ends. -/
inductive Ending
  /-- With the text. -/
  | whole
  /-- At a marker without a clause. -/
  | broken
  deriving DecidableEq, Repr

/-- The texts of the clauses among some parts. -/
def clauseTexts : List Part → List Bytes
  | [] => []
  | .clause text :: parts => text :: clauseTexts parts
  | _ :: parts => clauseTexts parts

/-- **The grammar of source texts.** -/
inductive Decomposes (marker : Bytes) : Bytes → List Part → Ending → Prop
  | done : Decomposes marker [] [] .whole
  | context {c : Context} {text rest t : Bytes} {parts : List Part} {ending : Ending}
      (h : ContextAt c text rest) (ht : text ++ rest = t)
      (later : Decomposes marker rest parts ending) :
      Decomposes marker t (.context c text :: parts) ending
  | clause {text body rest t : Bytes} {parts : List Part} {ending : Ending} (h : ¬ Opens t)
      (ht : marker ++ body = t) (hclause : ClauseAt body text rest)
      (later : Decomposes marker rest parts ending) :
      Decomposes marker t (.clause text :: parts) ending
  | broken {body t : Bytes} (h : ¬ Opens t) (ht : marker ++ body = t) (hnone : NoClause body) :
      Decomposes marker t [] .broken
  | byte {b : UInt8} {rest : Bytes} {parts : List Part} {ending : Ending}
      (h : ¬ Opens (b :: rest)) (hmarker : ¬ marker <+: b :: rest)
      (later : Decomposes marker rest parts ending) :
      Decomposes marker (b :: rest) (.byte b :: parts) ending

variable {marker t : Bytes} {parts parts' : List Part} {ending ending' : Ending}

/-! ## One decomposition -/

theorem not_opens_nil : ¬ Opens [] := skip?_eq_none_iff.1 rfl

/-- **A text has one decomposition at most.** -/
theorem decomposes_unique (hmarker : marker ≠ []) (h : Decomposes marker t parts ending)
    (h' : Decomposes marker t parts' ending') : parts = parts' ∧ ending = ending' := by
  induction h generalizing parts' ending' with
  | done =>
    cases h' with
    | done => exact ⟨rfl, rfl⟩
    | context hc ht => exact absurd (ht ▸ opens_of_contextAt hc) not_opens_nil
    | clause _ ht | broken _ ht => exact absurd (List.append_eq_nil_iff.1 ht).1 hmarker
  | context hc ht _ ih =>
    have hopens := ht ▸ opens_of_contextAt hc
    cases h' with
    | done => exact absurd hopens not_opens_nil
    | context hc' ht' later' =>
      obtain ⟨rfl, rfl, rfl⟩ := contextAt_unique hc hc' (ht.trans ht'.symm)
      obtain ⟨rfl, rfl⟩ := ih later'
      exact ⟨rfl, rfl⟩
    | clause hnone | broken hnone | byte hnone => exact absurd hopens hnone
  | clause hnone ht hclause _ ih =>
    cases h' with
    | done => exact absurd (List.append_eq_nil_iff.1 ht).1 hmarker
    | context hc ht' => exact absurd (ht' ▸ opens_of_contextAt hc) hnone
    | clause _ ht' hclause' later' =>
      obtain rfl := List.append_cancel_left (ht.trans ht'.symm)
      obtain ⟨rfl, rfl⟩ := clauseAt_unique hclause hclause'
      obtain ⟨rfl, rfl⟩ := ih later'
      exact ⟨rfl, rfl⟩
    | broken _ ht' hfault =>
      obtain rfl := List.append_cancel_left (ht.trans ht'.symm)
      exact absurd hfault (not_noClause_of_clauseAt hclause)
    | byte _ hother => exact absurd ⟨_, ht⟩ hother
  | broken hnone ht hfault =>
    cases h' with
    | done => exact absurd (List.append_eq_nil_iff.1 ht).1 hmarker
    | context hc ht' => exact absurd (ht' ▸ opens_of_contextAt hc) hnone
    | clause _ ht' hclause =>
      obtain rfl := List.append_cancel_left (ht.trans ht'.symm)
      exact absurd hfault (not_noClause_of_clauseAt hclause)
    | broken => exact ⟨rfl, rfl⟩
    | byte _ hother => exact absurd ⟨_, ht⟩ hother
  | byte hnone hother _ ih =>
    cases h' with
    | context hc ht' => exact absurd (ht' ▸ opens_of_contextAt hc) hnone
    | clause _ ht' | broken _ ht' => exact absurd ⟨_, ht'⟩ hother
    | byte _ _ later' =>
      obtain ⟨rfl, rfl⟩ := ih later'
      exact ⟨rfl, rfl⟩

/-! ## The scan -/

theorem not_prefix_of_afterMarker? (hmarker : marker ≠ []) (h : afterMarker? marker t = none) :
    ¬ marker <+: t := by
  intro hprefix
  rw [afterMarker?, if_pos ⟨hmarker, hprefix⟩] at h
  cases h

/-- **A scan follows the grammar**: what it yields are the clauses of a decomposition, and it fails
where the decomposition breaks off. -/
theorem exists_decomposes (hmarker : marker ≠ []) (line : Nat) (t : Bytes) :
    ∃ parts ending, Decomposes marker t parts ending ∧
      clauseTexts parts = (clausesFrom marker line t).1 ∧
      ((clausesFrom marker line t).2.isSome ↔ ending = .broken) := by
  fun_induction clausesFrom marker line t with
  | case1 line t s hs ih =>
    obtain ⟨parts, ending, hparts, htexts, hend⟩ := ih
    exact ⟨_, _, .context (contextAt_of_skip hs) (skip?_append hs) hparts, htexts, hend⟩
  | case2 line t hs body hbody start fault hfault =>
    have hnone : ¬ Opens t := skip?_eq_none_iff.1 hs
    refine ⟨_, _, .broken hnone (afterMarker?_eq_some hbody).2 (noClause_of_closeGroup hfault),
      rfl, ?_⟩
    simp
  | case3 line t hs body hbody start clause rest hclose more =>
    rename_i ih
    obtain ⟨parts, ending, hparts, htexts, hend⟩ := ih
    have hnone : ¬ Opens t := skip?_eq_none_iff.1 hs
    refine ⟨_, _, .clause hnone (afterMarker?_eq_some hbody).2 (clauseAt_of_closeGroup hclose)
      hparts, ?_, hend⟩
    rw [clauseTexts, htexts]
  | case4 => exact ⟨_, _, .done, rfl, by simp⟩
  | case5 line b rest hs hother ih =>
    obtain ⟨parts, ending, hparts, htexts, hend⟩ := ih
    have hnone : ¬ Opens (b :: rest) := skip?_eq_none_iff.1 hs
    exact ⟨_, _, .byte hnone (not_prefix_of_afterMarker? hmarker hother) hparts, htexts, hend⟩

theorem clausesFrom_empty (line : Nat) (t : Bytes) : clausesFrom [] line t = ([], none) := by
  fun_induction clausesFrom [] line t with
  | case1 line t s hs ih => exact ih
  | case2 line t hs body hbody => exact absurd rfl (afterMarker?_eq_some hbody).1
  | case3 line t hs body hbody => exact absurd rfl (afterMarker?_eq_some hbody).1
  | case4 => rfl
  | case5 line b rest hs hother ih => exact ih

/-- The clauses of a scan are whole characters, so no byte of them is lost. -/
theorem encode_scan (marker text : String) :
    (scan marker text).1.map encode = (clausesFrom (encode marker) 1 (encode text)).1 := by
  rw [scan, List.map_map]
  refine (List.map_congr_left fun t ht => ?_).trans (List.map_id _)
  exact encode_decodeLossy (closes_of_mem_clausesFrom (a := []) (wellFormed_encode marker)
    (wellFormed_encode text) ht).2

theorem encode_ne_nil {s : String} (h : s ≠ "") : encode s ≠ [] := by
  intro hnil
  have hempty : encode "" = [] := by decide
  exact h (encode_injective (hnil.trans hempty.symm))

/-- **A scan finds exactly the clauses of the grammar.** For a marker that is not empty there is one
decomposition of the text. The scan yields the texts of its clauses in their order, and then an
error of invalid content if and only if the decomposition breaks off at a marker without a clause. For the
empty marker there is nothing. -/
theorem scan_decomposes (marker text : String) :
    (marker ≠ "" →
      ∃ parts ending, Decomposes (encode marker) (encode text) parts ending ∧
        (∀ parts' ending', Decomposes (encode marker) (encode text) parts' ending' →
          parts' = parts ∧ ending' = ending) ∧
        (scan marker text).1.map encode = clauseTexts parts ∧
        ((scan marker text).2.isSome ↔ ending = .broken) ∧
        ∀ fault, (scan marker text).2 = some fault → (Error.scan fault).kind = .invalidContent) ∧
      (marker = "" → scan marker text = ([], none)) := by
  constructor
  · intro hmarker
    have hne : encode marker ≠ [] := encode_ne_nil hmarker
    obtain ⟨parts, ending, hparts, htexts, hend⟩ := exists_decomposes hne 1 (encode text)
    refine ⟨parts, ending, hparts, fun parts' ending' h' => ?_, ?_, hend, fun _ _ => rfl⟩
    · exact decomposes_unique hne h' hparts
    · rw [encode_scan, htexts]
  · rintro rfl
    have hnil : encode "" = [] := by decide
    rw [scan, hnil, clausesFrom_empty]
    rfl

/-- A marker in a comment, a clause with a parenthesis in a literal and a comment in a directive, and
a marker that is closed before it is opened. -/
def brokenText : String := "/*/ M_A() */ M_B(\"\\\")\", (x))\n#if /* M_C(\n*/ M_D)("

theorem scan_decomposes_broken :
    ∃ parts, Decomposes (encode "M_") (encode brokenText) parts .broken ∧
      (∀ parts' ending', Decomposes (encode "M_") (encode brokenText) parts' ending' →
        parts' = parts ∧ ending' = .broken) ∧
      clauseTexts parts = [encode "B(\"\\\")\", (x))"] ∧
      scan "M_" brokenText = (["B(\"\\\")\", (x))"], some (.closeBeforeOpen 3)) ∧
      scan "" brokenText = ([], none) := by
  obtain ⟨hfound, hempty⟩ := scan_decomposes "M_" brokenText
  obtain ⟨parts, ending, hparts, hunique, htexts, hend, -⟩ := hfound (by decide)
  have hscan : scan "M_" brokenText =
      (["B(\"\\\")\", (x))"], some (.closeBeforeOpen 3)) := by decide +kernel
  rw [hscan] at htexts hend
  obtain rfl : ending = .broken := hend.1 rfl
  exact ⟨parts, hparts, hunique, htexts.symm, hscan, (scan_decomposes "" brokenText).2 rfl⟩

end EventSchema.Source
