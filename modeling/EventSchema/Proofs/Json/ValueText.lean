import EventSchema.Proofs.Json.TokenText

/-!
# JSON values and their texts

A value without foreign parts (`Native`) is read from its tokens, whatever is still open around them
(`assemble_tokens`), so it is read from each text that shows them (`parse?_of_shows`): the shortest
text, the indented one, and any other layout.
-/

namespace EventSchema.Json

/-- Values of which no part is foreign. -/
inductive Native : Json → Prop
  | null : Native .null
  | bool (b : Bool) : Native (.bool b)
  | number (n : Nat) : Native (.number n)
  | string (s : String) : Native (.string s)
  | array {items : List Json} (items_native : ∀ v ∈ items, Native v) : Native (.array items)
  | object {members : List (String × Json)} (members_native : ∀ m ∈ members, Native m.2) :
    Native (.object members)

/-! ## Tokens -/

/-- Tokens of values that can be written one right behind the other. -/
theorem adjacent_itemTokens {items : List Json} (h : ∀ v ∈ items, Adjacent v.tokens) :
    Adjacent (itemTokens items) := by
  induction items with
  | nil => exact .nil
  | cons v items ih =>
    obtain ⟨hv, hitems⟩ := List.forall_mem_cons.1 h
    cases items with
    | nil => exact hv
    | cons w items =>
      rw [itemTokens]
      exact hv.append ((ih hitems).cons trivial nofun) (.inl rfl)

theorem adjacent_memberToken (m : String × Json) (h : Adjacent m.2.tokens) :
    Adjacent (memberToken m) := by
  have hcolon : Adjacent (.colon :: m.2.tokens) := h.cons trivial nofun
  rw [memberToken]
  exact hcolon.cons (k := .string (some m.1)) trivial nofun

theorem adjacent_memberTokens {members : List (String × Json)}
    (h : ∀ m ∈ members, Adjacent m.2.tokens) : Adjacent (memberTokens members) := by
  induction members with
  | nil => exact .nil
  | cons m members ih =>
    obtain ⟨hm, hmembers⟩ := List.forall_mem_cons.1 h
    cases members with
    | nil => exact adjacent_memberToken m hm
    | cons n members =>
      rw [memberTokens]
      exact (adjacent_memberToken m hm).append ((ih hmembers).cons trivial nofun) (.inl rfl)

/-- The tokens of a value need no blanks between them. -/
theorem Native.adjacent {v : Json} (h : v.Native) : Adjacent v.tokens := by
  induction h with
  | null => exact .singleton (k := .null) trivial
  | bool b => exact .singleton (k := .bool b) trivial
  | number n => exact .singleton (k := .number (some n)) trivial
  | string s => exact .singleton (k := .string (some s)) trivial
  | array _ ih =>
    have hclose : Adjacent [.closeBracket] := .singleton trivial
    exact ((adjacent_itemTokens ih).append hclose (.inr (.inl rfl))).cons trivial nofun
  | object _ ih =>
    have hclose : Adjacent [.closeBrace] := .singleton trivial
    exact ((adjacent_memberTokens ih).append hclose (.inr (.inr rfl))).cons trivial nofun

/-! ## Assembly -/

theorem assemble_cons {expected expected' : Expected} {frames frames' : List Frame} {k : Token}
    (h : take expected frames k = some (expected', frames')) (ks : List Token) :
    assemble expected frames (k :: ks) = assemble expected' frames' ks := by
  rw [assemble, h]

/-- Whether a value is assembled from its tokens, whatever is open around them. -/
def Assembles (v : Json) : Prop :=
  ∀ frames ks, assemble .value frames (v.tokens ++ ks) = assemble (.after v) frames ks

/-- Items are read one by one up to the end of their array. -/
theorem assemble_items {v : Json} {items : List Json} (h : ∀ w ∈ v :: items, Assembles w)
    (before : List Json) (frames : List Frame) (ks : List Token) :
    assemble .value (.items before :: frames) (itemTokens (v :: items) ++ .closeBracket :: ks) =
      assemble (.after (.array (before.reverse ++ v :: items))) frames ks := by
  obtain ⟨hv, hitems⟩ := List.forall_mem_cons.1 h
  induction items generalizing v before with
  | nil => rw [itemTokens, hv, assemble_cons rfl, List.reverse_cons]
  | cons w items ih =>
    obtain ⟨hw, hitems'⟩ := List.forall_mem_cons.1 hitems
    rw [itemTokens, List.append_assoc, hv, List.cons_append, assemble_cons rfl]
    rw [ih hitems (v :: before) hw hitems', List.reverse_cons, List.append_assoc]
    rfl

/-- The first item of an array is read as any other. -/
theorem assemble_firstItem (frames : List Frame) {ks : List Token}
    (h : ks.head? ≠ some .closeBracket) :
    assemble .firstItem frames ks = assemble .value (.items [] :: frames) ks := by
  cases ks with
  | nil => rfl
  | cons k ks =>
    have htake : take .firstItem frames k = take .value (.items [] :: frames) k := by
      cases k with
      | closeBracket => exact absurd rfl h
      | _ => rfl
    rw [assemble, assemble, htake]

/-- No value starts with a closing bracket. -/
theorem head?_itemTokens (v : Json) (items : List Json) (ks : List Token) :
    (itemTokens (v :: items) ++ ks).head? ≠ some .closeBracket := by
  cases items <;> cases v <;> simp [itemTokens, tokens]

theorem assembles_array {items : List Json} (h : ∀ v ∈ items, Assembles v) :
    Assembles (.array items) := by
  intro frames ks
  rw [tokens, List.cons_append, List.cons_append, assemble_cons rfl, List.append_assoc]
  cases items with
  | nil => exact assemble_cons rfl ks
  | cons v items =>
    rw [assemble_firstItem frames (head?_itemTokens v items _)]
    exact assemble_items h [] frames ks

/-- The members of an object, as they are kept while it is read. -/
def keyed (members : List (String × Json)) : List (Option String × Json) :=
  members.map fun m => (some m.1, m.2)

theorem ofMembers_keyed (members : List (String × Json)) :
    ofMembers (keyed members) = .object members := by
  have hmembers : (keyed members).mapM (fun m => m.1.map (·, m.2)) = some members := by
    rw [keyed, List.mapM_map]
    induction members with
    | nil => rfl
    | cons m members ih => simp [ih]
  rw [ofMembers, hmembers]

/-- Members are read one by one up to the end of their object. -/
theorem assemble_members {m : String × Json} {members : List (String × Json)}
    (h : ∀ n ∈ m :: members, Assembles n.2) (before : List (Option String × Json))
    (frames : List Frame) (ks : List Token) :
    assemble (.key before) frames (memberTokens (m :: members) ++ .closeBrace :: ks) =
      assemble (.after (ofMembers (before.reverse ++ keyed (m :: members)))) frames ks := by
  obtain ⟨hm, hmembers⟩ := List.forall_mem_cons.1 h
  induction members generalizing m before with
  | nil =>
    rw [memberTokens, memberToken, List.cons_append, assemble_cons rfl, List.cons_append]
    rw [assemble_cons rfl, hm, assemble_cons rfl, List.reverse_cons]
    rfl
  | cons n members ih =>
    obtain ⟨hn, hmembers'⟩ := List.forall_mem_cons.1 hmembers
    rw [memberTokens, memberToken, List.append_assoc, List.cons_append, assemble_cons rfl]
    rw [List.cons_append, assemble_cons rfl, hm, List.cons_append, assemble_cons rfl]
    rw [ih hmembers ((some m.1, m.2) :: before) hn hmembers', List.reverse_cons]
    rw [List.append_assoc]
    rfl

/-- The first key of an object is read as any other. -/
theorem assemble_firstKey (m : String × Json) (members : List (String × Json))
    (frames : List Frame) (ks : List Token) :
    assemble .firstKey frames (memberTokens (m :: members) ++ ks) =
      assemble (.key []) frames (memberTokens (m :: members) ++ ks) := by
  cases members with
  | nil => rw [memberTokens, memberToken, List.cons_append, assemble_cons rfl, assemble_cons rfl]
  | cons n members =>
    rw [memberTokens, memberToken, List.append_assoc, List.cons_append, assemble_cons rfl,
      assemble_cons rfl]

theorem assembles_object {members : List (String × Json)} (h : ∀ m ∈ members, Assembles m.2) :
    Assembles (.object members) := by
  intro frames ks
  rw [tokens, List.cons_append, List.cons_append, assemble_cons rfl, List.append_assoc]
  cases members with
  | nil => exact assemble_cons rfl ks
  | cons m members =>
    rw [assemble_firstKey, ← ofMembers_keyed]
    exact assemble_members h [] frames ks

/-- **A value is assembled from its tokens.** -/
theorem assemble_tokens {v : Json} (h : v.Native) : Assembles v := by
  induction h with
  | null | bool | number | string => exact fun frames ks => assemble_cons rfl ks
  | array _ ih => exact assembles_array ih
  | object _ ih => exact assembles_object ih

/-! ## Texts -/

/-- **A value is read from every text that shows it.** -/
theorem parse?_of_shows {v : Json} (h : v.Native) {text : String}
    (hshows : Shows v.tokens text.toList) : parse? text = some v := by
  have hassembled := assemble_tokens h [] []
  rw [List.append_nil] at hassembled
  rw [parse?, tokens?_of_shows hshows]
  exact hassembled

theorem Native.shows_compact {v : Json} (h : v.Native) : Shows v.tokens v.compact.toList := by
  rw [compact, String.toList_ofList]
  exact shows_flatMap h.adjacent

theorem Native.shows_pretty {v : Json} (h : v.Native) : Shows v.tokens v.pretty.toList := by
  rw [pretty, String.toList_ofList]
  exact shows_layOut 0 h.adjacent

end EventSchema.Json
