import EventSchema.Proofs.Checksum
import EventSchema.Proofs.Draft.Coherent
import EventSchema.Proofs.Text.Boundary

/-!
# Template ids

The id of a template gives its number of fields and a checksum of their texts (`Template.id_eq_iff`).
Without zero characters in the names the texts tell the fields (`fields_eq_of_bytes_eq`), but
checksums are not free of collisions: two parameter lists of one model may share an id
(`shared_id_of_reached`). Where no two templates of a model share the number of fields and the
checksum, an id names one of them, and their order is determined (`templates_named_after`).
-/

namespace EventSchema

open Checksum (crc32 crc32Text WithinWord)
open Text.Utf8 (encode)

/-! ## What an id says -/

theorem crc32Text_injective {s t : Bytes} (h : crc32Text s = crc32Text t) : crc32 s = crc32 t := by
  have hread := Text.Numeral.read?_paddedHex 8 (crc32 s).toNat
  rw [crc32Text, crc32Text] at h
  rw [h, Text.Numeral.read?_paddedHex] at hread
  exact UInt32.toNat_inj.1 (Option.some.inj hread.symm)

theorem length_crc32Text (t : Bytes) : (crc32Text t).toList.length = 8 := by
  have hdigits : (Nat.toDigits 16 (crc32 t).toNat).length ≤ 8 :=
    (Nat.length_toDigits_le_iff (by decide) (by decide)).2 (crc32 t).toNat_lt
  exact Text.Numeral.length_paddedHex hdigits

theorem decimal_injective {n m : Nat} (h : Text.Numeral.decimal n = Text.Numeral.decimal m) :
    n = m := by
  have hread := Text.Numeral.read?_decimal n
  rw [h, Text.Numeral.read?_decimal] at hread
  exact Option.some.inj hread.symm

/-- **Two templates have one id** when they have the same number of fields and the same checksum. -/
theorem Template.id_eq_iff {t u : Template} :
    t.id = u.id ↔ t.fields.length = u.fields.length ∧ crc32 t.bytes = crc32 u.bytes := by
  constructor
  · intro h
    have hlist := congrArg String.toList h
    simp only [Template.id, String.toList_append, List.append_assoc] at hlist
    have hrest := List.append_cancel_left hlist
    have hlength : (crc32Text t.bytes).toList.length = (crc32Text u.bytes).toList.length := by
      rw [length_crc32Text, length_crc32Text]
    obtain ⟨hchecksum, hcount⟩ := List.append_inj hrest hlength
    have hdecimal := String.toList_inj.1 (List.append_cancel_left hcount)
    exact ⟨decimal_injective hdecimal, crc32Text_injective (String.toList_inj.1 hchecksum)⟩
  · rintro ⟨hcount, hchecksum⟩
    rw [Template.id, Template.id, crc32Text, crc32Text, hcount, hchecksum]

/-! ## What the texts of fields say -/

/-- No name of a field has a zero character. -/
def Template.ZeroFree (t : Template) : Prop := ∀ f ∈ t.fields, '\x00' ∉ f.name.toList

theorem zero_not_mem_encode {s : String} (h : '\x00' ∉ s.toList) : 0 ∉ encode s := by
  intro hmem
  obtain ⟨c, hc, hzero⟩ := List.mem_flatMap.1 hmem
  have hnul : c = '\x00' :=
    Text.Utf8.eq_of_ascii_mem_encodeChar (d := '\x00') (by decide) (by decide) hzero
  exact h (hnul ▸ hc)

theorem zero_not_mem_typeName (type : FieldType) : 0 ∉ encode (Vocabulary.name type) := by
  cases type <;> decide

theorem typeName_injective {a b : FieldType}
    (h : encode (Vocabulary.name a) = encode (Vocabulary.name b)) : a = b := by
  cases a <;> cases b <;> first | rfl | (revert h; decide)

/-- A list is cut in one way at the first occurrence of a separator. -/
theorem append_separator_inj {α : Type} {sep : α} {a b s t : List α} (ha : sep ∉ a) (hb : sep ∉ b)
    (h : a ++ sep :: s = b ++ sep :: t) : a = b ∧ s = t := by
  induction a generalizing b with
  | nil =>
    cases b with
    | nil => simpa using h
    | cons y b =>
      have hy : y = sep := by simpa [eq_comm] using congrArg List.head? h
      exact absurd hy fun hsep => hb (hsep ▸ List.mem_cons_self)
  | cons x a ih =>
    cases b with
    | nil =>
      have hx : x = sep := by simpa using congrArg List.head? h
      exact absurd hx fun hsep => ha (hsep ▸ List.mem_cons_self)
    | cons y b =>
      obtain ⟨rfl, htail⟩ := List.cons.inj h
      obtain ⟨rfl, rfl⟩ := ih (fun hmem => ha (List.mem_cons_of_mem x hmem))
        (fun hmem => hb (List.mem_cons_of_mem x hmem)) htail
      exact ⟨rfl, rfl⟩

theorem Template.bytes_cons (f : Field) (fs : List Field) :
    Template.bytes ⟨f :: fs⟩ =
      encode (Vocabulary.name f.type) ++ 0 :: (encode f.name ++ 0 :: Template.bytes ⟨fs⟩) := by
  simp [Template.bytes]

/-- **The texts tell the fields.** -/
theorem fields_eq_of_bytes_eq {t u : Template} (ht : t.ZeroFree) (hu : u.ZeroFree)
    (h : t.bytes = u.bytes) : t.fields = u.fields := by
  obtain ⟨fs⟩ := t
  obtain ⟨gs⟩ := u
  induction fs generalizing gs with
  | nil =>
    cases gs with
    | nil => rfl
    | cons g gs => simp [Template.bytes] at h
  | cons f fs ih =>
    cases gs with
    | nil => simp [Template.bytes] at h
    | cons g gs =>
      rw [Template.bytes_cons, Template.bytes_cons] at h
      obtain ⟨htype, hnames⟩ := append_separator_inj (zero_not_mem_typeName f.type)
        (zero_not_mem_typeName g.type) h
      obtain ⟨hname, hrest⟩ := append_separator_inj (zero_not_mem_encode (ht f List.mem_cons_self))
        (zero_not_mem_encode (hu g List.mem_cons_self)) hnames
      have hfields : fs = gs := ih (fun e he => ht e (List.mem_cons_of_mem f he)) gs
        (fun e he => hu e (List.mem_cons_of_mem g he)) hrest
      have hfield : f = g := by
        cases f
        cases g
        cases typeName_injective htype
        cases Text.Utf8.encode_injective hname
        rfl
      exact congrArg₂ List.cons hfield hfields

/-! ## The templates of a provider -/

theorem values_nodup_of_keyedBy {κ α : Type} [Ord κ] [DecidableEq κ] [Std.TransOrd κ] {name : α → κ}
    {t : Table κ α} (h : KeyedBy name t) : t.values.Nodup := by
  refine List.pairwise_map.2 (t.ascending.imp_of_mem fun {a b} ha hb hlt heq => ?_)
  have hname : ∀ e ∈ t.entries, name e.2 = e.1 := by
    intro e he
    exact h e.1 e.2 ((t.mem_entries_iff e.1 e.2).1 he)
  have hkeys : a.1 = b.1 := by rw [← hname a ha, ← hname b hb, heq]
  rw [hkeys] at hlt
  simp at hlt

namespace Provider

/-- No two templates have the same number of fields and the same checksum. -/
def TemplatesDiffer (p : Provider) : Prop :=
  ∀ t ∈ p.templates.values, ∀ u ∈ p.templates.values, t.fields ≠ u.fields →
    t.fields.length = u.fields.length → crc32 t.bytes ≠ crc32 u.bytes

instance (p : Provider) : Decidable p.TemplatesDiffer :=
  inferInstanceAs (Decidable (∀ t ∈ p.templates.values, ∀ u ∈ p.templates.values,
    t.fields ≠ u.fields → t.fields.length = u.fields.length → crc32 t.bytes ≠ crc32 u.bytes))

variable {p : Provider} {t u : Template}

theorem mem_templatesById : t ∈ p.templatesById ↔ t ∈ p.templates.values := by
  rw [templatesById, List.mem_mergeSort]

theorem TemplatesDiffer.id_ne (h : p.TemplatesDiffer) (ht : t ∈ p.templates.values)
    (hu : u ∈ p.templates.values) (hne : t.fields ≠ u.fields) : t.id ≠ u.id := by
  intro hid
  obtain ⟨hcount, hchecksum⟩ := Template.id_eq_iff.1 hid
  exact h t ht u hu hne hcount hchecksum

theorem TemplatesDiffer.eq_of_id (h : p.TemplatesDiffer) (ht : t ∈ p.templates.values)
    (hu : u ∈ p.templates.values) (hid : t.id = u.id) : t = u := by
  by_contra hne
  have hfields : t.fields ≠ u.fields := fun heq => hne (by
    cases t
    cases u
    cases heq
    rfl)
  exact h.id_ne ht hu hfields hid

theorem templatesById_pairwise (p : Provider) :
    p.templatesById.Pairwise fun a b => (compare a.id b.id).isLE = true := by
  have trans : ∀ a b c : Template, (compare a.id b.id).isLE = true →
      (compare b.id c.id).isLE = true → (compare a.id c.id).isLE = true :=
    fun _ _ _ => Std.TransCmp.isLE_trans
  have total : ∀ a b : Template,
      ((compare a.id b.id).isLE || (compare b.id a.id).isLE) = true := by
    intro a b
    rw [Std.OrientedOrd.eq_swap]
    cases compare b.id a.id <;> rfl
  exact List.pairwise_mergeSort trans total p.templates.values

/-- Where ids differ, the templates have one order. -/
theorem TemplatesDiffer.eq_templatesById (h : p.TemplatesDiffer) {l : List Template}
    (perm : l.Perm p.templates.values)
    (ascending : l.Pairwise fun a b => (compare a.id b.id).isLE = true) : l = p.templatesById := by
  have hsorted : p.templatesById.Perm p.templates.values := List.mergeSort_perm _ _
  refine List.Perm.eq_of_pairwise (fun a b ha hb hab hba => ?_) ascending
    p.templatesById_pairwise (perm.trans hsorted.symm)
  have hid : a.id = b.id := Std.LawfulEqCmp.eq_of_compare (Std.OrientedCmp.isLE_antisymm hab hba)
  exact h.eq_of_id (perm.mem_iff.1 ha) (mem_templatesById.1 hb) hid

end Provider

/-- **What template ids tell apart.** In every reachable model, templates without zero characters in
their names have different texts, and one id only if they have the same number of fields and their
texts one checksum: never, if the texts are of one length and differ within four consecutive bytes
only. Where no two templates share both, different templates have different ids, the id that an event
carries names exactly one of those listed, and there is one order of the templates by their ids. -/
theorem templates_named_after (ops : List Operation) :
    let p := (({} : Draft).after ops).model
    (∀ t ∈ p.templates.values, ∀ u ∈ p.templates.values, t.ZeroFree → u.ZeroFree →
      t.fields ≠ u.fields →
        t.bytes ≠ u.bytes ∧
        (t.id = u.id ↔ t.fields.length = u.fields.length ∧ crc32 t.bytes = crc32 u.bytes) ∧
        (WithinWord t.bytes u.bytes → t.id ≠ u.id)) ∧
    (p.TemplatesDiffer →
      (∀ t ∈ p.templates.values, ∀ u ∈ p.templates.values, t.fields ≠ u.fields → t.id ≠ u.id) ∧
      (∀ name e t, p.events.find? name = some e → e.template = some t →
        t ∈ p.templatesById ∧ ∀ u ∈ p.templatesById, u.id = t.id → u = t) ∧
      p.templatesById.Pairwise (fun a b => compare a.id b.id = .lt) ∧
      ∀ l : List Template, l.Perm p.templates.values →
        l.Pairwise (fun a b => (compare a.id b.id).isLE = true) → l = p.templatesById) := by
  intro p
  have hcoherent : p.Coherent := (coherent_after ops).1
  refine ⟨fun t _ u _ htFree huFree hne => ?_, fun hdiffer => ⟨fun t ht u hu hne => ?_, ?_, ?_, ?_⟩⟩
  · have hbytes : t.bytes ≠ u.bytes := fun heq => hne (fields_eq_of_bytes_eq htFree huFree heq)
    refine ⟨hbytes, Template.id_eq_iff, fun hwithin hid => ?_⟩
    exact Checksum.crc32_ne_of_withinWord hwithin hbytes (Template.id_eq_iff.1 hid).2
  · exact hdiffer.id_ne ht hu hne
  · intro name e t he ht
    obtain ⟨-, hstored⟩ := (hcoherent.resolved name e he).template t ht
    have hmem : t ∈ p.templates.values := Table.mem_values_iff.2 ⟨t.fields, hstored⟩
    refine ⟨Provider.mem_templatesById.2 hmem, fun u hu hid => ?_⟩
    exact hdiffer.eq_of_id (Provider.mem_templatesById.1 hu) hmem hid
  · have hnodup : p.templatesById.Nodup :=
      (List.mergeSort_perm _ _).nodup_iff.2 (values_nodup_of_keyedBy hcoherent.templates)
    refine (p.templatesById_pairwise.and hnodup).imp_of_mem fun {a b} ha hb hab => ?_
    obtain ⟨hle, hne⟩ := hab
    cases hcompare : compare a.id b.id with
    | lt => rfl
    | eq =>
      have hid : a.id = b.id := Std.LawfulEqCmp.eq_of_compare hcompare
      exact absurd (hdiffer.eq_of_id (Provider.mem_templatesById.1 ha)
        (Provider.mem_templatesById.1 hb) hid) hne
    | gt => simp [hcompare] at hle
  · intro l perm ascending
    exact hdiffer.eq_templatesById perm ascending

/-- A start and a stop, each with one parameter. -/
def startAndStop (started stopped : String) : List Operation := [
  .defineChannel "Admin" "Admin" .admin,
  .defineTask "Net",
  .defineEvent ⟨"srv", "Success", "Info", "Admin", "Net", "Start", [("UInt32", started)], none⟩,
  .defineEvent ⟨"srv", "Success", "Info", "Admin", "Net", "Stop", [("UInt32", stopped)], none⟩]

theorem templates_named_after_oneLetter :
    let p := (({} : Draft).after (startAndStop "sent" "send")).model
    ∃ t ∈ p.templates.values, ∃ u ∈ p.templates.values, t.fields ≠ u.fields ∧ t.id ≠ u.id ∧
      p.TemplatesDiffer ∧ p.events.keys = ["srv_Net_Start", "srv_Net_Stop"] ∧
      ∀ name e t, p.events.find? name = some e → e.template = some t →
        t ∈ p.templatesById ∧ ∀ u ∈ p.templatesById, u.id = t.id → u = t := by
  intro p
  obtain ⟨apart, named⟩ := templates_named_after (startAndStop "sent" "send")
  have hdiffer : p.TemplatesDiffer := by decide +kernel
  have hwithin : WithinWord (Template.bytes ⟨[⟨.uint32, "sent"⟩]⟩)
      (Template.bytes ⟨[⟨.uint32, "send"⟩]⟩) :=
    ⟨encode "UInt32" ++ 0 :: encode "sen", encode "t", encode "d", [0], by decide, by decide,
      by decide, by decide⟩
  have ht : ⟨[⟨.uint32, "sent"⟩]⟩ ∈ p.templates.values := by decide +kernel
  have hu : ⟨[⟨.uint32, "send"⟩]⟩ ∈ p.templates.values := by decide +kernel
  have hne : ([⟨.uint32, "sent"⟩] : List Field) ≠ [⟨.uint32, "send"⟩] := by decide
  have hid := (apart _ ht _ hu (by simp [Template.ZeroFree]) (by simp [Template.ZeroFree])
    hne).2.2 hwithin
  have hkeys : p.events.keys = ["srv_Net_Start", "srv_Net_Stop"] := by decide +kernel
  exact ⟨_, ht, _, hu, hne, hid, hdiffer, hkeys, (named hdiffer).2.1⟩

/-- Checksums do collide: these two names have one, and keep it among equal texts. -/
theorem shared_id_of_reached :
    let p := (({} : Draft).after (startAndStop "plumless" "buckeroo")).model
    ∃ t ∈ p.templates.values, ∃ u ∈ p.templates.values, t.fields ≠ u.fields ∧ t.id = u.id := by
  intro p
  refine ⟨⟨[⟨.uint32, "plumless"⟩]⟩, ?_, ⟨[⟨.uint32, "buckeroo"⟩]⟩, ?_, ?_, ?_⟩
  · decide +kernel
  · decide +kernel
  · decide
  · decide +kernel

end EventSchema
