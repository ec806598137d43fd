import EventSchema.Proofs.Document.Aliases

/-!
# Redefining an alias with a clause

A clause that names an alias is about the value of that alias, since its name is replaced like any
other argument. So what is compared with the new value, and what is defined if there is nothing to
compare, is the alias of that value (`redefines_of_bound`).
-/

namespace EventSchema

/-! ## One definition -/

namespace Build

variable {d : Draft} {name value : String}

theorem defineAlias_of_free (h : d.model.aliases.find? name = none) :
    defineAlias name value d =
      .ok () { d with
        provider := some { d.model with aliases := d.model.aliases.insert name value } } := by
  refine update_eq_ok.2 ⟨_, ?_, rfl⟩
  rw [Provider.defineAlias, h]

theorem defineAlias_of_same (h : d.model.aliases.find? name = some value) :
    defineAlias name value d = .ok () { d with provider := some d.model } := by
  refine update_eq_ok.2 ⟨_, ?_, rfl⟩
  rw [Provider.defineAlias, h]
  exact if_pos rfl

theorem defineAlias_of_other {old : String} (h : d.model.aliases.find? name = some old)
    (hne : value ≠ old) :
    defineAlias name value d =
      .error (.aliasRedefined name old value) { d with provider := some d.model } := by
  refine update_eq_error.2 ⟨?_, rfl⟩
  rw [Provider.defineAlias, h]
  exact if_neg hne.symm

end Build

/-! ## Clauses -/

section

variable {d : Draft} {name value : String}

/-- A draft that binds a name has a provider. -/
theorem provider_of_bound (h : d.model.aliases.find? name = some value) :
    { d with provider := some d.model } = d := by
  obtain ⟨provider, queue⟩ := d
  cases provider with
  | none => cases h
  | some p => rfl

/-- The name of a clause is replaced by its value. -/
theorem applyClause_alias_of_find? (h : d.model.aliases.find? name = some value) (arg : String) :
    Build.applyClause ⟨"ALIAS", [name, arg]⟩ d = Build.defineAlias value (d.aliased arg) d := by
  have hname : d.aliased name = value := by
    rw [aliased_model, Provider.aliased, h, Option.getD_some]
  rw [Document.applyClause_alias, hname]

theorem applyClause_alias_refused {bound arg : String} (h : d.model.aliases.find? name = some value)
    (hbound : d.model.aliases.find? value = some bound) (hother : d.aliased arg ≠ bound) :
    Build.applyClause ⟨"ALIAS", [name, arg]⟩ d =
      .error (.aliasRedefined value bound (d.aliased arg)) d := by
  rw [applyClause_alias_of_find? h, Build.defineAlias_of_other hbound hother, provider_of_bound h]

theorem applyClause_alias_repeated {arg : String} (h : d.model.aliases.find? name = some value)
    (hsame : d.model.aliases.find? value = some (d.aliased arg)) :
    Build.applyClause ⟨"ALIAS", [name, arg]⟩ d = .ok () d := by
  rw [applyClause_alias_of_find? h, Build.defineAlias_of_same hsame, provider_of_bound h]

/-- An alias keeps its value. -/
theorem alias_of_changes {e : Draft} (hchanges : d.Changes e)
    (h : d.model.aliases.find? name = some value) : e.model.aliases.find? name = some value := by
  obtain ⟨kept, hkept, heq⟩ := (Provider.grown_of_changes hchanges.model).aliases name value h
  rw [hkept, heq]

/-- What a clause does to a name that has a value: it defines that value as an alias, and is checked
against what the value is an alias for already. -/
structure Redefines (d : Draft) (name value arg : String) : Prop where
  refused : ∀ bound, d.model.aliases.find? value = some bound → d.aliased arg ≠ bound →
    Build.applyClause ⟨"ALIAS", [name, arg]⟩ d =
      .error (.aliasRedefined value bound (d.aliased arg)) d
  repeated : d.model.aliases.find? value = some (d.aliased arg) →
    Build.applyClause ⟨"ALIAS", [name, arg]⟩ d = .ok () d
  added : d.model.aliases.find? value = none →
    Build.applyClause ⟨"ALIAS", [name, arg]⟩ d =
      .ok () { d with
        provider := some { d.model with
          aliases := d.model.aliases.insert value (d.aliased arg) } }
  /-- The name keeps its value in any case. -/
  kept : (stateAfter (Build.applyClause ⟨"ALIAS", [name, arg]⟩) d).model.aliases.find? name =
    some value

/-- **A clause for a name that has a value** is a definition of that value. -/
theorem redefines_of_bound (h : d.model.aliases.find? name = some value) (arg : String) :
    Redefines d name value arg where
  refused _ hbound hother := applyClause_alias_refused h hbound hother
  repeated hsame := applyClause_alias_repeated h hsame
  added hfree := by rw [applyClause_alias_of_find? h, Build.defineAlias_of_free hfree]
  kept := alias_of_changes ((Operation.apply ⟨"ALIAS", [name, arg]⟩).run_changes d) h

/-- A draft after one alias. -/
def oneAlias : Draft := ({} : Draft).after [.apply ⟨"ALIAS", ["A", "1"]⟩]

/-- The value is no alias at first. After it has become one, another definition is refused. -/
theorem redefines_oneAlias :
    oneAlias.model.aliases.find? "A" = some "1" ∧ Redefines oneAlias "A" "1" "2" ∧
      Redefines (oneAlias.after [.apply ⟨"ALIAS", ["A", "1"]⟩]) "A" "1" "2" :=
  ⟨rfl, redefines_of_bound rfl "2", redefines_of_bound rfl "2"⟩

/-- A name with a value is given another one without a refusal, and is given its value again with a
change, since both are about the value. -/
theorem alias_clause_unchecked :
    (Build.applyClause ⟨"ALIAS", ["A", "2"]⟩ oneAlias =
        .ok () { oneAlias with
          provider := some { aliases := .ofList [("1", "2"), ("A", "1")] } }) ∧
      (¬ ∀ (ops : List Operation) (name value arg : String),
        (({} : Draft).after ops).model.aliases.find? name = some value →
          (({} : Draft).after ops).aliased arg ≠ value →
            ∃ e d', Build.applyClause ⟨"ALIAS", [name, arg]⟩ (({} : Draft).after ops) =
              .error e d' ∧ e.kind = .invalidContent ∧
                d'.model.aliases = (({} : Draft).after ops).model.aliases) ∧
      ¬ ∀ (ops : List Operation) (name value : String),
        (({} : Draft).after ops).model.aliases.find? name = some value →
          (({} : Draft).after ops).model.aliases.find? value = none →
            ∃ d', Build.applyClause ⟨"ALIAS", [name, value]⟩ (({} : Draft).after ops) =
              .ok () d' ∧ d'.model.aliases = (({} : Draft).after ops).model.aliases := by
  refine ⟨rfl, fun h => ?_, fun h => ?_⟩
  · obtain ⟨e, d', hrun, -⟩ := h [.apply ⟨"ALIAS", ["A", "1"]⟩] "A" "1" "2" rfl (by decide)
    cases hrun
  · obtain ⟨d', hrun, hsame⟩ := h [.apply ⟨"ALIAS", ["A", "1"]⟩] "A" "1" rfl rfl
    cases hrun
    exact absurd (congrArg Table.keys hsame) (by decide)

end

end EventSchema
