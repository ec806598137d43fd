import EventSchema.Proofs.Draft.Operation

/-!
# Drafts only grow

Nothing that a draft says is ever taken back (`Draft.grown_after`): whatever is done to it, and
whether or not it succeeds, what was defined stays as it was defined, what was set keeps its value,
and only missing numbers and properties are set and new entities added. This is so because it is so
of every single change of its provider (`Draft.Changes.grown`).
-/

namespace EventSchema

open Relation (ReflTransGen)

/-- A draft from which nothing has been taken. -/
def Draft.Grown (d e : Draft) : Prop :=
  ∀ p, d.provider = some p → ∃ q, e.provider = some q ∧ p.Grown q

instance : IsPreorder Draft Draft.Grown where
  refl _ p hp := ⟨p, hp, refl_of Provider.Grown p⟩
  trans _ _ _ hde hef p hp := by
    obtain ⟨q, hq, hpq⟩ := hde p hp
    obtain ⟨r, hr, hqr⟩ := hef q hq
    exact ⟨r, hr, trans_of Provider.Grown hpq hqr⟩

theorem Provider.grown_of_changes {p q : Provider} (h : ReflTransGen Provider.Change p q) :
    p.Grown q := by
  induction h with
  | refl => exact refl_of Provider.Grown p
  | tail _ hchange ih => exact trans_of Provider.Grown ih (Provider.grown_of_change hchange)

/-- **Single changes take nothing away.** -/
theorem Draft.Changes.grown {d e : Draft} (h : d.Changes e) : d.Grown e := by
  intro p hp
  obtain ⟨q, hq⟩ : ∃ q, e.provider = some q :=
    Option.isSome_iff_exists.1 (h.provider (by rw [hp, Option.isSome_some]))
  have hpq := Provider.grown_of_changes h.model
  rw [Draft.model, Draft.model, hp, hq] at hpq
  exact ⟨q, hq, hpq⟩

theorem MadeOf.leads_grown {α : Type} {allowed : Topic → Prop} {x : Build α}
    (h : MadeOf allowed x) : Leads Draft.Grown x :=
  fun d => (h.changes d).grown

/-- **Drafts only grow.** -/
theorem Draft.grown_after (d : Draft) (ops : List Operation) : d.Grown (d.after ops) :=
  (d.changes_after ops).grown

end EventSchema
