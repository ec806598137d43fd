import EventSchema.Proofs.Agreement
import EventSchema.Proofs.Draft.Parts

/-!
# Drafts without aliases

In a draft without aliases each argument stands for itself (`aliased_of_aliasFree`), so a step that
replaces its arguments agrees with the same step on the arguments as they are
(`agreeOn_aliased_bind`). Only the definition of an alias makes an alias: everything else leaves a
draft without any (`MadeOf.keeps_aliasFree`).
-/

namespace EventSchema

variable {α : Type} {x : Build α}

/-- Drafts in which no alias is defined. -/
def Draft.AliasFree (d : Draft) : Prop := d.model.aliases = ∅

theorem aliased_of_aliasFree {d : Draft} (h : d.AliasFree) (arg : String) :
    d.aliased arg = arg := by
  rw [Draft.AliasFree] at h
  rw [aliased_model, Provider.aliased, h, Table.find?_empty, Option.getD_none]

theorem aliased_eq_id {d : Draft} (h : d.AliasFree) : d.aliased = id :=
  funext (aliased_of_aliasFree h)

theorem agreeOn_aliased_bind {arg : String} {f : String → Build α} {y : Build α}
    (h : AgreeOn Draft.AliasFree (f arg) y) :
    AgreeOn Draft.AliasFree (Build.aliased arg >>= f) y := by
  intro d hd
  change f (d.aliased arg) d = y d
  rw [aliased_of_aliasFree hd, h d hd]

/-- **Only the definition of an alias makes an alias.** -/
theorem MadeOf.keeps_aliasFree (h : MadeOf (· ≠ .aliases) x) :
    Leads (Keeping Draft.AliasFree) x :=
  fun d hd => (h.same_aliases d).trans hd

theorem MadeOf.aliasFree_of_ok (h : MadeOf (· ≠ .aliases) x) {d e : Draft} {a : α}
    (hd : d.AliasFree) (hx : x d = .ok a e) : e.AliasFree := by
  have hkeep := h.keeps_aliasFree d hd
  rwa [stateAfter_of_ok hx] at hkeep

end EventSchema
