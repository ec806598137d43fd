import EventSchema.Proofs.Draft.Operation

/-!
# Parts of a draft that steps keep

A step leaves alone what its definitions are not about, also where it fails: without the definition
of an alias the texts stand for the same afterwards (`MadeOf.aliased_eq`), without that of an event
there is none that was not there before (`MadeOf.same_events`), and a step that names no file leaves
the queue as it was (`MadeOf.same_queue`).
-/

namespace EventSchema

open Relation (ReflTransGen)

variable {α β : Type} {allowed : Topic → Prop} {part : Provider → β} {x : Build α}

/-- Drafts whose models agree in one part. -/
def Draft.Same (part : Provider → β) (d e : Draft) : Prop := part e.model = part d.model

/-- Drafts with the same queue. -/
def Draft.SameQueue (d e : Draft) : Prop := e.queue = d.queue

/-! ## Parts of the model -/

/-- A part that no topic of a step is about is as it was. -/
theorem MadeOf.leads_same (h : MadeOf allowed x)
    (kept : ∀ (topic : Topic) (p q : Provider), allowed topic → topic.Only p q → part q = part p) :
    Leads (Draft.Same part) x := by
  have same {p q : Provider}
      (honly : ReflTransGen (fun p q => ∃ topic, allowed topic ∧ topic.Only p q) p q) :
      part q = part p := by
    induction honly with
    | refl => rfl
    | tail _ hlast ih =>
      obtain ⟨topic, allow, honly⟩ := hlast
      exact (kept topic _ _ allow honly).trans ih
  exact fun d => same (h.leads d).only

theorem MadeOf.same_aliases (h : MadeOf (· ≠ .aliases) x) :
    Leads (Draft.Same Provider.aliases) x :=
  h.leads_same fun _ _ _ hne honly => honly.aliases_eq hne

theorem MadeOf.same_typedefs (h : MadeOf (· ≠ .typedefs) x) :
    Leads (Draft.Same Provider.typedefs) x :=
  h.leads_same fun _ _ _ hne honly => honly.typedefs_eq hne

theorem MadeOf.same_events (h : MadeOf (· ≠ .events) x) : Leads (Draft.Same Provider.events) x :=
  h.leads_same fun _ _ _ hne honly => honly.events_eq hne

theorem MadeOf.same_queue (h : MadeOf (· ≠ .files) x) : Leads Draft.SameQueue x :=
  fun d => (h.leads d).queue fun hne => hne rfl

theorem model_update (change : Provider → Except Error Provider) (d : Draft) :
    (stateAfter (Build.update change) d).model = (change d.model).toOption.getD d.model := by
  unfold stateAfter Build.update Draft.model
  dsimp only
  cases change (d.provider.getD {}) <;> rfl

/-! ## Texts -/

theorem get_bind_eq (f : Draft → Build α) (d : Draft) : (get >>= f) d = f d d := rfl

theorem aliased_model (d : Draft) : d.aliased = d.model.aliased := by
  funext arg
  rw [Draft.aliased, Draft.model]
  cases d.provider with
  | none => rfl
  | some p => rfl

theorem aliased_of_aliases {p q : Provider} (h : q.aliases = p.aliases) : q.aliased = p.aliased := by
  funext arg
  rw [Provider.aliased, Provider.aliased, h]

/-- **Without the definition of an alias** the texts stand for the same afterwards. -/
theorem MadeOf.aliased_eq (h : MadeOf (· ≠ .aliases) x) (d : Draft) :
    (stateAfter x d).model.aliased = d.aliased :=
  (aliased_of_aliases (h.same_aliases d)).trans (aliased_model d).symm

end EventSchema
