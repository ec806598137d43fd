import EventSchema.Proofs.Draft.AliasFree
import EventSchema.Proofs.Draft.Marks

/-!
# Saying something again

What was carried out once and succeeds again, later, leaves the provider as it is
(`MadeOf.repeats`): each of its definitions finds the mark that it left.

Without aliases a step also does not depend on what has been defined: if it succeeds it always has
the same result, and puts the same paths around what waits in the queue (`MadeOf.queues_alike`).
-/

namespace EventSchema

variable {α : Type} {allowed : Topic → Prop} {x : Build α}

theorem MadeOf.grown_of_ok (h : MadeOf allowed x) {d e : Draft} {a : α}
    (hx : x d = .ok a e) : d.Grown e := by
  have hgrown := h.leads_grown d
  rwa [stateAfter_of_ok hx] at hgrown

/-- **Without aliases a step always says the same.** If it succeeds at all, it has one result, and
it puts the same paths around what waits. -/
theorem MadeOf.queues_alike (h : MadeOf (· ≠ .aliases) x) :
    ∃ (result : Option α) (front back : List String), ∀ d a e, d.AliasFree → x d = .ok a e →
      result = some a ∧ e.queue.pending = front ++ d.queue.pending ++ back := by
  induction h with
  | pure a =>
    refine ⟨some a, [], [], fun d b e _ hx => ?_⟩
    cases hx
    exact ⟨rfl, (List.append_nil _).symm⟩
  | throw => exact ⟨none, [], [], fun d b e _ hx => by cases hx⟩
  | update =>
    refine ⟨some (), [], [], fun d b e _ hx => ⟨rfl, ?_⟩⟩
    obtain ⟨q, -, rfl⟩ := Build.update_eq_ok.1 hx
    exact (List.append_nil _).symm
  | event =>
    refine ⟨some (), [], [], fun d b e _ hx => ⟨rfl, ?_⟩⟩
    obtain ⟨q, r, -, -, rfl⟩ := Build.event_of_ok hx
    exact (List.append_nil _).symm
  | enqueue front back =>
    refine ⟨some (), front, back, fun d b e _ hx => ?_⟩
    cases hx
    exact ⟨rfl, rfl⟩
  | @aliasing _ f _ ih =>
    obtain ⟨result, front, back, halike⟩ := ih id
    refine ⟨result, front, back, fun d a e hd hx => halike d a e hd ?_⟩
    rwa [get_bind_eq (fun d => f d.aliased), aliased_eq_id hd] at hx
  | @bind _ _ x f hmade hmade' ihx ihf =>
    obtain ⟨resultx, frontx, backx, halikex⟩ := ihx
    cases resultx with
    | none =>
      refine ⟨none, [], [], fun d b e hd hbind => ?_⟩
      obtain ⟨a, m, hx, -⟩ := bind_eq_ok.1 hbind
      cases (halikex d a m hd hx).1
    | some a =>
      obtain ⟨result, front, back, halike⟩ := ihf a
      refine ⟨result, front ++ frontx, backx ++ back, fun d b e hd hbind => ?_⟩
      obtain ⟨a', m, hx, hf⟩ := bind_eq_ok.1 hbind
      obtain ⟨hresult, hqueue⟩ := halikex d a' m hd hx
      cases hresult
      obtain ⟨hresult', hqueue'⟩ := halike m b e (hmade.aliasFree_of_ok hd hx) hf
      refine ⟨hresult', ?_⟩
      rw [hqueue', hqueue]
      simp only [List.append_assoc]

/-- **What has been carried out is not carried out again.** A step that succeeded once, and succeeds
where nothing has been taken back, leaves the provider as it is. -/
theorem MadeOf.repeats (h : MadeOf (· ≠ .aliases) x) {d₀ d₁ d e : Draft} {a b : α}
    (hd₀ : d₀.AliasFree) (hd : d.AliasFree) (first : x d₀ = .ok a d₁) (grown : d₁.Grown d)
    (second : x d = .ok b e) : e.provider = d.provider := by
  induction h generalizing d₀ d₁ d e with
  | pure =>
    cases second
    rfl
  | throw => cases second
  | update definition =>
    obtain ⟨mark, hmarks⟩ := exists_marks_of_definition definition
    obtain ⟨p₁, hfirst, rfl⟩ := Build.update_eq_ok.1 first
    obtain ⟨q, hsecond, rfl⟩ := Build.update_eq_ok.1 second
    obtain ⟨p, hp, hgrown⟩ := grown p₁ rfl
    rw [Draft.model, hp, Option.getD_some] at hsecond
    rw [hp, hmarks.repeats hfirst hgrown hsecond]
  | event decl severity level =>
    obtain ⟨q₀, r₀, hprepare₀, hadd₀, rfl⟩ := Build.event_of_ok first
    obtain ⟨q, r, hprepare, hadd, rfl⟩ := Build.event_of_ok second
    obtain ⟨p, hp, hgrown⟩ := grown r₀ rfl
    rw [Draft.model, hp, Option.getD_some] at hprepare
    have hprepared := Provider.prepared_of_prepareEvent hprepare₀
    have hgrown₀ : q₀.Grown p := trans_of Provider.Grown
      (Provider.grown_of_change (Provider.change_addEvent hprepared hadd₀)) hgrown
    obtain rfl : q = p := (Provider.marks_prepareEvent decl).repeats hprepare₀ hgrown₀ hprepare
    rw [hp, (Provider.marks_addEvent decl severity level).repeats hadd₀ hgrown hadd]
  | enqueue =>
    cases second
    rfl
  | @aliasing _ f _ ih =>
    rw [get_bind_eq (fun d => f d.aliased)] at first second
    rw [aliased_eq_id hd₀] at first
    rw [aliased_eq_id hd] at second
    exact ih id hd₀ hd first grown second
  | @bind _ _ x f hmade hmade' ihx ihf =>
    obtain ⟨a₀, m₀, hx₀, hf₀⟩ := bind_eq_ok.1 first
    obtain ⟨a₁, m, hx, hf⟩ := bind_eq_ok.1 second
    -- the first half says the same both times, so the second half is the same step again
    obtain ⟨result, _, _, halike⟩ := hmade.queues_alike
    obtain rfl : a₀ = a₁ := by
      have h₀ := (halike d₀ a₀ m₀ hd₀ hx₀).1
      rw [(halike d a₁ m hd hx).1] at h₀
      exact (Option.some.inj h₀).symm
    have same : m.provider = d.provider :=
      ihx hd₀ hd hx₀ (trans_of Draft.Grown ((hmade' a₀).grown_of_ok hf₀) grown) hx
    have grown' : d₁.Grown m := by
      intro p hp
      rw [same]
      exact grown p hp
    rw [ihf a₀ (hmade.aliasFree_of_ok hd₀ hx₀) (hmade.aliasFree_of_ok hd hx) hf₀ grown' hf, same]

end EventSchema
