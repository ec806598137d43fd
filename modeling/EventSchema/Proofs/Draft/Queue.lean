import EventSchema.Proofs.Draft.Composition
import EventSchema.Proofs.Run

/-!
# What waits changes nothing

A step that is made of definitions does not look at the queue: whatever waits there, it ends alike,
with the same provider, and puts the same paths in front of what waits and behind it (`framed`). So
its effect is known from what it does when nothing waits.
-/

namespace EventSchema

variable {α β : Type} {allowed : Topic → Prop}

/-- A step that ends alike at a provider, whatever waits, and puts the same paths around it. -/
inductive Framed (x : Build α) (p : Option Provider) : Prop
  | ok (a : α) (q : Option Provider) (front back : List String)
      (h : ∀ waiting, x ⟨p, ⟨waiting⟩⟩ = .ok a ⟨q, ⟨front ++ waiting ++ back⟩⟩)
  | error (e : Error) (q : Option Provider) (front back : List String)
      (h : ∀ waiting, x ⟨p, ⟨waiting⟩⟩ = .error e ⟨q, ⟨front ++ waiting ++ back⟩⟩)

theorem framed_pure (a : α) (p : Option Provider) : Framed (pure a : Build α) p :=
  .ok a p [] [] fun waiting => by
    rw [List.append_nil]
    rfl

theorem framed_throw (e : Error) (p : Option Provider) : Framed (throw e : Build α) p :=
  .error e p [] [] fun waiting => by
    rw [List.append_nil]
    rfl

theorem framed_update (change : Provider → Except Error Provider) (p : Option Provider) :
    Framed (Build.update change) p := by
  cases hchange : change (p.getD {}) with
  | ok q =>
    refine .ok () (some q) [] [] fun waiting => ?_
    rw [Build.update, hchange, List.append_nil]
    rfl
  | error e =>
    refine .error e (some (p.getD {})) [] [] fun waiting => ?_
    rw [Build.update, hchange, List.append_nil]
    rfl

/-- The paths of the second step go around those of the first. -/
theorem framed_bind {x : Build α} {f : α → Build β} {p : Option Provider} (hx : Framed x p)
    (hf : ∀ a q, Framed (f a) q) : Framed (x >>= f) p := by
  have bind_eq (d : Draft) : (x >>= f) d = EStateM.bind x f d := rfl
  cases hx with
  | error e q front back h =>
    refine .error e q front back fun waiting => ?_
    rw [bind_eq, EStateM.bind, h]
  | ok a q front back h =>
    have regroup (front' back' waiting : List String) :
        front' ++ (front ++ waiting ++ back) ++ back' =
          front' ++ front ++ waiting ++ (back ++ back') := by
      simp only [List.append_assoc]
    cases hf a q with
    | ok b r front' back' h' =>
      refine .ok b r (front' ++ front) (back ++ back') fun waiting => ?_
      rw [bind_eq, EStateM.bind, h]
      dsimp only
      rw [h', regroup]
    | error e r front' back' h' =>
      refine .error e r (front' ++ front) (back ++ back') fun waiting => ?_
      rw [bind_eq, EStateM.bind, h]
      dsimp only
      rw [h', regroup]

/-- **What waits changes nothing.** -/
theorem MadeOf.framed {x : Build α} (h : MadeOf allowed x) (p : Option Provider) : Framed x p := by
  induction h generalizing p with
  | pure a => exact framed_pure a p
  | throw e => exact framed_throw e p
  | update => exact framed_update _ p
  | event => exact framed_bind (framed_update _ p) fun _ q => framed_update _ q
  | enqueue front back => exact .ok () p front back fun _ => rfl
  | @aliasing _ f _ ih =>
    -- the aliases are those of the provider, so they are the same whatever waits
    have replaced (waiting : List String) :
        (get >>= fun d : Draft => f d.aliased) ⟨p, ⟨waiting⟩⟩ =
          f (Draft.aliased ⟨p, ⟨[]⟩⟩) ⟨p, ⟨waiting⟩⟩ := rfl
    cases ih (Draft.aliased ⟨p, ⟨[]⟩⟩) p with
    | ok a q front back hf =>
      exact .ok a q front back fun waiting => (replaced waiting).trans (hf waiting)
    | error e q front back hf =>
      exact .error e q front back fun waiting => (replaced waiting).trans (hf waiting)
  | bind _ _ ihx ihf => exact framed_bind (ihx p) fun a q => ihf a q

/-- A step that succeeds puts paths around what waits, and does the same whatever waits. -/
theorem MadeOf.frame_of_ok {x : Build α} (h : MadeOf allowed x) {d e : Draft} {a : α}
    (hx : x d = .ok a e) :
    ∃ front back, e.queue.pending = front ++ d.queue.pending ++ back ∧ ∀ waiting,
      x { d with queue := ⟨waiting⟩ } = .ok a { e with queue := ⟨front ++ waiting ++ back⟩ } := by
  cases h.framed d.provider with
  | ok b q front back hframe =>
    cases hx.symm.trans (hframe d.queue.pending)
    exact ⟨front, back, rfl, hframe⟩
  | error _ _ _ _ hframe => cases hx.symm.trans (hframe d.queue.pending)

end EventSchema
