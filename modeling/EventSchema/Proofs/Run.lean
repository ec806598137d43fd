import Mathlib.Order.Defs.Unbundled

/-!
# Steps that keep their state when they fail

A step leaves a state behind whether it succeeds or fails. `Leads R` says that it is always related
to the state before. For a reflexive and transitive `R` this passes from parts to wholes
(`leads_bind`, `leads_forM`), so a property of a whole program is proved at its single changes.
-/

namespace EventSchema

variable {ε σ α β : Type}

/-- The state that a step leaves behind. -/
def stateAfter (x : EStateM ε σ α) (s : σ) : σ :=
  match x s with
  | .ok _ t => t
  | .error _ t => t

theorem stateAfter_of_ok {x : EStateM ε σ α} {s t : σ} {a : α} (h : x s = .ok a t) :
    stateAfter x s = t := by
  rw [stateAfter, h]

theorem stateAfter_bind_of_ok {x : EStateM ε σ α} {f : α → EStateM ε σ β} {s t : σ} {a : α}
    (h : x s = .ok a t) : stateAfter (x >>= f) s = stateAfter (f a) t := by
  change stateAfter (EStateM.bind x f) s = _
  unfold stateAfter EStateM.bind
  rw [h]

/-- Every state that a step leaves behind is related to the one before. -/
def Leads (R : σ → σ → Prop) (x : EStateM ε σ α) : Prop := ∀ s, R s (stateAfter x s)

section

variable {R : σ → σ → Prop} [IsPreorder σ R]

theorem leads_pure (a : α) : Leads R (pure a : EStateM ε σ α) := refl_of R

theorem leads_throw (e : ε) : Leads R (throw e : EStateM ε σ α) := refl_of R

theorem leads_get : Leads R (get : EStateM ε σ σ) := refl_of R

/-- A sequence of two steps leads where its first step fails, or else where its second ends. -/
theorem leads_bind_of_ok {x : EStateM ε σ α} {f : α → EStateM ε σ β} (hx : Leads R x)
    (hf : ∀ s a t, x s = .ok a t → R t (stateAfter (f a) t)) : Leads R (x >>= f) := by
  intro s
  have hs := hx s
  change R s (stateAfter (EStateM.bind x f) s)
  unfold stateAfter EStateM.bind at *
  cases hr : x s with
  | ok a t =>
    rw [hr] at hs
    exact trans_of R hs (hf s a t hr)
  | error e t =>
    rw [hr] at hs
    exact hs

theorem leads_bind {x : EStateM ε σ α} {f : α → EStateM ε σ β} (hx : Leads R x)
    (hf : ∀ a, Leads R (f a)) : Leads R (x >>= f) :=
  leads_bind_of_ok hx fun _ a t _ => hf a t

omit [IsPreorder σ R] in
theorem leads_map {x : EStateM ε σ α} (f : α → β) (hx : Leads R x) : Leads R (f <$> x) := by
  intro s
  have hs := hx s
  change R s (stateAfter (EStateM.map f x) s)
  unfold stateAfter EStateM.map at *
  cases hr : x s <;> rw [hr] at hs <;> exact hs

theorem leads_forM {l : List α} {f : α → EStateM ε σ PUnit} (hf : ∀ a ∈ l, Leads R (f a)) :
    Leads R (l.forM f) := by
  induction l with
  | nil => exact leads_pure _
  | cons a rest ih =>
    change Leads R (f a >>= fun _ => rest.forM f)
    exact leads_bind (hf a List.mem_cons_self)
      fun _ => ih fun b hb => hf b (List.mem_cons_of_mem _ hb)

end

/-! ## Sequences that succeed and sequences that fail -/

/-- A sequence succeeds when both of its steps do. -/
theorem bind_eq_ok {x : EStateM ε σ α} {f : α → EStateM ε σ β} {s u : σ} {b : β} :
    (x >>= f) s = .ok b u ↔ ∃ a t, x s = .ok a t ∧ f a t = .ok b u := by
  change EStateM.bind x f s = _ ↔ _
  unfold EStateM.bind
  cases hx : x s with
  | ok a t =>
    constructor
    · intro h
      exact ⟨a, t, rfl, h⟩
    · rintro ⟨a', t', h, hf⟩
      cases h
      exact hf
  | error e t => simp

/-- A sequence fails in its first step or in its second. -/
theorem bind_eq_error {x : EStateM ε σ α} {f : α → EStateM ε σ β} {s u : σ} {e : ε} :
    (x >>= f) s = .error e u ↔ x s = .error e u ∨ ∃ a t, x s = .ok a t ∧ f a t = .error e u := by
  change EStateM.bind x f s = _ ↔ _
  unfold EStateM.bind
  cases hx : x s with
  | ok a t =>
    constructor
    · intro h
      exact .inr ⟨a, t, rfl, h⟩
    · rintro (h | ⟨a', t', h, hf⟩)
      · cases h
      · cases h
        exact hf
  | error e' t => simp

/-- Steps over a list fail in the first step that fails, and those after it are not taken. -/
theorem forM_eq_error {l : List α} {f : α → EStateM ε σ PUnit} {s u : σ} {e : ε} :
    l.forM f s = .error e u ↔ ∃ before a after t, l = before ++ a :: after ∧
      before.forM f s = .ok () t ∧ f a t = .error e u := by
  induction l generalizing s with
  | nil =>
    constructor
    · intro h
      cases h
    · rintro ⟨before, a, after, t, h, -⟩
      exact absurd h.symm (List.append_ne_nil_of_right_ne_nil _ (List.cons_ne_nil a after))
  | cons b rest ih =>
    change (f b >>= fun _ => rest.forM f) s = _ ↔ _
    rw [bind_eq_error]
    constructor
    · rintro (h | ⟨⟨⟩, t, hb, h⟩)
      · exact ⟨[], b, rest, s, rfl, rfl, h⟩
      · obtain ⟨before, a, after, t', rfl, hbefore, ha⟩ := ih.1 h
        exact ⟨b :: before, a, after, t', rfl, bind_eq_ok.2 ⟨(), t, hb, hbefore⟩, ha⟩
    · rintro ⟨before, a, after, t, h, hbefore, ha⟩
      cases before with
      | nil =>
        cases h
        cases hbefore
        exact .inl ha
      | cons b' before =>
        cases h
        obtain ⟨⟨⟩, t', hb, hbefore⟩ := bind_eq_ok.1 hbefore
        exact .inr ⟨(), t', hb, ih.2 ⟨before, a, after, t, rfl, hbefore, ha⟩⟩

theorem discard_eq_ok {x : EStateM ε σ α} {s t : σ} :
    (discard x : EStateM ε σ Unit) s = .ok () t ↔ ∃ a, x s = .ok a t := by
  change EStateM.map (fun _ => ()) x s = _ ↔ _
  unfold EStateM.map
  cases hx : x s <;> simp

theorem discard_eq_error {x : EStateM ε σ α} {s t : σ} {e : ε} :
    (discard x : EStateM ε σ Unit) s = .error e t ↔ x s = .error e t := by
  change EStateM.map (fun _ => ()) x s = _ ↔ _
  unfold EStateM.map
  cases hx : x s <;> simp

/-- Whether a step succeeds, in a state with a decidable property. -/
instance decidableExistsOkState {P : σ → Prop} [DecidablePred P] (r : EStateM.Result ε σ Unit) :
    Decidable (∃ s, r = .ok () s ∧ P s) :=
  match r with
  | .ok () s => decidable_of_iff (P s) ⟨fun hs => ⟨s, rfl, hs⟩, fun ⟨_, heq, hs⟩ => by
      cases heq
      exact hs⟩
  | .error _ _ => isFalse fun ⟨_, heq, _⟩ => nomatch heq

/-! ## Values that stay -/

/-- A value that was there stays. -/
def Kept (a b : Option α) : Prop := a = none ∨ b = a

instance : IsPreorder (Option α) Kept where
  refl _ := .inr rfl
  trans a b c hab hbc := by
    rcases hab with ha | rfl
    · exact .inl ha
    · exact hbc

end EventSchema
