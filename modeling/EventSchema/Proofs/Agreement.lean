import EventSchema.Proofs.Run
import Mathlib.Data.List.Forall2

/-!
# Steps that agree

Two steps agree on the states of a kind if they do the same in each of them, with the same result
and the same state afterwards, also where they fail. Where the steps of one sequence keep their
states of the kind, two sequences agree that agree step by step (`agreeOn_bind`, `agreeOn_forM`).
-/

namespace EventSchema

variable {ε σ α β : Type} {P : σ → Prop}

/-- States after which it is still of a kind what was of the kind before. -/
def Keeping (P : σ → Prop) (s t : σ) : Prop := P s → P t

instance : IsPreorder σ (Keeping P) where
  refl _ := id
  trans _ _ _ hst htu := htu ∘ hst

/-- Steps that do the same in every state of a kind. -/
def AgreeOn (P : σ → Prop) (x y : EStateM ε σ α) : Prop := ∀ s, P s → x s = y s

theorem agreeOn_bind {x y : EStateM ε σ α} {f g : α → EStateM ε σ β} (hxy : AgreeOn P x y)
    (keep : Leads (Keeping P) y) (hfg : ∀ a, AgreeOn P (f a) (g a)) :
    AgreeOn P (x >>= f) (y >>= g) := by
  intro s hs
  have hkeep := keep s hs
  change EStateM.bind x f s = EStateM.bind y g s
  unfold stateAfter at hkeep
  unfold EStateM.bind
  rw [hxy s hs]
  cases hy : y s with
  | ok a t =>
    rw [hy] at hkeep
    exact hfg a t hkeep
  | error e t => rfl

/-- Sequences over two lists agree if their steps do at each place. -/
theorem agreeOn_forM {f : α → EStateM ε σ PUnit} {g : β → EStateM ε σ PUnit} {as : List α}
    {bs : List β} (h : List.Forall₂ (fun a b => AgreeOn P (f a) (g b)) as bs)
    (keep : ∀ b, Leads (Keeping P) (g b)) : AgreeOn P (as.forM f) (bs.forM g) := by
  induction h with
  | nil => exact fun _ _ => rfl
  | cons hab _ ih => exact agreeOn_bind hab (keep _) fun _ => ih

/-- Sequences that agree may be followed by steps that agree. -/
theorem agreeOn_forM_bind {f : α → EStateM ε σ PUnit} {g : β → EStateM ε σ PUnit} {as : List α}
    {bs : List β} {x y : EStateM ε σ PUnit}
    (h : List.Forall₂ (fun a b => AgreeOn P (f a) (g b)) as bs)
    (keep : ∀ b, Leads (Keeping P) (g b)) (hxy : AgreeOn P x y) :
    AgreeOn P (as.forM f >>= fun _ => x) (bs.forM g >>= fun _ => y) :=
  agreeOn_bind (agreeOn_forM h keep) (leads_forM fun b _ => keep b) fun _ => hxy

/-- Steps over the items of a list agree with steps over what is made of them. -/
theorem forall₂_map_agreeOn {γ : Type} {f : γ → EStateM ε σ PUnit} {g : β → EStateM ε σ PUnit}
    {bs : List β} (c : β → γ) (h : ∀ b ∈ bs, AgreeOn P (f (c b)) (g b)) :
    List.Forall₂ (fun a b => AgreeOn P (f a) (g b)) (bs.map c) bs :=
  List.forall₂_map_left_iff.2 (List.forall₂_same.2 h)

end EventSchema
