import EventSchema.Files.Tree

/-!
# Programs on a tree

A program that works on a tree and says something meanwhile ends with a value and a tree (`Ends`),
which are those of its steps (`ends_bind`). What is said does not matter for either.
-/

namespace EventSchema

open FileTree (fileSystem)

variable {m : Type → Type} [Monad m] [LawfulMonad m] {α β : Type}

/-! ## Runs on a tree -/

/-- A program on a tree ends with a value and a tree, whatever it says meanwhile. -/
def Ends (x : StateT FileTree m α) (t : FileTree) (a : α) (t' : FileTree) : Prop :=
  ∃ said : m Unit, x.run t = (fun _ => (a, t')) <$> said

section

variable {t t' t'' : FileTree} {a : α} {b : β}

theorem ends_of_run_eq {x : StateT FileTree m α} (h : x.run t = pure (a, t')) : Ends x t a t' :=
  ⟨pure (), by rw [h, map_pure]⟩

/-- Where nothing can be said, a program is its end. -/
theorem run_of_ends {x : StateT FileTree Id α} (h : Ends x t a t') : x.run t = (a, t') := by
  obtain ⟨said, hsaid⟩ := h
  exact hsaid

theorem ends_pure (a : α) (t : FileTree) : Ends (pure a : StateT FileTree m α) t a t :=
  ends_of_run_eq rfl

theorem ends_bind {x : StateT FileTree m α} {f : α → StateT FileTree m β} (hx : Ends x t a t')
    (hf : Ends (f a) t' b t'') : Ends (x >>= f) t b t'' := by
  obtain ⟨said, hsaid⟩ := hx
  obtain ⟨more, hmore⟩ := hf
  refine ⟨said >>= fun _ => more, ?_⟩
  rw [StateT.run_bind, hsaid, bind_map_left]
  simp [hmore]

/-- What is only said leaves the tree alone. -/
theorem ends_lift (said : m Unit) (t : FileTree) :
    Ends (StateT.lift said : StateT FileTree m Unit) t () t :=
  ⟨said, bind_pure_comp _ _⟩

/-- Something may be said first. -/
theorem ends_after_said {c : Prop} [Decidable c] {x : StateT FileTree m Unit}
    {y : StateT FileTree m α} (hx : Ends x t () t) (hy : Ends y t a t') :
    Ends (if c then x >>= fun _ => y else y) t a t' := by
  split
  · exact ends_bind hx hy
  · exact hy

theorem ends_read (path : String) (t : FileTree) :
    Ends (m := m) (fileSystem.read path) t (t.read path) t :=
  ends_of_run_eq (FileTree.fileSystem_read path t)

theorem ends_isDirectory (path : String) (t : FileTree) :
    Ends (m := m) (fileSystem.isDirectory path) t (t.isDirectory path) t :=
  ends_of_run_eq (FileTree.fileSystem_isDirectory path t)

theorem ends_hasEntry (path : String) (t : FileTree) :
    Ends (m := m) (fileSystem.hasEntry path) t (t.hasEntry path) t :=
  ends_of_run_eq (FileTree.fileSystem_hasEntry path t)

theorem ends_makeDirectories (path : String) (t : FileTree) :
    Ends (m := m) (fileSystem.makeDirectories path) t (t.makeDirectories path).2
      (t.makeDirectories path).1 :=
  ends_of_run_eq rfl

theorem ends_write (path : String) (contents : Bytes) (t : FileTree) :
    Ends (m := m) (fileSystem.write path contents) t (t.write path contents).2
      (t.write path contents).1 :=
  ends_of_run_eq rfl

/-! ## Steps that may fail -/

theorem ends_throw (line : String) (t : FileTree) :
    Ends (throw line : ExceptT String (StateT FileTree m) α).run t (.error line) t :=
  ends_pure _ t

theorem ends_bind_ok {x : ExceptT String (StateT FileTree m) α}
    {f : α → ExceptT String (StateT FileTree m) β} {r : Except String β}
    (hx : Ends x.run t (.ok a) t') (hf : Ends (f a).run t' r t'') : Ends (x >>= f).run t r t'' :=
  ends_bind hx hf

theorem ends_bind_error {x : ExceptT String (StateT FileTree m) α}
    {f : α → ExceptT String (StateT FileTree m) β} {line : String}
    (hx : Ends x.run t (.error line) t') : Ends (x >>= f).run t (.error line) t' :=
  ends_bind hx (ends_pure _ t')

theorem ends_liftM {x : StateT FileTree m α} (hx : Ends x t a t') :
    Ends (liftM x : ExceptT String (StateT FileTree m) α).run t (.ok a) t' := by
  change Ends (Except.ok <$> x) t (.ok a) t'
  rw [← bind_pure_comp]
  exact ends_bind hx (ends_pure _ t')

end

end EventSchema
