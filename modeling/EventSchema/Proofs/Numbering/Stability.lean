import EventSchema.Proofs.Draft.Marks
import EventSchema.Proofs.Draft.Order
import EventSchema.Proofs.Numbering.Greedy

/-!
# Numbers that stay when they are pinned

Numbering a provider finds the same numbers again when some of those that were found are pinned
(`numbered_of_pinned`): what is taken out of the free numbers is what the pinned members had, and
the others follow in the same order (`Greedy.between`). Opcodes of tasks are pinned all or not at
all, because what is pinned in one task is no longer free in the others.
-/

namespace EventSchema.Numbering

/-! ## Greedy numbers -/

section

variable {names : List String} {number : String → Option UInt32} {lo hi : Nat}
  {excluded excluded' : List Nat}

/-- The names have the first of the free numbers. -/
theorem greedy_iff_isPrefix {free : List Nat} :
    Greedy names free number ↔
      names.map (fun name => (number name).map UInt32.toNat) <+: free.map some := by
  rw [List.prefix_iff_getElem?]
  constructor
  · intro h k hk
    rw [List.length_map] at hk
    obtain ⟨v, hv, hfree⟩ := h k _ (List.getElem?_eq_getElem hk)
    rw [List.getElem?_map, hfree, List.getElem_map, hv]
    rfl
  · intro h k name hname
    obtain ⟨hk, rfl⟩ := List.getElem?_eq_some_iff.1 hname
    have hfree := h k (by rwa [List.length_map])
    rw [List.getElem?_map, List.getElem_map, Option.map_eq_some_iff] at hfree
    obtain ⟨n, hn, heq⟩ := hfree
    obtain ⟨v, hv, rfl⟩ := Option.map_eq_some_iff.1 heq.symm
    exact ⟨v, hv, hn⟩

theorem Greedy.length_le {free : List Nat} (h : Greedy names free number) :
    names.length ≤ free.length := by
  simpa using (greedy_iff_isPrefix.1 h).length_le

/-- Names whose numbers are no longer free are left out, and the others have the first of those that
still are. -/
theorem Greedy.exclude (h : Greedy names (free lo hi excluded) number)
    (hexcluded : ∀ n ∈ excluded, n ∈ excluded') :
    Greedy (names.filter fun name => (number name).all fun v => v.toNat ∉ excluded')
      (free lo hi excluded') number := by
  have hfree : (free lo hi excluded).filter (· ∉ excluded') = free lo hi excluded' := by
    rw [free, List.filter_filter, free]
    refine List.filter_congr fun n _ => ?_
    rw [← Bool.decide_and, decide_eq_decide]
    exact and_iff_left_of_imp fun hn hmem => hn (hexcluded n hmem)
  have hprefix := (greedy_iff_isPrefix.1 h).filter fun x => x.all (· ∉ excluded')
  rw [List.filter_map, List.filter_map] at hprefix
  simp only [Function.comp_def, Option.all_map, Option.all_some] at hprefix
  rw [greedy_iff_isPrefix, ← hfree]
  exact hprefix

end

/-! ## One table -/

section

variable {α : Type} [Numbered α] {t u : Table String α} {number : String → Option UInt32}
  {lo hi : Nat} {excluded extra extra' : List Nat} {name : String} {v : UInt32}

theorem unnumbered_eq_filter (t : Table String α) :
    unnumbered t = t.keys.filter fun name => (numberIn t name).isNone := by
  rw [unnumbered_eq, vacant_eq, slots, Table.keys, List.filter_map, List.filter_map, List.map_map]
  refine congrArg (List.map _) (List.filter_congr fun e he => ?_)
  simp only [Function.comp_apply, numberIn, (t.mem_entries_iff e.1 e.2).1 he, Option.bind_some]

theorem mem_unnumbered_iff : name ∈ unnumbered t ↔ name ∈ t.keys ∧ numberIn t name = none := by
  rw [unnumbered_eq_filter, List.mem_filter, Option.isNone_iff_eq_none]

/-- Numbers for the members of a table: those that they have, and some for those that have none. -/
structure Completes (t : Table String α) (number : String → Option UInt32) : Prop where
  kept : ∀ name, Kept (numberIn t name) (number name)
  missing : ∀ name, name ∉ t.keys → number name = none

theorem numberIn_eq_none (h : name ∉ t.keys) : numberIn t name = none := by
  rw [numberIn, Option.bind_eq_none_iff]
  exact fun a ha => absurd (Table.mem_keys_iff.2 ⟨a, ha⟩) h

theorem completes_of_related {R : α → α → Prop} (h : Table.Related R t u)
    (hR : ∀ a b, R a b → Kept (Numbered.value a) (Numbered.value b)) :
    Completes t (numberIn u) where
  kept := kept_numberIn h.extends hR
  missing _ hname := numberIn_eq_none (h.keys_eq ▸ hname)

theorem completes_of_filled (h : Table.Related Filled t u) : Completes t (numberIn u) :=
  completes_of_related h fun _ _ => kept_value_of_filled

theorem Completes.before (h : Completes t number) (hnone : number name = none) :
    numberIn t name = none := by
  by_contra hsome
  obtain ⟨v, hv⟩ := Option.ne_none_iff_exists'.1 hsome
  rw [(h.kept name).eq_some hv] at hnone
  cases hnone

/-- A member has the number that it had, or else the free one at its place. -/
theorem Greedy.number_cases (h : Greedy (unnumbered t) (free lo hi excluded) number)
    (c : Completes t number) (hv : number name = some v) :
    numberIn t name = some v ∨ ∃ k : Nat, (unnumbered t)[k]? = some name ∧
      (free lo hi excluded)[k]? = some v.toNat := by
  cases hpinned : numberIn t name with
  | some w => exact .inl ((c.kept name).eq_some hpinned ▸ hv)
  | none =>
    have hname : name ∈ t.keys := by
      by_contra hmissing
      rw [c.missing name hmissing] at hv
      cases hv
    obtain ⟨k, hk⟩ := List.mem_iff_getElem?.1 (mem_unnumbered_iff.2 ⟨hname, hpinned⟩)
    obtain ⟨w, hw, hfree⟩ := h k name hk
    rw [hv] at hw
    cases hw
    exact .inr ⟨k, hk, hfree⟩

theorem Greedy.within_cases (h : Greedy (unnumbered t) (free lo hi excluded) number)
    (c : Completes t number) (hv : number name = some v) :
    numberIn t name = some v ∨ lo ≤ v.toNat ∧ v.toNat ≤ hi ∧ v.toNat ∉ excluded :=
  (h.number_cases c hv).imp_right fun ⟨_, _, hfree⟩ =>
    mem_free.1 (List.mem_of_getElem? hfree)

theorem free_nodup (lo hi : Nat) (excluded : List Nat) : (free lo hi excluded).Nodup :=
  (List.nodup_range' ..).filter _

/-- Members with the same number are the same, if those are that had a number before. -/
theorem Greedy.unique (h : Greedy (unnumbered t) (free lo hi excluded) number)
    (c : Completes t number) (distinct : Distinct t) (known : ∀ n ∈ numbersIn t, n ∈ excluded)
    (a b : String) (v : UInt32) (hva : number a = some v) (hvb : number b = some v) : a = b := by
  have apart {name : String} {k : Nat} (hpinned : numberIn t name = some v)
      (hfree : (free lo hi excluded)[k]? = some v.toNat) : False :=
    (mem_free.1 (List.mem_of_getElem? hfree)).2.2 (known _ (mem_numbersIn.2 ⟨name, v, hpinned, rfl⟩))
  rcases h.number_cases c hva with hpa | ⟨i, hia, hfi⟩
  · rcases h.number_cases c hvb with hpb | ⟨j, -, hfj⟩
    · exact distinct a b v hpa hpb
    · exact (apart hpa hfj).elim
  · rcases h.number_cases c hvb with hpb | ⟨j, hjb, hfj⟩
    · exact (apart hpb hfi).elim
    · have hlt := (List.getElem?_eq_some_iff.1 hfi).1
      obtain rfl : i = j := (List.getElem?_inj hlt (free_nodup _ _ _)).1 (hfi.trans hfj.symm)
      exact Option.some.inj (hia.symm.trans hjb)

/-- **Pinning some of the numbers that were found leaves the others what they are.** More numbers
may be excluded, as long as no member has one of them. -/
theorem Greedy.between (h : Greedy (unnumbered t) (free lo hi (numbersIn t ++ extra)) number)
    (keys : u.keys = t.keys) (htu : Completes t (numberIn u)) (c : Completes u number)
    (unique : ∀ a b v, number a = some v → number b = some v → a = b)
    (more : ∀ n ∈ extra, n ∈ extra')
    (apart : ∀ name v, number name = some v → v.toNat ∉ extra') :
    Greedy (unnumbered u) (free lo hi (numbersIn u ++ extra')) number := by
  have hexcluded : ∀ n ∈ numbersIn t ++ extra, n ∈ numbersIn u ++ extra' := by
    intro n hn
    refine (List.mem_append.1 hn).elim (fun hn => ?_) fun hn => List.mem_append_right _ (more n hn)
    obtain ⟨name, v, hv, rfl⟩ := mem_numbersIn.1 hn
    exact List.mem_append_left _ (mem_numbersIn.2 ⟨name, v, (htu.kept name).eq_some hv, rfl⟩)
  have hnames : unnumbered u = (unnumbered t).filter fun name =>
      (number name).all fun v => v.toNat ∉ numbersIn u ++ extra' := by
    rw [unnumbered_eq_filter, keys, unnumbered_eq_filter, List.filter_filter]
    refine List.filter_congr fun name _ => ?_
    cases hpinned : numberIn u name with
    | some v =>
      -- its number is pinned, so it is no longer free
      have hmem : v.toNat ∈ numbersIn u ++ extra' :=
        List.mem_append_left _ (mem_numbersIn.2 ⟨name, v, hpinned, rfl⟩)
      rw [(c.kept name).eq_some hpinned, Option.all_some, decide_eq_false (not_not_intro hmem)]
      rfl
    | none =>
      have hfree : (number name).all (fun v => v.toNat ∉ numbersIn u ++ extra') = true := by
        rw [Option.all_eq_true]
        intro v hv
        refine decide_eq_true fun hmem => ?_
        rcases List.mem_append.1 hmem with hmem | hmem
        · obtain ⟨other, w, hw, heq⟩ := mem_numbersIn.1 hmem
          obtain rfl := UInt32.toNat_inj.1 heq
          obtain rfl := unique name other w hv ((c.kept other).eq_some hw)
          rw [hpinned] at hw
          cases hw
        · exact apart name v hv hmem
      rw [hfree, htu.before hpinned]
      rfl
  rw [hnames]
  exact h.exclude hexcluded

theorem Greedy.pinned (h : Greedy (unnumbered t) (free lo hi (numbersIn t)) number)
    (keys : u.keys = t.keys) (htu : Completes t (numberIn u)) (c : Completes u number)
    (unique : ∀ a b v, number a = some v → number b = some v → a = b) :
    Greedy (unnumbered u) (free lo hi (numbersIn u)) number := by
  rw [← List.append_nil (numbersIn t)] at h
  rw [← List.append_nil (numbersIn u)]
  exact h.between keys htu c unique (fun _ => id) fun _ _ _ => List.not_mem_nil

/-- A table is supplied with the numbers that it was completed with greedily. -/
theorem numberIn_supplied_eq [LawfulNumbered α]
    (h : Greedy (unnumbered t) (free lo hi excluded) number) (c : Completes t number)
    (name : String) : numberIn (withAssigned t (supplied lo hi excluded t)) name = number name := by
  have hsupplied : Completes t (numberIn (withAssigned t (supplied lo hi excluded t))) :=
    completes_of_filled related_withAssigned
  by_cases hname : name ∈ t.keys
  · cases hpinned : numberIn t name with
    | some v => rw [(c.kept name).eq_some hpinned, (hsupplied.kept name).eq_some hpinned]
    | none =>
      obtain ⟨k, hk⟩ := List.mem_iff_getElem?.1 (mem_unnumbered_iff.2 ⟨hname, hpinned⟩)
      obtain ⟨v, hv, hfree⟩ := h k name hk
      rw [numberIn_supplied hk, List.getElem?_map, hfree, hv, Option.map_some, UInt32.ofNat_toNat]
  · rw [hsupplied.missing name hname, c.missing name hname]

/-- Members that became the same number are the same. -/
theorem eq_of_filled [LawfulNumbered α] {a b c : α} (hab : Filled a b) (hac : Filled a c)
    (hvalue : Numbered.value b = Numbered.value c) : b = c := by
  rcases hab with rfl | ⟨hnone, v, rfl⟩
  · rcases hac with rfl | ⟨hnone, w, rfl⟩
    · rfl
    · rw [hnone, LawfulNumbered.value_withValue] at hvalue
      cases hvalue
  · rcases hac with rfl | ⟨-, w, rfl⟩
    · rw [hnone, LawfulNumbered.value_withValue] at hvalue
      cases hvalue
    · rw [LawfulNumbered.value_withValue, LawfulNumbered.value_withValue] at hvalue
      cases hvalue
      rfl

/-- Tables that became the same numbers are the same. -/
theorem eq_of_related [LawfulNumbered α] {s : Table String α} (htu : Table.Related Filled t u)
    (hts : Table.Related Filled t s) (hnumber : ∀ name, numberIn u name = numberIn s name) :
    u = s := by
  refine Table.ext_find? fun name => ?_
  have hvalue := hnumber name
  have hu := htu name
  have hs := hts name
  unfold numberIn at hvalue
  generalize t.find? name = a, u.find? name = b, s.find? name = c at hvalue hu hs
  cases hu with
  | none =>
    cases hs
    rfl
  | some hab =>
    cases hs with
    | some hac => rw [eq_of_filled hab hac hvalue]

/-- **A table that was completed greedily is the one that is supplied.** -/
theorem withAssigned_eq [LawfulNumbered α] (h : Table.Related Filled t u)
    (greedy : Greedy (unnumbered t) (free lo hi excluded) (numberIn u)) :
    withAssigned t (supplied lo hi excluded t) = u :=
  eq_of_related related_withAssigned h (numberIn_supplied_eq greedy (completes_of_filled h))

end

/-! ## What was found for a provider -/

variable {p q r : Provider}

/-- Supplying the opcodes of tasks leaves the numbers of the tasks as they are. -/
theorem numberIn_tasks_supply (p : Provider) (name : String) :
    numberIn (supply p).tasks name = numberIn (tasksSupplied p) name := by
  rw [numberIn, numberIn, supply, Table.find?_mapKeyed]
  cases (tasksSupplied p).find? name <;> rfl

theorem greedilyNumbered_supply (needs : Numberable p) : GreedilyNumbered p (supply p) where
  tasks := by
    rw [funext (numberIn_tasks_supply p)]
    exact greedy_supplied (by decide)
      ((length_unnumbered_le_iff needs.tasksWithin needs.tasksDistinct).2 needs.tasksFit)
  opcodes := greedy_supplied (by decide) needs.opcodes.fit
  taskOpcodes task t ht := by
    rw [taskNumber_supply ht]
    exact greedy_supplied (by decide) (needs.taskOpcodes task t ht).fit
  events := greedy_supplied (by decide) needs.eventsFit

/-- The numbers of a provider are allowed and, where they have to be, apart. -/
structure Sound (r : Provider) : Prop where
  channelsWithin : Within 1 255 r.channels
  channelsDistinct : Distinct r.channels
  tasksWithin : Within 1 239 r.tasks
  tasksDistinct : Distinct r.tasks
  opcodesWithin : ∀ name v, numberIn r.opcodes name = some v →
    (10 ≤ v.toNat ∧ v.toNat ≤ 239) ∨ predefinedOpcode? name = some v
  opcodesDistinct : Distinct r.opcodes
  apart : ∀ task name v, taskNumber r task name = some v →
    ∀ other, numberIn r.opcodes other ≠ some v
  taskOpcodesWithin : ∀ task t, r.tasks.find? task = some t → Within 10 239 t.opcodes
  taskOpcodesDistinct : ∀ task t, r.tasks.find? task = some t → Distinct t.opcodes
  eventsDistinct : Distinct r.events

theorem taskNumber_of_find? {task : String} {t : Task} (h : r.tasks.find? task = some t)
    (name : String) : taskNumber r task name = numberIn t.opcodes name := by
  rw [taskNumber, h, Option.bind_some]

theorem GreedilyNumbered.opcodes_of_task (greedy : GreedilyNumbered p r) {task : String} {t u : Task}
    (ht : p.tasks.find? task = some t) (hu : r.tasks.find? task = some u) :
    Greedy (unnumbered t.opcodes) (free 10 239 (numbersIn r.opcodes ++ numbersInTasks p))
      (numberIn u.opcodes) := by
  have hgreedy := greedy.taskOpcodes task t ht
  rwa [funext (taskNumber_of_find? hu)] at hgreedy

theorem completes_tasks (h : ProviderFilled p r) : Completes p.tasks (numberIn r.tasks) :=
  completes_of_related h.tasks fun _ _ htu => htu.value

/-- What was found greedily for a provider, whose own numbers are allowed, is allowed. -/
theorem sound_of_greedilyNumbered (needs : Numberable p) (filled : ProviderFilled p r)
    (channels : r.channels = p.channels) (greedy : GreedilyNumbered p r) : Sound r where
  channelsWithin := channels ▸ needs.channelsWithin
  channelsDistinct := channels ▸ needs.channelsDistinct
  tasksWithin name v hv :=
    (greedy.tasks.within_cases (completes_tasks filled) hv).elim (needs.tasksWithin name v)
      fun hfree => ⟨hfree.1, hfree.2.1⟩
  tasksDistinct :=
    greedy.tasks.unique (completes_tasks filled) needs.tasksDistinct fun _ hn => hn
  opcodesWithin name v hv :=
    (greedy.opcodes.within_cases (completes_of_filled filled.opcodes) hv).elim
      (needs.opcodes.within name v) fun hfree => .inl ⟨hfree.1, hfree.2.1⟩
  opcodesDistinct :=
    greedy.opcodes.unique (completes_of_filled filled.opcodes) needs.opcodes.distinct
      fun _ hn => List.mem_append_left _ hn
  apart task name v hv other hother := by
    obtain ⟨u, hu, hv⟩ := Option.bind_eq_some_iff.1 hv
    obtain ⟨t, ht, htu⟩ := filled.tasks.of_right hu
    have hgreedy := greedy.opcodes_of_task ht hu
    rcases hgreedy.within_cases (completes_of_filled htu.opcodes) hv with hpinned | ⟨-, -, hfree⟩
    · have htask : taskNumber p task name = some v := (taskNumber_of_find? ht name).trans hpinned
      rcases greedy.opcodes.within_cases (completes_of_filled filled.opcodes) hother with
        hpinned' | ⟨-, -, hfree⟩
      · exact needs.opcodes.apart task name v htask other hpinned'
      · exact hfree (List.mem_append_right _ (mem_numbersInTasks.2 ⟨task, name, v, htask, rfl⟩))
    · exact hfree (List.mem_append_left _ (mem_numbersIn.2 ⟨other, v, hother, rfl⟩))
  taskOpcodesWithin task u hu name v hv := by
    obtain ⟨t, ht, htu⟩ := filled.tasks.of_right hu
    have hgreedy := greedy.opcodes_of_task ht hu
    exact (hgreedy.within_cases (completes_of_filled htu.opcodes) hv).elim
      ((needs.taskOpcodes task t ht).within name v) fun hfree => ⟨hfree.1, hfree.2.1⟩
  taskOpcodesDistinct task u hu := by
    obtain ⟨t, ht, htu⟩ := filled.tasks.of_right hu
    have hgreedy := greedy.opcodes_of_task ht hu
    refine hgreedy.unique (completes_of_filled htu.opcodes) (needs.taskOpcodes task t ht).distinct
      fun n hn => List.mem_append_right _ ?_
    exact List.mem_flatMap.2 ⟨t, Table.mem_values_iff.2 ⟨task, ht⟩, hn⟩
  eventsDistinct :=
    greedy.events.unique (completes_of_filled filled.events) needs.eventsDistinct fun _ hn => hn

/-! ## Pinning what was found -/

/-- A provider `q` in which some of the numbers that make `r` of `p` are pinned: any of the tasks, of
the provider's opcodes and of the events, and none or all of the opcodes of tasks. -/
structure PinnedBetween (p q r : Provider) : Prop where
  before : ProviderFilled p q
  after : ProviderFilled q r
  taskOpcodes : (∀ task name, taskNumber q task name = taskNumber p task name) ∨
    ∀ task name, taskNumber q task name = taskNumber r task name

theorem kept_taskNumber (h : ProviderFilled q r) (task name : String) :
    Kept (taskNumber q task name) (taskNumber r task name) := by
  cases ht : q.tasks.find? task with
  | none =>
    refine .inl ?_
    rw [taskNumber, ht]
    rfl
  | some t =>
    obtain ⟨u, hu, htu⟩ := h.tasks.of_left ht
    rw [taskNumber_of_find? ht, taskNumber_of_find? hu]
    exact (completes_of_filled htu.opcodes).kept name

/-- Numbers that become allowed ones are allowed. -/
theorem Sound.of_filled (sound : Sound r) (h : ProviderFilled q r) : Sound q := by
  have channels := (completes_of_filled h.channels).kept
  have tasks := (completes_tasks h).kept
  have opcodes := (completes_of_filled h.opcodes).kept
  have events := (completes_of_filled h.events).kept
  exact {
    channelsWithin := fun name v hv => sound.channelsWithin name v ((channels name).eq_some hv)
    channelsDistinct := fun a b v ha hb =>
      sound.channelsDistinct a b v ((channels a).eq_some ha) ((channels b).eq_some hb)
    tasksWithin := fun name v hv => sound.tasksWithin name v ((tasks name).eq_some hv)
    tasksDistinct := fun a b v ha hb =>
      sound.tasksDistinct a b v ((tasks a).eq_some ha) ((tasks b).eq_some hb)
    opcodesWithin := fun name v hv => sound.opcodesWithin name v ((opcodes name).eq_some hv)
    opcodesDistinct := fun a b v ha hb =>
      sound.opcodesDistinct a b v ((opcodes a).eq_some ha) ((opcodes b).eq_some hb)
    apart := fun task name v hv other hother =>
      sound.apart task name v ((kept_taskNumber h task name).eq_some hv) other
        ((opcodes other).eq_some hother)
    taskOpcodesWithin := fun task t ht name v hv => by
      obtain ⟨u, hu, htu⟩ := h.tasks.of_left ht
      exact sound.taskOpcodesWithin task u hu name v
        (((completes_of_filled htu.opcodes).kept name).eq_some hv)
    taskOpcodesDistinct := fun task t ht a b v ha hb => by
      obtain ⟨u, hu, htu⟩ := h.tasks.of_left ht
      have kept := (completes_of_filled htu.opcodes).kept
      exact sound.taskOpcodesDistinct task u hu a b v ((kept a).eq_some ha) ((kept b).eq_some hb)
    eventsDistinct := fun a b v ha hb =>
      sound.eventsDistinct a b v ((events a).eq_some ha) ((events b).eq_some hb) }

/-- Opcodes of tasks that have all been pinned leave none to be numbered. -/
theorem unnumbered_eq_nil {task : String} {t u : Task} (ht : p.tasks.find? task = some t)
    (hu : q.tasks.find? task = some u) (keys : u.opcodes.keys = t.opcodes.keys) {free : List Nat}
    (greedy : Greedy (unnumbered t.opcodes) free (taskNumber r task))
    (kept : ∀ name, Kept (taskNumber p task name) (taskNumber r task name))
    (pinned : ∀ name, taskNumber q task name = taskNumber r task name) :
    unnumbered u.opcodes = [] := by
  refine List.eq_nil_iff_forall_not_mem.2 fun name hname => ?_
  obtain ⟨hkey, hnone⟩ := mem_unnumbered_iff.1 hname
  rw [← taskNumber_of_find? hu, pinned] at hnone
  cases hbefore : taskNumber p task name with
  | some v =>
    rw [(kept name).eq_some hbefore] at hnone
    cases hnone
  | none =>
    rw [taskNumber_of_find? ht] at hbefore
    obtain ⟨k, hk⟩ := List.mem_iff_getElem?.1 (mem_unnumbered_iff.2 ⟨keys ▸ hkey, hbefore⟩)
    obtain ⟨v, hv, -⟩ := greedy k name hk
    rw [hnone] at hv
    cases hv

/-- **What was found greedily for a provider is found greedily when some of it is pinned.** -/
theorem GreedilyNumbered.between (greedy : GreedilyNumbered p r) (sound : Sound r)
    (h : PinnedBetween p q r) : GreedilyNumbered q r := by
  have kept : ∀ n ∈ numbersInTasks p, n ∈ numbersInTasks q := by
    intro n hn
    obtain ⟨task, name, v, hv, rfl⟩ := mem_numbersInTasks.1 hn
    exact mem_numbersInTasks.2 ⟨task, name, v, (kept_taskNumber h.before task name).eq_some hv, rfl⟩
  refine ⟨?_, ?_, fun task u hu => ?_, ?_⟩
  · exact greedy.tasks.pinned h.before.tasks.keys_eq (completes_tasks h.before)
      (completes_tasks h.after) sound.tasksDistinct
  · refine greedy.opcodes.between h.before.opcodes.keys_eq (completes_of_filled h.before.opcodes)
      (completes_of_filled h.after.opcodes) sound.opcodesDistinct kept fun other w hw hmem => ?_
    obtain ⟨task, name, v, hv, heq⟩ := mem_numbersInTasks.1 hmem
    refine sound.apart task name v ((kept_taskNumber h.after task name).eq_some hv) other ?_
    rw [hw, UInt32.toNat_inj.1 heq]
  · obtain ⟨t, ht, htu⟩ := h.before.tasks.of_right hu
    have hgreedy := greedy.taskOpcodes task t ht
    rcases h.taskOpcodes with hnone | hall
    · have hnames : unnumbered u.opcodes = unnumbered t.opcodes := by
        have hnumber : ∀ name, numberIn u.opcodes name = numberIn t.opcodes name := fun name => by
          rw [← taskNumber_of_find? hu, hnone, taskNumber_of_find? ht]
        simp only [unnumbered_eq_filter, htu.opcodes.keys_eq, hnumber]
      have hfree : free 10 239 (numbersIn r.opcodes ++ numbersInTasks q) =
          free 10 239 (numbersIn r.opcodes ++ numbersInTasks p) :=
        free_congr fun n _ => by simp only [List.mem_append, mem_numbersInTasks, hnone]
      rwa [hnames, hfree]
    · have hnil := unnumbered_eq_nil ht hu htu.opcodes.keys_eq hgreedy
        (kept_taskNumber (trans_of ProviderFilled h.before h.after) task) (hall task)
      rw [hnil]
      rintro k name ⟨⟩
  · exact greedy.events.pinned h.before.events.keys_eq (completes_of_filled h.before.events)
      (completes_of_filled h.after.events) sound.eventsDistinct

/-- **A provider that was completed greedily is the one that is supplied.** -/
theorem supply_eq (h : ProviderFilled q r) (channels : r.channels = q.channels)
    (greedy : GreedilyNumbered q r) : supply q = r := by
  have hsupplied : Table.Related Filled q.tasks (tasksSupplied q) := related_withAssigned
  have opcodes : opcodesSupplied q = r.opcodes := withAssigned_eq h.opcodes greedy.opcodes
  have events : eventsSupplied q = r.events := withAssigned_eq h.events greedy.events
  have tasks : (supply q).tasks = r.tasks := by
    refine Table.ext_find? fun task => ?_
    rw [supply, Table.find?_mapKeyed]
    cases ht : q.tasks.find? task with
    | none =>
      rw [hsupplied.of_missing ht, h.tasks.of_missing ht]
      rfl
    | some t =>
      obtain ⟨t', ht', hfilled⟩ := hsupplied.of_left ht
      obtain ⟨u, hu, htu⟩ := h.tasks.of_left ht
      have hgreedy := greedy.opcodes_of_task ht hu
      rw [← opcodes] at hgreedy
      have hopcodes := withAssigned_eq htu.opcodes hgreedy
      have hvalue : t'.value = u.value := by
        have hnumber := numberIn_supplied_eq greedy.tasks (completes_tasks h) task
        rw [numberIn, numberIn, hu, ← tasksSupplied, ht'] at hnumber
        exact hnumber
      have hname : t'.name = u.name := by
        rw [htu.name]
        rcases hfilled with rfl | ⟨-, v, rfl⟩ <;> rfl
      rw [ht', hu, Option.map_some, withOpcodesSupplied, opcodes_of_filled hfilled,
        excludedInTasks, hopcodes, hname, hvalue]
  rw [h.rest, channels, ← tasks, ← opcodes, ← events]
  rfl

theorem numberable_of_greedilyNumbered (h : ProviderFilled q r) (sound : Sound q)
    (fit : q.tasks.size ≤ 239) (greedy : GreedilyNumbered q r) : Numberable q where
  channelsWithin := sound.channelsWithin
  channelsDistinct := sound.channelsDistinct
  tasksWithin := sound.tasksWithin
  tasksDistinct := sound.tasksDistinct
  tasksFit := fit
  opcodes := ⟨sound.opcodesWithin, sound.opcodesDistinct, sound.apart, greedy.opcodes.length_le⟩
  taskOpcodes task t ht := by
    refine ⟨sound.taskOpcodesWithin task t ht, sound.taskOpcodesDistinct task t ht, ?_⟩
    rw [excludedInTasks, opcodesSupplied, withAssigned_eq h.opcodes greedy.opcodes]
    exact (greedy.taskOpcodes task t ht).length_le
  eventsDistinct := sound.eventsDistinct
  eventsFit := greedy.events.length_le

/-- **Numbers stay when they are pinned.** -/
theorem numbered_of_pinned {p r : Provider} (h : p.numbered = .ok r) :
    (∀ q, PinnedBetween p q r → q.numbered = .ok r) ∧ r.numbered = .ok r := by
  have filled := filled_of_numbered h
  obtain ⟨needs, hr⟩ := numbered_eq_ok_iff.1 h
  have channels : r.channels = p.channels := by rw [hr]; rfl
  have greedy : GreedilyNumbered p r := hr ▸ greedilyNumbered_supply needs
  have sound := sound_of_greedilyNumbered needs filled channels greedy
  have pinned : ∀ q, PinnedBetween p q r → q.numbered = .ok r := by
    intro q hq
    have hgreedy := greedy.between sound hq
    have hchannels : r.channels = q.channels := by
      have hpq := hq.before.channels.extends
      have hqr := hq.after.channels.extends
      rw [channels] at hqr ⊢
      exact hpq.antisymm hqr
    have hfit : q.tasks.size ≤ 239 := by
      have hkeys := congrArg List.length hq.before.tasks.keys_eq
      rw [Table.keys, Table.keys, List.length_map, List.length_map] at hkeys
      exact le_of_eq_of_le hkeys needs.tasksFit
    refine numbered_eq_ok_iff.2 ⟨?_, (supply_eq hq.after hchannels hgreedy).symm⟩
    exact numberable_of_greedilyNumbered hq.after (sound.of_filled hq.after) hfit hgreedy
  exact ⟨pinned, pinned r ⟨filled, refl_of ProviderFilled r, .inr fun _ _ => rfl⟩⟩

/-- With the tasks and their opcodes pinned, the other numbers stay. -/
theorem numbered_of_pinned_mixed :
    mixed.numbered = .ok mixedNumbered ∧
      PinnedBetween mixed { mixed with tasks := mixedNumbered.tasks } mixedNumbered ∧
      ({ mixed with tasks := mixedNumbered.tasks } : Provider).numbered = .ok mixedNumbered := by
  have h : mixed.numbered = .ok mixedNumbered := rfl
  have between : PinnedBetween mixed { mixed with tasks := mixedNumbered.tasks } mixedNumbered := {
    before := providerFilled_tasks (filled_of_numbered h).tasks
    after := filled_of_numbered rfl
    taskOpcodes := .inr fun _ _ => rfl }
  exact ⟨h, between, (numbered_of_pinned h).1 _ between⟩

end EventSchema.Numbering
