import EventSchema.Proofs.Numbering.Members
import EventSchema.Proofs.Run

/-!
# The passes over a provider

What each pass does to a provider:

* whether or not it fails, it only sets numbers that were missing (`numberAll_leads`);
* where it succeeds, its claim was possible, its filling had no fault, and it has stored exactly what
  the filling found (`numberTasks_eq_ok`, `numberOpcodes_eq_ok`, `numberTaskOpcodes_eq_ok`,
  `numberEvents_eq_ok`).
-/

namespace EventSchema.Numbering

/-! ## What passes leave alone -/

/-- What a task may become when numbers are set. -/
structure TaskFilled (t u : Task) : Prop where
  name : u.name = t.name
  value : Kept t.value u.value
  opcodes : Table.Related Filled t.opcodes u.opcodes

/-- What a provider may become when numbers are set: under the same keys the same members, with the
numbers that were there and perhaps with numbers where none were, and nothing else changed. -/
structure ProviderFilled (p q : Provider) : Prop where
  rest : q = { p with
    channels := q.channels, tasks := q.tasks, opcodes := q.opcodes, events := q.events }
  channels : Table.Related Filled p.channels q.channels
  tasks : Table.Related TaskFilled p.tasks q.tasks
  opcodes : Table.Related Filled p.opcodes q.opcodes
  events : Table.Related Filled p.events q.events

instance : IsPreorder Task TaskFilled where
  refl _ := ⟨rfl, refl_of Kept _, refl_of (Table.Related Filled) _⟩
  trans _ _ _ htu huv :=
    ⟨huv.name.trans htu.name, trans_of Kept htu.value huv.value,
      trans_of (Table.Related Filled) htu.opcodes huv.opcodes⟩

theorem taskFilled_of_filled {t u : Task} (h : Filled t u) : TaskFilled t u := by
  rcases h with rfl | ⟨hnone, v, rfl⟩
  · exact refl_of TaskFilled u
  · exact ⟨rfl, .inl hnone, refl_of (Table.Related Filled) _⟩

instance : IsPreorder Provider ProviderFilled where
  refl _ := ⟨rfl, refl_of (Table.Related Filled) _, refl_of (Table.Related TaskFilled) _,
    refl_of (Table.Related Filled) _, refl_of (Table.Related Filled) _⟩
  trans _ _ _ hpq hqr := by
    refine ⟨?_, trans_of (Table.Related Filled) hpq.channels hqr.channels,
      trans_of (Table.Related TaskFilled) hpq.tasks hqr.tasks,
      trans_of (Table.Related Filled) hpq.opcodes hqr.opcodes,
      trans_of (Table.Related Filled) hpq.events hqr.events⟩
    rw [hqr.rest, hpq.rest]

theorem providerFilled_tasks {p : Provider} {tasks : Table String Task}
    (h : Table.Related TaskFilled p.tasks tasks) : ProviderFilled p { p with tasks := tasks } :=
  { refl_of ProviderFilled p with rest := rfl, tasks := h }

theorem providerFilled_opcodes {p : Provider} {opcodes : Table String Opcode}
    (h : Table.Related Filled p.opcodes opcodes) : ProviderFilled p { p with opcodes := opcodes } :=
  { refl_of ProviderFilled p with rest := rfl, opcodes := h }

theorem providerFilled_events {p : Provider} {events : Table String Event}
    (h : Table.Related Filled p.events events) : ProviderFilled p { p with events := events } :=
  { refl_of ProviderFilled p with rest := rfl, events := h }

/-! ## Numbering the members of one space -/

section

variable {space : NumberSpace} {allowed : String → UInt32 → Bool} {taken : List Nat}
  {members : List (String × Option UInt32)} {store : List (String × UInt32) → Provider → Provider}

/-- The filling of a space after its pinned numbers have come into use. -/
def filling (space : NumberSpace) (taken : List Nat) (members : List (String × Option UInt32)) :
    Filling :=
  fill space (useAll (pins members) taken) members

theorem finish_eq_ok {f : Filling} {used : List Nat} {p q : Provider} :
    finish f p = .ok used q ↔ f.fault? = none ∧ used = f.used ∧ q = p := by
  rw [finish]
  cases f.fault? with
  | none =>
    constructor
    · rintro ⟨⟩
      exact ⟨rfl, rfl, rfl⟩
    · rintro ⟨-, rfl, rfl⟩
      rfl
  | some fault =>
    constructor
    · rintro ⟨⟩
    · rintro ⟨⟨⟩, -⟩

theorem claimPinned_eq_ok {used : List Nat} {p q : Provider} :
    claimPinned space allowed taken members p = .ok used q ↔
      Claimable allowed taken members ∧ used = useAll (pins members) taken ∧ q = p := by
  rw [claimPinned]
  cases hc : claim space allowed taken members with
  | ok used' =>
    obtain ⟨hclaim, rfl⟩ := claim_eq_ok_iff.1 hc
    constructor
    · rintro ⟨⟩
      exact ⟨hclaim, rfl, rfl⟩
    · rintro ⟨-, rfl, rfl⟩
      rfl
  | error fault =>
    constructor
    · rintro ⟨⟩
    · rintro ⟨hclaim, -⟩
      rw [claim_eq_ok_iff.2 ⟨hclaim, rfl⟩] at hc
      cases hc

theorem numberMembers_eq_ok {used : List Nat} {p q : Provider} :
    numberMembers space allowed taken members store p = .ok used q ↔
      Claimable allowed taken members ∧ (filling space taken members).fault? = none ∧
        used = (filling space taken members).used ∧
        q = store (filling space taken members).assigned p := by
  rw [numberMembers, bind_eq_ok]
  constructor
  · rintro ⟨_, _, hpinned, hfill⟩
    obtain ⟨hclaim, rfl, rfl⟩ := claimPinned_eq_ok.1 hpinned
    obtain ⟨_, _, hmodify, hfinish⟩ := bind_eq_ok.1 hfill
    cases hmodify
    exact ⟨hclaim, finish_eq_ok.1 hfinish⟩
  · rintro ⟨hclaim, hfinish⟩
    refine ⟨_, _, claimPinned_eq_ok.2 ⟨hclaim, rfl, rfl⟩, bind_eq_ok.2 ⟨_, _, rfl, ?_⟩⟩
    exact finish_eq_ok.2 hfinish

theorem finish_leads {R : Provider → Provider → Prop} [IsPreorder Provider R] (f : Filling) :
    Leads R (finish f) := by
  unfold finish
  cases f.fault? with
  | none => exact leads_pure _
  | some fault => exact leads_throw fault

theorem claimPinned_leads {R : Provider → Provider → Prop} [IsPreorder Provider R] :
    Leads R (claimPinned space allowed taken members) := by
  unfold claimPinned
  cases claim space allowed taken members with
  | ok used => exact leads_pure _
  | error fault => exact leads_throw fault

/-- The only change is what is stored. -/
theorem numberMembers_leads
    (hstore : ∀ assigned p, ProviderFilled p (store assigned p)) :
    Leads ProviderFilled (numberMembers space allowed taken members store) := by
  refine leads_bind claimPinned_leads fun used => ?_
  refine leads_bind (fun p => ?_) fun _ => finish_leads _
  exact hstore _ p

end

/-! ## The opcodes of tasks -/

/-- The number of an opcode of a task. -/
def taskNumber (p : Provider) (task name : String) : Option UInt32 :=
  (p.tasks.find? task).bind fun t => numberIn t.opcodes name

/-- The filling of the opcodes of one task. -/
def taskFilling (taken : List Nat) (name : String) (t : Task) : Filling :=
  fill (.taskOpcodes name) ((useAll (pins (slots t.opcodes)) []).foldr use taken) (slots t.opcodes)

/-- The pinned numbers of a task's opcodes are in range and differ from each other. -/
def TaskClaimable (name : String) (t : Task) : Prop :=
  Claimable (fun _ v => inRange (.taskOpcodes name) v) [] (slots t.opcodes)

/-- A task with its opcodes numbered. -/
def withOpcodesNumbered (taken : List Nat) (name : String) (t : Task) : Task :=
  { t with opcodes := withAssigned t.opcodes (taskFilling taken name t).assigned }

theorem numberOpcodesOf_eq_ok {taken : List Nat} {name : String} {t : Task} {p q : Provider} :
    numberOpcodesOf taken name t p = .ok () q ↔
      TaskClaimable name t ∧ (taskFilling taken name t).fault? = none ∧
        q = { p with tasks := p.tasks.modify name fun u =>
          { u with opcodes := withAssigned u.opcodes (taskFilling taken name t).assigned } } := by
  rw [numberOpcodesOf, bind_eq_ok]
  constructor
  · rintro ⟨_, _, hpinned, hfill⟩
    obtain ⟨hclaim, rfl, rfl⟩ := claimPinned_eq_ok.1 hpinned
    obtain ⟨_, _, hmodify, hfinish⟩ := bind_eq_ok.1 hfill
    cases hmodify
    obtain ⟨used, hfinish⟩ := discard_eq_ok.1 hfinish
    obtain ⟨hfault, -, hq⟩ := finish_eq_ok.1 hfinish
    exact ⟨hclaim, hfault, hq⟩
  · rintro ⟨hclaim, hfault, hq⟩
    refine ⟨_, _, claimPinned_eq_ok.2 ⟨hclaim, rfl, rfl⟩, bind_eq_ok.2 ⟨_, _, rfl, ?_⟩⟩
    exact discard_eq_ok.2 ⟨_, finish_eq_ok.2 ⟨hfault, rfl, hq⟩⟩

theorem numberOpcodesOf_leads (taken : List Nat) (name : String) (t : Task) :
    Leads ProviderFilled (numberOpcodesOf taken name t) := by
  refine leads_bind claimPinned_leads fun pinned => ?_
  refine leads_bind (fun p => ?_) fun _ =>
    leads_map _ (finish_leads _)
  refine providerFilled_tasks (Table.related_modify fun u _ => ?_)
  exact ⟨rfl, refl_of Kept _, related_withAssigned⟩

/-- The tasks with the opcodes of those among some names numbered. -/
def withTasksNumbered (taken : List Nat) (names : List String) (tasks : Table String Task) :
    Table String Task :=
  tasks.mapKeyed fun name t => if name ∈ names then withOpcodesNumbered taken name t else t

/-- Numbering the opcodes of several tasks, which are as they were when the pass began: each step
changes its own task only. -/
theorem forM_numberOpcodesOf_eq_ok {taken : List Nat} {l : List (String × Task)} {p q : Provider}
    (nodup : (l.map (·.1)).Nodup) (current : ∀ e ∈ l, p.tasks.find? e.1 = some e.2) :
    (l.forM fun e => numberOpcodesOf taken e.1 e.2) p = .ok () q ↔
      (∀ e ∈ l, TaskClaimable e.1 e.2 ∧ (taskFilling taken e.1 e.2).fault? = none) ∧
        q = { p with tasks := withTasksNumbered taken (l.map (·.1)) p.tasks } := by
  induction l generalizing p with
  | nil =>
    have hid : withTasksNumbered taken [] p.tasks = p.tasks := by
      refine Table.ext_find? fun k => ?_
      rw [withTasksNumbered, Table.find?_mapKeyed]
      simp
    change EStateM.Result.ok () p = _ ↔ _
    simp only [List.map_nil, hid]
    constructor
    · rintro ⟨⟩
      exact ⟨by simp, rfl⟩
    · rintro ⟨-, rfl⟩
      rfl
  | cons e rest ih =>
    obtain ⟨name, t⟩ := e
    obtain ⟨hnot, hrest⟩ := List.nodup_cons.1 nodup
    have ht : p.tasks.find? name = some t := current (name, t) List.mem_cons_self
    -- the step for `name` leaves the other tasks as the rest of the list has them
    have hcurrent : ∀ e ∈ rest, (p.tasks.modify name fun u => { u with
        opcodes := withAssigned u.opcodes (taskFilling taken name t).assigned }).find? e.1 =
          some e.2 := by
      intro e he
      have hne : e.1 ≠ name := fun heq => hnot (List.mem_map.2 ⟨e, he, heq⟩)
      rw [Table.find?_modify, if_neg hne]
      exact current e (List.mem_cons_of_mem _ he)
    have hboth : withTasksNumbered taken (rest.map (·.1)) (p.tasks.modify name fun u => { u with
        opcodes := withAssigned u.opcodes (taskFilling taken name t).assigned }) =
          withTasksNumbered taken (name :: rest.map (·.1)) p.tasks := by
      refine Table.ext_find? fun k => ?_
      rw [withTasksNumbered, withTasksNumbered, Table.find?_mapKeyed, Table.find?_mapKeyed,
        Table.find?_modify]
      by_cases hk : k = name
      · subst hk
        have hnot' : k ∉ rest.map (·.1) := hnot
        simp only [if_true, ht, Option.map_some, List.mem_cons, true_or, if_neg hnot']
        rfl
      · rw [if_neg hk]
        refine congrArg (Option.map · (p.tasks.find? k)) (funext fun u => ?_)
        simp only [List.mem_cons, hk, false_or]
    change (numberOpcodesOf taken name t >>= fun _ => rest.forM _) p = _ ↔ _
    rw [bind_eq_ok]
    constructor
    · rintro ⟨_, _, hstep, hloop⟩
      obtain ⟨hclaim, hfault, rfl⟩ := numberOpcodesOf_eq_ok.1 hstep
      obtain ⟨hall, hq⟩ := (ih hrest hcurrent).1 hloop
      refine ⟨List.forall_mem_cons.2 ⟨⟨hclaim, hfault⟩, hall⟩, ?_⟩
      rw [hq, List.map_cons, ← hboth]
    · rintro ⟨hall, hq⟩
      obtain ⟨⟨hclaim, hfault⟩, hall⟩ := List.forall_mem_cons.1 hall
      refine ⟨(), _, numberOpcodesOf_eq_ok.2 ⟨hclaim, hfault, rfl⟩, (ih hrest hcurrent).2 ⟨hall, ?_⟩⟩
      rw [hq, List.map_cons, ← hboth]

/-! ## The passes in turn -/

theorem checkChannels_eq_ok {p q : Provider} :
    checkChannels p = .ok () q ↔
      Claimable (fun _ v => inRange .channels v) [] (slots p.channels) ∧ q = p := by
  change (discard (claimPinned _ _ _ (slots p.channels)) : Pass Unit) p = _ ↔ _
  rw [discard_eq_ok]
  constructor
  · rintro ⟨_, h⟩
    obtain ⟨hclaim, -, hq⟩ := claimPinned_eq_ok.1 h
    exact ⟨hclaim, hq⟩
  · rintro ⟨hclaim, hq⟩
    exact ⟨_, claimPinned_eq_ok.2 ⟨hclaim, rfl, hq⟩⟩

theorem numberTasks_eq_ok {p q : Provider} :
    numberTasks p = .ok () q ↔
      Claimable (fun _ v => inRange .tasks v) [] (slots p.tasks) ∧
        (filling .tasks [] (slots p.tasks)).fault? = none ∧
        q = { p with tasks := withAssigned p.tasks (filling .tasks [] (slots p.tasks)).assigned } := by
  change (discard (numberMembers _ _ _ (slots p.tasks) _) : Pass Unit) p = _ ↔ _
  rw [discard_eq_ok]
  constructor
  · rintro ⟨_, h⟩
    obtain ⟨hclaim, hfault, -, hq⟩ := numberMembers_eq_ok.1 h
    exact ⟨hclaim, hfault, hq⟩
  · rintro ⟨hclaim, hfault, hq⟩
    exact ⟨_, numberMembers_eq_ok.2 ⟨hclaim, hfault, rfl, hq⟩⟩

theorem numberOpcodes_apply (p : Provider) :
    numberOpcodes p = numberMembers .opcodes opcodeAllowed (pinnedOnTasks p) (slots p.opcodes)
      (fun assigned p => { p with opcodes := withAssigned p.opcodes assigned }) p := rfl

theorem numberOpcodes_eq_ok {p q : Provider} {taken : List Nat} :
    numberOpcodes p = .ok taken q ↔
      Claimable opcodeAllowed (pinnedOnTasks p) (slots p.opcodes) ∧
        (filling .opcodes (pinnedOnTasks p) (slots p.opcodes)).fault? = none ∧
        taken = (filling .opcodes (pinnedOnTasks p) (slots p.opcodes)).used ∧
        q = { p with
          opcodes := withAssigned p.opcodes
            (filling .opcodes (pinnedOnTasks p) (slots p.opcodes)).assigned } := by
  rw [numberOpcodes_apply]
  exact numberMembers_eq_ok

theorem numberTaskOpcodes_eq_ok {p q : Provider} {taken : List Nat} :
    numberTaskOpcodes taken p = .ok () q ↔
      (∀ name t, p.tasks.find? name = some t →
        TaskClaimable name t ∧ (taskFilling taken name t).fault? = none) ∧
        q = { p with tasks := p.tasks.mapKeyed (withOpcodesNumbered taken) } := by
  have hall : withTasksNumbered taken (p.tasks.entries.map (·.1)) p.tasks =
      p.tasks.mapKeyed (withOpcodesNumbered taken) := by
    refine Table.ext_find? fun k => ?_
    rw [withTasksNumbered, Table.find?_mapKeyed, Table.find?_mapKeyed]
    cases hk : p.tasks.find? k with
    | none => rfl
    | some t =>
      have hmem : k ∈ p.tasks.entries.map (·.1) := Table.mem_keys_iff.2 ⟨t, hk⟩
      rw [Option.map_some, if_pos hmem, Option.map_some]
  change (p.tasks.entries.forM fun e => numberOpcodesOf taken e.1 e.2) p = _ ↔ _
  rw [forM_numberOpcodesOf_eq_ok p.tasks.keys_nodup
    fun e he => (p.tasks.mem_entries_iff e.1 e.2).1 he, hall]
  refine and_congr_left' ⟨fun h name t ht => ?_, fun h e he => ?_⟩
  · exact h (name, t) ((p.tasks.mem_entries_iff name t).2 ht)
  · exact h e.1 e.2 ((p.tasks.mem_entries_iff e.1 e.2).1 he)

theorem numberEvents_eq_ok {p q : Provider} :
    numberEvents p = .ok () q ↔
      Claimable (fun _ _ => true) [] (slots p.events) ∧
        (filling .events [] (slots p.events)).fault? = none ∧
        q = { p with
          events := withAssigned p.events (filling .events [] (slots p.events)).assigned } := by
  change (discard (numberMembers _ _ _ (slots p.events) _) : Pass Unit) p = _ ↔ _
  rw [discard_eq_ok]
  constructor
  · rintro ⟨_, h⟩
    obtain ⟨hclaim, hfault, -, hq⟩ := numberMembers_eq_ok.1 h
    exact ⟨hclaim, hfault, hq⟩
  · rintro ⟨hclaim, hfault, hq⟩
    exact ⟨_, numberMembers_eq_ok.2 ⟨hclaim, hfault, rfl, hq⟩⟩

theorem numberAll_eq_ok {p r : Provider} :
    numberAll p = .ok () r ↔
      ∃ p₁ p₂ p₃ taken, checkChannels p = .ok () p ∧ numberTasks p = .ok () p₁ ∧
        numberOpcodes p₁ = .ok taken p₂ ∧ numberTaskOpcodes taken p₂ = .ok () p₃ ∧
        numberEvents p₃ = .ok () r := by
  rw [numberAll, bind_eq_ok]
  constructor
  · rintro ⟨_, _, hchannels, h⟩
    obtain ⟨_, p₁, htasks, h⟩ := bind_eq_ok.1 h
    obtain ⟨taken, p₂, hopcodes, h⟩ := bind_eq_ok.1 h
    obtain ⟨_, p₃, htaskOpcodes, hevents⟩ := bind_eq_ok.1 h
    obtain ⟨hclaim, rfl⟩ := checkChannels_eq_ok.1 hchannels
    exact ⟨p₁, p₂, p₃, taken, checkChannels_eq_ok.2 ⟨hclaim, rfl⟩, htasks, hopcodes, htaskOpcodes,
      hevents⟩
  · rintro ⟨p₁, p₂, p₃, taken, hchannels, htasks, hopcodes, htaskOpcodes, hevents⟩
    refine ⟨(), p, hchannels, bind_eq_ok.2 ⟨(), p₁, htasks, bind_eq_ok.2 ⟨taken, p₂, hopcodes, ?_⟩⟩⟩
    exact bind_eq_ok.2 ⟨(), p₃, htaskOpcodes, hevents⟩

/-- **Numbers are only added.** This holds also of what a pass has done before it fails. -/
theorem numberAll_leads : Leads ProviderFilled numberAll := by
  have hchannels : Leads ProviderFilled checkChannels := fun p =>
    leads_map _ claimPinned_leads p
  have htasks : Leads ProviderFilled numberTasks := fun p =>
    leads_map _ (numberMembers_leads fun assigned p => providerFilled_tasks <|
      related_withAssigned.imp fun _ _ => taskFilled_of_filled) p
  have hopcodes : Leads ProviderFilled numberOpcodes := fun p => by
    rw [stateAfter, numberOpcodes_apply]
    exact numberMembers_leads (fun assigned p => providerFilled_opcodes related_withAssigned) p
  have htaskOpcodes : ∀ taken, Leads ProviderFilled (numberTaskOpcodes taken) := fun taken p =>
    leads_forM
      (fun e _ => numberOpcodesOf_leads taken e.1 e.2) p
  have hevents : Leads ProviderFilled numberEvents := fun p =>
    leads_map _ (numberMembers_leads fun assigned p => providerFilled_events related_withAssigned) p
  refine leads_bind hchannels fun _ => ?_
  refine leads_bind htasks fun _ => ?_
  refine leads_bind hopcodes fun taken => ?_
  exact leads_bind (htaskOpcodes taken) fun _ => hevents

end EventSchema.Numbering
