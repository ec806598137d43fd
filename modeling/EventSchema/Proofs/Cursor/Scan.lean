import EventSchema.Proofs.Cursor.Context
import EventSchema.Proofs.Source.ClauseEnd

/-!
# Scanning by position

The scan of a source text with a cursor, as loops: one to the end of a group, one to the next clause
and one through all clauses. The cursor may go through a character byte by byte, but a marker only
stands where a character starts, and a group ends with a whole one. So no scan panics, from
whatever position it starts (`exists_nextClause`), and all of them together find the clauses of the
text (`scan_eq`).
-/

namespace EventSchema.Source.Cursor

open Text.Utf8

variable {marker t u r body : Bytes} {b : UInt8} {i e d line start : Nat} {s : Skip}

/-! ## Lines -/

/-- The line of a position. Lines count from one. -/
def lineAt (t : Bytes) (i : Nat) : Checked Nat := do
  let before ← part t 0 (min i t.length)
  return newlines before + 1

theorem lineAt_eq (t : Bytes) (i : Nat) : lineAt t i = .ok (newlines (t.take i) + 1) := by
  have htake : t.take (min i t.length) = t.take i := by
    rw [← List.take_take, List.take_length]
  rw [lineAt, part, if_pos ⟨Nat.zero_le _, Nat.min_le_right _ _⟩, ok_bind, List.drop_zero, htake]
  rfl

/-- The line moves on by the newlines that the cursor passes. -/
theorem Ahead.line_append {a : Bytes} (h : Ahead t i (a ++ r))
    (hline : newlines (t.take i) + 1 = line) :
    newlines (t.take (i + a.length)) + 1 = line + newlines a := by
  rw [h.take, newlines, List.count_append, ← hline]
  exact Nat.add_right_comm ..

/-! ## Groups -/

structure GroupState where
  position : Nat
  depth : Nat

/-- Goes on behind the `)` that closes the first group of the clause at `start`. -/
def groupLoop (t : Bytes) (start : Nat) : Loop GroupState (Except ScanFault Nat) where
  bound := t.length
  position := GroupState.position
  turn s := do
    if s.position < t.length then
      match ← skip t s.position with
      | some (_, e) => return .again ⟨e, s.depth⟩
      | none =>
        let b ← byteAt t s.position
        if b = leftParen then return .again ⟨s.position + 1, s.depth + 1⟩
        else if b = rightParen then
          if s.depth = 0 then return .done (.error (.closeBeforeOpen (← lineAt t s.position)))
          else
            let depth ← decrease s.depth
            if depth = 0 then return .done (.ok (s.position + 1))
            else return .again ⟨s.position + 1, depth⟩
        else return .again ⟨s.position + 1, s.depth⟩
    else if s.depth = 0 then return .done (.error (.noGroup (← lineAt t start)))
    else return .done (.error (.unclosedGroup (← lineAt t start)))

/-- What a byte that starts no context does to the state of a group. -/
def groupByte (t : Bytes) (i d : Nat) (b : UInt8) : Turn GroupState (Except ScanFault Nat) :=
  if b = leftParen then .again ⟨i + 1, d + 1⟩
  else if b = rightParen then
    match d with
    | 0 => .done (.error (.closeBeforeOpen (newlines (t.take i) + 1)))
    | 1 => .done (.ok (i + 1))
    | n + 2 => .again ⟨i + 1, n + 1⟩
  else .again ⟨i + 1, d⟩

theorem groupLoop_end (h : ¬ i < t.length) : (groupLoop t start).turn ⟨i, d⟩ =
    .ok (.done (.error (if d = 0 then .noGroup (newlines (t.take start) + 1)
      else .unclosedGroup (newlines (t.take start) + 1)))) := by
  simp only [groupLoop, if_neg h, lineAt_eq, ok_bind, pure_eq_ok]
  split <;> rfl

theorem groupLoop_skip (h : Ahead t i u) (hs : skip? u = some s) :
    (groupLoop t start).turn ⟨i, d⟩ = .ok (.again ⟨i + s.text.length, d⟩) := by
  simp only [groupLoop, if_pos (h.lt_of_skip hs), h.skip_some hs, ok_bind, pure_eq_ok]

theorem groupLoop_byte (h : Ahead t i (b :: r)) (hs : skip? (b :: r) = none) :
    (groupLoop t start).turn ⟨i, d⟩ = .ok (groupByte t i d b) := by
  simp only [groupLoop, if_pos h.lt, h.skip_none hs, h.byteAt, lineAt_eq, ok_bind, pure_eq_ok,
    groupByte]
  split
  · rfl
  · split
    · cases d with
      | zero => rfl
      | succ d => cases d <;> rfl
    · rfl

theorem groupLoop_advances (t : Bytes) (start : Nat) : (groupLoop t start).Advances := by
  refine Loop.advances_of_ahead rfl (fun s hs => ⟨_, groupLoop_end hs⟩) ?_
  rintro ⟨i, d⟩ s' b r (h : Ahead t i (b :: r)) hturn
  cases hs : skip? (b :: r) with
  | some s =>
    rw [groupLoop_skip h hs] at hturn
    cases hturn
    exact Ahead.lt_behind i hs
  | none =>
    rw [groupLoop_byte h hs] at hturn
    unfold groupByte at hturn
    repeat' split at hturn
    all_goals cases hturn
    all_goals exact Nat.lt_succ_self i

/-- The position behind a group, from the text of the group. -/
theorem map_append_length {ε : Type} (x : Except ε (Bytes × Bytes)) (a : Bytes) (i : Nat) :
    (x.map fun r => (a ++ r.1, r.2)).map (fun r => i + r.1.length) =
      x.map fun r => i + a.length + r.1.length := by
  cases x with
  | error e => rfl
  | ok r =>
    change Except.ok (i + (a ++ r.1).length) = .ok (i + a.length + r.1.length)
    rw [List.length_append, Nat.add_assoc]

/-- **A group is closed at the position where its text ends.** -/
theorem run_groupLoop (h : Ahead t i u) (hline : newlines (t.take i) + 1 = line) :
    (groupLoop t start).run ⟨i, d⟩ =
      .ok ((closeGroup (newlines (t.take start) + 1) line d u).map fun r => i + r.1.length) := by
  have again {s s' : GroupState} (h : (groupLoop t start).turn s = .ok (.again s')) :=
    (groupLoop_advances t start).run_again h
  generalize hstart : newlines (t.take start) + 1 = startLine
  fun_induction closeGroup startLine line d u generalizing i with
  | case1 line d u s hs ih =>
    rw [again (groupLoop_skip h hs), map_append_length]
    exact ih (h.behind hs) (Ahead.line_append (skip?_append hs ▸ h) hline)
  | case2 line d hs =>
    rw [Loop.run_done (groupLoop_end h.not_lt), hstart]
    rfl
  | case3 line d rest hs ih =>
    have hturn : (groupLoop t start).turn ⟨i, d⟩ = .ok (.again ⟨i + 1, d + 1⟩) :=
      groupLoop_byte h hs
    rw [again hturn, ih h.cons (Ahead.line_append (a := [leftParen]) h hline)]
    exact congrArg Except.ok (map_append_length _ [leftParen] i).symm
  | case4 line rest hs =>
    have hturn : (groupLoop t start).turn ⟨i, 0⟩ =
        .ok (.done (.error (.closeBeforeOpen (newlines (t.take i) + 1)))) := groupLoop_byte h hs
    rw [Loop.run_done hturn, hline]
    rfl
  | case5 line rest hs =>
    have hturn : (groupLoop t start).turn ⟨i, 1⟩ = .ok (.done (.ok (i + 1))) :=
      groupLoop_byte h hs
    exact Loop.run_done hturn
  | case6 line rest n hs _ ih =>
    have hturn : (groupLoop t start).turn ⟨i, n + 2⟩ = .ok (.again ⟨i + 1, n + 1⟩) :=
      groupLoop_byte h hs
    rw [again hturn, ih h.cons (Ahead.line_append (a := [rightParen]) h hline)]
    exact congrArg Except.ok (map_append_length _ [rightParen] i).symm
  | case7 line d b rest hs hl hr ih =>
    have hturn : (groupLoop t start).turn ⟨i, d⟩ = .ok (.again ⟨i + 1, d⟩) := by
      rw [groupLoop_byte h hs]
      unfold groupByte
      rw [if_neg hl, if_neg hr]
    rw [again hturn, ih h.cons (Ahead.line_append (a := [b]) h hline)]
    exact congrArg Except.ok (map_append_length _ [b] i).symm

/-! ## Clauses -/

/-- Whether the marker stands at a position. -/
def startsAt (marker t : Bytes) (i : Nat) : Checked Bool :=
  if marker = [] then return false
  else return decide (marker <+: (← part t i t.length))

/-- The clause that starts at a position, and the position behind it. -/
def clauseAt (t : Bytes) (start : Nat) : Checked (Except ScanFault (Bytes × Nat)) := do
  match ← (groupLoop t start).run ⟨start, 0⟩ with
  | .error fault => return .error fault
  | .ok e => return .ok (← textPart t start e, e)

/-- Goes on behind the next clause, if there is one. -/
def clauseLoop (marker t : Bytes) : Loop Nat (Except ScanFault (Option (Bytes × Nat))) where
  bound := t.length
  position := id
  turn i := do
    if i < t.length then
      match ← skip t i with
      | some (_, e) => return .again e
      | none =>
        if ← startsAt marker t i then
          return .done ((← clauseAt t (i + marker.length)).map some)
        else return .again (i + 1)
    else return .done (.ok none)

/-- The next clause from a position on, and the position behind it. -/
def nextClause (marker t : Bytes) (i : Nat) : Checked (Except ScanFault (Option (Bytes × Nat))) :=
  (clauseLoop marker t).run i

theorem startsAt_eq (h : Ahead t i u) :
    startsAt marker t i = .ok (afterMarker? marker u).isSome := by
  rw [startsAt, afterMarker?]
  by_cases hmarker : marker = []
  · rw [if_pos hmarker, if_neg fun hm => hm.1 hmarker]
    rfl
  · rw [if_neg hmarker, h.part_all]
    by_cases hstarts : marker <+: u
    · rw [if_pos ⟨hmarker, hstarts⟩, ok_bind, decide_eq_true hstarts]
      rfl
    · rw [if_neg fun hm => hstarts hm.2, ok_bind, decide_eq_false hstarts]
      rfl

theorem clauseLoop_end (h : ¬ i < t.length) :
    (clauseLoop marker t).turn i = .ok (.done (.ok none)) := by
  simp only [clauseLoop, if_neg h, pure_eq_ok]

theorem clauseLoop_skip (h : Ahead t i u) (hs : skip? u = some s) :
    (clauseLoop marker t).turn i = .ok (.again (i + s.text.length)) := by
  simp only [clauseLoop, if_pos (h.lt_of_skip hs), h.skip_some hs, ok_bind, pure_eq_ok]

theorem clauseLoop_other (h : Ahead t i (b :: r)) (hs : skip? (b :: r) = none)
    (hm : afterMarker? marker (b :: r) = none) :
    (clauseLoop marker t).turn i = .ok (.again (i + 1)) := by
  simp only [clauseLoop, if_pos h.lt, h.skip_none hs, startsAt_eq h, hm, ok_bind, pure_eq_ok]
  rfl

theorem clauseLoop_marker (h : Ahead t i u) (hs : skip? u = none)
    (hm : afterMarker? marker u = some body) : (clauseLoop marker t).turn i =
      (clauseAt t (i + marker.length)).map fun r => .done (r.map some) := by
  have hi : i < t.length := by
    have hlength := h.length
    have hbody := afterMarker?_length_lt hm
    omega
  simp only [clauseLoop, if_pos hi, h.skip_none hs, startsAt_eq h, hm, ok_bind]
  rfl

theorem le_of_clauseAt {c : Bytes} (h : clauseAt t start = .ok (.ok (c, e))) : start ≤ e := by
  obtain ⟨r, -, hr⟩ := of_bind_ok h
  cases r with
  | error fault => cases hr
  | ok e' =>
    obtain ⟨c', hpart, heq⟩ := of_bind_ok hr
    cases heq
    exact le_of_textPart hpart

theorem clauseLoop_advances (marker t : Bytes) : (clauseLoop marker t).Advances := by
  refine Loop.advances_of_ahead rfl (fun i hi => ⟨_, clauseLoop_end hi⟩)
    fun i i' b r (h : Ahead t i (b :: r)) hturn => ?_
  cases hs : skip? (b :: r) with
  | some s =>
    rw [clauseLoop_skip h hs] at hturn
    cases hturn
    exact Ahead.lt_behind i hs
  | none =>
    cases hm : afterMarker? marker (b :: r) with
    | none =>
      rw [clauseLoop_other h hs hm] at hturn
      cases hturn
      exact Nat.lt_succ_self i
    | some body =>
      rw [clauseLoop_marker h hs hm] at hturn
      obtain ⟨r, -, hr⟩ := map_eq_ok hturn
      cases hr

/-- A turn that finds a clause starts before the end of the text, and gets further. -/
theorem clauseLoop_found {c : Bytes}
    (hturn : (clauseLoop marker t).turn i = .ok (.done (.ok (some (c, e))))) :
    i < e ∧ i < t.length := by
  rcases ahead_cases t i with hend | ⟨u, s, h, hs⟩ | ⟨b, r, h, hs⟩
  · rw [clauseLoop_end hend] at hturn
    cases hturn
  · rw [clauseLoop_skip h hs] at hturn
    cases hturn
  · cases hm : afterMarker? marker (b :: r) with
    | none =>
      rw [clauseLoop_other h hs hm] at hturn
      cases hturn
    | some body =>
      rw [clauseLoop_marker h hs hm] at hturn
      obtain ⟨found, hfound, heq⟩ := map_eq_ok hturn
      cases found with
      | error fault => cases heq
      | ok found =>
        cases heq
        have hmarker := List.length_pos_iff.2 (afterMarker?_eq_some hm).1
        have hstart := le_of_clauseAt hfound
        exact ⟨by omega, h.lt⟩

theorem nextClause_progress {c : Bytes} (h : nextClause marker t i = .ok (.ok (some (c, e)))) :
    i < e ∧ i < t.length := by
  obtain ⟨i', hle, hturn⟩ := Loop.exists_done h
  have hfound := clauseLoop_found hturn
  change i ≤ i' at hle
  omega

/-- What the next clause that is found says about all clauses of what is ahead. -/
def FoundNext (marker t : Bytes) (clauses : List Bytes × Option ScanFault) :
    Except ScanFault (Option (Bytes × Nat)) → Prop
  | .error fault => clauses = ([], some fault)
  | .ok none => clauses = ([], none)
  | .ok (some (c, e)) => ∃ rest, Ahead t e rest ∧
      clauses = (clausesFrom marker (newlines (t.take e) + 1) rest).map (c :: ·) id

/-- **A clause is a text**, and it is the one that is found after the marker. -/
theorem clauseAt_eq (h : Ahead t i u) (hu : WellFormed u)
    (hline : newlines (t.take i) + 1 = line) : clauseAt t i =
      .ok ((closeGroup line line 0 u).map fun r => (r.1, i + r.1.length)) := by
  rw [clauseAt, run_groupLoop h hline, hline, ok_bind]
  cases hclose : closeGroup line line 0 u with
  | error fault => rfl
  | ok r =>
    obtain ⟨-, hrest⟩ := wellFormed_of_closeGroup hclose hu
    rw [← closeGroup_append hclose] at h hu
    have hpart : textPart t i (i + r.1.length) = .ok r.1 := h.textPart hu hrest
    simp only [Except.map, hpart, ok_bind, pure_eq_ok]

theorem Ahead.behind_marker (h : Ahead t i u) (hm : afterMarker? marker u = some body) :
    Ahead t (i + marker.length) body :=
  append ((afterMarker?_eq_some hm).2 ▸ h)

/-- Where a marker stands, the turn reads the group behind it, and the loop ends. -/
theorem clauseLoop_group (hmarker : WellFormed marker) (ht : WellFormed t) (h : Ahead t i u)
    (hs : skip? u = none) (hm : afterMarker? marker u = some body)
    (hline : newlines (t.take (i + marker.length)) + 1 = start) : (clauseLoop marker t).turn i =
      .ok (.done ((closeGroup start start 0 body).map
        fun r => some (r.1, i + marker.length + r.1.length))) := by
  have hsplit : t.take i ++ u = t := by rw [← h.drop, List.take_append_drop]
  have hbody : WellFormed body := wellFormed_of_afterMarker hmarker (hsplit ▸ ht) hm
  rw [clauseLoop_marker h hs hm, clauseAt_eq (h.behind_marker hm) hbody hline]
  cases closeGroup start start 0 body <;> rfl

/-- **The next clause is found without a panic**, wherever the cursor stands. -/
theorem nextClause_ahead (hmarker : WellFormed marker) (ht : WellFormed t) (h : Ahead t i u)
    (hline : newlines (t.take i) + 1 = line) :
    ∃ r, nextClause marker t i = .ok r ∧ FoundNext marker t (clausesFrom marker line u) r := by
  have again {i i' : Nat} (h : (clauseLoop marker t).turn i = .ok (.again i')) :
      nextClause marker t i = nextClause marker t i' :=
    (clauseLoop_advances marker t).run_again h
  -- the line behind a marker
  have behind {i line : Nat} {u body : Bytes} (h : Ahead t i u)
      (hm : afterMarker? marker u = some body) (hline : newlines (t.take i) + 1 = line) :
      newlines (t.take (i + marker.length)) + 1 = line + newlines marker :=
    Ahead.line_append ((afterMarker?_eq_some hm).2 ▸ h) hline
  fun_induction clausesFrom marker line u generalizing i with
  | case1 line u s hs ih =>
    rw [again (clauseLoop_skip h hs)]
    exact ih (h.behind hs) (Ahead.line_append (skip?_append hs ▸ h) hline)
  | case2 line u hs body hm start fault =>
    rename_i hclose
    have hturn := clauseLoop_group hmarker ht h hs hm (behind h hm hline)
    rw [hclose] at hturn
    exact ⟨_, Loop.run_done hturn, rfl⟩
  | case3 line u hs body hm start clause rest hclose more =>
    have hturn := clauseLoop_group hmarker ht h hs hm (behind h hm hline)
    rw [hclose] at hturn
    have hgroup := closeGroup_append hclose
    have hrest := hgroup ▸ h.behind_marker hm
    refine ⟨_, Loop.run_done hturn, rest, hrest.append, ?_⟩
    rw [hrest.line_append (behind h hm hline)]
    rfl
  | case4 line hs hnone =>
    exact ⟨_, Loop.run_done (clauseLoop_end h.not_lt), rfl⟩
  | case5 line b rest hs hnone ih =>
    rw [again (clauseLoop_other h hs hnone)]
    exact ih h.cons (Ahead.line_append (a := [b]) h hline)

/-- **From no position does a search for a clause panic**, inside of a character or beyond the end
of the text. -/
theorem exists_nextClause (hmarker : WellFormed marker) (ht : WellFormed t) (i : Nat) :
    ∃ r, nextClause marker t i = .ok r := by
  by_cases hi : i < t.length
  · obtain ⟨b, r, h⟩ := exists_ahead hi
    obtain ⟨r, hr, -⟩ := nextClause_ahead hmarker ht h rfl
    exact ⟨r, hr⟩
  · exact ⟨_, Loop.run_done (clauseLoop_end hi)⟩

/-! ## All clauses -/

structure ScanState where
  position : Nat
  found : List Bytes

/-- A fault ends a scan, and so does the end of the text. -/
def scanNext (found : List Bytes) : Except ScanFault (Option (Bytes × Nat)) →
    Turn ScanState (List Bytes × Option ScanFault)
  | .error fault => .done (found, some fault)
  | .ok none => .done (found, none)
  | .ok (some (clause, e)) => .again ⟨e, found ++ [clause]⟩

/-- Goes from clause to clause. -/
def scanLoop (marker t : Bytes) : Loop ScanState (List Bytes × Option ScanFault) where
  bound := t.length
  position := ScanState.position
  turn s := do
    return scanNext s.found (← nextClause marker t s.position)

/-- The clauses of a text and the fault that ended the scan, if one did. -/
def scan (marker text : String) : Checked (List String × Option ScanFault) := do
  let (clauses, fault) ← (scanLoop (encode marker) (encode text)).run ⟨0, []⟩
  return (clauses.map decodeLossy, fault)

theorem scanLoop_next {next : Except ScanFault (Option (Bytes × Nat))}
    (h : nextClause marker t i = .ok next) (found : List Bytes) :
    (scanLoop marker t).turn ⟨i, found⟩ = .ok (scanNext found next) := by
  simp only [scanLoop, h, ok_bind, pure_eq_ok]

theorem scanLoop_advances (marker t : Bytes) : (scanLoop marker t).Advances := by
  intro s s' hturn
  obtain ⟨next, hnext, heq⟩ := of_bind_ok hturn
  rw [pure_eq_ok, Except.ok.injEq] at heq
  match next with
  | .error fault => cases heq
  | .ok none => cases heq
  | .ok (some (clause, e)) =>
    cases heq
    exact nextClause_progress hnext

theorem run_scanLoop (hmarker : WellFormed marker) (ht : WellFormed t) (h : Ahead t i u)
    (hline : newlines (t.take i) + 1 = line) (found : List Bytes) :
    (scanLoop marker t).run ⟨i, found⟩ =
      .ok ((clausesFrom marker line u).map (found ++ ·) id) := by
  induction hn : t.length - i using Nat.strongRecOn generalizing i u line found with
  | _ n ih =>
    obtain ⟨next, hnext, hfound⟩ := nextClause_ahead hmarker ht h hline
    have hturn := scanLoop_next hnext found
    match next with
    | .error fault =>
      rw [Loop.run_done hturn, show clausesFrom marker line u = ([], some fault) from hfound]
      simp
    | .ok none =>
      rw [Loop.run_done hturn, show clausesFrom marker line u = ([], none) from hfound]
      simp
    | .ok (some (clause, e)) =>
      obtain ⟨rest, hrest, hclauses⟩ := hfound
      have hprogress := nextClause_progress hnext
      rw [(scanLoop_advances marker t).run_again hturn,
        ih (t.length - e) (by omega) hrest rfl _ rfl, hclauses]
      simp [Prod.map]

/-- **A scan by position never panics**, and finds what a scan finds. -/
theorem scan_eq (marker text : String) : scan marker text = .ok (Source.scan marker text) := by
  rw [scan, run_scanLoop (wellFormed_encode marker) (wellFormed_encode text) (ahead_zero _) rfl]
  simp [Source.scan, newlines]

end EventSchema.Source.Cursor
