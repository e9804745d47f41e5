import ZoneTables.Batch
import ZoneTables.Proofs.Source.Contents
import ZoneTables.Proofs.Timeline.Rollback

/-!
# What a batch does with one name

A batch checks the timeline of a name, mends it (`Settings.mended`) and puts it in its place
together with its table (`addName_eq`), and goes on with the next name (`addEach_cons`).
`Result.Puts` tells all that a step does to the result. The tables are read back at the end
(`process_of_compileAll`).
-/

namespace ZoneTables.Batch

open Replay

variable {s : Settings} {r q : Result} {name : String} {t u : Timeline} {names : List String}

/-! ## Rollbacks -/

/-- The timeline that the search for rollbacks leaves. -/
def Settings.mended (s : Settings) (t : Timeline) : Timeline :=
  { t with transitions := if s.fix then fixRollbacks t.transitions else t.transitions }

@[simp] theorem mended_mended (s : Settings) (t : Timeline) :
    s.mended (s.mended t) = s.mended t := by
  unfold Settings.mended
  split
  · rw [fixRollbacks_fixRollbacks]
  · rfl

/-- **The search for rollbacks leaves the mended timeline**, or breaks off at a number that is too
long. -/
theorem checkRollbacks_cases (s : Settings) (name : String) (t : Timeline) :
    checkRollbacks s name t = .error (.report .unwritable) ∨
      ∃ log remark, checkRollbacks s name t = .ok (log, remark, s.mended t) := by
  unfold checkRollbacks
  split
  · rename_i hlooks
    have hfix : s.fix = false := by
      simp only [Settings.looksForRollbacks, Bool.not_eq_true', Bool.or_eq_false_iff] at hlooks
      exact hlooks.2
    rw [Settings.mended, hfix]
    exact .inr ⟨_, _, rfl⟩
  · rcases findRollbacks_cases t.zone s.fix s.warn t.transitions with ⟨-, h⟩ | ⟨-, log, h⟩
    · rw [h]
      exact .inl rfl
    · rw [h]
      cases Rollbacks.ofList s.fix t.transitions with
      | none => exact .inr ⟨_, _, rfl⟩
      | found => exact .inr ⟨_, _, rfl⟩
      | fixed => exact .inr ⟨_, _, rfl⟩
      | remain => exact .inr ⟨_, _, rfl⟩

theorem eq_mended_of_checkRollbacks {log : Log} {remark : Option String}
    (h : checkRollbacks s name t = .ok (log, remark, u)) : u = s.mended t := by
  rcases checkRollbacks_cases s name t with herror | ⟨more, other, hok⟩
  · cases h.symm.trans herror
  · cases h.symm.trans hok
    rfl

/-! ## One name -/

/-- A result with a timeline in its place, and the remark about its rollbacks. -/
def Result.placed (r : Result) (name : String) (remark : Option String) (t : Timeline) : Result :=
  { r with
    timelines := r.timelines.put name t
    rollback := remark.elim r.rollback fun reason => r.rollback.add name reason }

/-- What a timeline that is put in its place makes of a result. -/
inductive Result.Puts (s : Settings) (r : Result) (name : String) (remark : Option String)
    (t : Timeline) : Result → Prop
  /-- The name gets a table that no other has. -/
  | own {table : List Char} : Table.encode s.fix t = .ok table →
      (∀ other, r.tables.get? other ≠ some (String.ofList table)) →
      Puts s r name remark t
        { r.placed name remark t with tables := r.tables.put name (String.ofList table) }
  /-- It shares the table of another. -/
  | shared {table : List Char} {first : String} : Table.encode s.fix t = .ok table →
      r.tables.get? first = some (String.ofList table) →
      Puts s r name remark t
        { r.placed name remark t with duplicates := r.duplicates.put name first }
  /-- It is removed. -/
  | removed {e : Table.EncodeError} : Table.encode s.fix t = .error e →
      Puts s r name remark t
        { r.placed name remark t with removed := r.removed.add name e.message }

theorem puts_putTimeline (s : Settings) (r : Result) (name : String) (remark : Option String)
    (t : Timeline) : r.Puts s name remark t (r.putTimeline s name remark t).2 := by
  unfold Result.putTimeline
  cases hencode : Table.encode s.fix t with
  | error e => exact .removed hencode
  | ok table =>
    dsimp only
    unfold Result.addTable
    split
    · rename_i first found hfound
      have htable : found = String.ofList table := by simpa using List.find?_some hfound
      have hmem := List.mem_of_find?_eq_some hfound
      rw [htable] at hmem
      exact .shared hencode ((Registry.mem_entries_iff _ _ _).1 hmem)
    · rename_i hnone
      refine .own hencode fun other hother => ?_
      have hdiffers := List.find?_eq_none.1 hnone _ ((Registry.mem_entries_iff _ _ _).2 hother)
      simp at hdiffers

theorem Result.Puts.timelines_eq {remark : Option String} (h : r.Puts s name remark t q) :
    q.timelines = r.timelines.put name t := by
  cases h with
  | own | shared | removed => rfl

/-- A result with what the oracles give reason to say about a name. -/
def Result.validated (r : Result) (name : String) (reasons : List String) : Result :=
  { r with validation := reasons.foldl (fun notes reason => notes.add name reason) r.validation }

/-- **A step puts the mended timeline in its place**, unless the search for rollbacks breaks off. -/
theorem addName_eq (s : Settings) (r : Result) (name : String) (t : Timeline)
    (reasons : List String) : r.addName s name t reasons =
      (checkRollbacks s name t).map fun found =>
        let put := (r.validated name reasons).putTimeline s name found.2.1 (s.mended t)
        (found.1 ++ put.1, put.2) := by
  unfold Result.addName
  cases h : checkRollbacks s name t with
  | error e => rfl
  | ok found =>
    obtain ⟨log, remark, u⟩ := found
    rw [← eq_mended_of_checkRollbacks h]
    rfl

theorem exists_of_addName {reasons : List String} {more : Log}
    (h : r.addName s name t reasons = .ok (more, q)) : ∃ validation remark,
      ({ r with validation } : Result).Puts s name remark (s.mended t) q := by
  rw [addName_eq] at h
  obtain ⟨found, -, hfound⟩ := Source.exists_of_map_eq_ok h
  obtain rfl := (Prod.mk.inj hfound).2
  exact ⟨_, _, puts_putTimeline ..⟩

/-! ## One name after the other -/

theorem addEach_cons : (addEach s r (name :: names)).2 =
    match r.timelines.get? name with
    | none => (addEach s r names).2
    | some t => (validate s name t).2.bind fun reasons =>
        (r.addName s name t reasons).bind fun step => (addEach s step.2 names).2 := by
  rw [addEach]
  cases r.timelines.get? name with
  | none => rfl
  | some t =>
    rcases hvalidate : validate s name t with ⟨log, e | reasons⟩
    · simp only [hvalidate]
      rfl
    · cases hadd : r.addName s name t reasons with
      | error e => simp only [hvalidate, hadd, Except.bind]
      | ok step => simp only [hvalidate, hadd, Except.bind]

theorem process_of_compileAll {db : Database} {p : CompileProgress}
    (hp : db.compileAll s.window .empty names = (p, none)) :
    (process s db names).2 =
      (addEach s (.start names db.size p) names).2.map fun r => (checkTables r).2 := by
  rw [process, hp]
  dsimp only
  rcases addEach s (.start names db.size p) names with ⟨log, e | r⟩
  · rfl
  · rfl

end ZoneTables.Batch
