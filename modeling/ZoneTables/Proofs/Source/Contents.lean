import ZoneTables.Database
import ZoneTables.Proofs.Text.Pieces

/-!
# What a database holds

Every zone line and every rule of a database was read from a line of a source. What holds of all
that `Line.read` returns therefore holds throughout the database (`holds_of_ofSources`). The first
such fact is that formats and letters are words (`Line.holds_isWord`).
-/

namespace ZoneTables

open Text

/-- All zone lines satisfy `P` and all rules `Q`. -/
structure Database.Holds (P : ZoneLine → Prop) (Q : Rule → Prop) (db : Database) : Prop where
  zones : ∀ name lines, db.zones.get? name = some lines → ∀ line ∈ lines, P line
  ruleSets : ∀ name rules, db.ruleSets.get? name = some rules → ∀ rule ∈ rules, Q rule

instance {P : ZoneLine → Prop} {Q : Rule → Prop} [DecidablePred P] [DecidablePred Q]
    (db : Database) : Decidable (db.Holds P Q) :=
  decidable_of_iff
    ((∀ name ∈ db.zones.names, ∀ lines ∈ db.zones.get? name, ∀ line ∈ lines, P line) ∧
      ∀ name ∈ db.ruleSets.names, ∀ rules ∈ db.ruleSets.get? name, ∀ rule ∈ rules, Q rule)
    ⟨fun h => ⟨fun name lines hlines =>
          h.1 name ((Registry.mem_names_iff _ _).2 (by simp [hlines])) lines hlines,
        fun name rules hrules =>
          h.2 name ((Registry.mem_names_iff _ _).2 (by simp [hrules])) rules hrules⟩,
      fun h => ⟨fun name _ => h.zones name, fun name _ => h.ruleSets name⟩⟩

/-- What holds of a fixed amount of daylight saving, if a line has one. -/
instance (p : Int → Prop) [DecidablePred p] (l : ZoneLine) :
    Decidable (∀ amount, l.saving = .fixed amount → p amount) :=
  match h : l.saving with
  | .fixed amount => decidable_of_iff (p amount) (by simp)
  | .ruled _ => isTrue (by simp)

/-- The fields that the month, the day and the letters of a rule are read from. -/
structure Rule.IsReadFrom (fields : List (List Char)) (r : Rule) : Prop where
  month : ∃ w ∈ fields, Source.readMonth w = .ok r.month
  on : ∃ w ∈ fields, Source.readDay w = .ok r.on
  letters : r.letters = "" ∨ ∃ w ∈ fields, r.letters = String.ofList w

namespace Source

variable {P : ZoneLine → Prop} {Q : Rule → Prop}

/-- The zone line of a source line satisfies `P`, and its rule `Q`. -/
def Line.Holds (P : ZoneLine → Prop) (Q : Rule → Prop) : Line → Prop
  | .rule r => Q r
  | .link _ _ => True
  | .zone _ l | .continuation l => P l

/-- All zone lines read so far satisfy `P`, those of the open zone among them, and all rules
`Q`. -/
structure Progress.Holds (P : ZoneLine → Prop) (Q : Rule → Prop) (p : Progress) : Prop where
  zones : ∀ name lines, p.zones.get? name = some lines → ∀ line ∈ lines, P line
  ruleSets : ∀ name rules, p.ruleSets.get? name = some rules → ∀ rule ∈ rules, Q rule
  pending : ∀ name lines, p.pending = some (name, lines) → ∀ line ∈ lines, P line

namespace Progress

theorem holds_start : Progress.start.Holds P Q where
  zones := by simp [start]
  ruleSets := by simp [start]
  pending := by simp [start]

variable {p q : Progress}

theorem Holds.addZoneLine (h : p.Holds P Q) {name : String} {lines : List ZoneLine}
    {line : ZoneLine} (hlines : ∀ l ∈ lines, P l) (hline : P line) :
    (p.addZoneLine name lines line).Holds P Q := by
  have hall : ∀ l ∈ lines ++ [line], P l := by
    intro l hl
    rcases List.mem_append.1 hl with hl | hl
    · exact hlines l hl
    · rwa [List.mem_singleton.1 hl]
  unfold Progress.addZoneLine
  split
  · refine ⟨?_, h.ruleSets, by simp⟩
    intro other ls hls
    simp only [Registry.get?_put] at hls
    split at hls
    · rw [← Option.some.inj hls]
      exact hall
    · exact h.zones other ls hls
  · refine ⟨h.zones, h.ruleSets, ?_⟩
    intro other ls hls
    obtain ⟨rfl, rfl⟩ := Prod.mk.inj (Option.some.inj hls)
    exact hall

/-- **A line that is added brings in nothing but itself.** -/
theorem Holds.add (h : p.Holds P Q) {line : Line} (hline : line.Holds P Q)
    (hadd : p.add line = .ok q) : q.Holds P Q := by
  cases line with
  | rule rule =>
    cases hadd
    refine ⟨h.zones, ?_, h.pending⟩
    intro name rules hrules
    simp only [Registry.update, Registry.get?_put] at hrules
    split at hrules
    · rw [← Option.some.inj hrules]
      intro r hr
      rcases List.mem_append.1 hr with hr | hr
      · cases hold : p.ruleSets.get? rule.name with
        | none => simp [hold] at hr
        | some old => exact h.ruleSets _ old hold r (by simpa [hold] using hr)
      · rwa [List.mem_singleton.1 hr]
    · exact h.ruleSets name rules hrules
  | link target name =>
    cases hadd
    exact ⟨h.zones, h.ruleSets, h.pending⟩
  | zone name line =>
    simp only [Progress.add] at hadd
    split at hadd
    · cases hadd
    · cases hadd
      exact h.addZoneLine (by simp) hline
  | continuation line =>
    simp only [Progress.add] at hadd
    split at hadd
    · rename_i name lines hpending
      cases hadd
      exact h.addZoneLine (h.pending name lines hpending) hline
    · cases hadd

end Progress

/-! ## Reading sources -/

/-- A reader that goes on after a step has taken that step. -/
theorem exists_of_bind_eq_ok {ε α β : Type} {x : Except ε α} {f : α → Except ε β} {b : β}
    (h : (x >>= f) = .ok b) : ∃ a, x = .ok a ∧ f a = .ok b := by
  cases x with
  | error e => cases h
  | ok a => exact ⟨a, rfl, h⟩

theorem exists_of_map_eq_ok {ε α β : Type} {x : Except ε α} {f : α → β} {b : β}
    (h : x.map f = .ok b) : ∃ a, x = .ok a ∧ f a = b := by
  cases x with
  | error e => cases h
  | ok a => exact ⟨a, rfl, Except.ok.inj h⟩

variable {toMinutes : Bool} {p q : Progress}

theorem Progress.Holds.readLines
    (hread : ∀ cs line, Line.read toMinutes cs = .ok line → line.Holds P Q) {source : String}
    {numbered : List (Nat × List Char)} {last : Nat} (h : p.Holds P Q)
    (hlines : readLines toMinutes source p last numbered = .ok q) : q.Holds P Q := by
  induction numbered generalizing p last with
  | nil =>
    simp only [Source.readLines] at hlines
    split at hlines
    · cases hlines
    · cases hlines
      exact h
  | cons entry rest ih =>
    obtain ⟨number, cs⟩ := entry
    simp only [Source.readLines, readNumbered] at hlines
    cases hcs : Line.read toMinutes cs with
    | error e => simp [hcs] at hlines
    | ok line =>
      cases hadd : p.add line with
      | error e => simp [hcs, hadd] at hlines
      | ok r =>
        simp only [hcs, hadd] at hlines
        exact ih (h.add (hread cs line hcs) hadd) hlines

theorem Progress.Holds.readSources {options : Options} {sources : Registry String}
    (hread : ∀ cs line, Line.read options.toMinutes cs = .ok line → line.Holds P Q)
    {names : List String} (h : p.Holds P Q)
    (hsources : readSources options sources p names = .ok q) : q.Holds P Q := by
  induction names generalizing p with
  | nil =>
    cases hsources
    exact h
  | cons name names ih =>
    simp only [Source.readSources] at hsources
    split at hsources
    · cases hsources
    · split at hsources
      · rename_i r hr
        exact ih (h.readLines hread hr) hsources
      · cases hsources

/-- **What holds of every line that can be read holds of a database.** -/
theorem holds_of_ofSources {options : Options} {sources : Registry String}
    {names : Option (List String)} {log : Log} {db : Database}
    (hread : ∀ cs line, Line.read options.toMinutes cs = .ok line → line.Holds P Q)
    (h : Database.ofSources options sources names = (log, .ok db)) : db.Holds P Q := by
  simp only [Database.ofSources] at h
  split at h
  · simp at h
  · rename_i p hp
    have hholds := Progress.holds_start.readSources hread hp
    obtain ⟨aliases, -, rfl⟩ := exists_of_map_eq_ok (Prod.mk.inj h).2
    exact ⟨hholds.zones, hholds.ruleSets⟩

/-! ## Fields -/

theorem format_of_readZoneLine {cs : List Char} {fields : List (List Char)} {l : ZoneLine}
    (h : readZoneLine toMinutes cs fields = .ok l) : ∃ w ∈ fields, l.format = String.ofList w := by
  unfold readZoneLine at h
  split at h
  · rename_i offset saving format rest
    obtain ⟨stdoff, -, h⟩ := exists_of_bind_eq_ok h
    obtain ⟨amount, -, h⟩ := exists_of_bind_eq_ok h
    dsimp only at h
    split at h
    all_goals
      obtain ⟨⟨ending, clock⟩, -, h⟩ := exists_of_bind_eq_ok h
      cases h
      exact ⟨format, by simp, rfl⟩
  · cases h

theorem eq_ok_of_liftM {α : Type} {x : Except FieldError α} {a : α}
    (h : (liftM x : Except LineError α) = .ok a) : x = .ok a := by
  cases x with
  | error e => cases h
  | ok b => exact congrArg Except.ok (Except.ok.inj h)

theorem isReadFrom_of_readRule {cs : List Char} {fields : List (List Char)} {r : Rule}
    (h : readRule toMinutes cs fields = .ok r) : r.IsReadFrom fields := by
  unfold readRule at h
  split at h
  · rename_i name first last sign month day time save rest
    dsimp only at h
    split at h
    · cases h
    obtain ⟨fromYear, -, h⟩ := exists_of_bind_eq_ok h
    obtain ⟨toYear, -, h⟩ := exists_of_bind_eq_ok h
    split at h
    · cases h
    obtain ⟨inMonth, hmonth, h⟩ := exists_of_bind_eq_ok h
    obtain ⟨on, hon, h⟩ := exists_of_bind_eq_ok h
    obtain ⟨⟨time, suffix⟩, -, h⟩ := exists_of_bind_eq_ok h
    obtain ⟨seconds, -, h⟩ := exists_of_bind_eq_ok h
    obtain ⟨save, -, h⟩ := exists_of_bind_eq_ok h
    cases h
    refine ⟨⟨month, by simp, ?_⟩, ⟨day, by simp, ?_⟩, ?_⟩
    · exact eq_ok_of_liftM hmonth
    · exact eq_ok_of_liftM hon
    · dsimp only
      split
      · exact Or.inl rfl
      · rename_i hletters
        cases rest with
        | nil => exact absurd rfl hletters
        | cons w ws => exact Or.inr ⟨w, by simp, rfl⟩
  · cases h

/-- The fields that a line is read from are the words of its text, after those that say what line it
is. -/
def Line.IsReadFrom (toMinutes : Bool) (cs : List Char) : Line → Prop
  | .rule r => readRule toMinutes cs ((words cs).drop 1) = .ok r
  | .link _ _ => True
  | .zone _ l => readZoneLine toMinutes cs ((words cs).drop 2) = .ok l
  | .continuation l => readZoneLine toMinutes cs (words cs) = .ok l

theorem Line.isReadFrom_of_read {cs : List Char} {line : Line}
    (h : Line.read toMinutes cs = .ok line) : line.IsReadFrom toMinutes cs := by
  unfold Line.read at h
  split at h
  · cases h
  · rename_i keyword fields hwords
    split at h
    · obtain ⟨l, hl, rfl⟩ := exists_of_map_eq_ok h
      rw [← hwords] at hl
      exact hl
    split at h
    · obtain ⟨r, hr, rfl⟩ := exists_of_map_eq_ok h
      simp only [Line.IsReadFrom, hwords]
      exact hr
    split at h
    · split at h <;> cases h
      trivial
    split at h
    · split at h
      · obtain ⟨l, hl, rfl⟩ := exists_of_map_eq_ok h
        simp only [Line.IsReadFrom, hwords]
        exact hl
      · cases h
    · cases h

/-- **A line holds what its fields are read to hold.** -/
theorem Line.holds_of_read {cs : List Char} {line : Line}
    (hzone : ∀ fields l, (∀ w ∈ fields, w ∈ words cs) →
      readZoneLine toMinutes cs fields = .ok l → P l)
    (hrule : ∀ fields r, (∀ w ∈ fields, w ∈ words cs) →
      readRule toMinutes cs fields = .ok r → Q r)
    (h : Line.read toMinutes cs = .ok line) : line.Holds P Q := by
  have hread := Line.isReadFrom_of_read h
  have hdrop (n : Nat) : ∀ w ∈ (words cs).drop n, w ∈ words cs :=
    fun _ => List.mem_of_mem_drop
  cases line with
  | rule r => exact hrule _ r (hdrop 1) hread
  | link target name => trivial
  | zone name l => exact hzone _ l (hdrop 2) hread
  | continuation l => exact hzone _ l (fun _ hw => hw) hread

/-! ## Formats and letters -/

theorem isWord_toList_ofList {cs fs : List Char} (h : fs ∈ words cs) :
    IsWord (String.ofList fs).toList := by
  rw [String.toList_ofList]
  exact isWord_of_mem_words h

/-- **Formats and letters are words.** -/
theorem Line.holds_isWord {cs : List Char} {line : Line} (h : Line.read toMinutes cs = .ok line) :
    line.Holds (fun l => IsWord l.format.toList) (fun r => IsWord r.letters.toList) := by
  refine Line.holds_of_read ?_ ?_ h
  · intro fields l hfields hl
    obtain ⟨w, hw, hformat⟩ := format_of_readZoneLine hl
    rw [hformat]
    exact isWord_toList_ofList (hfields w hw)
  · intro fields r hfields hr
    rcases (isReadFrom_of_readRule hr).letters with hletters | ⟨w, hw, hletters⟩
    · rw [hletters]
      exact lacks_nil
    · rw [hletters]
      exact isWord_toList_ofList (hfields w hw)

end Source
end ZoneTables
