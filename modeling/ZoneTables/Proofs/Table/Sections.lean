import ZoneTables.Proofs.Calendar.OffsetNotation
import ZoneTables.Proofs.Table.Kind

/-!
# The sections of a table

A table is its sections between semicolons (`encode_eq_ok_iff`), and no section holds a semicolon,
so that cutting gives the sections back (`cut_table`). Each section reads back: the header
(`readHeader_header`), the kinds (`mapM_readKind_kindTexts`), and the changes
(`readChanges_written`).
-/

namespace ZoneTables.Table

open Text

/-! ## What a table is made of -/

/-- The texts of the kinds of a list, each once. -/
def kindTexts (ts : List Transition) : List (List Char) := (ts.map kind).eraseDups

/-- The second to fourth section of a table. -/
def changeSections (first : Transition) (rest : List Transition) : List (List Char) :=
  [join [' '] (kindTexts (first :: rest)),
    rest.flatMap fun t => Base60.write ((kindTexts (first :: rest)).idxOf (kind t)),
    join [' '] ((deltas 0 rest).map Base60.writeMinutes)]

/-- The sections of the table of a list with more than one transition. -/
def sections (fix : Bool) (first : Transition) (rest : List Transition) (n : Nominal) :
    List (List Char) :=
  header first n :: changeSections first rest ++ tailSection fix n

variable {fix : Bool} {t : Timeline} {first : Transition} {rest : List Transition} {n : Nominal}
  {text : List Char}

theorem encode_of_singleton (hts : t.transitions = [first]) :
    encode fix t =
      if headerIsWritable first (.ofTimeline t) then .ok (header first (.ofTimeline t))
      else .error .unwritable := by
  unfold encode
  rw [hts]
  cases hw : headerIsWritable first (.ofTimeline t) <;>
    simp only [hw, Bool.not_true, Bool.not_false, Bool.false_eq_true, List.isEmpty_nil, if_true,
      if_false]

theorem encode_of_changes (hts : t.transitions = first :: rest) (hrest : rest ≠ []) :
    encode fix t =
      if headerIsWritable first (.ofTimeline t) = false then .error .unwritable
      else if maxKinds < (kindTexts (first :: rest)).length then
        .error (.tooManyKinds t.zone (kindTexts (first :: rest)).length)
      else if tailIsWritable fix (.ofTimeline t) = false then .error .unwritable
      else .ok (join [';'] (sections fix first rest (.ofTimeline t))) := by
  have hempty : rest.isEmpty = false := by simpa using hrest
  unfold encode
  rw [hts]
  simp only [hempty, Bool.not_eq_true', Bool.false_eq_true, if_false]
  rfl

theorem encode_eq_ok_iff (hts : t.transitions = first :: rest) (hrest : rest ≠ []) :
    encode fix t = .ok text ↔
      headerIsWritable first (.ofTimeline t) = true ∧ (kindTexts (first :: rest)).length ≤ 60 ∧
        tailIsWritable fix (.ofTimeline t) = true ∧
        text = join [';'] (sections fix first rest (.ofTimeline t)) := by
  rw [encode_of_changes hts hrest, maxKinds]
  grind

/-! ## The header -/

theorem isWord_offset (x : Int) : IsWord (OffsetNotation.write x) :=
  OffsetNotation.lacks_write isBlank_decimalDigit (by decide) (by decide) x

theorem decimalDigit_ne_semicolon : ∀ d < 10, (decimalDigit d == ';') = false := by decide

theorem lacks_semicolon_integer (n : Int) : Lacks (· == ';') (integer n) :=
  lacks_integer decimalDigit_ne_semicolon (by decide) n

/-- The offsets of a header are below a hundred hours. -/
def HeaderInRange (first : Transition) (n : Nominal) : Prop :=
  first.utcOffset.natAbs < 360000 ∧ n.stdOffset.natAbs < 360000

theorem headerIsWritable_iff (h : HeaderInRange first n) :
    headerIsWritable first n = true ↔ Numeral.isWritable (n.dstOffset / 60) = true := by
  have hsmall (x : Int) (hx : x.natAbs < 360000) :
      Numeral.isWritable ((x.natAbs : Int) / 3600) = true := by
    apply Numeral.isWritable_of_lt
    omega
  unfold headerIsWritable
  simp only [List.all_cons, List.all_nil, hsmall _ h.1, hsmall _ h.2, Bool.true_and, Bool.and_true]

theorem words_header (first : Transition) (n : Nominal) :
    words (header first n) = [OffsetNotation.write first.utcOffset,
      OffsetNotation.write n.stdOffset, integer (n.dstOffset / 60)] := by
  have hword : IsWord (integer (n.dstOffset / 60)) :=
    lacks_integer isBlank_decimalDigit (by decide) _
  rw [header, words_join]
  simp only [List.mem_cons, List.not_mem_nil, or_false, forall_eq_or_imp, forall_eq]
  exact ⟨⟨isWord_offset _, OffsetNotation.write_ne_nil _⟩,
    ⟨isWord_offset _, OffsetNotation.write_ne_nil _⟩, hword, integer_ne_nil _⟩

/-- **The header reads back**, with daylight saving in whole minutes. -/
theorem readHeader_header (h : HeaderInRange first n)
    (hdst : Numeral.isWritable (n.dstOffset / 60) = true) :
    readHeader (header first n) =
      .ok (first.utcOffset, n.stdOffset, n.dstOffset / 60 * 60) := by
  unfold readHeader
  rw [words_header]
  simp only [OffsetNotation.read_write h.1, OffsetNotation.read_write h.2,
    Numeral.read_integer hdst]
  rfl

theorem lacks_semicolon_header (first : Transition) (n : Nominal) :
    Lacks (· == ';') (header first n) := by
  have hoffset (x : Int) : Lacks (· == ';') (OffsetNotation.write x) :=
    OffsetNotation.lacks_write decimalDigit_ne_semicolon (by decide) (by decide) x
  apply lacks_join (by simp)
  simp only [List.mem_cons, List.not_mem_nil, or_false, forall_eq_or_imp, forall_eq]
  exact ⟨hoffset _, hoffset _, lacks_semicolon_integer _⟩

/-! ## The kinds -/

/-- All names of a list are words. -/
def NamesAreWords (ts : List Transition) : Prop := ∀ t ∈ ts, (Kind.of t).HasWord

/-- All names of a list are plain. -/
def NamesArePlain (ts : List Transition) : Prop := ∀ t ∈ ts, (Kind.of t).IsPlain

instance (ts : List Transition) : Decidable (NamesArePlain ts) :=
  inferInstanceAs (Decidable (∀ t ∈ ts, (Kind.of t).IsPlain))

theorem NamesArePlain.areWords {ts : List Transition} (h : NamesArePlain ts) : NamesAreWords ts :=
  fun t ht => (h t ht).hasWord

variable {ts : List Transition}

theorem exists_of_mem_kindTexts {w : List Char} (hw : w ∈ kindTexts ts) :
    ∃ t ∈ ts, (Kind.of t).text = w := by
  simpa [kindTexts, kind_eq_text] using hw

/-- **The kinds read back**, in the order of their texts. -/
theorem mapM_readKind_kindTexts (h : NamesAreWords ts) :
    ∃ kinds, (kindTexts ts).mapM readKind = .ok kinds ∧ kinds.map Kind.text = kindTexts ts ∧
      ∀ k ∈ kinds, k.HasWord := by
  have hall : ∀ w ∈ kindTexts ts, ∃ k : Kind, k.HasWord ∧ k.text = w := by
    intro w hw
    obtain ⟨t, ht, rfl⟩ := exists_of_mem_kindTexts hw
    exact ⟨Kind.of t, h t ht, rfl⟩
  generalize kindTexts ts = ws at hall ⊢
  induction ws with
  | nil => exact ⟨[], rfl, rfl, by simp⟩
  | cons w ws ih =>
    obtain ⟨k, hk, rfl⟩ := hall w List.mem_cons_self
    obtain ⟨ks, hread, htext, hwords⟩ := ih fun v hv => hall v (List.mem_cons_of_mem _ hv)
    refine ⟨k :: ks, ?_, ?_, ?_⟩
    · rw [List.mapM_cons, Kind.readKind_text hk, hread]
      rfl
    · rw [List.map_cons, htext]
    · rw [List.forall_mem_cons]
      exact ⟨hk, hwords⟩

theorem words_kindSection (h : NamesAreWords ts) :
    words (join [' '] (kindTexts ts)) = kindTexts ts := by
  apply words_join
  intro w hw
  obtain ⟨t, ht, rfl⟩ := exists_of_mem_kindTexts hw
  exact ⟨Kind.isWord_text (h t ht), Kind.text_ne_nil _⟩

theorem kindTexts_ne_nil : kindTexts (first :: rest) ≠ [] := by
  rw [kindTexts, List.map_cons, List.eraseDups_cons]
  simp

theorem kindTexts_head : (kindTexts (first :: rest)).head? = some (kind first) := by
  rw [kindTexts, List.map_cons, List.eraseDups_cons, List.head?_cons]

/-! ## The changes -/

/-- The number of a transition's kind. -/
def kindIndex (ts : List Transition) (t : Transition) : Nat := (kindTexts ts).idxOf (kind t)

theorem kindIndex_lt {u : Transition} (hu : u ∈ ts) : kindIndex ts u < (kindTexts ts).length :=
  List.idxOf_lt_length_of_mem (by simpa [kindTexts] using List.mem_map_of_mem hu)

/-- With at most sixty kinds, the third section has one digit for each change. -/
theorem indexSection_eq (hlen : (kindTexts ts).length ≤ 60) (hsub : ∀ u ∈ rest, u ∈ ts) :
    (rest.flatMap fun u => Base60.write ((kindTexts ts).idxOf (kind u))) =
      rest.map fun u => Base60.digitChar (kindIndex ts u) := by
  rw [List.map_eq_flatMap]
  apply List.flatMap_congr
  intro u hu
  exact Base60.write_of_lt (lt_of_lt_of_le (kindIndex_lt (hsub u hu)) hlen)

theorem readIndex_digitChar {kinds : List Kind} {i : Nat} (hi : i < 60) {k : Kind}
    (hk : kinds[i]? = some k) : readIndex kinds (Base60.digitChar i) = .ok k := by
  have hread : Base60.read [Base60.digitChar i] = .ok (i : Int) := by
    rw [← Base60.write_of_lt hi, Base60.read_write]
  have hnonneg : ¬ (i : Int) < 0 := by omega
  have hmap : (Except.ok (i : Int)).mapError DecodeError.digits = .ok (i : Int) := rfl
  unfold readIndex
  rw [hread, hmap]
  simp only [bind, Except.bind, if_neg hnonneg, Int.toNat_natCast, hk]

theorem getElem?_kindIndex {kinds : List Kind} (htexts : kinds.map Kind.text = kindTexts ts)
    (hwords : ∀ k ∈ kinds, k.HasWord) {u : Transition} (hu : u ∈ ts) (hname : (Kind.of u).HasWord) :
    kinds[kindIndex ts u]? = some (Kind.of u) := by
  have hlt := kindIndex_lt hu
  have hlen : kinds.length = (kindTexts ts).length := by rw [← htexts, List.length_map]
  have hi : kindIndex ts u < kinds.length := hlen ▸ hlt
  have htext : (kinds[kindIndex ts u]?).map Kind.text = some (Kind.of u).text := by
    rw [← List.getElem?_map, htexts, List.getElem?_eq_getElem hlt]
    exact congrArg some (List.getElem_idxOf hlt)
  rw [List.getElem?_eq_getElem hi, Option.map_some, Option.some.injEq] at htext
  rw [List.getElem?_eq_getElem hi,
    Kind.text_injective (hwords _ (List.getElem_mem hi)) hname htext]

/-- A transition without the rule that gave rise to it, as a table shows it. -/
def withoutRule (t : Transition) : Transition := (Kind.of t).transition t.time

theorem agrees_withoutRule (t : Transition) : t.agrees (withoutRule t) = true := by
  simp [Transition.agrees, withoutRule, Kind.of, Kind.transition]

/-- **The changes read back**, from their digits and the times between them. -/
theorem readChanges_written {kinds : List Kind} (htexts : kinds.map Kind.text = kindTexts ts)
    (hwords : ∀ k ∈ kinds, k.HasWord) (hlen : (kindTexts ts).length ≤ 60)
    (hnames : NamesAreWords ts) (hsub : ∀ u ∈ rest, u ∈ ts) (last : Int) :
    readChanges kinds last
        ((rest.map fun u => Base60.digitChar (kindIndex ts u)).zip
          ((deltas last rest).map Base60.writeMinutes)) =
      .ok (rest.map withoutRule) := by
  induction rest generalizing last with
  | nil => rfl
  | cons u us ih =>
    have hu := hsub u List.mem_cons_self
    have hi : kindIndex ts u < 60 := lt_of_lt_of_le (kindIndex_lt hu) hlen
    have hkind := readIndex_digitChar hi (getElem?_kindIndex htexts hwords hu (hnames u hu))
    have hrest := ih (fun v hv => hsub v (List.mem_cons_of_mem u hv)) u.time
    have htime : last + (u.time - last) = u.time := by omega
    rw [List.map_cons, deltas, List.map_cons, List.zip_cons_cons, readChanges, hkind]
    simp only [readMinutes_write, bind, Except.bind, pure, Except.pure, htime, hrest]
    rfl

/-! ## Cutting a table -/

theorem lacks_semicolon_tail (r : Rule) : Lacks (· == ';') r.tail := by
  apply lacks_join (by simp)
  intro w hw
  simp only [List.mem_cons, List.not_mem_nil, or_false] at hw
  have hint := lacks_semicolon_integer
  rcases hw with rfl | rfl | rfl | rfl | rfl | rfl | rfl
  case inr.inr.inr.inr.inl =>
    exact lacks_append.2 ⟨hint _, lacks_cons.2 ⟨by decide, hint _⟩⟩
  all_goals exact hint _

theorem lacks_semicolon_tailSection {w : List Char} (hw : w ∈ tailSection fix n) :
    Lacks (· == ';') w := by
  unfold tailSection at hw
  split at hw
  · simp at hw
  · rename_i std dst _
    rw [List.mem_singleton.1 hw]
    exact lacks_append.2
      ⟨lacks_semicolon_tail std, lacks_cons.2 ⟨by decide, lacks_semicolon_tail dst⟩⟩

theorem length_deltas (last : Int) (ts : List Transition) :
    (deltas last ts).length = ts.length := by
  induction ts generalizing last with
  | nil => rfl
  | cons t ts ih => rw [deltas, List.length_cons, ih, List.length_cons]

theorem words_deltaSection (last : Int) (ts : List Transition) :
    words (join [' '] ((deltas last ts).map Base60.writeMinutes)) =
      (deltas last ts).map Base60.writeMinutes := by
  apply words_join
  intro w hw
  obtain ⟨x, -, rfl⟩ := List.mem_map.1 hw
  exact ⟨isWord_writeMinutes x, Base60.writeMinutes_ne_nil x⟩

theorem lacks_indexSection {p : Char → Bool} (hd : ∀ d < 60, p (Base60.digitChar d) = false)
    (hlen : (kindTexts (first :: rest)).length ≤ 60) :
    Lacks p (rest.flatMap fun u => Base60.write ((kindTexts (first :: rest)).idxOf (kind u))) := by
  rw [indexSection_eq hlen fun u hu => List.mem_cons_of_mem first hu, lacks_map]
  intro u hu
  exact hd _ (lt_of_lt_of_le (kindIndex_lt (List.mem_cons_of_mem first hu)) hlen)

theorem lacks_deltaSection {p : Char → Bool} (hx : ∀ x, Lacks p (Base60.writeMinutes x))
    (hs : p ' ' = false) (last : Int) (ts : List Transition) :
    Lacks p (join [' '] ((deltas last ts).map Base60.writeMinutes)) := by
  apply lacks_join (lacks_cons.2 ⟨hs, lacks_nil⟩)
  intro v hv
  obtain ⟨x, -, rfl⟩ := List.mem_map.1 hv
  exact hx x

theorem digitChar_ne_semicolon (d : Nat) (hd : d < 60) : (Base60.digitChar d == ';') = false := by
  simpa using (digitChar_ne_separator d hd).2

theorem lacks_semicolon_changeSections (hnames : NamesArePlain (first :: rest))
    (hlen : (kindTexts (first :: rest)).length ≤ 60) {w : List Char}
    (hw : w ∈ changeSections first rest) : Lacks (· == ';') w := by
  simp only [changeSections, List.mem_cons, List.not_mem_nil, or_false] at hw
  rcases hw with rfl | rfl | rfl
  · apply lacks_join (by simp)
    intro v hv
    obtain ⟨u, hu, rfl⟩ := exists_of_mem_kindTexts hv
    exact Kind.lacks_semicolon_text (hnames u hu)
  · exact lacks_indexSection digitChar_ne_semicolon hlen
  · exact lacks_deltaSection lacks_semicolon_writeMinutes (by decide) 0 rest

theorem lacks_semicolon_sections (hnames : NamesArePlain (first :: rest))
    (hlen : (kindTexts (first :: rest)).length ≤ 60) {w : List Char}
    (hw : w ∈ sections fix first rest n) : Lacks (· == ';') w := by
  rw [sections, List.cons_append, List.mem_cons, List.mem_append] at hw
  rcases hw with rfl | hw | hw
  · exact lacks_semicolon_header first n
  · exact lacks_semicolon_changeSections hnames hlen hw
  · exact lacks_semicolon_tailSection hw

/-- **A table is cut into the sections that it is made of.** -/
theorem cut_table (hnames : NamesArePlain (first :: rest))
    (hlen : (kindTexts (first :: rest)).length ≤ 60) :
    cut (· == ';') (join [';'] (sections fix first rest n)) = sections fix first rest n :=
  cut_join rfl (by simp [sections]) fun _ hw => lacks_semicolon_sections hnames hlen hw

theorem take_sections (fix : Bool) :
    (sections fix first rest n).take 4 = header first n :: changeSections first rest := rfl

theorem cut_table_withoutTail (hnames : NamesArePlain (first :: rest))
    (hlen : (kindTexts (first :: rest)).length ≤ 60) :
    cut (· == ';') (join [';'] (header first n :: changeSections first rest)) =
      header first n :: changeSections first rest := by
  apply cut_join rfl (List.cons_ne_nil _ _)
  intro w hw
  rw [← take_sections false] at hw
  exact lacks_semicolon_sections hnames hlen (List.mem_of_mem_take hw)

end ZoneTables.Table
