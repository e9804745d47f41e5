import ZoneTables.Proofs.Table.Sections
import ZoneTables.Timeline.Listing

/-!
# Timelines with equal tables

A table with changes tells its list up to the rules behind it and the time of the first transition
(`eq_of_table_eq`), also where names have semicolons: those stand in the section of the kinds only,
and the sections after it can be told from their ends. So timelines with equal tables have the same
listing. A table without changes tells the offset and not the name
(`listingLines_eq_iff_of_encode_eq`).
-/

namespace ZoneTables.Table

open Text

variable {fix fix' : Bool} {t u : Timeline} {first first' : Transition}
  {rest rest' ts us : List Transition} {n n' : Nominal} {text : List Char}

/-- All names are words, and each kind has a digit. -/
structure IsReadable (ts : List Transition) : Prop where
  words : NamesAreWords ts
  count : (kindTexts ts).length ≤ 60

/-! ## From a table to its sections -/

theorem table_cases (h : encode fix t = .ok text) :
    (∃ first, t.transitions = [first] ∧ text = header first (.ofTimeline t)) ∨
      ∃ first rest, t.transitions = first :: rest ∧ rest ≠ [] ∧
        (kindTexts (first :: rest)).length ≤ 60 ∧
        text = join [';'] (sections fix first rest (.ofTimeline t)) := by
  rcases hts : t.transitions with - | ⟨first, - | ⟨second, rest⟩⟩
  · rw [encode, hts] at h
    cases h
  · rw [encode_of_singleton hts] at h
    split at h
    · exact .inl ⟨first, rfl, (Except.ok.inj h).symm⟩
    · cases h
  · have hrest := List.cons_ne_nil second rest
    obtain ⟨-, hcount, -, htext⟩ := (encode_eq_ok_iff hts hrest).1 h
    exact .inr ⟨first, second :: rest, rfl, hrest, hcount, htext⟩

theorem join_sections : join [';'] (sections fix first rest n) =
    header first n ++ ';' :: join [';'] (changeSections first rest ++ tailSection fix n) := by
  rw [sections, List.cons_append, join_cons (by simp [changeSections]), List.append_assoc]
  rfl

/-- The section of the rules can be told from those before it by its comma. -/
theorem tailSection_cases (fix : Bool) (n : Nominal) : tailSection fix n = [] ∨
    ∃ w, tailSection fix n = [w] ∧ Lacks (· == ';') w ∧ ',' ∈ w := by
  cases h : tailRules? fix n with
  | none => exact .inl (by rw [tailSection, h])
  | some rules =>
    have hsection : tailSection fix n = [rules.1.tail ++ ',' :: rules.2.tail] := by
      rw [tailSection, h]
    exact .inr ⟨_, hsection, lacks_semicolon_tailSection (hsection ▸ List.mem_singleton_self _),
      by simp⟩

theorem join_changeSections : join [';'] (changeSections first rest) =
    join [' '] (kindTexts (first :: rest)) ++
      ';' :: (rest.flatMap fun t => Base60.write ((kindTexts (first :: rest)).idxOf (kind t))) ++
      ';' :: join [' '] ((deltas 0 rest).map Base60.writeMinutes) := by
  simp [changeSections, join]

theorem digitChar_ne_comma : ∀ d < 60, (Base60.digitChar d == ',') = false := by decide

theorem lacks_semicolon_deltaSection (rest : List Transition) :
    Lacks (· == ';') (join [' '] ((deltas 0 rest).map Base60.writeMinutes)) :=
  lacks_deltaSection lacks_semicolon_writeMinutes (by decide) 0 rest

theorem comma_not_mem_deltaSection (rest : List Transition) :
    ',' ∉ join [' '] ((deltas 0 rest).map Base60.writeMinutes) := by
  rw [← lacks_beq]
  exact lacks_deltaSection (Base60.lacks_writeMinutes digitChar_ne_comma (by decide) (by decide))
    (by decide) 0 rest

theorem join_changeSections_ne {cs w : List Char} (hw : Lacks (· == ';') w) (hcomma : ',' ∈ w) :
    join [';'] (changeSections first rest) ≠ cs ++ ';' :: w := by
  intro h
  rw [join_changeSections] at h
  have hlast := (append_cons_inj_last rfl (lacks_semicolon_deltaSection rest) hw h).2
  exact comma_not_mem_deltaSection rest (hlast ▸ hcomma)

theorem join_changeSections_eq
    (h : join [';'] (changeSections first rest ++ tailSection fix n) =
      join [';'] (changeSections first' rest' ++ tailSection fix' n')) :
    join [';'] (changeSections first rest) = join [';'] (changeSections first' rest') := by
  have htail (first : Transition) (rest : List Transition) (w : List Char) :
      join [';'] (changeSections first rest ++ [w]) =
        join [';'] (changeSections first rest) ++ ';' :: w := by
    rw [join_append (by simp [changeSections]) (by simp), List.append_assoc]
    rfl
  rcases tailSection_cases fix n with hn | ⟨w, hn, hw, hcomma⟩
  · rcases tailSection_cases fix' n' with hn' | ⟨w', hn', hw', hcomma'⟩
    · rwa [hn, hn', List.append_nil, List.append_nil] at h
    · rw [hn, hn', List.append_nil, htail] at h
      exact absurd h (join_changeSections_ne hw' hcomma')
  · rcases tailSection_cases fix' n' with hn' | ⟨w', hn', hw', hcomma'⟩
    · rw [hn, hn', List.append_nil, htail] at h
      exact absurd h.symm (join_changeSections_ne hw hcomma)
    · rw [hn, hn', htail, htail] at h
      exact (append_cons_inj_last rfl hw hw' h).1

/-- **Equal tables have equal sections** before the rules. -/
theorem changeSections_eq (hts : IsReadable (first :: rest)) (hus : IsReadable (first' :: rest'))
    (h : join [';'] (changeSections first rest) = join [';'] (changeSections first' rest')) :
    changeSections first rest = changeSections first' rest' := by
  rw [join_changeSections, join_changeSections] at h
  obtain ⟨h, hdeltas⟩ := append_cons_inj_last rfl (lacks_semicolon_deltaSection rest)
    (lacks_semicolon_deltaSection rest') h
  obtain ⟨hkinds, hindexes⟩ := append_cons_inj_last (p := (· == ';')) rfl
    (lacks_indexSection digitChar_ne_semicolon hts.count)
    (lacks_indexSection digitChar_ne_semicolon hus.count) h
  rw [changeSections, changeSections, hkinds, hindexes, hdeltas]

/-! ## From the sections to the list -/

/-- **The sections tell the changes**: reading them gives the list without its rules. -/
theorem eq_of_changeSections_eq (hts : IsReadable (first :: rest))
    (hus : IsReadable (first' :: rest'))
    (h : changeSections first rest = changeSections first' rest') :
    Kind.of first = Kind.of first' ∧ rest.map withoutRule = rest'.map withoutRule := by
  have hsub (first u : Transition) (rest : List Transition) (hu : u ∈ rest) : u ∈ first :: rest :=
    List.mem_cons_of_mem first hu
  simp only [changeSections, List.cons.injEq, and_true] at h
  obtain ⟨hkinds, hindexes, hdeltas⟩ := h
  have htexts := congrArg words hkinds
  rw [words_kindSection hts.words, words_kindSection hus.words] at htexts
  rw [indexSection_eq hts.count (hsub first · rest),
    indexSection_eq hus.count (hsub first' · rest')] at hindexes
  have htimes := congrArg words hdeltas
  rw [words_deltaSection, words_deltaSection] at htimes
  constructor
  · have hhead := congrArg List.head? htexts
    rw [kindTexts_head, kindTexts_head] at hhead
    exact Kind.text_injective (hts.words first List.mem_cons_self)
      (hus.words first' List.mem_cons_self) (Option.some.inj hhead)
  · obtain ⟨kinds, hread, hkindTexts, hwords⟩ := mapM_readKind_kindTexts hts.words
    have hchanges := readChanges_written hkindTexts hwords hts.count hts.words
      (hsub first · rest) 0
    have hchanges' := readChanges_written (htexts ▸ hkindTexts) hwords hus.count hus.words
      (hsub first' · rest') 0
    rw [hindexes, htimes] at hchanges
    exact Except.ok.inj (hchanges.symm.trans hchanges')

/-- **Equal tables have equal changes.** -/
theorem eq_of_table_eq (hts : IsReadable (first :: rest)) (hus : IsReadable (first' :: rest'))
    (h : join [';'] (sections fix first rest n) = join [';'] (sections fix' first' rest' n')) :
    Kind.of first = Kind.of first' ∧ rest.map withoutRule = rest'.map withoutRule := by
  rw [join_sections, join_sections] at h
  obtain ⟨-, hbody⟩ := append_cons_inj rfl (lacks_semicolon_header first n)
    (lacks_semicolon_header first' n') h
  exact eq_of_changeSections_eq hts hus (changeSections_eq hts hus (join_changeSections_eq hbody))

/-! ## Listings -/

theorem zipWith_line_withoutRule (time : Int) :
    List.zipWith Transition.line ((Kind.of first).transition time :: rest.map withoutRule)
        (rest.map withoutRule) =
      List.zipWith Transition.line (first :: rest) rest := by
  induction rest generalizing first time with
  | nil => rfl
  | cons u us ih =>
    rw [List.map_cons, List.zipWith_cons_cons, List.zipWith_cons_cons]
    exact congrArg _ (ih u.time)

/-- A listing shows neither the rules nor the time of the first transition. -/
theorem listingLines_withoutRule (time : Int) :
    listingLines ((Kind.of first).transition time :: rest.map withoutRule) =
      listingLines (first :: rest) := by
  cases rest with
  | nil => rfl
  | cons u us =>
    have hlines (first u : Transition) (us : List Transition) : listingLines (first :: u :: us) =
        first.firstLine :: List.zipWith Transition.line (first :: u :: us) (u :: us) := by
      rw [listingLines, steps, List.map_zip_eq_zipWith]
      · rfl
      · simp
    rw [List.map_cons, hlines, hlines, ← List.map_cons, zipWith_line_withoutRule]
    rfl

theorem nameSuffix_eq_iff {t u : Transition} : t.nameSuffix = u.nameSuffix ↔ t.name = u.name := by
  unfold Transition.nameSuffix
  cases t.name with
  | none => cases u.name <;> simp
  | some a => cases u.name <;> simp [String.append_right_inj]

theorem listingLines_singleton_eq_iff
    (h : OffsetNotation.write first.utcOffset = OffsetNotation.write first'.utcOffset) :
    listingLines [first'] = listingLines [first] ↔ first'.name = first.name := by
  have hoffset : renderOffset first'.utcOffset = renderOffset first.utcOffset :=
    congrArg String.ofList h.symm
  rw [listingLines, listingLines, List.singleton_inj, hoffset, ← nameSuffix_eq_iff]
  exact String.append_right_inj _

theorem header_ne_table : header first n ≠ join [';'] (sections fix first' rest' n') := by
  intro h
  have hlacks := lacks_semicolon_header first n
  rw [h, join_sections, lacks_beq] at hlacks
  exact hlacks (by simp)

/-- **When timelines with equal tables have the same listing**: always if there are changes, and
otherwise if their names are the same. -/
theorem listingLines_eq_iff_of_encode_eq (ht : NamesAreWords t.transitions)
    (hu : NamesAreWords u.transitions) (htext : encode fix t = .ok text)
    (hutext : encode fix' u = .ok text) :
    listingLines u.transitions = listingLines t.transitions ↔
      (t.transitions.length = 1 →
        u.transitions.map Transition.name = t.transitions.map Transition.name) := by
  rcases table_cases htext with ⟨first, hts, htable⟩ | ⟨first, rest, hts, hrest, hcount, htable⟩
  · rcases table_cases hutext with ⟨first', hus, hutable⟩ | ⟨first', rest', hus, -, -, hutable⟩
    · have hwords := congrArg words (htable.symm.trans hutable)
      rw [words_header, words_header, List.cons.injEq] at hwords
      rw [hts, hus, listingLines_singleton_eq_iff hwords.1]
      simp
    · exact absurd (htable.symm.trans hutable) header_ne_table
  · rcases table_cases hutext with ⟨first', hus, hutable⟩ | ⟨first', rest', hus, -, hcount', hutable⟩
    · exact absurd (hutable.symm.trans htable) header_ne_table
    · rw [hts] at ht ⊢
      rw [hus] at hu ⊢
      obtain ⟨hfirst, hchanges⟩ := eq_of_table_eq ⟨ht, hcount⟩ ⟨hu, hcount'⟩
        (htable.symm.trans hutable)
      refine iff_of_true ?_ fun hlength => absurd hlength (by simpa using hrest)
      rw [← listingLines_withoutRule 0, ← hfirst, ← hchanges, listingLines_withoutRule]

end ZoneTables.Table
