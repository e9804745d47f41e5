import ZoneTables.Proofs.Table.Sections

/-!
# Tables read back

The table of a list with changes reads back as the list without its rules (`decode_encode`), and
encoding that once more gives the same sections but for the tail (`encode_decoded`). The table
of a single transition tells its offset and the standard offset beyond it (`decode_header`).

`encode_roundTrips` puts these together with the exact condition under which there is a table.
-/

namespace ZoneTables.Table

open Text

attribute [local irreducible] Numeral.isWritable

variable {fix : Bool} {t : Timeline} {first : Transition} {rest : List Transition}
  {text : List Char} {zone : Option String}

/-! ## Reading a table -/

/-- What is read back of a timeline. -/
def decoded (zone : Option String) (first : Transition) (rest : List Transition) (n : Nominal) :
    Timeline :=
  { Timeline.ofTransitions zone ((Kind.of first).transition beginningOfTime :: rest.map withoutRule)
    with nominal := some (n.stdOffset, n.dstOffset / 60 * 60) }

/-- **A table of changes reads back**, without the rules behind them. -/
theorem decode_encode (hts : t.transitions = first :: rest) (hrest : rest ≠ [])
    (hnames : NamesArePlain (first :: rest)) (hrange : HeaderInRange first (.ofTimeline t))
    (h : encode fix t = .ok text) :
    decode zone text = .ok (decoded zone first rest (.ofTimeline t)) := by
  obtain ⟨hheader, hlen, -, rfl⟩ := (encode_eq_ok_iff hts hrest).1 h
  have hdst := (headerIsWritable_iff hrange).1 hheader
  have hsub (u : Transition) (hu : u ∈ rest) : u ∈ first :: rest := List.mem_cons_of_mem first hu
  -- the kinds, the first of which is that of the first transition
  obtain ⟨kinds, hkinds, htexts, hwords⟩ := mapM_readKind_kindTexts hnames.areWords
  obtain ⟨k, ks, rfl⟩ : ∃ k ks, kinds = k :: ks := by
    refine List.exists_cons_of_ne_nil ?_
    rintro rfl
    exact kindTexts_ne_nil htexts.symm
  have hhead : k = Kind.of first := by
    have htext : some k.text = some (Kind.of first).text := by
      rw [← kind_eq_text, ← kindTexts_head, ← htexts]
      rfl
    exact Kind.text_injective (hwords k List.mem_cons_self)
      (hnames first List.mem_cons_self).hasWord (Option.some.inj htext)
  subst hhead
  -- the changes
  have hchanges := readChanges_written htexts hwords hlen hnames.areWords hsub 0
  have hlength : (rest.map fun u => Base60.digitChar (kindIndex (first :: rest) u)).length =
      ((deltas 0 rest).map Base60.writeMinutes).length := by
    rw [List.length_map, List.length_map, length_deltas]
  unfold decode
  simp only [cut_table hnames hlen]
  simp only [sections, changeSections, List.cons_append, List.headD_cons,
    readHeader_header hrange hdst, List.drop_succ_cons, List.drop_zero, words_kindSection hnames.areWords,
    hkinds, words_deltaSection, indexSection_eq hlen hsub, hlength, hchanges, ne_eq,
    not_true_eq_false, if_false, bind, Except.bind, pure, Except.pure]
  rfl

/-- **A table of the header alone reads back** as a transition whose daylight saving is what its
offset is ahead of the standard one. -/
theorem decode_header {n : Nominal} (hrange : HeaderInRange first n)
    (hdst : Numeral.isWritable (n.dstOffset / 60) = true) :
    decode zone (header first n) = .ok
      { Timeline.ofTransitions zone
          [⟨beginningOfTime, first.utcOffset, first.utcOffset - n.stdOffset, none, none⟩] with
        nominal := some (n.stdOffset, n.dstOffset / 60 * 60) } := by
  unfold decode
  rw [cut_of_lacks (lacks_semicolon_header first n)]
  simp only [List.headD_cons, readHeader_header hrange hdst, List.drop_succ_cons, List.drop_zero,
    bind, Except.bind, pure, Except.pure]

/-! ## Encoding what was read -/

theorem kind_withoutRule (u : Transition) : kind (withoutRule u) = kind u := rfl

theorem deltas_withoutRule (last : Int) (us : List Transition) :
    deltas last (us.map withoutRule) = deltas last us := by
  induction us generalizing last with
  | nil => rfl
  | cons u us ih =>
    rw [List.map_cons, deltas, deltas]
    exact congrArg _ (ih u.time)

theorem kindTexts_withoutRule (time : Int) :
    kindTexts ((Kind.of first).transition time :: rest.map withoutRule) =
      kindTexts (first :: rest) := by
  simp only [kindTexts, List.map_cons, List.map_map, Function.comp_def, kind_withoutRule]
  rfl

theorem changeSections_withoutRule (time : Int) :
    changeSections ((Kind.of first).transition time) (rest.map withoutRule) =
      changeSections first rest := by
  simp only [changeSections, kindTexts_withoutRule, deltas_withoutRule, List.flatMap_map,
    kind_withoutRule]

/-- **Encoding what was read back gives the same sections**, without a tail. -/
theorem encode_decoded {n : Nominal} (hrest : rest ≠ []) (hrange : HeaderInRange first n)
    (hdst : Numeral.isWritable (n.dstOffset / 60) = true)
    (hlen : (kindTexts (first :: rest)).length ≤ 60) :
    encode fix (decoded zone first rest n) =
      .ok (join [';'] (header first n :: changeSections first rest)) := by
  have hminutes : n.dstOffset / 60 * 60 / 60 = n.dstOffset / 60 := by omega
  apply (encode_eq_ok_iff (t := decoded zone first rest n) rfl (by simpa using hrest)).2
  have hnominal : Nominal.ofTimeline (decoded zone first rest n) =
      ⟨n.stdOffset, n.dstOffset / 60 * 60, none, none⟩ := rfl
  have hrange' : HeaderInRange ((Kind.of first).transition beginningOfTime)
      ⟨n.stdOffset, n.dstOffset / 60 * 60, none, none⟩ := hrange
  rw [hnominal]
  refine ⟨?_, ?_, rfl, ?_⟩
  · rw [headerIsWritable_iff hrange']
    show Numeral.isWritable (n.dstOffset / 60 * 60 / 60) = true
    rwa [hminutes]
  · rw [kindTexts_withoutRule]
    exact hlen
  · rw [sections, changeSections_withoutRule, header, header, hminutes]
    rfl

/-! ## Round trips -/

/-- A list with changes has no table if it has more than sixty kinds of local time, or if a number
in its header or its tail is too long. -/
theorem encode_eq_error_iff (hts : t.transitions = first :: rest) (hrest : rest ≠ [])
    (hnames : NamesArePlain (first :: rest)) (hrange : HeaderInRange first (.ofTimeline t)) :
    (∃ e, encode fix t = .error e) ↔
      60 < ((first :: rest).map Kind.of).toFinset.card ∨
        Numeral.isWritable ((Nominal.ofTimeline t).dstOffset / 60) = false ∨
        tailIsWritable fix (.ofTimeline t) = false := by
  have hok : (∃ text, encode fix t = .ok text) ↔
      Numeral.isWritable ((Nominal.ofTimeline t).dstOffset / 60) = true ∧
        (kindTexts (first :: rest)).length ≤ 60 ∧ tailIsWritable fix (.ofTimeline t) = true := by
    simp [encode_eq_ok_iff hts hrest, headerIsWritable_iff hrange]
  have herror : (∃ e, encode fix t = .error e) ↔ ¬ ∃ text, encode fix t = .ok text := by
    cases encode fix t <;> simp
  rw [← length_kindTexts hnames, herror, hok, ← kindTexts]
  grind

/-- **Round trip of a list with changes.** There is a table unless there are too many kinds or too
long numbers. It reads back as a list that agrees at every index, and encoding that list gives the
first four sections once more. -/
theorem encode_roundTrips (fix : Bool) {second : Transition}
    (hts : t.transitions = first :: second :: rest) (htime : first.time = beginningOfTime)
    (hnames : NamesArePlain t.transitions) (hutc : first.utcOffset.natAbs < 360000)
    (hstd : (Nominal.ofTimeline t).stdOffset.natAbs < 360000) :
    ((∃ e, encode fix t = .error e) ↔
        60 < (t.transitions.map Kind.of).toFinset.card ∨
          Numeral.isWritable ((Nominal.ofTimeline t).dstOffset / 60) = false ∨
          tailIsWritable fix (.ofTimeline t) = false) ∧
      ∀ text, encode fix t = .ok text → ∃ u, decode zone text = .ok u ∧
        List.Forall₂ (fun a b => a.agrees b = true) t.transitions u.transitions ∧
        ∀ fix', ∃ text', encode fix' u = .ok text' ∧
          cut (· == ';') text' = (cut (· == ';') text).take 4 := by
  have hrest : second :: rest ≠ [] := List.cons_ne_nil _ _
  have hrange : HeaderInRange first (.ofTimeline t) := ⟨hutc, hstd⟩
  rw [hts] at hnames ⊢
  refine ⟨encode_eq_error_iff hts hrest hnames hrange, ?_⟩
  intro text htext
  obtain ⟨hheader, hlen, -, rfl⟩ := (encode_eq_ok_iff hts hrest).1 htext
  have hdst := (headerIsWritable_iff hrange).1 hheader
  refine ⟨_, decode_encode hts hrest hnames hrange htext, ?_, fun fix' =>
    ⟨_, encode_decoded hrest hrange hdst hlen, ?_⟩⟩
  · have hfirst : withoutRule first = (Kind.of first).transition beginningOfTime := by
      rw [withoutRule, htime]
    show List.Forall₂ _ _ ((Kind.of first).transition beginningOfTime :: _)
    rw [← hfirst, ← List.map_cons, List.forall₂_map_right_iff]
    exact List.forall₂_same.2 fun u _ => agrees_withoutRule u
  · rw [cut_table hnames hlen, take_sections, cut_table_withoutTail hnames hlen]

/-- A year with summer time in the zone of Greenwich. -/
def summer : Timeline :=
  .ofTransitions (some "London")
    [⟨beginningOfTime, 0, 0, some "GMT", none⟩, ⟨954637200, 3600, 3600, some "BST", none⟩,
      ⟨972781200, 0, 0, some "GMT", none⟩]

theorem summer_roundTrips :
    (¬ ∃ e, encode true summer = .error e) ∧
      ∀ text, encode true summer = .ok text → ∃ u, decode (some "London") text = .ok u ∧
        List.Forall₂ (fun a b => a.agrees b = true) summer.transitions u.transitions ∧
        ∀ fix', ∃ text', encode fix' u = .ok text' ∧
          cut (· == ';') text' = (cut (· == ';') text).take 4 := by
  have hnames : NamesArePlain summer.transitions := by decide +kernel
  obtain ⟨herror, hok⟩ := encode_roundTrips (t := summer) true rfl rfl hnames (by decide)
    (by decide)
  refine ⟨?_, hok⟩
  rw [herror]
  decide +kernel

/-- A year with summer time whose rule for standard time tells more hours than can be written. -/
def longHours : Timeline :=
  .ofTransitions none
    [⟨beginningOfTime, 0, 0, some "GMT", none⟩,
      ⟨954637200, 3600, 3600, some "BST",
        some ⟨"R", 2000, Rule.latestYear, 4, .exact 2, 3600, .universal, 3600, "B", ""⟩⟩,
      ⟨970362000, 0, 0, some "GMT",
        some ⟨"R", 2000, Rule.latestYear, 10, .exact 1,
          ((3660 * (Nat.pow 10 4300 - 1) : Nat) : Int), .wall, 0, "G", ""⟩⟩]

/-- Two kinds of local time, and yet no table. -/
theorem encode_longHours :
    NamesArePlain longHours.transitions ∧ (Nominal.ofTimeline longHours).stdOffset = 0 ∧
      (longHours.transitions.map Kind.of).toFinset.card = 2 ∧
      encode true longHours = .error .unwritable := by
  decide +kernel

end ZoneTables.Table
