import ZoneTables.Proofs.Batch.Accounting

/-!
# Batches with and without an oracle

Two batches whose settings differ in nothing but the oracles and in how timelines are compared with
them (`Settings.SharesWork`) take the same steps: of the result only the notes on validation tell
one from the other (`product_addEach`). A comparison can keep the batch from its end, though,
where a number in its report is too long. So the products are the same exactly if no comparison that
a batch without an oracle leaves room for is kept from its end (`process_product_iff`).
-/

namespace ZoneTables.Batch

open Replay

variable {s s₀ : Settings} {r r₀ q : Result} {name : String} {t : Timeline} {names : List String}

/-- Both settings have the same years and treat rollbacks alike. -/
structure Settings.SharesWork (s s₀ : Settings) : Prop where
  window : s.window = s₀.window
  fix : s.fix = s₀.fix
  warn : s.warn = s₀.warn

/-- No number is too long in the report of a comparison of a timeline with the reference. -/
def Settings.CanCompare (s : Settings) (name : String) (t : Timeline) : Prop :=
  ∀ preset reference, s.reference? name = some (preset, reference) →
    (preset.closeness s.tolerance).CanReport t.transitions reference.transitions

/-- The comparisons come to an end that a batch makes which has come to a result: each name's
timeline is compared, and, if the name comes again, the timeline that is mended by then. -/
def Settings.CanCompareAll (s : Settings) (r : Result) (names : List String) : Prop :=
  ∀ name ∈ names, ∀ t, r.timelines.get? name = some t →
    s.CanCompare name t ∧ ([name, name].Sublist names → s.CanCompare name (s.mended t))

/-- The result without notes on validation. -/
def Result.product (r : Result) : Result := { r with validation := ∅ }

@[simp] theorem timelines_product (r : Result) : r.product.timelines = r.timelines := rfl

@[simp] theorem product_validated (r : Result) (name : String) (reasons : List String) :
    (r.validated name reasons).product = r.product := rfl

/-! ## Comparisons -/

theorem validate_of_oracle_eq_none (h : s.oracle = none) (name : String) (t : Timeline) :
    validate s name t = ([], .ok []) := by
  rw [validate, h]

theorem compare_cases (s : Settings) (preset : Preset) (name : String) (t reference : Timeline) :
    (compare s preset name t reference).2 = .error (.report .unwritable) ∨
      ∃ reasons, (compare s preset name t reference).2 = .ok reasons := by
  have h := closelyMatches_cases t.zone (preset.closeness s.tolerance) t.transitions
    reference.transitions
  unfold compare
  split
  · rename_i e hmatches
    rw [hmatches] at h
    rcases h with h | ⟨agree, h⟩
    · rw [Except.error.inj h]
      exact .inl rfl
    · cases h
  · exact .inr ⟨_, rfl⟩
  · exact .inr ⟨_, rfl⟩

/-- **A comparison comes to an end**, or breaks off at a number that is too long. -/
theorem validate_cases (hs : s.OraclesAnswer) (name : String) (t : Timeline) :
    (validate s name t).2 = .error (.report .unwritable) ∨
      ∃ reasons, (validate s name t).2 = .ok reasons := by
  unfold validate
  cases horacle : s.oracle with
  | none => exact .inr ⟨_, rfl⟩
  | some pair =>
    obtain ⟨oracle, preset⟩ := pair
    obtain ⟨log, answer, hanswer⟩ := hs.oracle oracle preset horacle name (some s.window)
    simp only [hanswer]
    cases answer with
    | some reference => exact compare_cases s preset name t reference
    | none =>
      unfold compareFallback
      cases hfallback : s.fallback with
      | none => exact .inr ⟨_, rfl⟩
      | some fallback =>
        obtain ⟨more, answer, hanswer⟩ := hs.fallback fallback hfallback name (some s.window)
        simp only [hanswer]
        cases answer with
        | none => exact .inr ⟨_, rfl⟩
        | some reference =>
          rcases compare_cases s .host name t reference with h | ⟨reasons, h⟩
          · simp only [h]
            exact .inl rfl
          · simp only [h]
            exact .inr ⟨_, rfl⟩

/-! ## One step -/

theorem checkRollbacks_congr (h : s.SharesWork s₀) (name : String) (t : Timeline) :
    checkRollbacks s name t = checkRollbacks s₀ name t := by
  unfold checkRollbacks Settings.looksForRollbacks
  rw [h.fix, h.warn]

theorem mended_congr (h : s.SharesWork s₀) (t : Timeline) : s.mended t = s₀.mended t := by
  rw [Settings.mended, Settings.mended, h.fix]

theorem product_putTimeline (h : s.SharesWork s₀) (remark : Option String) :
    (r.putTimeline s name remark t).2.product = (r.product.putTimeline s₀ name remark t).2 := by
  unfold Result.putTimeline Result.product
  dsimp only
  rw [h.fix]
  split
  · unfold Result.addTable
    dsimp only
    split
    · rfl
    · rfl
  · rfl

/-- **A step reads nothing of the settings but how to treat rollbacks**, and of the result not the
notes on validation. -/
theorem product_addName (h : s.SharesWork s₀) (hr : r.product = r₀.product) (name : String)
    (t : Timeline) (reasons reasons₀ : List String) :
    (∃ e, r.addName s name t reasons = .error e ∧ r₀.addName s₀ name t reasons₀ = .error e) ∨
      ∃ more more₀ q q₀, r.addName s name t reasons = .ok (more, q) ∧
        r₀.addName s₀ name t reasons₀ = .ok (more₀, q₀) ∧ q.product = q₀.product ∧
        q.timelines = r.timelines.put name (s.mended t) := by
  rw [addName_eq, addName_eq, checkRollbacks_congr h, mended_congr h]
  cases checkRollbacks s₀ name t with
  | error e => exact .inl ⟨e, rfl, rfl⟩
  | ok found =>
    refine .inr ⟨_, _, _, _, rfl, rfl, ?_, (puts_putTimeline ..).timelines_eq⟩
    rw [product_putTimeline h, product_putTimeline ⟨rfl, rfl, rfl⟩, product_validated,
      product_validated, hr]

/-! ## All steps -/

theorem pair_sublist_cons_iff {α : Type} {a b : α} {as : List α} (hne : a ≠ b) :
    [a, a].Sublist (b :: as) ↔ [a, a].Sublist as := by
  constructor
  · intro hsub
    cases hsub with
    | cons _ hsub => exact hsub
    | cons_cons _ hsub => exact absurd rfl hne
  · exact List.Sublist.cons b

theorem canCompareAll_cons_iff (hcan : s.CanCompare name t) (ht : r.timelines.get? name = some t)
    (hq : q.timelines = r.timelines.put name (s.mended t)) :
    s.CanCompareAll r (name :: names) ↔ s.CanCompareAll q names := by
  have hget (other : String) : q.timelines.get? other =
      if other = name then some (s.mended t) else r.timelines.get? other := by
    rw [hq, Registry.get?_put]
  constructor
  · intro h other hother u hu
    rw [hget] at hu
    split at hu
    · rename_i heq
      subst heq
      obtain rfl := Option.some.inj hu
      have hmended := (h other List.mem_cons_self t ht).2
        (List.Sublist.cons_cons other (List.singleton_sublist.2 hother))
      rw [mended_mended]
      exact ⟨hmended, fun _ => hmended⟩
    · rename_i hne
      have hrest := h other (List.mem_cons_of_mem _ hother) u hu
      rwa [pair_sublist_cons_iff hne] at hrest
  · intro h other hother u hu
    by_cases heq : other = name
    · subst heq
      obtain rfl := Option.some.inj (ht.symm.trans hu)
      refine ⟨hcan, fun hsub => ?_⟩
      have hmem : other ∈ names := by
        cases hsub with
        | cons _ hsub => exact hsub.subset List.mem_cons_self
        | cons_cons _ hsub => exact List.singleton_sublist.1 hsub
      exact (h other hmem (s.mended t) (by rw [hget, if_pos rfl])).1
    · have hmem := (List.mem_cons.1 hother).resolve_left heq
      rw [pair_sublist_cons_iff heq]
      exact h other hmem u (by rw [hget, if_neg heq, hu])

theorem canCompareAll_skip (hnone : r.timelines.get? name = none) :
    s.CanCompareAll r (name :: names) ↔ s.CanCompareAll r names := by
  have hne {other : String} {u : Timeline} (hu : r.timelines.get? other = some u) :
      other ≠ name := by
    rintro rfl
    cases hnone.symm.trans hu
  constructor
  · intro h other hother u hu
    have hrest := h other (List.mem_cons_of_mem _ hother) u hu
    rwa [pair_sublist_cons_iff (hne hu)] at hrest
  · intro h other hother u hu
    rw [pair_sublist_cons_iff (hne hu)]
    exact h other ((List.mem_cons.1 hother).resolve_left (hne hu)) u hu

/-- **A batch with oracles has the product of one without**, if its comparisons come to an end. -/
theorem product_addEach (h : s.SharesWork s₀) (hnone : s₀.oracle = none) (hs : s.OraclesAnswer)
    (hr : r.product = r₀.product) (hcan : s.CanCompareAll r names) :
    (addEach s r names).2.map Result.product = (addEach s₀ r₀ names).2.map Result.product := by
  induction names generalizing r r₀ with
  | nil => exact congrArg Except.ok hr
  | cons name names ih =>
    have htimelines : r₀.timelines = r.timelines := by
      rw [← timelines_product, ← hr, timelines_product]
    rw [addEach_cons, addEach_cons, htimelines]
    cases ht : r.timelines.get? name with
    | none => exact ih hr ((canCompareAll_skip ht).1 hcan)
    | some t =>
      have hcompare := (hcan name List.mem_cons_self t ht).1
      obtain ⟨reasons, hreasons⟩ := (validate_isOk_iff hs name t).2 hcompare
      dsimp only
      rw [hreasons, validate_of_oracle_eq_none hnone]
      rcases product_addName h hr name t reasons [] with
        ⟨e, hstep, hstep₀⟩ | ⟨more, more₀, q, q₀, hstep, hstep₀, hq, hput⟩
      · simp only [Except.bind, hstep, hstep₀]
      · simp only [Except.bind, hstep, hstep₀]
        exact ih hq ((canCompareAll_cons_iff hcompare ht hput).1 hcan)

/-- A batch that comes to its end has made its comparisons. -/
theorem canCompareAll_of_addEach (hs : s.OraclesAnswer) (h : (addEach s r names).2 = .ok q) :
    s.CanCompareAll r names := by
  induction names generalizing r with
  | nil => exact fun name hname => absurd hname List.not_mem_nil
  | cons name names ih =>
    rcases addEach_cons_eq_ok_iff.1 h with
      ⟨hnone, h⟩ | ⟨t, reasons, more, r', ht, hvalidate, hstep, h⟩
    · exact (canCompareAll_skip hnone).2 (ih h)
    · have hcompare := (validate_isOk_iff hs name t).1 ⟨reasons, hvalidate⟩
      obtain ⟨validation, remark, hputs⟩ := exists_of_addName hstep
      exact (canCompareAll_cons_iff hcompare ht hputs.timelines_eq).2 (ih h)

theorem eq_unwritable_of_addEach {e : Error} (hvalidate : ∀ name t,
      (validate s name t).2 = .error (.report .unwritable) ∨
        ∃ reasons, (validate s name t).2 = .ok reasons)
    (h : (addEach s r names).2 = .error e) : e = .report .unwritable := by
  induction names generalizing r with
  | nil => cases h
  | cons name names ih =>
    rw [addEach_cons] at h
    split at h
    · exact ih h
    · rename_i t ht
      rcases hvalidate name t with herror | ⟨reasons, hreasons⟩
      · rw [herror] at h
        exact (Except.error.inj h).symm
      · rw [hreasons] at h
        simp only [Except.bind, addName_eq] at h
        rcases checkRollbacks_cases s name t with hcheck | ⟨log, remark, hcheck⟩
        · rw [hcheck] at h
          exact (Except.error.inj h).symm
        · rw [hcheck] at h
          exact ih h

/-! ## The whole batch -/

theorem product_checkTables (r : Result) :
    (checkTables r.product).2 = (checkTables r).2.product := by
  unfold checkTables
  let product (x : Log × Result) : Log × Result := (x.1, x.2.product)
  show (List.foldl _ (product ([], r)) _).2 = _
  rw [List.foldl_hom product]
  · rfl
  · rintro ⟨log, result⟩ ⟨name, table⟩
    dsimp only [timelines_product, product]
    split
    · rfl
    · split
      · rfl
      · rfl

theorem map_product_checkTables (x : Except Error Result) :
    (x.map fun r => (checkTables r).2).map Result.product =
      (x.map Result.product).map fun r => (checkTables r).2 := by
  cases x with
  | error e => rfl
  | ok r => exact congrArg Except.ok (product_checkTables r).symm

/-- Where the batch without an oracle breaks off, the one with oracles does so too. -/
theorem product_addEach_of_canCompareAll (h : s.SharesWork s₀) (hnone : s₀.oracle = none)
    (hs : s.OraclesAnswer)
    (hcan : ∀ q, (addEach s₀ r names).2 = .ok q → s.CanCompareAll r names) :
    (addEach s r names).2.map Result.product = (addEach s₀ r names).2.map Result.product := by
  cases hrun₀ : (addEach s₀ r names).2 with
  | ok q₀ => rw [product_addEach h hnone hs rfl (hcan q₀ hrun₀), hrun₀]
  | error e₀ =>
    have hvalidate₀ (name : String) (t : Timeline) :
        (validate s₀ name t).2 = .error (.report .unwritable) ∨
          ∃ reasons, (validate s₀ name t).2 = .ok reasons := by
      rw [validate_of_oracle_eq_none hnone]
      exact .inr ⟨[], rfl⟩
    rw [eq_unwritable_of_addEach hvalidate₀ hrun₀]
    cases hrun : (addEach s r names).2 with
    | ok q =>
      have hsame := product_addEach h hnone hs (rfl : r.product = r.product)
        (canCompareAll_of_addEach hs hrun)
      rw [hrun, hrun₀] at hsame
      cases hsame
    | error e => rw [eq_unwritable_of_addEach (validate_cases hs) hrun]

/-- **Validation changes nothing but its notes** exactly if every comparison comes to an end that a
batch without an oracle leaves room for. The names are known, and the oracles answer. -/
theorem process_product_iff {options : Source.Options} {sources : Registry String}
    {selected : Option (List String)} {log : Log} {db : Database}
    (hdb : Database.ofSources options sources selected = (log, .ok db))
    (hknown : ∀ name ∈ names, name ∈ db.names) (hs : s.OraclesAnswer) (h : s.SharesWork s₀)
    (hnone : s₀.oracle = none) :
    (process s db names).2.map Result.product = (process s₀ db names).2.map Result.product ↔
      ∀ r, (process s₀ db names).2 = .ok r →
        ∀ name ∈ names, ∀ t, db.CompilesTo name s.window t →
          s.CanCompare name t ∧
            ([name, name].Sublist names → s.CanCompare name (s.mended t)) := by
  have hresolved := Database.isResolved_of_ofSources hdb
  obtain ⟨p, hp, hrecords⟩ := hresolved.compileAll_spec (w := s.window) hknown
  have hcan : s.CanCompareAll (.start names db.size p) names ↔
      ∀ name ∈ names, ∀ t, db.CompilesTo name s.window t →
        s.CanCompare name t ∧ ([name, name].Sublist names → s.CanCompare name (s.mended t)) := by
    refine forall₂_congr fun name hname => forall_congr' fun t => imp_congr_left ?_
    show p.timelines.get? name = some t ↔ _
    rw [hrecords.timelines]
    exact ⟨And.right, fun ht => ⟨hname, ht⟩⟩
  rw [← hcan, process_of_compileAll hp, process_of_compileAll (h.window ▸ hp)]
  constructor
  · intro heq r hr
    rw [hr] at heq
    cases hrun : (addEach s (.start names db.size p) names).2 with
    | error e =>
      rw [hrun] at heq
      cases heq
    | ok q => exact canCompareAll_of_addEach hs hrun
  · intro hreports
    rw [map_product_checkTables, map_product_checkTables]
    refine congrArg _ (product_addEach_of_canCompareAll h hnone hs fun q hq => ?_)
    exact hreports (checkTables q).2 (by rw [hq]; rfl)

/-! ## Two batches with an oracle -/

theorem sharesWork_checkedSettings (w : Window) (reference : Timeline) :
    (checkedSettings w reference).SharesWork (plainSettings w) := ⟨rfl, rfl, rfl⟩

theorem canCompare_checkedSettings_iff (w : Window) (reference : Timeline) (name : String)
    (t : Timeline) : (checkedSettings w reference).CanCompare name t ↔
      (Closeness.zoneinfo 0).CanReport t.transitions reference.transitions := by
  constructor
  · intro h
    exact h .zoneinfo reference rfl
  · intro h preset other heq
    cases heq
    exact h

theorem product_oslo :
    ∃ log db, Database.ofText Database.oslo = (log, .ok db) ∧
      (∀ name ∈ ["Oslo", "Oslo"], name ∈ db.names) ∧
      (checkedSettings ⟨1890, 1990⟩ lateReference).OraclesAnswer ∧
      (checkedSettings ⟨1890, 1990⟩ lateReference).SharesWork (plainSettings ⟨1890, 1990⟩) ∧
      (plainSettings ⟨1890, 1990⟩).oracle = none ∧
      (process (checkedSettings ⟨1890, 1990⟩ lateReference) db ["Oslo", "Oslo"]).2.map
          Result.product =
        (process (plainSettings ⟨1890, 1990⟩) db ["Oslo", "Oslo"]).2.map Result.product := by
  obtain ⟨log, db, t, hdb, ht, hcheck⟩ := Database.exists_compiled Database.oslo "Oslo" ⟨1890, 1990⟩
    (fun db t => decide ("Oslo" ∈ db.names) &&
      decide (fixRollbacks t.transitions = t.transitions) &&
      decide ((Closeness.zoneinfo 0).mismatch? t.transitions lateReference.transitions =
        some (1, ⟨-2366757780, 3600, 0, some "CET", none⟩, ⟨-2366754180, 3600, 0, some "CET", none⟩)))
    (by decide +kernel)
  simp only [Bool.and_eq_true, decide_eq_true_eq] at hcheck
  obtain ⟨⟨hknown, hmended⟩, hmismatch⟩ := hcheck
  have hnames : ∀ name ∈ ["Oslo", "Oslo"], name ∈ db.names := by simpa using hknown
  have hanswer := oraclesAnswer_checkedSettings ⟨1890, 1990⟩ lateReference
  have hwork := sharesWork_checkedSettings ⟨1890, 1990⟩ lateReference
  refine ⟨log, db, hdb, hnames, hanswer, hwork, rfl,
    (process_product_iff hdb hnames hanswer hwork rfl).2 ?_⟩
  intro r hr name hname u hu
  have hname : name = "Oslo" := by simpa using hname
  rw [hname] at hu
  rw [Database.CompilesTo.unique hu ht, canCompare_checkedSettings_iff,
    canCompare_checkedSettings_iff]
  have hreport : (Closeness.zoneinfo 0).CanReport t.transitions lateReference.transitions := by
    intro index v v' heq
    obtain ⟨-, rfl, rfl⟩ := by simpa using hmismatch.symm.trans heq
    decide +kernel
  refine ⟨hreport, fun _ => ?_⟩
  show (Closeness.zoneinfo 0).CanReport (fixRollbacks t.transitions) lateReference.transitions
  rw [hmended]
  exact hreport

/-- The greatest number that can be written. -/
def lastWritable : Int := ((Nat.pow 10 4300 - 1 : Nat) : Int)

/-- The last digits of a number, as many as are asked for. -/
def lastDigits (n : Nat) : Nat → List Char
  | 0 => []
  | i + 1 =>
    match ['0', '1', '2', '3', '4', '5', '6', '7', '8', '9'][n / 10 ^ i % 10]? with
    | some c => c :: lastDigits n i
    | none => []

/-- The year in which the second of that number is. It has 4293 digits. -/
def lastYear : Nat := (localYear lastWritable 0).toNat

/-- A zone whose first line ends 22401 seconds after the second of that number. -/
def farEnd : List Char :=
  "Zone Z 0 - A ".toList ++ lastDigits lastYear 4293 ++ " Aug 11 0:00u\n\t0 - B\n".toList

/-- The same zone with that end at the second of that number. -/
def farReference : Timeline :=
  ⟨none, [⟨beginningOfTime, 0, 0, some "A", none⟩, ⟨lastWritable, 0, 0, some "B", none⟩],
    none, none, none⟩

set_option maxRecDepth 100000 in
/-- The report of the mismatch would tell a time of 4301 digits: the batch breaks off. Without the
oracle it does not. -/
theorem product_farEnd :
    ∃ log db, Database.ofText (String.ofList farEnd) = (log, .ok db) ∧
      (∀ name ∈ ["Z"], name ∈ db.names) ∧
      (checkedSettings farWindow farReference).OraclesAnswer ∧
      (checkedSettings farWindow farReference).SharesWork (plainSettings farWindow) ∧
      (plainSettings farWindow).oracle = none ∧
      (process (checkedSettings farWindow farReference) db ["Z"]).2 =
        .error (.report .unwritable) ∧
      ∃ r, (process (plainSettings farWindow) db ["Z"]).2 = .ok r := by
  have h : ((databaseOf farEnd).2.toOption.any fun db => (db.compiled? "Z" farWindow).any fun t =>
      decide ("Z" ∈ db.names) && (firstRollback? t.transitions).isNone &&
        ((Closeness.zoneinfo 0).mismatch? t.transitions farReference.transitions).any
          fun found => !Text.Numeral.isWritable found.2.1.time) = true := by
    decide +kernel
  simp only [Option.any_eq_true, Bool.and_eq_true, decide_eq_true_eq, Bool.not_eq_true',
    Option.isNone_iff_eq_none] at h
  obtain ⟨db, hdb, t, ht, ⟨hknown, hfirst⟩, found, hmismatch, hlong⟩ := h
  obtain ⟨log, hlog⟩ := Database.exists_of_toOption hdb
  have hdb := (ofText_ofList farEnd).trans hlog
  have hnames : ∀ name ∈ ["Z"], name ∈ db.names := by simpa using hknown
  have hanswer := oraclesAnswer_checkedSettings farWindow farReference
  obtain ⟨p, hp, hrecords⟩ :=
    (Database.isResolved_of_ofSources hdb).compileAll_spec (w := farWindow) hnames
  have htimeline : p.timelines.get? "Z" = some t :=
    (hrecords.timelines _ _).2 ⟨List.mem_cons_self, Database.compilesTo_iff.2 ht⟩
  refine ⟨log, db, hdb, hnames, hanswer, sharesWork_checkedSettings _ _, rfl, ?_, ?_⟩
  · rw [process_of_compileAll hp]
    cases hrun : (addEach (checkedSettings farWindow farReference) (.start ["Z"] db.size p)
        ["Z"]).2 with
    | error e =>
      rw [eq_unwritable_of_addEach (validate_cases hanswer) hrun]
      rfl
    | ok q =>
      have hcompare := (canCompareAll_of_addEach hanswer hrun "Z" List.mem_cons_self t htimeline).1
      rw [canCompare_checkedSettings_iff] at hcompare
      have hshort := hcompare found.1 found.2.1 found.2.2 hmismatch _ List.mem_cons_self
      rw [hlong] at hshort
      cases hshort
  · have hreports : ∀ name ∈ ["Z"], ∀ u,
        (Result.start ["Z"] db.size p).timelines.get? name = some u →
          CanReport (plainSettings farWindow) name u := by
      intro name hname u hu
      rw [List.mem_singleton.1 hname] at hu ⊢
      obtain rfl := Option.some.inj (htimeline.symm.trans hu)
      constructor
      · intro preset reference hreference
        cases hreference
      · intro hwarn prev v heq
        cases hfirst.symm.trans heq
    obtain ⟨q, hq⟩ :=
      (addEach_isOk_iff (oraclesAnswer_plainSettings farWindow) (by decide)).2 hreports
    rw [process_of_compileAll hp, hq]
    exact ⟨_, rfl⟩

end ZoneTables.Batch
