import ZoneTables.Text.Blank

/-!
# Pieces put together and cut apart

Pieces that are free of a separator come back from the text that joins them: `cut_join` for any
separator, `words_join` for blanks, and `cutAtMost_append_cons` for a bounded number of cuts. The
pieces of a text hold nothing that is not in it.
-/

namespace ZoneTables.Text

/-- No character of the text satisfies `p`. -/
def Lacks (p : Char → Bool) (cs : List Char) : Prop := ∀ c ∈ cs, p c = false

variable {p : Char → Bool} {sep : Char} {w cs : List Char} {ws : List (List Char)}

instance : Decidable (Lacks p cs) :=
  decidable_of_iff (cs.all fun c => !p c) (by simp [Lacks])

@[simp] theorem lacks_nil : Lacks p [] := by simp [Lacks]

@[simp] theorem lacks_cons {c : Char} : Lacks p (c :: cs) ↔ p c = false ∧ Lacks p cs := by
  simp [Lacks]

@[simp] theorem lacks_append {ds : List Char} : Lacks p (cs ++ ds) ↔ Lacks p cs ∧ Lacks p ds := by
  simp [Lacks, or_imp, forall_and]

theorem lacks_map {α : Type} {f : α → Char} {as : List α} :
    Lacks p (as.map f) ↔ ∀ a ∈ as, p (f a) = false := by
  unfold Lacks
  simp

theorem lacks_reverse (h : Lacks p cs) : Lacks p cs.reverse :=
  fun c hc => h c (List.mem_reverse.1 hc)

theorem lacks_beq {c : Char} : Lacks (· == c) cs ↔ c ∉ cs := by
  constructor
  · intro h hc
    simpa using h c hc
  · intro h d hd
    simp only [beq_eq_false_iff_ne, ne_eq]
    rintro rfl
    exact h hd

/-! ## Joining -/

theorem join_cons {sep : List Char} (hne : ws ≠ []) :
    join sep (w :: ws) = w ++ sep ++ join sep ws := by
  rw [join]
  exact hne

theorem join_append {sep : List Char} {vs : List (List Char)} (hv : vs ≠ []) (hw : ws ≠ []) :
    join sep (vs ++ ws) = join sep vs ++ sep ++ join sep ws := by
  induction vs with
  | nil => exact absurd rfl hv
  | cons v vs ih =>
    by_cases hvs : vs = []
    · subst hvs
      exact join_cons hw
    · rw [List.cons_append, join_cons (by simp [hvs]), join_cons hvs, ih hvs]
      simp only [List.append_assoc]

theorem lacks_join {sep : List Char} (hs : Lacks p sep) (h : ∀ w ∈ ws, Lacks p w) :
    Lacks p (join sep ws) := by
  induction ws with
  | nil => exact lacks_nil
  | cons w ws ih =>
    obtain ⟨hw, hws⟩ := List.forall_mem_cons.1 h
    by_cases hne : ws = []
    · subst hne
      exact hw
    · rw [join_cons hne]
      exact lacks_append.2 ⟨lacks_append.2 ⟨hw, hs⟩, ih hws⟩

/-! ## Cutting -/

theorem cut_of_lacks (h : Lacks p w) : cut p w = [w] := by
  induction w with
  | nil => rfl
  | cons c w ih =>
    obtain ⟨hc, hw⟩ := lacks_cons.1 h
    rw [cut, hc, ih hw]
    rfl

/-- A text up to its first separator is its first piece. -/
theorem cut_append_cons (h : Lacks p w) (hs : p sep = true) :
    cut p (w ++ sep :: cs) = w :: cut p cs := by
  induction w with
  | nil => simp [cut, hs]
  | cons c w ih =>
    obtain ⟨hc, hw⟩ := lacks_cons.1 h
    rw [List.cons_append, cut, hc, ih hw]
    rfl

/-- **Cutting undoes joining**, for pieces without a separator. -/
theorem cut_join (hs : p sep = true) (hne : ws ≠ []) (h : ∀ w ∈ ws, Lacks p w) :
    cut p (join [sep] ws) = ws := by
  induction ws with
  | nil => exact absurd rfl hne
  | cons w ws ih =>
    have hw := h w List.mem_cons_self
    cases ws with
    | nil => exact cut_of_lacks hw
    | cons v vs =>
      have hvs := ih (List.cons_ne_nil v vs) fun u hu => h u (List.mem_cons_of_mem w hu)
      rw [join, List.append_assoc, List.singleton_append, cut_append_cons hw hs, hvs]
      simp

section

variable {v ds : List Char} (hs : p sep = true) (hv : Lacks p v) (hw : Lacks p w)

include hs hv hw

theorem append_cons_inj (h : v ++ sep :: cs = w ++ sep :: ds) : v = w ∧ cs = ds := by
  have hcut := congrArg (cut p) h
  rw [cut_append_cons hv hs, cut_append_cons hw hs] at hcut
  obtain rfl := (List.cons.inj hcut).1
  exact ⟨rfl, (List.cons.inj (List.append_cancel_left h)).2⟩

theorem append_cons_inj_last (h : cs ++ sep :: v = ds ++ sep :: w) : cs = ds ∧ v = w := by
  have hreverse : v.reverse ++ sep :: cs.reverse = w.reverse ++ sep :: ds.reverse := by
    simpa using congrArg List.reverse h
  obtain ⟨hafter, hbefore⟩ := append_cons_inj hs (lacks_reverse hv) (lacks_reverse hw) hreverse
  exact ⟨List.reverse_inj.1 hbefore, List.reverse_inj.1 hafter⟩

end

theorem lacks_of_mem_cut (hw : w ∈ cut p cs) : Lacks p w := by
  induction cs generalizing w with
  | nil => simp_all [cut]
  | cons c cs ih =>
    rw [cut] at hw
    split at hw
    · rcases List.mem_cons.1 hw with rfl | hw
      · exact lacks_nil
      · exact ih hw
    · rename_i hc
      obtain ⟨v, vs, hv⟩ := List.exists_cons_of_ne_nil (cut_ne_nil p cs)
      rw [hv, List.modifyHead_cons] at hw
      rcases List.mem_cons.1 hw with rfl | hw
      · exact lacks_cons.2 ⟨by simpa using hc, ih (hv ▸ List.mem_cons_self)⟩
      · exact ih (hv ▸ List.mem_cons_of_mem v hw)

theorem mem_of_mem_cut {c : Char} (hc : c ∈ w) (hw : w ∈ cut p cs) : c ∈ cs := by
  induction cs generalizing w with
  | nil => simp_all [cut]
  | cons d cs ih =>
    rw [cut] at hw
    split at hw
    · rcases List.mem_cons.1 hw with rfl | hw
      · cases hc
      · exact List.mem_cons_of_mem _ (ih hc hw)
    · obtain ⟨v, vs, hv⟩ := List.exists_cons_of_ne_nil (cut_ne_nil p cs)
      rw [hv, List.modifyHead_cons] at hw
      rcases List.mem_cons.1 hw with rfl | hw
      · rcases List.mem_cons.1 hc with rfl | hc
        · exact List.mem_cons_self
        · exact List.mem_cons_of_mem _ (ih hc (hv ▸ List.mem_cons_self))
      · exact List.mem_cons_of_mem _ (ih hc (hv ▸ List.mem_cons_of_mem v hw))

theorem cutAtMost_of_lacks (n : Nat) (h : Lacks p w) : cutAtMost p n w = [w] := by
  induction w generalizing n with
  | nil => cases n <;> rfl
  | cons c w ih =>
    obtain ⟨hc, hw⟩ := lacks_cons.1 h
    cases n with
    | zero => rfl
    | succ n =>
      rw [cutAtMost, hc, ih (n + 1) hw]
      rfl

theorem cutAtMost_zero (cs : List Char) : cutAtMost p 0 cs = [cs] := by
  cases cs <;> rfl

theorem cutAtMost_append_cons (n : Nat) (h : Lacks p w) (hs : p sep = true) :
    cutAtMost p (n + 1) (w ++ sep :: cs) = w :: cutAtMost p n cs := by
  induction w with
  | nil => simp [cutAtMost, hs]
  | cons c w ih =>
    obtain ⟨hc, hw⟩ := lacks_cons.1 h
    rw [List.cons_append, cutAtMost, hc, ih hw]
    rfl

/-! ## Words -/

/-- A word is a text with no blank in it. -/
abbrev IsWord (cs : List Char) : Prop := Lacks isBlank cs

theorem words_join (h : ∀ w ∈ ws, IsWord w ∧ w ≠ []) : words (join [' '] ws) = ws := by
  by_cases hne : ws = []
  · subst hne
    rfl
  · rw [words, cut_join (by decide) hne fun w hw => (h w hw).1, List.filter_eq_self]
    intro w hw
    simpa using (h w hw).2

theorem isWord_of_mem_words (hw : w ∈ words cs) : IsWord w :=
  lacks_of_mem_cut (List.mem_filter.1 hw).1

/-! ## Trimmed text, around a word, and after a sign -/

theorem mem_of_mem_trim {c : Char} (hc : c ∈ trim p cs) : c ∈ cs := by
  have hend := List.mem_reverse.1 ((List.dropWhile_sublist p).subset (List.mem_reverse.1 hc))
  exact (List.dropWhile_sublist p).subset hend

theorem mem_of_splitSign_fst (h : (splitSign cs).1 = true) : '-' ∈ cs := by
  unfold splitSign at h
  split at h
  · exact List.mem_cons_self
  · cases h
  · cases h

theorem eq_of_around? {word before after : List Char} (h : around? word cs = some (before, after)) :
    cs = before ++ word ++ after := by
  induction cs generalizing before with
  | nil =>
    cases word with
    | nil => simp_all [around?]
    | cons c word => simp [around?] at h
  | cons c cs ih =>
    rw [around?] at h
    split at h
    · rename_i hp
      obtain ⟨rest, hrest⟩ := List.isPrefixOf_iff_prefix.1 hp
      obtain ⟨rfl, rfl⟩ := Prod.mk.inj (Option.some.inj h)
      rw [← hrest]
      simp
    · obtain ⟨⟨b, a⟩, hb, he⟩ := Option.map_eq_some_iff.1 h
      obtain ⟨rfl, rfl⟩ := Prod.mk.inj he
      rw [ih hb]
      simp

theorem splitSign_cons {c : Char} (hm : c ≠ '-') (hp : c ≠ '+') :
    splitSign (c :: cs) = (false, c :: cs) := by
  unfold splitSign
  split <;> simp_all

end ZoneTables.Text
