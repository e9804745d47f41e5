import Mathlib.Data.List.TakeWhile
import ZoneTables.Database
import ZoneTables.Proofs.Text.Pieces

/-!
# The lines of a source

A text is read line by line. Its lines hold no line end, and with the ends after them they are the
text again (`IsCutInto`): no other lines do that (`isCutInto_iff`). Of each line what comes before
a comment sign is left, without the blanks at its end (`IsContentOf`), and what is left of the
lines has their numbers, from one on, unless it is empty (`numbersLines_numberedLines`).
-/

namespace ZoneTables.Source

open Text

variable {text line ending rest raw : List Char} {ls : List (List Char)} {c : Char}

/-! ## Lines of a text -/

/-- A carriage return with the line feed after it, or one character. -/
inductive IsLineEnd : List Char → Prop
  | pair : IsLineEnd ['\r', '\n']
  | single {c : Char} : endsLine c = true → IsLineEnd [c]

/-- A text is made of lines with their ends. The last line may go without an end if it is not
empty, and a carriage return that ends a line has no line feed after it. -/
inductive IsCutInto : List Char → List (List Char) → Prop
  | nil : IsCutInto [] []
  | last {line : List Char} : line ≠ [] → Lacks endsLine line → IsCutInto line [line]
  | cons {line ending rest : List Char} {ls : List (List Char)} :
      Lacks endsLine line → IsLineEnd ending → (ending = ['\r'] → rest.head? ≠ some '\n') →
        IsCutInto rest ls → IsCutInto (line ++ (ending ++ rest)) (line :: ls)

theorem lines_cons_of_endsLine (hc : endsLine c = true) (h : c = '\r' → rest.head? ≠ some '\n') :
    lines (c :: rest) = [] :: lines rest := by
  rw [lines, if_pos hc]
  rintro r rfl rfl
  exact h rfl rfl

theorem lines_cons_of_not_endsLine (hc : endsLine c = false) :
    lines (c :: rest) = (c :: (lines rest).headD []) :: (lines rest).tail := by
  rw [lines, hc]
  · cases lines rest <;> rfl
  · rintro r rfl
    exact absurd hc (by decide)

/-- **A line with its end** is the first line of the text that it begins. -/
theorem lines_append (hline : Lacks endsLine line) (hending : IsLineEnd ending)
    (hfeed : ending = ['\r'] → rest.head? ≠ some '\n') :
    lines (line ++ (ending ++ rest)) = line :: lines rest := by
  induction line with
  | nil =>
    cases hending with
    | pair => rfl
    | single hc => exact lines_cons_of_endsLine hc fun h => hfeed (by rw [h])
  | cons c line ih =>
    obtain ⟨hc, hline⟩ := lacks_cons.1 hline
    rw [List.cons_append, lines_cons_of_not_endsLine hc, ih hline]
    rfl

theorem lines_of_lacks (hne : line ≠ []) (hline : Lacks endsLine line) : lines line = [line] := by
  induction line with
  | nil => exact absurd rfl hne
  | cons c line ih =>
    obtain ⟨hc, hline⟩ := lacks_cons.1 hline
    rw [lines_cons_of_not_endsLine hc]
    by_cases hnil : line = []
    · rw [hnil]
      rfl
    · rw [ih hnil hline]
      rfl

theorem IsCutInto.cons_char (hc : endsLine c = false) (h : IsCutInto rest ls) :
    IsCutInto (c :: rest) ((c :: ls.headD []) :: ls.tail) := by
  cases h with
  | nil => exact .last (by simp) (by simpa using hc)
  | last _ hline => exact .last (by simp) (lacks_cons.2 ⟨hc, hline⟩)
  | cons hline hending hfeed hrest => exact .cons (lacks_cons.2 ⟨hc, hline⟩) hending hfeed hrest

theorem isCutInto_lines (text : List Char) : IsCutInto text (lines text) := by
  induction text using lines.induct with
  | case1 => exact .nil
  | case2 r ih => exact .cons lacks_nil .pair (by simp) ih
  | case3 c r hfeed hc ih =>
    have hhead : c = '\r' → r.head? ≠ some '\n' := by
      rintro rfl hr
      obtain ⟨r', rfl⟩ := List.head?_eq_some_iff.1 hr
      exact hfeed r' rfl rfl
    rw [lines_cons_of_endsLine hc hhead]
    exact .cons lacks_nil (.single hc) (fun h => hhead (List.singleton_inj.1 h)) ih
  | case4 c r _ hc hr ih =>
    rw [lines_cons_of_not_endsLine (by simpa using hc)]
    exact ih.cons_char (by simpa using hc)
  | case5 c r _ hc l ls hr ih =>
    rw [lines_cons_of_not_endsLine (by simpa using hc)]
    exact ih.cons_char (by simpa using hc)

/-- **A text has one sequence of lines.** -/
theorem isCutInto_iff : IsCutInto text ls ↔ ls = lines text := by
  constructor
  · intro h
    induction h with
    | nil => rfl
    | last hne hline => exact (lines_of_lacks hne hline).symm
    | cons hline hending hfeed _ ih => rw [lines_append hline hending hfeed, ih]
  · rintro rfl
    exact isCutInto_lines text

/-! ## What is left of a line -/

/-- What comes before the comment sign of a line, if it has one, without the blanks at its end. -/
structure IsContentOf (line raw : List Char) : Prop where
  cut : ∃ blanks comment, raw = line ++ blanks ++ comment ∧ '#' ∉ line ++ blanks ∧
    (∀ c ∈ blanks, isBlank c = true) ∧ ∀ c ∈ comment.head?, c = '#'
  trimmed : ∀ c ∈ line.getLast?, isBlank c = false

theorem takeWhile_dropWhile_iff {p : Char → Bool} (cs before after : List Char) :
    cs.takeWhile p = before ∧ cs.dropWhile p = after ↔
      cs = before ++ after ∧ (∀ c ∈ before, p c = true) ∧ ∀ c ∈ after.head?, p c = false := by
  constructor
  · rintro ⟨rfl, rfl⟩
    refine ⟨List.takeWhile_append_dropWhile.symm, fun c hc => List.mem_takeWhile_imp hc, ?_⟩
    intro c hc
    have hnot := List.head?_dropWhile_not p cs
    rw [Option.mem_def.1 hc] at hnot
    simpa using hnot
  · rintro ⟨rfl, hbefore, hafter⟩
    rw [List.takeWhile_append_of_pos hbefore, List.dropWhile_append_of_pos hbefore]
    cases after with
    | nil => simp
    | cons c after => simp [hafter c rfl]

theorem eq_takeWhile_iff {p : Char → Bool} {cs before : List Char} :
    before = cs.takeWhile p ↔ ∃ after, cs = before ++ after ∧ (∀ c ∈ before, p c = true) ∧
      ∀ c ∈ after.head?, p c = false := by
  rw [eq_comm]
  simp only [← takeWhile_dropWhile_iff, exists_and_left, exists_eq', and_true]

theorem eq_trimEnd_iff {p : Char → Bool} {cs : List Char} : line = trimEnd p cs ↔
    ∃ tail, cs = line ++ tail ∧ (∀ c ∈ tail, p c = true) ∧ ∀ c ∈ line.getLast?, p c = false := by
  have h (before : List Char) := takeWhile_dropWhile_iff cs.reverse before line.reverse (p := p)
  constructor
  · intro hline
    obtain ⟨happend, htail, hlast⟩ :=
      (h _).1 ⟨rfl, by rw [hline, trimEnd, List.reverse_reverse]⟩
    refine ⟨(cs.reverse.takeWhile p).reverse, ?_, by simpa using htail, by simpa using hlast⟩
    have hreverse := congrArg List.reverse happend
    rwa [List.reverse_append, List.reverse_reverse, List.reverse_reverse] at hreverse
  · rintro ⟨tail, rfl, htail, hlast⟩
    have hdrop := ((h tail.reverse).2
      ⟨List.reverse_append, by simpa using htail, by simpa using hlast⟩).2
    rw [trimEnd, hdrop, List.reverse_reverse]

theorem isContentOf_iff :
    IsContentOf line raw ↔ line = trimEnd isBlank (raw.takeWhile (· != '#')) := by
  rw [eq_trimEnd_iff]
  constructor
  · rintro ⟨⟨blanks, comment, rfl, hsign, hblanks, hcomment⟩, hlast⟩
    refine ⟨blanks, ?_, hblanks, hlast⟩
    refine (eq_takeWhile_iff.2 ⟨comment, rfl, fun c hc => ?_, fun c hc => ?_⟩).symm
    · rw [bne_iff_ne]
      rintro rfl
      exact hsign hc
    · simpa using hcomment c hc
  · rintro ⟨blanks, hcontent, hblanks, hlast⟩
    obtain ⟨comment, hraw, hsign, hcomment⟩ := eq_takeWhile_iff.1 hcontent.symm
    refine ⟨⟨blanks, comment, hraw, fun hmem => ?_, hblanks, by simpa using hcomment⟩, hlast⟩
    exact absurd (hsign '#' hmem) (by decide)

/-! ## Numbered lines -/

/-- What is left of the lines of a text, each with its number and in their order. Lines of which
nothing is left have no part in it. -/
structure NumbersLines (text : List Char) (numbered : List (Nat × List Char)) : Prop where
  mem_iff : ∀ number line, (number, line) ∈ numbered ↔ ∃ ls i raw, IsCutInto text ls ∧
    ls[i]? = some raw ∧ number = i + 1 ∧ IsContentOf line raw ∧ line ≠ []
  ordered : numbered.Pairwise fun a b => a.1 < b.1

theorem numbersLines_numberedLines (text : List Char) :
    NumbersLines text (numberedLines text) where
  mem_iff number line := by
    simp only [numberedLines, List.mem_filter, List.mem_map, Prod.exists, Prod.mk.injEq,
      isCutInto_iff, isContentOf_iff, List.mk_mem_zipIdx_iff_le_and_getElem?_sub]
    constructor
    · rintro ⟨⟨raw, n, ⟨hle, hraw⟩, rfl, rfl⟩, hne⟩
      exact ⟨_, n - 1, raw, rfl, hraw, by omega, rfl, by simpa using hne⟩
    · rintro ⟨ls, i, raw, rfl, hraw, rfl, rfl, hne⟩
      exact ⟨⟨raw, i + 1, ⟨by omega, hraw⟩, rfl, rfl⟩, by simpa using hne⟩
  ordered := by
    refine List.Pairwise.filter _ (List.pairwise_map.2 ?_)
    have hnumbers : (((lines text).zipIdx 1).map Prod.snd).Pairwise (· < ·) := by
      rw [List.zipIdx_map_snd]
      exact List.pairwise_lt_range'
    exact List.pairwise_map.1 hnumbers

end ZoneTables.Source
