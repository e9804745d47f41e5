import Mathlib.Data.Finset.Card
import Mathlib.Data.Finset.Image
import ZoneTables.Proofs.Base60
import ZoneTables.Table.Decode

/-!
# Kinds of local time as texts

The text of a kind reads back (`readKind_text`) if its name is a word. Hence different kinds have
different texts, and the second section of a table has as many entries as there are kinds
(`length_kindTexts`).
-/

namespace ZoneTables.Table

open Text

namespace Kind

/-- The kind of local time that starts at a transition. -/
def of (t : Transition) : Kind := ⟨t.utcOffset, t.dstOffset, t.name⟩

/-- A kind as it stands in a table. -/
def text (k : Kind) : List Char :=
  Base60.writeMinutes k.utcOffset ++ '/' :: Base60.writeMinutes k.dstOffset ++
    match k.name with
    | some name => if name.isEmpty then [] else '/' :: name.toList
    | none => []

/-- The name, if there is one, is a word that is not empty. -/
def HasWord (k : Kind) : Prop := ∀ name, k.name = some name → name ≠ "" ∧ IsWord name.toList

/-- The name, if there is one, is not empty and has no blanks and no semicolons. -/
def IsPlain (k : Kind) : Prop :=
  ∀ name, k.name = some name → name ≠ "" ∧ IsWord name.toList ∧ ';' ∉ name.toList

theorem IsPlain.hasWord {k : Kind} (h : k.IsPlain) : k.HasWord :=
  fun name hname => ⟨(h name hname).1, (h name hname).2.1⟩

instance (k : Kind) : Decidable k.IsPlain :=
  inferInstanceAs (Decidable (∀ name ∈ k.name, name ≠ "" ∧ IsWord name.toList ∧ ';' ∉ name.toList))

end Kind

theorem kind_eq_text (t : Transition) : kind t = (Kind.of t).text := rfl

theorem isBlank_digitChar : ∀ d < 60, isBlank (Base60.digitChar d) = false := by decide

theorem digitChar_ne_separator :
    ∀ d < 60, Base60.digitChar d ≠ '/' ∧ Base60.digitChar d ≠ ';' := by
  decide

theorem lacks_slash_writeMinutes (x : Int) : Lacks (· == '/') (Base60.writeMinutes x) :=
  Base60.lacks_writeMinutes (fun d hd => by simpa using (digitChar_ne_separator d hd).1)
    (by decide) (by decide) x

theorem lacks_semicolon_writeMinutes (x : Int) : Lacks (· == ';') (Base60.writeMinutes x) :=
  Base60.lacks_writeMinutes (fun d hd => by simpa using (digitChar_ne_separator d hd).2)
    (by decide) (by decide) x

theorem isWord_writeMinutes (x : Int) : IsWord (Base60.writeMinutes x) :=
  Base60.lacks_writeMinutes isBlank_digitChar (by decide) (by decide) x

theorem readMinutes_write (x : Int) : readMinutes (Base60.writeMinutes x) = .ok x := by
  unfold readMinutes
  rw [Base60.readMinutes_writeMinutes]
  rfl

namespace Kind

variable {k l : Kind}

theorem text_of_name {name : String} (h : k.name = some name) (hne : name ≠ "") :
    k.text = Base60.writeMinutes k.utcOffset ++ '/' :: (Base60.writeMinutes k.dstOffset ++
      '/' :: name.toList) := by
  simp [text, h, hne]

theorem text_of_no_name (h : k.name = none) :
    k.text = Base60.writeMinutes k.utcOffset ++ '/' :: Base60.writeMinutes k.dstOffset := by
  simp [text, h]

/-- **Kinds read back.** -/
theorem readKind_text (h : k.HasWord) : readKind k.text = .ok k := by
  obtain ⟨utc, dst, name⟩ := k
  cases name with
  | none =>
    rw [text_of_no_name rfl, readKind, cutAtMost_append_cons 1 (lacks_slash_writeMinutes utc) rfl,
      cutAtMost_of_lacks 1 (lacks_slash_writeMinutes dst)]
    simp only [readMinutes_write]
    rfl
  | some name =>
    rw [text_of_name rfl (h name rfl).1, readKind,
      cutAtMost_append_cons 1 (lacks_slash_writeMinutes utc) rfl,
      cutAtMost_append_cons 0 (lacks_slash_writeMinutes dst) rfl, cutAtMost_zero]
    simp only [readMinutes_write, List.head?_cons, Option.map_some, String.ofList_toList]
    rfl

theorem text_injective (hk : k.HasWord) (hl : l.HasWord) (h : k.text = l.text) : k = l := by
  have hread := readKind_text hk
  rw [h, readKind_text hl] at hread
  exact (Except.ok.inj hread).symm

theorem lacks_text {p : Char → Bool} (hx : ∀ x, Lacks p (Base60.writeMinutes x))
    (hs : p '/' = false) (hname : ∀ name, k.name = some name → Lacks p name.toList) :
    Lacks p k.text := by
  obtain ⟨utc, dst, name⟩ := k
  refine lacks_append.2 ⟨lacks_append.2 ⟨hx utc, lacks_cons.2 ⟨hs, hx dst⟩⟩, ?_⟩
  cases name with
  | none => exact lacks_nil
  | some name =>
    show Lacks p (if name.isEmpty then [] else '/' :: name.toList)
    split
    · exact lacks_nil
    · exact lacks_cons.2 ⟨hs, hname name rfl⟩

theorem isWord_text (h : k.HasWord) : IsWord k.text := by
  apply lacks_text isWord_writeMinutes (by decide)
  intro name hname
  exact (h name hname).2

theorem lacks_semicolon_text (h : k.IsPlain) : Lacks (· == ';') k.text := by
  apply lacks_text lacks_semicolon_writeMinutes (by decide)
  intro name hname
  rw [lacks_beq]
  exact (h name hname).2.2

theorem text_ne_nil (k : Kind) : k.text ≠ [] := by
  simp [text]

end Kind

/-! ## The kinds of a list -/

section

variable {α : Type} [BEq α] [LawfulBEq α]

theorem nodup_eraseDups (l : List α) : l.eraseDups.Nodup := by
  induction hn : l.length using Nat.strongRecOn generalizing l with
  | ind n ih =>
    cases l with
    | nil => simp
    | cons a l =>
      have hlt : (l.filter fun b => !b == a).length < n := by
        have := List.length_filter_le (fun b => !b == a) l
        simp only [List.length_cons] at hn
        omega
      rw [List.eraseDups_cons, List.nodup_cons]
      exact ⟨by simp, ih _ hlt _ rfl⟩

theorem length_eraseDups [DecidableEq α] (l : List α) : l.eraseDups.length = l.toFinset.card := by
  rw [← List.toFinset_card_of_nodup (nodup_eraseDups l)]
  congr 1
  ext a
  simp

end

/-- **The kinds of a list have as many texts.** -/
theorem length_kindTexts {ts : List Transition} (h : ∀ t ∈ ts, (Kind.of t).IsPlain) :
    (ts.map kind).eraseDups.length = (ts.map Kind.of).toFinset.card := by
  have himage : (ts.map kind).toFinset = (ts.map Kind.of).toFinset.image Kind.text := by
    ext text
    simp [kind_eq_text]
  rw [length_eraseDups, himage, Finset.card_image_of_injOn]
  intro k hk l hl hkl
  obtain ⟨t, ht, rfl⟩ := List.mem_map.1 (List.mem_toFinset.1 (Finset.mem_coe.1 hk))
  obtain ⟨u, hu, rfl⟩ := List.mem_map.1 (List.mem_toFinset.1 (Finset.mem_coe.1 hl))
  exact Kind.text_injective (h t ht).hasWord (h u hu).hasWord hkl

end ZoneTables.Table
