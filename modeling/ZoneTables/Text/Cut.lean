/-!
# Cutting text

Text is handled as a list of characters. `cut` separates it at the characters of a class,
`cutAtMost` does so for a bounded number of times, `around?` finds the first occurrence of a word,
`trim` takes a class of characters off both ends, and `splitSign` takes a sign off the front.
-/

namespace ZoneTables.Text

/-- The pieces between the characters that satisfy `p`: one more piece than such characters. -/
def cut (p : Char → Bool) : List Char → List (List Char)
  | [] => [[]]
  | c :: r => if p c then [] :: cut p r else (cut p r).modifyHead (c :: ·)

/-- As `cut`, but only the first `n` separators count. -/
def cutAtMost (p : Char → Bool) : Nat → List Char → List (List Char)
  | _, [] => [[]]
  | 0, c :: r => [c :: r]
  | n + 1, c :: r =>
    if p c then [] :: cutAtMost p n r else (cutAtMost p (n + 1) r).modifyHead (c :: ·)

/-- The text before and after the first occurrence of `word`. -/
def around? (word : List Char) : List Char → Option (List Char × List Char)
  | [] => if word.isEmpty then some ([], []) else none
  | c :: r =>
    if word.isPrefixOf (c :: r) then some ([], (c :: r).drop word.length)
    else (around? word r).map fun (before, after) => (c :: before, after)

/-- The text without the characters of the class `p` at its end. -/
def trimEnd (p : Char → Bool) (cs : List Char) : List Char :=
  (cs.reverse.dropWhile p).reverse

/-- The text without the characters of the class `p` at either end. -/
def trim (p : Char → Bool) (cs : List Char) : List Char :=
  trimEnd p (cs.dropWhile p)

/-- Whether there is a minus sign in front, and what follows the sign, if there is one. -/
def splitSign : List Char → Bool × List Char
  | '-' :: cs => (true, cs)
  | '+' :: cs => (false, cs)
  | cs => (false, cs)

/-- Pieces joined by a separator. -/
def join (sep : List Char) : List (List Char) → List Char
  | [] => []
  | [w] => w
  | w :: ws => w ++ sep ++ join sep ws

theorem cut_ne_nil (p : Char → Bool) (cs : List Char) : cut p cs ≠ [] := by
  induction cs with
  | nil => simp [cut]
  | cons c r ih =>
    by_cases h : p c
    · simp [cut, h]
    · obtain ⟨w, ws, hw⟩ := List.exists_cons_of_ne_nil ih
      simp [cut, h, hw]

end ZoneTables.Text
