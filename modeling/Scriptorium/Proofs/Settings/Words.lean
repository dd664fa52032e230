import Mathlib.Data.List.TakeWhile

/-!
# Words in front of a rest

A reader takes the longest run of characters of some kind. What was written is read back whole and
alone if all of it is of that kind and the character behind it is not.
-/

namespace Scriptorium.Settings

/-- Nothing of the rest belongs to a run of characters of a kind in front of it. -/
def Stops (kind : Char → Bool) (rest : List Char) : Prop :=
  ∀ char ∈ rest.head?, kind char = false

variable {kind : Char → Bool} {word rest : List Char}

theorem stops_nil (kind : Char → Bool) : Stops kind [] :=
  nofun

theorem stops_cons {char : Char} : Stops kind (char :: rest) ↔ kind char = false := by
  simp [Stops]

theorem takeWhile_word (hword : ∀ char ∈ word, kind char = true) (hrest : Stops kind rest) :
    (word ++ rest).takeWhile kind = word := by
  rw [List.takeWhile_append_of_pos hword]
  cases rest with
  | nil => rw [List.takeWhile_nil, List.append_nil]
  | cons char rest =>
      rw [List.takeWhile_cons_of_neg (by simp [stops_cons.1 hrest]), List.append_nil]

theorem dropWhile_word (hword : ∀ char ∈ word, kind char = true) (hrest : Stops kind rest) :
    (word ++ rest).dropWhile kind = rest := by
  rw [List.dropWhile_append_of_pos hword]
  cases rest with
  | nil => rfl
  | cons char rest => exact List.dropWhile_cons_of_neg (by simp [stops_cons.1 hrest])

end Scriptorium.Settings
