/-!
# Fields of a text

* `fields sep cs`    what stands between the separators: one field more than there are separators
* `joined sep fs`    the fields with the separator between them
-/

namespace Gemfile.Text

def fields (sep : Char) : List Char → List (List Char)
  | [] => [[]]
  | c :: cs => if c = sep then [] :: fields sep cs else (fields sep cs).modifyHead (c :: ·)

def joined (sep : Char) : List (List Char) → List Char
  | [] => []
  | [f] => f
  | f :: g :: fs => f ++ sep :: joined sep (g :: fs)

theorem fields_nil (sep : Char) : fields sep [] = [[]] := rfl
theorem fields_cons (sep c : Char) (cs : List Char) :
    fields sep (c :: cs) =
      if c = sep then [] :: fields sep cs else (fields sep cs).modifyHead (c :: ·) := rfl

theorem fields_ne_nil (sep : Char) (cs : List Char) : fields sep cs ≠ [] := by
  induction cs with
  | nil => simp [fields_nil]
  | cons c cs ih =>
    rw [fields_cons]
    split
    · simp
    · cases h : fields sep cs with
      | nil => exact absurd h ih
      | cons f fs => simp

theorem joined_fields (sep : Char) (cs : List Char) : joined sep (fields sep cs) = cs := by
  induction cs with
  | nil => rfl
  | cons c cs ih =>
    rw [fields_cons]
    split
    · next h =>
      cases hf : fields sep cs with
      | nil => exact absurd hf (fields_ne_nil sep cs)
      | cons f fs =>
        rw [hf] at ih
        simp [joined, ih, h]
    · cases hf : fields sep cs with
      | nil => exact absurd hf (fields_ne_nil sep cs)
      | cons f fs =>
        rw [hf] at ih
        cases fs with
        | nil => simpa [joined] using congrArg (c :: ·) ih
        | cons g gs => simpa [joined] using congrArg (c :: ·) ih

end Gemfile.Text
