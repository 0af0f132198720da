/-!
# Searching in text

Letter case here is that of the letters A to Z; all other characters are left alone.
-/

namespace RenderGraph.Text

/-- The text with the letters A to Z in lower case. -/
def lowercase (s : String) : String := s.map Char.toLower

/-- The text before a final occurrence of `ending`. -/
def beforeEnding? (ending s : String) : Option String :=
  let head := String.ofList (s.toList.take (s.length - ending.length))
  if head ++ ending = s then some head else none

/-- What is left is what stands before the ending. -/
theorem beforeEnding?_eq_some_iff {ending s head : String} :
    beforeEnding? ending s = some head ↔ s = head ++ ending := by
  unfold beforeEnding?
  constructor
  · intro h
    simp only [Option.ite_none_right_eq_some, Option.some.injEq] at h
    rw [← h.2, h.1]
  · rintro rfl
    have : String.ofList ((head ++ ending).toList.take ((head ++ ending).length - ending.length)) = head := by
      rw [String.toList_append, String.length_append, Nat.add_sub_cancel, ← String.length_toList,
        List.take_left, String.ofList_toList]
    rw [this, if_pos rfl]

/-- Whether `part` stands somewhere in a text. -/
def occursIn (part : List Char) : List Char → Bool
  | [] => part.isEmpty
  | c :: rest => part.isPrefixOf (c :: rest) || occursIn part rest

def contains (s part : String) : Bool := occursIn part.toList s.toList

/-- The pieces of a text between the occurrences of a character; a text without any is one piece. -/
def split (separator : Char) (s : String) : List String := (s.toList.splitOn separator).map String.ofList

end RenderGraph.Text
