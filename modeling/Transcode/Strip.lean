/-!
# Cutting off what is known

A known front or end is cut off a list, if the list has it.
-/

set_option autoImplicit false

namespace Transcode

variable {α : Type} [DecidableEq α]

/-- Cuts a known front off. -/
def stripStart? : List α → List α → Option (List α)
  | [], rest => some rest
  | _ :: _, [] => none
  | p :: ps, c :: cs => if p = c then stripStart? ps cs else none

theorem stripStart?_append (front rest : List α) :
    stripStart? front (front ++ rest) = some rest := by
  induction front with
  | nil => cases rest <;> rfl
  | cons a front ih => simpa [stripStart?] using ih

/-- Cuts a known end off. -/
def stripEnd? (ending list : List α) : Option (List α) :=
  (stripStart? ending.reverse list.reverse).map List.reverse

end Transcode
