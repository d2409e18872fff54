import Mathlib.Data.List.Basic

/-!
# Lines

The lines of a text that come before its first empty line, where two symbols end a line.
-/

namespace Foundation

variable {α : Type*} [DecidableEq α] {cr lf : α} {l : List α}

/-- `seen` is what the line that has begun starts with. A line without an end is left out. -/
def headLines (cr lf : α) (seen : List α) : List α → List (List α)
  | [] => []
  | [_] => []
  | a :: b :: rest =>
    if a = cr ∧ b = lf then if seen = [] then [] else seen :: headLines cr lf [] rest
    else headLines cr lf (seen ++ [a]) (b :: rest)

theorem headLines_line (free : cr ∉ l) (seen rest : List α) :
    headLines cr lf seen (l ++ cr :: lf :: rest) =
      if seen ++ l = [] then [] else (seen ++ l) :: headLines cr lf [] rest := by
  induction l generalizing seen with
  | nil => simp [headLines]
  | cons a l ih =>
    obtain ⟨other, free⟩ := not_or.mp (mt List.mem_cons.mpr free)
    have next := ih free (seen ++ [a])
    rw [List.append_assoc] at next
    cases l with
    | nil => simp [headLines, Ne.symm other]
    | cons b l => simpa [headLines, Ne.symm other] using next

theorem headLines_block (lf : α) {lines : List (List α)} (full : ∀ l ∈ lines, cr ∉ l ∧ l ≠ []) (rest : List α) :
    headLines cr lf [] (lines.flatMap (· ++ [cr, lf]) ++ cr :: lf :: rest) = lines := by
  induction lines with
  | nil => simp [headLines]
  | cons l lines ih =>
    obtain ⟨free, nonempty⟩ := full l List.mem_cons_self
    have later := ih fun l member => full l (List.mem_cons_of_mem _ member)
    rw [List.flatMap_cons, List.append_assoc, List.append_assoc]
    show headLines cr lf [] (l ++ cr :: lf :: _) = _
    rw [headLines_line free, List.nil_append, if_neg nonempty]
    exact congrArg _ later

end Foundation
