import Scheduling.Decimal.Layout

/-!
# Characters of figures

The text of a number has digits, signs, points and a few letters, and no character that a format
could take for its own (`figure_write`, `figure_fixedPlaces`).
-/

namespace Scheduling

/-- Whether a character stands in the text of a number. -/
def isFigure (c : Char) : Bool := c.isDigit || c.isAlpha || c == '.' || c == '-' || c == '+'

/-- All characters of the text stand in numbers. -/
def Figure (s : String) : Prop := ∀ c ∈ s.toList, isFigure c

instance (s : String) : Decidable (Figure s) :=
  List.decidableBAll _ _

namespace Figure

variable {s t : String} {c : Char}

theorem not_mem (h : Figure s) (hc : isFigure c = false) : c ∉ s.toList := fun hmem =>
  Bool.false_ne_true (hc.symm.trans (h c hmem))

theorem append (hs : Figure s) (ht : Figure t) : Figure (s ++ t) := by
  intro c hc
  rw [String.toList_append, List.mem_append] at hc
  exact hc.elim (hs c) (ht c)

theorem ofList {cs : List Char} (h : ∀ c ∈ cs, isFigure c) : Figure (String.ofList cs) := by
  rwa [Figure, String.toList_ofList]

theorem ite {p : Prop} [Decidable p] (hs : Figure s) (ht : Figure t) :
    Figure (if p then s else t) := by
  split
  · exact hs
  · exact ht

end Figure

/-! ### Natural numbers -/

theorem isDigit_of_mem_repr {n : Nat} {c : Char} (h : c ∈ (Nat.repr n).toList) : c.isDigit := by
  rw [Nat.toList_repr] at h
  exact Nat.isDigit_of_mem_toDigits (by decide) (by decide) h

theorem figure_repr (n : Nat) : Figure (Nat.repr n) := fun c hc => by
  rw [isFigure, isDigit_of_mem_repr hc]
  rfl

/-! ### Floats -/

namespace Layout

theorem isFigure_of_mem_zeros {n : Nat} {c : Char} (h : c ∈ List.replicate n '0') : isFigure c := by
  rw [List.eq_of_mem_replicate h]
  rfl

theorem figure_zeros (n : Nat) : Figure (zeros n) := .ofList fun _ => isFigure_of_mem_zeros

theorem figure_unscaled (l : Layout) (d : Decimal) : Figure (l.unscaled d) := by
  have hdigits := figure_repr d.coefficient
  unfold unscaled
  split
  · exact ((figure_repr _).append (figure_zeros _)).append (.ite (by decide) (by decide))
  · refine .ite ?_ ?_
    · refine (Figure.append (.ofList fun c hc => ?_) (by decide)).append (.ofList fun c hc => ?_)
      · exact hdigits c (List.mem_of_mem_take hc)
      · exact hdigits c (List.mem_of_mem_drop hc)
    · exact (Figure.append (by decide) (figure_zeros _)).append (figure_repr _)

theorem figure_scaled (l : Layout) (d : Decimal) (lead : Int) : Figure (l.scaled d lead) := by
  have hdigits := figure_repr d.coefficient
  have hhead : Figure (String.ofList ((Nat.repr d.coefficient).toList.take 1)) :=
    .ofList fun c hc => hdigits c (List.mem_of_mem_take hc)
  have htail : Figure ("." ++ String.ofList ((Nat.repr d.coefficient).toList.drop 1)) :=
    Figure.append (by decide) (.ofList fun c hc => hdigits c (List.mem_of_mem_drop hc))
  have hsign : Figure (if lead < 0 then "-" else if l.plusSign then "+" else "") :=
    .ite (by decide) (.ite (by decide) (by decide))
  have hpower : Figure "e" := by decide
  exact (((hhead.append (.ite (by decide) htail)).append hpower).append hsign).append (figure_repr _)

theorem figure_magnitude (l : Layout) (d : Decimal) : Figure (l.magnitude d) := by
  unfold magnitude
  split
  · exact figure_unscaled l d
  · exact .ite (figure_unscaled l d) (figure_scaled l d _)

theorem figure_write (l : Layout) (x : Float) : Figure (l.write x) := by
  have hsign : Figure (if isSigned x then "-" else "") := .ite (by decide) (by decide)
  exact .ite (by decide) (.ite (hsign.append (by decide)) (hsign.append (figure_magnitude l _)))

end Layout

theorem figure_fixedPlaces (places : Nat) (x : Float) : Figure (fixedPlaces places x) := by
  have hsign : Figure (if isSigned x then "-" else "") := .ite (by decide) (by decide)
  have hpadded (n k : Nat) : ∀ c ∈ (Layout.zeros k ++ Nat.repr n).toList, isFigure c :=
    (Layout.figure_zeros k).append (figure_repr n)
  refine .ite (by decide) (.ite (hsign.append (by decide)) ?_)
  refine ((hsign.append (.ofList fun c hc => ?_)).append (by decide)).append
    (.ofList fun c hc => ?_)
  · exact hpadded _ _ c (List.mem_of_mem_take hc)
  · exact hpadded _ _ c (List.mem_of_mem_drop hc)

end Scheduling
