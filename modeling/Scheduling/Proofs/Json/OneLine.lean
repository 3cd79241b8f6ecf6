import Scheduling.Json.Writer
import Scheduling.Proofs.Figures

/-!
# One line

The text of a JSON value without spaces is one line, whatever its strings hold (`inLine_compact`).
-/

namespace Scheduling

/-- There is no line feed in the text. -/
def InLine (s : String) : Prop := '\n' ∉ s.toList

instance (s : String) : Decidable (InLine s) := inferInstanceAs (Decidable ('\n' ∉ s.toList))

theorem InLine.append {s t : String} (hs : InLine s) (ht : InLine t) : InLine (s ++ t) := by
  intro h
  rw [String.toList_append, List.mem_append] at h
  exact h.elim hs ht

theorem inLine_ofList {cs : List Char} (h : '\n' ∉ cs) : InLine (String.ofList cs) := by
  rwa [InLine, String.toList_ofList]

theorem inLine_ite {p : Prop} [Decidable p] {s t : String} (hs : InLine s) (ht : InLine t) :
    InLine (if p then s else t) := by
  split
  · exact hs
  · exact ht

/-! ### Numbers -/

theorem Figure.inLine {s : String} (h : Figure s) : InLine s := h.not_mem (by decide)

theorem inLine_repr (n : Nat) : InLine (Nat.repr n) := (figure_repr n).inLine

theorem inLine_intText (v : Int) : InLine (intText v) :=
  (inLine_ite (by decide) (by decide)).append (inLine_repr _)

/-! ### Values -/

namespace Json

theorem escapeDigit_ne (n : Nat) : escapeDigit n ≠ '\n' := by
  have h : ∀ k < 16, Nat.digitChar k ≠ '\n' := by decide
  exact h (n % 16) (Nat.mod_lt n (by decide))

/-- A line feed is escaped like every control. -/
theorem not_mem_escapeChar (c : Char) : '\n' ∉ escapeChar c := by
  unfold escapeChar
  split
  · decide
  split
  · decide
  split
  · decide
  rename_i hfeed
  repeat' split
  case isFalse => simpa using Ne.symm hfeed
  all_goals first
    | decide
    | simp [Ne.symm (escapeDigit_ne _)]

theorem inLine_writeString (s : String) : InLine (writeString s) := by
  refine (InLine.append (by decide) (inLine_ofList fun h => ?_)).append (by decide)
  obtain ⟨c, -, hc⟩ := List.mem_flatMap.1 h
  exact not_mem_escapeChar c hc

theorem inLine_writeFloat (x : Float) : InLine (writeFloat x) :=
  inLine_ite (Layout.figure_write _ x).inLine (by decide)

theorem inLine_comma (first : Bool) : InLine (if first then "" else ",") :=
  inLine_ite (by decide) (by decide)

mutual

/-- Without spaces a value is one line. -/
theorem inLine_compact (j : Json) : InLine j.compact := by
  match j with
  | .null | .flaw _ => exact (by decide : InLine "null")
  | .bool b => exact inLine_ite (by decide) (by decide)
  | .int v => exact inLine_intText v
  | .float x => exact inLine_writeFloat x
  | .str s => exact inLine_writeString s
  | .arr items =>
    exact (InLine.append (by decide) (inLine_compactItems items true)).append (by decide)
  | .obj members =>
    exact (InLine.append (by decide) (inLine_compactMembers members true)).append
      (by decide)

theorem inLine_compactItems (items : List Json) (first : Bool) :
    InLine (compactItems items first) := by
  match items with
  | [] => exact (by decide : InLine "")
  | j :: rest =>
    exact ((inLine_comma first).append (inLine_compact j)).append (inLine_compactItems rest false)

theorem inLine_compactMembers (members : List (String × Json)) (first : Bool) :
    InLine (compactMembers members first) := by
  match members with
  | [] => exact (by decide : InLine "")
  | (key, j) :: rest =>
    have hcolon : InLine ":" := by decide
    exact ((((inLine_comma first).append (inLine_writeString key)).append hcolon).append
      (inLine_compact j)).append (inLine_compactMembers rest false)

end

end Json

end Scheduling
