import Mathlib.Data.List.Basic
import Scheduling.Proofs.Json.OneLine
import Scheduling.Text.Blank

/-!
# Lines of texts

What the lines of a text are (`LinesOf`), said without a way to find them. The lines that are found
are these (`linesOf_iff`): a text has exactly one list of lines, and none only if it is empty.
-/

namespace Scheduling

/-- The lines of a text. A line feed ends a line, and a carriage return before it is no part of the
line. What stands after the last line feed is a line too, unless there is nothing. -/
inductive LinesOf : String → List String → Prop
  | nil : LinesOf "" []
  | last {line : String} (hne : line ≠ "") (hline : InLine line) : LinesOf line [line]
  | feed {line text : String} {lines : List String} (hline : InLine line)
      (hend : line.toList.getLast? ≠ some '\r') (h : LinesOf text lines) :
      LinesOf (line ++ "\n" ++ text) (line :: lines)
  | returnFeed {line text : String} {lines : List String} (hline : InLine line)
      (h : LinesOf text lines) : LinesOf (line ++ "\r\n" ++ text) (line :: lines)

/-! ### Finding lines -/

theorem splitAtChar_of_not_mem {c : Char} {cs : List Char} (h : c ∉ cs) :
    splitAtChar c cs = [cs] := by
  induction cs with
  | nil => rfl
  | cons d cs ih =>
    obtain ⟨hd, hcs⟩ := List.ne_and_not_mem_of_not_mem_cons h
    rw [splitAtChar, if_neg (Ne.symm hd), ih hcs]

theorem splitAtChar_append {c : Char} {cs : List Char} (h : c ∉ cs) (rest : List Char) :
    splitAtChar c (cs ++ c :: rest) = cs :: splitAtChar c rest := by
  induction cs with
  | nil => exact if_pos rfl
  | cons d cs ih =>
    obtain ⟨hd, hcs⟩ := List.ne_and_not_mem_of_not_mem_cons h
    rw [List.cons_append, splitAtChar, if_neg (Ne.symm hd), ih hcs]

theorem splitAtChar_ne_nil (c : Char) (cs : List Char) : splitAtChar c cs ≠ [] := by
  cases cs with
  | nil => exact List.cons_ne_nil _ _
  | cons d cs =>
    rw [splitAtChar]
    repeat' split
    all_goals exact List.cons_ne_nil _ _

theorem dropReturn_of_getLast? {line : List Char} (h : line.getLast? ≠ some '\r') :
    dropReturn line = line := if_neg h

theorem dropReturn_concat (line : List Char) : dropReturn (line ++ ['\r']) = line := by
  simp [dropReturn]

/-- What follows the last line feed is a line, unless there is nothing. -/
theorem charLines_of_not_mem {cs : List Char} (h : '\n' ∉ cs) :
    charLines cs = if cs = [] then [] else [cs] := by
  rw [charLines, splitAtChar_of_not_mem h]
  cases cs <;> rfl

/-- The first line ends at the first line feed. -/
theorem charLines_append {line : List Char} (h : '\n' ∉ line) (rest : List Char) :
    charLines (line ++ '\n' :: rest) = dropReturn line :: charLines rest := by
  obtain ⟨part, parts, hrest⟩ := List.exists_cons_of_ne_nil (splitAtChar_ne_nil '\n' rest)
  rw [charLines, charLines, splitAtChar_append h, hrest, List.getLast?_cons_cons,
    List.dropLast_cons_cons, List.map_cons]
  split <;> rfl

theorem textLines_of_inLine {text : String} (hne : text ≠ "") (h : InLine text) :
    textLines text = [text] := by
  have hcs : text.toList ≠ [] := by simpa using hne
  rw [textLines, charLines_of_not_mem h, if_neg hcs, List.map_singleton, String.ofList_toList]

theorem textLines_append {line : String} (h : InLine line) (text : String) :
    textLines (line ++ "\n" ++ text) =
      String.ofList (dropReturn line.toList) :: textLines text := by
  rw [textLines, String.toList_append, String.toList_append, List.append_assoc]
  exact congrArg (List.map String.ofList) (charLines_append h text.toList)

/-! ### The lines that are found -/

theorem LinesOf.eq {text : String} {lines : List String} (h : LinesOf text lines) :
    lines = textLines text := by
  induction h with
  | nil => rfl
  | last hne hline => rw [textLines_of_inLine hne hline]
  | feed hline hend _ ih =>
    rw [textLines_append hline, dropReturn_of_getLast? hend, String.ofList_toList, ih]
  | @returnFeed line text _ hline _ ih =>
    have hreturn : InLine (line ++ "\r") := hline.append (by decide)
    have hdrop : dropReturn (line ++ "\r").toList = line.toList := by
      rw [String.toList_append]
      exact dropReturn_concat line.toList
    rw [show "\r\n" = "\r" ++ "\n" from rfl, ← String.append_assoc, textLines_append hreturn, hdrop,
      String.ofList_toList, ih]

theorem linesOf_ofList (cs : List Char) :
    LinesOf (String.ofList cs) (textLines (String.ofList cs)) := by
  -- a text with a line feed is its first line and a shorter text
  induction hn : cs.length using Nat.strongRecOn generalizing cs with
  | ind n ih =>
    by_cases hmem : '\n' ∈ cs
    · obtain ⟨line, rest, rfl, hline⟩ := List.eq_append_cons_of_mem hmem
      have hrest := ih rest.length (by simp at hn; omega) rest rfl
      have hin : InLine (String.ofList line) := inLine_ofList hline
      have hfeed : String.ofList (line ++ '\n' :: rest) =
          String.ofList line ++ "\n" ++ String.ofList rest := by
        simp [← String.toList_inj]
      rw [hfeed, textLines_append hin, String.toList_ofList]
      by_cases hend : line.getLast? = some '\r'
      · obtain ⟨front, rfl⟩ := List.getLast?_eq_some_iff.1 hend
        have hreturn : String.ofList (front ++ ['\r']) ++ "\n" = String.ofList front ++ "\r\n" := by
          simp [← String.toList_inj]
        rw [dropReturn_concat, hreturn]
        refine .returnFeed (inLine_ofList fun h => hline ?_) hrest
        exact List.mem_append_left _ h
      · rw [dropReturn_of_getLast? hend]
        refine .feed hin ?_ hrest
        rwa [String.toList_ofList]
    · have hin : InLine (String.ofList cs) := inLine_ofList hmem
      by_cases hcs : cs = []
      · subst hcs
        exact .nil
      · have hne : String.ofList cs ≠ "" := by simpa using hcs
        rw [textLines_of_inLine hne hin]
        exact .last hne hin

/-- The lines that are found are the lines of the text. -/
theorem linesOf_iff {text : String} {lines : List String} :
    LinesOf text lines ↔ lines = textLines text := by
  refine ⟨LinesOf.eq, fun h => ?_⟩
  rw [h, ← String.ofList_toList (s := text)]
  exact linesOf_ofList text.toList

/-- Only an empty text has no line. -/
theorem textLines_eq_nil {text : String} : textLines text = [] ↔ text = "" := by
  refine ⟨fun h => ?_, fun h => h ▸ rfl⟩
  have hlines : LinesOf text [] := linesOf_iff.2 h.symm
  cases hlines
  rfl

example : textLines "one\ntwo\r\n\nthree\r" = ["one", "two", "", "three\r"] := by decide

end Scheduling
