import Mathlib
import Scheduling.Benchmark.Report
import Scheduling.Proofs.Figures

/-!
# Reading comma-separated values

A reader of comma-separated values goes through a text once: commas and line feeds part fields and
records unless they stand between quotes, where a quote is written twice. It gives back every field
that `Report.csvField` writes (`spells_csvField`), so the table of a benchmark is read back row by
row, whatever its names and errors hold (`csv_read`).
-/

namespace Scheduling

namespace Csv

/-! ### The reader -/

/-- Where a reader stands in a field. -/
inductive Place where
  /-- Before its first character. -/
  | front
  /-- In a field without quotes. -/
  | bare
  /-- Between the quotes. -/
  | quoted
  /-- After a quote in a quoted field, which ends the field or is the first of two. -/
  | quote
deriving DecidableEq, Repr

/-- Reads on from a place in a field, given what was read of the field and of its record. Quotes
that are not closed and quotes or carriage returns that stand outside of a quoted field are
refused. -/
def readFrom (place : Place) (field : List Char) (record : List String) :
    List Char → Option (List (List String))
  | [] =>
    if place = .quoted then none
    else if place = .front ∧ record = [] then some []
    else some [record ++ [.ofList field]]
  | c :: rest =>
    if place = .quoted then
      if c = '"' then readFrom .quote field record rest
      else readFrom .quoted (field ++ [c]) record rest
    else if c = ',' then readFrom .front [] (record ++ [.ofList field]) rest
    else if c = '\n' then (readFrom .front [] [] rest).map ((record ++ [.ofList field]) :: ·)
    else if c = '"' then
      if place = .front then readFrom .quoted field record rest
      else if place = .quote then readFrom .quoted (field ++ [c]) record rest
      else none
    else if place = .quote ∨ c = '\r' then none
    else readFrom .bare (field ++ [c]) record rest

/-- The records of a text. -/
def read (text : String) : Option (List (List String)) := readFrom .front [] [] text.toList

example : read "a,\"b \"\"c\"\",\nd\"\ne,\n" = some [["a", "b \"c\",\nd"], ["e", ""]] := by
  decide

example : read "a\"b\n" = none ∧ read "\"a\n" = none ∧ read "\"a\"b\n" = none := by decide

/-! ### Fields -/

variable {place : Place} {field cs rest : List Char} {record values texts : List String}
  {sep : Char}

/-- What is read once a field has ended. -/
def readAfter (sep : Char) (record : List String) (rest : List Char) :
    Option (List (List String)) :=
  if sep = ',' then readFrom .front [] record rest
  else (readFrom .front [] [] rest).map (record :: ·)

/-- A comma or a line feed ends a field that is not open. -/
theorem readFrom_sep (hsep : sep = ',' ∨ sep = '\n') (hplace : place ≠ .quoted) :
    readFrom place field record (sep :: rest) =
      readAfter sep (record ++ [.ofList field]) rest := by
  rw [readFrom, if_neg hplace, readAfter]
  rcases hsep with rfl | rfl
  · rw [if_pos rfl, if_pos rfl]
  · rw [if_neg (by decide), if_pos rfl, if_neg (by decide)]

/-- The characters are read as the field when a comma or a line feed follows. -/
def Spells (text : String) (cs : List Char) : Prop :=
  ∀ (record : List String) (sep : Char) (rest : List Char), sep = ',' ∨ sep = '\n' →
    readFrom .front [] record (cs ++ sep :: rest) = readAfter sep (record ++ [text]) rest

/-- The characters that a field without quotes cannot hold. -/
def special : List Char := [',', '"', '\n', '\r']

theorem readFrom_bare (hcs : ∀ c ∈ cs, c ∉ special) (hsep : sep = ',' ∨ sep = '\n')
    (hplace : place = .front ∨ place = .bare) :
    readFrom place field record (cs ++ sep :: rest) =
      readAfter sep (record ++ [.ofList (field ++ cs)]) rest := by
  induction cs generalizing place field with
  | nil =>
    rw [List.nil_append, List.append_nil, readFrom_sep hsep (by rcases hplace with rfl | rfl <;> simp)]
  | cons c cs ih =>
    obtain ⟨hc, hcs⟩ := List.forall_mem_cons.1 hcs
    simp only [special, List.mem_cons, List.not_mem_nil, or_false, not_or] at hc
    obtain ⟨hcomma, hquote, hfeed, hreturn⟩ := hc
    have hopen : ¬ place = .quoted ∧ ¬ place = .quote := by rcases hplace with rfl | rfl <;> simp
    rw [List.cons_append, readFrom, if_neg hopen.1, if_neg hcomma, if_neg hfeed, if_neg hquote,
      if_neg (not_or.2 ⟨hopen.2, hreturn⟩), ih hcs (.inr rfl), List.append_assoc,
      List.singleton_append]

theorem spells_bare {text : String} (h : ∀ c ∈ text.toList, c ∉ special) :
    Spells text text.toList := by
  intro record sep rest hsep
  rw [readFrom_bare h hsep (.inl rfl), List.nil_append, String.ofList_toList]

/-- A character between quotes. -/
def doubled (c : Char) : List Char := if c = '"' then ['"', '"'] else [c]

theorem readFrom_quoted (field : List Char) (record : List String) (cs rest : List Char)
    (hsep : sep = ',' ∨ sep = '\n') :
    readFrom .quoted field record (cs.flatMap doubled ++ '"' :: sep :: rest) =
      readAfter sep (record ++ [.ofList (field ++ cs)]) rest := by
  induction cs generalizing field with
  | nil =>
    rw [List.flatMap_nil, List.nil_append, List.append_nil, readFrom, if_pos rfl, if_pos rfl,
      readFrom_sep hsep (by decide)]
  | cons c cs ih =>
    have hread : readFrom .quoted field record
        (doubled c ++ (cs.flatMap doubled ++ '"' :: sep :: rest)) =
        readFrom .quoted (field ++ [c]) record (cs.flatMap doubled ++ '"' :: sep :: rest) := by
      unfold doubled
      by_cases hc : c = '"'
      · subst hc
        rfl
      · rw [if_neg hc, List.singleton_append, readFrom, if_pos rfl, if_neg hc]
    rw [List.flatMap_cons, List.append_assoc, hread, ih, List.append_assoc, List.singleton_append]

/-- Every text is read back from its field. -/
theorem spells_csvField (text : String) : Spells text (Report.csvField text).toList := by
  unfold Report.csvField
  split
  · intro record sep rest hsep
    have hchars : ("\"" ++ String.ofList (text.toList.flatMap doubled) ++ "\"").toList ++ sep :: rest =
        '"' :: (text.toList.flatMap doubled ++ '"' :: sep :: rest) := by
      simp [String.toList_append]
    have hread := readFrom_quoted [] record text.toList rest hsep
    rw [List.nil_append, String.ofList_toList] at hread
    exact (congrArg _ hchars).trans hread
  · rename_i hplain
    refine spells_bare fun c hc hspecial => hplain ?_
    exact List.any_eq_true.2 ⟨c, hc, decide_eq_true hspecial⟩

theorem spells_figure {text : String} (h : Figure text) : Spells text text.toList := by
  refine spells_bare fun c hc hspecial => ?_
  simp only [special, List.mem_cons, List.not_mem_nil, or_false] at hspecial
  rcases hspecial with rfl | rfl | rfl | rfl <;> exact h.not_mem (by decide) hc

/-! ### Records -/

/-- The fields of a row are read as one record. -/
theorem readFrom_row (record : List String) (rest : List Char)
    (h : List.Forall₂ (fun value text => Spells value text.toList) values texts)
    (hne : texts ≠ []) :
    readFrom .front [] record ((",".intercalate texts).toList ++ '\n' :: rest) =
      (readFrom .front [] [] rest).map ((record ++ values) :: ·) := by
  rw [String.toList_intercalate]
  induction h generalizing record with
  | nil => exact absurd rfl hne
  | @cons value text values texts hvalue h ih =>
    cases h with
    | nil =>
      rw [List.map_singleton, List.intercalate_singleton, hvalue record '\n' rest (.inr rfl)]
      rfl
    | @cons value' text' values texts hvalue' h =>
      have hcomma : ",".toList = [','] := rfl
      rw [List.map_cons, List.map_cons, List.intercalate_cons_cons, List.append_assoc,
        List.append_assoc, hcomma, List.singleton_append, hvalue record ',' _ (.inl rfl)]
      have hrest := ih (record ++ [value]) (List.cons_ne_nil _ _)
      rw [List.append_assoc, List.singleton_append] at hrest
      exact hrest

end Csv

namespace Report

open Csv

theorem readFrom_csvRow {values texts : List String} {rest : List Char}
    (h : List.Forall₂ (fun value text => Spells value text.toList) values texts)
    (hne : texts ≠ []) :
    readFrom .front [] [] ((csvRow texts).toList ++ rest) =
      (readFrom .front [] [] rest).map (values :: ·) := by
  have hrow := readFrom_row [] rest h hne
  rw [csvRow, String.toList_append, List.append_assoc]
  exact hrow

theorem spells_orEmpty {α : Type} {write : α → String} (h : ∀ a, Figure (write a)) (v : Option α) :
    Spells (orEmpty write v) (orEmpty write v).toList := by
  cases v with
  | none => exact spells_figure (show Figure "" by decide)
  | some a => exact spells_figure (h a)

/-- The nine fields that a reader finds in the row of a run: the name of its model and the wording
of its error as they are, and the texts of its figures. -/
def csvRecord (r : RunResult) : List String :=
  [r.modelName, orEmpty Nat.repr r.seed, if r.hasFailed then "error" else "solved",
    orEmpty Layout.plain.write r.objective?, orEmpty Layout.plain.write r.lowerBound?,
    orEmpty (fun s => Nat.repr s.nbSolutions) r.solved?, orEmpty Layout.plain.write r.duration?,
    orEmpty (fun s => if s.proof then "true" else "false") r.solved?, r.error?.getD ""]

theorem spells_csvFields (r : RunResult) :
    List.Forall₂ (fun value text => Spells value text.toList) (csvRecord r) (csvFields r) := by
  have hstatus : Figure (if r.hasFailed then "error" else "solved") := .ite (by decide) (by decide)
  have hfloat (x : Option Float) := spells_orEmpty (Layout.figure_write .plain) x
  have hproof (s : SolveResult) : Figure (if s.proof then "true" else "false") :=
    .ite (by decide) (by decide)
  exact .cons (spells_csvField _) (.cons (spells_orEmpty figure_repr _) (.cons (spells_figure hstatus)
    (.cons (hfloat _) (.cons (hfloat _) (.cons (spells_orEmpty (fun _ => figure_repr _) _)
      (.cons (hfloat _) (.cons (spells_orEmpty hproof _) (.cons (spells_csvField _) .nil))))))))

/-- The rows of runs are read as their records. -/
theorem readFrom_csvRows (results : List RunResult) :
    readFrom .front [] [] ((String.join (results.map fun r => csvRow (csvFields r))).toList) =
      some (results.map csvRecord) := by
  induction results with
  | nil => rfl
  | cons r results ih =>
    rw [List.map_cons, String.join_cons, String.toList_append,
      readFrom_csvRow (spells_csvFields r) (List.cons_ne_nil _ _), ih]
    rfl

/-- The table of a benchmark is read back as its header and one record of nine fields for each run,
in order. The name of the model and the wording of the error are as they were, whatever characters
they hold. -/
theorem csv_read (results : List RunResult) :
    Csv.read (csv results) = some (csvHeader :: results.map csvRecord) := by
  have hheader : List.Forall₂ (fun value text => Spells value text.toList) csvHeader csvHeader :=
    List.forall₂_same.2 fun text htext => spells_figure <| by
      revert text
      decide
  rw [Csv.read, csv, String.join_cons, String.toList_append,
    readFrom_csvRow hheader (List.cons_ne_nil _ _), readFrom_csvRows]
  rfl

end Report

end Scheduling
