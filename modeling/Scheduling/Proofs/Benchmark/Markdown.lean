import Mathlib
import Scheduling.Proofs.Benchmark.Stats
import Scheduling.Proofs.Figures

/-!
# Tables in Markdown

A page in Markdown is read line by line, and a row of a table is split at its bars, unless a
backslash stands before them. The page of a benchmark holds two tables of the right shape exactly
when the names of models are cells of one line and errors have one line: of all texts that a row is
made of, only bars of the status are escaped (`Report.markdown_tables_iff`).
-/

namespace Scheduling

namespace Markdown

/-! ### Splitting -/

/-- The parts of a text between its separators. Whether a character is one may hang on the character
before it. -/
def parts (sep : Option Char → Char → Bool) (prev : Option Char) : List Char → List (List Char)
  | [] => [[]]
  | c :: cs =>
    if sep prev c then [] :: parts sep (some c) cs
    else (parts sep (some c) cs).modifyHead (c :: ·)

section Parts

variable {sep : Option Char → Char → Bool} {prev prev' : Option Char} {c d s : Char}
  {xs ys : List Char}

theorem parts_ne_nil (sep : Option Char → Char → Bool) (prev : Option Char) (xs : List Char) :
    parts sep prev xs ≠ [] := by
  induction xs generalizing prev with
  | nil => exact List.cons_ne_nil _ _
  | cons c xs ih =>
    rw [parts]
    split
    · exact List.cons_ne_nil _ _
    · exact fun h => ih (some c) (List.modifyHead_eq_nil_iff.1 h)

theorem parts_congr (h : ∀ c, sep prev c = sep prev' c) :
    parts sep prev xs = parts sep prev' xs := by
  cases xs with
  | nil => rfl
  | cons c xs => rw [parts, parts, h]

/-- A text without separators is one part. -/
theorem parts_eq_singleton (h : ∀ prev, ∀ c ∈ xs, sep prev c = false) :
    parts sep prev xs = [xs] := by
  induction xs generalizing prev with
  | nil => rfl
  | cons c xs ih =>
    rw [parts, h prev c List.mem_cons_self, if_neg Bool.false_ne_true,
      ih fun prev c hc => h prev c (List.mem_cons_of_mem _ hc), List.modifyHead_cons]

/-- A text that is one part is that part. -/
theorem parts_of_length (h : (parts sep prev xs).length = 1) : parts sep prev xs = [xs] := by
  induction xs generalizing prev with
  | nil => rfl
  | cons c xs ih =>
    rw [parts] at h ⊢
    split at h <;> rename_i hc
    · have hpos := List.length_pos_of_ne_nil (parts_ne_nil sep (some c) xs)
      rw [List.length_cons] at h
      omega
    · rw [List.length_modifyHead] at h
      rw [if_neg hc, ih h, List.modifyHead_cons]

/-- What stands before a separator is parted from what stands after it. -/
theorem parts_append (xs ys : List Char) (hs : sep (some d) s = true) :
    parts sep prev (xs ++ d :: s :: ys) =
      parts sep prev (xs ++ [d]) ++ parts sep (some s) ys := by
  induction xs generalizing prev with
  | nil =>
    simp only [List.nil_append, parts, hs, if_true]
    split <;> rfl
  | cons c xs ih =>
    rw [List.cons_append, List.cons_append, parts, parts, ih]
    split
    · rfl
    · obtain ⟨part, rest, hparts⟩ :=
        List.exists_cons_of_ne_nil (parts_ne_nil sep (some c) (xs ++ [d]))
      rw [hparts]
      rfl

theorem length_parts_append (h : ∀ prev, ∀ c ∈ ys, sep prev c = false) :
    (parts sep prev (xs ++ ys)).length = (parts sep prev xs).length := by
  induction xs generalizing prev with
  | nil =>
    rw [List.nil_append, parts_eq_singleton h, parts, List.length_singleton, List.length_singleton]
  | cons c xs ih =>
    rw [List.cons_append, parts, parts]
    split
    · rw [List.length_cons, List.length_cons, ih]
    · rw [List.length_modifyHead, List.length_modifyHead, ih]

end Parts

/-! ### Lines -/

/-- A line feed or a carriage return ends a line, and so do the two together. -/
def endsLine (prev : Option Char) (c : Char) : Bool :=
  c = '\r' || (c = '\n' && prev != some '\r')

/-- The rest of a text after a carriage return, without the line feed that belongs to it. -/
def dropFeed : List Char → List Char
  | '\n' :: cs => cs
  | cs => cs

/-- The lines of a text. -/
def lines (text : List Char) : List (List Char) := (parts endsLine none text).map dropFeed

example : lines "a\nb\r\n\rc".toList = ["a".toList, "b".toList, [], "c".toList] := by decide

/-- A text has one line. -/
def IsLine (text : List Char) : Prop := (parts endsLine none text).length = 1

instance (text : List Char) : Decidable (IsLine text) := inferInstanceAs (Decidable (_ = _))

section Lines

variable {c d : Char} {xs ys : List Char}

/-- A text has one line exactly when it has no line break. -/
theorem isLine_iff : IsLine xs ↔ ∀ c ∈ xs, c ≠ '\n' ∧ c ≠ '\r' := by
  constructor
  · have hline (prev : Option Char) (hprev : prev ≠ some '\r')
        (h : (parts endsLine prev xs).length = 1) : ∀ c ∈ xs, c ≠ '\n' ∧ c ≠ '\r' := by
      induction xs generalizing prev with
      | nil => exact fun c hc => nomatch hc
      | cons c xs ih =>
        rw [parts] at h
        split at h <;> rename_i hc
        · have hpos := List.length_pos_of_ne_nil (parts_ne_nil endsLine (some c) xs)
          rw [List.length_cons] at h
          omega
        · have hplain : c ≠ '\n' ∧ c ≠ '\r' := by simpa [endsLine, hprev, and_comm] using hc
          rw [List.length_modifyHead] at h
          have hrest := ih (some c) (fun hc => hplain.2 (Option.some.inj hc)) h
          exact List.forall_mem_cons.2 ⟨hplain, hrest⟩
    exact hline none (by simp)
  · intro h
    rw [IsLine, parts_eq_singleton, List.length_singleton]
    intro prev c hc
    simp [endsLine, h c hc]

theorem isLine_append_iff : IsLine (xs ++ ys) ↔ IsLine xs ∧ IsLine ys := by
  simp only [isLine_iff, List.forall_mem_append]

theorem lines_ne_nil (text : List Char) : lines text ≠ [] := fun h =>
  parts_ne_nil endsLine none text (List.map_eq_nil_iff.1 h)

theorem length_lines (text : List Char) : (lines text).length = (parts endsLine none text).length :=
  List.length_map _

theorem lines_of_isLine (h : IsLine xs) : lines xs = [xs] := by
  rw [lines, parts_of_length h, List.map_singleton]
  cases xs with
  | nil => rfl
  | cons c xs =>
    have hfeed : c ≠ '\n' := (isLine_iff.1 h c List.mem_cons_self).1
    rw [dropFeed]
    exact fun cs hcs => hfeed (List.cons.inj hcs).1

theorem parts_after_feed (xs : List Char) : parts endsLine (some '\n') xs = parts endsLine none xs :=
  parts_congr fun _ => rfl

/-- A line feed ends a line unless a carriage return stands before it. -/
theorem lines_append (hd : d ≠ '\r') :
    lines (xs ++ d :: '\n' :: ys) = lines (xs ++ [d]) ++ lines ys := by
  have hfeed : endsLine (some d) '\n' = true := by simp [endsLine, hd]
  rw [lines, parts_append xs ys hfeed, parts_after_feed, List.map_append]
  rfl

theorem lines_cons_of_isLine (h : IsLine xs) : lines (xs ++ '\n' :: ys) = xs :: lines ys := by
  obtain rfl | ⟨zs, d, rfl⟩ := List.eq_nil_or_concat xs
  · rw [List.nil_append, lines, parts, parts_after_feed]
    rfl
  · have hd : d ≠ '\r' := (isLine_iff.1 h d (by simp)).2
    rw [List.concat_eq_append] at h ⊢
    rw [List.append_assoc, List.singleton_append, lines_append hd, lines_of_isLine h,
      List.singleton_append]

end Lines

/-! ### Cells -/

/-- A bar parts the cells of a row unless a backslash stands before it. -/
def partsCells (prev : Option Char) (c : Char) : Bool := c = '|' && prev != some '\\'

/-- The cells of a row, which starts with a bar and ends with a bar. -/
def cells? (line : List Char) : Option (List (List Char)) :=
  match parts partsCells none line with
  | [] :: rest => if rest.getLast? = some [] then some rest.dropLast else none
  | _ => none

example : cells? "| a | b\\|c |".toList = some [" a ".toList, " b\\|c ".toList] ∧
    cells? "| a \\|".toList = none := by decide

/-- A text has one cell. -/
def IsCell (text : List Char) : Prop := (parts partsCells none text).length = 1

instance (text : List Char) : Decidable (IsCell text) := inferInstanceAs (Decidable (_ = _))

/-- The line of a row with these cells. -/
def rowLine (cells : List (List Char)) : List Char :=
  '|' :: cells.flatMap fun cell => ' ' :: cell ++ [' ', '|']

/-- A row ends with a bar. -/
theorem exists_rowLine (cells : List (List Char)) : ∃ front, rowLine cells = front ++ ['|'] := by
  obtain rfl | ⟨cells, cell, rfl⟩ := List.eq_nil_or_concat cells
  · exact ⟨[], rfl⟩
  · refine ⟨rowLine cells ++ ' ' :: cell ++ [' '], ?_⟩
    simp [rowLine]

section Cells

variable {xs ys cell : List Char} {cells : List (List Char)}

theorem isCell_of_not_mem (h : '|' ∉ xs) : IsCell xs := by
  rw [IsCell, parts_eq_singleton, List.length_singleton]
  intro prev c hc
  simp [partsCells, ne_of_mem_of_not_mem hc h]

theorem IsCell.append (hxs : IsCell xs) (hys : '|' ∉ ys) : IsCell (xs ++ ys) := by
  rw [IsCell, length_parts_append]
  · exact hxs
  · intro prev c hc
    simp [partsCells, ne_of_mem_of_not_mem hc hys]

/-- The parts of a text between spaces. -/
theorem length_parts_spaced (cell : List Char) :
    (parts partsCells none (' ' :: cell ++ [' '])).length = (parts partsCells none cell).length := by
  have hspace : parts partsCells (some ' ') cell = parts partsCells none cell :=
    parts_congr fun _ => rfl
  rw [length_parts_append fun prev c hc => by simp_all [partsCells], parts, hspace]
  exact List.length_modifyHead

theorem parts_rowLine (cells : List (List Char)) : parts partsCells none (rowLine cells) =
    [] :: (cells.flatMap fun cell => parts partsCells none (' ' :: cell ++ [' '])) ++ [[]] := by
  have hbar (xs : List Char) : parts partsCells (some '|') xs = parts partsCells none xs :=
    parts_congr fun _ => rfl
  rw [rowLine, parts, hbar]
  show [] :: parts partsCells none _ = [] :: (cells.flatMap _ ++ [[]])
  refine congrArg _ ?_
  induction cells with
  | nil => rfl
  | cons cell cells ih =>
    have hsep : partsCells (some ' ') '|' = true := rfl
    rw [List.flatMap_cons, List.flatMap_cons, List.append_assoc, List.append_assoc, ← ih]
    exact (parts_append (' ' :: cell) _ hsep).trans (congrArg _ (hbar _))

theorem cells?_rowLine (cells : List (List Char)) : cells? (rowLine cells) =
    some (cells.flatMap fun cell => parts partsCells none (' ' :: cell ++ [' '])) := by
  rw [cells?, parts_rowLine]
  simp

/-- The cells of a row are its texts, each between spaces, when each is one cell. -/
theorem cells?_of_isCell (h : ∀ cell ∈ cells, IsCell cell) :
    cells? (rowLine cells) = some (cells.map fun cell => ' ' :: cell ++ [' ']) := by
  have hparts : ∀ cell ∈ cells, parts partsCells none (' ' :: cell ++ [' ']) =
      [' ' :: cell ++ [' ']] :=
    fun cell hcell => parts_of_length ((length_parts_spaced cell).trans (h cell hcell))
  rw [cells?_rowLine, List.flatMap_congr hparts, List.map_eq_flatMap]

end Cells

/-! ### Rows and tables -/

/-- A row of a table with a number of columns and a text in its first cell. -/
def IsRow (columns : Nat) (key : String) (line : List Char) : Prop :=
  ∃ cells, cells? line = some ((' ' :: key.toList ++ [' ']) :: cells) ∧ cells.length + 1 = columns

/-- The head of a table: a row of titles and a row of dashes. -/
def IsHead (columns : Nat) (titles dashes : List Char) : Prop :=
  (∃ cells, cells? titles = some cells ∧ cells.length = columns) ∧
    ∃ cells, cells? dashes = some cells ∧ cells.length = columns ∧
      ∀ cell ∈ cells, cell ≠ [] ∧ ∀ c ∈ cell, c = '-'

/-- The lines of a table with a number of columns and one row for each key, in order. -/
def IsTable (columns : Nat) (keys : List String) (table : List (List Char)) : Prop :=
  ∃ titles dashes rows, table = titles :: dashes :: rows ∧ IsHead columns titles dashes ∧
    List.Forall₂ (IsRow columns) keys rows

section Counting

variable {α β : Type} {f : α → List β} {xs : List α}

theorem length_le_flatMap (hf : ∀ x ∈ xs, f x ≠ []) : xs.length ≤ (xs.flatMap f).length := by
  induction xs with
  | nil => exact Nat.le_refl _
  | cons x xs ih =>
    obtain ⟨hx, hxs⟩ := List.forall_mem_cons.1 hf
    have hpos := List.length_pos_of_ne_nil hx
    have hrest := ih hxs
    rw [List.flatMap_cons, List.length_append, List.length_cons]
    omega

/-- Parts are as many as wholes only if each whole has one part. -/
theorem length_eq_one_of_flatMap (hf : ∀ x ∈ xs, f x ≠ [])
    (h : (xs.flatMap f).length = xs.length) : ∀ x ∈ xs, (f x).length = 1 := by
  induction xs with
  | nil => exact fun x hx => nomatch hx
  | cons x xs ih =>
    obtain ⟨hx, hxs⟩ := List.forall_mem_cons.1 hf
    have hpos := List.length_pos_of_ne_nil hx
    have hrest := length_le_flatMap hxs
    rw [List.flatMap_cons, List.length_append, List.length_cons] at h
    exact List.forall_mem_cons.2 ⟨by omega, ih hxs (by omega)⟩

end Counting

/-- A text stands on one line and in one cell. -/
def IsPlain (text : String) : Prop := IsLine text.toList ∧ IsCell text.toList

instance (text : String) : Decidable (IsPlain text) := inferInstanceAs (Decidable (_ ∧ _))

section Rows

variable {cells : List (List Char)}

theorem isRow_of_isCell (key : String) (h : ∀ cell ∈ key.toList :: cells, IsCell cell) :
    IsRow (cells.length + 1) key (rowLine (key.toList :: cells)) :=
  ⟨_, cells?_of_isCell h, by rw [List.length_map]⟩

theorem isCell_of_isRow (key : String) (h : IsRow cells.length key (rowLine cells)) :
    ∀ cell ∈ cells, IsCell cell := by
  obtain ⟨rest, hcells, hlength⟩ := h
  rw [cells?_rowLine, Option.some.injEq] at hcells
  have hcount := congrArg List.length hcells
  rw [List.length_cons, hlength] at hcount
  intro cell hcell
  rw [IsCell, ← length_parts_spaced]
  exact length_eq_one_of_flatMap (fun cell _ => parts_ne_nil _ _ _) hcount cell hcell

theorem isLine_rowLine_iff : IsLine (rowLine cells) ↔ ∀ cell ∈ cells, IsLine cell := by
  simp only [isLine_iff, rowLine, List.forall_mem_cons, List.forall_mem_flatMap,
    List.forall_mem_append, List.cons_append]
  refine ⟨fun h cell hcell => ((h.2 cell hcell).2).1, fun h => ⟨by decide, fun cell hcell => ?_⟩⟩
  exact ⟨by simp, h cell hcell, by simp⟩

theorem spaced_intercalate (h : cells ≠ []) :
    ' ' :: List.intercalate [' ', '|', ' '] cells ++ [' ', '|'] =
      cells.flatMap fun cell => ' ' :: cell ++ [' ', '|'] := by
  induction cells with
  | nil => exact absurd rfl h
  | cons cell cells ih =>
    cases cells with
    | nil => simp
    | cons cell' cells =>
      rw [List.flatMap_cons, ← ih (List.cons_ne_nil _ _), List.intercalate_cons_cons]
      simp

/-- A row is its line and a line feed. -/
theorem toList_markdownRow {cells : List String} (h : cells ≠ []) :
    (Report.markdownRow cells).toList = rowLine (cells.map String.toList) ++ ['\n'] := by
  have hline := spaced_intercalate (mt List.map_eq_nil_iff.1 h : cells.map String.toList ≠ [])
  rw [rowLine, ← hline, Report.markdownRow]
  simp [String.toList_append, String.toList_intercalate]

/-- The lines of rows with these cells. -/
def rowsLines {α : Type} (cells : α → List String) (xs : List α) : List (List Char) :=
  xs.flatMap fun x => lines (rowLine ((cells x).map String.toList))

/-- The lines of rows follow each other. -/
theorem lines_rows {α : Type} (cells : α → List String) (hcells : ∀ x, cells x ≠ [])
    (xs : List α) (rest : List Char) :
    lines ((String.join (xs.map fun x => Report.markdownRow (cells x))).toList ++ rest) =
      rowsLines cells xs ++ lines rest := by
  induction xs with
  | nil => rfl
  | cons x xs ih =>
    obtain ⟨front, hfront⟩ := exists_rowLine ((cells x).map String.toList)
    rw [List.map_cons, String.join_cons, String.toList_append, toList_markdownRow (hcells x),
      rowsLines, List.flatMap_cons, List.append_assoc, List.append_assoc, List.append_assoc,
      List.singleton_append, hfront, List.append_assoc, List.singleton_append,
      lines_append (by decide), ih]
    rfl

theorem rowsLines_of_isLine {α : Type} {cells : α → List String} {xs : List α}
    (h : ∀ x ∈ xs, IsLine (rowLine ((cells x).map String.toList))) :
    rowsLines cells xs = xs.map fun x => rowLine ((cells x).map String.toList) := by
  rw [rowsLines, List.flatMap_congr fun x hx => lines_of_isLine (h x hx), List.map_eq_flatMap]

theorem length_le_rowsLines {α : Type} (cells : α → List String) (xs : List α) :
    xs.length ≤ (rowsLines cells xs).length :=
  length_le_flatMap fun _ _ => lines_ne_nil _

/-- The lines of rows make up a table exactly when all their texts are plain. -/
theorem isTable_rows_iff {α : Type} (xs : List α) {name : α → String} {cells : α → List String}
    {columns : Nat} {titles dashes : List Char} (hhead : IsHead columns titles dashes)
    (hcells : ∀ x, ∃ rest, cells x = name x :: rest ∧ rest.length + 1 = columns) :
    IsTable columns (xs.map name) (titles :: dashes :: rowsLines cells xs) ↔
      ∀ x ∈ xs, ∀ cell ∈ cells x, IsPlain cell := by
  have hplain (x : α) : (∀ cell ∈ cells x, IsPlain cell) ↔
      (∀ cell ∈ (cells x).map String.toList, IsLine cell) ∧
        ∀ cell ∈ (cells x).map String.toList, IsCell cell := by
    simp only [IsPlain, List.forall_mem_map, ← forall₂_and]
  constructor
  · rintro ⟨titles', dashes', rows, htable, -, hrows⟩
    obtain ⟨-, -, rfl⟩ : titles = titles' ∧ dashes = dashes' ∧ _ = rows := by simpa using htable
    have hlength := hrows.length_eq
    rw [List.length_map] at hlength
    have hlines : ∀ x ∈ xs, IsLine (rowLine ((cells x).map String.toList)) := by
      intro x hx
      rw [IsLine, ← length_lines]
      exact length_eq_one_of_flatMap (fun x _ => lines_ne_nil _) hlength.symm x hx
    rw [rowsLines_of_isLine hlines, List.forall₂_map_left_iff, List.forall₂_map_right_iff,
      List.forall₂_same] at hrows
    intro x hx
    obtain ⟨rest, hrest, hcolumns⟩ := hcells x
    refine (hplain x).2 ⟨isLine_rowLine_iff.1 (hlines x hx), isCell_of_isRow (name x) ?_⟩
    rw [List.length_map, hrest, List.length_cons, hcolumns, ← hrest]
    exact hrows x hx
  · intro h
    refine ⟨titles, dashes, _, rfl, hhead, ?_⟩
    have hlines : ∀ x ∈ xs, IsLine (rowLine ((cells x).map String.toList)) := fun x hx =>
      isLine_rowLine_iff.2 ((hplain x).1 (h x hx)).1
    rw [rowsLines_of_isLine hlines, List.forall₂_map_left_iff, List.forall₂_map_right_iff,
      List.forall₂_same]
    intro x hx
    obtain ⟨rest, hrest, hcolumns⟩ := hcells x
    have hall : ∀ cell ∈ (name x).toList :: rest.map String.toList, IsCell cell := by
      rw [← List.map_cons, ← hrest]
      exact ((hplain x).1 (h x hx)).2
    have hrow := isRow_of_isCell (name x) hall
    rw [List.length_map, hcolumns] at hrow
    rw [hrest, List.map_cons]
    exact hrow

theorem length_of_isTable {columns : Nat} {keys : List String} {table : List (List Char)}
    (h : IsTable columns keys table) : table.length = keys.length + 2 := by
  obtain ⟨titles, dashes, rows, rfl, -, hrows⟩ := h
  rw [List.length_cons, List.length_cons, hrows.length_eq]

theorem lines_plain {ls : List (List Char)} (h : ∀ l ∈ ls, IsLine l) (rest : List Char) :
    lines ((ls.flatMap (· ++ ['\n'])) ++ rest) = ls ++ lines rest := by
  induction ls with
  | nil => rfl
  | cons l ls ih =>
    obtain ⟨hl, hls⟩ := List.forall_mem_cons.1 h
    rw [List.flatMap_cons, List.append_assoc, List.append_assoc, List.singleton_append,
      lines_cons_of_isLine hl, ih hls, List.cons_append]

end Rows

end Markdown

namespace Report

open Markdown

variable {results : List RunResult} {text : String}

/-! ### Cells of a page -/

theorem isPlain_of_figure (h : Figure text) : IsPlain text := by
  refine ⟨isLine_iff.2 fun c hc => ⟨?_, ?_⟩, isCell_of_not_mem (h.not_mem (by decide))⟩
  · rintro rfl
    exact h.not_mem (by decide) hc
  · rintro rfl
    exact h.not_mem (by decide) hc

theorem isPlain_orNone {write : Float → String} (h : ∀ x, Figure (write x)) (x : Option Float) :
    IsPlain (orNone write x) := by
  cases x with
  | none => exact (by decide : IsPlain "N/A")
  | some x => exact isPlain_of_figure (h x)

/-- Escaped bars do not part cells. -/
theorem isCell_escapeBars (text : String) : IsCell (escapeBars text).toList := by
  have hparts (cs : List Char) (prev : Option Char) : (parts partsCells prev
      (cs.flatMap fun c => if c = '|' then ['\\', '|'] else [c])).length = 1 := by
    induction cs generalizing prev with
    | nil => rfl
    | cons c cs ih =>
      rw [List.flatMap_cons]
      by_cases hc : c = '|'
      · rw [if_pos hc, List.cons_append, List.singleton_append, parts, parts]
        simp [partsCells, ih]
      · rw [if_neg hc, List.singleton_append, parts]
        simp [partsCells, hc, ih]
  rw [escapeBars, String.toList_ofList]
  exact hparts _ none

theorem isLine_escapeBars : IsLine (escapeBars text).toList ↔ IsLine text.toList := by
  rw [escapeBars, String.toList_ofList, isLine_iff, isLine_iff, List.forall_mem_flatMap]
  refine forall₂_congr fun c _ => ?_
  split
  · rename_i hc
    simp [hc]
  · exact List.forall_mem_singleton

/-- How a run ended is told on one line unless its error has several. -/
theorem isLine_status {r : RunResult} :
    IsLine (status r).toList ↔ ∀ message ∈ r.error?, IsLine message.toList := by
  unfold status
  cases r.error? with
  | none =>
    have hsolved : IsLine "solved".toList := by decide
    have hoptimal : IsLine "optimal".toList := by decide
    simp only [Option.mem_def, reduceCtorEq, false_imp_iff, implies_true, iff_true]
    split
    · exact hoptimal
    · exact hsolved
  | some message =>
    have herror : IsLine "error: ".toList := by decide
    simp [String.toList_append, isLine_append_iff, -String.reduceToList, herror]

theorem isPlain_name {r : RunResult} (h : IsPlain r.modelName) : IsPlain r.name := by
  unfold RunResult.name runName
  cases r.seed with
  | none => exact h
  | some seed =>
    have hsuffix : Figure ("-seed" ++ Nat.repr seed) :=
      Figure.append (by decide) (figure_repr seed)
    dsimp only
    rw [String.append_assoc, IsPlain, String.toList_append]
    exact ⟨isLine_append_iff.2 ⟨h.1, (isPlain_of_figure hsuffix).1⟩,
      h.2.append (hsuffix.not_mem (by decide))⟩

/-- The name of a model is what its cells hang on. -/
theorem isPlain_modelCells (s : ModelStats) :
    (∀ cell ∈ modelCells s, IsPlain cell) ↔ IsPlain s.modelName := by
  have hfloat := isPlain_orNone (Layout.figure_write .plain)
  have hplaces := isPlain_orNone (figure_fixedPlaces 2)
  simp only [modelCells, List.forall_mem_cons]
  exact ⟨fun h => h.1, fun h => ⟨h, isPlain_of_figure (figure_repr _),
    isPlain_of_figure (figure_repr _), hfloat _, hfloat _, hplaces _, List.forall_mem_nil _⟩⟩

/-- The cells of a run hang on its name and on the lines of its error. -/
theorem isPlain_runCells (r : RunResult) :
    (∀ cell ∈ runCells r, IsPlain cell) ↔
      IsPlain r.name ∧ ∀ message ∈ r.error?, IsLine message.toList := by
  have hfloat := isPlain_orNone (Layout.figure_write .plain)
  have hplaces := isPlain_orNone (figure_fixedPlaces 2)
  have hstatus : IsPlain (escapeBars (status r)) ↔ ∀ message ∈ r.error?, IsLine message.toList :=
    (and_iff_left (isCell_escapeBars _)).trans (isLine_escapeBars.trans isLine_status)
  simp only [runCells, List.forall_mem_cons, hstatus]
  exact ⟨fun h => ⟨h.1, h.2.2.2.2.1⟩, fun h => ⟨h.1, hfloat _, isPlain_of_figure (figure_repr _),
    hplaces _, h.2, List.forall_mem_nil _⟩⟩

/-! ### Lines of a page -/

/-- The lines of a page before its first table. -/
def openingLines (results : List RunResult) : List (List Char) :=
  ["# Benchmark", "", "- **Runs**: " ++ Nat.repr results.length,
    "- **Errors**: " ++ Nat.repr (results.filter (·.hasFailed)).length, "", "## Summary", ""].map
    String.toList

/-- The lines of a page between its tables. -/
def middleLines : List (List Char) := ["", "## Run Details", ""].map String.toList

theorem lines_opening (results : List RunResult) (rest : List Char) :
    lines ((opening results).toList ++ rest) = openingLines results ++ lines rest := by
  have hcount (label : String) (hlabel : IsLine label.toList) (n : Nat) :
      IsLine (label ++ Nat.repr n).toList := by
    rw [String.toList_append]
    exact isLine_append_iff.2 ⟨hlabel, (isPlain_of_figure (figure_repr n)).1⟩
  have hlines : ∀ l ∈ openingLines results, IsLine l := by
    have hruns := hcount "- **Runs**: " (by decide) results.length
    have herrors := hcount "- **Errors**: " (by decide) (results.filter (·.hasFailed)).length
    simp only [openingLines, List.map_cons, List.map_nil, List.forall_mem_cons]
    exact ⟨by decide, by decide, hruns, herrors, by decide, by decide, by decide,
      List.forall_mem_nil _⟩
  have htext : (opening results).toList = (openingLines results).flatMap (· ++ ['\n']) := by
    unfold opening openingLines
    generalize Nat.repr results.length = runs
    generalize Nat.repr (results.filter (·.hasFailed)).length = errors
    simp [String.toList_append]
  rw [htext, lines_plain hlines]

/-- A page that has the two tables, and nothing after them: a row for each model and a row for each
run, in order. -/
def IsPage (results : List RunResult) (page : List Char) : Prop :=
  ∃ summary details,
    lines page = openingLines results ++ summary ++ middleLines ++ details ++ [[]] ∧
      IsTable 6 (modelNames results) summary ∧ IsTable 5 (results.map (·.name)) details

/-- A head is a row of titles and a row of dashes, some for each column. -/
theorem isHead_of_dashes {titles dashes : List Char} {ns : List Nat}
    (htitles : ∃ cells, cells? titles = some cells ∧ cells.length = ns.length)
    (hdashes : cells? dashes = some (ns.map (List.replicate · '-'))) (hns : ∀ n ∈ ns, n ≠ 0) :
    IsHead ns.length titles dashes := by
  refine ⟨htitles, _, hdashes, List.length_map _, List.forall_mem_map.2 fun n hn => ?_⟩
  exact ⟨mt (List.replicate_eq_nil_iff _).1 (hns n hn), fun c hc => List.eq_of_mem_replicate hc⟩

theorem exists_modelHead : ∃ titles dashes, IsHead 6 titles dashes ∧
    ∀ rest, lines (modelHead.toList ++ rest) = titles :: dashes :: lines rest := by
  let titles := "| Model | Runs | Errors | Best Objective | Best Bound | Avg Time (s) |".toList
  let dashes := "|-------|------|--------|----------------|------------|--------------|".toList
  -- the characters of a text are slow to compute with unless they are spelled out
  have htitles : titles = _ := String.toList_ofList
  have hdashes : dashes = _ := String.toList_ofList
  have happend : modelHead.toList = _ ++ _ :=
    String.toList_append.trans (congrArg₂ (· ++ ·) String.toList_ofList String.toList_ofList)
  have htext : modelHead.toList = [titles, dashes].flatMap (· ++ ['\n']) := by
    rw [happend, htitles, hdashes]
    rfl
  have hhead : IsHead [7, 6, 8, 16, 12, 14].length titles dashes := by
    rw [htitles, hdashes]
    exact isHead_of_dashes ⟨_, rfl, rfl⟩ rfl (by decide)
  refine ⟨titles, dashes, hhead, fun rest => ?_⟩
  rw [htext, lines_plain (by rw [htitles, hdashes]; decide)]
  rfl

theorem exists_runHead : ∃ titles dashes, IsHead 5 titles dashes ∧
    ∀ rest, lines (runHead.toList ++ rest) = middleLines ++ titles :: dashes :: lines rest := by
  let titles := "| Run | Objective | Solutions | Time (s) | Status |".toList
  let dashes := "|-----|-----------|-----------|----------|--------|".toList
  have htitles : titles = _ := String.toList_ofList
  have hdashes : dashes = _ := String.toList_ofList
  have happend : runHead.toList = _ ++ _ :=
    String.toList_append.trans (congrArg₂ (· ++ ·) String.toList_ofList String.toList_ofList)
  have htext : runHead.toList = (middleLines ++ [titles, dashes]).flatMap (· ++ ['\n']) := by
    rw [happend, htitles, hdashes]
    rfl
  have hhead : IsHead [5, 11, 11, 10, 8].length titles dashes := by
    rw [htitles, hdashes]
    exact isHead_of_dashes ⟨_, rfl, rfl⟩ rfl (by decide)
  refine ⟨titles, dashes, hhead, fun rest => ?_⟩
  rw [htext, lines_plain (by rw [htitles, hdashes]; decide)]
  rfl

/-- The lines of a page are those of its two tables and what stands around them. -/
theorem exists_lines_markdown (hne : results ≠ []) : ∃ titles dashes titles' dashes',
    IsHead 6 titles dashes ∧ IsHead 5 titles' dashes' ∧ lines (markdown results).toList =
      openingLines results ++ (titles :: dashes ::
          rowsLines (fun name => modelCells (statsOf name results)) (modelNames results)) ++
        middleLines ++ (titles' :: dashes' :: rowsLines runCells results) ++ [[]] := by
  obtain ⟨titles, dashes, hhead, hlines⟩ := exists_modelHead
  obtain ⟨titles', dashes', hhead', hlines'⟩ := exists_runHead
  refine ⟨titles, dashes, titles', dashes', hhead, hhead', ?_⟩
  have hmodels : (aggregate results).map (fun s => markdownRow (modelCells s)) =
      (modelNames results).map fun name => markdownRow (modelCells (statsOf name results)) := by
    rw [aggregate_eq, List.map_map]
    rfl
  have hmodel (name : String) : modelCells (statsOf name results) ≠ [] := List.cons_ne_nil _ _
  have hrun (r : RunResult) : runCells r ≠ [] := List.cons_ne_nil _ _
  have hruns := lines_rows runCells hrun results []
  rw [List.append_nil] at hruns
  rw [markdown, if_neg (by simpa using hne), hmodels]
  simp only [String.toList_append, List.append_assoc]
  rw [lines_opening, hlines, lines_rows _ hmodel, hlines', hruns]
  simp only [List.cons_append]
  rfl

section Page

variable {titles dashes titles' dashes' : List Char}

/-- The rows of models make up a table exactly when the names of models are plain. -/
theorem isTable_models_iff (hhead : IsHead 6 titles dashes) :
    IsTable 6 (modelNames results) (titles :: dashes ::
        rowsLines (fun name => modelCells (statsOf name results)) (modelNames results)) ↔
      ∀ r ∈ results, IsPlain r.modelName := by
  have hcells (name : String) :
      ∃ rest, modelCells (statsOf name results) = name :: rest ∧ rest.length + 1 = 6 := by
    refine ⟨(modelCells (statsOf name results)).tail, ?_, rfl⟩
    exact congrArg (· :: (modelCells (statsOf name results)).tail) (statsOf_modelName name results)
  have hrows := isTable_rows_iff (modelNames results) hhead hcells
  rw [List.map_id'] at hrows
  rw [hrows]
  simp only [isPlain_modelCells, statsOf_modelName, mem_modelNames]
  exact ⟨fun h r hr => h _ ⟨r, hr, rfl⟩, fun h name ⟨r, hr, hname⟩ => hname ▸ h r hr⟩

/-- The rows of runs make up a table exactly when their names are plain and their errors have one
line. -/
theorem isTable_runs_iff (hhead : IsHead 5 titles dashes) :
    IsTable 5 (results.map (·.name)) (titles :: dashes :: rowsLines runCells results) ↔
      ∀ r ∈ results, IsPlain r.name ∧ ∀ message ∈ r.error?, IsLine message.toList := by
  have hcells (r : RunResult) : ∃ rest, runCells r = r.name :: rest ∧ rest.length + 1 = 5 :=
    ⟨_, rfl, rfl⟩
  rw [isTable_rows_iff results hhead hcells]
  exact forall₂_congr fun r _ => isPlain_runCells r

end Page

/-- Tables with as many lines as they have keys leave one line for each row. -/
theorem isPlain_of_isPage (hne : results ≠ []) (h : IsPage results (markdown results).toList) :
    ∀ r ∈ results, IsPlain r.modelName ∧ ∀ message ∈ r.error?, IsLine message.toList := by
  obtain ⟨titles, dashes, titles', dashes', hhead, hhead', hlines⟩ := exists_lines_markdown hne
  obtain ⟨summary, details, hpage, hsummary, hdetails⟩ := h
  have hmodels := length_le_rowsLines (fun name => modelCells (statsOf name results))
    (modelNames results)
  have hruns := length_le_rowsLines runCells results
  have hsummaryLength := length_of_isTable hsummary
  have hdetailsLength := length_of_isTable hdetails
  rw [List.length_map] at hdetailsLength
  rw [hlines] at hpage
  have hpage := List.append_cancel_right hpage
  have hlength := congrArg List.length hpage
  simp only [List.length_append, List.length_cons] at hlength
  obtain ⟨hfront, rfl⟩ := List.append_inj hpage <| by
    simp only [List.length_append, List.length_cons]
    omega
  obtain rfl := List.append_cancel_left (List.append_cancel_right hfront)
  have hnames := (isTable_models_iff hhead).1 hsummary
  exact fun r hr => ⟨hnames r hr, ((isTable_runs_iff hhead').1 hdetails r hr).2⟩

theorem isPage_of_isPlain (hne : results ≠ [])
    (h : ∀ r ∈ results, IsPlain r.modelName ∧ ∀ message ∈ r.error?, IsLine message.toList) :
    IsPage results (markdown results).toList := by
  obtain ⟨titles, dashes, titles', dashes', hhead, hhead', hlines⟩ := exists_lines_markdown hne
  refine ⟨_, _, hlines, (isTable_models_iff hhead).2 fun r hr => (h r hr).1,
    (isTable_runs_iff hhead').2 fun r hr => ?_⟩
  exact ⟨isPlain_name (h r hr).1, (h r hr).2⟩

/-- A page is two tables, one with a row of six cells for each model and one with a row of five
cells for each run, in order and with nothing after them, exactly when each name of a model stands
on one line and in one cell and each error on one line. -/
theorem markdown_tables_iff (hne : results ≠ []) : IsPage results (markdown results).toList ↔
    ∀ r ∈ results, IsPlain r.modelName ∧ ∀ message ∈ r.error?, IsLine message.toList :=
  ⟨isPlain_of_isPage hne, isPage_of_isPlain hne⟩

/-- A run that failed. -/
def failed (modelName message : String) : RunResult := ⟨modelName, "", .empty, none, .failed message⟩

theorem markdown_tables_iff_escaped :
    let results := [{ failed "a" "boom" with seed := some 1 }, failed "b" "engine | crashed"]
    results ≠ [] ∧ IsPage results (markdown results).toList := by
  intro results
  have hne : results ≠ [] := List.cons_ne_nil _ _
  exact ⟨hne, (markdown_tables_iff hne).2 (by decide)⟩

/-- A bar in the name of a model is not escaped, and neither is a line feed in an error. -/
theorem barred_name_parted :
    let barred := [failed "a|b" "boom"]
    let broken := [failed "m" "first\nsecond"]
    (∃ cells, cells? (rowLine ((runCells (failed "a|b" "boom")).map String.toList)) = some cells ∧
        cells.length = 6) ∧
      ¬ IsPage barred (markdown barred).toList ∧ ¬ IsPage broken (markdown broken).toList := by
  intro barred broken
  refine ⟨⟨_, rfl, rfl⟩, fun h => ?_, fun h => ?_⟩
  · obtain ⟨hname, -⟩ := isPlain_of_isPage (List.cons_ne_nil _ _) h _ List.mem_cons_self
    exact absurd hname (by decide)
  · obtain ⟨-, herror⟩ := isPlain_of_isPage (List.cons_ne_nil _ _) h _ List.mem_cons_self
    exact absurd (herror _ rfl) (by decide)

end Report

end Scheduling
