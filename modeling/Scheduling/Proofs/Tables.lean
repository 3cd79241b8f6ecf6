import Scheduling.Model.Table

/-!
# What the checks of tables accept

A table of points is accepted when it lists pairs that ascend strictly in their first coordinate
(`checkStepPoints_ok`), a matrix when it has as many rows and columns as asked and no negative entry
(`checkTransitions_ok`).
-/

namespace Scheduling

/-- A point as a row of a table. -/
def pointRow (p : Int × Int) : List Int := [p.1, p.2]

/-- The points are in strictly ascending order of time. -/
def Ascending (points : List (Int × Int)) : Prop := points.Pairwise fun p q => p.1 < q.1

/-! ### Points -/

theorem checkPointsAfter_ok {previous : Option Int} {rows : List (List Int)} :
    checkPointsAfter previous rows = .ok () ↔
      ∃ points, rows = points.map pointRow ∧ Ascending points ∧
        ∀ x ∈ previous, ∀ p ∈ points, x < p.1 := by
  induction rows generalizing previous with
  | nil => exact ⟨fun _ => ⟨[], rfl, .nil, nofun⟩, fun _ => rfl⟩
  | cons row rest ih =>
    match row with
    | [x, y] =>
      have hstep : checkPointsAfter previous ([x, y] :: rest) = .ok () ↔
          (∀ p ∈ previous, p < x) ∧ checkPointsAfter (some x) rest = .ok () := by
        cases previous with
        | none => simp [checkPointsAfter]
        | some p =>
          simp only [checkPointsAfter, Option.mem_some_iff, forall_eq']
          split
          · rename_i hle
            exact ⟨nofun, fun h => absurd hle (Int.not_le.2 h.1)⟩
          · rename_i hlt
            exact (and_iff_right (Int.not_le.1 hlt)).symm
      rw [hstep, ih]
      constructor
      · rintro ⟨hx, points, rfl, hasc, hafter⟩
        have hafter := hafter x rfl
        refine ⟨(x, y) :: points, rfl, .cons hafter hasc, fun p hp q hq => ?_⟩
        obtain rfl | hq := List.mem_cons.1 hq
        · exact hx p hp
        · exact Int.lt_trans (hx p hp) (hafter q hq)
      · rintro ⟨points, hrows, hasc, hprevious⟩
        cases points with
        | nil => exact nomatch hrows
        | cons p points =>
          obtain ⟨hrow, rfl⟩ := List.cons.inj hrows
          obtain ⟨rfl, rfl⟩ : x = p.1 ∧ y = p.2 := by simpa [pointRow] using hrow
          obtain ⟨hp, hasc⟩ := List.pairwise_cons.1 hasc
          refine ⟨fun q hq => hprevious q hq p List.mem_cons_self, points, rfl, hasc, ?_⟩
          intro z hz q hq
          obtain rfl := Option.mem_some_iff.1 hz
          exact hp q hq
    | [] | [_] | _ :: _ :: _ :: _ =>
      refine ⟨nofun, ?_⟩
      rintro ⟨points, hrows, -, -⟩
      cases points with
      | nil => exact nomatch hrows
      | cons p points => simp [pointRow] at hrows

/-- A table of points is accepted when it lists pairs that ascend strictly. -/
theorem checkStepPoints_ok {rows : List (List Int)} :
    checkStepPoints rows = .ok () ↔ ∃ points, rows = points.map pointRow ∧ Ascending points := by
  rw [checkStepPoints, checkPointsAfter_ok]
  simp

theorem pointRow_injective {p q : Int × Int} (h : pointRow p = pointRow q) : p = q := by
  obtain ⟨x, y⟩ := p
  obtain ⟨x', y'⟩ := q
  simpa [pointRow] using h

/-! ### Matrices -/

theorem checkEntries_ok {row col : Nat} {values : List Int} :
    checkEntries row col values = .ok () ↔ ∀ v ∈ values, 0 ≤ v := by
  induction values generalizing col with
  | nil => simp [checkEntries]
  | cons v rest ih =>
    rw [checkEntries]
    split
    · rename_i hv
      simp [Int.not_le.2 hv]
    · rename_i hv
      simp [ih, Int.not_lt.1 hv]

theorem checkRows_ok {size row : Nat} {matrix : List (List Int)} :
    checkRows size row matrix = .ok () ↔
      ∀ values ∈ matrix, values.length = size ∧ ∀ v ∈ values, 0 ≤ v := by
  induction matrix generalizing row with
  | nil => simp [checkRows]
  | cons values rest ih =>
    rw [checkRows]
    split
    · rename_i hlength
      simp [hlength]
    · rename_i hlength
      have hlength := Classical.not_not.1 hlength
      have hentries : checkEntries row 0 values = .ok () ↔ ∀ v ∈ values, 0 ≤ v := checkEntries_ok
      cases h : checkEntries row 0 values with
      | ok u =>
        have hvalues := hentries.1 h
        simp only [ih, List.forall_mem_cons, hlength, true_and]
        exact (and_iff_right hvalues).symm
      | error e =>
        refine ⟨nofun, fun hall => ?_⟩
        have hok := hentries.2 (hall values List.mem_cons_self).2
        exact nomatch h.symm.trans hok

/-- The matrix has as many rows and columns as asked, and no negative entry. -/
structure IsMatrix (size : Nat) (matrix : List (List Int)) : Prop where
  rows : matrix.length = size
  columns : ∀ row ∈ matrix, row.length = size
  entries : ∀ row ∈ matrix, ∀ v ∈ row, 0 ≤ v

/-- Exactly the matrices of the size asked are accepted. -/
theorem checkTransitions_ok {matrix : List (List Int)} {size : Nat} :
    checkTransitions matrix size = .ok () ↔ IsMatrix size matrix := by
  rw [checkTransitions]
  split
  · rename_i hrows
    exact ⟨nofun, fun h => absurd h.rows hrows⟩
  · rename_i hrows
    rw [checkRows_ok]
    constructor
    · exact fun h => ⟨Classical.not_not.1 hrows, fun row hrow => (h row hrow).1,
        fun row hrow => (h row hrow).2⟩
    · exact fun h row hrow => ⟨h.columns row hrow, h.entries row hrow⟩

/-- A matrix has the entries below its size and no others. -/
theorem IsMatrix.exists_entry_iff {matrix : List (List Int)} {size i j : Nat}
    (h : IsMatrix size matrix) :
    (∃ v, (matrix[i]?).bind (·[j]?) = some v ∧ 0 ≤ v) ↔ i < size ∧ j < size := by
  constructor
  · rintro ⟨v, hv, -⟩
    obtain ⟨row, hrow, hv⟩ := Option.bind_eq_some_iff.1 hv
    have hi := (List.getElem?_eq_some_iff.1 hrow).1
    have hj := (List.getElem?_eq_some_iff.1 hv).1
    rw [h.columns row (List.mem_of_getElem? hrow)] at hj
    exact ⟨h.rows ▸ hi, hj⟩
  · rintro ⟨hi, hj⟩
    obtain ⟨row, hrow⟩ : ∃ row, matrix[i]? = some row :=
      ⟨_, List.getElem?_eq_getElem (h.rows.symm ▸ hi)⟩
    have hmem := List.mem_of_getElem? hrow
    obtain ⟨v, hv⟩ : ∃ v, row[j]? = some v :=
      ⟨_, List.getElem?_eq_getElem (h.columns row hmem |>.symm ▸ hj)⟩
    exact ⟨v, by rw [hrow, Option.bind_some, hv], h.entries row hmem v (List.mem_of_getElem? hv)⟩

end Scheduling
