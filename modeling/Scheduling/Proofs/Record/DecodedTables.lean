import Scheduling.Eval.Verify
import Scheduling.Proofs.Arena.History
import Scheduling.Proofs.Tables
import Scheduling.Proofs.Record.Whole

/-!
# Tables of models that are read

Reading a record checks the points of step functions and the matrices of no-overlaps, as building
does, but not the types of sequences. So the points of a model that is read ascend, and its matrices
are square, without negative entries and of the size of their list or sequence. The gap between two
positions is an entry of the matrix exactly when each of them has a type that is not negative or is
less than the size (`tables_of_read`). Types as building asks for are enough for that, so in a model
that is built each gap is an entry (`Built.exists_gap`).
-/

namespace Scheduling

namespace Model

variable {m : Model} {n seq : Node} {id : NodeId} {matrix : List (List Int)} {items : List Arg}
  {types : Option (List Int)} {size i j : Nat}

/-! ### Gaps -/

/-- The entry of a matrix that is the gap between two positions. -/
def listedGap? (matrix : List (List Int)) (types : Option (List Int)) (i j : Nat) : Option Int :=
  (matrix[transitionIndex types i]?).bind (·[transitionIndex types j]?)

/-- Where there is no entry the gap is zero. -/
theorem transitionGap_some (matrix : List (List Int)) (types : Option (List Int)) (i j : Nat) :
    transitionGap (some matrix) types i j = (listedGap? matrix types i j).getD 0 := rfl

/-- The position has a type, and it is not negative. -/
def Typed (types : Option (List Int)) (i : Nat) : Prop :=
  ∃ t, types.bind (·[i]?) = some t ∧ 0 ≤ t

theorem transitionIndex_of_not_typed (h : ¬ Typed types i) : transitionIndex types i = i := by
  rw [transitionIndex]
  split
  · rename_i t ht
    exact if_neg fun h0 => h ⟨t, ht, h0⟩
  · rfl

/-- A position has a place in a matrix with room for the types when it has a type or is less than
the size. -/
theorem transitionIndex_lt_iff (hroom : ∀ ts ∈ types, ∀ t ∈ ts, 0 ≤ t → t.toNat < size) :
    transitionIndex types i < size ↔ Typed types i ∨ i < size := by
  by_cases h : Typed types i
  · refine iff_of_true ?_ (.inl h)
    obtain ⟨t, ht, h0⟩ := h
    obtain ⟨ts, hts, hget⟩ := Option.bind_eq_some_iff.1 ht
    have hindex : transitionIndex types i = t.toNat := by
      rw [transitionIndex, ht]
      exact if_pos h0
    rw [hindex]
    exact hroom ts hts t (List.mem_of_getElem? hget) h0
  · rw [transitionIndex_of_not_typed h, or_iff_right h]

/-- The matrix of a sequence has room for its types. -/
theorem toNat_lt_transitionSize {ts : List Int} {t : Int} (hts : seq.types? = some ts)
    (hfits : ∀ t ∈ ts, Fits t) (ht : t ∈ ts) (h0 : 0 ≤ t) : t.toNat < seq.transitionSize := by
  rw [Node.transitionSize, hts]
  dsimp only
  split
  · rename_i top htop
    have hle : t ≤ top := (List.max?_eq_some_iff.1 htop).2 t ht
    have hword : top.emod (wordMax + 1) = top := by
      have := (hfits top (List.max?_eq_some_iff.1 htop).1).2
      refine Int.emod_eq_of_lt (h0.trans hle) ?_
      simp only [intMax, wordMax] at *
      omega
    rw [hword]
    omega
  · rename_i hnone
    rw [List.max?_eq_none_iff.1 hnone] at ht
    exact (List.not_mem_nil ht).elim

/-- A no-overlap is about the intervals of a list, without types, or those of a sequence. -/
theorem items_of_noOverlap (h : m.noOverlapItems id n = .answer (items, types)) :
    n.args.head? = some (.list items) ∧ types = none ∨
      ∃ s seq, n.args.head? = some (.node s) ∧ m.node? s = some seq ∧
        seq.args.head?.bind Arg.list? = some items ∧ seq.types? = types := by
  rw [noOverlapItems, Node.arg, ← List.head?_eq_getElem?] at h
  cases hhead : n.args.head? with
  | none =>
    rw [hhead] at h
    cases h
  | some a =>
    rw [hhead] at h
    cases a with
    | list items' =>
      obtain ⟨rfl, rfl⟩ := Prod.mk.inj (Query.answer.inj h)
      exact .inl ⟨rfl, rfl⟩
    | node s =>
      refine .inr ⟨s, ?_⟩
      change (m.lookup s >>= _) = _ at h
      rw [lookup] at h
      cases hseq : m.node s with
      | error e =>
        rw [hseq] at h
        cases h
      | ok seq =>
        rw [hseq] at h
        refine ⟨seq, rfl, node_eq_ok.1 hseq, ?_⟩
        dsimp only [bind, Query.bind] at h
        cases hlist : seq.args.head?.bind Arg.list? with
        | some items' =>
          rw [hlist] at h
          obtain ⟨rfl, rfl⟩ := Prod.mk.inj (Query.answer.inj h)
          exact ⟨rfl, rfl⟩
        | none =>
          rw [hlist] at h
          cases h
    | _ => cases h

/-- The matrix of a no-overlap has a row for each interval when there are no types, and room for the
types when there are any. -/
theorem exists_matrixSize (h : m.noOverlapItems id n = .answer (items, types))
    (hfits : ∀ ts ∈ types, ∀ t ∈ ts, Fits t) :
    ∃ size, m.matrixSize? n.args = some size ∧ (types = none → size = items.length) ∧
      ∀ ts ∈ types, ∀ t ∈ ts, 0 ≤ t → t.toNat < size := by
  obtain ⟨hhead, rfl⟩ | ⟨s, seq, hhead, hseq, hlist, htypes⟩ := items_of_noOverlap h
  · exact ⟨items.length, by rw [matrixSize?, hhead], fun _ => rfl, nofun⟩
  · refine ⟨seq.transitionSize, ?_, fun hnone => ?_, fun ts hts t ht h0 => ?_⟩
    · rw [matrixSize?, hhead]
      exact congrArg (Option.map Node.transitionSize) hseq
    · rw [Node.transitionSize, htypes, hnone, hlist]
      rfl
    · exact toNat_lt_transitionSize (htypes.trans hts) (hfits ts hts) ht h0

/-! ### Accepted tables -/

namespace Accepts

/-- The points of an accepted step function ascend. -/
theorem points (h : m.Accepts n) (ho : n.operator = .stepFunction) {table : List (List Int)}
    (hv : n.values = some table) : ∃ points, table = points.map pointRow ∧ Ascending points := by
  have hvalues := h.values
  simp only [Restoring.checkValues, NodeRecord.attributes, NodeRecord.operator, hv, ho] at hvalues
  exact checkStepPoints_ok.1 hvalues

/-- The matrix of an accepted no-overlap has the size of its list or sequence. -/
theorem isMatrix (h : m.Accepts n) (ho : n.operator = .noOverlap) (hv : n.values = some matrix) :
    IsMatrix ((m.matrixSize? n.args).getD 0) matrix := by
  have hvalues := h.values
  simp only [Restoring.checkValues, NodeRecord.attributes, NodeRecord.operator, hv, ho] at hvalues
  rw [matrixSize?]
  cases hhead : n.args.head? with
  | none =>
    rw [hhead] at hvalues
    exact checkTransitions_ok.1 hvalues
  | some a =>
    rw [hhead] at hvalues
    cases a with
    | node s =>
      cases hseq : m.node s with
      | error e =>
        simp only [hseq] at hvalues
        cases hvalues
      | ok seq =>
        simp only [hseq] at hvalues
        simp only [node_eq_ok.1 hseq]
        exact checkTransitions_ok.1 hvalues
    | _ => exact checkTransitions_ok.1 hvalues

/-- The gap between two positions is an entry of the matrix exactly when each of them has a type or
is less than the size. -/
theorem exists_gap_iff (h : m.Accepts n) (ho : n.operator = .noOverlap)
    (hv : n.values = some matrix) (hitems : m.noOverlapItems id n = .answer (items, types))
    (hfits : ∀ ts ∈ types, ∀ t ∈ ts, Fits t) :
    (∃ v, listedGap? matrix types i j = some v ∧ transitionGap n.values types i j = v ∧ 0 ≤ v) ↔
      (Typed types i ∨ i < matrix.length) ∧ (Typed types j ∨ j < matrix.length) := by
  obtain ⟨size, hsize, -, hroom⟩ := exists_matrixSize hitems hfits
  have hmatrix := h.isMatrix ho hv
  rw [hsize, Option.getD_some] at hmatrix
  rw [hmatrix.rows, ← transitionIndex_lt_iff hroom, ← transitionIndex_lt_iff hroom,
    ← hmatrix.exists_entry_iff]
  refine exists_congr fun v => and_congr_right fun hentry => and_iff_right ?_
  rw [hv, transitionGap_some, hentry, Option.getD_some]

/-- When the types are as building asks, every interval has its place in the matrix. -/
theorem typed_or_lt (h : m.Accepts n) (ho : n.operator = .noOverlap)
    (hv : n.values = some matrix) (hitems : m.noOverlapItems id n = .answer (items, types))
    (hfits : ∀ ts ∈ types, ∀ t ∈ ts, Fits t)
    (hchecked : ∀ ts ∈ types, ts.length = items.length ∧ ∀ t ∈ ts, 0 ≤ t) (hi : i < items.length) :
    Typed types i ∨ i < matrix.length := by
  cases types with
  | some ts =>
    obtain ⟨hlength, hpos⟩ := hchecked ts rfl
    obtain ⟨t, ht⟩ : ∃ t, ts[i]? = some t := ⟨_, List.getElem?_eq_getElem (hlength.symm ▸ hi)⟩
    exact .inl ⟨t, ht, hpos t (List.mem_of_getElem? ht)⟩
  | none =>
    obtain ⟨size, hsize, hlength, -⟩ := exists_matrixSize hitems hfits
    have hmatrix := h.isMatrix ho hv
    rw [hsize, Option.getD_some, hlength rfl] at hmatrix
    exact .inr (hmatrix.rows.symm ▸ hi)

end Accepts

/-! ### Models that are built and models that are read -/

/-- In a model that calls have built, each interval of a sequence with types has one, and it is not
negative. -/
theorem Built.types_checked {asked : NodeId → Prop} {sent : List NodeId} (h : Built m asked sent)
    (hn : m.node? id = some n) (ho : n.operator = .noOverlap)
    (hitems : m.noOverlapItems id n = .answer (items, types)) :
    ∀ ts ∈ types, ts.length = items.length ∧ ∀ t ∈ ts, 0 ≤ t := by
  obtain ⟨-, rfl⟩ | ⟨s, seq, hhead, hseq, hlist, rfl⟩ := items_of_noOverlap hitems
  · exact nofun
  obtain ⟨a, hargs, htakes⟩ := (ho ▸ (h.formed id.index n (node?_eq_some.1 hn).2).args).single rfl rfl
  rw [hargs] at hhead
  obtain rfl := Option.some.inj hhead
  obtain ⟨seq', hseq', hk⟩ := htakes
  obtain rfl := Option.some.inj (hseq.symm.trans hseq')
  have htable := (h.formed s.index seq (node?_eq_some.1 hseq).2).table
  rw [Table, eq_sequenceVar hk] at htable
  intro ts hts
  obtain ⟨rows, hrows, hts⟩ := Option.bind_eq_some_iff.1 hts
  obtain ⟨types, rfl, hlength, hpos⟩ := htable rows hrows
  obtain rfl := Option.some.inj hts
  rw [hlist] at hlength
  exact ⟨hlength, hpos⟩

/-- In a model that calls have built, the gap between two intervals is an entry of the matrix. -/
theorem Built.exists_gap {asked : NodeId → Prop} {sent : List NodeId} (h : Built m asked sent)
    (hn : m.node? id = some n) (ho : n.operator = .noOverlap) (hv : n.values = some matrix)
    (hitems : m.noOverlapItems id n = .answer (items, types))
    (hfits : ∀ ts ∈ types, ∀ t ∈ ts, Fits t) (hi : i < items.length) (hj : j < items.length) :
    ∃ v, listedGap? matrix types i j = some v ∧ transitionGap n.values types i j = v ∧ 0 ≤ v := by
  have hchecked := h.types_checked hn ho hitems
  have hacc := (h.formed id.index n (node?_eq_some.1 hn).2).accepted
  have hplace {k : Nat} (hk : k < items.length) := hacc.typed_or_lt ho hv hitems hfits hchecked hk
  exact (hacc.exists_gap_iff ho hv hitems hfits).2 ⟨hplace hi, hplace hj⟩

end Model

end Scheduling
