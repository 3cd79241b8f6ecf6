import Mathlib.Data.List.Pairwise
import Scheduling.Proofs.Eval.Reading
import Scheduling.Proofs.Record.DecodedTables
import Scheduling.Proofs.Record.Range

/-!
# Intervals in one order

A no-overlap looks at pairs of present intervals and lets each pair choose which of the two comes
first. When every interval ends after it starts and no gap is negative, only the one that starts
first can come first, so the choices of all pairs make one order, that of the starts
(`pairwiseApart_iff_exists`). A constraint that is built holds exactly when there is such an order
(`Model.noOverlap_iff`).
-/

namespace Scheduling

/-- The solution says when an interval variable is, or that it is absent. -/
def Solution.Places (s : Solution) (x : NodeId) : Prop :=
  s.value? x = some .absent ∨ ∃ start finish, s.value? x = some (.interval start finish)

namespace Model

open Query (resolve_bind_eq)

/-! ### Pairs -/

section Pairs

variable {gap : Nat → Nat → Int} {spans rest : List (Option (Int × Int))} {o : Option (Int × Int)}
  {a b : Int × Int} {i j p q : Nat}

theorem forall_span_cons {P : Nat → Int × Int → Prop} :
    (∀ q b, (o :: rest)[q]? = some (some b) → P q b) ↔
      (∀ b, o = some b → P 0 b) ∧ ∀ q b, rest[q]? = some (some b) → P (q + 1) b := by
  constructor
  · intro h
    exact ⟨fun b hb => h 0 b (congrArg some hb), fun q b hb => h (q + 1) b hb⟩
  · rintro ⟨hfirst, hrest⟩ (_ | q) b hb
    · exact hfirst b (Option.some.inj hb)
    · exact hrest q b hb

theorem apartFrom_iff : apartFrom gap i a j spans = true ↔
    ∀ q b, spans[q]? = some (some b) →
      endsBefore a b (gap i (j + q)) = true ∨ endsBefore b a (gap (j + q) i) = true := by
  induction spans generalizing j with
  | nil => exact iff_of_true rfl nofun
  | cons o rest ih =>
    rw [forall_span_cons]
    simp only [← Nat.add_assoc, Nat.add_right_comm j _ 1]
    cases o with
    | none =>
      rw [apartFrom, ih]
      exact (and_iff_right nofun).symm
    | some b =>
      rw [apartFrom, Bool.and_eq_true, Bool.or_eq_true, ih]
      simp only [Option.some.injEq, forall_eq', Nat.add_zero]

/-- The present intervals are apart when of any two of them one ends before the other one. -/
theorem pairwiseApart_iff : pairwiseApart gap i spans = true ↔
    ∀ p a, spans[p]? = some (some a) → ∀ q b, spans[q]? = some (some b) → p < q →
      endsBefore a b (gap (i + p) (i + q)) = true ∨
        endsBefore b a (gap (i + q) (i + p)) = true := by
  induction spans generalizing i with
  | nil => exact iff_of_true rfl nofun
  | cons o rest ih =>
    have hrest : pairwiseApart gap (i + 1) rest = true ↔
        ∀ p a, rest[p]? = some (some a) → ∀ q b, rest[q]? = some (some b) → p + 1 < q + 1 →
          endsBefore a b (gap (i + (p + 1)) (i + (q + 1))) = true ∨
            endsBefore b a (gap (i + (q + 1)) (i + (p + 1))) = true := by
      simp only [ih, Nat.add_lt_add_iff_right, ← Nat.add_assoc, Nat.add_right_comm i _ 1]
    simp only [forall_span_cons, Nat.not_lt_zero, Nat.zero_lt_succ, false_imp_iff,
      implies_true, true_and, true_imp_iff, ← hrest]
    cases o with
    | none => simp only [pairwiseApart, reduceCtorEq, false_imp_iff, implies_true, true_and]
    | some a =>
      rw [pairwiseApart, Bool.and_eq_true, apartFrom_iff]
      simp only [Option.some.injEq, forall_eq', Nat.add_zero, ← Nat.add_assoc,
        Nat.add_right_comm i _ 1]

end Pairs

/-! ### One order -/

section Order

variable {gap : Nat → Nat → Int} {spans : List (Option (Int × Int))} {order : List Nat}
  {a b : Int × Int} {p q : Nat}

/-- One interval ends at least a gap before another one starts. -/
def Precedes (gap : Nat → Nat → Int) (spans : List (Option (Int × Int))) (p q : Nat) : Prop :=
  ∀ a b, spans[p]? = some (some a) → spans[q]? = some (some b) → a.2 + gap p q ≤ b.1

/-- An order of all present intervals, by position, in which each one precedes all later ones. -/
structure Separates (gap : Nat → Nat → Int) (spans : List (Option (Int × Int)))
    (order : List Nat) : Prop where
  nodup : order.Nodup
  mem_iff : ∀ p, p ∈ order ↔ ∃ a, spans[p]? = some (some a)
  precedes : order.Pairwise (Precedes gap spans)

/-- An end that the gap moves above all integers of 64 bits is after every start. -/
theorem endsBefore_iff {g : Int} (ha : Fits a.2) (hb : Fits b.1) (hg : 0 ≤ g) :
    endsBefore a b g = true ↔ a.2 + g ≤ b.1 := by
  rw [endsBefore]
  cases hsum : checked (a.2 + g) with
  | none =>
    refine iff_of_false nofun fun hle => checked_eq_none.1 hsum ?_
    exact ⟨ha.1.trans (le_add_of_nonneg_right hg), hle.trans hb.2⟩
  | some e =>
    obtain ⟨-, rfl⟩ := checked_eq_some.1 hsum
    exact decide_eq_true_iff

/-- The start of the interval at a position. -/
def startAt (spans : List (Option (Int × Int))) (p : Nat) : Int :=
  ((spans[p]?).join.map Prod.fst).getD 0

theorem startAt_eq (h : spans[p]? = some (some a)) : startAt spans p = a.1 := by
  rw [startAt, h]
  rfl

/-- The positions of the present intervals, by start. -/
def byStart (spans : List (Option (Int × Int))) : List Nat :=
  ((List.range spans.length).filter fun p => (spans[p]?).join.isSome).mergeSort
    fun p q => decide (startAt spans p ≤ startAt spans q)

theorem nodup_byStart : (byStart spans).Nodup :=
  (List.mergeSort_perm _ _).nodup_iff.2 (List.nodup_range.filter _)

theorem mem_byStart : p ∈ byStart spans ↔ ∃ a, spans[p]? = some (some a) := by
  rw [byStart, List.mem_mergeSort, List.mem_filter, List.mem_range, Option.isSome_iff_exists]
  simp only [Option.join_eq_some_iff]
  refine and_iff_right_of_imp ?_
  rintro ⟨a, ha⟩
  exact (List.getElem?_eq_some_iff.1 ha).1

theorem pairwise_byStart :
    (byStart spans).Pairwise fun p q => startAt spans p ≤ startAt spans q := by
  have hsorted : (byStart spans).Pairwise fun p q =>
      decide (startAt spans p ≤ startAt spans q) = true :=
    List.pairwise_mergeSort
      (fun p q r hpq hqr => decide_eq_true ((of_decide_eq_true hpq).trans (of_decide_eq_true hqr)))
      (fun p q => by simpa using le_total (startAt spans p) (startAt spans q)) _
  exact hsorted.imp of_decide_eq_true

variable
  (hspans : ∀ (p : Nat) (a : Int × Int), spans[p]? = some (some a) → Fits a.1 ∧ Fits a.2 ∧ a.1 < a.2)
  (hgap : ∀ p < spans.length, ∀ q < spans.length, 0 ≤ gap p q)

include hspans hgap

/-- Pairs of intervals can be put in order one by one exactly when all of them can be. -/
theorem pairwiseApart_iff_exists :
    pairwiseApart gap 0 spans = true ↔ ∃ order, Separates gap spans order := by
  have hlt {p : Nat} {a : Int × Int} (ha : spans[p]? = some (some a)) : p < spans.length :=
    (List.getElem?_eq_some_iff.1 ha).1
  have hends {p q : Nat} {a b : Int × Int} (ha : spans[p]? = some (some a))
      (hb : spans[q]? = some (some b)) :
      endsBefore a b (gap p q) = true ↔ a.2 + gap p q ≤ b.1 :=
    endsBefore_iff (hspans p a ha).2.1 (hspans q b hb).1 (hgap p (hlt ha) q (hlt hb))
  rw [pairwiseApart_iff]
  simp only [Nat.zero_add]
  constructor
  · intro hpairs
    refine ⟨byStart spans, nodup_byStart, fun p => mem_byStart, ?_⟩
    refine (pairwise_byStart.and nodup_byStart).imp ?_
    rintro p q ⟨hstart, hne⟩ a b ha hb
    rw [startAt_eq ha, startAt_eq hb] at hstart
    have hboth : a.2 + gap p q ≤ b.1 ∨ b.2 + gap q p ≤ a.1 := by
      rw [← hends ha hb, ← hends hb ha]
      obtain hpq | hqp := Nat.lt_or_gt_of_ne hne
      · exact hpairs p a ha q b hb hpq
      · exact (hpairs q b hb p a ha hqp).symm
    -- The one that starts later cannot come first.
    refine hboth.resolve_right fun hlate => ?_
    have := (hspans q b hb).2.2
    have := hgap q (hlt hb) p (hlt ha)
    omega
  · rintro ⟨order, horder⟩ p a ha q b hb hpq
    rw [hends ha hb, hends hb ha]
    have heither : order.Pairwise fun p q => Precedes gap spans p q ∨ Precedes gap spans q p :=
      horder.precedes.imp .inl
    have : Std.Symm fun p q => Precedes gap spans p q ∨ Precedes gap spans q p :=
      ⟨fun _ _ => Or.symm⟩
    have hpair := heither.forall ((horder.mem_iff p).2 ⟨a, ha⟩) ((horder.mem_iff q).2 ⟨b, hb⟩) hpq.ne
    exact hpair.imp (fun h => h a b ha hb) fun h => h b a hb ha

end Order

/-! ### Nodes -/

section Nodes

variable {m : Model} {s : Solution} {id x : NodeId} {n : Node} {ids : List NodeId}
  {types : Option (List Int)} {p q : Nat} {g : Int}

/-- What a no-overlap is about: the intervals of a list, without types, or those of a sequence, with
its types if it has any. -/
inductive IsAbout (m : Model) (n : Node) : List NodeId → Option (List Int) → Prop where
  | list {ids : List NodeId} : n.args = [.list (ids.map Arg.node)] → IsAbout m n ids none
  | sequence {x : NodeId} {seq : Node} {ids : List NodeId} : n.args = [.node x] →
      m.node? x = some seq → seq.operator = .sequenceVar → seq.args = [.list (ids.map Arg.node)] →
      IsAbout m n ids seq.types?

/-- The row or column for a position: its type, or the position itself without types. -/
def IsPlace (types : Option (List Int)) (p k : Nat) : Prop :=
  match types with
  | none => k = p
  | some ts => ts[p]? = some (k : Int)

/-- The gap between two positions: the entry of the matrix, and zero without a matrix. -/
def IsGap (matrix : Option (List (List Int))) (types : Option (List Int)) (p q : Nat) (g : Int) :
    Prop :=
  match matrix with
  | none => g = 0
  | some rows => ∃ i j row, IsPlace types p i ∧ IsPlace types q j ∧ rows[i]? = some row ∧
      row[j]? = some g

theorem IsAbout.items (id : NodeId) (h : m.IsAbout n ids types) :
    m.noOverlapItems id n = .answer (ids.map Arg.node, types) := by
  cases h with
  | list hargs =>
    rw [noOverlapItems, Node.arg, hargs]
    rfl
  | sequence hargs hx _ hseq =>
    rw [noOverlapItems, Node.arg, hargs]
    show (m.lookup _ >>= fun seq => _) = _
    rw [lookup, node_eq_ok.2 hx]
    simp only [bind, Query.bind, hseq]
    rfl

/-- A no-overlap is about one list. -/
theorem IsAbout.unique {ids' : List NodeId} {types' : Option (List Int)} (h : m.IsAbout n ids types)
    (h' : m.IsAbout n ids' types') : ids = ids' ∧ types = types' := by
  have hitems := Query.answer.inj ((h.items ⟨0, 0⟩).symm.trans (h'.items ⟨0, 0⟩))
  obtain ⟨hids, htypes⟩ := Prod.mk.inj hitems
  exact ⟨(List.map_inj_right fun _ _ => Arg.node.inj).1 hids, htypes⟩

/-- An interval variable is read as the solution says. -/
theorem reads_interval (h : Sound m) (hx : m.Is .interval x) {o : Option (Int × Int)} :
    m.Reads s Value.interval? (.node x) o ↔ s.Places x ∧ o = s.interval? x := by
  obtain ⟨n, hn, hk⟩ := hx
  have hvalue : m.argValue s (.node x) = (variableValue s x n).resolve (m.value s) := by
    have hnode := value_eq (s := s) h hn
    rw [nodeValue, eq_intervalVar hk] at hnode
    rw [← hnode]
    show (Query.value x).resolve (m.value s) = _
    rw [Query.value, Query.resolve]
    cases m.value s x <;> rfl
  rw [variableValue, eq_intervalVar hk] at hvalue
  cases hv : s.value? x with
  | none =>
    rw [hv] at hvalue
    cases o <;> simp [Reads, Solution.Places, hvalue, hv, Query.resolve]
  | some v =>
    rw [hv] at hvalue
    cases v <;> cases o <;>
      simp [Reads, Solution.Places, Solution.interval?, hvalue, hv, Query.resolve, Value.interval?]
    exact eq_comm

/-- The intervals of a list are read when the solution places all of them. -/
theorem resolve_intervals (h : Sound m) (hids : ∀ x ∈ ids, m.Is .interval x)
    {spans : List (Option (Int × Int))} :
    (n.intervalsOf id (ids.map Arg.node)).resolve (m.value s) = .ok spans ↔
      (∀ x ∈ ids, s.Places x) ∧ spans = ids.map s.interval? := by
  rw [resolve_intervalsOf]
  induction ids generalizing spans with
  | nil => simp [List.forall₂_nil_left_iff]
  | cons x ids ih =>
    obtain ⟨hx, hids⟩ := List.forall_mem_cons.1 hids
    rw [List.map_cons, List.forall₂_cons_left_iff, List.forall_mem_cons, List.map_cons]
    constructor
    · rintro ⟨o, rest, ho, hrest, rfl⟩
      obtain ⟨hplace, rfl⟩ := (reads_interval h hx).1 ho
      obtain ⟨hplaces, rfl⟩ := (ih hids).1 hrest
      exact ⟨⟨hplace, hplaces⟩, rfl⟩
    · rintro ⟨⟨hplace, hplaces⟩, rfl⟩
      exact ⟨_, _, (reads_interval h hx).2 ⟨hplace, rfl⟩, (ih hids).2 ⟨hplaces, rfl⟩, rfl⟩

/-- A no-overlap, from the intervals that it reads. -/
theorem resolve_noOverlap (depth : Nat) (ho : n.operator = .noOverlap)
    (hitems : m.IsAbout n ids types) :
    (m.constraintValue depth id n).resolve (m.value s) =
      (n.intervalsOf id (ids.map Arg.node)).resolve (m.value s) >>= fun spans =>
        .ok (some (pairwiseApart (transitionGap n.values types) 0 spans)) := by
  rw [constraintValue, ho]
  show (m.noOverlapItems id n >>= fun it => _).resolve (m.value s) = _
  rw [hitems.items id]
  show (n.intervalsOf id (ids.map Arg.node) >>= fun spans => _).resolve (m.value s) = _
  rw [resolve_bind_eq]
  rfl

section Built

variable {asked : NodeId → Prop} {sent : List NodeId} (h : Built m asked sent)
  (hn : m.node? id = some n) (ho : n.operator = .noOverlap)

include h hn ho

theorem exists_isAbout : ∃ ids types, m.IsAbout n ids types ∧ ∀ x ∈ ids, m.Is .interval x := by
  obtain ⟨a, hargs, ha⟩ := (ho ▸ (formed_of_node? h hn).args).single rfl rfl
  cases a with
  | list items =>
    obtain ⟨ids, rfl, hids⟩ := ha
    exact ⟨ids, none, .list hargs, hids⟩
  | node x =>
    obtain ⟨seq, hseq, hk⟩ := ha
    have hop : seq.operator = .sequenceVar := eq_sequenceVar hk
    obtain ⟨b, hlist, hb⟩ := (hop ▸ (formed_of_node? h hseq).args).single rfl rfl
    cases b with
    | list items =>
      obtain ⟨ids, rfl, hids⟩ := hb
      exact ⟨ids, seq.types?, .sequence hargs hseq hop hlist, hids⟩
    | _ => exact hb.elim
  | _ => exact ha.elim

/-- The gap that evaluation finds between two listed positions is that of the matrix, and it is not
negative. -/
theorem isGap_transitionGap (hitems : m.IsAbout n ids types)
    (hfits : ∀ ts ∈ types, ∀ t ∈ ts, Fits t) (hp : p < ids.length) (hq : q < ids.length) :
    IsGap n.values types p q (transitionGap n.values types p q) ∧
      0 ≤ transitionGap n.values types p q := by
  cases hv : n.values with
  | none => exact ⟨rfl, le_rfl⟩
  | some rows =>
    have hlength : (ids.map Arg.node).length = ids.length := List.length_map _
    have hplace {k : Nat} (hk : k < ids.length) : IsPlace types k (transitionIndex types k) := by
      cases types with
      | none => rfl
      | some ts =>
        obtain ⟨hsize, hpos⟩ := h.types_checked hn ho (hitems.items id) ts rfl
        have ht : ts[k]? = some ts[k] := List.getElem?_eq_getElem (by omega)
        have hnonneg := hpos _ (List.mem_of_getElem? ht)
        simp only [IsPlace, transitionIndex, Option.bind_some, ht, if_pos hnonneg,
          Int.toNat_of_nonneg hnonneg]
    obtain ⟨v, hentry, hgap, hnonneg⟩ := h.exists_gap hn ho hv (hitems.items id) hfits
      (hlength.symm ▸ hp) (hlength.symm ▸ hq)
    obtain ⟨row, hrow, hv'⟩ := Option.bind_eq_some_iff.1 hentry
    rw [hv] at hgap
    rw [hgap]
    exact ⟨⟨_, _, row, hplace hp, hplace hq, hrow, hv'⟩, hnonneg⟩

end Built

theorem types_fit (hm : m.InRange) (hitems : m.IsAbout n ids types) :
    ∀ ts ∈ types, ∀ t ∈ ts, Fits t := by
  cases hitems with
  | list _ => exact nofun
  | @sequence x seq _ _ hx _ _ =>
    intro ts hts t ht
    obtain ⟨rows, hrows, hhead⟩ := Option.bind_eq_some_iff.1 hts
    exact (hm x.index seq (node?_eq_some.1 hx).2).attributes.values rows hrows ts
      (List.mem_of_mem_head? hhead) t ht

end Nodes

/-- A no-overlap that calls have built is about a list of intervals, and of any two positions in it
about a gap. Under a solution that places all of them, and whose present intervals end after they
start, it holds exactly when the positions of the present ones can be put in one order in which each
interval ends at least a gap before any later one starts. Evaluation fails under a solution that
does not place all of them. -/
theorem noOverlap_iff (tag : Nat) (name : Option String) {cs : List Call}
    (hcs : ∀ c ∈ cs, c.Proper) (s : Solution) {id : NodeId} {n : Node}
    (hn : ((empty tag name).calls cs).node? id = some n) (ho : n.operator = .noOverlap) :
    let m := (empty tag name).calls cs
    ∃ ids types gap, m.IsAbout n ids types ∧
      (∀ p < ids.length, ∀ q < ids.length, IsGap n.values types p q (gap p q)) ∧
      ((∀ x ∈ ids, s.Places x) →
        (∀ x ∈ ids, ∀ start finish, s.interval? x = some (start, finish) →
          Fits start ∧ Fits finish ∧ start < finish) →
        ∃ v, m.Verdict s id (some v) ∧
          (v = true ↔ ∃ order, Separates gap (ids.map s.interval?) order)) ∧
      (¬ (∀ x ∈ ids, s.Places x) →
        ∃ e, m.evalConstraint s id = .error e ∧ m.eval s id = .error e) := by
  intro m
  have h : Built m _ _ := built_calls tag name cs
  obtain ⟨ids, types, hitems, hids⟩ := exists_isAbout h hn ho
  have hfits := types_fit ((inRange_empty tag name).calls hcs) hitems
  have hgaps (p : Nat) (hp : p < ids.length) (q : Nat) (hq : q < ids.length) :=
    isGap_transitionGap h hn ho hitems hfits hp hq
  refine ⟨ids, types, transitionGap n.values types, hitems, fun p hp q hq => (hgaps p hp q hq).1,
    fun hplaces hspans => ?_, fun hmissing => ?_⟩
  · refine ⟨pairwiseApart (transitionGap n.values types) 0 (ids.map s.interval?), ?_, ?_⟩
    · refine .constraint h.toSound hn (by rw [ho]; rfl) ?_
      rw [resolve_noOverlap _ ho hitems, (resolve_intervals h.toSound hids).2 ⟨hplaces, rfl⟩]
      rfl
    · refine pairwiseApart_iff_exists (fun p a ha => ?_) fun p hp q hq => ?_
      · rw [List.getElem?_map, Option.map_eq_some_iff] at ha
        obtain ⟨x, hx, hspan⟩ := ha
        exact hspans x (List.mem_of_getElem? hx) a.1 a.2 hspan
      · rw [List.length_map] at hp hq
        exact (hgaps p hp q hq).2
  · have hconstraint : n.operator.isConstraint := by rw [ho]; rfl
    rw [eval_constraint h.toSound hn hconstraint, evalConstraint_constraint h.toSound hn hconstraint,
      resolve_noOverlap _ ho hitems]
    cases hread : (n.intervalsOf id (ids.map Arg.node)).resolve (m.value s) with
    | ok spans => exact absurd ((resolve_intervals h.toSound hids).1 hread).1 hmissing
    | error e => exact ⟨e, rfl, rfl⟩

/-- Calls that keep two jobs of different types on one machine apart. -/
def machine : List Call :=
  [.intervalVar ⟨.none, none, none⟩, .intervalVar ⟨.none, none, none⟩,
    .sequenceVar ⟨[⟨0, 0⟩, ⟨0, 1⟩], some [1, 0], none⟩,
    .noOverlapSequence ⟨0, 2⟩ (some [[0, 3], [2, 0]])]

/-- The second job starts two after the first one ends. -/
def machineSolution : Solution :=
  (Solution.empty.set ⟨0, 0⟩ (.interval 0 5)).set ⟨0, 1⟩ (.interval 7 9)

theorem noOverlap_iff_machine :
    ((empty 0 none).calls machine).Verdict machineSolution ⟨0, 3⟩ (some true) := by
  have hproper : ∀ c ∈ machine, c.Proper := by
    simp [machine, Call.Proper, TableInRange, Fits, intMin, intMax, Bounds.none]
  have hlook : (((empty 0 none).calls machine).node? ⟨0, 3⟩).map
      (fun n => (n.operator, n.args, n.values)) =
        some (.noOverlap, [.node ⟨0, 2⟩], some [[0, 3], [2, 0]]) := by rfl
  obtain ⟨n, hn, hfields⟩ := Option.map_eq_some_iff.1 hlook
  obtain ⟨ho, hargs, hvalues⟩ : n.operator = .noOverlap ∧ n.args = [.node ⟨0, 2⟩] ∧
      n.values = some [[0, 3], [2, 0]] := by simpa using hfields
  obtain ⟨ids, types, gap, habout, hgap, hverdict, -⟩ :=
    noOverlap_iff 0 none hproper machineSolution hn ho
  have hseq : (((empty 0 none).calls machine).node? ⟨0, 2⟩).map
      (fun n => (n.operator, n.args, n.types?)) =
        some (.sequenceVar, [.list [.node ⟨0, 0⟩, .node ⟨0, 1⟩]], some [1, 0]) := by rfl
  obtain ⟨seq, hx, hfields⟩ := Option.map_eq_some_iff.1 hseq
  obtain ⟨hop, hlist, htypes⟩ : seq.operator = .sequenceVar ∧
      seq.args = [.list ([⟨0, 0⟩, ⟨0, 1⟩].map Arg.node)] ∧ seq.types? = some [1, 0] := by
    simpa using hfields
  obtain ⟨rfl, rfl⟩ := habout.unique (.sequence hargs hx hop hlist)
  rw [htypes, hvalues] at hgap
  have hgap : gap 0 1 = 2 := by
    obtain ⟨i, j, row, hi, hj, hrow, hentry⟩ := hgap 0 (by decide) 1 (by decide)
    obtain rfl : 1 = i := Int.ofNat.inj (Option.some.inj hi)
    obtain rfl : 0 = j := Int.ofNat.inj (Option.some.inj hj)
    obtain rfl := Option.some.inj hrow
    exact (Option.some.inj hentry).symm
  have hfirst : machineSolution.value? ⟨0, 0⟩ = some (.interval 0 5) := by decide +kernel
  have hsecond : machineSolution.value? ⟨0, 1⟩ = some (.interval 7 9) := by decide +kernel
  have hspans : [⟨0, 0⟩, ⟨0, 1⟩].map machineSolution.interval? = [some (0, 5), some (7, 9)] := by
    simp [Solution.interval?, hfirst, hsecond]
  obtain ⟨v, hv, hiff⟩ := hverdict
    (by simp [Solution.Places, hfirst, hsecond])
    (by simp [Solution.interval?, hfirst, hsecond, Fits, intMin, intMax])
  rw [hspans] at hiff
  obtain rfl : v = true := by
    refine hiff.2 ⟨[0, 1], by decide, fun p => ?_, ?_⟩
    · obtain _ | _ | p := p <;> simp
    · refine List.pairwise_pair.2 fun a b ha hb => ?_
      obtain rfl : (0, 5) = a := Option.some.inj (Option.some.inj ha)
      obtain rfl : (7, 9) = b := Option.some.inj (Option.some.inj hb)
      rw [hgap]
      decide
  exact hv

end Model

end Scheduling
