import Mathlib.Data.List.Perm.Subperm
import Scheduling.Proofs.Record.Reachable

/-!
# Written nodes

Every reachable node is written exactly once in the record of a sound model, and no other node is
(`exists_written`). The nodes that are written are balanced: a node with a number is written for its
number, any other node once for each of its uses (`Spells`), and a sound model has one use of it.
-/

namespace Scheduling

/-! ### Nodes of records -/

mutual

/-- The nodes that are written in an argument. -/
def ArgRecord.nodes : ArgRecord → List NodeRecord
  | .inline n => n.nodes
  | .list items => ArgRecord.nodesOf items
  | _ => []

/-- The nodes that are written in arguments, from left to right. -/
def ArgRecord.nodesOf : List ArgRecord → List NodeRecord
  | [] => []
  | a :: rest => a.nodes ++ ArgRecord.nodesOf rest

/-- The node and those that are written in its arguments. -/
def NodeRecord.nodes : NodeRecord → List NodeRecord
  | .mk operator args attributes => .mk operator args attributes :: ArgRecord.nodesOf args

end

/-- The nodes that are written in a record, each as often as it is written. -/
def ModelRecord.nodes (r : ModelRecord) : List NodeRecord :=
  r.refs.flatMap NodeRecord.nodes ++ ArgRecord.nodesOf r.topLevel ++
    (r.objective.map fun o => o.expr.nodes).getD []

namespace Model

variable {m : Model} {id x : NodeId} {n : Node} {heads roots ws heads' roots' ws' : List NodeId}
  {ns ns' : List NodeRecord}

/-! ### Balance -/

/-- The operands of the node with an id. -/
def operandsAt (m : Model) (id : NodeId) : List NodeId := ((m.node? id).map Node.operands).getD []

theorem operandsAt_eq (hn : m.node? id = some n) : m.operandsAt id = n.operands := by
  rw [operandsAt, hn]
  rfl

/-- The records `ns` are those of the nodes `ws`: among these are the nodes with a number that
`heads` lists, and the others once for each time that `roots` lists them or one of `ws` uses
them. -/
structure Spells (m : Model) (heads roots ws : List NodeId) (ns : List NodeRecord) : Prop where
  records : List.Forall₂ (fun x n => m.refRecord x = .ok n) ws ns
  numbered : ∀ x, (m.ref? x).isSome → ws.count x = heads.count x
  rest : ∀ x, m.ref? x = none → ws.count x = roots.count x + (ws.flatMap m.operandsAt).count x

namespace Spells

theorem nil (m : Model) : Spells m [] [] [] [] := ⟨.nil, fun _ _ => rfl, fun _ _ => rfl⟩

theorem append (h : Spells m heads roots ws ns) (h' : Spells m heads' roots' ws' ns') :
    Spells m (heads ++ heads') (roots ++ roots') (ws ++ ws') (ns ++ ns') := by
  refine ⟨List.rel_append h.records h'.records, fun x hx => ?_, fun x hx => ?_⟩
  · rw [List.count_append, List.count_append, h.numbered x hx, h'.numbered x hx]
  · have := h.rest x hx
    have := h'.rest x hx
    simp only [List.count_append, List.flatMap_append]
    omega

/-- A node with a number is written for its number. -/
theorem head {r : NodeRecord} (h : Spells m [] (m.operandsAt id) ws ns) (hid : (m.ref? id).isSome)
    (hr : m.refRecord id = .ok r) : Spells m [id] [] (id :: ws) (r :: ns) := by
  refine ⟨.cons hr h.records, fun x hx => ?_, fun x hx => ?_⟩
  · rw [List.count_cons, h.numbered x hx, List.count_nil, List.count_singleton, Nat.zero_add]
  · have hne : id ≠ x := by
      rintro rfl
      simp [hx] at hid
    have := h.rest x hx
    rw [List.count_cons_of_ne hne, List.flatMap_cons, List.count_append, List.count_nil]
    omega

/-- Any other node is written where it is used. -/
theorem root {r : NodeRecord} (h : Spells m [] (m.operandsAt id) ws ns) (hid : m.ref? id = none)
    (hr : m.refRecord id = .ok r) : Spells m [] [id] (id :: ws) (r :: ns) := by
  refine ⟨.cons hr h.records, fun x hx => ?_, fun x hx => ?_⟩
  · have hne : id ≠ x := by
      rintro rfl
      simp [hid] at hx
    rw [List.count_cons_of_ne hne]
    exact h.numbered x hx
  · have := h.rest x hx
    rw [List.count_cons, List.flatMap_cons, List.count_append, List.count_singleton]
    omega

end Spells

/-! ### The nodes that are written -/

section Arguments

variable {ref : NodeId → Except ProtocolError ArgRecord}

mutual

theorem exists_spells_arg (a : Arg) {r : ArgRecord} (hr : argRecord ref a = .ok r)
    (href : ∀ y ∈ a.nodes, ∀ r, ref y = .ok r → ∃ ws, Spells m [] [y] ws r.nodes) :
    ∃ ws, Spells m [] a.nodes ws r.nodes := by
  cases a with
  | node y => exact href y (List.mem_singleton_self y) r hr
  | list items =>
    rw [argRecord] at hr
    split at hr
    · rename_i rs hrs
      obtain rfl := Except.ok.inj hr
      exact exists_spells_args items hrs href
    · exact nomatch hr
  | _ =>
    obtain rfl := Except.ok.inj hr
    exact ⟨[], .nil m⟩

theorem exists_spells_args (args : List Arg) {rs : List ArgRecord} (hr : argRecords ref args = .ok rs)
    (href : ∀ y ∈ Arg.nodesOf args, ∀ r, ref y = .ok r → ∃ ws, Spells m [] [y] ws r.nodes) :
    ∃ ws, Spells m [] (Arg.nodesOf args) ws (ArgRecord.nodesOf rs) := by
  cases args with
  | nil =>
    obtain rfl := Except.ok.inj hr
    exact ⟨[], .nil m⟩
  | cons a rest =>
    rw [argRecords] at hr
    split at hr
    · exact nomatch hr
    · rename_i r₁ hr₁
      split at hr
      · exact nomatch hr
      · rename_i rs₂ hrs₂
        obtain rfl := Except.ok.inj hr
        obtain ⟨ws₁, h₁⟩ := exists_spells_arg a hr₁ fun y hy => href y (List.mem_append_left _ hy)
        obtain ⟨ws₂, h₂⟩ := exists_spells_args rest hrs₂ fun y hy =>
          href y (List.mem_append_right _ hy)
        exact ⟨ws₁ ++ ws₂, h₁.append h₂⟩

end

end Arguments

theorem nodes_of_nodeRecord {ref : NodeId → Except ProtocolError ArgRecord} {r : NodeRecord}
    (hr : nodeRecord ref n = .ok r) :
    ∃ rs, argRecords ref n.args = .ok rs ∧ r.nodes = r :: ArgRecord.nodesOf rs := by
  rw [nodeRecord] at hr
  split at hr
  · rename_i rs hrs
    obtain rfl := Except.ok.inj hr
    exact ⟨rs, hrs, by rw [NodeRecord.nodes]⟩
  · cases hr

/-- The nodes that are written for a use of a node. -/
theorem exists_spells_reference (h : Sound m) (hid : m.Has id) {a : ArgRecord}
    (ha : m.reference id = .ok a) : ∃ ws, Spells m [] [id] ws a.nodes := by
  induction hi : id.index using Nat.strongRecOn generalizing id a with
  | _ i ih =>
  obtain ⟨n, hn⟩ := hid.exists_node
  rw [reference_eq h hn] at ha
  cases href : n.ref with
  | some k =>
    rw [href] at ha
    obtain rfl := Except.ok.inj ha
    refine ⟨[], .nil, fun _ _ => rfl, fun x hx => ?_⟩
    have hne : id ≠ x := by
      rintro rfl
      simp [ref?, hn, href] at hx
    simp [hne]
  | none =>
    rw [href] at ha
    cases hr : nodeRecord m.reference n with
    | error e =>
      rw [hr] at ha
      cases ha
    | ok r =>
      rw [hr] at ha
      obtain rfl := Except.ok.inj ha
      obtain ⟨rs, hrs, hnodes⟩ := nodes_of_nodeRecord hr
      obtain ⟨ws, hws⟩ := exists_spells_args (m := m) n.args hrs fun y hy a ha => by
        obtain ⟨hhas, hlt⟩ := h.operand hn hy
        exact ih y.index (hi ▸ hlt) hhas ha rfl
      refine ⟨id :: ws, ?_⟩
      rw [ArgRecord.nodes, hnodes]
      refine Spells.root ?_ (by rw [ref?, hn, Option.bind_some, href]) ?_
      · rwa [operandsAt_eq hn]
      · rw [refRecord, node_eq_ok.2 hn]
        exact hr

theorem exists_spells_refRecord (h : Sound m) (hid : (m.ref? id).isSome) {r : NodeRecord}
    (hr : m.refRecord id = .ok r) : ∃ ws, Spells m [id] [] ws r.nodes := by
  obtain ⟨k, hk⟩ := Option.isSome_iff_exists.1 hid
  obtain ⟨n, hn, -⟩ := ref?_eq_some.1 hk
  have hrecord := hr
  rw [refRecord, node_eq_ok.2 hn] at hrecord
  obtain ⟨rs, hrs, hnodes⟩ := nodes_of_nodeRecord hrecord
  obtain ⟨ws, hws⟩ := exists_spells_args (m := m) n.args hrs fun y hy a ha =>
    exists_spells_reference h (h.operand hn hy).1 ha
  refine ⟨id :: ws, ?_⟩
  rw [hnodes]
  refine Spells.head ?_ hid hr
  rwa [operandsAt_eq hn]

theorem exists_spells_refs (h : Sound m) {ids : List NodeId} {rs : List NodeRecord}
    (hids : ∀ id ∈ ids, (m.ref? id).isSome)
    (hr : List.Forall₂ (fun id r => m.refRecord id = .ok r) ids rs) :
    ∃ ws, Spells m ids [] ws (rs.flatMap NodeRecord.nodes) := by
  induction hr with
  | nil => exact ⟨[], .nil m⟩
  | cons hr _ ih =>
    obtain ⟨hid, hids⟩ := List.forall_mem_cons.1 hids
    obtain ⟨ws₁, h₁⟩ := exists_spells_refRecord h hid hr
    obtain ⟨ws₂, h₂⟩ := ih hids
    exact ⟨ws₁ ++ ws₂, h₁.append h₂⟩

theorem exists_spells_references (h : Sound m) {ids : List NodeId} {as : List ArgRecord}
    (hids : ∀ id ∈ ids, m.Has id) (ha : List.Forall₂ (fun id a => m.reference id = .ok a) ids as) :
    ∃ ws, Spells m [] ids ws (ArgRecord.nodesOf as) := by
  induction ha with
  | nil => exact ⟨[], .nil m⟩
  | cons ha _ ih =>
    obtain ⟨hid, hids⟩ := List.forall_mem_cons.1 hids
    obtain ⟨ws₁, h₁⟩ := exists_spells_reference h hid ha
    obtain ⟨ws₂, h₂⟩ := ih hids
    exact ⟨ws₁ ++ ws₂, h₁.append h₂⟩

theorem Sound.mem_refs (h : Sound m) : id ∈ m.refs.toList ↔ (m.ref? id).isSome := by
  rw [List.mem_iff_getElem?, Option.isSome_iff_exists]
  exact exists_congr fun k => by rw [Array.getElem?_toList]; exact h.numbered k id

theorem Sound.nodup_refs (h : Sound m) : m.refs.toList.Nodup := by
  refine List.nodup_iff_getElem?_ne_getElem?.2 fun i j hij hj he => ?_
  have hi : m.refs.toList[i]? = some m.refs.toList[i] := List.getElem?_eq_getElem (by omega)
  have hi' := (h.numbered i _).1 (by rw [← Array.getElem?_toList]; exact hi)
  have hj' := (h.numbered j _).1 (by rw [← Array.getElem?_toList]; exact he ▸ hi)
  have := Option.some.inj (hi'.symm.trans hj')
  omega

theorem spells_record (h : Sound m) {r : ModelRecord} (hr : m.record = .ok r) :
    ∃ ws, Spells m m.refs.toList m.topLevel.toList ws r.nodes := by
  obtain ⟨r', hr', -, hrefs, htop, hobj⟩ := exists_record h
  obtain rfl := Except.ok.inj (hr.symm.trans hr')
  obtain ⟨ws₁, h₁⟩ := exists_spells_refs h (fun id hid => h.mem_refs.1 hid) hrefs
  obtain ⟨ws₂, h₂⟩ := exists_spells_references h h.topLevel_has htop
  have hnone : ((r.objective.map fun o => o.expr.nodes).getD []) = [] := by
    cases ho : m.objective with
    | none =>
      rw [ho] at hobj
      rw [hobj]
      rfl
    | some o =>
      rw [ho] at hobj
      obtain ⟨k, -, hobj⟩ := hobj
      rw [hobj]
      rfl
  refine ⟨ws₁ ++ ws₂, ?_⟩
  rw [ModelRecord.nodes, hnone, List.append_nil]
  simpa using h₁.append h₂

/-! ### Each reachable node once -/

namespace Spells

theorem has (hs : Spells m heads roots ws ns) (hx : x ∈ ws) : m.Has x := by
  obtain ⟨k, hk⟩ := List.mem_iff_getElem.1 hx
  obtain ⟨hlt, rfl⟩ := hk
  have hr := hs.records.get hlt (hs.records.length_eq ▸ hlt)
  simp only [List.get_eq_getElem] at hr
  rw [refRecord] at hr
  split at hr
  · exact has_of_node? (node_eq_ok.1 ‹_›)
  · cases hr

/-- A node that uses another one has a place after it. -/
theorem lt_of_mem_operandsAt (h : Sound m) {p : NodeId} (hx : x ∈ m.operandsAt p) :
    m.Has p ∧ m.Has x ∧ x.index < p.index := by
  cases hn : m.node? p with
  | none => simp [operandsAt, hn] at hx
  | some n =>
    rw [operandsAt_eq hn] at hx
    exact ⟨has_of_node? hn, h.operand hn hx⟩

theorem mem_iff (hs : Spells m heads roots ws ns) :
    x ∈ ws ↔ if (m.ref? x).isSome then x ∈ heads else x ∈ roots ∨ ∃ p ∈ ws, x ∈ m.operandsAt p := by
  rw [← List.count_pos_iff]
  split
  · rw [hs.numbered x ‹_›, List.count_pos_iff]
  · rename_i hnone
    rw [hs.rest x (Option.not_isSome_iff_eq_none.1 hnone), ← List.mem_flatMap, ← List.count_pos_iff,
      ← List.count_pos_iff]
    omega

theorem reachable (h : Sound m) (hs : Spells m m.refs.toList m.topLevel.toList ws ns) (hx : x ∈ ws) :
    m.Reachable x := by
  induction hk : m.nodes.size - x.index using Nat.strongRecOn generalizing x with
  | _ k ih =>
  have hmem := hs.mem_iff.1 hx
  split at hmem
  · exact .ref hmem
  · obtain htop | ⟨p, hp, hxp⟩ := hmem
    · exact .topLevel htop
    · obtain ⟨hhas, -, hlt⟩ := lt_of_mem_operandsAt h hxp
      obtain ⟨n, hn⟩ := hhas.exists_node
      have := hhas.2
      refine .operand (ih _ (by omega) hp rfl) hn ?_
      rwa [operandsAt_eq hn] at hxp

theorem mem_of_reachable (h : Sound m) (hs : Spells m m.refs.toList m.topLevel.toList ws ns)
    (hx : m.Reachable x) : x ∈ ws := by
  rw [hs.mem_iff]
  split
  · exact h.mem_refs.2 ‹_›
  · rename_i hnone
    induction hx with
    | ref hid => exact absurd (h.mem_refs.1 hid) hnone
    | topLevel hid => exact .inl hid
    | objective ho => exact absurd (h.objective _ ho) hnone
    | @operand p x n hp hn hx ih =>
      refine .inr ⟨p, hs.mem_iff.2 ?_, by rwa [operandsAt_eq hn]⟩
      split
      · exact h.mem_refs.2 ‹_›
      · exact ih ‹_›

end Spells

theorem sum_map_filter {g : NodeId → Nat} (p : NodeId → Bool) (hg : ∀ y, ¬ p y → g y = 0) :
    (ws.map g).sum = ((ws.filter p).map g).sum := by
  induction ws with
  | nil => rfl
  | cons y ws ih =>
    rw [List.map_cons, List.sum_cons, ih]
    by_cases hy : p y
    · rw [List.filter_cons_of_pos hy, List.map_cons, List.sum_cons]
    · rw [List.filter_cons_of_neg hy, hg y hy, Nat.zero_add]

/-- Over some of the nodes, each at most once, a node is used no more often than over all. -/
theorem sum_count_operandsAt_le (hnd : ws.Nodup) (hhas : ∀ p ∈ ws, m.Has p) (x : NodeId) :
    (ws.map fun p => (m.operandsAt p).count x).sum ≤
      (m.nodes.toList.map fun n => n.operands.count x).sum := by
  have hall : (m.ids.map fun p => (m.operandsAt p).count x) =
      m.nodes.toList.map fun n => n.operands.count x := by
    refine List.ext_getElem? fun i => ?_
    rw [ids, List.map_map, List.getElem?_map, List.getElem?_map]
    by_cases hi : i < m.nodes.size
    · have hn : m.node? (m.idAt i) = some m.nodes[i] := by
        rw [node?_idAt, Array.getElem?_eq_getElem hi]
      rw [List.getElem?_range hi, Option.map_some, Function.comp_apply, operandsAt_eq hn]
      simp [hi]
    · rw [List.getElem?_eq_none (by simpa using hi), List.getElem?_eq_none (by simpa using hi)]
      rfl
  obtain ⟨l, hperm, hsub⟩ := hnd.subperm fun p hp => mem_ids.2 (hhas p hp)
  rw [← hall, ← (hperm.map _).sum_eq]
  exact (hsub.map _).sum_le_sum fun _ _ => Nat.zero_le _

theorem Spells.count_le_one (h : Sound m)
    (hs : Spells m m.refs.toList m.topLevel.toList ws ns) (x : NodeId) : ws.count x ≤ 1 := by
  induction hk : m.nodes.size - x.index using Nat.strongRecOn generalizing x with
  | _ k ih =>
  cases hr : m.ref? x with
  | some r =>
    rw [hs.numbered x (by rw [hr]; rfl)]
    exact List.nodup_iff_count_le_one.1 h.nodup_refs x
  | none =>
    by_cases hx : x ∈ ws
    · -- The nodes that use `x` stand after it, so each of them is written once.
      have hsum : (ws.flatMap m.operandsAt).count x ≤
          (m.nodes.toList.map fun n => n.operands.count x).sum := by
        have hzero (p : NodeId) (hp : ¬ decide (x ∈ m.operandsAt p)) : (m.operandsAt p).count x = 0 :=
          List.count_eq_zero.2 (by simpa using hp)
        rw [List.count_flatMap, Function.comp_def, sum_map_filter _ hzero]
        refine sum_count_operandsAt_le (List.nodup_iff_count_le_one.2 fun p => ?_)
          (fun p hp => hs.has (List.mem_of_mem_filter hp)) x
        by_cases hxp : x ∈ m.operandsAt p
        · obtain ⟨hp, -, hlt⟩ := lt_of_mem_operandsAt h hxp
          have := hp.2
          exact Nat.le_trans (List.filter_sublist.count_le p) (ih _ (by omega) p rfl)
        · rw [List.count_eq_zero.2 fun hmem => hxp (by simpa using (List.mem_filter.1 hmem).2)]
          exact Nat.zero_le 1
      obtain ⟨n, hn⟩ := (hs.has hx).exists_node
      have hocc := h.occurrences_le_one hn (by simpa [ref?, hn] using hr)
      rw [occurrences] at hocc
      have := hs.rest x hr
      omega
    · rw [List.count_eq_zero.2 hx]
      exact Nat.zero_le 1

/-- The nodes that are written in the record of a sound model are the reachable ones, each once. -/
theorem exists_written (h : Sound m) {r : ModelRecord} (hr : m.record = .ok r) :
    ∃ ws : List NodeId, ws.Nodup ∧ (∀ x, x ∈ ws ↔ m.Reachable x) ∧
      List.Forall₂ (fun x n => m.refRecord x = .ok n) ws r.nodes := by
  obtain ⟨ws, hs⟩ := spells_record h hr
  exact ⟨ws, List.nodup_iff_count_le_one.2 (hs.count_le_one h),
    fun x => ⟨hs.reachable h, hs.mem_of_reachable h⟩, hs.records⟩

end Model

end Scheduling
