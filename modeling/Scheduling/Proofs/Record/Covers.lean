import Scheduling.Proofs.Arena.Sound
import Scheduling.Record.Encode

/-!
# Covers

A map from the nodes of one model to those of another that keeps everything a record says
(`Model.Covers`). A model and one that it covers have the same record (`Covers.record_eq`), so the
record does not say in which order the nodes were built.
-/

namespace Scheduling

namespace Arg

mutual

/-- The argument with other names for its nodes. -/
def rename (f : NodeId → NodeId) : Arg → Arg
  | node id => node (f id)
  | list items => list (renameAll f items)
  | a => a

/-- The arguments with other names for their nodes. -/
def renameAll (f : NodeId → NodeId) : List Arg → List Arg
  | [] => []
  | a :: rest => rename f a :: renameAll f rest

end

theorem renameAll_eq_map (f : NodeId → NodeId) (args : List Arg) :
    renameAll f args = args.map (rename f) := by
  induction args with
  | nil => rfl
  | cons a rest ih => rw [renameAll, ih, List.map_cons]

mutual

theorem nodes_rename (f : NodeId → NodeId) : (a : Arg) → (a.rename f).nodes = a.nodes.map f
  | .node id => rfl
  | .list items => by rw [rename, nodes, nodes, nodesOf_renameAll f items]
  | .int _ | .float _ | .bool _ => rfl

theorem nodesOf_renameAll (f : NodeId → NodeId) :
    (args : List Arg) → nodesOf (renameAll f args) = (nodesOf args).map f
  | [] => rfl
  | a :: rest => by
    rw [renameAll, nodesOf, nodesOf, nodes_rename f a, nodesOf_renameAll f rest, List.map_append]

end

mutual

theorem rename_congr {f g : NodeId → NodeId} :
    (a : Arg) → (∀ id ∈ a.nodes, f id = g id) → a.rename f = a.rename g
  | .node id, h => by rw [rename, rename, h id (List.mem_singleton_self id)]
  | .list items, h => by rw [rename, rename, renameAll_congr items h]
  | .int _, _ | .float _, _ | .bool _, _ => rfl

theorem renameAll_congr {f g : NodeId → NodeId} :
    (args : List Arg) → (∀ id ∈ nodesOf args, f id = g id) → renameAll f args = renameAll g args
  | [], _ => rfl
  | a :: rest, h => by
    rw [renameAll, renameAll, rename_congr a fun id hid => h id (List.mem_append_left _ hid),
      renameAll_congr rest fun id hid => h id (List.mem_append_right _ hid)]

end

mutual

theorem rename_self : (a : Arg) → a.rename (fun id => id) = a
  | .node _ => rfl
  | .list items => by rw [rename, renameAll_self items]
  | .int _ | .float _ | .bool _ => rfl

theorem renameAll_self : (args : List Arg) → renameAll (fun id => id) args = args
  | [] => rfl
  | a :: rest => by rw [renameAll, rename_self a, renameAll_self rest]

end

end Arg

/-- The node says the same as another one, about the nodes that a map gives for its own. -/
structure Node.Copy (f : NodeId → NodeId) (n' n : Node) : Prop where
  attributes : n.toAttributes = n'.toAttributes
  operator : n.operator = n'.operator
  args : n.args = Arg.renameAll f n'.args

namespace Node.Copy

variable {f g : NodeId → NodeId} {n' n₁ n : Node}

theorem congr (h : n'.Copy f n) (hf : ∀ id ∈ n'.operands, g id = f id) : n'.Copy g n :=
  ⟨h.attributes, h.operator, h.args.trans (Arg.renameAll_congr _ fun id hid => (hf id hid).symm)⟩

theorem refl (n : Node) : n.Copy (fun id => id) n :=
  ⟨rfl, rfl, (Arg.renameAll_self n.args).symm⟩

theorem operands (h : n'.Copy f n) : n.operands = n'.operands.map f := by
  rw [Node.operands, h.args, Arg.nodesOf_renameAll]
  rfl

theorem of_bare (h : n'.Copy f n) (hb : n₁.bare = n'.bare) : n₁.Copy f n := by
  have ha : n₁.toAttributes = n'.toAttributes := (congrArg (fun n : Node => n.toAttributes) hb :)
  have ho : n₁.operator = n'.operator := (congrArg (fun n : Node => n.operator) hb :)
  have hargs : n₁.args = n'.args := (congrArg (fun n : Node => n.args) hb :)
  exact ⟨h.attributes.trans ha.symm, h.operator.trans ho.symm, by rw [hargs]; exact h.args⟩

theorem transitionSize (h : n'.Copy f n) : n.transitionSize = n'.transitionSize := by
  have htypes : n.types? = n'.types? := by rw [Node.types?, Node.types?, h.attributes]
  have hlength : (n.args.head?.bind Arg.list?).map List.length =
      (n'.args.head?.bind Arg.list?).map List.length := by
    rw [h.args]
    cases n'.args with
    | nil => rfl
    | cons a rest =>
      cases a with
      | list items => simp [Arg.renameAll, Arg.rename, Arg.list?, Arg.renameAll_eq_map]
      | _ => rfl
  rw [Node.transitionSize, Node.transitionSize, htypes, hlength]

end Node.Copy

namespace Model

variable {m m' : Model} {id : NodeId} {n n' : Node} {f : NodeId → NodeId}

/-! ### Records of arguments -/

section Arguments

variable {ref ref' : NodeId → Except ProtocolError ArgRecord}

mutual

/-- The record of an argument says of nodes only what their records say. -/
theorem argRecord_rename (a : Arg) (h : ∀ id ∈ a.nodes, ref' id = ref (f id)) :
    argRecord ref' a = argRecord ref (a.rename f) := by
  cases a with
  | node id => exact h id (List.mem_singleton_self id)
  | list items => rw [argRecord, Arg.rename, argRecord, argRecords_rename items h]
  | _ => rfl

theorem argRecords_rename (args : List Arg) (h : ∀ id ∈ Arg.nodesOf args, ref' id = ref (f id)) :
    argRecords ref' args = argRecords ref (Arg.renameAll f args) := by
  cases args with
  | nil => rfl
  | cons a rest =>
    rw [argRecords, Arg.renameAll, argRecords,
      argRecord_rename a fun id hid => h id (List.mem_append_left _ hid),
      argRecords_rename rest fun id hid => h id (List.mem_append_right _ hid)]

end

mutual

theorem exists_argRecord (a : Arg) (h : ∀ id ∈ a.nodes, ∃ r, ref id = .ok r) :
    ∃ r, argRecord ref a = .ok r := by
  cases a with
  | node id => exact h id (List.mem_singleton_self id)
  | list items =>
    obtain ⟨rs, hrs⟩ := exists_argRecords items h
    exact ⟨.list rs, by rw [argRecord, hrs]⟩
  | int v => exact ⟨.int v, rfl⟩
  | float x => exact ⟨.float x, rfl⟩
  | bool b => exact ⟨.bool b, rfl⟩

theorem exists_argRecords (args : List Arg) (h : ∀ id ∈ Arg.nodesOf args, ∃ r, ref id = .ok r) :
    ∃ rs, argRecords ref args = .ok rs := by
  cases args with
  | nil => exact ⟨[], rfl⟩
  | cons a rest =>
    obtain ⟨r, hr⟩ := exists_argRecord a fun id hid => h id (List.mem_append_left _ hid)
    obtain ⟨rs, hrs⟩ := exists_argRecords rest fun id hid => h id (List.mem_append_right _ hid)
    exact ⟨r :: rs, by rw [argRecords, hr, hrs]⟩

end

end Arguments

/-! ### Covers -/

/-- A map of the nodes of one model to those of another that keeps all that records say. -/
structure Covers (f : NodeId → NodeId) (m' m : Model) : Prop where
  node : ∀ (id : NodeId) (n' : Node), m'.node? id = some n' → ∃ n, m.node? (f id) = some n ∧
    n'.Copy f n ∧ n.ref = n'.ref
  name : m.name = m'.name
  refs : m.refs.toList = m'.refs.toList.map f
  topLevel : m.topLevel.toList = m'.topLevel.toList.map f
  objective : m.objective = m'.objective.map fun o => ⟨o.sense, f o.expr⟩

theorem Covers.refl (m : Model) : Covers (fun id => id) m m :=
  ⟨fun _ n hn => ⟨n, hn, .refl n, rfl⟩, rfl, by simp, by simp,
    by simp⟩

theorem Covers.has (h : Covers f m' m) (hid : m'.Has id) : m.Has (f id) := by
  obtain ⟨n', hn'⟩ := hid.exists_node
  obtain ⟨n, hn, -⟩ := h.node id n' hn'
  exact has_of_node? hn

theorem Covers.operands (h : Covers f m' m) (hn' : m'.node? id = some n')
    (hn : m.node? (f id) = some n) : n.operands = n'.operands.map f := by
  obtain ⟨n₁, hn₁, hcopy, -⟩ := h.node id n' hn'
  obtain rfl : n = n₁ := Option.some.inj (hn.symm.trans hn₁)
  exact hcopy.operands

theorem Sound.operand (h : Sound m) (hn : m.node? id = some n) {x : NodeId} (hx : x ∈ n.operands) :
    m.Has x ∧ x.index < id.index := by
  have hi := (node?_eq_some.1 hn).2
  exact ⟨h.counted.operand_has hi hx, (h.counted.operand hi x hx).2⟩

/-! ### Records of nodes -/

theorem nodeRecord_of_covers (hc : Covers f m' m) (hn' : m'.node? id = some n')
    (hn : m.node? (f id) = some n) {ref ref' : NodeId → Except ProtocolError ArgRecord}
    (href : ∀ x ∈ n'.operands, ref' x = ref (f x)) : nodeRecord ref' n' = nodeRecord ref n := by
  obtain ⟨n₁, hn₁, hcopy, -⟩ := hc.node id n' hn'
  obtain rfl : n = n₁ := Option.some.inj (hn.symm.trans hn₁)
  have hargs : argRecords ref' n'.args = argRecords ref (Arg.renameAll f n'.args) :=
    argRecords_rename n'.args href
  rw [nodeRecord, nodeRecord, hargs, hcopy.args, hcopy.operator, hcopy.attributes]

/-- The record of a use does not depend on the depth, nor on the order of the nodes. -/
theorem referenceBelow_of_covers (hc : Covers f m' m) (h' : Sound m') (h : Sound m) (d' d : Nat)
    (id : NodeId) (hid : m'.Has id) (hd' : id.index < d') (hd : (f id).index < d) :
    m'.referenceBelow d' id = m.referenceBelow d (f id) := by
  induction d' generalizing d id with
  | zero => omega
  | succ d' ih =>
    obtain ⟨d, rfl⟩ := Nat.exists_eq_succ_of_ne_zero (n := d) (by omega)
    obtain ⟨n', hn'⟩ := hid.exists_node
    obtain ⟨n, hn, -, href⟩ := hc.node id n' hn'
    have hnode : nodeRecord (m'.referenceBelow d') n' = nodeRecord (m.referenceBelow d) n := by
      refine nodeRecord_of_covers hc hn' hn fun x hx => ?_
      obtain ⟨hhas, hlt⟩ := h'.operand hn' hx
      have hfx : f x ∈ n.operands := by
        rw [hc.operands hn' hn]
        exact List.mem_map_of_mem hx
      exact ih d x hhas (by omega) (by have := (h.operand hn hfx).2; omega)
    simp only [referenceBelow, node_eq_ok.2 hn', node_eq_ok.2 hn, hnode, href]

theorem reference_of_covers (hc : Covers f m' m) (h' : Sound m') (h : Sound m) (hid : m'.Has id) :
    m'.reference id = m.reference (f id) := by
  obtain ⟨n', hn'⟩ := hid.exists_node
  obtain ⟨n, hn, -⟩ := hc.node id n' hn'
  exact referenceBelow_of_covers hc h' h _ _ id hid hid.2 (has_of_node? hn).2

theorem refRecord_of_covers (hc : Covers f m' m) (h' : Sound m') (h : Sound m) (hid : m'.Has id) :
    m'.refRecord id = m.refRecord (f id) := by
  obtain ⟨n', hn'⟩ := hid.exists_node
  obtain ⟨n, hn, -⟩ := hc.node id n' hn'
  rw [refRecord, refRecord, node_eq_ok.2 hn', node_eq_ok.2 hn]
  exact nodeRecord_of_covers hc hn' hn fun x hx =>
    reference_of_covers hc h' h (h'.operand hn' hx).1

/-- The record of a use of a node is its number, or else its own record. -/
theorem reference_eq (h : Sound m) (hn : m.node? id = some n) :
    m.reference id =
      match n.ref with
      | some number => .ok (.ref number)
      | none =>
        match nodeRecord m.reference n with
        | .ok r => .ok (.inline r)
        | .error e => .error e := by
  have hid := has_of_node? hn
  obtain ⟨d, hd⟩ := Nat.exists_eq_succ_of_ne_zero (n := m.nodes.size) (by have := hid.2; omega)
  have hnode : nodeRecord (m.referenceBelow d) n = nodeRecord m.reference n := by
    refine nodeRecord_of_covers (.refl m) hn hn fun x hx => ?_
    obtain ⟨hhas, hlt⟩ := h.operand hn hx
    have := hid.2
    exact referenceBelow_of_covers (.refl m) h h d _ x hhas (by omega) (Nat.lt_trans hlt this)
  cases href : n.ref with
  | some number => simp only [reference.eq_1 m id, hd, referenceBelow, node_eq_ok.2 hn, href]
  | none =>
    cases hrecord : nodeRecord m.reference n <;>
      simp only [reference.eq_1 m id, hd, referenceBelow, node_eq_ok.2 hn, href, hnode, hrecord]

/-- Every node of a sound model has a record. -/
theorem exists_reference (h : Sound m) (hid : m.Has id) : ∃ r, m.reference id = .ok r := by
  induction hi : id.index using Nat.strongRecOn generalizing id with
  | _ i ih =>
    obtain ⟨n, hn⟩ := hid.exists_node
    rw [reference_eq h hn]
    cases n.ref with
    | some number => exact ⟨.ref number, rfl⟩
    | none =>
      obtain ⟨rs, hrs⟩ : ∃ rs, argRecords m.reference n.args = .ok rs := by
        refine exists_argRecords n.args fun x hx => ?_
        obtain ⟨hhas, hlt⟩ := h.operand hn hx
        exact ih x.index (hi ▸ hlt) hhas rfl
      exact ⟨.inline (.mk n.operator rs n.toAttributes), by simp only [nodeRecord, hrs]⟩

theorem exists_refRecord (h : Sound m) (hid : m.Has id) : ∃ r, m.refRecord id = .ok r := by
  obtain ⟨n, hn⟩ := hid.exists_node
  obtain ⟨rs, hrs⟩ : ∃ rs, argRecords m.reference n.args = .ok rs :=
    exists_argRecords n.args fun x hx => exists_reference h (h.operand hn hx).1
  exact ⟨.mk n.operator rs n.toAttributes, by simp only [refRecord, node_eq_ok.2 hn, nodeRecord, hrs]⟩

/-! ### Records of models -/

theorem mapM_congr {α β ε : Type} {g g' : α → Except ε β} {l : List α} (h : ∀ a ∈ l, g a = g' a) :
    l.mapM g = l.mapM g' := by
  induction l with
  | nil => rfl
  | cons a l ih =>
    rw [List.mapM_cons, List.mapM_cons, h a List.mem_cons_self,
      ih fun b hb => h b (List.mem_cons_of_mem _ hb)]

theorem mapM_ok {α β ε : Type} {g : α → Except ε β} {l : List α} {bs : List β} :
    l.mapM g = .ok bs ↔ List.Forall₂ (fun a b => g a = .ok b) l bs := by
  induction l generalizing bs with
  | nil =>
    refine ⟨fun h => Except.ok.inj h ▸ .nil, fun h => ?_⟩
    cases h
    rfl
  | cons a l ih =>
    rw [List.mapM_cons]
    constructor
    · intro h
      cases ha : g a with
      | error e =>
        rw [ha] at h
        exact nomatch h
      | ok b =>
        cases hl : l.mapM g with
        | error e =>
          rw [ha, hl] at h
          exact nomatch h
        | ok bs =>
          rw [ha, hl] at h
          obtain rfl := Except.ok.inj h
          exact .cons ha (ih.1 hl)
    · rintro (_ | ⟨ha, hl⟩)
      rw [ha, ih.2 hl]
      rfl

theorem exists_mapM {α β ε : Type} {g : α → Except ε β} {l : List α} (h : ∀ a ∈ l, ∃ b, g a = .ok b) :
    ∃ bs, l.mapM g = .ok bs ∧ List.Forall₂ (fun a b => g a = .ok b) l bs := by
  obtain ⟨bs, hbs⟩ : ∃ bs, List.Forall₂ (fun a b => g a = .ok b) l bs := by
    induction l with
    | nil => exact ⟨[], .nil⟩
    | cons a l ih =>
      obtain ⟨b, hb⟩ := h a List.mem_cons_self
      obtain ⟨bs, hbs⟩ := ih fun c hc => h c (List.mem_cons_of_mem _ hc)
      exact ⟨b :: bs, .cons hb hbs⟩
  exact ⟨bs, mapM_ok.2 hbs, hbs⟩

theorem Sound.refs_has (h : Sound m) : ∀ id ∈ m.refs.toList, m.Has id := by
  intro id hid
  obtain ⟨r, hr⟩ := List.mem_iff_getElem?.1 hid
  rw [Array.getElem?_toList] at hr
  obtain ⟨n, hn, -⟩ := ref?_eq_some.1 ((h.numbered r id).1 hr)
  exact has_of_node? hn

theorem Sound.topLevel_has (h : Sound m) : ∀ id ∈ m.topLevel.toList, m.Has id :=
  fun id hid => h.counted.topLevel id (Array.mem_toList_iff.1 hid)

/-- The objective of a sound model has a number. -/
theorem Sound.objective_ref (h : Sound m) {o : Objective} (ho : m.objective = some o) :
    ∃ n r, m.node? o.expr = some n ∧ n.ref = some r ∧ m.reference o.expr = .ok (.ref r) := by
  obtain ⟨r, hr⟩ := Option.isSome_iff_exists.1 (h.objective o ho)
  obtain ⟨n, hn, hnr⟩ := ref?_eq_some.1 hr
  exact ⟨n, r, hn, hnr, by rw [reference_eq h hn, hnr]⟩

/-- A sound model and one that it covers have the same record. -/
theorem Covers.record_eq (hc : Covers f m' m) (h' : Sound m') (h : Sound m) : m'.record = m.record := by
  have hrefs : m'.refs.toList.mapM m'.refRecord = m.refs.toList.mapM m.refRecord := by
    rw [hc.refs, List.mapM_map]
    exact mapM_congr fun id hid => refRecord_of_covers hc h' h (h'.refs_has id hid)
  have htop : m'.topLevel.toList.mapM m'.reference = m.topLevel.toList.mapM m.reference := by
    rw [hc.topLevel, List.mapM_map]
    exact mapM_congr fun id hid => reference_of_covers hc h' h (h'.topLevel_has id hid)
  have hobj : (m'.objective.mapM fun o =>
        m'.reference o.expr >>= fun expr => pure (ObjectiveRecord.mk o.sense expr)) =
      m.objective.mapM fun o =>
        m.reference o.expr >>= fun expr => pure (ObjectiveRecord.mk o.sense expr) := by
    rw [hc.objective]
    cases ho : m'.objective with
    | none => rfl
    | some o =>
      obtain ⟨n, -, hn, -⟩ := h'.objective_ref ho
      have href := reference_of_covers hc h' h (has_of_node? hn)
      simp only [Option.map_some, Option.mapM_some, href]
  rw [record, record, hrefs, htop, hobj, hc.name]

/-- What the record of a sound model says. -/
theorem exists_record (h : Sound m) : ∃ r, m.record = .ok r ∧ r.name = m.name ∧
    List.Forall₂ (fun id n => m.refRecord id = .ok n) m.refs.toList r.refs ∧
    List.Forall₂ (fun id a => m.reference id = .ok a) m.topLevel.toList r.topLevel ∧
    match m.objective with
    | none => r.objective = none
    | some o => ∃ k, m.ref? o.expr = some k ∧ r.objective = some ⟨o.sense, .ref k⟩ := by
  obtain ⟨refs, hrefs, hrall⟩ := exists_mapM fun id hid => exists_refRecord h (h.refs_has id hid)
  obtain ⟨top, htop, htall⟩ := exists_mapM fun id hid => exists_reference h (h.topLevel_has id hid)
  cases ho : m.objective with
  | none =>
    refine ⟨⟨m.name, refs, top, none⟩, ?_, rfl, hrall, htall, rfl⟩
    rw [record, hrefs, htop, ho]
    rfl
  | some o =>
    obtain ⟨n, k, hn, hk, href⟩ := h.objective_ref ho
    refine ⟨⟨m.name, refs, top, some ⟨o.sense, .ref k⟩⟩, ?_, rfl, hrall, htall, k, ?_, rfl⟩
    · rw [record, hrefs, htop, ho]
      simp only [Option.mapM_some, href]
      rfl
    · exact ref?_eq_some.2 ⟨n, hn, hk⟩

end Model

end Scheduling
