import Scheduling.Proofs.Record.Solution

/-!
# Numbers in models that are read

Which nodes of a model that is read have a number. The nodes without one are exactly those that the
record writes where they are used and gives no name (`unnumbered_ofRecord`). So names, uses, the
objective and the list of numbered nodes are as in a model that calls build, and all variables have
a number if and only if the record names each variable that it writes where it is used
(`numbering_restored`). A variable that it does not name has no number, and then no solution with
a value for it can be written (`unnamed_variable_lost`).
-/

namespace Scheduling

/-! ### Nodes that are written where they are used -/

/-- The node says beside its arguments what the record says. -/
def NodeRecord.Describes (r : NodeRecord) (n : Node) : Prop :=
  n.operator = r.operator ∧ n.toAttributes = r.attributes

theorem NodeRecord.Describes.of_bare {r : NodeRecord} {n n' : Node} (h : r.Describes n)
    (hb : n'.bare = n.bare) : r.Describes n' := by
  obtain ⟨ha, ho, -⟩ := Node.bare_eq_iff.1 hb
  exact ⟨ho.trans h.1, ha.trans h.2⟩

/-- The nodes that are written as an argument, as a constraint, or inside the objective. -/
def ModelRecord.inlined (r : ModelRecord) : List NodeRecord :=
  r.refs.flatMap (fun n => ArgRecord.nodesOf n.args) ++ ArgRecord.nodesOf r.topLevel ++
    (r.objective.map fun o => o.expr.nodes.tail).getD []

namespace Restoring

variable {refs : Array NodeRecord} {s s' : Restoring} {read read' : List NodeRecord} {k : Nat}
  {id : NodeId} {n : Node} {w : NodeRecord}

/-- The node was written where it is used, in what was read or in the node of a number that is
built. -/
def Inlined (refs : Array NodeRecord) (s : Restoring) (read : List NodeRecord) (w : NodeRecord) :
    Prop :=
  w ∈ read ∨ ∃ (k : Nat) (id : NodeId) (n : NodeRecord), s.slots[k]? = some (.built id) ∧
    refs[k]? = some n ∧ w ∈ ArgRecord.nodesOf n.args

/-- The nodes that no number has are those that were written where they are used. -/
structure Tracks (refs : Array NodeRecord) (s : Restoring) (read : List NodeRecord) : Prop where
  slot_has : ∀ (k : Nat) (id : NodeId), s.slots[k]? = some (.built id) → s.model.Has id
  source : ∀ id n, s.model.node? id = some n → ¬ s.Slotted id →
    ∃ w, Inlined refs s read w ∧ w.Describes n
  kept : ∀ w, Inlined refs s read w →
    ∃ id n, s.model.node? id = some n ∧ ¬ s.Slotted id ∧ w.Describes n

/-- The same nodes up to numbers and uses. -/
def SameNodes (m m' : Model) : Prop :=
  ∀ id, (m'.node? id).map Node.bare = (m.node? id).map Node.bare

theorem SameNodes.of_grows {m m' : Model} (h : Model.Grows m m')
    (hs : m'.nodes.size = m.nodes.size) : SameNodes m m' := by
  intro id
  cases hn : m.node? id with
  | some n =>
    obtain ⟨n', hn', hb, -⟩ := h.node? hn
    rw [hn', Option.map_some, Option.map_some, hb]
  | none =>
    cases hn' : m'.node? id with
    | none => rfl
    | some n' =>
      obtain ⟨ht, hi⟩ := Model.node?_eq_some.1 hn'
      obtain ⟨n, hi', -⟩ := h.node_back hs hi
      rw [Model.node?_eq_some.2 ⟨ht.trans h.tag, hi'⟩] at hn
      exact nomatch hn

theorem SameNodes.node? {m m' : Model} (h : SameNodes m m') (hn : m'.node? id = some n) :
    ∃ n', m.node? id = some n' ∧ n.bare = n'.bare := by
  have := h id
  rw [hn, Option.map_some, eq_comm, Option.map_eq_some_iff] at this
  obtain ⟨n', hn', hb⟩ := this
  exact ⟨n', hn', hb.symm⟩

theorem SameNodes.symm {m m' : Model} (h : SameNodes m m') : SameNodes m' m := fun id => (h id).symm

namespace Tracks

theorem start (refs : Array NodeRecord) (tag : Nat) (name : Option String) (k : Nat) :
    Tracks refs ⟨.empty tag name, Array.replicate k .pending⟩ [] := by
  have hslot (l : Nat) (id : NodeId) : (Array.replicate k Slot.pending)[l]? ≠ some (.built id) := by
    rw [Array.getElem?_replicate]
    split <;> simp
  refine ⟨fun l id hl => (hslot l id hl).elim, fun id n hn => ?_, fun w hw => ?_⟩
  · simp [Model.node?, Model.empty] at hn
  · obtain hw | ⟨l, id, n, hl, -⟩ := hw
    · cases hw
    · exact (hslot l id hl).elim

/-- Only the nodes, the numbers that are built and what was read matter. -/
theorem congr (h : Tracks refs s read) (hm : SameNodes s.model s'.model)
    (hs : ∀ (k : Nat) (id : NodeId), s'.slots[k]? = some (.built id) ↔ s.slots[k]? = some (.built id))
    (hr : ∀ w, w ∈ read' ↔ w ∈ read) : Tracks refs s' read' := by
  have hin (w : NodeRecord) : Inlined refs s' read' w ↔ Inlined refs s read w := by
    simp only [Inlined, hs, hr]
  have hslot (id : NodeId) : s'.Slotted id ↔ s.Slotted id := by simp only [Slotted, hs]
  refine ⟨fun k id hk => ?_, fun id n hn hns => ?_, fun w hw => ?_⟩
  · obtain ⟨n, hn⟩ := (h.slot_has k id ((hs k id).1 hk)).exists_node
    obtain ⟨n', hn', -⟩ := hm.symm.node? hn
    exact Model.has_of_node? hn'
  · obtain ⟨n', hn', hb⟩ := hm.node? hn
    obtain ⟨w, hw, hd⟩ := h.source id n' hn' ((hslot id).not.1 hns)
    exact ⟨w, (hin w).2 hw, hd.of_bare hb⟩
  · obtain ⟨id, n, hn, hns, hd⟩ := h.kept w ((hin w).1 hw)
    obtain ⟨n', hn', hb⟩ := hm.symm.node? hn
    exact ⟨id, n', hn', (hslot id).not.2 hns, hd.of_bare hb.symm⟩

theorem of_mem (h : Tracks refs s read) (hr : ∀ w, w ∈ read' ↔ w ∈ read) : Tracks refs s read' :=
  h.congr (fun _ => rfl) (fun _ _ => Iff.rfl) hr

/-- What a node that joins the model leaves of the others, and the new node. -/
theorem node?_inserted (h : Tracks refs s read) (n : Node) :
    (∀ id n₁, s.model.node? id = some n₁ → id ≠ s.model.idAt s.model.nodes.size ∧
      ∃ n', (Restoring.insert s.model n).node? id = some n' ∧ n'.bare = n₁.bare) ∧
    (∃ n', (Restoring.insert s.model n).node? (s.model.idAt s.model.nodes.size) = some n' ∧
      n'.bare = n.bare) ∧
    ¬ s.Slotted (s.model.idAt s.model.nodes.size) := by
  have hg := (later_insert (s := s) n).grows
  have hnew : ¬ s.model.Has (s.model.idAt s.model.nodes.size) := fun h => Nat.lt_irrefl _ h.2
  refine ⟨fun id n₁ hn₁ => ⟨?_, ?_⟩, node?_insert_self s.model n,
    fun ⟨k, hk⟩ => hnew (h.slot_has k _ hk)⟩
  · rintro rfl
    exact hnew (Model.has_of_node? hn₁)
  · obtain ⟨n', hn', hb, -⟩ := hg.node? hn₁
    exact ⟨n', hn', hb⟩

/-- A node joins that is written where it is used. -/
theorem insert (h : Tracks refs s read) (hw : w.Describes n) :
    Tracks refs { s with model := Restoring.insert s.model n } (w :: read) := by
  have hg := (later_insert (s := s) n).grows
  obtain ⟨hold, ⟨n', hn', hb⟩, hnot⟩ := h.node?_inserted n
  refine ⟨fun k id hk => hg.has (h.slot_has k id hk), fun id n₂ hn₂ hns => ?_, fun v hv => ?_⟩
  · obtain ⟨n₁, hn₁, hb₁⟩ | ⟨rfl, hb₁⟩ := node?_insert hn₂
    · obtain ⟨v, hv, hd⟩ := h.source id n₁ hn₁ hns
      exact ⟨v, hv.imp_left (List.mem_cons_of_mem w), hd.of_bare hb₁⟩
    · exact ⟨w, .inl List.mem_cons_self, hw.of_bare hb₁⟩
  · have hrest (hv : Inlined refs s read v) : ∃ id n₁,
        (Restoring.insert s.model n).node? id = some n₁ ∧ ¬ s.Slotted id ∧ v.Describes n₁ := by
      obtain ⟨id, n₁, hn₁, hns, hd⟩ := h.kept v hv
      obtain ⟨-, n₂, hn₂, hb₂⟩ := hold id n₁ hn₁
      exact ⟨id, n₂, hn₂, hns, hd.of_bare hb₂⟩
    obtain hv | hv := hv
    · obtain rfl | hv := List.mem_cons.1 hv
      · exact ⟨_, n', hn', hnot, hw.of_bare hb⟩
      · exact hrest (.inl hv)
    · exact hrest (.inr hv)

/-- A node joins that is the one of a number. -/
theorem fill {r : NodeRecord} (h : Tracks refs s (ArgRecord.nodesOf r.args ++ read))
    (hk : s.slots[k]? = some .visiting) (hr : refs[k]? = some r) (n : Node) :
    Tracks refs (withSlot { s with model := Restoring.insert s.model n } k
      (.built (s.model.idAt s.model.nodes.size))) read := by
  have hg := (later_insert (s := s) n).grows
  obtain ⟨hold, ⟨n', hn', -⟩, hnot⟩ := h.node?_inserted n
  have hvisiting : ({ s with model := Restoring.insert s.model n } : Restoring).slots[k]? =
      some .visiting := hk
  -- What was read for the number now belongs to a number that is built.
  have hin (w : NodeRecord) :
      Inlined refs (withSlot { s with model := Restoring.insert s.model n } k
        (.built (s.model.idAt s.model.nodes.size))) read w ↔
      Inlined refs s (ArgRecord.nodesOf r.args ++ read) w := by
    simp only [Inlined, built_withSlot_built hvisiting, List.mem_append]
    constructor
    · rintro (hw | ⟨l, id, v, ⟨rfl, -⟩ | hl, hv, hw⟩)
      · exact .inl (.inr hw)
      · obtain rfl := Option.some.inj (hr.symm.trans hv)
        exact .inl (.inl hw)
      · exact .inr ⟨l, id, v, hl, hv, hw⟩
    · rintro ((hw | hw) | ⟨l, id, v, hl, hv, hw⟩)
      · exact .inr ⟨k, _, r, .inl ⟨rfl, rfl⟩, hr, hw⟩
      · exact .inl hw
      · exact .inr ⟨l, id, v, .inr hl, hv, hw⟩
  refine ⟨fun l id hl => ?_, fun id n₂ hn₂ hns => ?_, fun w hw => ?_⟩
  · obtain ⟨-, rfl⟩ | hl := (built_withSlot_built hvisiting).1 hl
    · exact Model.has_of_node? hn'
    · exact hg.has (h.slot_has l id hl)
  · rw [slotted_withSlot_built hvisiting, not_or] at hns
    obtain ⟨n₁, hn₁, hb₁⟩ | ⟨rfl, -⟩ := node?_insert hn₂
    · obtain ⟨w, hw, hd⟩ := h.source id n₁ hn₁ hns.2
      exact ⟨w, (hin w).2 hw, hd.of_bare hb₁⟩
    · exact (hns.1 rfl).elim
  · obtain ⟨id, n₁, hn₁, hns, hd⟩ := h.kept w ((hin w).1 hw)
    obtain ⟨hne, n₂, hn₂, hb₂⟩ := hold id n₁ hn₁
    refine ⟨id, n₂, hn₂, ?_, hd.of_bare hb₂⟩
    rw [slotted_withSlot_built hvisiting, not_or]
    exact ⟨Ne.symm hne, hns⟩

end Tracks

/-! ### Reading -/

section Steps

variable {resolve : Nat → Step NodeId}

/-- What reading a number has to keep so that reading arguments keeps it. -/
def ResolvesTracked (refs : Array NodeRecord) (resolve : Nat → Step NodeId) : Prop :=
  ∀ (k : Nat) (s : Restoring) (id : NodeId) (s' : Restoring) (read : List NodeRecord),
    (resolve k).run s = .ok (id, s') → Tracks refs s read → Tracks refs s' read

mutual

theorem tracks_arg (hres : ResolvesTracked refs resolve) :
    (a : ArgRecord) → ∀ {s : Restoring} {v : Arg} {s' : Restoring} {read : List NodeRecord},
      (arg resolve a).run s = .ok (v, s') → Tracks refs s read → Tracks refs s' (a.nodes ++ read)
  | .ref k, _, _, _, _, h, hs => by
    obtain ⟨id, hid, rfl⟩ := map_ok.1 h
    exact hres _ _ _ _ _ hid hs
  | .inline (.mk op items attributes), _, _, _, _, h, hs => by
    obtain ⟨id, hid, rfl⟩ := map_ok.1 h
    obtain ⟨operands, s₁, hs₁, -, rfl, rfl⟩ := node_ok.1 hid
    exact (tracks_args hres items hs₁ hs).insert ⟨rfl, rfl⟩
  | .bool _, _, _, _, _, h, hs | .int _, _, _, _, _, h, hs | .float _, _, _, _, _, h, hs => by
    obtain ⟨rfl, rfl⟩ := pure_ok.1 h
    exact hs
  | .list items, _, _, _, _, h, hs => by
    obtain ⟨vs, hvs, rfl⟩ := map_ok.1 h
    exact tracks_args hres items hvs hs

theorem tracks_args (hres : ResolvesTracked refs resolve) :
    (as : List ArgRecord) → ∀ {s : Restoring} {vs : List Arg} {s' : Restoring}
      {read : List NodeRecord}, (args resolve as).run s = .ok (vs, s') → Tracks refs s read →
      Tracks refs s' (ArgRecord.nodesOf as ++ read)
  | [], _, _, _, _, h, hs => by
    obtain ⟨rfl, rfl⟩ := pure_ok.1 h
    exact hs
  | a :: rest, _, _, _, read, h, hs => by
    obtain ⟨v, s₁, hv, h⟩ := bind_ok.1 h
    obtain ⟨vs, s₂, hvs, h⟩ := bind_ok.1 h
    obtain ⟨rfl, rfl⟩ := pure_ok.1 h
    refine (tracks_args hres rest hvs (tracks_arg hres a hv hs)).of_mem fun w => ?_
    simp only [ArgRecord.nodesOf, List.mem_append]
    tauto

end

theorem tracks_resolve (refs : Array NodeRecord) (fuel : Nat) :
    ResolvesTracked refs (Restoring.resolve refs fuel) := by
  induction fuel with
  | zero =>
    intro k s id s' read h hs
    obtain ⟨-, rfl⟩ | ⟨-, _, _, _, he, -⟩ := resolve_ok.1 h
    · exact hs
    · exact nomatch he
  | succ fuel ih =>
    intro k s id s' read h hs
    obtain ⟨-, rfl⟩ | ⟨hk, fuel', n, s₁, he, hr, hn, rfl⟩ := resolve_ok.1 h
    · exact hs
    · obtain rfl := Nat.succ.inj he
      have hvisit : Tracks refs (s.withSlot k .visiting) read :=
        hs.congr (fun _ => rfl) (fun l id => built_withSlot_visiting hk) fun _ => Iff.rfl
      obtain ⟨op, items, attributes⟩ := n
      obtain ⟨operands, s₂, hs₂, -, rfl, rfl⟩ := node_ok.1 hn
      have hl := later_args (later_resolve refs fuel) items hs₂
      exact (tracks_args ih items hs₂ hvisit).fill (hl.visited hk) hr _

theorem tracks_mapM {fuel : Nat} {ks : List Nat} {ids : List NodeId}
    (h : (ks.mapM (Restoring.resolve refs fuel)).run s = .ok (ids, s')) (hs : Tracks refs s read) :
    Tracks refs s' read := by
  induction ks generalizing s ids with
  | nil =>
    obtain ⟨rfl, rfl⟩ := pure_ok.1 h
    exact hs
  | cons k ks ih =>
    rw [List.mapM_cons] at h
    obtain ⟨id, s₁, hid, h⟩ := bind_ok.1 h
    obtain ⟨ids', s₂, hids, h⟩ := bind_ok.1 h
    obtain ⟨rfl, rfl⟩ := pure_ok.1 h
    exact ih hids (tracks_resolve refs fuel _ _ _ _ _ hid hs)

theorem Tracks.posts {as : List ArgRecord} (hres : ResolvesTracked refs resolve)
    (h : Posts resolve as s s') (hs : Tracks refs s read) :
    Tracks refs s' (ArgRecord.nodesOf as ++ read) := by
  induction h generalizing read with
  | nil => exact hs
  | @cons a rest s s₁ s' id ha _ ih =>
    have hsame : SameNodes s₁.model (s₁.posted id).model :=
      .of_grows (grows_posted s₁ id) (Model.size_modify _)
    have hposted : Tracks refs (s₁.posted id) (a.nodes ++ read) :=
      (tracks_arg hres a ha hs).congr hsame (fun _ _ => Iff.rfl) fun _ => Iff.rfl
    refine (ih hposted).of_mem fun w => ?_
    simp only [ArgRecord.nodesOf, List.mem_append]
    tauto

theorem Posts.size {as : List ArgRecord} (hres : ∀ {k : Nat} {s : Restoring} {id : NodeId}
    {s' : Restoring}, (resolve k).run s = .ok (id, s') → Later s s') (h : Posts resolve as s s') :
    s'.slots.size = s.slots.size := by
  induction h with
  | nil => rfl
  | cons ha _ ih => exact ih.trans (later_arg hres _ ha).size

end Steps

/-! ### The model of a record -/

/-- The nodes without a number are those that the records say. -/
structure Unnumbered (m : Model) (ws : List NodeRecord) : Prop where
  source : ∀ id n, m.node? id = some n → n.ref = none → ∃ w ∈ ws, w.Describes n
  kept : ∀ w ∈ ws, ∃ id n, m.node? id = some n ∧ n.ref = none ∧ w.Describes n

theorem Unnumbered.of_mem {m : Model} {ws ws' : List NodeRecord} (h : Unnumbered m ws)
    (hw : ∀ w, w ∈ ws' ↔ w ∈ ws) : Unnumbered m ws' := by
  refine ⟨fun id n hn hnone => ?_, fun w hw' => h.kept w ((hw w).1 hw')⟩
  obtain ⟨w, hin, hd⟩ := h.source id n hn hnone
  exact ⟨w, (hw w).2 hin, hd⟩

theorem ref?_eq_ref {m : Model} {n : Node} (hn : m.node? id = some n) : m.ref? id = n.ref := by
  rw [Model.ref?, hn, Option.bind_some]

/-- Once all numbers are built, every node of the list of numbered nodes was read. -/
theorem inlined_iff (hr : s.Ready) (hsize : s.slots.size = refs.size) :
    Inlined refs s read w ↔ w ∈ read ∨ w ∈ refs.toList.flatMap fun n => ArgRecord.nodesOf n.args := by
  refine or_congr Iff.rfl ?_
  rw [List.mem_flatMap]
  constructor
  · rintro ⟨k, id, n, -, hn, hw⟩
    exact ⟨n, Array.mem_toList_iff.2 (Array.mem_of_getElem? hn), hw⟩
  · rintro ⟨n, hn, hw⟩
    obtain ⟨k, hk⟩ := List.mem_iff_getElem?.1 hn
    rw [Array.getElem?_toList] at hk
    have hlt : k < s.slots.size := hsize ▸ (Array.getElem?_eq_some_iff.1 hk).1
    have hslot := hr k
    rw [Array.getElem?_eq_getElem hlt, eq_comm, Option.map_eq_some_iff] at hslot
    obtain ⟨id, -, hid⟩ := hslot
    exact ⟨k, id, n, by rw [Array.getElem?_eq_getElem hlt, hid], hk, hw⟩

/-- What no number has is what was written where it is used, unless it is in flight. -/
theorem Sane.ref?_eq_none {flight : List NodeId} (h : Sane s flight) (hr : s.Ready) {x : NodeId}
    (hx : s.model.Has x) : s.model.ref? x = none ↔ ¬ s.Slotted x :=
  ⟨hr.not_slotted h.numbered, fun hns => (h.single x hx hns).1⟩

theorem Tracks.unnumbered (h : Tracks refs s read) (hs : Sane s []) (hr : s.Ready)
    (hsize : s.slots.size = refs.size) :
    Unnumbered s.model (refs.toList.flatMap (fun n => ArgRecord.nodesOf n.args) ++ read) := by
  have hin (w : NodeRecord) : Inlined refs s read w ↔
      w ∈ refs.toList.flatMap (fun n => ArgRecord.nodesOf n.args) ++ read := by
    rw [inlined_iff hr hsize, List.mem_append, or_comm]
  refine ⟨fun id n hn hnone => ?_, fun w hw => ?_⟩
  · have hns := (hs.ref?_eq_none hr (Model.has_of_node? hn)).1 ((ref?_eq_ref hn).trans hnone)
    obtain ⟨w, hw, hd⟩ := h.source id n hn hns
    exact ⟨w, (hin w).1 hw, hd⟩
  · obtain ⟨id, n, hn, hns, hd⟩ := h.kept w ((hin w).2 hw)
    have hnone := (hs.ref?_eq_none hr (Model.has_of_node? hn)).2 hns
    exact ⟨id, n, hn, (ref?_eq_ref hn).symm.trans hnone, hd⟩

/-- A node that joins and becomes the objective gets a number; the others stay as they are. -/
theorem Tracks.unnumbered_optimized {n : Node} (sense : Sense) (h : Tracks refs s read)
    (hs : Sane { s with model := Restoring.insert s.model n } [s.model.idAt s.model.nodes.size])
    (hr : s.Ready) (hsize : s.slots.size = refs.size) :
    Unnumbered (optimized { s with model := Restoring.insert s.model n } sense
      (s.model.idAt s.model.nodes.size)).model
      (refs.toList.flatMap (fun n => ArgRecord.nodesOf n.args) ++ read) := by
  have hin (w : NodeRecord) : Inlined refs s read w ↔
      w ∈ refs.toList.flatMap (fun n => ArgRecord.nodesOf n.args) ++ read := by
    rw [inlined_iff hr hsize, List.mem_append, or_comm]
  have hr' : Ready { s with model := Restoring.insert s.model n } := hr.later (later_insert n)
  obtain ⟨hold, ⟨n', hn', -⟩, -⟩ := h.node?_inserted n
  have href (x : NodeId) := Model.ref?_materialize (Model.has_of_node? hn') x
  have hsame : SameNodes (Restoring.insert s.model n)
      ((Restoring.insert s.model n).materialize (s.model.idAt s.model.nodes.size)) :=
    .of_grows Model.grows_materialize Model.size_materialize
  refine ⟨fun id n₂ hn₂ hnone => ?_, fun w hw => ?_⟩
  · change ((Restoring.insert s.model n).materialize _).node? id = some n₂ at hn₂
    obtain ⟨n₁, hn₁, hb₁⟩ := hsame.node? hn₂
    have hx := href id
    rw [ref?_eq_ref hn₂, hnone] at hx
    obtain ⟨n₀, hn₀, hb₀⟩ | ⟨rfl, -⟩ := node?_insert hn₁
    · rw [if_neg (hold id n₀ hn₀).1] at hx
      have hns := (hs.ref?_eq_none hr' (Model.has_of_node? hn₁)).1 hx.symm
      obtain ⟨w, hw, hd⟩ := h.source id n₀ hn₀ hns
      exact ⟨w, (hin w).1 hw, hd.of_bare (hb₁.trans hb₀)⟩
    · rw [if_pos rfl] at hx
      cases hor : (Restoring.insert s.model n).ref? (s.model.idAt s.model.nodes.size) <;> simp [hor] at hx
  · obtain ⟨id, n₀, hn₀, hns, hd⟩ := h.kept w ((hin w).2 hw)
    obtain ⟨hne, n₁, hn₁, hb₁⟩ := hold id n₀ hn₀
    obtain ⟨n₂, hn₂, hb₂⟩ := hsame.symm.node? hn₁
    have hnone := (hs.ref?_eq_none hr' (Model.has_of_node? hn₁)).2 hns
    have hx := href id
    rw [if_neg hne, hnone, ref?_eq_ref hn₂] at hx
    exact ⟨id, n₂, hn₂, hx, hd.of_bare (hb₂.symm.trans hb₁)⟩

variable {m : Model} {tag : Nat} {r : ModelRecord}

theorem sameNodes_numbered (s : Restoring) (ids : List NodeId) :
    SameNodes s.model (s.numbered ids).model := fun id => by
  show Option.map _ (if id.model = (numberRefs s.model 0 ids).tag then _ else none) = _
  rw [(numberRefs_frame s.model 0 ids).1.tag, Model.node?]
  split
  · exact bare_numberRefs s.model 0 ids id.index
  · rfl

/-- With the objective, the nodes without a number are those that the record writes where they are
used. -/
theorem Tracks.unnumbered_objective {s₁ : Restoring} {fuel : Nat}
    (h : Tracks r.refs.toArray s (ArgRecord.nodesOf r.topLevel)) (hs : Sane s []) (hr : s.Ready)
    (hsize : s.slots.size = r.refs.toArray.size)
    (hobj : Optimizes (resolve r.refs.toArray fuel) s s₁ r.objective) :
    Unnumbered s₁.model r.inlined := by
  cases ho : r.objective with
  | none =>
    rw [ho] at hobj
    obtain rfl : s₁ = s := hobj
    simpa [ModelRecord.inlined, ho] using h.unnumbered hs hr hsize
  | some o =>
    rw [ho] at hobj
    obtain ⟨expr, s₂, he, rfl⟩ := hobj
    cases hexpr : o.expr with
    | ref k =>
      rw [hexpr] at he
      obtain ⟨id, hid, heq⟩ := map_ok.1 he
      obtain rfl := Arg.node.inj heq
      -- every number is built, so the objective is there and has a number
      obtain ⟨hk, rfl⟩ | ⟨hk, -⟩ := resolve_ok.1 hid
      · have h₀ := h.unnumbered hs hr hsize
        have hin : r.inlined = r.refs.flatMap (fun n => ArgRecord.nodesOf n.args) ++
            ArgRecord.nodesOf r.topLevel := by simp [ModelRecord.inlined, ho, hexpr, ArgRecord.nodes]
        rw [hin, optimized, hr.materialize_built hs.numbered hk]
        exact ⟨h₀.source, h₀.kept⟩
      · rw [hr k, Option.map_eq_some_iff] at hk
        obtain ⟨_, -, heq⟩ := hk
        cases heq
    | inline n =>
      obtain ⟨op, items, attributes⟩ := n
      rw [hexpr] at he
      have hs₂ := sane_arg (sane_resolve _ _) _ he hs
      obtain ⟨id, hid, heq⟩ := map_ok.1 he
      obtain rfl := Arg.node.inj heq
      obtain ⟨operands, s₃, hs₃, -, rfl, rfl⟩ := node_ok.1 hid
      have hl := later_args (later_resolve _ _) items hs₃
      have h₀ := (tracks_args (tracks_resolve _ _) items hs₃ h).unnumbered_optimized o.sense hs₂
        (hr.later hl) (hl.size.trans hsize)
      refine h₀.of_mem fun w => ?_
      simp only [ModelRecord.inlined, ho, hexpr, ArgRecord.nodes, NodeRecord.nodes, Option.map_some,
        Option.getD_some, List.tail_cons, List.mem_append]
      tauto
    | list items =>
      rw [hexpr] at he
      obtain ⟨vs, -, heq⟩ := map_ok.1 he
      cases heq
    | bool b | int v | float x =>
      rw [hexpr] at he
      cases (pure_ok.1 he).1

/-- Before names are looked at, the nodes without a number are those that the record writes where
they are used. -/
theorem unnumbered_of_restore {ids : List NodeId} {s₁ s₂ s₃ : Restoring}
    (hids : ((List.range r.refs.length).mapM (resolve r.refs.toArray r.refs.length)).run
      ⟨.empty tag r.name, Array.replicate r.refs.length .pending⟩ = .ok (ids, s₁))
    (hposts : Posts (resolve r.refs.toArray r.refs.length) r.topLevel (s₁.numbered ids) s₂)
    (hobj : Optimizes (resolve r.refs.toArray r.refs.length) s₂ s₃ r.objective) :
    Unnumbered s₃.model r.inlined := by
  have hsane := sane_resolve r.refs.toArray r.refs.length
  have htracks := tracks_resolve r.refs.toArray r.refs.length
  obtain ⟨hready₁, hs₁, -⟩ := start_numbered hids
  obtain ⟨hready, hs, -⟩ := hposts.later_frame (later_resolve _ _) hsane hready₁ hs₁
  have hnumbered := sameNodes_numbered s₁ ids
  have h₁ : Tracks r.refs.toArray (s₁.numbered ids) [] :=
    (tracks_mapM hids (.start ..)).congr hnumbered (fun _ _ => Iff.rfl) fun _ => Iff.rfl
  have h₂ : Tracks r.refs.toArray s₂ (ArgRecord.nodesOf r.topLevel) := by
    simpa using Tracks.posts htracks hposts h₁
  have hsize : s₂.slots.size = r.refs.toArray.size := by
    rw [hposts.size (later_resolve _ _), List.size_toArray]
    obtain ⟨hlater, -, -⟩ : Later _ s₁ ∧ (Sane _ [] → Sane s₁ []) ∧ _ := mapM_resolve hids
    exact hlater.size.trans Array.size_replicate
  exact h₂.unnumbered_objective hs hready hsize hobj

/-- Numbering the named nodes leaves the others as they are. -/
theorem numberNames_frame {ids : List NodeId} (hids : ∀ id ∈ ids, m.Has id) {m' : Model}
    (hm' : m' = ids.foldl (fun m id =>
      if (m.node? id).any fun n => n.name.isSome then m.materialize id else m) m) :
    SameNodes m m' ∧ ∀ x n, m.node? x = some n → n.name = none → m'.ref? x = m.ref? x := by
  induction ids generalizing m with
  | nil => exact hm' ▸ ⟨fun _ => rfl, fun _ _ _ _ => rfl⟩
  | cons id ids ih =>
    obtain ⟨hid, hids⟩ := List.forall_mem_cons.1 hids
    obtain ⟨n, hn⟩ := hid.exists_node
    rw [List.foldl_cons] at hm'
    by_cases hname : n.name.isSome
    · rw [hn, Option.any_some, if_pos hname] at hm'
      have hg : Model.Grows m (m.materialize id) := Model.grows_materialize
      have hsame : SameNodes m (m.materialize id) := .of_grows hg Model.size_materialize
      obtain ⟨hsame', href⟩ := ih (fun x hx => hg.has (hids x hx)) hm'
      refine ⟨fun x => (hsame' x).trans (hsame x), fun x n₁ hn₁ hnone => ?_⟩
      obtain ⟨n₂, hn₂, hb⟩ := hsame.symm.node? hn₁
      have hnone₂ : n₂.name = none := by
        rw [← hnone, show n₁.name = n₂.name from (congrArg (fun n : Node => n.name) hb :)]
      rw [href x n₂ hn₂ hnone₂, Model.ref?_materialize hid, if_neg]
      rintro rfl
      obtain rfl := Option.some.inj (hn.symm.trans hn₁)
      simp [hnone] at hname
    · rw [hn, Option.any_some, if_neg hname] at hm'
      exact ih hids hm'

/-- The nodes without a number are those that the record writes where they are used and gives no
name. -/
theorem unnumbered_ofRecord (h : Model.ofRecord tag r = .ok m) :
    Unnumbered m (r.inlined.filter fun w => w.attributes.name.isNone) := by
  obtain ⟨s, hs, rfl⟩ := ofRecord_ok.1 h
  obtain ⟨ids, s₁, s₂, s₃, hids, hposts, hobj, rfl⟩ := restore_ok.1 hs
  have hm := sound_ofRecord h
  have h₀ := unnumbered_of_restore hids hposts hobj
  obtain ⟨hsame, href⟩ := numberNames_frame (fun id hid => Model.mem_ids.1 hid)
    (show numberNamed s₃.model = _ from rfl)
  refine ⟨fun id n hn hnone => ?_, fun w hw => ?_⟩
  · obtain ⟨n₀, hn₀, hb⟩ := hsame.node? hn
    have hname : n.name = none := by
      by_contra hsome
      have := hm.shared id.index n (Model.node?_eq_some.1 hn).2 (.inr (Option.isSome_iff_ne_none.2 hsome))
      simp [hnone] at this
    have hname₀ : n₀.name = none := by
      rw [← hname, show n.name = n₀.name from (congrArg (fun n : Node => n.name) hb :)]
    have hr := href id n₀ hn₀ hname₀
    rw [ref?_eq_ref hn, hnone, ref?_eq_ref hn₀] at hr
    obtain ⟨w, hw, hd⟩ := h₀.source id n₀ hn₀ hr.symm
    refine ⟨w, List.mem_filter.2 ⟨hw, ?_⟩, hd.of_bare hb⟩
    rw [← hd.2, hname₀]
    rfl
  · obtain ⟨hw, hname⟩ := List.mem_filter.1 hw
    obtain ⟨id, n₀, hn₀, hnone, hd⟩ := h₀.kept w hw
    obtain ⟨n, hn, hb⟩ := hsame.symm.node? hn₀
    have hname₀ : n₀.name = none := by
      rw [hd.2]
      exact Option.isNone_iff_eq_none.1 hname
    have hr := href id n₀ hn₀ hname₀
    rw [ref?_eq_ref hn, ref?_eq_ref hn₀, hnone] at hr
    exact ⟨id, n, hn, hr, hd.of_bare hb.symm⟩

end Restoring

namespace Model

variable {m : Model} {tag : Nat} {r : ModelRecord}

/-- Exactly the solutions whose variables have numbers can be written. -/
theorem exists_solutionRecord_iff {s : Solution} :
    (∃ rs, m.solutionRecord s = .ok rs) ↔ ∀ e ∈ s.values.entries, ∃ k, m.variableRef e.1 = .ok k := by
  refine ⟨fun ⟨rs, hrs⟩ e he => ?_, exists_solutionRecord⟩
  obtain ⟨i, hi, rfl⟩ := List.mem_iff_getElem.1 he
  obtain ⟨-, hall⟩ := solutionRecord_ok hrs
  exact ⟨_, (hall.get hi (hall.length_eq ▸ hi)).1⟩

/-- A model that is read has a number for each named node, each node that is used twice and the
objective; numbers and nodes name each other, and uses are counted. All its variables have a number,
and so a place in a written solution, if and only if the record has a name for each variable that it
writes where it is used. -/
theorem numbering_restored (h : ofRecord tag r = .ok m) :
    (∀ id n, m.node? id = some n → n.name.isSome ∨ 2 ≤ n.uses → n.ref.isSome) ∧
    (∀ o : Objective, m.objective = some o → (m.ref? o.expr).isSome) ∧
    (∀ (k : Nat) (id : NodeId), m.refs[k]? = some id ↔ m.ref? id = some k) ∧
    (∀ id n, m.node? id = some n → n.uses = m.occurrences id) ∧
    ((∀ s : Solution, (∀ e ∈ s.values.entries, e.1 ∈ m.variableIds) →
        ∃ rs, m.solutionRecord s = .ok rs) ↔
      ∀ w ∈ r.inlined, w.operator.isVariable → w.attributes.name.isSome) := by
  have hm := Restoring.sound_ofRecord h
  have hnumbers := Restoring.unnumbered_ofRecord h
  refine ⟨fun id n hn hor => hm.shared id.index n (node?_eq_some.1 hn).2 hor.symm, hm.objective,
    hm.numbered, fun id n hn => ?_, fun hall w hw hvar => ?_, fun hnames s hs => ?_⟩
  · have := hm.counted.uses (node?_eq_some.1 hn).2
    rwa [List.count_nil, Nat.add_zero, ← (has_of_node? hn).eq_idAt] at this
  · -- A variable without a name has no number; a value for it alone cannot be written.
    by_contra hname
    obtain ⟨id, n, hn, hnone, hd⟩ := hnumbers.kept w (List.mem_filter.2 ⟨hw, by simpa using hname⟩)
    have hid : id ∈ m.variableIds :=
      List.mem_filter.2 ⟨mem_ids.2 (has_of_node? hn), by rw [hn, Option.any_some, hd.1]; exact hvar⟩
    have hset : (Solution.empty.set id .absent).values.entries = [(id, .absent)] := rfl
    obtain ⟨k, hk⟩ := exists_solutionRecord_iff.1
      (hall (Solution.empty.set id .absent) (by rw [hset]; simpa using hid)) (id, .absent)
      (by rw [hset]; exact List.mem_singleton_self _)
    obtain ⟨n', hn', hnk, -⟩ := variableRef_ok.1 hk
    obtain rfl := Option.some.inj (hn.symm.trans hn')
    simp [hnone] at hnk
  · refine exists_solutionRecord_iff.2 fun e he => ?_
    obtain ⟨hid, hvar⟩ := List.mem_filter.1 (hs e he)
    obtain ⟨n, hn⟩ := (mem_ids.1 hid).exists_node
    rw [hn, Option.any_some] at hvar
    cases hr : n.ref with
    | some k => exact ⟨k, variableRef_ok.2 ⟨n, hn, hr, hvar⟩⟩
    | none =>
      obtain ⟨w, hw, hd⟩ := hnumbers.source e.1 n hn hr
      obtain ⟨hw, hname⟩ := List.mem_filter.1 hw
      have := hnames w hw (hd.1 ▸ hvar)
      rw [Option.isNone_iff_eq_none.1 hname] at this
      exact nomatch this

/-- A named variable that stands where it is used. -/
theorem numbering_restored_named :
    let w : NodeRecord := .mk .boolVar [] { Attributes.none with name := some "x" }
    let r : ModelRecord := ⟨none, [], [.inline (.mk .not [.inline w] .none)], none⟩
    ∃ m, ofRecord 0 r = .ok m ∧ m.variableIds = [⟨0, 0⟩] ∧
      (∀ id n, m.node? id = some n → n.name.isSome ∨ 2 ≤ n.uses → n.ref.isSome) ∧
      (∀ o : Objective, m.objective = some o → (m.ref? o.expr).isSome) ∧
      (∀ (k : Nat) (id : NodeId), m.refs[k]? = some id ↔ m.ref? id = some k) ∧
      (∀ id n, m.node? id = some n → n.uses = m.occurrences id) ∧
      ((∀ s : Solution, (∀ e ∈ s.values.entries, e.1 ∈ m.variableIds) →
          ∃ rs, m.solutionRecord s = .ok rs) ↔
        ∀ w ∈ r.inlined, w.operator.isVariable → w.attributes.name.isSome) := by
  intro w r
  have hread : (ofRecord 0 r).toOption.any fun m => m.variableIds = [⟨0, 0⟩] := by decide +kernel
  cases h : ofRecord 0 r with
  | error e =>
    rw [h] at hread
    exact nomatch hread
  | ok m =>
    rw [h] at hread
    exact ⟨m, rfl, of_decide_eq_true hread, numbering_restored h⟩

/-- A variable that is written where it is used and has no name gets no number. The checks ask for
its value, and a solution that gives one passes them; but that solution cannot be written. -/
theorem unnamed_variable_lost :
    let r : ModelRecord := ⟨none, [], [.inline (.mk .boolVar [] .none)], none⟩
    let s := Solution.empty.set ⟨0, 0⟩ (.bool true)
    ∃ m, ofRecord 0 r = .ok m ∧ m.variableIds = [⟨0, 0⟩] ∧ m.ref? ⟨0, 0⟩ = none ∧
      ¬ (m.verify .empty).isOk ∧ (m.verify s).isOk ∧ ¬ (m.solutionRecord s).isOk := by
  intro r s
  have hread : (ofRecord 0 r).toOption.any fun m => m.variableIds = [⟨0, 0⟩] ∧
      m.ref? ⟨0, 0⟩ = none ∧ ¬ (m.verify .empty).isOk ∧ (m.verify s).isOk ∧
      ¬ (m.solutionRecord s).isOk := by
    decide +kernel
  cases h : ofRecord 0 r with
  | error e =>
    rw [h] at hread
    exact nomatch hread
  | ok m =>
    rw [h] at hread
    exact ⟨m, rfl, of_decide_eq_true hread⟩

end Model

end Scheduling
