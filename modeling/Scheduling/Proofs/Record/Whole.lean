import Scheduling.Proofs.Record.Restore

/-!
# Whole models

A record that is read to its end gives a sound model (`sound_ofRecord`) of which every node is
reachable (`reachable_ofRecord`).
-/

namespace Scheduling

namespace Restoring

variable {s s' s'' : Restoring} {k : Nat} {id x : NodeId} {flight : List NodeId} {m : Model}

/-! ### The parts of a record -/

/-- The state after the nodes with a number are numbered. -/
def numbered (s : Restoring) (ids : List NodeId) : Restoring :=
  { s with model := { numberRefs s.model 0 ids with refs := ids.toArray } }

/-- The state after a node joined the constraints. -/
def posted (s : Restoring) (id : NodeId) : Restoring :=
  { s with model := { countUse s.model id with topLevel := s.model.topLevel.push id } }

/-- The state after a node became the objective. -/
def optimized (s : Restoring) (sense : Sense) (expr : NodeId) : Restoring :=
  { s with model := { s.model.materialize expr with objective := some ⟨sense, expr⟩ } }

/-- The constraints that are read. -/
inductive Posts (resolve : Nat → Step NodeId) : List ArgRecord → Restoring → Restoring → Prop where
  | nil {s : Restoring} : Posts resolve [] s s
  | cons {a : ArgRecord} {rest : List ArgRecord} {s s' s'' : Restoring} {id : NodeId} :
      (arg resolve a).run s = .ok (.node id, s') → Posts resolve rest (s'.posted id) s'' →
      Posts resolve (a :: rest) s s''

/-- The objective that is read. -/
def Optimizes (resolve : Nat → Step NodeId) (s s' : Restoring) : Option ObjectiveRecord → Prop
  | none => s' = s
  | some o => ∃ expr s₁, (arg resolve o.expr).run s = .ok (.node expr, s₁) ∧
      s' = s₁.optimized o.sense expr

theorem nodeArg_ok {resolve : Nat → Step NodeId} {a : ArgRecord} :
    (nodeArg resolve a).run s = .ok (id, s') ↔ (arg resolve a).run s = .ok (.node id, s') := by
  rw [nodeArg, bind_ok]
  constructor
  · rintro ⟨v, s₁, hv, h⟩
    cases v with
    | node x =>
      obtain ⟨rfl, rfl⟩ := pure_ok.1 h
      exact hv
    | _ => exact (fail_ok h).elim
  · exact fun h => ⟨.node id, s', h, pure_ok.2 ⟨rfl, rfl⟩⟩

theorem forM_ok {resolve : Nat → Step NodeId} {as : List ArgRecord} {u : PUnit} :
    (as.forM fun a => do
      let id ← nodeArg resolve a
      modify fun s => s.posted id : Step PUnit).run s = .ok (u, s') ↔ Posts resolve as s s' := by
  induction as generalizing s with
  | nil =>
    refine pure_ok.trans ⟨fun ⟨_, h⟩ => h ▸ .nil, fun h => ?_⟩
    cases h
    exact ⟨rfl, rfl⟩
  | cons a rest ih =>
    show StateT.run (_ >>= fun _ => rest.forM _) s = _ ↔ _
    simp only [bind_ok, nodeArg_ok, modify_ok]
    constructor
    · rintro ⟨_, _, ⟨id, s₁, ha, rfl⟩, h⟩
      exact .cons ha (ih.1 h)
    · rintro (_ | ⟨ha, h⟩)
      exact ⟨⟨⟩, _, ⟨_, _, ha, rfl⟩, ih.2 h⟩

/-- How a record is read: its numbered nodes, its constraints and its objective. -/
theorem restore_ok {r : ModelRecord} {u : Unit} :
    (restore r).run s = .ok (u, s') ↔ ∃ ids s₁ s₂ s₃,
      ((List.range r.refs.length).mapM (resolve r.refs.toArray r.refs.length)).run s = .ok (ids, s₁) ∧
      Posts (resolve r.refs.toArray r.refs.length) r.topLevel (s₁.numbered ids) s₂ ∧
      Optimizes (resolve r.refs.toArray r.refs.length) s₂ s₃ r.objective ∧
      s' = { s₃ with model := numberNamed s₃.model } := by
  have hforM {s s' : Restoring} {u : PUnit} :
      (r.topLevel.forM fun a => do
        let id ← nodeArg (resolve r.refs.toArray r.refs.length) a
        modify fun s => { s with model :=
          { countUse s.model id with topLevel := s.model.topLevel.push id } } : Step PUnit).run s =
        .ok (u, s') ↔ Posts (resolve r.refs.toArray r.refs.length) r.topLevel s s' := forM_ok
  rw [restore]
  simp only [List.size_toArray, bind_ok, modify_ok, hforM]
  constructor
  · rintro ⟨ids, s₁, hids, _, _, rfl, _, s₂, hposts, h⟩
    refine ⟨ids, s₁, s₂, ?_⟩
    cases ho : r.objective with
    | none =>
      rw [ho] at h
      exact ⟨s₂, hids, hposts, rfl, (modify_ok.1 h).symm⟩
    | some o =>
      rw [ho] at h
      obtain ⟨expr, s', he, h⟩ := bind_ok.1 h
      obtain ⟨_, _, hm, h⟩ := bind_ok.1 h
      obtain rfl := modify_ok.1 hm
      exact ⟨_, hids, hposts, ⟨expr, s', nodeArg_ok.1 he, rfl⟩, (modify_ok.1 h).symm⟩
  · rintro ⟨ids, s₁, s₂, s₃, hids, hposts, hobj, rfl⟩
    refine ⟨ids, s₁, hids, ⟨⟩, _, rfl, ⟨⟩, s₂, hposts, ?_⟩
    cases ho : r.objective with
    | none =>
      rw [ho] at hobj
      obtain rfl : s₃ = s₂ := hobj
      exact modify_ok.2 rfl
    | some o =>
      rw [ho] at hobj
      obtain ⟨expr, s', he, rfl⟩ := hobj
      exact bind_ok.2 ⟨expr, s', nodeArg_ok.2 he, bind_ok.2 ⟨⟨⟩, _, modify_ok.2 rfl, modify_ok.2 rfl⟩⟩

/-! ### Numbered nodes -/

/-- What reading the numbered nodes gives: for each number its node. -/
theorem mapM_resolve {refs : Array NodeRecord} {fuel : Nat} {ks : List Nat} {ids : List NodeId}
    (h : (ks.mapM (resolve refs fuel)).run s = .ok (ids, s')) :
    Later s s' ∧ (Sane s flight → Sane s' flight) ∧
      List.Forall₂ (fun k id => s'.slots[k]? = some (.built id)) ks ids := by
  induction ks generalizing s ids with
  | nil =>
    obtain ⟨rfl, rfl⟩ := pure_ok.1 h
    exact ⟨.refl s, fun h => h, .nil⟩
  | cons k ks ih =>
    rw [List.mapM_cons] at h
    obtain ⟨id, s₁, hid, h⟩ := bind_ok.1 h
    obtain ⟨ids', s₂, hids, h⟩ := bind_ok.1 h
    obtain ⟨rfl, rfl⟩ := pure_ok.1 h
    obtain ⟨hl, hs, hall⟩ := ih hids
    refine ⟨(later_resolve refs fuel hid).trans hl, fun h => ?_, .cons ?_ hall⟩
    · exact hs (sane_resolve refs fuel _ _ _ _ _ hid h).1
    · exact hl.built (built_of_resolve hid)

/-- Numbering changes nothing but numbers. -/
theorem numberRefs_frame (m : Model) (k : Nat) (ids : List NodeId) :
    Model.Keeps m (numberRefs m k ids) ∧ (numberRefs m k ids).nodes.size = m.nodes.size ∧
      (numberRefs m k ids).name = m.name ∧ (numberRefs m k ids).topLevel = m.topLevel ∧
      (numberRefs m k ids).objective = m.objective ∧
      (Model.Counted m [] → Model.Counted (numberRefs m k ids) []) ∧
      ∀ x, (numberRefs m k ids).occurrences x = m.occurrences x := by
  induction ids generalizing m k with
  | nil => exact ⟨.refl m, rfl, rfl, rfl, rfl, fun h => h, fun _ => rfl⟩
  | cons id ids ih =>
    obtain ⟨hk, hs, hn, ht, ho, hc, hocc⟩ :=
      ih (m.modify id.index fun n => { n with ref := some k }) (k + 1)
    have hkeeps : Model.Keeps m (m.modify id.index fun n => { n with ref := some k }) := by
      refine ⟨rfl, fun {i n} hn => ?_⟩
      rw [Model.getElem?_modify, hn]
      split <;> exact ⟨_, rfl, rfl⟩
    refine ⟨hkeeps.trans hk, hs.trans (Model.size_modify _), hn, ht, ho, fun h => ?_, fun x => ?_⟩
    · exact hc (h.modify (fun _ => rfl) fun _ => rfl)
    · exact (hocc x).trans (Model.occurrences_modify fun _ => rfl)

theorem ref?_setRef {m : Model} (hid : m.Has id) (k : Nat) (x : NodeId) :
    (m.modify id.index fun n => { n with ref := some k }).ref? x =
      if x = id then some k else m.ref? x := by
  obtain ⟨n, hn⟩ := hid.exists_node
  obtain ⟨ht, hi⟩ := Model.node?_eq_some.1 hn
  simp only [Model.ref?, Model.node?, Model.modify_tag, Model.getElem?_modify]
  by_cases hx : x = id
  · subst hx
    simp [ht, hi]
  · rw [if_neg hx]
    split
    · have hne : id.index ≠ x.index := by
        intro he
        obtain ⟨kt, i⟩ := id
        obtain ⟨kx, j⟩ := x
        simp_all
      rw [if_neg hne]
    · rfl

theorem ref?_numberRefs {m : Model} {ids : List NodeId} (hids : ∀ id ∈ ids, m.Has id)
    (hnd : ids.Nodup) (k : Nat) (x : NodeId) :
    (numberRefs m k ids).ref? x = if x ∈ ids then some (k + ids.idxOf x) else m.ref? x := by
  induction ids generalizing m k with
  | nil => simp [numberRefs]
  | cons id ids ih =>
    obtain ⟨hid, hids⟩ := List.forall_mem_cons.1 hids
    obtain ⟨hnot, hnd⟩ := List.nodup_cons.1 hnd
    have hids' : ∀ x ∈ ids, (m.modify id.index fun n => { n with ref := some k }).Has x :=
      fun x hx => ⟨(hids x hx).1, by rw [Model.size_modify]; exact (hids x hx).2⟩
    rw [numberRefs, ih hids' hnd, ref?_setRef hid]
    by_cases hx : x = id
    · subst hx
      simp [hnot]
    · rw [List.idxOf_cons_ne _ (Ne.symm hx)]
      by_cases hmem : x ∈ ids
      · simp [hmem, Nat.add_comm, Nat.add_left_comm]
      · simp [hx, hmem]

/-- Numbering the nodes of the slots keeps the state sane. -/
theorem Sane.number {ids : List NodeId} (h : Sane s flight) (hrefs : s.model.refs = #[])
    (hslots : ∀ (k : Nat) (id : NodeId), s.slots[k]? = some (.built id) ↔ ids[k]? = some id) :
    Sane (s.numbered ids) flight := by
  obtain ⟨hk, hsize, -, htop, -, hc, hocc⟩ := numberRefs_frame s.model 0 ids
  have hnone (x : NodeId) : s.model.ref? x = none := by
    cases hx : s.model.ref? x with
    | none => rfl
    | some r =>
      have := (h.numbered r x).2 hx
      simp [hrefs] at this
  have hids : ∀ id ∈ ids, s.model.Has id := fun id hid => by
    obtain ⟨k, hk⟩ := List.mem_iff_getElem?.1 hid
    exact h.slot_has k id ((hslots k id).2 hk)
  have hnd : ids.Nodup := by
    refine List.nodup_iff_getElem?_ne_getElem?.2 fun i j hij hj he => ?_
    have hi : ids[i]? = some ids[i] := List.getElem?_eq_getElem (by omega)
    have := h.slot_inj i j _ ((hslots i _).2 hi) ((hslots j _).2 (he ▸ hi))
    omega
  have href (x : NodeId) : (s.numbered ids).model.ref? x =
      if x ∈ ids then some (ids.idxOf x) else none := by
    have := ref?_numberRefs hids hnd 0 x
    rwa [hnone, Nat.zero_add] at this
  have hhas {x : NodeId} (hx : (s.numbered ids).model.Has x) : s.model.Has x :=
    ⟨hx.1.trans hk.tag, hsize ▸ hx.2⟩
  refine ⟨?_, fun r x => ?_, fun i n' hn' => ?_, fun x hx => hk.has (h.flight_has x hx),
    fun k x hx => hk.has (h.slot_has k x hx), h.slot_inj, fun x hx hns => ⟨?_, ?_⟩⟩
  · exact (hc h.counted).congr rfl rfl fun _ => rfl
  · rw [href]
    show ids.toArray[r]? = some x ↔ _
    rw [List.getElem?_toArray]
    constructor
    · intro hr
      rw [if_pos (List.mem_of_getElem? hr)]
      obtain ⟨hlt, rfl⟩ := List.getElem?_eq_some_iff.1 hr
      rw [hnd.idxOf_getElem]
    · intro hr
      split at hr
      · rename_i hx
        obtain rfl := Option.some.inj hr
        rw [List.getElem?_eq_getElem (List.idxOf_lt_length_of_mem hx), List.getElem_idxOf]
      · exact nomatch hr
  · obtain ⟨n, hn, hcore⟩ := hk.node_back hsize hn'
    have hk' : Model.Keeps s.model (s.numbered ids).model := ⟨hk.tag, hk.node⟩
    exact (hk'.accepts (h.accepts i n hn)).of_core hcore
  · rw [href, if_neg]
    intro hmem
    obtain ⟨k, hk⟩ := List.mem_iff_getElem?.1 hmem
    exact hns ⟨k, (hslots k x).2 hk⟩
  · have := (h.single x (hhas hx) hns).2
    rw [← hocc] at this
    exact this

/-! ### Constraints and the objective -/

/-- Every number is built, and is the number of its node. -/
def Ready (s : Restoring) : Prop := ∀ k : Nat, s.slots[k]? = (s.model.refs[k]?).map .built

theorem Ready.later (h : s.Ready) (hl : Later s s') : s'.Ready := by
  intro k
  rw [hl.frame.2.1]
  obtain he | ⟨hp, -⟩ := hl.slots k
  · rw [he, h k]
  · rw [h k, Option.map_eq_some_iff] at hp
    obtain ⟨_, -, he⟩ := hp
    exact nomatch he

theorem Ready.refs_eq (h : s.Ready) (hk : s.slots[k]? = some (.built id)) :
    s.model.refs[k]? = some id := by
  rw [h k, Option.map_eq_some_iff] at hk
  obtain ⟨y, hy, he⟩ := hk
  exact Slot.built.inj he ▸ hy

/-- Numbered nodes have a number. -/
theorem Ready.not_slotted (h : s.Ready) (hn : Model.Numbered s.model) (hx : s.model.ref? x = none) :
    ¬ s.Slotted x := by
  rintro ⟨k, hk⟩
  rw [(hn k x).1 (h.refs_eq hk)] at hx
  exact nomatch hx

/-- The node of a number gets no further one. -/
theorem Ready.materialize_built (h : s.Ready) (hn : Model.Numbered s.model)
    (hk : s.slots[k]? = some (.built id)) : s.model.materialize id = s.model := by
  obtain ⟨n, hnode, href⟩ := Model.ref?_eq_some.1 ((hn k id).1 (h.refs_eq hk))
  exact Model.materialize_of_isSome (Model.node?_eq_some.1 hnode).2 (href ▸ rfl)

theorem grows_posted (s : Restoring) (id : NodeId) : Model.Grows s.model (s.posted id).model := by
  have hg : Model.Grows s.model (s.model.counted id) := Model.grows_counted
  exact ⟨rfl, hg.node⟩

/-- A node in flight that joins the constraints is no longer in flight. -/
theorem Sane.post (h : Sane s (id :: flight)) : Sane (s.posted id) flight := by
  have hg := grows_posted s id
  have hsize : (s.posted id).model.nodes.size = s.model.nodes.size := Model.size_modify _
  have hid := h.flight_has id List.mem_cons_self
  have hm : (s.posted id).model =
      Model.counted { s.model with topLevel := s.model.topLevel.push id } id := rfl
  have href (x : NodeId) : (s.posted id).model.ref? x = s.model.ref? x :=
    counts_ref? { s.model with topLevel := s.model.topLevel.push id } [id] x
  have hocc (x : NodeId) :
      (s.posted id).model.occurrences x = s.model.occurrences x + [id].count x :=
    (counts_occurrences { s.model with topLevel := s.model.topLevel.push id } [id] x).trans
      (Model.occurrences_pushTopLevel id)
  have hcounted : Model.Counted (s.posted id).model [] :=
    hm ▸ (h.counted.pushTopLevel hid).counted hid.1
  refine ⟨hcounted, h.numbered.congr rfl href, fun i n' hn' => ?_,
    fun x hx => hg.has (h.flight_has x (List.mem_cons_of_mem _ hx)),
    fun k x hx => hg.has (h.slot_has k x hx), h.slot_inj, fun x hx hns => ?_⟩
  · obtain ⟨n, hn, hb⟩ := hg.node_back hsize hn'
    exact (hg.keeps.accepts (h.accepts i n hn)).of_core (Node.core_eq_of_bare hb)
  · have := h.single x ⟨hx.1, hsize ▸ hx.2⟩ hns
    rw [href, hocc]
    rw [List.count_cons] at this
    rw [List.count_singleton]
    exact ⟨this.1, by omega⟩

theorem Posts.later_frame {resolve : Nat → Step NodeId} {as : List ArgRecord}
    (hres : ∀ {k : Nat} {s : Restoring} {id : NodeId} {s' : Restoring},
      (resolve k).run s = .ok (id, s') → Later s s')
    (hsane : ResolvesSanely resolve) (h : Posts resolve as s s') (hr : s.Ready) (hs : Sane s flight) :
    s'.Ready ∧ Sane s' flight ∧ s'.model.objective = s.model.objective := by
  induction h with
  | nil => exact ⟨hr, hs, rfl⟩
  | cons ha _ ih =>
    have hl := later_arg hres _ ha
    have hr₁ := hr.later hl
    obtain ⟨hr', hs', ho⟩ := ih hr₁ (sane_arg hsane _ ha hs).post
    exact ⟨hr', hs', ho.trans hl.frame.2.2.2⟩

end Restoring

namespace Model

variable {m m' : Model} {id x : NodeId}

/-- A model without superfluous nodes: what has no number is used once. -/
structure Whole (m : Model) : Prop where
  counted : Counted m []
  numbered : Numbered m
  accepts : ∀ (i : Nat) (n : Node), m.nodes[i]? = some n → m.Accepts n
  single : ∀ id, m.Has id → m.ref? id = none → m.occurrences id = 1
  objective : ∀ o : Objective, m.objective = some o → (m.ref? o.expr).isSome

theorem occurrences_materialize (hid : m.Has id) (x : NodeId) :
    (m.materialize id).occurrences x = m.occurrences x := by
  obtain ⟨n, hn⟩ := hid.exists_node
  obtain ⟨-, he⟩ | ⟨-, he⟩ := materialize_cases (node?_eq_some.1 hn).2
  · rw [he]
  · rw [he]
    exact occurrences_modify fun _ => rfl

namespace Whole

theorem materialize (h : Whole m) (hid : m.Has id) : Whole (m.materialize id) := by
  have hg : Grows m (m.materialize id) := grows_materialize
  refine ⟨h.counted.materialize id, h.numbered.materialize hid, fun i n' hn' => ?_,
    fun x hx hr => ?_, fun o ho => ?_⟩
  · obtain ⟨n, hn, hb⟩ := hg.node_back size_materialize hn'
    exact (hg.keeps.accepts (h.accepts i n hn)).of_core (Node.core_eq_of_bare hb)
  · rw [occurrences_materialize hid]
    refine h.single x ⟨hx.1.trans hg.tag, size_materialize (m := m) ▸ hx.2⟩ ?_
    rw [ref?_materialize hid] at hr
    split at hr
    · simp at hr
    · exact hr
  · exact hg.ref?_isSome (h.objective o (materialize_objective ▸ ho))

/-- Every node of a whole model is reachable. -/
theorem reachable (h : Whole m) (hid : m.Has id) : m.Reachable id := by
  induction hk : m.nodes.size - id.index using Nat.strongRecOn generalizing id with
  | _ k ih =>
  cases hr : m.ref? id with
  | some r =>
    refine .ref (List.mem_of_getElem? (i := r) ?_)
    rw [Array.getElem?_toList]
    exact (h.numbered r id).2 hr
  | none =>
    have hocc := h.single id hid hr
    by_cases htop : id ∈ m.topLevel.toList
    · exact .topLevel htop
    · rw [occurrences, List.count_eq_zero.2 htop, Nat.add_zero] at hocc
      obtain ⟨c, hc, hpos⟩ : ∃ c ∈ m.nodes.toList.map fun n => n.operands.count id, 0 < c := by
        by_contra hall
        have : (m.nodes.toList.map fun n => n.operands.count id).sum = 0 :=
          List.sum_eq_zero_iff_forall_eq_nat.2 fun c hc => by
            by_contra hne
            exact hall ⟨c, hc, by omega⟩
        omega
      obtain ⟨n, hn, rfl⟩ := List.mem_map.1 hc
      obtain ⟨i, hi⟩ := List.mem_iff_getElem?.1 hn
      rw [Array.getElem?_toList] at hi
      have hx := List.count_pos_iff.1 hpos
      have hlt := (h.counted.operand hi id hx).2
      have hsize := lt_size_of_getElem? hi
      have hp : m.Has (m.idAt i) := has_idAt.2 hsize
      refine .operand (ih _ ?_ hp rfl) (n := n) ?_ hx
      · show m.nodes.size - i < k
        omega
      · rw [node?_idAt]
        exact hi

/-- A whole model of which the named nodes have a number is sound. -/
theorem sound (h : Whole m)
    (hname : ∀ (i : Nat) (n : Node), m.nodes[i]? = some n → n.name.isSome → n.ref.isSome) :
    Sound m := by
  refine ⟨h.counted, h.numbered, h.accepts, fun i n hn hor => ?_, h.objective⟩
  obtain hu | hnamed := hor
  · have hnode : m.node? (m.idAt i) = some n := by rw [node?_idAt, hn]
    cases hr : n.ref with
    | some _ => rfl
    | none =>
      have hocc := h.single _ (has_of_node? hnode) (by simp [ref?, hnode, hr])
      have hc := h.counted.uses hn
      simp only [List.count_nil] at hc
      omega
  · exact hname i n hn hnamed

/-- Numbering the named nodes keeps a model whole. -/
theorem number {ids : List NodeId} (h : Whole m) (hids : ∀ id ∈ ids, m.Has id)
    (hm' : m' = ids.foldl (fun m id =>
      if (m.node? id).any fun n => n.name.isSome then m.materialize id else m) m) :
    Whole m' ∧ Grows m m' ∧ m'.nodes.size = m.nodes.size ∧
      ∀ id ∈ ids, ∀ n, m'.node? id = some n → n.name.isSome → (m'.ref? id).isSome := by
  induction ids generalizing m with
  | nil => exact hm' ▸ ⟨h, .refl m, rfl, nofun⟩
  | cons id ids ih =>
    rw [List.foldl_cons] at hm'
    obtain ⟨hid, hids⟩ := List.forall_mem_cons.1 hids
    obtain ⟨n, hn⟩ := hid.exists_node
    by_cases hname : n.name.isSome
    · rw [hn, Option.any_some, if_pos hname] at hm'
      have hg : Grows m (m.materialize id) := grows_materialize
      obtain ⟨hw, hg', hs, hall⟩ := ih (h.materialize hid) (fun x hx => hg.has (hids x hx)) hm'
      refine ⟨hw, hg.trans hg', hs.trans size_materialize, ?_⟩
      refine List.forall_mem_cons.2 ⟨fun _ _ _ => hg'.ref?_isSome ?_, hall⟩
      rw [ref?_materialize hid, if_pos rfl]
      cases m.ref? id <;> rfl
    · rw [hn, Option.any_some, if_neg hname] at hm'
      obtain ⟨hw, hg', hs, hall⟩ := ih h hids hm'
      refine ⟨hw, hg', hs, List.forall_mem_cons.2 ⟨fun n' hn' hname' => ?_, hall⟩⟩
      obtain ⟨n₁, hn₁, hb, -⟩ := hg'.node? hn
      obtain rfl := Option.some.inj (hn₁.symm.trans hn')
      rw [show n₁.name = n.name from (congrArg (fun n : Node => n.name) hb :)] at hname'
      exact absurd hname' hname

end Whole

end Model

namespace Restoring

variable {s s' : Restoring} {m : Model} {tag : Nat} {r : ModelRecord}

/-! ### The model of a record -/

theorem ofRecord_ok : Model.ofRecord tag r = .ok m ↔ ∃ s,
    (restore r).run ⟨.empty tag r.name, Array.replicate r.refs.length .pending⟩ = .ok ((), s) ∧
      s.model = m := by
  rw [Model.ofRecord]
  cases (restore r).run ⟨.empty tag r.name, Array.replicate r.refs.length .pending⟩ with
  | error e => simp
  | ok p => exact ⟨fun h => ⟨p.2, rfl, Except.ok.inj h⟩, fun ⟨s, hp, h⟩ => by
      obtain rfl := Except.ok.inj hp
      exact congrArg Except.ok h⟩

theorem sane_start (tag : Nat) (name : Option String) (k : Nat) :
    Sane ⟨.empty tag name, Array.replicate k .pending⟩ [] := by
  have h := Model.sound_empty tag name
  have hslot (l : Nat) (id : NodeId) : (Array.replicate k Slot.pending)[l]? ≠ some (.built id) := by
    rw [Array.getElem?_replicate]
    split <;> simp
  refine ⟨h.counted, h.numbered, h.accepts, nofun, fun l id hl => (hslot l id hl).elim,
    fun l _ id hl => (hslot l id hl).elim, fun id hid => ?_⟩
  exact absurd hid.2 (Nat.not_lt_zero _)

/-- Once the numbered nodes are read, every number is built. -/
theorem ready_numbered {ids : List NodeId} {k : Nat} (hsize : s.slots.size = k)
    (h : List.Forall₂ (fun k id => s.slots[k]? = some (.built id)) (List.range k) ids) :
    (s.numbered ids).Ready := by
  intro l
  show s.slots[l]? = (ids.toArray[l]?).map .built
  have hlen := h.length_eq
  rw [List.length_range] at hlen
  cases hl : ids.toArray[l]? with
  | some id =>
    obtain ⟨hlt, rfl⟩ := Array.getElem?_eq_some_iff.1 hl
    have hlt' : l < ids.length := by simpa using hlt
    have := h.get (by rw [List.length_range]; omega) hlt'
    simpa using this
  | none =>
    have hlt : ids.length ≤ l := by simpa using Array.getElem?_eq_none_iff.1 hl
    rw [Array.getElem?_eq_none (by omega), Option.map_none]

theorem Later.size (h : Later s s') : s'.slots.size = s.slots.size := by
  have hnone (k : Nat) : s'.slots[k]? = none ↔ s.slots[k]? = none := by
    obtain he | ⟨hp, id, hid⟩ := h.slots k
    · rw [he]
    · simp [hp, hid]
  simp only [Array.getElem?_eq_none_iff] at hnone
  have := (hnone s.slots.size).2 (Nat.le_refl _)
  have := (hnone s'.slots.size).1 (Nat.le_refl _)
  omega

/-- A model that is read is whole once the node in flight is the objective. -/
theorem Sane.optimize {expr : NodeId} (h : Sane s [expr]) (hr : s.Ready) (sense : Sense) :
    Model.Whole (s.optimized sense expr).model := by
  have hexpr : s.model.Has expr := h.flight_has expr List.mem_cons_self
  have hg : Model.Grows s.model (s.model.materialize expr) := Model.grows_materialize
  have hc := h.counted.materialize expr
  refine ⟨⟨hc.operand, hc.topLevel, hc.uses⟩, h.numbered.materialize hexpr, fun i n' hn' => ?_,
    fun x hx hnone => ?_, fun o ho => ?_⟩
  · obtain ⟨n, hn, hb⟩ := hg.node_back Model.size_materialize hn'
    have hk : Model.Keeps s.model (s.optimized sense expr).model := ⟨hg.tag, hg.keeps.node⟩
    exact (hk.accepts (h.accepts i n hn)).of_core (Node.core_eq_of_bare hb)
  · change (s.model.materialize expr).ref? x = none at hnone
    rw [Model.ref?_materialize hexpr] at hnone
    split at hnone
    · simp at hnone
    · rename_i hne
      have hx' : s.model.Has x := ⟨hx.1.trans hg.tag, Model.size_materialize (m := s.model) ▸ hx.2⟩
      have := (h.single x hx' (hr.not_slotted h.numbered hnone)).2
      rw [List.count_singleton, if_neg (by simpa using Ne.symm hne), Nat.add_zero] at this
      exact (Model.occurrences_materialize hexpr x).trans this
  · obtain rfl := Option.some.inj ho
    show ((s.model.materialize expr).ref? expr).isSome
    rw [Model.ref?_materialize hexpr, if_pos rfl]
    cases s.model.ref? expr <;> rfl

/-- The state after the numbered nodes of a record are read. -/
theorem start_numbered {ids : List NodeId}
    (hids : ((List.range r.refs.length).mapM (resolve r.refs.toArray r.refs.length)).run
      ⟨.empty tag r.name, Array.replicate r.refs.length .pending⟩ = .ok (ids, s)) :
    (s.numbered ids).Ready ∧ Sane (s.numbered ids) [] ∧ (s.numbered ids).model.name = r.name ∧
      (s.numbered ids).model.topLevel = #[] ∧ (s.numbered ids).model.objective = none := by
  obtain ⟨hl, hkeep, hall⟩ := mapM_resolve hids
  obtain ⟨-, -, hname, htop, hobj, -⟩ := numberRefs_frame s.model 0 ids
  obtain ⟨hname', hrefs', htop', hobj'⟩ := hl.frame
  have hsize : s.slots.size = r.refs.length := by rw [hl.size, Array.size_replicate]
  have hready : (s.numbered ids).Ready := ready_numbered hsize hall
  refine ⟨hready, (hkeep (sane_start tag r.name _)).number hrefs' fun k id => ?_,
    hname.trans hname', htop.trans htop', hobj.trans hobj'⟩
  have := hready k
  change s.slots[k]? = (ids.toArray[k]?).map .built at this
  rw [this, List.getElem?_toArray]
  cases ids[k]? <;> simp

/-- A record is read to a whole model, of which the named nodes are then numbered. -/
theorem whole_of_ofRecord (h : Model.ofRecord tag r = .ok m) :
    ∃ m₀, Model.Whole m₀ ∧ m = numberNamed m₀ := by
  obtain ⟨s, hs, rfl⟩ := ofRecord_ok.1 h
  obtain ⟨ids, s₁, s₂, s₃, hids, hposts, hobj, rfl⟩ := restore_ok.1 hs
  refine ⟨s₃.model, ?_, rfl⟩
  have hres {k : Nat} {s : Restoring} {id : NodeId} {s' : Restoring}
      (h : (resolve r.refs.toArray r.refs.length k).run s = .ok (id, s')) : Later s s' :=
    later_resolve _ _ h
  have hsane := sane_resolve r.refs.toArray r.refs.length
  obtain ⟨hready, hs₁, -, -, hobj₁⟩ := start_numbered hids
  obtain ⟨hready₂, hs₂, hobj₂⟩ := hposts.later_frame hres hsane hready hs₁
  cases ho : r.objective with
  | none =>
    rw [ho] at hobj
    obtain rfl : s₃ = s₂ := hobj
    refine ⟨hs₂.counted, hs₂.numbered, hs₂.accepts, fun id hid hr => ?_, fun o ho => ?_⟩
    · exact (hs₂.single id hid (hready₂.not_slotted hs₂.numbered hr)).2
    · rw [hobj₂, hobj₁] at ho
      exact nomatch ho
  | some o =>
    rw [ho] at hobj
    obtain ⟨expr, s₄, he, rfl⟩ := hobj
    have hs₄ := sane_arg hsane _ he hs₂
    have hready₄ := hready₂.later (later_arg hres _ he)
    exact hs₄.optimize hready₄ o.sense

/-- A record that is read gives a sound model. -/
theorem sound_ofRecord (h : Model.ofRecord tag r = .ok m) : Model.Sound m := by
  obtain ⟨m₀, h₀, hm⟩ := whole_of_ofRecord h
  obtain ⟨hw, hg, hs, hname⟩ := h₀.number (fun id hid => Model.mem_ids.1 hid) hm
  refine hw.sound fun i n hn hnamed => ?_
  have hnode : m.node? (m.idAt i) = some n := by rw [Model.node?_idAt, hn]
  have hid : m.idAt i ∈ m₀.ids := Model.mem_ids.2 ⟨hg.tag, by rw [← hs]; exact Model.lt_size_of_getElem? hn⟩
  have := hname _ hid n hnode hnamed
  rwa [Model.ref?, hnode] at this

/-- A record that is read gives a model of which every node is reachable. -/
theorem reachable_ofRecord (h : Model.ofRecord tag r = .ok m) {id : NodeId} (hid : m.Has id) :
    m.Reachable id := by
  obtain ⟨m₀, h₀, hm⟩ := whole_of_ofRecord h
  exact (h₀.number (fun id hid => Model.mem_ids.1 hid) hm).1.reachable hid

end Restoring

end Scheduling
