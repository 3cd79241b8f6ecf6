import Scheduling.Model.Sample
import Scheduling.Proofs.Record.Copy
import Scheduling.Proofs.Record.Written

/-!
# Round trips of records

A model that is obtained by calls, or from a record and then by calls, has a record; the record can
be read; and what is read is a copy of the reachable part of the model, which has the same record
(`record_round_trip`).
-/

namespace Scheduling

namespace Restoring

variable {m : Model} {f g : NodeId → NodeId} {s s' : Restoring} {d fuel : Nat} {id x : NodeId}
  {loose : Option NodeId} {refs : Array NodeRecord}

/-! ### Numbered nodes -/

theorem bare_numberRefs (m : Model) (k : Nat) (ids : List NodeId) (i : Nat) :
    ((numberRefs m k ids).nodes[i]?).map Node.bare = (m.nodes[i]?).map Node.bare := by
  induction ids generalizing m k with
  | nil => rfl
  | cons id ids ih =>
    rw [numberRefs, ih, Model.getElem?_modify]
    split
    · cases m.nodes[i]? <;> rfl
    · rfl

/-- Numbers and uses do not matter for copies. -/
theorem Copies.of_bare (h : Copies m f s loose) (ht : s'.model.tag = s.model.tag)
    (hn : ∀ i : Nat, (s'.model.nodes[i]?).map Node.bare = (s.model.nodes[i]?).map Node.bare)
    (hs : s'.slots = s.slots) : Copies m f s' loose := by
  have hnode {id : NodeId} {n' : Node} (hn' : s'.model.node? id = some n') :
      ∃ n, s.model.node? id = some n ∧ n'.bare = n.bare := by
    obtain ⟨htag, hi⟩ := Model.node?_eq_some.1 hn'
    have := hn id.index
    rw [hi, Option.map_some, eq_comm, Option.map_eq_some_iff] at this
    obtain ⟨n, hi, hb⟩ := this
    exact ⟨n, Model.node?_eq_some.2 ⟨htag.trans ht, hi⟩, hb.symm⟩
  have hsize : s'.model.nodes.size = s.model.nodes.size := by
    have hiff (i : Nat) : s'.model.nodes[i]? = none ↔ s.model.nodes[i]? = none := by
      rw [← Option.map_eq_none_iff (f := Node.bare), hn, Option.map_eq_none_iff]
    simp only [Array.getElem?_eq_none_iff] at hiff
    have := (hiff s.model.nodes.size).2 (Nat.le_refl _)
    have := (hiff s'.model.nodes.size).1 (Nat.le_refl _)
    omega
  have hhas {y : NodeId} : s'.model.Has y ↔ s.model.Has y := by
    rw [Model.Has, Model.Has, ht, hsize]
  refine ⟨fun id n' hn' => ?_, fun id n' hn' y hy => ?_, fun k y hk => ?_, hs ▸ h.size,
    fun y hy hns => h.rest y (hhas.1 hy) fun hslotted => hns (hslotted.imp fun _ hk => hs ▸ hk)⟩
  · obtain ⟨n₁, hn₁, hb⟩ := hnode hn'
    obtain ⟨n, hn, hc⟩ := h.node id n₁ hn₁
    exact ⟨n, hn, hc.of_bare hb⟩
  · obtain ⟨n₁, hn₁, hb⟩ := hnode hn'
    rw [show n'.operands = n₁.operands from (congrArg (fun n : Node => n.operands) hb :)] at hy
    exact hhas.2 (h.closed id n₁ hn₁ y hy)
  · obtain ⟨hy, hr⟩ := h.slot k y (hs ▸ hk)
    exact ⟨hhas.2 hy, hr⟩

theorem rank_le (m : Model) (d : Nat) : rank m d ≤ m.refs.size := by
  rw [← Array.length_toList]
  exact List.countP_le_length

section Reading

variable (hm : Model.Sound m)
  (hrefs : ∀ (k : Nat) (x : NodeId), m.refs[k]? = some x →
    ∃ r, refs[k]? = some r ∧ m.refRecord x = .ok r)

include hm hrefs

/-- All numbers are read. -/
theorem gives_numbers {ks : List Nat} (hks : ∀ k ∈ ks, k < m.refs.size)
    (hfuel : m.refs.size ≤ fuel) :
    Gives m m.nodes.size (ks.mapM (resolve refs fuel)) fun _ _ _ => True := by
  induction ks with
  | nil => exact gives_pure fun _ _ => trivial
  | cons k ks ih =>
    intro f s hc ho
    obtain ⟨hk, hks⟩ := List.forall_mem_cons.1 hks
    have hx := Array.getElem?_eq_getElem hk
    have hhas : m.Has m.refs[k] := hm.refs_has _ (Array.mem_toList_iff.2 (Array.getElem_mem hk))
    obtain ⟨id, s₁, f₁, hid, hl₁, hf₁, hc₁, -⟩ :=
      gives_resolve hrefs (gives_node hm hrefs _) hx hhas.2
        (Nat.le_trans (rank_le m _) hfuel) f s hc ho
    obtain ⟨ids, s₂, f₂, hids, hl₂, hf₂, hc₂, -⟩ := ih hks f₁ s₁ hc₁ (ho.later hl₁)
    refine ⟨id :: ids, s₂, f₂, ?_, hl₁.trans hl₂, fun y hy => ?_, hc₂, trivial⟩
    · rw [List.mapM_cons]
      exact bind_ok.2 ⟨id, s₁, hid, bind_ok.2 ⟨ids, s₂, hids, pure_ok.2 ⟨rfl, rfl⟩⟩⟩
    · rw [hf₂ y (hl₁.grows.has hy), hf₁ y hy]

/-! ### Constraints -/

/-- All constraints are read. -/
theorem exists_posts {xs : List NodeId} {as : List ArgRecord} (hfuel : m.refs.size ≤ fuel)
    (hxs : ∀ x ∈ xs, m.Has x) (has : List.Forall₂ (fun x a => m.reference x = .ok a) xs as)
    (hc : Copies m f s none) (ho : Open m m.nodes.size s) (hs : Sane s []) :
    ∃ s' g, Posts (resolve refs fuel) as s s' ∧ (∀ y, s.model.Has y → g y = f y) ∧
      Copies m g s' none ∧ s'.model.topLevel.toList.map g = s.model.topLevel.toList.map f ++ xs ∧
      s'.model.name = s.model.name := by
  induction has generalizing f s with
  | nil => exact ⟨s, f, .nil, fun _ _ => rfl, hc, by rw [List.append_nil], rfl⟩
  | @cons x a xs as ha _ ih =>
    obtain ⟨hx, hxs⟩ := List.forall_mem_cons.1 hxs
    have hgive := gives_reference hm hrefs (gives_node hm hrefs x) hx hx.2
      (Nat.le_trans (rank_le m _) hfuel) ha
    obtain ⟨v, s₁, f₁, hv, hl₁, hf₁, hc₁, hfv, hhas⟩ := hgive f s hc ho
    cases v with
    | node id =>
      have hid : f₁ id = x := Arg.node.inj hfv
      have hs₁ := sane_arg (sane_resolve refs fuel) a hv hs
      have hc₂ : Copies m f₁ (s₁.posted id) none := by
        refine hc₁.of_bare rfl (fun i => ?_) rfl
        show (((s₁.model.modify id.index _).nodes[i]?).map Node.bare) = _
        rw [Model.getElem?_modify]
        split
        · cases s₁.model.nodes[i]? <;> rfl
        · rfl
      have ho₁ := ho.later hl₁
      obtain ⟨s', g, hposts, hg, hc', htop, hname⟩ := ih hxs hc₂ ho₁ hs₁.post
      have hg₁ {y : NodeId} (hy : s₁.model.Has y) : g y = f₁ y :=
        hg y ((grows_posted s₁ id).has hy)
      refine ⟨s', g, .cons hv hposts, fun y hy => ?_, hc', ?_, hname.trans hl₁.frame.1⟩
      · rw [hg₁ (hl₁.grows.has hy), hf₁ y hy]
      · rw [htop]
        show (s₁.model.topLevel.push id).toList.map f₁ ++ xs = _
        rw [Array.toList_push, List.map_append, hl₁.frame.2.2.1, List.map_singleton, hid,
          List.append_assoc, List.singleton_append]
        congr 1
        exact List.map_congr_left fun y hy =>
          hf₁ y (hs.counted.topLevel y (Array.mem_toList_iff.1 hy))
    | _ => simp [Arg.rename] at hfv

end Reading

/-! ### The model that is read -/

/-- Once all numbers are built, a copy has the number of its node. -/
theorem Copies.ref?_eq (h : Copies m f s none) (hm : Model.Numbered m) (hr : s.Ready)
    (hs : Sane s []) (hid : s.model.Has id) : m.ref? (f id) = s.model.ref? id := by
  by_cases hslot : s.Slotted id
  · obtain ⟨k, hk⟩ := hslot
    rw [(hm k (f id)).1 (h.slot k id hk).2]
    rw [hr k, Option.map_eq_some_iff] at hk
    obtain ⟨y, hy, he⟩ := hk
    obtain rfl := Slot.built.inj he
    exact ((hs.numbered k y).1 hy).symm
  · rw [(hs.single id hid hslot).1]
    exact (h.rest id hid hslot).resolve_right nofun

theorem Ready.size (h : s.Ready) : s.slots.size = s.model.refs.size := by
  have hiff (k : Nat) : s.slots[k]? = none ↔ s.model.refs[k]? = none := by
    rw [h k, Option.map_eq_none_iff]
  simp only [Array.getElem?_eq_none_iff] at hiff
  have := (hiff s.model.refs.size).2 (Nat.le_refl _)
  have := (hiff s.slots.size).1 (Nat.le_refl _)
  omega

theorem Copies.refs_eq (h : Copies m f s none) (hr : s.Ready) :
    m.refs.toList = s.model.refs.toList.map f := by
  refine List.ext_getElem? fun k => ?_
  rw [List.getElem?_map, Array.getElem?_toList, Array.getElem?_toList]
  cases hk : s.model.refs[k]? with
  | some id =>
    have hslot : s.slots[k]? = some (.built id) := by rw [hr k, hk, Option.map_some]
    exact (h.slot k id hslot).2
  | none =>
    rw [Array.getElem?_eq_none_iff] at hk
    rw [Option.map_none, Array.getElem?_eq_none_iff, ← h.size, hr.size]
    exact hk

/-- Nothing is left to number when the named nodes have a number. -/
theorem numberNamed_eq (h : ∀ id n, m.node? id = some n → n.name.isSome → n.ref.isSome) :
    numberNamed m = m := by
  have hstep (ids : List NodeId) : ids.foldl (fun m id =>
      if (m.node? id).any fun n => n.name.isSome then m.materialize id else m) m = m := by
    induction ids with
    | nil => rfl
    | cons id ids ih =>
      rw [List.foldl_cons]
      cases hn : m.node? id with
      | none => simpa using ih
      | some n =>
        by_cases hname : n.name.isSome
        · have hi := (Model.node?_eq_some.1 hn).2
          rw [Option.any_some, if_pos hname, Model.materialize_of_isSome hi (h id n hn hname)]
          exact ih
        · rw [Option.any_some, if_neg hname]
          exact ih
  exact hstep m.ids

/-- A finished copy covers the model, whatever its objective was. -/
theorem Copies.covers (h : Copies m f s none) (hm : Model.Sound m) (hr : s.Ready) (hs : Sane s [])
    (hname : m.name = s.model.name) (htop : m.topLevel.toList = s.model.topLevel.toList.map f)
    {o : Option Objective} (ho : m.objective = o.map fun o => ⟨o.sense, f o.expr⟩)
    {m' : Model} (hm' : m' = { s.model with objective := o }) :
    numberNamed m' = m' ∧ Model.Covers f m' m := by
  subst hm'
  have hnode (id : NodeId) (n' : Node) (hn' : s.model.node? id = some n') :
      ∃ n, m.node? (f id) = some n ∧ n'.Copy f n ∧ n.ref = n'.ref := by
    obtain ⟨n, hn, hc⟩ := h.node id n' hn'
    have href := h.ref?_eq hm.numbered hr hs (Model.has_of_node? hn')
    simp only [Model.ref?, hn, hn', Option.bind_some] at href
    exact ⟨n, hn, hc, href⟩
  refine ⟨numberNamed_eq fun id n' hn' hnamed => ?_, fun id n' hn' => ?_, hname, h.refs_eq hr, htop, ho⟩
  · obtain ⟨n, hn, hc, href⟩ := hnode id n' hn'
    have hnamed' : n.name.isSome := by rw [hc.attributes]; exact hnamed
    rw [← href]
    exact hm.shared _ n (Model.node?_eq_some.1 hn).2 (.inr hnamed')
  · obtain ⟨n, hn, hc, href⟩ := hnode id n' hn'
    exact ⟨n, hn, hc, href⟩

/-- The record of a sound model can be read, and what is read covers the model. -/
theorem exists_covers (hm : Model.Sound m) {r : ModelRecord} (hr : m.record = .ok r) (tag : Nat) :
    ∃ m' f, Model.ofRecord tag r = .ok m' ∧ Model.Covers f m' m := by
  obtain ⟨r', hr', hname, hrefs, htop, hobj⟩ := Model.exists_record hm
  obtain rfl := Except.ok.inj (hr.symm.trans hr')
  have hlen : r.refs.length = m.refs.size := by rw [← hrefs.length_eq, Array.length_toList]
  have hrefs' (k : Nat) (x : NodeId) (hx : m.refs[k]? = some x) :
      ∃ n, r.refs.toArray[k]? = some n ∧ m.refRecord x = .ok n := by
    obtain ⟨hk, rfl⟩ := Array.getElem?_eq_some_iff.1 hx
    have hk' : k < r.refs.length := hlen ▸ hk
    refine ⟨r.refs[k], by simp [hk'], ?_⟩
    simpa using hrefs.get (by simpa using hk) hk'
  have hfuel : m.refs.size ≤ r.refs.length := Nat.le_of_eq hlen.symm
  have hres {k : Nat} {s : Restoring} {id : NodeId} {s' : Restoring}
      (h : (resolve r.refs.toArray r.refs.length k).run s = .ok (id, s')) : Later s s' :=
    later_resolve _ _ h
  have hsane := sane_resolve r.refs.toArray r.refs.length
  have hopen : Open m m.nodes.size ⟨.empty tag r.name, Array.replicate r.refs.length .pending⟩ :=
    fun k x hk => by
      rw [Array.getElem?_replicate] at hk
      split at hk <;> simp at hk
  -- The numbered nodes.
  have hks : ∀ k ∈ List.range r.refs.length, k < m.refs.size :=
    fun k hk => hlen ▸ List.mem_range.1 hk
  obtain ⟨ids, s₁, f₁, hids, hl₁, -, hc₁, -⟩ :=
    gives_numbers hm hrefs' hks hfuel id _ (hlen ▸ Copies.start m id tag r.name) hopen
  obtain ⟨hready, hs₁, hname₁, htop₁, hobj₁⟩ := start_numbered hids
  have hc : Copies m f₁ (s₁.numbered ids) none :=
    hc₁.of_bare (numberRefs_frame _ _ _).1.tag (bare_numberRefs _ _ _) rfl
  have ho : Open m m.nodes.size (s₁.numbered ids) := (hopen.later hl₁ :)
  -- The constraints.
  obtain ⟨s₂, f₂, hposts, -, hc₂, htop₂, hname₂⟩ :=
    exists_posts hm hrefs' hfuel hm.topLevel_has htop hc ho hs₁
  obtain ⟨hready₂, hs₂, hobj₂⟩ := hposts.later_frame hres hsane hready hs₁
  rw [htop₁, List.map_nil, List.nil_append] at htop₂
  have hname' : m.name = s₂.model.name := by rw [hname₂, hname₁, hname]
  -- The objective.
  cases ho : m.objective with
  | none =>
    rw [ho] at hobj
    obtain ⟨hnamed, hcov⟩ := hc₂.covers hm hready₂ hs₂ hname' htop₂.symm
      (o := s₂.model.objective) (by rw [ho, hobj₂, hobj₁, Option.map_none]) rfl
    refine ⟨_, f₂, ofRecord_ok.2 ⟨_, restore_ok.2 ⟨ids, s₁, s₂, s₂, hids, hposts, ?_, rfl⟩, hnamed⟩,
      hcov⟩
    rw [hobj]
    exact rfl
  | some o =>
    rw [ho] at hobj
    obtain ⟨k, hk, hobj⟩ := hobj
    have hx := (hm.numbered k o.expr).2 hk
    have hlt : k < s₂.slots.size := by
      rw [hc₂.size]
      exact (Array.getElem?_eq_some_iff.1 hx).1
    obtain ⟨y, hy⟩ : ∃ y, s₂.model.refs[k]? = some y :=
      ⟨_, Array.getElem?_eq_getElem (hready₂.size ▸ hlt)⟩
    have hslot : s₂.slots[k]? = some (.built y) := by rw [hready₂ k, hy, Option.map_some]
    obtain ⟨hid, hr₂⟩ := hc₂.slot k _ hslot
    have hexpr : f₂ y = o.expr := Option.some.inj (hr₂.symm.trans hx)
    obtain ⟨hnamed, hcov⟩ := hc₂.covers hm hready₂ hs₂ hname' htop₂.symm
      (o := some ⟨o.sense, y⟩) (by rw [ho, Option.map_some, hexpr]) rfl
    refine ⟨_, f₂, ofRecord_ok.2 ⟨_, restore_ok.2 ⟨ids, s₁, s₂, s₂.optimized o.sense y,
      hids, hposts, ?_, rfl⟩, ?_⟩, hcov⟩
    · rw [hobj]
      exact ⟨_, s₂, map_ok.2 ⟨_, resolve_ok.2 (.inl ⟨hslot, rfl⟩), rfl⟩, rfl⟩
    · show numberNamed { s₂.model.materialize y with objective := _ } = _
      rw [hready₂.materialize_built hs₂.numbered hslot]
      exact hnamed

end Restoring

namespace Model

variable {m : Model}

/-! ### Round trips -/

/-- The models that can be obtained: new ones, those of records, and those that calls extend. -/
inductive Obtained : Model → Prop where
  | empty (tag : Nat) (name : Option String) : Obtained (.empty tag name)
  | record {tag : Nat} {r : ModelRecord} {m : Model} : ofRecord tag r = .ok m → Obtained m
  | call {m : Model} : Obtained m → (c : Call) → Obtained (m.call c).2

theorem Obtained.calls (h : m.Obtained) (cs : List Call) : (m.calls cs).Obtained := by
  induction cs generalizing m with
  | nil => exact h
  | cons c cs ih => exact ih (h.call c)

theorem Obtained.sound (h : m.Obtained) : Sound m := by
  induction h with
  | empty tag name => exact sound_empty tag name
  | record h => exact Restoring.sound_ofRecord h
  | call _ c ih => exact ih.call c

/-- A sound model has a record, and the model that is read from it is one-to-one with the reachable
nodes. -/
theorem Sound.exists_copy (h : Sound m) (tag : Nat) :
    ∃ (r : ModelRecord) (m' : Model) (f : NodeId → NodeId),
      m.record = .ok r ∧ ofRecord tag r = .ok m' ∧ Sound m' ∧ Covers f m' m ∧
      Set.BijOn f {id | m'.Has id} {id | m.Reachable id} := by
  obtain ⟨r, hr, -⟩ := exists_record h
  obtain ⟨m', f, hm', hc⟩ := Restoring.exists_covers h hr tag
  have h' := Restoring.sound_ofRecord hm'
  exact ⟨r, m', f, hr, hm', h', hc, hc.bijOn h' h fun id hid => Restoring.reachable_ofRecord hm' hid⟩

/-- However a model was obtained, it has a record and the record can be read. What is read has one
node for each reachable node, with the same operator, attributes, operands and number, and the same
constraints and objective about these nodes; and it has the same record. The nodes that are written
in the record are the reachable ones, each once. -/
theorem record_round_trip (h : m.Obtained) (tag : Nat) :
    ∃ (r : ModelRecord) (m' : Model) (f : NodeId → NodeId),
      m.record = .ok r ∧ ofRecord tag r = .ok m' ∧ Covers f m' m ∧
      Set.BijOn f {id | m'.Has id} {id | m.Reachable id} ∧ m'.record = .ok r ∧
      ∃ ws : List NodeId, ws.Nodup ∧ (∀ x, x ∈ ws ↔ m.Reachable x) ∧
        List.Forall₂ (fun x n => m.refRecord x = .ok n) ws r.nodes := by
  obtain ⟨r, m', f, hr, hm', h', hc, hbij⟩ := h.sound.exists_copy tag
  exact ⟨r, m', f, hr, hm', hc, hbij, (hc.record_eq h' h.sound).trans hr, exists_written h.sound hr⟩

/-- Two tasks, one after the other. -/
theorem record_round_trip_twoTasks : (Sample.twoTasks 0).Obtained ∧
    ∃ (r : ModelRecord) (m' : Model) (f : NodeId → NodeId),
      (Sample.twoTasks 0).record = .ok r ∧ ofRecord 1 r = .ok m' ∧ Covers f m' (Sample.twoTasks 0) ∧
      Set.BijOn f {id | m'.Has id} {id | (Sample.twoTasks 0).Reachable id} ∧ m'.record = .ok r ∧
      ∃ ws : List NodeId, ws.Nodup ∧ (∀ x, x ∈ ws ↔ (Sample.twoTasks 0).Reachable x) ∧
        List.Forall₂ (fun x n => (Sample.twoTasks 0).refRecord x = .ok n) ws r.nodes :=
  have h : (Sample.twoTasks 0).Obtained := (Obtained.empty 0 (some "two-tasks")).calls _
  ⟨h, record_round_trip h 1⟩

end Model

end Scheduling
