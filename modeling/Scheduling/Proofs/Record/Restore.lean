import Scheduling.Proofs.Record.Reachable
import Scheduling.Record.Decode

/-!
# Models that are read

What reading a record builds, when it succeeds: nodes are only appended and slots only filled
(`Later`), and a node that no slot names is used exactly once, or is about to be (`Sane`). At the
end the model is sound and has no node that is not reachable (`sound_ofRecord`,
`reachable_ofRecord`).
-/

namespace Scheduling

namespace Restoring

variable {α β : Type} {s s' s'' : Restoring} {k : Nat} {id : NodeId}

/-! ### Steps -/

theorem bind_ok {x : Step α} {f : α → Step β} {b : β} :
    (x >>= f).run s = .ok (b, s'') ↔
      ∃ a s', x.run s = .ok (a, s') ∧ (f a).run s' = .ok (b, s'') := by
  rw [StateT.run_bind]
  cases hx : x.run s with
  | error e => exact ⟨fun h => (nomatch h), fun ⟨_, _, h, _⟩ => (nomatch h)⟩
  | ok p =>
    refine ⟨fun h => ⟨p.1, p.2, rfl, h⟩, fun ⟨a, s', h, hf⟩ => ?_⟩
    obtain rfl := Except.ok.inj h
    exact hf

theorem pure_ok {a b : α} : (pure a : Step α).run s = .ok (b, s') ↔ a = b ∧ s = s' := by
  constructor
  · intro h
    have := Except.ok.inj h
    exact ⟨congrArg Prod.fst this, congrArg Prod.snd this⟩
  · rintro ⟨rfl, rfl⟩
    rfl

theorem fail_ok {e : ProtocolError} {a : α} : (fail e : Step α).run s ≠ .ok (a, s') := nofun

theorem get_ok {a : Restoring} : (get : Step Restoring).run s = .ok (a, s') ↔ s = a ∧ s = s' := by
  constructor
  · intro h
    have := Except.ok.inj h
    exact ⟨congrArg Prod.fst this, congrArg Prod.snd this⟩
  · rintro ⟨rfl, rfl⟩
    rfl

theorem modify_ok {f : Restoring → Restoring} {u : PUnit} :
    (modify f : Step PUnit).run s = .ok (u, s') ↔ f s = s' := by
  constructor
  · intro h
    exact congrArg Prod.snd (Except.ok.inj h)
  · rintro rfl
    rfl

theorem check_ok {r : Except ModelError Unit} {u : Unit} :
    (check r).run s = .ok (u, s') ↔ r = .ok () ∧ s = s' := by
  cases r with
  | ok _ => exact ⟨fun h => ⟨rfl, (pure_ok.1 h).2⟩, fun h => pure_ok.2 ⟨rfl, h.2⟩⟩
  | error e => exact ⟨fun h => (fail_ok h).elim, fun h => nomatch h.1⟩

theorem map_ok {f : α → β} {x : Step α} {b : β} :
    (f <$> x).run s = .ok (b, s') ↔ ∃ a, x.run s = .ok (a, s') ∧ f a = b := by
  rw [map_eq_pure_bind, bind_ok]
  constructor
  · rintro ⟨a, s₁, ha, hp⟩
    obtain ⟨he, rfl⟩ := pure_ok.1 hp
    exact ⟨a, ha, he⟩
  · rintro ⟨a, ha, he⟩
    exact ⟨a, s', ha, pure_ok.2 ⟨he, rfl⟩⟩

/-- What building a node does once its operands are built. -/
theorem node_ok {resolve : Nat → Step NodeId} {op : Operator} {items : List ArgRecord}
    {attributes : Attributes} :
    (node resolve (.mk op items attributes)).run s = .ok (id, s'') ↔
      ∃ operands s', (args resolve items).run s = .ok (operands, s') ∧
        s'.model.Accepts (.fresh op operands attributes) ∧ id = s'.model.idAt s'.model.nodes.size ∧
        s'' = { s' with model := insert s'.model (.fresh op operands attributes) } := by
  rw [node, bind_ok]
  refine exists_congr fun operands => exists_congr fun s' => and_congr_right fun _ => ?_
  by_cases hlen : operands.length < op.arity.1 ∨ op.arity.2 < operands.length
  · simp only [if_pos hlen, bind_ok]
    refine ⟨fun ⟨_, _, h, _⟩ => (fail_ok h).elim, fun ⟨hacc, _, _⟩ => ?_⟩
    have := hacc.least
    have := hacc.greatest
    simp only [Node.fresh] at *
    omega
  · simp only [if_neg hlen, bind_ok, check_ok, get_ok, modify_ok, pure_ok]
    constructor
    · rintro ⟨_, _, ⟨rfl, rfl⟩, _, _, ⟨hc, rfl⟩, _, _, rfl, rfl, rfl⟩
      refine ⟨⟨?_, ?_, hc⟩, rfl, rfl⟩
      · show op.arity.1 ≤ operands.length
        omega
      · show operands.length ≤ op.arity.2
        omega
    · rintro ⟨hacc, rfl, rfl⟩
      exact ⟨_, _, ⟨rfl, rfl⟩, (), _, ⟨hacc.values, rfl⟩, ⟨⟩, _, rfl, rfl, rfl⟩

/-! ### Growth -/

/-- Nodes were appended, and numbers built that were pending. -/
structure Later (s s' : Restoring) : Prop where
  grows : Model.Grows s.model s'.model
  frame : s'.model.name = s.model.name ∧ s'.model.refs = s.model.refs ∧
    s'.model.topLevel = s.model.topLevel ∧ s'.model.objective = s.model.objective
  slots : ∀ k : Nat, s'.slots[k]? = s.slots[k]? ∨
    s.slots[k]? = some .pending ∧ ∃ id, s'.slots[k]? = some (.built id)

namespace Later

theorem refl (s : Restoring) : Later s s :=
  ⟨.refl _, ⟨rfl, rfl, rfl, rfl⟩, fun _ => .inl rfl⟩

theorem trans (h : Later s s') (h' : Later s' s'') : Later s s'' := by
  refine ⟨h.grows.trans h'.grows, ?_, fun k => ?_⟩
  · obtain ⟨h₁, h₂, h₃, h₄⟩ := h.frame
    obtain ⟨h₁', h₂', h₃', h₄'⟩ := h'.frame
    exact ⟨h₁'.trans h₁, h₂'.trans h₂, h₃'.trans h₃, h₄'.trans h₄⟩
  · obtain he | ⟨hp, id, hid⟩ := h.slots k
    · rw [← he]
      exact h'.slots k
    · obtain he' | ⟨hp', -⟩ := h'.slots k
      · exact .inr ⟨hp, id, he'.trans hid⟩
      · simp [hid] at hp'

theorem built (h : Later s s') (hk : s.slots[k]? = some (.built id)) :
    s'.slots[k]? = some (.built id) := by
  obtain he | ⟨hp, -⟩ := h.slots k
  · exact he.trans hk
  · simp [hk] at hp

theorem visiting (h : Later s s') (hk : s'.slots[k]? = some .visiting) :
    s.slots[k]? = some .visiting := by
  obtain he | ⟨-, id, hid⟩ := h.slots k
  · exact he.symm.trans hk
  · simp [hk] at hid

end Later

theorem grows_counts (m : Model) (ids : List NodeId) :
    Model.Grows m (ids.foldl Model.counted m) := by
  induction ids generalizing m with
  | nil => exact .refl m
  | cons id ids ih => exact Model.grows_counted.trans (ih _)

theorem counts_frame (m : Model) (ids : List NodeId) :
    (ids.foldl Model.counted m).name = m.name ∧ (ids.foldl Model.counted m).refs = m.refs ∧
      (ids.foldl Model.counted m).topLevel = m.topLevel ∧
      (ids.foldl Model.counted m).objective = m.objective ∧
      (ids.foldl Model.counted m).nodes.size = m.nodes.size := by
  induction ids generalizing m with
  | nil => exact ⟨rfl, rfl, rfl, rfl, rfl⟩
  | cons id ids ih =>
    have h := ih (m.counted id)
    rwa [show (m.counted id).nodes.size = m.nodes.size from Model.size_modify _] at h

theorem insert_eq (m : Model) (n : Node) : insert m n = n.operands.foldl Model.counted (m.push n) :=
  rfl

theorem later_insert (n : Node) : Later s { s with model := insert s.model n } := by
  obtain ⟨hname, hrefs, htop, hobj, -⟩ := counts_frame (s.model.push n) n.operands
  exact ⟨Model.grows_push.trans (grows_counts _ _), ⟨hname, hrefs, htop, hobj⟩, fun _ => .inl rfl⟩

section Steps

variable {resolve : Nat → Step NodeId}

mutual

theorem later_arg
    (hres : ∀ {k : Nat} {s : Restoring} {id : NodeId} {s' : Restoring},
      (resolve k).run s = .ok (id, s') → Later s s') :
    (a : ArgRecord) → ∀ {s : Restoring} {v : Arg} {s' : Restoring},
      (arg resolve a).run s = .ok (v, s') → Later s s'
  | .ref k, _, _, _, h => by
    obtain ⟨id, hid, -⟩ := map_ok.1 h
    exact hres hid
  | .inline n, _, _, _, h => by
    obtain ⟨id, hid, -⟩ := map_ok.1 h
    exact later_node hres n hid
  | .bool _, _, _, _, h => (pure_ok.1 h).2 ▸ .refl _
  | .int _, _, _, _, h => (pure_ok.1 h).2 ▸ .refl _
  | .float _, _, _, _, h => (pure_ok.1 h).2 ▸ .refl _
  | .list items, _, _, _, h => by
    obtain ⟨vs, hvs, -⟩ := map_ok.1 h
    exact later_args hres items hvs

theorem later_args
    (hres : ∀ {k : Nat} {s : Restoring} {id : NodeId} {s' : Restoring},
      (resolve k).run s = .ok (id, s') → Later s s') :
    (as : List ArgRecord) → ∀ {s : Restoring} {vs : List Arg} {s' : Restoring},
      (args resolve as).run s = .ok (vs, s') → Later s s'
  | [], _, _, _, h => (pure_ok.1 h).2 ▸ .refl _
  | a :: rest, _, _, _, h => by
    obtain ⟨v, s₁, hv, h⟩ := bind_ok.1 h
    obtain ⟨vs, s₂, hvs, h⟩ := bind_ok.1 h
    obtain ⟨-, rfl⟩ := pure_ok.1 h
    exact (later_arg hres a hv).trans (later_args hres rest hvs)

theorem later_node
    (hres : ∀ {k : Nat} {s : Restoring} {id : NodeId} {s' : Restoring},
      (resolve k).run s = .ok (id, s') → Later s s') :
    (n : NodeRecord) → ∀ {s : Restoring} {id : NodeId} {s' : Restoring},
      (node resolve n).run s = .ok (id, s') → Later s s'
  | .mk op items attributes, _, _, _, h => by
    obtain ⟨operands, s₁, hs₁, -, -, rfl⟩ := node_ok.1 h
    exact (later_args hres items hs₁).trans (later_insert _)

end

end Steps

/-! ### Numbers -/

/-- The state with another slot for a number. -/
def withSlot (s : Restoring) (k : Nat) (slot : Slot) : Restoring :=
  { s with slots := s.slots.setIfInBounds k slot }

theorem getElem?_withSlot {slot : Slot} {l : Nat} :
    (s.withSlot k slot).slots[l]? = if k = l ∧ k < s.slots.size then some slot else s.slots[l]? := by
  rw [withSlot, Array.getElem?_setIfInBounds]
  by_cases hk : k = l
  · subst hk
    by_cases hlt : k < s.slots.size
    · simp [hlt]
    · simp [hlt]
  · simp [hk]

/-- The node of a number is the one that was built for it, or is built now. -/
theorem resolve_ok {refs : Array NodeRecord} {fuel : Nat} :
    (resolve refs fuel k).run s = .ok (id, s') ↔
      (s.slots[k]? = some (.built id) ∧ s = s') ∨
      (s.slots[k]? = some .pending ∧ ∃ fuel' n s₁, fuel = fuel' + 1 ∧ refs[k]? = some n ∧
        (node (resolve refs fuel') n).run (s.withSlot k .visiting) = .ok (id, s₁) ∧
        s' = s₁.withSlot k (.built id)) := by
  have hget {f : Restoring → Step NodeId} :
      (get >>= f).run s = .ok (id, s') ↔ (f s).run s = .ok (id, s') := by
    rw [bind_ok]
    exact ⟨fun ⟨_, _, hg, h⟩ => by obtain ⟨rfl, rfl⟩ := get_ok.1 hg; exact h,
      fun h => ⟨s, s, get_ok.2 ⟨rfl, rfl⟩, h⟩⟩
  unfold resolve
  rw [hget]
  cases hk : s.slots[k]? with
  | none => simp [fail_ok]
  | some slot =>
    cases slot with
    | built x =>
      refine pure_ok.trans ⟨fun ⟨hx, hs⟩ => .inl ⟨by rw [hx], hs⟩, fun h => ?_⟩
      obtain ⟨he, hs⟩ | ⟨he, -⟩ := h
      · exact ⟨Slot.built.inj (Option.some.inj he), hs⟩
      · simp at he
    | visiting => simp [fail_ok]
    | pending =>
      cases fuel with
      | zero => simp [fail_ok]
      | succ fuel =>
        cases hn : refs[k]? with
        | none => simp [fail_ok]
        | some n =>
          simp only [bind_ok, modify_ok, pure_ok]
          constructor
          · rintro ⟨_, _, rfl, x, s₁, hx, _, _, rfl, rfl, rfl⟩
            exact .inr ⟨trivial, fuel, n, s₁, rfl, rfl, hx, rfl⟩
          · rintro (⟨h, -⟩ | ⟨-, fuel', n', s₁, he, hn', hx, rfl⟩)
            · simp at h
            · obtain rfl := Nat.succ.inj he
              obtain rfl := Option.some.inj hn'
              exact ⟨⟨⟩, _, rfl, id, s₁, hx, ⟨⟩, _, rfl, rfl, rfl⟩

theorem lt_size_of_slot {slot : Slot} (h : s.slots[k]? = some slot) : k < s.slots.size :=
  (Array.getElem?_eq_some_iff.1 h).1

theorem slot_withSlot {slot slot' : Slot} (h : s.slots[k]? = some slot) :
    (s.withSlot k slot').slots[k]? = some slot' := by
  rw [getElem?_withSlot, if_pos ⟨rfl, lt_size_of_slot h⟩]

/-- A pending number has no node, and has none when it is visited. -/
theorem built_withSlot_visiting (hk : s.slots[k]? = some .pending) {l : Nat} {x : NodeId} :
    (s.withSlot k .visiting).slots[l]? = some (.built x) ↔ s.slots[l]? = some (.built x) := by
  rw [getElem?_withSlot]
  by_cases hl : k = l
  · subst hl
    rw [if_pos ⟨rfl, lt_size_of_slot hk⟩, hk]
    simp
  · simp [hl]

/-- The nodes of the numbers, when that of one more is built. -/
theorem built_withSlot_built (hk : s.slots[k]? = some .visiting) {l : Nat} {x : NodeId} :
    (s.withSlot k (.built id)).slots[l]? = some (.built x) ↔
      (k = l ∧ id = x) ∨ s.slots[l]? = some (.built x) := by
  rw [getElem?_withSlot]
  by_cases hl : k = l
  · subst hl
    rw [if_pos ⟨rfl, lt_size_of_slot hk⟩, hk]
    simp
  · simp [hl]

/-- A number is still visited when its operands are built. -/
theorem Later.visited {s₁ : Restoring} (hk : s.slots[k]? = some .pending)
    (h : Later (s.withSlot k .visiting) s₁) : s₁.slots[k]? = some .visiting := by
  obtain he | ⟨hp, -⟩ := h.slots k
  · rw [he, slot_withSlot hk]
  · rw [slot_withSlot hk] at hp
    exact nomatch hp

/-- Once the node of a pending number is built, its slot takes the node. -/
theorem Later.of_visiting {s₁ : Restoring} (hk : s.slots[k]? = some .pending)
    (h : Later (s.withSlot k .visiting) s₁) : Later s (s₁.withSlot k (.built id)) := by
  refine ⟨h.grows, h.frame, fun l => ?_⟩
  by_cases hl : k = l
  · subst hl
    exact .inr ⟨hk, id, slot_withSlot (h.visited hk)⟩
  · rw [getElem?_withSlot, if_neg fun h => hl h.1]
    have := h.slots l
    rwa [getElem?_withSlot, if_neg fun h => hl h.1] at this

theorem later_resolve (refs : Array NodeRecord) (fuel : Nat) {k : Nat} {s : Restoring} {id : NodeId}
    {s' : Restoring} (h : (resolve refs fuel k).run s = .ok (id, s')) : Later s s' := by
  induction fuel generalizing k s id s' with
  | zero =>
    obtain ⟨-, rfl⟩ | ⟨-, _, _, _, he, -⟩ := resolve_ok.1 h
    · exact .refl s
    · exact nomatch he
  | succ fuel ih =>
    obtain ⟨-, rfl⟩ | ⟨hk, fuel', n, s₁, he, -, hn, rfl⟩ := resolve_ok.1 h
    · exact .refl s
    · obtain rfl := Nat.succ.inj he
      exact .of_visiting hk (later_node ih n hn)

theorem built_of_resolve {refs : Array NodeRecord} {fuel : Nat}
    (h : (resolve refs fuel k).run s = .ok (id, s')) : s'.slots[k]? = some (.built id) := by
  obtain ⟨hk, rfl⟩ | ⟨hk, fuel', n, s₁, -, -, hn, rfl⟩ := resolve_ok.1 h
  · exact hk
  · exact slot_withSlot ((later_node (later_resolve refs fuel') n hn).visited hk)

/-! ### Single uses -/

variable {flight : List NodeId}

/-- A number of the record has the node. -/
def Slotted (s : Restoring) (id : NodeId) : Prop := ∃ k : Nat, s.slots[k]? = some (.built id)

theorem slotted_withSlot_built (hk : s.slots[k]? = some .visiting) {x : NodeId} :
    (s.withSlot k (.built id)).Slotted x ↔ id = x ∨ s.Slotted x := by
  simp only [Slotted, built_withSlot_built hk, exists_or, exists_and_right, exists_eq',
    true_and]

/-- The model that is being built is coherent, and each node that no number has is used once, by a
node or by the part of the record that is being read (`flight`). -/
structure Sane (s : Restoring) (flight : List NodeId) : Prop where
  counted : Model.Counted s.model []
  numbered : Model.Numbered s.model
  accepts : ∀ (i : Nat) (n : Node), s.model.nodes[i]? = some n → s.model.Accepts n
  flight_has : ∀ id ∈ flight, s.model.Has id
  slot_has : ∀ (k : Nat) (id : NodeId), s.slots[k]? = some (.built id) → s.model.Has id
  slot_inj : ∀ (k l : Nat) (id : NodeId), s.slots[k]? = some (.built id) →
    s.slots[l]? = some (.built id) → k = l
  single : ∀ id, s.model.Has id → ¬ s.Slotted id →
    s.model.ref? id = none ∧ s.model.occurrences id + flight.count id = 1

theorem counts_counted {m : Model} {ids due : List NodeId} (h : Model.Counted m (ids ++ due))
    (hids : ∀ id ∈ ids, m.Has id) : Model.Counted (ids.foldl Model.counted m) due := by
  induction ids generalizing m with
  | nil => exact h
  | cons id ids ih =>
    refine ih (h.counted (hids id List.mem_cons_self).1) fun x hx => ?_
    exact Model.grows_counted.has (hids x (List.mem_cons_of_mem _ hx))

theorem counts_ref? (m : Model) (ids : List NodeId) (x : NodeId) :
    (ids.foldl Model.counted m).ref? x = m.ref? x := by
  induction ids generalizing m with
  | nil => rfl
  | cons id ids ih => exact (ih _).trans (Model.ref?_modify fun _ => rfl)

theorem counts_occurrences (m : Model) (ids : List NodeId) (x : NodeId) :
    (ids.foldl Model.counted m).occurrences x = m.occurrences x := by
  induction ids generalizing m with
  | nil => rfl
  | cons id ids ih => exact (ih _).trans (Model.occurrences_modify fun _ => rfl)

namespace Sane

/-- A node that a number has may be in flight any number of times. -/
theorem cons_slotted (h : Sane s flight) (hid : s.Slotted id) : Sane s (id :: flight) := by
  obtain ⟨k, hk⟩ := hid
  refine { h with flight_has := ?_, single := fun x hx hns => ?_ }
  · exact List.forall_mem_cons.2 ⟨h.slot_has k id hk, h.flight_has⟩
  · have hne : id ≠ x := by
      rintro rfl
      exact hns ⟨k, hk⟩
    rw [List.count_cons_of_ne hne]
    exact h.single x hx hns

theorem perm {flight' : List NodeId} (h : Sane s flight) (hp : flight.Perm flight') :
    Sane s flight' := by
  refine { h with flight_has := fun x hx => h.flight_has x (hp.mem_iff.2 hx), single := ?_ }
  intro x hx hns
  rw [← hp.count_eq]
  exact h.single x hx hns

theorem visit (h : Sane s flight) (hk : s.slots[k]? = some .pending) :
    Sane (s.withSlot k .visiting) flight := by
  refine ⟨h.counted, h.numbered, h.accepts, h.flight_has, fun l id hl => ?_,
    fun l l' id hl hl' => ?_, fun x hx hns => ?_⟩
  · exact h.slot_has l id ((built_withSlot_visiting hk).1 hl)
  · exact h.slot_inj l l' id ((built_withSlot_visiting hk).1 hl) ((built_withSlot_visiting hk).1 hl')
  · exact h.single x hx fun ⟨l, hl⟩ => hns ⟨l, (built_withSlot_visiting hk).2 hl⟩

/-- The node in flight that a number takes is no longer in flight. -/
theorem fill (h : Sane s (id :: flight)) (hk : s.slots[k]? = some .visiting)
    (hid : ¬ s.Slotted id) : Sane (s.withSlot k (.built id)) flight := by
  obtain ⟨hhas, hflight⟩ := List.forall_mem_cons.1 h.flight_has
  refine ⟨h.counted, h.numbered, h.accepts, hflight, fun l x hl => ?_, fun l l' x hl hl' => ?_,
    fun x hx hns => ?_⟩
  · obtain ⟨-, rfl⟩ | hl := (built_withSlot_built hk).1 hl
    · exact hhas
    · exact h.slot_has l x hl
  · obtain ⟨rfl, rfl⟩ | hl := (built_withSlot_built hk).1 hl <;>
      obtain ⟨rfl, he⟩ | hl' := (built_withSlot_built hk).1 hl'
    · rfl
    · exact (hid ⟨l', hl'⟩).elim
    · exact (hid ⟨l, he ▸ hl⟩).elim
    · exact h.slot_inj l l' x hl hl'
  · obtain ⟨hne, hns⟩ := not_or.1 (mt (slotted_withSlot_built hk).2 hns)
    have := h.single x hx hns
    rwa [List.count_cons_of_ne hne] at this

/-- A node that is built takes its operands out of flight, and is then itself in flight. -/
theorem insert {n : Node} (h : Sane s (n.operands ++ flight)) (hn : s.model.Accepts n)
    (hr : n.ref = none) (hu : n.uses = 0) :
    Sane { s with model := insert s.model n } (s.model.idAt s.model.nodes.size :: flight) ∧
      ¬ Slotted { s with model := insert s.model n } (s.model.idAt s.model.nodes.size) := by
  have hops : ∀ id ∈ n.operands, s.model.Has id :=
    fun id hid => h.flight_has id (List.mem_append_left _ hid)
  have hops' : ∀ id ∈ n.operands, (s.model.push n).Has id :=
    fun id hid => Model.grows_push.has (hops id hid)
  have hg := (later_insert (s := s) n).grows
  have hsize : (Restoring.insert s.model n).nodes.size = s.model.nodes.size + 1 :=
    (counts_frame _ _).2.2.2.2.trans Model.size_push
  have hnew : (Restoring.insert s.model n).Has (s.model.idAt s.model.nodes.size) :=
    ⟨hg.tag.symm, by rw [hsize]; exact Nat.lt_succ_self _⟩
  have hocc (x : NodeId) : (Restoring.insert s.model n).occurrences x =
      s.model.occurrences x + n.operands.count x := by
    rw [insert_eq, counts_occurrences, Model.occurrences_push]
  have href (x : NodeId) : (Restoring.insert s.model n).ref? x = s.model.ref? x := by
    rw [insert_eq, counts_ref?, Model.ref?_push hr]
  have hnot : ¬ s.Slotted (s.model.idAt s.model.nodes.size) := fun ⟨k, hk⟩ =>
    Nat.lt_irrefl _ (h.slot_has k _ hk).2
  refine ⟨⟨?_, ?_, fun i n' hi => ?_, ?_, fun k id hk => hg.has (h.slot_has k id hk), h.slot_inj,
    fun x hx hns => ?_⟩, hnot⟩
  · exact counts_counted (by rw [List.append_nil]; exact h.counted.push hops hu) hops'
  · exact (h.numbered.push hr).congr (counts_frame _ _).2.1 fun x => counts_ref? _ _ x
  · obtain ⟨n₁, hn₁, hb⟩ := (grows_counts (s.model.push n) n.operands).node_back
      (counts_frame _ _).2.2.2.2 hi
    refine (hg.keeps.accepts ?_).of_core (Node.core_eq_of_bare hb)
    rw [Model.getElem?_push] at hn₁
    split at hn₁
    · exact Option.some.inj hn₁ ▸ hn
    · exact h.accepts i n₁ hn₁
  · exact List.forall_mem_cons.2 ⟨hnew,
      fun id hid => hg.has (h.flight_has id (List.mem_append_right _ hid))⟩
  · rw [hocc, href]
    by_cases hxs : s.model.Has x
    · have hne : s.model.idAt s.model.nodes.size ≠ x := by
        rintro rfl
        exact Nat.lt_irrefl _ hxs.2
      have := h.single x hxs hns
      rw [List.count_append] at this
      rw [List.count_cons_of_ne hne]
      exact ⟨this.1, by omega⟩
    · obtain rfl : x = s.model.idAt s.model.nodes.size := by
        have htag := hx.1.trans hg.tag
        have hlt := hx.2
        rw [hsize] at hlt
        have : ¬ x.index < s.model.nodes.size := fun hlt => hxs ⟨htag, hlt⟩
        rw [show x = s.model.idAt x.index from hx.eq_idAt.trans (by rw [Model.idAt, Model.idAt, hg.tag])]
        rw [show x.index = s.model.nodes.size by omega]
      have hflight : flight.count (s.model.idAt s.model.nodes.size) = 0 :=
        List.count_eq_zero.2 fun hmem =>
          hxs (h.flight_has _ (List.mem_append_right _ hmem))
      have hop : n.operands.count (s.model.idAt s.model.nodes.size) = 0 :=
        List.count_eq_zero.2 fun hmem => hxs (hops _ hmem)
      refine ⟨?_, ?_⟩
      · rw [Model.ref?, Model.node?_idAt, Array.getElem?_eq_none (Nat.le_refl _), Option.bind_none]
      · rw [h.counted.occurrences_eq_zero hxs, hop, List.count_cons_self, hflight]

end Sane

section Steps

variable {resolve : Nat → Step NodeId}

/-- What reading a number has to keep so that reading arguments keeps it. -/
def ResolvesSanely (resolve : Nat → Step NodeId) : Prop :=
  ∀ (k : Nat) (s : Restoring) (id : NodeId) (s' : Restoring) (flight : List NodeId),
    (resolve k).run s = .ok (id, s') → Sane s flight → Sane s' flight ∧ s'.Slotted id

mutual

theorem sane_arg (hres : ResolvesSanely resolve) :
    (a : ArgRecord) → ∀ {s : Restoring} {v : Arg} {s' : Restoring} {flight : List NodeId},
      (arg resolve a).run s = .ok (v, s') → Sane s flight → Sane s' (v.nodes ++ flight)
  | .ref k, _, _, _, _, h, hs => by
    obtain ⟨id, hid, rfl⟩ := map_ok.1 h
    obtain ⟨hs', hslot⟩ := hres _ _ _ _ _ hid hs
    exact hs'.cons_slotted hslot
  | .inline n, _, _, _, _, h, hs => by
    obtain ⟨id, hid, rfl⟩ := map_ok.1 h
    exact (sane_node hres n hid hs).1
  | .bool _, _, _, _, _, h, hs => by
    obtain ⟨rfl, rfl⟩ := pure_ok.1 h
    exact hs
  | .int _, _, _, _, _, h, hs => by
    obtain ⟨rfl, rfl⟩ := pure_ok.1 h
    exact hs
  | .float _, _, _, _, _, h, hs => by
    obtain ⟨rfl, rfl⟩ := pure_ok.1 h
    exact hs
  | .list items, _, _, _, _, h, hs => by
    obtain ⟨vs, hvs, rfl⟩ := map_ok.1 h
    exact sane_args hres items hvs hs

theorem sane_args (hres : ResolvesSanely resolve) :
    (as : List ArgRecord) → ∀ {s : Restoring} {vs : List Arg} {s' : Restoring}
      {flight : List NodeId}, (args resolve as).run s = .ok (vs, s') → Sane s flight →
      Sane s' (Arg.nodesOf vs ++ flight)
  | [], _, _, _, _, h, hs => by
    obtain ⟨rfl, rfl⟩ := pure_ok.1 h
    exact hs
  | a :: rest, _, _, _, _, h, hs => by
    obtain ⟨v, s₁, hv, h⟩ := bind_ok.1 h
    obtain ⟨vs, s₂, hvs, h⟩ := bind_ok.1 h
    obtain ⟨rfl, rfl⟩ := pure_ok.1 h
    have h₂ := sane_args hres rest hvs (sane_arg hres a hv hs)
    exact h₂.perm (by rw [Arg.nodesOf, List.append_assoc]; exact List.perm_append_comm_assoc ..)

theorem sane_node (hres : ResolvesSanely resolve) :
    (n : NodeRecord) → ∀ {s : Restoring} {id : NodeId} {s' : Restoring} {flight : List NodeId},
      (node resolve n).run s = .ok (id, s') → Sane s flight →
      Sane s' (id :: flight) ∧ ¬ s'.Slotted id
  | .mk op items attributes, _, _, _, _, h, hs => by
    obtain ⟨operands, s₁, hs₁, hacc, rfl, rfl⟩ := node_ok.1 h
    have h₁ := sane_args hres items hs₁ hs
    exact Sane.insert (n := .fresh op operands attributes) h₁ hacc rfl rfl

end

theorem sane_resolve (refs : Array NodeRecord) (fuel : Nat) :
    ResolvesSanely (Restoring.resolve refs fuel) := by
  induction fuel with
  | zero =>
    intro k s id s' flight h hs
    obtain ⟨hk, rfl⟩ | ⟨-, _, _, _, he, -⟩ := resolve_ok.1 h
    · exact ⟨hs, k, hk⟩
    · exact nomatch he
  | succ fuel ih =>
    intro k s id s' flight h hs
    refine ⟨?_, k, built_of_resolve h⟩
    obtain ⟨-, rfl⟩ | ⟨hk, fuel', n, s₁, he, -, hn, rfl⟩ := resolve_ok.1 h
    · exact hs
    · obtain rfl := Nat.succ.inj he
      obtain ⟨h₁, hnot⟩ := sane_node ih n hn (hs.visit hk)
      exact h₁.fill ((later_node (later_resolve refs fuel) n hn).visited hk) hnot

end Steps

end Restoring

end Scheduling
