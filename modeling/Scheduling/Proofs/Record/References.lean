import Mathlib.Logic.Relation
import Scheduling.Proofs.Record.Denotes

/-!
# References of records

How a record is read when its numbers refer to each other in any direction. A number is resolved
along a path of numbers that are being built, each of which leads to the next one in the graph of
references (`Visits`, `ModelRecord.Leads`). So a number that is met again lies on a cycle, and no
path is longer than there are numbers. A record that is read or not read ends in one of these ways
(`ends_restore`), and a proper record is read if and only if its references have no cycle and all
of them exist (`references_resolved`).
-/

namespace Scheduling

open Relation (TransGen)

namespace ModelRecord

/-- The entry of a number has a reference to another number inside. -/
def Refers (r : ModelRecord) (k l : Nat) : Prop := ∃ w, r.refs[k]? = some w ∧ l ∈ w.numbers

/-- All numbers that the record refers to. -/
def numbers (r : ModelRecord) : List Nat :=
  r.refs.flatMap NodeRecord.numbers ++ ArgRecord.numbersOf r.topLevel ++
    (r.objective.map fun o => o.expr.numbers).getD []

/-- Every node has the arguments and the table that its operator asks for, and the constraints and
the objective are nodes. -/
structure Proper (r : ModelRecord) : Prop where
  nodes : ∀ w ∈ r.nodes, w.Proper r.refs
  topLevel : ∀ a ∈ r.topLevel, a.IsNode
  objective : ∀ o ∈ r.objective, o.expr.IsNode

/-- Each number of a path leads to a number. -/
def Leads (r : ModelRecord) (path : List Nat) (k : Nat) : Prop :=
  ∀ i ∈ path, TransGen r.Refers i k

/-- What reading a record may report: a number on a cycle, a number that does not exist, and other
errors when the record is not proper. -/
inductive Excused (r : ModelRecord) : ProtocolError → Prop where
  | cycle {k : Nat} : TransGen r.Refers k k → Excused r (.cycle k)
  | danglingRef {k : Nat} : k ∈ r.numbers → r.refs.length ≤ k → Excused r (.danglingRef k)
  | model {e : ModelError} : ¬ r.Proper → Excused r (.model e)
  | notReference {v : Arg} : ¬ r.Proper → Excused r (.notReference v)

end ModelRecord

namespace Restoring

variable {α β : Type} {s s' : Restoring} {x : Step α} {f : α → Step β} {E : ProtocolError → Prop}
  {P : α → Restoring → Prop} {Q : β → Restoring → Prop}

/-! ### How steps end -/

/-- A step ends with an error of one set, or with a result as `P` says. -/
def Ends (x : Step α) (s : Restoring) (E : ProtocolError → Prop) (P : α → Restoring → Prop) :
    Prop :=
  match x.run s with
  | .ok (a, s') => P a s'
  | .error e => E e

theorem Ends.bind (h : Ends x s E P) (hf : ∀ a s', P a s' → Ends (f a) s' E Q) :
    Ends (x >>= f) s E Q := by
  unfold Ends at h ⊢
  rw [StateT.run_bind]
  cases hx : x.run s with
  | error e =>
    rw [hx] at h
    exact h
  | ok p =>
    rw [hx] at h
    exact hf p.1 p.2 h

theorem ends_pure {a : α} (h : P a s) : Ends (pure a) s E P := h

theorem ends_fail {e : ProtocolError} (h : E e) : Ends (fail e : Step α) s E P := h

theorem ends_get {f : Restoring → Step β} (h : Ends (f s) s E Q) : Ends (get >>= f) s E Q := h

theorem ends_modify {g : Restoring → Restoring} {f : PUnit → Step β} (h : Ends (f ⟨⟩) (g s) E Q) :
    Ends (modify g >>= f) s E Q := h

theorem Ends.map {g : α → β} (h : Ends x s E fun a s' => Q (g a) s') : Ends (g <$> x) s E Q := by
  rw [map_eq_pure_bind]
  exact h.bind fun a s' hQ => ends_pure hQ

theorem Ends.imp {P' : α → Restoring → Prop} (h : Ends x s E P) (hP : ∀ a s', P a s' → P' a s') :
    Ends x s E P' := by
  unfold Ends at h ⊢
  cases hx : x.run s with
  | error e =>
    rw [hx] at h
    exact h
  | ok p =>
    rw [hx] at h
    exact hP _ _ h

theorem ends_check {r : Except ModelError Unit} {f : Unit → Step β}
    (hf : r = .ok () → Ends (f ()) s E Q) (he : ∀ e, r = .error e → E (.model e)) :
    Ends (check r >>= f) s E Q := by
  cases r with
  | ok u => exact hf rfl
  | error e => exact he e rfl

/-! ### Paths of numbers -/

/-- The node of a number. -/
def Named (s : Restoring) (k : Nat) (id : NodeId) : Prop := s.slots[k]? = some (.built id)

/-- The numbers of a path are being built, and what was built for a number is what its entry
denotes. -/
structure Visits (r : ModelRecord) (path : List Nat) (s : Restoring) : Prop where
  size : s.slots.size = r.refs.length
  visiting : ∀ k : Nat, s.slots[k]? = some .visiting ↔ k ∈ path
  denotes : ∀ k id, s.Named k id → ∃ w, r.refs[k]? = some w ∧ w.Denotes s.model s.Named id

variable {r : ModelRecord} {path : List Nat} {k : Nat} {id : NodeId}

/-- The state grew, and no number was given to another node. -/
structure Extends (s s' : Restoring) : Prop where
  grows : Model.Grows s.model s'.model
  named : ∀ {k id}, s.Named k id → s'.Named k id
  size : s'.slots.size = s.slots.size

theorem Later.extends (h : Later s s') : Extends s s' := ⟨h.grows, h.built, h.size⟩

namespace Extends

theorem refl (s : Restoring) : Extends s s := ⟨.refl _, fun hk => hk, rfl⟩

theorem trans {s'' : Restoring} (h : Extends s s') (h' : Extends s' s'') : Extends s s'' :=
  ⟨h.grows.trans h'.grows, fun hk => h'.named (h.named hk), h'.size.trans h.size⟩

theorem node (h : Extends s s') {n : Node} (hn : s.model.node? id = some n) :
    ∃ n', s'.model.node? id = some n' ∧ n'.bare = n.bare := by
  obtain ⟨n', hn', hb, -⟩ := h.grows.node? hn
  exact ⟨n', hn', hb⟩

/-- What was denoted stays so. -/
theorem denotes (h : Extends s s') {a : ArgRecord} {v : Arg} (ha : a.Denotes s.model s.Named v) :
    a.Denotes s'.model s'.Named v := ArgRecord.Denotes.later h.node h.named a ha

theorem denotes_node (h : Extends s s') {w : NodeRecord} (hw : w.Denotes s.model s.Named id) :
    w.Denotes s'.model s'.Named id := NodeRecord.Denotes.later h.node h.named w hw

end Extends

theorem Visits.insert (h : Visits r path s) (n : Node) :
    Visits r path { s with model := insert s.model n } := by
  refine ⟨h.size, h.visiting, fun k id hk => ?_⟩
  obtain ⟨w, hw, hd⟩ := h.denotes k id hk
  exact ⟨w, hw, (later_insert n).extends.denotes_node hd⟩

theorem named_withSlot {slot : Slot} {l : Nat} (hk : k < s.slots.size) :
    (s.withSlot k slot).Named l id ↔ (k = l ∧ slot = .built id) ∨ (k ≠ l ∧ s.Named l id) := by
  rw [Named, getElem?_withSlot]
  by_cases hl : k = l
  · simp [hl, hl ▸ hk]
  · simp [hl, Named]

theorem extends_withSlot {slot : Slot} (hk : k < s.slots.size) (hnot : ∀ id, ¬ s.Named k id) :
    Extends s (s.withSlot k slot) := by
  refine ⟨.refl _, fun {l x} hl => (named_withSlot hk).2 (.inr ⟨?_, hl⟩),
    Array.size_setIfInBounds⟩
  rintro rfl
  exact hnot x hl

/-- A number that is being built joins the path. -/
theorem Visits.visit (h : Visits r path s) (hk : s.slots[k]? = some .pending) :
    Visits r (k :: path) (s.withSlot k .visiting) := by
  have hlt := lt_size_of_slot hk
  have hnot : k ∉ path := fun hmem => by
    rw [(h.visiting k).2 hmem] at hk
    exact nomatch hk
  have hextends : Extends s (s.withSlot k .visiting) :=
    extends_withSlot hlt fun _ hx => nomatch hk.symm.trans hx
  refine ⟨hextends.size.trans h.size, fun l => ?_, fun l x hl => ?_⟩
  · rw [getElem?_withSlot, List.mem_cons, ← h.visiting l]
    by_cases hl : k = l
    · subst hl
      simp [hlt]
    · simp [hl, Ne.symm hl]
  · obtain ⟨-, hslot⟩ | ⟨-, hl⟩ := (named_withSlot hlt).1 hl
    · exact nomatch hslot
    · obtain ⟨w, hw, hd⟩ := h.denotes l x hl
      exact ⟨w, hw, hextends.denotes_node hd⟩

/-- A number that is built leaves the path. -/
theorem Visits.fill {w : NodeRecord} (h : Visits r (k :: path) s) (hnot : k ∉ path)
    (hw : r.refs[k]? = some w) (hd : w.Denotes s.model s.Named id) :
    Visits r path (s.withSlot k (.built id)) := by
  have hk : s.slots[k]? = some .visiting := (h.visiting k).2 List.mem_cons_self
  have hlt := lt_size_of_slot hk
  have hextends : Extends s (s.withSlot k (.built id)) :=
    extends_withSlot hlt fun _ hx => nomatch hk.symm.trans hx
  refine ⟨hextends.size.trans h.size, fun l => ?_, fun l x hl => ?_⟩
  · have hl := h.visiting l
    rw [getElem?_withSlot]
    by_cases hkl : k = l
    · subst hkl
      simp [hlt, hnot]
    · simpa [hkl, Ne.symm hkl] using hl
  · obtain ⟨rfl, hslot⟩ | ⟨-, hl⟩ := (named_withSlot hlt).1 hl
    · obtain rfl := Slot.built.inj hslot
      exact ⟨w, hw, hextends.denotes_node hd⟩
    · obtain ⟨v, hv, hd⟩ := h.denotes l x hl
      exact ⟨v, hv, hextends.denotes_node hd⟩

/-- No path is as long as there are numbers while one of them is not yet met. -/
theorem Visits.length_lt (h : Visits r path s) (hnodup : path.Nodup)
    (hk : s.slots[k]? = some .pending) : path.length < r.refs.length := by
  have hnot : k ∉ path := fun hmem => by
    rw [(h.visiting k).2 hmem] at hk
    exact nomatch hk
  have hsub : k :: path ⊆ List.range r.refs.length := by
    intro l hl
    rw [List.mem_range, ← h.size]
    obtain rfl | hl := List.mem_cons.1 hl
    · exact lt_size_of_slot hk
    · exact lt_size_of_slot ((h.visiting l).2 hl)
  have hle := ((List.nodup_cons.2 ⟨hnot, hnodup⟩).subperm hsub).length_le
  rwa [List.length_range] at hle

/-! ### Arguments and nodes -/

/-- How a number is resolved to which a path leads. -/
def Resolves (r : ModelRecord) (path : List Nat) (resolve : Nat → Step NodeId) : Prop :=
  ∀ (k : Nat) (s : Restoring), Visits r path s → r.Leads path k →
    k ∈ r.numbers ∨ k < r.refs.length →
    Ends (resolve k) s r.Excused fun id s' => Later s s' ∧ Visits r path s' ∧ s'.Named k id

section Steps

variable {resolve : Nat → Step NodeId}

mutual

theorem ends_arg (hres : Resolves r path resolve) : (a : ArgRecord) →
    (∀ k ∈ a.numbers, k ∈ r.numbers ∧ r.Leads path k) → (∀ w ∈ a.nodes, w ∈ r.nodes) →
    ∀ {s : Restoring}, Visits r path s → Ends (arg resolve a) s r.Excused
      fun v s' => Later s s' ∧ Visits r path s' ∧ a.Denotes s'.model s'.Named v
  | .ref k, hk, _, _, hs => by
    obtain ⟨hk, hleads⟩ := hk k (List.mem_singleton_self k)
    refine ((hres k _ hs hleads (.inl hk)).imp fun id s' h => ?_).map
    exact ⟨h.1, h.2.1, id, rfl, h.2.2⟩
  | .inline w, hk, hw, _, hs =>
    ((ends_node hres w hk hw hs).imp fun id _ h => ⟨h.1, h.2.1, id, rfl, h.2.2⟩).map
  | .bool _, _, _, _, hs | .int _, _, _, _, hs | .float _, _, _, _, hs =>
    ends_pure ⟨.refl _, hs, rfl⟩
  | .list items, hk, hw, _, hs =>
    ((ends_args hres items hk hw hs).imp fun vs _ h => ⟨h.1, h.2.1, vs, rfl, h.2.2⟩).map

theorem ends_args (hres : Resolves r path resolve) : (as : List ArgRecord) →
    (∀ k ∈ ArgRecord.numbersOf as, k ∈ r.numbers ∧ r.Leads path k) →
    (∀ w ∈ ArgRecord.nodesOf as, w ∈ r.nodes) →
    ∀ {s : Restoring}, Visits r path s → Ends (args resolve as) s r.Excused
      fun vs s' => Later s s' ∧ Visits r path s' ∧ ArgRecord.DenoteAll s'.model s'.Named as vs
  | [], _, _, _, hs => ends_pure ⟨.refl _, hs, rfl⟩
  | a :: rest, hk, hw, _, hs => by
    refine (ends_arg hres a (fun k h => hk k (List.mem_append_left _ h))
      (fun w h => hw w (List.mem_append_left _ h)) hs).bind fun v s₁ h₁ => ?_
    obtain ⟨hl₁, hs₁, ha⟩ := h₁
    refine (ends_args hres rest (fun k h => hk k (List.mem_append_right _ h))
      (fun w h => hw w (List.mem_append_right _ h)) hs₁).bind fun vs s₂ h₂ => ?_
    obtain ⟨hl₂, hs₂, hrest⟩ := h₂
    exact ends_pure ⟨hl₁.trans hl₂, hs₂, v, vs, rfl, hl₂.extends.denotes ha, hrest⟩

theorem ends_node (hres : Resolves r path resolve) : (w : NodeRecord) →
    (∀ k ∈ w.numbers, k ∈ r.numbers ∧ r.Leads path k) → (∀ v ∈ w.nodes, v ∈ r.nodes) →
    ∀ {s : Restoring}, Visits r path s → Ends (node resolve w) s r.Excused
      fun id s' => Later s s' ∧ Visits r path s' ∧ w.Denotes s'.model s'.Named id
  | .mk op items attributes, hk, hw, _, hs => by
    refine (ends_args hres items hk (fun v hv => hw v (List.mem_cons_of_mem _ hv)) hs).bind
      fun operands s₁ h₁ => ?_
    obtain ⟨hl₁, hs₁, hargs⟩ := h₁
    have hproper (h : r.Proper) : NodeRecord.Proper r.refs (.mk op items attributes) :=
      h.nodes _ (hw _ List.mem_cons_self)
    by_cases hlen : operands.length < op.arity.1 ∨ op.arity.2 < operands.length
    · simp only [if_pos hlen]
      refine ends_fail (.model fun h => ?_)
      have := (hproper h).least
      have := (hproper h).greatest
      simp only [NodeRecord.operator, NodeRecord.args, hargs.length] at *
      omega
    · simp only [if_neg hlen]
      refine ends_get (ends_check (fun _ => ends_modify (ends_pure ?_)) fun e he => ?_)
      · have hl := later_insert (s := s₁) (.fresh op operands attributes)
        obtain ⟨n, hn, hb⟩ := node?_insert_self s₁.model (.fresh op operands attributes)
        obtain ⟨ha, ho, hargs'⟩ := Node.bare_eq_iff.1 hb
        refine ⟨hl₁.trans hl, hs₁.insert _, n, hn, ho, ha, ?_⟩
        rw [hargs']
        exact ArgRecord.DenoteAll.later hl.extends.node hl.extends.named items hargs
      · exact .model fun h => nomatch he.symm.trans ((hproper h).checked hargs hs₁.denotes)

end

end Steps

/-! ### Numbers -/

/-- A number that is not pending was met before, or does not exist. -/
theorem ends_resolve_of_pending {refs : Array NodeRecord} {fuel : Nat} (hs : Visits r path s)
    (hleads : r.Leads path k) (hk : k ∈ r.numbers ∨ k < r.refs.length)
    (hpending : s.slots[k]? = some .pending → Ends (resolve refs fuel k) s r.Excused
      fun id s' => Later s s' ∧ Visits r path s' ∧ s'.Named k id) :
    Ends (resolve refs fuel k) s r.Excused
      fun id s' => Later s s' ∧ Visits r path s' ∧ s'.Named k id := by
  cases hslot : s.slots[k]? with
  | none =>
    have hle : r.refs.length ≤ k := hs.size ▸ Array.getElem?_eq_none_iff.1 hslot
    unfold resolve
    refine ends_get ?_
    rw [hslot]
    exact ends_fail (.danglingRef (hk.resolve_right (by omega)) hle)
  | some slot =>
    cases slot with
    | pending => exact hpending hslot
    | visiting =>
      unfold resolve
      refine ends_get ?_
      rw [hslot]
      exact ends_fail (.cycle (hleads k ((hs.visiting k).1 hslot)))
    | built id =>
      unfold resolve
      refine ends_get ?_
      rw [hslot]
      exact ends_pure ⟨.refl s, hs, hslot⟩

/-- A number is resolved with as much fuel as the path leaves numbers. -/
theorem ends_resolve {fuel : Nat} (hnodup : path.Nodup)
    (hfuel : path.length + fuel = r.refs.length) :
    Resolves r path (resolve r.refs.toArray fuel) := by
  induction fuel generalizing path with
  | zero =>
    intro k s hs hleads hk
    refine ends_resolve_of_pending hs hleads hk fun hslot => ?_
    have := hs.length_lt hnodup hslot
    omega
  | succ fuel ih =>
    intro k s hs hleads hk
    refine ends_resolve_of_pending hs hleads hk fun hslot => ?_
    have hlt : k < r.refs.length := hs.size ▸ lt_size_of_slot hslot
    obtain ⟨w, hw⟩ : ∃ w, r.refs[k]? = some w := ⟨_, List.getElem?_eq_getElem hlt⟩
    have hmem := List.mem_of_getElem? hw
    have hnot : k ∉ path := fun h => nomatch hslot.symm.trans ((hs.visiting k).2 h)
    -- The numbers inside the entry come after the number on the path.
    have hnumbers : ∀ l ∈ w.numbers, l ∈ r.numbers ∧ r.Leads (k :: path) l := by
      intro l hl
      have hrefers : r.Refers k l := ⟨w, hw, hl⟩
      have hin : l ∈ r.refs.flatMap NodeRecord.numbers := List.mem_flatMap.2 ⟨w, hmem, hl⟩
      refine ⟨List.mem_append_left _ (List.mem_append_left _ hin), ?_⟩
      exact List.forall_mem_cons.2 ⟨.single hrefers, fun i hi => (hleads i hi).tail hrefers⟩
    have hnodes : ∀ v ∈ w.nodes, v ∈ r.nodes := fun v hv =>
      List.mem_append_left _ (List.mem_append_left _ (List.mem_flatMap.2 ⟨w, hmem, hv⟩))
    have hres : Resolves r (k :: path) (resolve r.refs.toArray fuel) :=
      ih (List.nodup_cons.2 ⟨hnot, hnodup⟩) (by rw [List.length_cons]; omega)
    unfold resolve
    refine ends_get ?_
    rw [hslot, List.getElem?_toArray, hw]
    refine ends_modify ((ends_node hres w hnumbers hnodes (hs.visit hslot)).bind fun id s₁ h₁ => ?_)
    obtain ⟨hl, hs₁, hd⟩ := h₁
    have hsize : k < s₁.slots.size := hs₁.size ▸ hlt
    refine ends_modify (ends_pure ⟨hl.of_visiting hslot, hs₁.fill hnot hw hd, ?_⟩)
    exact (named_withSlot hsize).2 (.inl ⟨rfl, rfl⟩)

/-! ### Whole records -/

theorem Ends.self (h : Ends x s E P) : Ends x s E fun a s' => x.run s = .ok (a, s') ∧ P a s' := by
  unfold Ends at h ⊢
  cases hx : x.run s with
  | error e =>
    rw [hx] at h
    exact h
  | ok p =>
    rw [hx] at h
    exact ⟨rfl, h⟩

/-- Only the nodes and the numbers matter to a path. -/
theorem Visits.congr (h : Visits r path s) (hm : SameNodes s.model s'.model)
    (hs : s'.slots = s.slots) : Visits r path s' := by
  have hnamed {k : Nat} {id : NodeId} : s'.Named k id ↔ s.Named k id := by rw [Named, Named, hs]
  refine ⟨hs ▸ h.size, fun k => hs ▸ h.visiting k, fun k id hk => ?_⟩
  obtain ⟨w, hw, hd⟩ := h.denotes k id (hnamed.1 hk)
  refine ⟨w, hw, NodeRecord.Denotes.later (fun hn => ?_) hnamed.2 w hd⟩
  obtain ⟨n', hn', hb⟩ := hm.symm.node? hn
  exact ⟨n', hn', hb.symm⟩

theorem ends_mapM (hs : Visits r [] s) {ks : List Nat} (hks : ∀ k ∈ ks, k < r.refs.length) :
    Ends (ks.mapM (resolve r.refs.toArray r.refs.length)) s r.Excused
      fun _ s' => Visits r [] s' := by
  induction ks generalizing s with
  | nil => exact ends_pure hs
  | cons k ks ih =>
    obtain ⟨hk, hks⟩ := List.forall_mem_cons.1 hks
    have hres : Resolves r [] (resolve r.refs.toArray r.refs.length) :=
      ends_resolve .nil (Nat.zero_add _)
    rw [List.mapM_cons]
    refine (hres k s hs nofun (.inr hk)).bind fun id s₁ h₁ => ?_
    exact (ih h₁.2.1 hks).bind fun ids s₂ h₂ => ends_pure h₂

/-- A constraint or an objective is read as a node. -/
theorem ends_nodeArg {a : ArgRecord} (hs : Visits r [] s) (hk : ∀ k ∈ a.numbers, k ∈ r.numbers)
    (hw : ∀ w ∈ a.nodes, w ∈ r.nodes) (ha : r.Proper → a.IsNode) :
    Ends (nodeArg (resolve r.refs.toArray r.refs.length) a) s r.Excused
      fun id s' => Extends s s' ∧ Visits r [] s' ∧ a.Denotes s'.model s'.Named (.node id) := by
  have hres : Resolves r [] (resolve r.refs.toArray r.refs.length) :=
    ends_resolve .nil (Nat.zero_add _)
  refine (ends_arg hres a (fun k h => ⟨hk k h, nofun⟩) hw hs).bind fun v s₁ h₁ => ?_
  obtain ⟨hl, hs₁, hd⟩ := h₁
  cases v with
  | node id => exact ends_pure ⟨hl.extends, hs₁, hd⟩
  | _ =>
    refine ends_fail (.notReference fun h => ?_)
    have ha := ha h
    cases a with
    | ref | inline =>
      obtain ⟨id, hid, -⟩ := hd
      exact nomatch hid
    | _ => exact ha

theorem extends_posted (s : Restoring) (id : NodeId) : Extends s (s.posted id) :=
  ⟨grows_posted s id, fun hk => hk, rfl⟩

theorem ends_topLevel {as : List ArgRecord} (hs : Visits r [] s)
    (hk : ∀ k ∈ ArgRecord.numbersOf as, k ∈ r.numbers)
    (hw : ∀ w ∈ ArgRecord.nodesOf as, w ∈ r.nodes) (has : r.Proper → ∀ a ∈ as, a.IsNode) :
    Ends (as.forM fun a => do
      let id ← nodeArg (resolve r.refs.toArray r.refs.length) a
      modify fun s => s.posted id : Step PUnit) s r.Excused
      fun _ s' => Extends s s' ∧ Visits r [] s' ∧
        ∀ a ∈ as, ∃ id, a.Denotes s'.model s'.Named (.node id) := by
  induction as generalizing s with
  | nil => exact ends_pure ⟨.refl s, hs, nofun⟩
  | cons a rest ih =>
    show Ends (_ >>= fun _ => rest.forM _) s _ _
    rw [bind_assoc]
    refine (ends_nodeArg hs (fun k h => hk k (List.mem_append_left _ h))
      (fun w h => hw w (List.mem_append_left _ h))
      fun h => has h a List.mem_cons_self).bind fun id s₁ h₁ => ends_modify ?_
    obtain ⟨he₁, hs₁, hd⟩ := h₁
    have hsame : SameNodes s₁.model (s₁.posted id).model :=
      .of_grows (grows_posted s₁ id) (Model.size_modify _)
    refine (ih (hs₁.congr hsame rfl) (fun k h => hk k (List.mem_append_right _ h))
      (fun w h => hw w (List.mem_append_right _ h))
      fun h a ha => has h a (List.mem_cons_of_mem _ ha)).imp fun _ s₂ h₂ => ?_
    obtain ⟨he₂, hs₂, hall⟩ := h₂
    have he := (extends_posted s₁ id).trans he₂
    exact ⟨he₁.trans he, hs₂, List.forall_mem_cons.2 ⟨⟨id, he.denotes hd⟩, hall⟩⟩

theorem grows_numberNamed (m : Model) : Model.Grows m (numberNamed m) := by
  have hfold (ids : List NodeId) (m : Model) : Model.Grows m (ids.foldl (fun m id =>
      if (m.node? id).any fun n => n.name.isSome then m.materialize id else m) m) := by
    induction ids generalizing m with
    | nil => exact .refl m
    | cons id ids ih =>
      refine Model.Grows.trans ?_ (ih _)
      dsimp only
      split
      · exact Model.grows_materialize
      · exact .refl m
  exact hfold m.ids m

/-- What was read once all numbers were: from then on the state only grew, and the constraints and
the objective are what the record denotes. -/
structure Restored (r : ModelRecord) (s s' : Restoring) : Prop where
  ready : s.Ready
  sane : Sane s []
  visits : Visits r [] s
  grown : Extends s s'
  topLevel : ∀ a ∈ r.topLevel, ∃ id, a.Denotes s'.model s'.Named (.node id)
  objective : ∀ o ∈ r.objective, ∃ id, o.expr.Denotes s'.model s'.Named (.node id)

/-- A record is read, or the error that is reported is excused. -/
theorem ends_restore (tag : Nat) (r : ModelRecord) :
    Ends (restore r) ⟨.empty tag r.name, Array.replicate r.refs.length .pending⟩ r.Excused
      fun _ s' => ∃ s, Restored r s s' := by
  have hstart : Visits r [] ⟨.empty tag r.name, Array.replicate r.refs.length .pending⟩ := by
    refine ⟨Array.size_replicate, fun k => ?_, fun k id hk => ?_⟩
    · simp [Array.getElem?_replicate]
    · rw [Named, Array.getElem?_replicate] at hk
      split at hk <;> simp at hk
  have hrefs : ∀ k ∈ List.range r.refs.length, k < r.refs.length := fun _ => List.mem_range.1
  rw [restore]
  simp only [List.size_toArray]
  refine (ends_mapM hstart hrefs).self.bind fun ids s₁ h₁ => ends_modify ?_
  obtain ⟨hids, hs₁⟩ := h₁
  obtain ⟨hready, hsane, -⟩ := start_numbered hids
  have hvisits := hs₁.congr (sameNodes_numbered s₁ ids) rfl
  refine (ends_topLevel hvisits (fun k h => ?_) (fun w h => ?_) fun h => h.topLevel).bind
    fun _ s₂ h₂ => ?_
  · exact List.mem_append_left _ (List.mem_append_right _ h)
  · exact List.mem_append_left _ (List.mem_append_right _ h)
  obtain ⟨he₂, hs₂, htop⟩ := h₂
  -- What is done at the end only numbers nodes.
  have hend {s₃ : Restoring} (he : Extends s₂ s₃)
      (hobj : ∀ o ∈ r.objective, ∃ id, o.expr.Denotes s₃.model s₃.Named (.node id)) :
      ∃ s, Restored r s { s₃ with model := numberNamed s₃.model } := by
    have hlast : Extends s₃ { s₃ with model := numberNamed s₃.model } :=
      ⟨grows_numberNamed s₃.model, fun hk => hk, rfl⟩
    refine ⟨_, hready, hsane, hvisits, (he₂.trans he).trans hlast, fun a ha => ?_, fun o ho => ?_⟩
    · obtain ⟨id, hd⟩ := htop a ha
      exact ⟨id, (he.trans hlast).denotes hd⟩
    · obtain ⟨id, hd⟩ := hobj o ho
      exact ⟨id, hlast.denotes hd⟩
  cases ho : r.objective with
  | none => exact hend (.refl s₂) (by simp [ho])
  | some o =>
    have hk : ∀ k ∈ o.expr.numbers, k ∈ r.numbers := fun k h =>
      List.mem_append_right _ (by simpa [ho] using h)
    have hw : ∀ w ∈ o.expr.nodes, w ∈ r.nodes := fun w h =>
      List.mem_append_right _ (by simpa [ho] using h)
    refine (ends_nodeArg hs₂ hk hw fun h => h.objective o ho).bind fun expr s₃ h₃ => ends_modify ?_
    obtain ⟨he₃, -, hd⟩ := h₃
    have hoptimized : Extends s₃ (s₃.optimized o.sense expr) := by
      have hg : Model.Grows s₃.model (s₃.model.materialize expr) := Model.grows_materialize
      exact ⟨⟨hg.tag, hg.node⟩, fun hk => hk, rfl⟩
    refine hend (he₃.trans hoptimized) fun o' ho' => ?_
    obtain rfl : o = o' := by simpa [ho] using ho'
    exact ⟨expr, hoptimized.denotes hd⟩

/-! ### The model of a record -/

section Restored

variable {m : Model} {tag : Nat} {s₀ : Restoring}

theorem ends_ofRecord (tag : Nat) (r : ModelRecord) :
    match Model.ofRecord tag r with
    | .ok m => ∃ s s', Restored r s s' ∧ s'.model = m
    | .error e => r.Excused e := by
  have h := ends_restore tag r
  rw [Ends] at h
  rw [Model.ofRecord]
  cases hrun : (restore r).run ⟨.empty tag r.name, Array.replicate r.refs.length .pending⟩ with
  | error e =>
    rw [hrun] at h
    exact h
  | ok p =>
    rw [hrun] at h
    obtain ⟨s, hs⟩ := h
    exact ⟨s, p.2, hs, rfl⟩

namespace Restored

variable (h : Restored r s s')

include h

/-- Every entry has a node that it denotes. -/
theorem exists_named {w : NodeRecord} (hw : r.refs[k]? = some w) :
    ∃ id, s.Named k id ∧ w.Denotes s'.model s'.Named id := by
  have hlt : k < s.slots.size := h.visits.size ▸ (List.getElem?_eq_some_iff.1 hw).1
  have hslot := h.ready k
  rw [Array.getElem?_eq_getElem hlt, eq_comm, Option.map_eq_some_iff] at hslot
  obtain ⟨id, -, hid⟩ := hslot
  have hk : s.Named k id := by rw [Named, Array.getElem?_eq_getElem hlt, hid]
  obtain ⟨w', hw', hd⟩ := h.visits.denotes k id hk
  obtain rfl := Option.some.inj (hw.symm.trans hw')
  exact ⟨id, hk, h.grown.denotes_node hd⟩

theorem named_iff : s'.Named k id ↔ s.Named k id := by
  refine ⟨fun hk => ?_, h.grown.named⟩
  have hlt : k < s.slots.size := h.grown.size ▸ lt_size_of_slot hk
  obtain ⟨w, hw⟩ : ∃ w, r.refs[k]? = some w := ⟨_, List.getElem?_eq_getElem (h.visits.size ▸ hlt)⟩
  obtain ⟨id', hid', -⟩ := h.exists_named hw
  have hsame := Slot.built.inj (Option.some.inj ((h.grown.named hid').symm.trans hk))
  exact hsame ▸ hid'

theorem lt_length (hk : s'.Named k id) : k < r.refs.length := by
  rw [← h.visits.size, ← h.grown.size]
  exact lt_size_of_slot hk

/-- The node of an entry has the number of the entry. -/
theorem ref?_eq_some (hk : s'.Named k id) : s'.model.ref? id = some k := by
  have hslot := h.ready k
  rw [show s.slots[k]? = some (.built id) from h.named_iff.1 hk, eq_comm,
    Option.map_eq_some_iff] at hslot
  obtain ⟨x, hx, hid⟩ := hslot
  obtain rfl := Slot.built.inj hid
  obtain ⟨n, hn, hr⟩ := Model.ref?_eq_some.1 ((h.sane.numbered k x).1 hx)
  obtain ⟨n', hn', -, href, -⟩ := h.grown.grows.node? hn
  exact Model.ref?_eq_some.2 ⟨n', hn', href k hr⟩

variable (hm : Model.Sound s'.model)

include hm

/-- Every number that the record refers to is the number of an entry. -/
theorem number_lt (hk : k ∈ r.numbers) : k < r.refs.length := by
  have hops {id : NodeId} {n : Node} (hn : s'.model.node? id = some n) (x : NodeId)
      (hx : x ∈ n.operands) : x.index < id.index := (hm.operand hn hx).2
  have harg {a : ArgRecord} {id : NodeId} (ha : a.Denotes s'.model s'.Named (.node id))
      (hk : k ∈ a.numbers) : k < r.refs.length := by
    obtain ⟨x, hx, -⟩ := ArgRecord.Denotes.before (i := id.index + 1) hops a ha hk fun x hx => by
      obtain rfl := List.mem_singleton.1 hx
      exact Nat.lt_succ_self _
    exact h.lt_length hx
  obtain hk | hk := List.mem_append.1 hk
  · obtain hk | hk := List.mem_append.1 hk
    · obtain ⟨w, hw, hk⟩ := List.mem_flatMap.1 hk
      obtain ⟨i, hi⟩ := List.mem_iff_getElem?.1 hw
      obtain ⟨id, -, hd⟩ := h.exists_named hi
      obtain ⟨x, hx, -⟩ := NodeRecord.Denotes.before hops w hd hk
      exact h.lt_length hx
    · obtain ⟨a, ha, hk⟩ := ArgRecord.mem_numbersOf.1 hk
      obtain ⟨id, hd⟩ := h.topLevel a ha
      exact harg hd hk
  · cases ho : r.objective with
    | none => simp [ho] at hk
    | some o =>
      obtain ⟨id, hd⟩ := h.objective o ho
      exact harg hd (by simpa [ho] using hk)

/-- A number that an entry leads to has a node before that of the entry. -/
theorem index_lt {l : Nat} (hkl : TransGen r.Refers k l) :
    ∃ x y, s'.Named k x ∧ s'.Named l y ∧ y.index < x.index := by
  have hstep {k l : Nat} (hkl : r.Refers k l) :
      ∃ x y, s'.Named k x ∧ s'.Named l y ∧ y.index < x.index := by
    obtain ⟨w, hw, hl⟩ := hkl
    obtain ⟨x, hx, hd⟩ := h.exists_named hw
    obtain ⟨y, hy, hlt⟩ := NodeRecord.Denotes.before (fun hn z hz => (hm.operand hn hz).2) w hd hl
    exact ⟨x, y, h.grown.named hx, hy, hlt⟩
  induction hkl with
  | single hkl => exact hstep hkl
  | tail _ hlast ih =>
    obtain ⟨x, y, hx, hy, hlt⟩ := ih
    obtain ⟨y', z, hy', hz, hlt'⟩ := hstep hlast
    obtain rfl := Slot.built.inj (Option.some.inj (hy.symm.trans hy'))
    exact ⟨x, z, hx, hz, hlt'.trans hlt⟩

theorem acyclic (k : Nat) : ¬ TransGen r.Refers k k := by
  intro hk
  obtain ⟨x, y, hx, hy, hlt⟩ := h.index_lt hm hk
  obtain rfl := Slot.built.inj (Option.some.inj (hx.symm.trans hy))
  exact Nat.lt_irrefl _ hlt

end Restored

end Restored

end Restoring

namespace Model

open Restoring

/-- How the references of a record are resolved. A cycle is reported for a number that lies on one,
a missing reference for a number that the record refers to and does not have; in particular reading
never runs out of numbers to resolve. A proper record can be read if and only if its references have
no cycle and all of them exist. In the model that is read, operands stand before their nodes, and
the node with a number is the one that the entry of the number denotes. -/
theorem references_resolved (tag : Nat) (r : ModelRecord) :
    (∀ k, ofRecord tag r = .error (.cycle k) → TransGen r.Refers k k) ∧
    (∀ k, ofRecord tag r = .error (.danglingRef k) → k ∈ r.numbers ∧ r.refs.length ≤ k) ∧
    (r.Proper → ((∃ m, ofRecord tag r = .ok m) ↔
      (∀ k, ¬ TransGen r.Refers k k) ∧ ∀ k ∈ r.numbers, k < r.refs.length)) ∧
    ∀ m, ofRecord tag r = .ok m →
      (∀ id n, m.node? id = some n → ∀ x ∈ n.operands, m.Has x ∧ x.index < id.index) ∧
      ∀ i w, r.refs[i]? = some w → ∃ id, m.byRef? i = some id ∧ m.ref? id = some i ∧
        w.Denotes m (fun k x => m.byRef? k = some x) id := by
  have hends := ends_ofRecord tag r
  cases hread : ofRecord tag r with
  | error e =>
    rw [hread] at hends
    refine ⟨fun k he => ?_, fun k he => ?_, fun hproper => ?_, nofun⟩
    · obtain rfl := Except.error.inj he
      cases hends with
      | cycle hk => exact hk
    · obtain rfl := Except.error.inj he
      cases hends with
      | danglingRef hk hle => exact ⟨hk, hle⟩
    · refine ⟨fun ⟨m, hm⟩ => (nomatch hm), fun ⟨hacyclic, hexist⟩ => ?_⟩
      cases hends with
      | cycle hk => exact (hacyclic _ hk).elim
      | danglingRef hk hle =>
        have := hexist _ hk
        omega
      | model hnot | notReference hnot => exact (hnot hproper).elim
  | ok m =>
    rw [hread] at hends
    obtain ⟨s, s', h, rfl⟩ := hends
    have hm := sound_ofRecord hread
    refine ⟨nofun, nofun, fun _ => ?_, ?_⟩
    · exact ⟨fun _ => ⟨h.acyclic hm, fun _ hk => h.number_lt hm hk⟩, fun _ => ⟨_, rfl⟩⟩
    rintro m hsame
    obtain rfl := Except.ok.inj hsame
    have hbyRef {k : Nat} {x : NodeId} (hk : s'.Named k x) : s'.model.byRef? k = some x :=
      (hm.numbered k x).2 (h.ref?_eq_some hk)
    refine ⟨fun id n hn x hx => hm.operand hn hx, fun i w hw => ?_⟩
    obtain ⟨id, hid, hd⟩ := h.exists_named hw
    have hid := h.grown.named hid
    exact ⟨id, hbyRef hid, h.ref?_eq_some hid,
      NodeRecord.Denotes.later (fun hn => ⟨_, hn, rfl⟩) hbyRef w hd⟩

end Model

end Scheduling
