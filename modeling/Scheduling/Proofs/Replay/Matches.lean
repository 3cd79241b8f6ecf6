import Mathlib.Logic.Function.Basic
import Scheduling.Proofs.Record.Covers

/-!
# Models that match

A model matches another one along a map of its nodes: every node has the number and the uses of its
image, and the nodes without an origin are constants that nobody uses (`Model.Matches`). The
elementary steps of building keep this when they are taken on both sides, and a constant that one
side builds may be one that the other side has to spare (`Matches.join`).
-/

namespace Scheduling

/-- The node says the same as another one, has the same number and is used as often. -/
structure Node.Twin (f : NodeId → NodeId) (n' n : Node) : Prop extends Node.Copy f n' n where
  ref : n.ref = n'.ref
  uses : n.uses = n'.uses

namespace Model

variable {m m' m₁ : Model} {id x y : NodeId} {n n' : Node} {f : NodeId → NodeId}

theorem node?_push (m : Model) (n : Node) (id : NodeId) :
    (m.push n).node? id = if id = m.idAt m.nodes.size then some n else m.node? id := by
  obtain ⟨k, i⟩ := id
  simp only [node?, push_tag, getElem?_push, idAt, NodeId.mk.injEq]
  by_cases hk : k = m.tag <;> by_cases hi : i = m.nodes.size <;> simp [hk, hi]

theorem node?_modify (hx : m.Has x) (u : Node → Node) (id : NodeId) :
    (m.modify x.index u).node? id = (m.node? id).map fun n => if id = x then u n else n := by
  obtain ⟨k, i⟩ := id
  obtain ⟨k', j⟩ := x
  obtain ⟨rfl, -⟩ := hx
  simp only [node?, modify_tag, getElem?_modify, NodeId.mk.injEq]
  by_cases hi : j = i
  · by_cases hk : k = m.tag <;> simp [hk, hi]
  · have hi' : i ≠ j := Ne.symm hi
    simp [hi, hi']

theorem ne_idAt_size (hx : m.Has x) : x ≠ m.idAt m.nodes.size := by
  rintro rfl
  exact Nat.lt_irrefl _ hx.2

/-- A map that takes the nodes of one model to nodes of another that are the same in all respects.
What the other model has besides are constants that nobody uses. -/
structure Matches (f : NodeId → NodeId) (m' m : Model) : Prop where
  node : ∀ (id : NodeId) (n' : Node), m'.node? id = some n' →
    ∃ n, m.node? (f id) = some n ∧ n'.Twin f n
  injective : ∀ a b : NodeId, m'.Has a → m'.Has b → f a = f b → a = b
  spare : ∀ (id : NodeId) (n : Node), m.node? id = some n → (∀ x, m'.Has x → f x ≠ id) →
    ∃ l : Literal, n = l.node
  name : m.name = m'.name
  refs : m.refs.toList = m'.refs.toList.map f
  topLevel : m.topLevel.toList = m'.topLevel.toList.map f
  objective : m.objective = m'.objective.map fun o => ⟨o.sense, f o.expr⟩

namespace Matches

theorem covers (h : Matches f m' m) : Covers f m' m := by
  refine ⟨fun id n' hn' => ?_, h.name, h.refs, h.topLevel, h.objective⟩
  obtain ⟨n, hn, htwin⟩ := h.node id n' hn'
  exact ⟨n, hn, htwin.toCopy, htwin.ref⟩

theorem has (h : Matches f m' m) (hx : m'.Has x) : m.Has (f x) := h.covers.has hx

theorem size_refs (h : Matches f m' m) : m.refs.size = m'.refs.size := by
  simpa using congrArg List.length h.refs

theorem empty (f : NodeId → NodeId) (tag : Nat) (name : Option String) :
    Matches f (empty tag name) (empty tag name) := by
  have hnone (id : NodeId) : (Model.empty tag name).node? id = none := by simp [node?, Model.empty]
  have hno (id : NodeId) : ¬ (Model.empty tag name).Has id := by simp [Has, Model.empty]
  refine ⟨fun id n' hn' => ?_, fun a b ha => (hno a ha).elim, fun id n hn => ?_, rfl, rfl, rfl, rfl⟩
  · rw [hnone] at hn'
    cases hn'
  · rw [hnone] at hn
    cases hn

/-- Only the images of the nodes matter. -/
theorem congr {g : NodeId → NodeId} (h : Matches f m' m) (hs : Sound m')
    (hg : ∀ x, m'.Has x → g x = f x) : Matches g m' m := by
  have hmap {ids : List NodeId} (hids : ∀ x ∈ ids, m'.Has x) : ids.map g = ids.map f :=
    List.map_congr_left fun x hx => hg x (hids x hx)
  refine ⟨fun id n' hn' => ?_, fun a b ha hb hab => ?_, fun id n hn hfree => ?_, h.name, ?_, ?_, ?_⟩
  · obtain ⟨n, hn, htwin⟩ := h.node id n' hn'
    rw [hg id (has_of_node? hn')]
    exact ⟨n, hn, htwin.toCopy.congr fun x hx => hg x (hs.operand hn' hx).1, htwin.ref, htwin.uses⟩
  · rw [hg a ha, hg b hb] at hab
    exact h.injective a b ha hb hab
  · exact h.spare id n hn fun x hx => hg x hx ▸ hfree x hx
  · rw [hmap hs.refs_has, h.refs]
  · rw [hmap hs.topLevel_has, h.topLevel]
  · rw [h.objective]
    cases ho : m'.objective with
    | none => rfl
    | some o =>
      obtain ⟨n, -, hn, -⟩ := hs.objective_ref ho
      simp [hg o.expr (has_of_node? hn)]

/-- A node joins one side. On the other side it has joined too, or it was there to spare. -/
theorem join (h : Matches f m' m) (hs : Sound m') (hops : ∀ x ∈ n'.operands, m'.Has x)
    (htwin : n'.Twin f n) (hy : m₁.node? y = some n) (hfree : ∀ x, m'.Has x → f x ≠ y)
    (hold : ∀ x, x ≠ y → m₁.node? x = m.node? x) (hname : m₁.name = m.name)
    (hrefs : m₁.refs = m.refs) (htop : m₁.topLevel = m.topLevel)
    (hobj : m₁.objective = m.objective) :
    Matches (Function.update f (m'.idAt m'.nodes.size) y) (m'.push n') m₁ := by
  -- The map is the old one on the old nodes.
  have hg : ∀ x, m'.Has x → Function.update f (m'.idAt m'.nodes.size) y x = f x :=
    fun x hx => Function.update_of_ne (ne_idAt_size hx) ..
  have hnew : Function.update f (m'.idAt m'.nodes.size) y (m'.idAt m'.nodes.size) = y :=
    Function.update_self ..
  have h' := h.congr hs hg
  have hhas : ∀ x, (m'.push n').Has x → x = m'.idAt m'.nodes.size ∨ m'.Has x := by
    intro x hx
    obtain ⟨k, hk⟩ := hx.exists_node
    rw [node?_push] at hk
    split at hk
    · exact .inl ‹_›
    · exact .inr (has_of_node? hk)
  refine ⟨fun id k hk => ?_, fun a b ha hb hab => ?_, fun id k hk hid => ?_, hname.trans h.name,
    ?_, ?_, ?_⟩
  · rw [node?_push] at hk
    split at hk
    · rename_i hid
      obtain rfl := Option.some.inj hk
      rw [hid, hnew]
      exact ⟨n, hy, htwin.toCopy.congr fun x hx => hg x (hops x hx), htwin.ref, htwin.uses⟩
    · obtain ⟨k₁, hk₁, hcopy⟩ := h'.node id k hk
      refine ⟨k₁, ?_, hcopy⟩
      rw [hold, hk₁]
      rw [hg id (has_of_node? hk)]
      exact hfree id (has_of_node? hk)
  · obtain rfl | ha := hhas a ha <;> obtain rfl | hb := hhas b hb
    · rfl
    · rw [hnew, hg b hb] at hab
      exact (hfree b hb hab.symm).elim
    · rw [hnew, hg a ha] at hab
      exact (hfree a ha hab).elim
    · exact h'.injective a b ha hb hab
  · have hne : id ≠ y := by
      rintro rfl
      refine hid (m'.idAt m'.nodes.size) ?_ hnew
      exact ⟨rfl, by simp [idAt]⟩
    rw [hold id hne] at hk
    exact h'.spare id k hk fun x hx => hid x (grows_push.has hx)
  · rw [hrefs]
    exact h'.refs
  · rw [htop]
    exact h'.topLevel
  · rw [hobj]
    exact h'.objective

/-- A node joins on both sides. -/
theorem push (h : Matches f m' m) (hs : Sound m') (hops : ∀ x ∈ n'.operands, m'.Has x)
    (htwin : n'.Twin f n) :
    Matches (Function.update f (m'.idAt m'.nodes.size) (m.idAt m.nodes.size)) (m'.push n')
      (m.push n) := by
  refine h.join hs hops htwin ?_ (fun x hx => ne_idAt_size (h.has hx)) (fun x hx => ?_) rfl rfl rfl
    rfl
  · rw [node?_push, if_pos rfl]
  · rw [node?_push, if_neg hx]

/-- A node changes on both sides. -/
theorem modify (h : Matches f m' m) (hx : m'.Has x) {u' u : Node → Node}
    (hu : ∀ n' n : Node, n'.Twin f n → (u' n').Twin f (u n)) :
    Matches f (m'.modify x.index u') (m.modify (f x).index u) := by
  have hhas {a : NodeId} (ha : (m'.modify x.index u').Has a) : m'.Has a := by
    simpa only [Has, modify_tag, size_modify] using ha
  refine ⟨fun id k hk => ?_, fun a b ha hb => h.injective a b (hhas ha) (hhas hb),
    fun id k hk hid => ?_, h.name, h.refs, h.topLevel, h.objective⟩
  · rw [node?_modify hx, Option.map_eq_some_iff] at hk
    obtain ⟨n', hn', rfl⟩ := hk
    obtain ⟨n, hn, htwin⟩ := h.node id n' hn'
    rw [node?_modify (h.has hx), hn]
    by_cases hid : id = x
    · subst hid
      exact ⟨u n, by simp, by simpa using hu n' n htwin⟩
    · have hne : f id ≠ f x := fun he => hid (h.injective id x (has_of_node? hn') hx he)
      exact ⟨n, by simp [hne], by simpa [hid] using htwin⟩
  · rw [node?_modify (h.has hx), Option.map_eq_some_iff] at hk
    obtain ⟨n, hn, rfl⟩ := hk
    have hhas' {a : NodeId} (ha : m'.Has a) : (m'.modify x.index u').Has a := by
      simpa only [Has, modify_tag, size_modify] using ha
    have hne : id ≠ f x := fun he => hid x (hhas' hx) he.symm
    rw [if_neg hne]
    exact h.spare id n hn fun a ha => hid a (hhas' ha)

theorem counted (h : Matches f m' m) (hx : m'.Has x) :
    Matches f (m'.counted x) (m.counted (f x)) := by
  refine h.modify hx fun n' n htwin => ?_
  exact ⟨⟨htwin.attributes, htwin.operator, htwin.args⟩, htwin.ref, by simp [htwin.uses]⟩

theorem renamed (h : Matches f m' m) (hx : m'.Has x) (name : String) :
    Matches f (m'.renamed x name) (m.renamed (f x) name) := by
  refine h.modify hx fun n' n htwin => ?_
  have hattributes := htwin.attributes
  exact ⟨⟨by simp [hattributes], htwin.operator, htwin.args⟩, htwin.ref, htwin.uses⟩

/-- A node is numbered on both sides, or has its number already. -/
theorem materialize (h : Matches f m' m) (hx : m'.Has x) :
    Matches f (m'.materialize x) (m.materialize (f x)) := by
  obtain ⟨n', hn'⟩ := hx.exists_node
  obtain ⟨n, hn, htwin⟩ := h.node x n' hn'
  obtain ⟨hs', he'⟩ | ⟨hr', he'⟩ := materialize_cases (node?_eq_some.1 hn').2 <;>
    obtain ⟨hs, he⟩ | ⟨hr, he⟩ := materialize_cases (node?_eq_some.1 hn).2
  · rwa [he', he]
  · rw [← htwin.ref, hr] at hs'
    exact nomatch hs'
  · rw [htwin.ref, hr'] at hs
    exact nomatch hs
  · have hnumber : Matches f (m'.modify x.index fun n => { n with ref := some m'.refs.size })
        (m.modify (f x).index fun n => { n with ref := some m.refs.size }) := by
      refine h.modify hx fun n' n htwin => ?_
      refine ⟨⟨htwin.attributes, htwin.operator, htwin.args⟩, ?_, htwin.uses⟩
      simp [h.size_refs]
    rw [he', he]
    refine ⟨hnumber.node, hnumber.injective, hnumber.spare, h.name, ?_, h.topLevel, h.objective⟩
    simp [h.refs]

/-- A node is used on both sides. -/
theorem use (h : Matches f m' m) (hx : m'.Has x) : Matches f (m'.use x) (m.use (f x)) := by
  obtain ⟨n', hn'⟩ := hx.exists_node
  obtain ⟨n, hn, htwin⟩ := h.node x n' hn'
  have hc := h.counted hx
  have hx' : (m'.counted x).Has x := grows_counted.has hx
  obtain ⟨hu', he'⟩ | ⟨hu', he'⟩ := use_cases (node?_eq_some.1 hn').2 <;>
    obtain ⟨hu, he⟩ | ⟨hu, he⟩ := use_cases (node?_eq_some.1 hn).2
  · rwa [he', he]
  · have := htwin.uses
    omega
  · have := htwin.uses
    omega
  · rw [he', he]
    exact hc.materialize hx'

theorem uses_all {ids : List NodeId} (h : Matches f m' m) (hids : ∀ x ∈ ids, m'.Has x) :
    Matches f (ids.foldl Model.use m') ((ids.map f).foldl Model.use m) := by
  induction ids generalizing m' m with
  | nil => exact h
  | cons x ids ih =>
    refine ih (h.use (hids x List.mem_cons_self)) fun y hy => ?_
    exact grows_use.has (hids y (List.mem_cons_of_mem _ hy))

theorem addTopLevel (h : Matches f m' m) (hx : m'.Has x) :
    Matches f (m'.addTopLevel x) (m.addTopLevel (f x)) := by
  have htop : Matches f { m' with topLevel := m'.topLevel.push x }
      { m with topLevel := m.topLevel.push (f x) } :=
    ⟨h.node, h.injective, h.spare, h.name, h.refs, by simp [h.topLevel], h.objective⟩
  exact htop.use hx

theorem optimize (h : Matches f m' m) (hx : m'.Has x) (sense : Sense) :
    Matches f { m'.materialize x with objective := some ⟨sense, x⟩ }
      { m.materialize (f x) with objective := some ⟨sense, f x⟩ } := by
  have hm := h.materialize hx
  exact ⟨hm.node, hm.injective, hm.spare, hm.name, hm.refs, hm.topLevel, rfl⟩

/-- A node joins on both sides and uses its operands. -/
theorem extend (h : Matches f m' m) (hs : Sound m') (hops : ∀ x ∈ n'.operands, m'.Has x)
    (htwin : n'.Twin f n) :
    Matches (Function.update f (m'.idAt m'.nodes.size) (m.idAt m.nodes.size)) (m'.extend n')
      (m.extend n) := by
  have hpush := h.push hs hops htwin
  generalize hg : Function.update f (m'.idAt m'.nodes.size) (m.idAt m.nodes.size) = g at hpush ⊢
  have hnew : g (m'.idAt m'.nodes.size) = m.idAt m.nodes.size := by
    rw [← hg, Function.update_self]
  have hmap : n.operands = n'.operands.map g := by
    rw [htwin.toCopy.operands]
    refine List.map_congr_left fun x hx => ?_
    rw [← hg, Function.update_of_ne (ne_idAt_size (hops x hx))]
  have hused := hpush.uses_all fun x hx => grows_push.has (hops x hx)
  rw [← hmap] at hused
  have hhas : (n'.operands.foldl Model.use (m'.push n')).Has (m'.idAt m'.nodes.size) :=
    (grows_uses _).has ⟨rfl, by simp [idAt]⟩
  unfold Model.extend
  rw [htwin.operator, ← hnew]
  split <;> split
  · exact (hused.materialize hhas).addTopLevel (grows_materialize.has hhas)
  · exact hused.materialize hhas
  · exact hused.addTopLevel hhas
  · exact hused

end Matches

end Model

end Scheduling
