import Mathlib.Data.List.Perm.Basic
import Scheduling.Proofs.Eval.Soundness
import Scheduling.Proofs.Listing.Nodes

/-!
# Programs of listings

Carrying out the program of a model rebuilds the model, unless a name is lost (`Built.exists_state`,
`Built.rebuilt_iff`). The state after some statements mirrors what the nodes listed so far say
(`Mirrors`): each is bound to a node that says the same, at the same place. One step adds one node
to both sides (`exists_step`); the induction over the nodes, and then over the other members of the
list of constraints, carries it on.
-/

namespace Scheduling

open Listing

/-! ### Operators -/

namespace Operator

variable {op : Operator}

theorem isConstant_of_isVariable (h : op.isVariable) : op.isConstant = false := by
  cases op <;> first | rfl | exact nomatch h

theorem not_isConstraint (h : op.isConstant) : ¬ op.isConstraint := by
  obtain rfl | rfl | rfl := eq_of_isConstant h <;> decide

end Operator

namespace Model

variable {m m' m'' : Model} {x y : NodeId} {n n' : Node} {k : Nat}

/-! ### The nodes listed so far -/

/-- The nodes that a listing binds, among the first ones. -/
def boundBelow (m : Model) (k : Nat) : List NodeId := ((List.range k).map m.idAt).filter m.binds

theorem boundBelow_succ : m.boundBelow (k + 1) =
    m.boundBelow k ++ if m.binds (m.idAt k) then [m.idAt k] else [] := by
  rw [boundBelow, boundBelow, List.range_succ, List.map_append, List.filter_append]
  congr 1
  cases h : m.binds (m.idAt k) <;> simp [h]

theorem boundBelow_prefix (h : k ≤ m.nodes.size) : m.boundBelow k <+: m.boundIds := by
  obtain ⟨d, hd⟩ := Nat.exists_eq_add_of_le h
  rw [boundIds, ids, hd, List.range_add, List.map_append, List.filter_append]
  exact List.prefix_append ..

/-- Nodes at the same place, as far as nodes were listed, are peers. -/
theorem peers_of_below {j : Nat} (hk : k ≤ m.nodes.size) (hx : (m.boundBelow k)[j]? = some x)
    (hy : m'.boundIds[j]? = some y) : m.Peers m' x y := by
  obtain ⟨later, hlater⟩ := boundBelow_prefix hk
  refine ⟨j, ?_, hy⟩
  rw [← hlater, List.getElem?_append_left (List.getElem?_eq_some_iff.1 hx).1, hx]

theorem mem_boundBelow (hn : m.node? x = some n) (hc : n.operator.isConstant = false)
    (hlt : x.index < k) : x ∈ m.boundBelow k := by
  refine List.mem_filter.2 ⟨List.mem_map.2 ⟨x.index, List.mem_range.2 hlt, ?_⟩, ?_⟩
  · exact (has_of_node? hn).eq_idAt.symm
  · simp [binds, hn, hc]

/-! ### Constants without names -/

/-- No constant has a name. -/
def Unnamed (m : Model) : Prop := ∀ n ∈ m.nodes, n.operator.isConstant → n.name = none

namespace Unnamed

theorem push (h : m.Unnamed) (hn : n.operator.isConstant → n.name = none) :
    (m.push n).Unnamed := by
  intro n₁ hn₁
  obtain hn₁ | rfl := Array.mem_push.1 hn₁
  · exact h n₁ hn₁
  · exact hn

theorem grow (h : m.Unnamed) (hg : Grows m m') (hs : m'.nodes.size = m.nodes.size) :
    m'.Unnamed := by
  intro n' hn'
  obtain ⟨i, hi⟩ := Array.mem_iff_getElem?.1 hn'
  obtain ⟨n, hn, hb⟩ := hg.node_back hs hi
  obtain ⟨hattributes, hop, -⟩ := Node.bare_eq_iff.1 hb
  rw [hop, hattributes]
  exact h n (Array.mem_of_getElem? hn)

theorem prepared (h : m.Unnamed) (hp : Prepared m m') : m'.Unnamed := by
  induction hp with
  | refl => exact h
  | push l _ _ _ ih => exact ih.push fun _ => by cases l <;> rfl

theorem renamed (h : m.Unnamed) (hn : m.node? y = some n) (hc : n.operator.isConstant = false)
    (name : String) : (m.renamed y name).Unnamed := by
  intro n' hn' hc'
  obtain ⟨i, hi⟩ := Array.mem_iff_getElem?.1 hn'
  rw [getElem?_renamed] at hi
  obtain ⟨n₁, hn₁, rfl⟩ := Option.map_eq_some_iff.1 hi
  split at hc'
  · next hyi =>
    obtain rfl := Option.some.inj ((hyi ▸ (node?_eq_some.1 hn).2).symm.trans hn₁)
    exact nomatch hc.symm.trans hc'
  · next hyi =>
    rw [if_neg hyi]
    exact h n₁ (Array.mem_of_getElem? hn₁) hc'

end Unnamed

/-! ### A node that joins -/

/-- A model has a new node, and constants before it; the rest is as it was. -/
structure Gains (m m' : Model) (y : NodeId) (n : Node) : Prop where
  grows : Grows m m'
  fresh : m.nodes.size ≤ y.index
  boundIds : m'.boundIds = m.boundIds ++ [y]
  name : m'.name = m.name
  objective : m'.objective = m.objective
  topLevel : m'.topLevel.toList =
    m.topLevel.toList ++ if n.operator.isConstraint then [y] else []
  node : ∃ n', m'.node? y = some n' ∧ n'.bare = n.bare
  unnamed : m.Unnamed → m'.Unnamed

theorem gains_extend (hp : Prepared m m') (hc : n.operator.isConstant = false) :
    Gains m (m'.extend n) (m'.idAt m'.nodes.size) n := by
  obtain ⟨htag, hname, hobj, hsize, htop⟩ := extend_frame (m := m') (n := n)
  have hg : Grows (m'.push n) (m'.extend n) := grows_extend
  refine ⟨(hp.grows.trans grows_push).trans hg, hp.grows.size_le, ?_, hname.trans hp.name,
    hobj.trans hp.objective, ?_, ?_, fun hu => ?_⟩
  · rw [hg.keeps.boundIds_eq (by rw [hsize, size_push]), boundIds_push, hc, hp.boundIds]
    rfl
  · rw [htop, ← hp.topLevel]
    split <;> simp
  · obtain ⟨n', hn', hb, -⟩ := hg.node (i := m'.nodes.size) (n := n)
      (by rw [getElem?_push, if_pos rfl])
    exact ⟨n', node?_eq_some.2 ⟨htag.symm, hn'⟩, hb⟩
  · refine ((hu.prepared hp).push fun hc' => ?_).grow hg (by rw [hsize, size_push])
    exact nomatch hc.symm.trans hc'

/-- The new node is named. -/
theorem Gains.named (h : Gains m m' y n) (hc : n.operator.isConstant = false) (name : String) :
    Gains m ((m'.renamed y name).materialize y) y { n with name := some name } := by
  have hg : Grows (m'.renamed y name) ((m'.renamed y name).materialize y) := grows_materialize
  have hk : Keeps m' (m'.renamed y name) := keeps_renamed name
  have hold : Grows m (m'.renamed y name) := by
    refine ⟨h.grows.tag, fun {i n₀} hn₀ => ?_⟩
    obtain ⟨n₁, hn₁, hrest⟩ := h.grows.node hn₀
    have hne : y.index ≠ i := by
      have := h.fresh
      have := lt_size_of_getElem? hn₀
      omega
    refine ⟨n₁, ?_, hrest⟩
    rw [getElem?_renamed, hn₁, Option.map_some, if_neg hne]
  obtain ⟨n₁, hn₁, hb₁⟩ := h.node
  refine ⟨hold.trans hg, h.fresh, ?_, ?_, ?_, ?_, ?_, fun hu => ?_⟩
  · rw [hg.keeps.boundIds_eq size_materialize, hk.boundIds_eq (size_modify _), h.boundIds]
  · exact materialize_name.trans h.name
  · exact materialize_objective.trans h.objective
  · rw [materialize_topLevel]
    exact h.topLevel
  · obtain ⟨ht, hi⟩ := node?_eq_some.1 hn₁
    obtain ⟨n₂, hn₂, hb₂, -⟩ := hg.node (i := y.index) (n := { n₁ with name := some name })
      (by rw [getElem?_renamed, hi, Option.map_some, if_pos rfl])
    refine ⟨n₂, node?_eq_some.2 ⟨ht.trans (hold.tag.trans h.grows.tag.symm ▸ hg.tag.symm), hn₂⟩, ?_⟩
    rw [hb₂]
    exact (congrArg (fun n : Node => { n with name := some name }) hb₁ :)
  · have hc₁ : n₁.operator.isConstant = false := by rw [Node.operator_eq_of_bare hb₁, hc]
    exact ((h.unnamed hu).renamed hn₁ hc₁ name).grow hg size_materialize

end Model

/-- Floats of constants are finite. -/
theorem Model.Built.finite_of_literal {m : Model} {asked : NodeId → Prop} {sent : List NodeId}
    (h : m.Built asked sent) {x : NodeId} {v : Float} (hx : m.literal? x = some (.float v)) :
    v.isFinite := by
  obtain ⟨n, hn, hl⟩ := Model.literal?_eq_some.1 hx
  obtain ⟨hop, hargs⟩ := of_literal? hl
  have ht := (h.formed _ n (Model.node?_eq_some.1 hn).2).args
  rw [hop] at ht
  obtain ⟨a, ha, hta⟩ := ht.single rfl rfl
  rw [ha] at hargs
  obtain rfl := Option.some.inj hargs
  exact hta

namespace Listing

open Model Building

variable {m : Model} {asked : NodeId → Prop} {sent : List NodeId} {σ : State} {x y : NodeId}
  {n n' : Node} {k : Nat} {top : List NodeId} {goal : Option Objective}

/-! ### Mirrors -/

/-- A node that was listed is bound to a node that says the same. -/
def Pairs (m : Model) (k : Nat) (σ : State) (x y : NodeId) : Prop :=
  x.index < k ∧ ∃ n n', m.node? x = some n ∧ σ.model.node? y = some n' ∧
    σ.scope x.index = some ⟨.of n.operator, y⟩ ∧ m.SameNode σ.model n n'

/-- The state after the first nodes, some members of the list of constraints and some objective were
listed. -/
structure Mirrors (m : Model) (k : Nat) (top : List NodeId) (goal : Option Objective) (σ : State) :
    Prop where
  name : σ.model.name = m.name
  nodes : List.Forall₂ (Pairs m k σ) (m.boundBelow k) σ.model.boundIds
  topLevel : List.Forall₂ (fun x y => m.SameItem σ.model (.node x) (.node y)) top
    σ.model.topLevel.toList
  objective : m.SameObjective σ.model goal σ.model.objective
  unnamed : σ.model.Unnamed

theorem mirrors_start (m : Model) (tag : Nat) :
    Mirrors m 0 [] none ⟨.empty, .empty tag m.name⟩ :=
  ⟨rfl, .nil, .nil, trivial, fun _ hn => (Array.not_mem_empty _ hn).elim⟩

/-- What was listed stays bound while the model grows and further names are bound. -/
theorem Pairs.later {σ' : State} {k' : Nat} (h : Pairs m k σ x y) (hk : k ≤ k')
    (hscope : ∀ i < k, σ'.scope i = σ.scope i) (hg : Grows σ.model σ'.model) :
    Pairs m k' σ' x y := by
  obtain ⟨hlt, n, n', hn, hn', hbound, hs⟩ := h
  obtain ⟨n'', hn'', hb, -⟩ := hg.node? hn'
  exact ⟨Nat.lt_of_lt_of_le hlt hk, n, n'', hn, hn'', by rw [hscope _ hlt]; exact hbound,
    hg.keeps.sameNode hs hb⟩

/-- A node that was listed can be used. -/
theorem Mirrors.offers (h : Mirrors m k top goal σ) (hm : Built m asked sent)
    (hk : k ≤ m.nodes.size) (hx : m.Has x) (hlt : x.index < k) :
    Offers m σ.model σ.scope x := by
  obtain ⟨n, hn⟩ := hx.exists_node
  obtain ⟨l, hl, -⟩ | hc := hm.literal?_cases hn
  · exact offers_literal hl
  obtain ⟨j, hj, hget⟩ := List.getElem_of_mem (mem_boundBelow hn hc hlt)
  have hj' : j < σ.model.boundIds.length := h.nodes.length_eq ▸ hj
  obtain ⟨-, n₁, n', hn₁, hn', hbound, hs⟩ := (List.forall₂_iff_get.1 h.nodes).2 j hj hj'
  simp only [List.get_eq_getElem, hget] at hn₁ hbound
  obtain rfl := Option.some.inj (hn.symm.trans hn₁)
  have hpeers := peers_of_below hk (List.getElem?_eq_some_iff.2 ⟨hj, hget⟩)
    (List.getElem?_eq_getElem hj')
  refine ⟨_, ?_, .handle hn hc hn' hs hpeers⟩
  rw [use_of_bound hn hc, Term.operand?, hbound]
  rfl

/-- The operands of the node that is listed next were listed before. -/
theorem Mirrors.offers_operands (h : Mirrors m k top goal σ) (hm : Built m asked sent)
    (hn : m.nodes[k]? = some n) : ∀ x ∈ n.operands, Offers m σ.model σ.scope x := fun x hx =>
  h.offers hm (Nat.le_of_lt (lt_size_of_getElem? hn)) (hm.occurrence_has hn hx)
    (hm.counted.operand hn x hx).2

/-- What joins on both sides has the same place. -/
theorem Mirrors.peers {m'' : Model} (h : Mirrors m k top goal σ) (hn : m.nodes[k]? = some n)
    (hc : n.operator.isConstant = false) (hg : Gains σ.model m'' y n') :
    m.Peers m'' (m.idAt k) y := by
  have hid : m.node? (m.idAt k) = some n := node?_idAt.trans hn
  refine peers_of_below (lt_size_of_getElem? hn) (j := (m.boundBelow k).length) ?_ ?_
  · rw [boundBelow_succ, if_pos (by simp [binds, hid, hc]), List.getElem?_concat_length]
  · rw [hg.boundIds, h.nodes.length_eq, List.getElem?_concat_length]

/-- A node joins on both sides. -/
theorem Mirrors.gain {m'' : Model} (h : Mirrors m k top goal σ) (hn : m.nodes[k]? = some n)
    (hc : n.operator.isConstant = false) (hg : Gains σ.model m'' y n') (hs : m.SameNode m'' n n') :
    Mirrors m (k + 1) (top ++ if n.operator.isConstraint then [m.idAt k] else []) goal
      ⟨σ.scope.bind (m.idAt k) ⟨.of n.operator, y⟩, m''⟩ := by
  have hid : m.node? (m.idAt k) = some n := node?_idAt.trans hn
  have hscope (i : Nat) (hi : i < k) :
      (σ.scope.bind (m.idAt k) ⟨.of n.operator, y⟩) i = σ.scope i :=
    if_neg (Nat.ne_of_lt hi)
  obtain ⟨n'', hn'', hb⟩ := hg.node
  have hnew : Pairs m (k + 1) ⟨σ.scope.bind (m.idAt k) ⟨.of n.operator, y⟩, m''⟩ (m.idAt k) y :=
    ⟨Nat.lt_succ_self k, n, n'', hid, hn'', if_pos rfl, (Keeps.refl m'').sameNode hs hb⟩
  have hnodes : List.Forall₂ (Pairs m (k + 1) ⟨σ.scope.bind (m.idAt k) ⟨.of n.operator, y⟩, m''⟩)
      (m.boundBelow k ++ [m.idAt k]) (σ.model.boundIds ++ [y]) :=
    List.rel_append (h.nodes.imp fun _ _ hp => hp.later (Nat.le_succ k) hscope hg.grows)
      (.cons hnew .nil)
  have hbelow : m.boundBelow (k + 1) = m.boundBelow k ++ [m.idAt k] := by
    rw [boundBelow_succ, if_pos (by simp [binds, hid, hc])]
  have hpeers := h.peers hn hc hg
  refine ⟨hg.name.trans h.name, ?_, ?_, ?_, hg.unnamed h.unnamed⟩
  · rw [hbelow, hg.boundIds]
    exact hnodes
  · rw [hg.topLevel, hs.operator]
    refine List.rel_append (h.topLevel.imp fun _ _ => hg.grows.keeps.sameItem) ?_
    split
    · exact .cons (.inr ⟨m.idAt k, y, rfl, rfl, hpeers⟩) .nil
    · exact .nil
  · rw [hg.objective]
    exact hg.grows.keeps.sameObjective h.objective

/-- Constants join, and nodes change that are there. -/
theorem Mirrors.later {m' m'' : Model} {top' : List NodeId} {goal' : Option Objective}
    (h : Mirrors m k top goal σ) (hp : Prepared σ.model m') (hg : Grows m' m'')
    (hs : m''.nodes.size = m'.nodes.size) (hname : m''.name = m'.name)
    (htop : List.Forall₂ (fun x y => m.SameItem m'' (.node x) (.node y)) top' m''.topLevel.toList)
    (hgoal : m.SameObjective m'' goal' m''.objective) :
    Mirrors m k top' goal' ⟨σ.scope, m''⟩ := by
  refine ⟨(hname.trans hp.name).trans h.name, ?_, htop, hgoal, (h.unnamed.prepared hp).grow hg hs⟩
  show List.Forall₂ _ _ m''.boundIds
  rw [hg.keeps.boundIds_eq hs, hp.boundIds]
  exact h.nodes.imp fun _ _ hpairs =>
    hpairs.later (Nat.le_refl k) (fun _ _ => rfl) (hp.grows.trans hg)

/-! ### One statement after the other -/

theorem define_of_builds {c : Call} {P : Model → Node → Prop}
    (h : Builds c.run σ.model P) (x : NodeId) (type : HandleType) :
    ∃ m' n', Prepared σ.model m' ∧ P m' n' ∧
      σ.define x type c = some ⟨σ.scope.bind x ⟨type, m'.idAt m'.nodes.size⟩, m'.extend n'⟩ := by
  obtain ⟨m', n', hp, he, hP⟩ := h
  have he : σ.model.call c = (.ok (some (m'.idAt m'.nodes.size)), m'.extend n') := he
  refine ⟨m', n', hp, hP, ?_⟩
  rw [State.define, he]

theorem type_variableHead (m : Model) (hv : n.operator.isVariable) :
    (variableHead m n).type = .of n.operator := by
  obtain ⟨attributes, op, args, ref, uses⟩ := n
  cases op <;> first | rfl | exact nomatch hv

theorem keeps_extend {m m' : Model} (hp : Prepared m m') : Keeps m (m'.extend n) :=
  ((hp.grows.trans grows_push).trans grows_extend).keeps

theorem execute_nameNode {type : HandleType} (hx : σ.scope x.index = some ⟨type, y⟩)
    (hn : σ.model.node? y = some n) (name : String) :
    (Statement.nameNode x name).execute σ =
      some { σ with model := (σ.model.renamed y name).materialize y } := by
  have hcall : σ.model.call (.nameNode y name) =
      (.ok none, (σ.model.renamed y name).materialize y) := by
    have hnamed : nameNode y name σ.model = (.ok ⟨⟩, (σ.model.renamed y name).materialize y) :=
      bind_ok (node_ok hn)
    show (nameNode y name >>= fun _ => pure none : Building (Option NodeId)) σ.model = _
    rw [bind_ok hnamed]
    rfl
  show (σ.scope x.index).bind (fun h => σ.perform (.nameNode h.id name)) = _
  rw [hx, Option.bind_some, State.perform, hcall]

section Steps

variable (hn : m.nodes[k]? = some n) (h : Mirrors m k top goal σ)

include hn h

/-- Constants are not listed. -/
theorem mirrors_constant (hc : n.operator.isConstant) : Mirrors m (k + 1) top goal σ := by
  have hbelow : m.boundBelow (k + 1) = m.boundBelow k := by
    have hid : m.node? (m.idAt k) = some n := node?_idAt.trans hn
    rw [boundBelow_succ, if_neg (by simp [binds, hid, hc]), List.append_nil]
  refine ⟨h.name, ?_, h.topLevel, h.objective, h.unnamed⟩
  rw [hbelow]
  exact h.nodes.imp fun _ _ hp => hp.later (Nat.le_succ k) (fun _ _ => rfl) (.refl _)

variable (hf : m.Formed n) (ho : ∀ x ∈ n.operands, Offers m σ.model σ.scope x)

include hf ho

theorem exists_declared (hv : n.operator.isVariable) :
    ∃ σ', (Statement.declare (m.idAt k) (variableHead m n) n.presence n.name).execute σ = some σ' ∧
      Mirrors m (k + 1) (top ++ if n.operator.isConstraint then [m.idAt k] else []) goal σ' := by
  have hc := Operator.isConstant_of_isVariable hv
  obtain ⟨c, hcall, hbuilds⟩ := exists_variableCall hf hv ho
  obtain ⟨m', n', hp, hs, hdefine⟩ := define_of_builds hbuilds (m.idAt k) (.of n.operator)
  have hgains := gains_extend hp (hs.operator ▸ hc)
  refine ⟨_, ?_, h.gain hn hc hgains ((keeps_extend (.refl)).sameNode hs rfl)⟩
  show ((variableHead m n).call? σ.scope n.presence n.name).bind (fun c =>
    σ.define (m.idAt k) (variableHead m n).type c) = _
  rw [hcall, Option.bind_some, type_variableHead m hv, hdefine]

theorem exists_defined (hw : m.Writable n) (hm : Built m asked sent)
    (hc : n.operator.isConstant = false) (hv : n.operator.isVariable = false) :
    ∃ σ', (Statement.define (m.idAt k) n.operator (arguments m n) ::
        (n.name.map (Statement.nameNode (m.idAt k))).toList).foldlM Statement.execute σ = some σ' ∧
      Mirrors m (k + 1) (top ++ if n.operator.isConstraint then [m.idAt k] else []) goal σ' := by
  obtain ⟨c, hcall, hbuilds⟩ := callable_node hf hw ho (fun _ _ => hm.finite_of_literal) hc hv
  obtain ⟨m', n', hp, hlike, hdefine⟩ := define_of_builds hbuilds (m.idAt k) (.of n.operator)
  have hs := (keeps_extend (n := n') .refl).sameNode (sameNode_of_like hf hv hlike) rfl
  have hgains := gains_extend hp (hs.operator ▸ hc)
  have hexecute : (Statement.define (m.idAt k) n.operator (arguments m n)).execute σ =
      some ⟨σ.scope.bind (m.idAt k) ⟨.of n.operator, m'.idAt m'.nodes.size⟩, m'.extend n'⟩ := by
    show (call? σ.scope n.operator (arguments m n)).bind (fun c =>
      σ.define (m.idAt k) (.of n.operator) c) = _
    rw [hcall, Option.bind_some, hdefine]
  rw [List.foldlM_cons, hexecute]
  cases hname : n.name with
  | none =>
    refine ⟨_, rfl, h.gain hn hc hgains ⟨?_, hs.operator, hs.args⟩⟩
    rw [hs.attributes, ← hname]
  | some name =>
    obtain ⟨n₁, hn₁, -⟩ := hgains.node
    refine ⟨⟨σ.scope.bind (m.idAt k) ⟨.of n.operator, m'.idAt m'.nodes.size⟩, _⟩, ?_,
      h.gain hn hc (hgains.named (hs.operator ▸ hc) name) ⟨?_, hs.operator, ?_⟩⟩
    · show (Statement.nameNode (m.idAt k) name).execute _ >>= _ = _
      rw [execute_nameNode (if_pos rfl) hn₁]
      rfl
    · show { n'.toAttributes with name := some name } = n.toAttributes
      rw [hs.attributes, ← hname]
    · exact hs.args.imp fun _ _ => ((keeps_renamed name).trans grows_materialize.keeps).sameArg

end Steps

/-- A node that is listed next is one more constraint if it is one. -/
theorem filter_boundBelow_succ (hn : m.nodes[k]? = some n) :
    (m.boundBelow (k + 1)).filter m.constrains =
      (m.boundBelow k).filter m.constrains ++
        if n.operator.isConstraint then [m.idAt k] else [] := by
  have hid : m.node? (m.idAt k) = some n := node?_idAt.trans hn
  have hconstrains : m.constrains (m.idAt k) = n.operator.isConstraint := by
    simp [constrains, hid]
  rw [boundBelow_succ, List.filter_append]
  congr 1
  by_cases hc : n.operator.isConstant
  · rw [if_neg (by simp [binds, hid, hc]), if_neg (Operator.not_isConstraint hc), List.filter_nil]
  · rw [if_pos (by simp [binds, hid, hc]), List.filter_cons, hconstrains]
    rfl

/-- The statements of the first nodes. -/
def statementsBelow (m : Model) (k : Nat) : List Statement :=
  ((List.range k).map m.idAt).flatMap fun id => ((m.node? id).map (nodeStatements m id)).getD []

theorem statementsBelow_succ (hn : m.nodes[k]? = some n) :
    statementsBelow m (k + 1) = statementsBelow m k ++ nodeStatements m (m.idAt k) n := by
  have hid : m.node? (m.idAt k) = some n := node?_idAt.trans hn
  rw [statementsBelow, List.range_succ, List.map_append, List.flatMap_append]
  simp [statementsBelow, hid]

theorem statementsBelow_prefix (hk : k ≤ m.nodes.size) :
    statementsBelow m k <+: m.program.statements := by
  obtain ⟨d, hd⟩ := Nat.exists_eq_add_of_le hk
  rw [program, ids, hd, List.range_add, List.map_append, List.flatMap_append, List.append_assoc,
    List.append_assoc]
  exact List.prefix_append ..

/-- A run of two lists of statements is a run of the one and then of the other. -/
theorem run_append {ss ss' : List Statement} {σ' : State} :
    (ss ++ ss').foldlM Statement.execute σ = some σ' ↔
      ∃ σ₁, ss.foldlM Statement.execute σ = some σ₁ ∧
        ss'.foldlM Statement.execute σ₁ = some σ' := by
  rw [List.foldlM_append]
  exact Option.bind_eq_some_iff

section Run

variable (hm : Built m asked sent)

include hm

/-- The statements of a node add it on the other side, unless it is a constant. -/
theorem exists_step (hw : m.Writable n) (hn : m.nodes[k]? = some n) (h : Mirrors m k top goal σ) :
    ∃ σ', (nodeStatements m (m.idAt k) n).foldlM Statement.execute σ = some σ' ∧
      Mirrors m (k + 1) (top ++ if n.operator.isConstraint then [m.idAt k] else []) goal σ' := by
  have hf := hm.formed k n hn
  have ho := h.offers_operands hm hn
  rw [nodeStatements]
  by_cases hc : n.operator.isConstant
  · rw [if_pos hc, if_neg (Operator.not_isConstraint hc), List.append_nil]
    exact ⟨σ, rfl, mirrors_constant hn h hc⟩
  rw [if_neg hc]
  by_cases hv : n.operator.isVariable
  · obtain ⟨σ', he, hσ'⟩ := exists_declared hn h hf ho hv
    rw [if_pos hv]
    exact ⟨σ', by rw [List.foldlM_cons, he]; rfl, hσ'⟩
  · rw [if_neg hv]
    exact exists_defined hn h hf ho hw hm (by simpa using hc) (by simpa using hv)

/-- The statements of the nodes can be carried out. -/
theorem exists_nodes (hw : ∀ i < k, ∀ n, m.nodes[i]? = some n → m.Writable n) (tag : Nat)
    (hk : k ≤ m.nodes.size) :
    ∃ σ, (statementsBelow m k).foldlM Statement.execute ⟨.empty, .empty tag m.name⟩ = some σ ∧
      Mirrors m k ((m.boundBelow k).filter m.constrains) none σ := by
  induction k with
  | zero => exact ⟨_, rfl, mirrors_start m tag⟩
  | succ k ih =>
    obtain ⟨σ, he, hσ⟩ := ih (fun i hi => hw i (Nat.lt_succ_of_lt hi)) (Nat.le_of_lt hk)
    obtain ⟨n, hn⟩ : ∃ n, m.nodes[k]? = some n := ⟨_, Array.getElem?_eq_getElem hk⟩
    obtain ⟨σ', he', hσ'⟩ := exists_step hm (hw k (Nat.lt_succ_self k) n hn) hn hσ
    refine ⟨σ', ?_, ?_⟩
    · rw [statementsBelow_succ hn, run_append]
      exact ⟨σ, he, he'⟩
    · rw [filter_boundBelow_succ hn]
      exact hσ'

/-- An expression that is no constraint joins the list of constraints on the other side. -/
theorem exists_posted (hx : m.Is .boolean x) (h : Mirrors m m.nodes.size top goal σ) :
    ∃ σ', (Statement.constraint (use m x)).execute σ = some σ' ∧
      Mirrors m m.nodes.size (top ++ [x]) goal σ' := by
  obtain ⟨o, ho, hs⟩ := h.offers hm (Nat.le_refl _) hx.has hx.has.2
  obtain ⟨c, hc, hfor⟩ := hs.bool hx
  obtain ⟨y, m', hp, he, hsame⟩ := Succeeds.boolOperand hfor
  have hcall : σ.model.call (.constraint c) = (.ok none, m'.addTopLevel y) := by
    have hposted : Building.constraint c σ.model = (.ok ⟨⟩, m'.addTopLevel y) := bind_ok he
    show (Building.constraint c >>= fun _ => pure none : Building (Option NodeId)) σ.model = _
    rw [bind_ok hposted]
    rfl
  obtain ⟨-, hname, htop, hobj, hsize⟩ := use_frame { m' with topLevel := m'.topLevel.push y } y
  have htop' : (m'.addTopLevel y).topLevel.toList = σ.model.topLevel.toList ++ [y] := by
    rw [addTopLevel, htop, Array.toList_push, hp.topLevel]
  have hobj' : (m'.addTopLevel y).objective = σ.model.objective := hobj.trans hp.objective
  have hg : Grows m' (m'.addTopLevel y) := grows_addTopLevel
  have hgrows := hp.grows.trans hg
  refine ⟨⟨σ.scope, m'.addTopLevel y⟩, ?_, h.later hp hg hsize hname ?_ ?_⟩
  · show ((use m x).operand? σ.scope |>.bind Operand.bool?).bind
      (fun c => σ.perform (.constraint c)) = _
    rw [ho, Option.bind_some, hc, Option.bind_some, State.perform, hcall]
  · rw [htop']
    exact List.rel_append (h.topLevel.imp fun _ _ => hgrows.keeps.sameItem)
      (.cons (hg.keeps.sameItem hsame) .nil)
  · rw [hobj']
    exact hgrows.keeps.sameObjective h.objective

theorem exists_postedAll {xs : List NodeId} (hxs : ∀ x ∈ xs, m.Is .boolean x)
    (h : Mirrors m m.nodes.size top goal σ) :
    ∃ σ', (xs.map fun x => Statement.constraint (use m x)).foldlM Statement.execute σ = some σ' ∧
      Mirrors m m.nodes.size (top ++ xs) goal σ' := by
  induction xs generalizing top σ with
  | nil => exact ⟨σ, rfl, by rwa [List.append_nil]⟩
  | cons x xs ih =>
    obtain ⟨hx, hxs⟩ := List.forall_mem_cons.1 hxs
    obtain ⟨σ₁, he₁, h₁⟩ := exists_posted hm hx h
    obtain ⟨σ₂, he₂, h₂⟩ := ih hxs h₁
    refine ⟨σ₂, ?_, ?_⟩
    · rw [List.map_cons, List.foldlM_cons, he₁]
      exact he₂
    · rwa [List.append_assoc, List.singleton_append] at h₂

/-- The objective is set on the other side. -/
theorem exists_optimized {o : Objective} (hx : m.Is .numeric o.expr)
    (hb : ∀ b, m.literal? o.expr ≠ some (.bool b)) (h : Mirrors m m.nodes.size top goal σ) :
    ∃ σ', (Statement.optimize o.sense (use m o.expr)).execute σ = some σ' ∧
      Mirrors m m.nodes.size top (some o) σ' := by
  obtain ⟨c, hc, hs⟩ := h.offers hm (Nat.le_refl _) hx.has hx.has.2
  obtain ⟨d, hd, hfor⟩ := hs.float hx hb fun _ => hm.finite_of_literal
  obtain ⟨y, m', hp, he, hsame⟩ := Succeeds.floatOperand hfor
  let m'' : Model := { m'.materialize y with objective := some ⟨o.sense, y⟩ }
  have hcall : σ.model.call (.optimize o.sense d) = (.ok none, m'') := by
    have hset : Building.optimize o.sense d σ.model = (.ok ⟨⟩, m'') := bind_ok he
    show (Building.optimize o.sense d >>= fun _ => pure none : Building (Option NodeId)) σ.model = _
    rw [bind_ok hset]
    rfl
  have hg : Grows m' m'' := ⟨grows_materialize.tag, grows_materialize.node⟩
  have hgrows := hp.grows.trans hg
  refine ⟨⟨σ.scope, m''⟩, ?_, h.later hp hg size_materialize materialize_name ?_ ?_⟩
  · show ((use m o.expr).operand? σ.scope |>.bind Operand.float?).bind
      (fun c => σ.perform (.optimize o.sense c)) = _
    rw [hc, Option.bind_some, hd, Option.bind_some, State.perform, hcall]
  · have htop : m''.topLevel = σ.model.topLevel := materialize_topLevel.trans hp.topLevel
    rw [htop]
    exact h.topLevel.imp fun _ _ => hgrows.keeps.sameItem
  · exact ⟨rfl, hg.keeps.sameItem hsame⟩

end Run

end Listing

/-! ### Programs -/

namespace Model

variable {m : Model}

/-- A listing can write all of the model. -/
structure Listable (m : Model) : Prop where
  nodes : ∀ n ∈ m.nodes, m.Writable n
  /-- A constant is not bound, so that its name is lost unless another node has it as well. -/
  names : ∀ n ∈ m.nodes, n.name.isSome →
    ∃ n' ∈ m.nodes, n'.operator.isConstant = false ∧ n'.name = n.name
  /-- A truth value that is optimized is written as `true` or `false`, which is no number. -/
  objective : ∀ o : Objective, m.objective = some o → ∀ b, m.literal? o.expr ≠ some (.bool b)

instance (m : Model) : Decidable m.Listable :=
  decidable_of_iff ((∀ n ∈ m.nodes, m.Writable n) ∧
      (∀ n ∈ m.nodes, n.name.isSome →
        ∃ n' ∈ m.nodes, n'.operator.isConstant = false ∧ n'.name = n.name) ∧
      ∀ o ∈ m.objective, ∀ b, m.literal? o.expr ≠ some (.bool b))
    ⟨fun h => ⟨h.1, h.2.1, h.2.2⟩, fun h => ⟨h.nodes, h.names, h.objective⟩⟩

/-- Constraints are no constants. -/
theorem filter_boundIds : m.boundIds.filter m.constrains = m.ids.filter m.constrains := by
  rw [boundIds, List.filter_filter]
  refine List.filter_congr fun x _ => ?_
  cases hn : m.node? x with
  | none => simp [constrains, hn]
  | some n =>
    by_cases hc : n.operator.isConstant
    · simp [constrains, hn, Operator.not_isConstraint hc]
    · simp [constrains, binds, hn, hc]

theorem flatMap_topLevelStatements (xs : List NodeId) :
    xs.flatMap (Listing.topLevelStatements m) =
      (xs.filter fun id => !m.constrains id).map fun x => .constraint (Listing.use m x) := by
  induction xs with
  | nil => rfl
  | cons x xs ih =>
    rw [List.flatMap_cons, ih, List.filter_cons, Listing.topLevelStatements, ← constrains]
    cases m.constrains x <;> rfl

/-- What was built stands in the list of constraints, constraints first. -/
theorem Built.topLevel_perm {asked : NodeId → Prop} {sent : List NodeId} (h : Built m asked sent) :
    m.topLevel.toList.Perm (m.boundIds.filter m.constrains ++ sent) := by
  rw [filter_boundIds, ← h.constraints, ← h.others]
  exact (List.filter_append_perm m.constrains _).symm

/-- The statements of a listing: those of the nodes, of the other members of the list of
constraints, and of the objective. -/
theorem Built.statements_eq {asked : NodeId → Prop} {sent : List NodeId} (h : Built m asked sent) :
    m.program.statements = Listing.statementsBelow m m.nodes.size ++
      (sent.map (fun x => .constraint (Listing.use m x)) ++
        (m.objective.map fun o => .optimize o.sense (Listing.use m o.expr)).toList) := by
  rw [program, flatMap_topLevelStatements, h.others, List.append_assoc]
  rfl

/-- The statements can be carried out one after the other. -/
theorem Built.exists_state {asked : NodeId → Prop} {sent : List NodeId} (h : Built m asked sent)
    (hobjective : m.Numeric) (hw : ∀ n ∈ m.nodes, m.Writable n)
    (hb : ∀ o : Objective, m.objective = some o → ∀ b, m.literal? o.expr ≠ some (.bool b))
    (tag : Nat) :
    ∃ σ, m.program.statements.foldlM Listing.Statement.execute
        ⟨.empty, .empty tag m.name⟩ = some σ ∧
      Listing.Mirrors m m.nodes.size (m.boundIds.filter m.constrains ++ sent) m.objective σ := by
  obtain ⟨σ₁, he₁, h₁⟩ := Listing.exists_nodes h
    (fun _ _ n hn => hw n (Array.mem_of_getElem? hn)) tag (Nat.le_refl _)
  obtain ⟨σ₂, he₂, h₂⟩ := Listing.exists_postedAll h h.truth h₁
  rw [h.statements_eq]
  cases ho : m.objective with
  | none => exact ⟨σ₂, Listing.run_append.2 ⟨σ₁, he₁, Listing.run_append.2 ⟨σ₂, he₂, rfl⟩⟩, h₂⟩
  | some o =>
    obtain ⟨σ₃, he₃, h₃⟩ := Listing.exists_optimized h (hobjective o ho) (hb o ho) h₂
    refine ⟨σ₃, Listing.run_append.2 ⟨σ₁, he₁, Listing.run_append.2 ⟨σ₂, he₂, ?_⟩⟩, h₃⟩
    rw [Option.map_some, Option.toList_some, List.foldlM_cons, he₃]
    rfl

section Mirrored

variable {asked : NodeId → Prop} {sent : List NodeId} {σ : Listing.State}
  (hσ : Listing.Mirrors m m.nodes.size (m.boundIds.filter m.constrains ++ sent) m.objective σ)

include hσ

theorem forall₂_boundIds : List.Forall₂ (fun x y => ∃ n n', m.node? x = some n ∧
    σ.model.node? y = some n' ∧ m.SameNode σ.model n n') m.boundIds σ.model.boundIds :=
  hσ.nodes.imp fun _ _ ⟨_, n, n', hn, hn', _, hs⟩ => ⟨n, n', hn, hn', hs⟩

/-- A name that the mirror has is that of a node that is no constant, and the other way round. -/
theorem exists_named_iff (name : String) : (∃ n' ∈ σ.model.nodes, n'.name = some name) ↔
    ∃ n ∈ m.nodes, n.operator.isConstant = false ∧ n.name = some name := by
  constructor
  · rintro ⟨n', hn', hname⟩
    obtain ⟨i, hi⟩ := Array.mem_iff_getElem?.1 hn'
    have hid : σ.model.node? (σ.model.idAt i) = some n' := node?_idAt.trans hi
    have hc : n'.operator.isConstant = false := by
      by_contra hc
      rw [hσ.unnamed n' hn' (by simpa using hc)] at hname
      exact nomatch hname
    have hmem : σ.model.idAt i ∈ σ.model.boundIds := mem_boundIds.2 ⟨n', hid, hc⟩
    obtain ⟨x, -, n, n₁, hn, hn₁, hs⟩ := exists_of_forall₂ (forall₂_boundIds hσ) hmem
    obtain rfl := Option.some.inj (hid.symm.trans hn₁)
    refine ⟨n, Array.mem_of_getElem? (node?_eq_some.1 hn).2, hs.operator ▸ hc, ?_⟩
    rw [← hname, hs.attributes]
  · rintro ⟨n, hn, hc, hname⟩
    obtain ⟨i, hi⟩ := Array.mem_iff_getElem?.1 hn
    have hid : m.node? (m.idAt i) = some n := node?_idAt.trans hi
    have hmem : m.idAt i ∈ m.boundIds := mem_boundIds.2 ⟨n, hid, hc⟩
    obtain ⟨y, -, n₁, n', hn₁, hn', hs⟩ := exists_of_forall₂ (List.Forall₂.flip
      (R := fun y x => ∃ n n', m.node? x = some n ∧ σ.model.node? y = some n' ∧
        m.SameNode σ.model n n') (forall₂_boundIds hσ)) hmem
    obtain rfl := Option.some.inj (hid.symm.trans hn₁)
    refine ⟨n', Array.mem_of_getElem? (node?_eq_some.1 hn').2, ?_⟩
    rw [hs.attributes, hname]

/-- A mirror of all nodes, constraints and the objective is the model rebuilt if no name is lost. -/
theorem Built.rebuilt_iff (h : Built m asked sent) : m.Rebuilt σ.model ↔ ∀ n ∈ m.nodes,
    n.name.isSome → ∃ n' ∈ m.nodes, n'.operator.isConstant = false ∧ n'.name = n.name := by
  have hnames (n : Node) (hn : n.name.isSome) : (∃ n' ∈ σ.model.nodes, n'.name = n.name) ↔
      ∃ n' ∈ m.nodes, n'.operator.isConstant = false ∧ n'.name = n.name := by
    obtain ⟨name, hname⟩ := Option.isSome_iff_exists.1 hn
    rw [hname]
    exact exists_named_iff hσ name
  constructor
  · exact fun hr n hn hname => (hnames n hname).1 (hr.named n hn hname)
  · intro hn
    obtain ⟨top, htop, hperm⟩ := List.perm_comp_forall₂ h.topLevel_perm hσ.topLevel
    exact ⟨hσ.name, forall₂_boundIds hσ, fun n hmem hname => (hnames n hname).2 (hn n hmem hname),
      ⟨top, hperm, htop⟩, hσ.objective⟩

end Mirrored

end Model

end Scheduling
