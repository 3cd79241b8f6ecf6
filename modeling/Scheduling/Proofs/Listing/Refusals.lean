import Scheduling.Proofs.Listing.Program

/-!
# Refusals of listings

Which models a listing rebuilds (`Model.listing_rebuilds`). A call that was made has read its
operands: no truth value stands for a number in it, and no literal for a handle (`exists_float?`,
`literal?_of_presence`). A delay of zero is read, but no node with a delay joins (`no_zeroDelay`).
So the induction over the nodes that carries a listing out also shows that all of them can be
written (`writable_below`).
-/

namespace Scheduling

namespace Listing

open Model

variable {α β γ : Type} {m m' : Model} {scope : Scope} {x : NodeId} {n : Node} {a : Arg}
  {l : Literal} {e : Expectation} {c : Call} {σ σ' : State} {k : Nat} {asked : NodeId → Prop}
  {sent : List NodeId} {top : List NodeId} {goal : Option Objective}

/-! ### What a statement keeps -/

theorem keeps_call (m : Model) (c : Call) : Keeps m (m.call c).2 := by
  obtain ⟨m', hp, ⟨v, he, -, -⟩ | ⟨e, he⟩⟩ := m.call_cases c
  · rw [Model.call, he]
    exact hp.keeps.trans (keeps_apply v)
  · rw [Model.call, he]
    exact hp.keeps

theorem keeps_perform (h : σ.perform c = some σ') : Keeps σ.model σ'.model := by
  have hk := keeps_call σ.model c
  rw [State.perform] at h
  split at h
  · next m' he =>
    obtain rfl := Option.some.inj h
    rwa [he] at hk
  · cases h

theorem keeps_define {type : HandleType} (h : σ.define x type c = some σ') :
    Keeps σ.model σ'.model := by
  have hk := keeps_call σ.model c
  rw [State.define] at h
  split at h
  · next y m' he =>
    obtain rfl := Option.some.inj h
    rwa [he] at hk
  · cases h

theorem keeps_execute {s : Statement} (h : s.execute σ = some σ') : Keeps σ.model σ'.model := by
  cases s with
  | declare _ _ _ _ | define _ _ _ =>
    obtain ⟨c, -, h⟩ := Option.bind_eq_some_iff.1 h
    exact keeps_define h
  | nameNode _ _ | constraint _ | optimize _ _ =>
    obtain ⟨c, -, h⟩ := Option.bind_eq_some_iff.1 h
    exact keeps_perform h

theorem keeps_run {ss : List Statement} (h : ss.foldlM Statement.execute σ = some σ') :
    Keeps σ.model σ'.model := by
  induction ss generalizing σ with
  | nil =>
    obtain rfl := Option.some.inj h
    exact .refl _
  | cons s ss ih =>
    obtain ⟨σ₁, h₁, h⟩ := Option.bind_eq_some_iff.1 h
    exact (keeps_execute h₁).trans (ih h)

/-! ### What a call reads -/

/-- What is written for a constant is its value. -/
theorem read?_of_literal {read : Operand → Option α} (h : m.literal? x = some l) :
    (Argument.term (use m x)).read? scope read = read l.operand := by
  rw [use_of_literal h]
  cases l <;> rfl

theorem exists_of_readAll? {read : Operand → Option α} {items : List Term} {cs : List α}
    (h : Argument.readAll? scope read items = some cs) :
    ∀ t ∈ items, ∃ c, (Argument.term t).read? scope read = some c := by
  induction items generalizing cs with
  | nil => simp
  | cons t items ih =>
    rw [Argument.readAll?, List.mapM_cons] at h
    obtain ⟨c, hc, h⟩ := Option.bind_eq_some_iff.1 h
    obtain ⟨cs', hcs, -⟩ := Option.bind_eq_some_iff.1 h
    exact List.forall_mem_cons.2 ⟨⟨c, hc⟩, ih hcs⟩

theorem exists_of_bind₂ {r : Option α} {s : Option β} {f : α → β → Option γ} {c : γ}
    (h : (r.bind fun d => s.bind (f d)) = some c) : (∃ d, r = some d) ∧ ∃ d, s = some d := by
  obtain ⟨d, hd, h⟩ := Option.bind_eq_some_iff.1 h
  obtain ⟨d', hd', -⟩ := Option.bind_eq_some_iff.1 h
  exact ⟨⟨d, hd⟩, d', hd'⟩

theorem takes_node (ht : m.Takes (.node e) a) : ∃ x, a = .node x ∧ m.Is e x := by
  cases a with
  | node x => exact ⟨x, rfl, ht⟩
  | _ => exact ht.elim

theorem forall_one {P : NodeId → Prop} (h : P x) : ∀ y ∈ Arg.nodesOf [.node x], P y := by
  simpa [Arg.nodesOf, Arg.nodes] using h

theorem forall_two {P : NodeId → Prop} {z : NodeId} (hx : P x) (hz : P z) :
    ∀ y ∈ Arg.nodesOf [.node x, .node z], P y := by
  simp [Arg.nodesOf, Arg.nodes, hx, hz]

/-- A call with numbers as operands reads all of them as numbers. -/
theorem exists_float? (hf : m.Formed n) (hop : n.operator.takesFloats)
    (h : call? scope n.operator (arguments m n) = some c) : ∀ x ∈ n.operands,
      ∃ d, (Argument.term (use m x)).read? scope Operand.float? = some d := by
  obtain ⟨⟨name, presence, bounds, values⟩, op, args, ref, uses⟩ := n
  have ht : m.TakesAll op args := hf.args
  cases op with
  | float _ | identity | compare _ =>
    obtain ⟨a, b, rfl, hta, htb⟩ := ht.pair rfl rfl
    obtain ⟨x, rfl, -⟩ := takes_node hta
    obtain ⟨y, rfl, -⟩ := takes_node htb
    obtain ⟨hx, hy⟩ := exists_of_bind₂ h
    exact forall_two hx hy
  | floatNeg | floatAbs =>
    obtain ⟨a, rfl, hta⟩ := ht.single rfl rfl
    obtain ⟨x, rfl, -⟩ := takes_node hta
    obtain ⟨d, hd, -⟩ := Option.bind_eq_some_iff.1 h
    exact forall_one ⟨d, hd⟩
  | floatAggregate _ =>
    obtain ⟨a, rfl, hta⟩ := ht.single rfl rfl
    obtain ⟨ids, rfl, -⟩ := takes_nodes hta
    obtain ⟨cs, hcs, -⟩ := Option.bind_eq_some_iff.1 h
    intro x hx
    have hx : x ∈ ids := by simpa [Node.operands, Arg.nodesOf, Arg.nodes, nodesOf_map_node] using hx
    refine exists_of_readAll? hcs _ (List.mem_map.2 ⟨.node x, ?_, rfl⟩)
    exact List.mem_map_of_mem hx
  | floatGuard =>
    obtain ⟨a, b, rfl, hta, htb⟩ := ht.pair rfl rfl
    obtain ⟨x, rfl, -⟩ := takes_node hta
    obtain ⟨v, rfl, -⟩ := takes_float htb
    obtain ⟨d, hd, -⟩ := Option.bind_eq_some_iff.1 h
    exact forall_one ⟨d, hd⟩
  | inRange =>
    obtain ⟨a, b, hta, htb, ⟨-, hle⟩ | ⟨b', rfl, htb'⟩⟩ := ht.triple rfl (Nat.le_succ 2)
    · cases hle
    obtain ⟨x, rfl, -⟩ := takes_node hta
    obtain ⟨v, rfl, -⟩ := takes_float htb
    obtain ⟨w, rfl, -⟩ := takes_float htb'
    obtain ⟨d, hd, -⟩ := Option.bind_eq_some_iff.1 h
    exact forall_one ⟨d, hd⟩
  | _ => cases hop

/-- A call that asks for a presence reads a handle. -/
theorem literal?_of_presence (hf : m.Formed n) (hop : n.operator = .presence)
    (h : call? scope n.operator (arguments m n) = some c) :
    ∀ x ∈ n.operands, m.literal? x = none := by
  obtain ⟨⟨name, presence, bounds, values⟩, op, args, ref, uses⟩ := n
  obtain rfl : op = .presence := hop
  have ht : m.TakesAll .presence args := hf.args
  obtain ⟨a, rfl, hta⟩ := ht.single rfl rfl
  cases a with
  | node x =>
    obtain ⟨y, hy, -⟩ := Option.bind_eq_some_iff.1 h
    refine forall_one (Option.eq_none_iff_forall_ne_some.2 fun l hl => ?_)
    have hy : (Argument.term (use m x)).read? scope Operand.node? = some y := hy
    rw [read?_of_literal hl] at hy
    cases l <;> exact nomatch hy
  | _ => exact hta.elim

/-! ### Delays of zero -/

/-- A delay of zero is read as the literal zero. -/
theorem int?_of_zero (ht : m.Takes .amount a) (ha : m.number? a = some (.int 0)) :
    (Argument.term (term m a)).read? scope Operand.int? = some (.const 0) := by
  cases a with
  | int v =>
    obtain rfl := Number.int.inj (Option.some.inj ha)
    rfl
  | node x =>
    obtain ⟨l, hl, hzero⟩ := Option.map_eq_some_iff.1 ha
    refine (read?_of_literal hl).trans ?_
    cases l with
    | int v =>
      obtain rfl := Number.int.inj hzero
      rfl
    | bool b =>
      have hb : ofTruth b = 0 := Number.int.inj hzero
      exact congrArg (fun v => some (IntOperand.const v)) hb
    | float v => exact nomatch hzero
  | _ => exact ht.elim

/-- Intervals are no numbers. -/
theorem number?_interval (ht : m.Takes (.node .interval) a) : m.number? a = none := by
  obtain ⟨x, rfl, hx⟩ := takes_node ht
  refine Option.eq_none_iff_forall_ne_some.2 fun v hv => ?_
  obtain ⟨l, hl, -⟩ := Option.map_eq_some_iff.1 hv
  have hc := (typed_interval _ (kind_of_literal hl hx)).2
  cases l <;> exact nomatch hc

/-- Nodes without calls of their own can be written. -/
theorem writable_of_leaf (h : n.operator.isConstant ∨ n.operator.isVariable) : m.Writable n := by
  refine ⟨fun hop => ?_, fun hop => ?_, fun hop => ?_⟩ <;> revert h hop <;>
    cases n.operator <;> simp [Operator.takesFloats, Operator.isPrecedence, Operator.isConstant,
      Operator.isVariable]

/-- The call for a precedence with a delay of zero builds one without a delay. -/
theorem callable_zeroDelay {p : Precedence} {args : List Arg}
    (ho : ∀ x ∈ Arg.nodesOf args, Offers m m' scope x) (ht : m.TakesAll (.precedence p) args)
    (ha : a ∈ args) (hzero : m.number? a = some (.int 0)) :
    args.length = 3 ∧ ∃ args', args'.length = 2 ∧
      Callable m m' scope (.precedence p)
        (each m args ++ if args.length = 2 then [.noDelay] else []) args' none := by
  obtain ⟨b, b', htb, htb', hargs⟩ := ht.triple rfl (Nat.le_refl 2)
  have hne (b : Arg) (htb : m.Takes (.node .interval) b) : a ≠ b := by
    rintro rfl
    exact nomatch (number?_interval htb).symm.trans hzero
  have hread {b : Arg} (hb : b ∈ args) (htb : m.Takes (.node .interval) b) :
      Reads m scope (Operand.handle? .intervalVar) (NodeFor .interval m m') b :=
    reads_handle (fun x hx => ho x (Arg.nodesOf_of_mem hb hx)) typed_interval htb
  obtain ⟨rfl, -⟩ | ⟨d, rfl, htd⟩ := hargs
  · simp [hne b htb, hne b' htb'] at ha
  obtain rfl : a = d := by simpa [hne b htb, hne b' htb'] using ha
  obtain ⟨y, hy, hfb⟩ := hread (by simp) htb
  obtain ⟨y', hy', hfb'⟩ := hread (by simp) htb'
  refine ⟨rfl, [b, b'], rfl, .precedence p y y' (.const 0), ?_, .precedence hfb hfb' rfl rfl .nil⟩
  show call? scope (.precedence p) [.term (term m b), .term (term m b'), .term (term m a)] = _
  refine Option.bind_eq_some_iff.2 ⟨_, hy, ?_⟩
  refine Option.bind_eq_some_iff.2 ⟨_, hy', ?_⟩
  exact Option.bind_eq_some_iff.2 ⟨_, int?_of_zero htd hzero, rfl⟩

/-! ### Nodes that are rebuilt -/

/-- The statements of an expression or a constraint start with its call. -/
theorem exists_call_of_run {id : NodeId} (hc : n.operator.isConstant = false)
    (hv : n.operator.isVariable = false)
    (h : (nodeStatements m id n).foldlM Statement.execute σ = some σ') :
    ∃ c σ₁, call? σ.scope n.operator (arguments m n) = some c ∧
      σ.define id (.of n.operator) c = some σ₁ ∧ Keeps σ₁.model σ'.model := by
  rw [nodeStatements, if_neg (by simp [hc]), if_neg (by simp [hv])] at h
  obtain ⟨σ₁, h₁, h⟩ := Option.bind_eq_some_iff.1 h
  obtain ⟨c, hcall, hdefine⟩ := Option.bind_eq_some_iff.1 h₁
  exact ⟨c, σ₁, hcall, hdefine, keeps_run h⟩

section Run

variable (hm : Built m asked sent) (hn : m.nodes[k]? = some n) (h : Mirrors m k top goal σ)

include hm hn h

omit hm in
/-- What joins for a node that is rebuilt has as many arguments. -/
theorem length_args_of_rebuilt {m'' : Model} {y : NodeId} {n' : Node}
    (hc : n.operator.isConstant = false) (hg : Gains σ.model m'' y n') (hk : Keeps m'' m')
    (hr : m.Rebuilt m') : n'.args.length = n.args.length := by
  obtain ⟨n₁, hn₁, hb⟩ := hg.node
  obtain ⟨n₂, hn₂, hcore⟩ := hk.node? hn₁
  obtain ⟨n₃, n₄, hn₃, hn₄, hs⟩ := hr.sameNode (hk.peers (h.peers hn hc hg))
  obtain rfl := Option.some.inj ((node?_idAt.trans hn).symm.trans hn₃)
  obtain rfl := Option.some.inj (hn₂.symm.trans hn₄)
  rw [hs.args.length_eq, Node.args_eq_of_core hcore, Node.args_eq_of_bare hb]

/-- A delay of zero is not rebuilt: the call adds a precedence without a delay. -/
theorem no_zeroDelay {σ₁ : State} (hcall : call? σ.scope n.operator (arguments m n) = some c)
    (hdefine : σ.define (m.idAt k) (.of n.operator) c = some σ₁) (hk : Keeps σ₁.model m')
    (hr : m.Rebuilt m') : n.operator.isPrecedence → ∀ a ∈ n.args, m.number? a ≠ some (.int 0) := by
  intro hop a ha hzero
  obtain ⟨p, hp⟩ : ∃ p, n.operator = .precedence p := by
    revert hop
    cases n.operator <;> first | exact fun _ => ⟨_, rfl⟩ | exact nofun
  have harguments : arguments m n =
      each m n.args ++ if n.args.length = 2 then [.noDelay] else [] := by
    rw [arguments, hp]
    rfl
  obtain ⟨hlen, args', hlen', c', hcall', hbuilds⟩ :=
    callable_zeroDelay (h.offers_operands hm hn) (hp ▸ (hm.formed k n hn).args) ha hzero
  rw [hp, harguments, hcall'] at hcall
  obtain rfl := Option.some.inj hcall
  obtain ⟨m₁, n', hprep, ⟨args₁, rfl, hargs⟩, hdefine'⟩ :=
    define_of_builds hbuilds (m.idAt k) (.of n.operator)
  obtain rfl := Option.some.inj (hdefine'.symm.trans hdefine)
  have hc : n.operator.isConstant = false := by
    rw [hp]
    rfl
  have hgains := gains_extend (n := { Node.plain (.precedence p) args₁ with values := none }) hprep
    rfl
  have hlength : args₁.length = n.args.length := length_args_of_rebuilt hn h hc hgains hk hr
  rw [← hargs.length_eq, hlen, hlen'] at hlength
  exact nomatch hlength

/-- A node whose statements are carried out, so that it is rebuilt, is one that can be written. -/
theorem writable_of_run
    (hrun : (nodeStatements m (m.idAt k) n).foldlM Statement.execute σ = some σ')
    (hk : Keeps σ'.model m') (hr : m.Rebuilt m') : m.Writable n := by
  have hf := hm.formed k n hn
  by_cases hc : n.operator.isConstant
  · exact writable_of_leaf (.inl hc)
  by_cases hv : n.operator.isVariable
  · exact writable_of_leaf (.inr hv)
  obtain ⟨c, σ₁, hcall, hdefine, hk₁⟩ :=
    exists_call_of_run (by simpa using hc) (by simpa using hv) hrun
  refine ⟨fun hop x hx b hl => ?_, fun hop => literal?_of_presence hf hop hcall,
    no_zeroDelay hm hn h hcall hdefine (hk₁.trans hk) hr⟩
  obtain ⟨d, hd⟩ := exists_float? hf hop hcall x hx
  rw [read?_of_literal hl] at hd
  exact nomatch hd

end Run

section Program

variable (hm : Built m asked sent) {tag : Nat}
  (hrun : m.program.statements.foldlM Statement.execute ⟨.empty, .empty tag m.name⟩ = some σ)
  (hr : m.Rebuilt σ.model)

include hm hrun hr

/-- The first nodes can be written. -/
theorem writable_below (hk : k ≤ m.nodes.size) :
    ∀ i < k, ∀ n, m.nodes[i]? = some n → m.Writable n := by
  -- the nodes before the last one can be written, so there is a mirror of them when it is listed
  induction k with
  | zero => exact nofun
  | succ k ih =>
    have hbelow := ih (Nat.le_of_lt hk)
    obtain ⟨σ₁, he₁, h₁⟩ := exists_nodes hm hbelow tag (Nat.le_of_lt hk)
    obtain ⟨n, hn⟩ : ∃ n, m.nodes[k]? = some n := ⟨_, Array.getElem?_eq_getElem hk⟩
    obtain ⟨rest, hrest⟩ := statementsBelow_prefix hk
    rw [← hrest, statementsBelow_succ hn, List.append_assoc] at hrun
    obtain ⟨σ₂, he₂, hnode⟩ := run_append.1 hrun
    obtain rfl := Option.some.inj (he₁.symm.trans he₂)
    obtain ⟨σ₃, he₃, hlast⟩ := run_append.1 hnode
    intro i hi n' hn'
    obtain hi | rfl := Nat.lt_succ_iff_lt_or_eq.1 hi
    · exact hbelow i hi n' hn'
    · obtain rfl := Option.some.inj (hn.symm.trans hn')
      exact writable_of_run hm hn h₁ he₃ (keeps_run hlast) hr

omit hr in
/-- A statement that sets the objective has read a number. -/
theorem no_truth_optimized (o : Objective) (ho : m.objective = some o) (b : Bool) :
    m.literal? o.expr ≠ some (.bool b) := by
  intro hl
  rw [hm.statements_eq, ho] at hrun
  obtain ⟨σ₁, -, hrun⟩ := run_append.1 hrun
  obtain ⟨σ₂, -, hrun⟩ := run_append.1 hrun
  obtain ⟨σ₃, hoptimize, -⟩ := Option.bind_eq_some_iff.1 hrun
  obtain ⟨d, hd, -⟩ := Option.bind_eq_some_iff.1 hoptimize
  have hd : (Argument.term (use m o.expr)).read? σ₂.scope Operand.float? = some d := hd
  rw [read?_of_literal hl] at hd
  exact nomatch hd

end Program

end Listing

namespace Model

/-- Two intervals that must not overlap, one before the other, and the end of the last minimized. -/
example : ((empty 0 (some "two")).calls
    [.intervalVar ⟨{ Bounds.none with lengthMin := some 3, lengthMax := some 3 }, none, some "a"⟩,
      .intervalVar ⟨{ Bounds.none with lengthMin := some 2 }, some .optional, none⟩,
      .noOverlap [⟨0, 0⟩, ⟨0, 1⟩] none,
      .precedence ⟨true, false, false⟩ ⟨0, 0⟩ ⟨0, 1⟩ (.const 4),
      .measureOr .finish ⟨0, 1⟩ 7,
      .nameNode ⟨0, 4⟩ "end",
      .compare .le (.node ⟨0, 4⟩) (.float 20.5),
      .constraint (.node ⟨0, 5⟩),
      .optimize .minimize (.node ⟨0, 4⟩)]).Listable := by decide +kernel

end Model

end Scheduling
