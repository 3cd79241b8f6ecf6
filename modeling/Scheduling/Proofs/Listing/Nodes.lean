import Scheduling.Proofs.Listing.Operands

/-!
# Nodes of listings

The statement of a node can be carried out where the nodes before it are bound: its call can be
read, succeeds, and adds a node that says the same (`callable_node`, `exists_variableCall`). This
asks of the node that a listing can write its arguments (`Model.Writable`).
-/

namespace Scheduling

open Model Listing

/-- The operators whose operands are numbers of any kind. -/
def Operator.takesFloats : Operator → Bool
  | float _ | floatNeg | floatAbs | floatAggregate _ | floatGuard | identity | compare _ | inRange =>
    true
  | _ => false

/-- Whether a node relates two intervals, with a delay or without. -/
def Operator.isPrecedence : Operator → Bool
  | precedence _ => true
  | _ => false

/-- A listing can write the arguments of a node. -/
structure Model.Writable (m : Model) (n : Node) : Prop where
  /-- A truth value is written as `true` or `false`, which is no number. -/
  truth : n.operator.takesFloats → ∀ x ∈ n.operands, ∀ b, m.literal? x ≠ some (.bool b)
  /-- A literal has no presence to ask for. -/
  presence : n.operator = .presence → ∀ x ∈ n.operands, m.literal? x = none
  /-- A delay that is written as zero is none. -/
  delay : n.operator.isPrecedence → ∀ a ∈ n.args, m.number? a ≠ some (.int 0)

instance (m : Model) (n : Node) : Decidable (m.Writable n) :=
  decidable_of_iff ((n.operator.takesFloats → ∀ x ∈ n.operands, ∀ b, m.literal? x ≠ some (.bool b)) ∧
      (n.operator = .presence → ∀ x ∈ n.operands, m.literal? x = none) ∧
      (n.operator.isPrecedence → ∀ a ∈ n.args, m.number? a ≠ some (.int 0)))
    ⟨fun h => ⟨h.1, h.2.1, h.2.2⟩, fun h => ⟨h.truth, h.presence, h.delay⟩⟩

namespace Building

variable {α β γ : Type} {m m' m₀ : Model} {id x y : NodeId} {n : Node} {a b : Arg} {op : Operator}
  {e e₁ e₂ : Expectation} {P : Model → Node → Prop} {args : List Arg}

/-! ### Calls that succeed -/

/-- A node of an operator with a table, whose arguments say the same as given ones. -/
def Like (m₀ : Model) (op : Operator) (args : List Arg) (values : Option (List (List Int)))
    (m : Model) (n : Node) : Prop :=
  ∃ args', n = { Node.plain op args' with values := values } ∧
    List.Forall₂ (m₀.SameArg m) args args'

namespace Builds

theorem bind {s : Building α} {f : α → Building (Option NodeId)} {Q : α → Model → Prop}
    (hs : Succeeds s m Q) (hf : ∀ c m', Prepared m m' → Q c m' → Builds (f c) m' P) :
    Builds (s >>= f) m P := by
  obtain ⟨c, m₁, h₁, he₁, hc⟩ := hs
  obtain ⟨m₂, n, h₂, he₂, hP⟩ := hf c m₁ h₁ hc
  exact ⟨m₂, n, h₁.trans h₂, by rw [bind_apply, he₁]; exact he₂, hP⟩

/-- A check that passes. -/
theorem check {s : Building α} {f : α → Building (Option NodeId)} {c : α} (hs : s m = (.ok c, m))
    (hf : Builds (f c) m P) : Builds (s >>= f) m P := by
  refine .bind (Q := fun c' m' => c' = c ∧ m' = m) ⟨c, m, .refl, hs, rfl, rfl⟩ fun _ _ _ h => ?_
  obtain ⟨rfl, rfl⟩ := h
  exact hf

theorem add (hops : ∀ y ∈ n.operands, m.Has y) (hP : P m n) :
    Builds (some <$> Building.add n) m P :=
  ⟨m, n, .refl, by rw [map_apply, add_apply hops], hP⟩

theorem like {args' : List Arg} {values : Option (List (List Int))}
    (h : List.Forall₂ (m₀.SameArg m) args args') :
    Builds (some <$> Building.add { Node.plain op args' with values := values }) m
      (Like m₀ op args values) :=
  .add (forall_nodesOf h fun _ _ hab => hab.has) ⟨args', rfl, h⟩

theorem plain {args' : List Arg} (h : List.Forall₂ (m₀.SameArg m) args args') :
    Builds (some <$> Building.add (.plain op args')) m (Like m₀ op args none) := .like h

section Operands

variable {build : γ → Building NodeId} {R : Model → Arg → γ → Prop} (ho : Operands m₀ build R)
  {c d : γ}

include ho

theorem one (ha : R m a c) :
    Builds (build c >>= fun x => some <$> addOver op [x]) m (Like m₀ op [a] none) :=
  .bind (ho.succeeds ha) fun _ _ _ hx => .plain (.cons (.item hx) .nil)

theorem two (ha : R m a c) (hb : R m b d) :
    Builds (build c >>= fun x => build d >>= fun y => some <$> addOver op [x, y]) m
      (Like m₀ op [a, b] none) := by
  refine .bind (ho.succeeds ha) fun x m₁ h₁ hx => ?_
  refine .bind (ho.succeeds (ho.later h₁ hb)) fun y m₂ h₂ hy => ?_
  exact .plain (.cons (.item (h₂.keeps.sameItem hx)) (.cons (.item hy) .nil))

theorem list {all : List γ → Building (List NodeId)} (hnil : all [] = pure [])
    (hcons : ∀ c rest, all (c :: rest) = build c >>= fun y => all rest >>= fun ys =>
      pure (y :: ys)) {cs : List γ} (h : List.Forall₂ (R m) args cs) :
    Builds (all cs >>= fun ids => some <$> Building.add (.plain op [.list (ids.map Arg.node)])) m
      (Like m₀ op [.list args] none) :=
  .bind (ho.each hnil hcons h) fun _ _ _ hys => .plain (.cons (.list hys) .nil)

end Operands

/-- A height or a delay, which stays a literal. -/
theorem amount {first : Arg} {c : IntOperand} (hfirst : m₀.SameArg m a first)
    (hb : IntFor m₀ m b c) :
    Builds (intArg c >>= fun d => some <$> Building.add (.plain op [first, d])) m
      (Like m₀ op [a, b] none) := by
  obtain ⟨d, hd, hsame⟩ := intArg_ok hb
  exact .check hd (.plain (.cons hfirst (.cons (.item hsame) .nil)))

/-- Two nodes that are as expected. -/
theorem nodes (ha : NodeFor e m₀ m a x) (hb : NodeFor e m₀ m b y) :
    Builds (expectAll e [x, y] >>= fun _ => some <$> addOver op [x, y]) m
      (Like m₀ op [a, b] none) :=
  .check (expectAll_ok (by simp [ha.1, hb.1])) (.plain (.cons (.item ha.2) (.cons (.item hb.2) .nil)))

/-- A delay that is the literal zero is not recorded. -/
def recordedDelay : Arg → List Arg
  | .int 0 => []
  | d => [d]

theorem precedence {p : Precedence} {c : IntOperand} {d : Arg} {tail tail' : List Arg}
    (ha : NodeFor .interval m₀ m a x) (hb : NodeFor .interval m₀ m b y)
    (hd : intArg c m = (.ok d, m)) (htail : recordedDelay d = tail')
    (hsame : List.Forall₂ (m₀.SameArg m) tail tail') :
    Builds (some <$> Building.precedence p x y c) m
      (Like m₀ (.precedence p) (a :: b :: tail) none) := by
  rw [Building.precedence, map_bind]
  refine .check (expect_ok ha.1) ?_
  rw [map_bind]
  refine .check (expect_ok hb.1) ?_
  rw [map_bind]
  refine .check hd ?_
  show Builds (some <$> Building.add
    (.plain (.precedence p) (.node x :: .node y :: recordedDelay d))) _ _
  rw [htail]
  exact .plain (.cons (.item ha.2) (.cons (.item hb.2) hsame))

end Builds

end Building

namespace Listing

open Building (Builds Like operands_int operands_float operands_bool expect_ok expectAll_ok
  finite_ok node_ok check_ok)

variable {α β : Type} {m m' : Model} {scope : Scope} {n : Node} {a : Arg} {op : Operator}
  {args : List Arg} {i j : Input} {e : Expectation} {readA : Operand → Option α}
  {readB : Operand → Option β} {RA : Arg → α → Prop} {RB : Arg → β → Prop}

/-! ### Calls of expressions and constraints -/

/-- The call for a node can be read, and adds a node that says the same. -/
def Callable (m m' : Model) (scope : Scope) (op : Operator) (args : List Argument)
    (as : List Arg) (values : Option (List (List Int))) : Prop :=
  ∃ c, call? scope op args = some c ∧ Builds c.run m' (Like m op as values)

/-- The arguments of most calls are those of the node. -/
def each (m : Model) (args : List Arg) : List Argument := args.map fun a => .term (term m a)

theorem callable_unary (make : α → Call) (ht : m.TakesAll op args) (hin : op.inputs = [i])
    (hle : op.arity.1 = 1) (ha : ∀ a ∈ args, m.Takes i a → Reads m scope readA RA a)
    (hcall : ∀ a, call? scope op [a] = (a.read? scope readA).bind fun c => some (make c))
    (hbuild : ∀ a c, RA a c → Builds (make c).run m' (Like m op [a] none)) :
    Callable m m' scope op (each m args) args none := by
  obtain ⟨a, rfl, hta⟩ := ht.single hin hle
  obtain ⟨c, hc, hR⟩ := ha a (by simp) hta
  refine ⟨make c, ?_, hbuild a c hR⟩
  rw [each, List.map_singleton, hcall, hc, Option.bind_some]

theorem callable_binary (make : α → β → Call) (ht : m.TakesAll op args)
    (hin : op.inputs = [i, j]) (hle : op.arity.1 = 2)
    (ha : ∀ a ∈ args, m.Takes i a → Reads m scope readA RA a)
    (hb : ∀ b ∈ args, m.Takes j b → Reads m scope readB RB b)
    (hcall : ∀ a b, call? scope op [a, b] =
      (a.read? scope readA).bind fun c => (b.read? scope readB).bind fun d => some (make c d))
    (hbuild : ∀ a b c d, RA a c → RB b d → Builds (make c d).run m' (Like m op [a, b] none)) :
    Callable m m' scope op (each m args) args none := by
  obtain ⟨a, b, rfl, hta, htb⟩ := ht.pair hin hle
  obtain ⟨c, hc, hRA⟩ := ha a (by simp) hta
  obtain ⟨d, hd, hRB⟩ := hb b (by simp) htb
  refine ⟨make c d, ?_, hbuild a b c d hRA hRB⟩
  show call? scope op [.term (term m a), .term (term m b)] = _
  rw [hcall, hc, Option.bind_some, hd, Option.bind_some]

/-- The operators whose calls take each argument as it is. -/
def writesEach : Operator → Bool
  | .intAggregate _ | .floatAggregate _ | .inRange | .floatGuard | .alternative | .span | .noOverlap
  | .cumulSum | .stepFunction | .precedence _ => false
  | op => !op.isConstant && !op.isVariable

theorem reads_intLiteral (ht : m.Takes .int a) :
    Reads m scope Operand.intLiteral? (fun a v => a = .int v) a := by
  cases a with
  | int v => exact ⟨v, rfl, rfl⟩
  | _ => exact ht.elim

theorem takes_amount (ht : m.Takes (.node .integral) a) : m.Takes .amount a := by
  cases a with
  | node x => exact ht
  | _ => exact ht.elim

theorem takes_float (ht : m.Takes .float a) : ∃ v, a = .float v ∧ v.isFinite := by
  cases a with
  | float v => exact ⟨v, rfl, ht⟩
  | _ => exact ht.elim

theorem takes_nodes (ht : m.Takes (.nodes e) a) :
    ∃ ids : List NodeId, a = .list (ids.map Arg.node) ∧ ∀ x ∈ ids, m.Is e x := by
  cases a with
  | list items =>
    obtain ⟨ids, rfl, hids⟩ := ht
    exact ⟨ids, rfl, hids⟩
  | _ => exact ht.elim

/-! ### Lists of operands -/

/-- The nodes of a list are read one by one. -/
theorem exists_items {ids : List NodeId} (rest : List Arg)
    (h : ∀ x ∈ ids, Reads m scope readA RA (.node x)) :
    ∃ cs, Argument.readAll? scope readA (headItems m (.list (ids.map Arg.node) :: rest)) = some cs ∧
      List.Forall₂ RA (ids.map Arg.node) cs := by
  refine exists_readAll? fun a ha => ?_
  obtain ⟨x, hx, rfl⟩ := List.mem_map.1 ha
  exact h x hx

theorem mem_nodesOf_list {ids : List NodeId} {x : NodeId} (hx : x ∈ ids)
    (ha : .list (ids.map Arg.node) ∈ args) : x ∈ Arg.nodesOf args := by
  refine Arg.nodesOf_of_mem ha ?_
  rwa [Arg.nodes, nodesOf_map_node]

theorem forall_nodes {P : NodeId → Prop} {x : NodeId} (h : P x) : ∀ y ∈ (Arg.node x).nodes, P y := by
  intro y hy
  obtain rfl : y = x := by simpa [Arg.nodes] using hy
  exact h

section Lists

variable {ids : List NodeId} {b : Arg} (ho : ∀ x ∈ Arg.nodesOf args, Offers m m' scope x)

include ho

theorem callable_intAggregate {q : Aggregate} (ht : m.TakesAll (.intAggregate q) args) :
    Callable m m' scope (.intAggregate q) [.operands .int (headItems m args)] args none := by
  obtain ⟨a, rfl, hta⟩ := ht.single rfl rfl
  obtain ⟨ids, rfl, hids⟩ := takes_nodes hta
  have hmem {x : NodeId} (hx : x ∈ ids) : x ∈ Arg.nodesOf [.list (ids.map Arg.node)] :=
    mem_nodesOf_list hx List.mem_cons_self
  obtain ⟨cs, hcs, hall⟩ := exists_items [] fun x hx =>
    reads_int (forall_nodes (ho x (hmem hx))) (hids x hx)
  refine ⟨.intAggregate q cs, ?_, .list operands_int rfl (fun _ _ => rfl) hall⟩
  exact Option.bind_eq_some_iff.2 ⟨_, hcs, rfl⟩

theorem callable_floatAggregate {q : Aggregate} (ht : m.TakesAll (.floatAggregate q) args)
    (hb : ∀ x ∈ Arg.nodesOf args, ∀ b, m.literal? x ≠ some (.bool b))
    (hfin : ∀ x v, m.literal? x = some (.float v) → v.isFinite) :
    Callable m m' scope (.floatAggregate q) [.operands .float (headItems m args)] args none := by
  obtain ⟨a, rfl, hta⟩ := ht.single rfl rfl
  obtain ⟨ids, rfl, hids⟩ := takes_nodes hta
  have hmem {x : NodeId} (hx : x ∈ ids) : x ∈ Arg.nodesOf [.list (ids.map Arg.node)] :=
    mem_nodesOf_list hx List.mem_cons_self
  obtain ⟨cs, hcs, hall⟩ := exists_items [] fun x hx =>
    reads_float (forall_nodes (ho x (hmem hx))) (hids x hx) (forall_nodes (hb x (hmem hx))) hfin
  refine ⟨.floatAggregate q cs, ?_, .list operands_float rfl (fun _ _ => rfl) hall⟩
  exact Option.bind_eq_some_iff.2 ⟨_, hcs, rfl⟩

/-- A list of handles of one type. -/
theorem exists_handles {type : HandleType} (he : Typed e type) (hids : ∀ x ∈ ids, m.Is e x)
    (ha : .list (ids.map Arg.node) ∈ args) (rest : List Arg) :
    ∃ ys, Argument.readAll? scope (Operand.handle? type)
        (headItems m (.list (ids.map Arg.node) :: rest)) = some ys ∧
      (∀ y ∈ ys, m'.Is e y) ∧ m.SameArg m' (.list (ids.map Arg.node)) (.list (ys.map Arg.node)) ∧
      ys.length = ids.length := by
  obtain ⟨ys, hys, hall⟩ := exists_items rest fun x hx =>
    reads_handle (forall_nodes (ho x (mem_nodesOf_list hx ha))) he (hids x hx)
  refine ⟨ys, hys, fun y hy => ?_, .list ?_, ?_⟩
  · obtain ⟨a, -, h⟩ := exists_of_forall₂ hall hy
    exact h.1
  · rw [List.forall₂_map_right_iff]
    exact hall.imp fun _ _ h => h.2
  · rw [← hall.length_eq, List.length_map]

theorem callable_cumulSum (ht : m.TakesAll .cumulSum args) :
    Callable m m' scope .cumulSum [.nodes (headItems m args)] args none := by
  obtain ⟨a, rfl, hta⟩ := ht.single rfl rfl
  obtain ⟨ids, rfl, hids⟩ := takes_nodes hta
  obtain ⟨ys, hys, his, hsame, -⟩ :=
    exists_handles ho typed_cumulative hids List.mem_cons_self []
  refine ⟨.cumulSum ys, ?_, .check (expectAll_ok his) (.plain (.cons hsame .nil))⟩
  exact Option.bind_eq_some_iff.2 ⟨_, hys, rfl⟩

theorem callable_overIntervals (make : NodeId → List NodeId → Call) (ht : m.TakesAll op args)
    (hin : op.inputs = [.node .interval, .nodes .interval]) (hle : op.arity.1 = 2)
    (hcall : ∀ a items, call? scope op [a, .nodes items] =
      (a.read? scope (Operand.handle? .intervalVar)).bind fun y =>
        (Argument.readAll? scope (Operand.handle? .intervalVar) items).bind fun ys =>
          some (make y ys))
    (hrun : ∀ y ys, (make y ys).run = some <$> Building.overIntervals op [y] ys) :
    Callable m m' scope op (each m (args.take 1) ++ [.nodes (headItems m (args.drop 1))])
      args none := by
  obtain ⟨a, b, rfl, hta, htb⟩ := ht.pair hin hle
  obtain ⟨ids, rfl, hids⟩ := takes_nodes htb
  obtain ⟨y, hy, hmain⟩ := reads_handle (fun x hx => ho x (Arg.nodesOf_of_mem (by simp) hx))
    typed_interval hta
  obtain ⟨ys, hys, his, hsame, -⟩ := exists_handles ho typed_interval hids (by simp) []
  refine ⟨make y ys, ?_, ?_⟩
  · show call? scope op [.term (term m a), .nodes (headItems m [.list (ids.map Arg.node)])] = _
    rw [hcall, hy, Option.bind_some, hys, Option.bind_some]
  · rw [hrun, Building.overIntervals, Building.map_bind]
    refine .check (expectAll_ok (by simp [hmain.1])) ?_
    rw [Building.map_bind]
    exact .check (expectAll_ok his) (.plain (.cons (.item hmain.2) (.cons hsame .nil)))

theorem callable_noOverlap {values : Option (List (List Int))} (hids : ∀ x ∈ ids, m.Is .interval x)
    (ha : .list (ids.map Arg.node) ∈ args)
    (hvalues : ∀ matrix, values = some matrix → checkTransitions matrix ids.length = .ok ()) :
    Callable m m' scope .noOverlap
      [.nodes (headItems m [.list (ids.map Arg.node)]), .matrix values]
      [.list (ids.map Arg.node)] values := by
  obtain ⟨ys, hys, his, hsame, hlen⟩ := exists_handles ho typed_interval hids ha []
  refine ⟨.noOverlap ys values, ?_, ?_⟩
  · exact Option.bind_eq_some_iff.2 ⟨_, hys, rfl⟩
  · show Builds (some <$> Building.noOverlap ys values) _ _
    rw [Building.noOverlap, Building.map_bind]
    refine .check (expectAll_ok his) ?_
    cases values with
    | none => exact .like (.cons hsame .nil)
    | some matrix =>
      simp only [Building.map_bind]
      exact .check (check_ok (hlen ▸ hvalues matrix rfl)) (.like (.cons hsame .nil))

end Lists

/-! ### Tables -/

theorem list?_of_sameItem {b : Arg} (h : m.SameItem m' a b) : a.list? = none ∧ b.list? = none := by
  obtain ⟨v, ha, hb⟩ | ⟨x, y, rfl, rfl, -⟩ := h
  · constructor
    · cases a <;> first | rfl | exact nomatch ha
    · cases b <;> first | rfl | exact nomatch hb
  · exact ⟨rfl, rfl⟩

/-- A sequence that says the same asks for the same matrix. -/
theorem transitionSize_eq {n' : Node} (h : m.SameNode m' n n') :
    n'.transitionSize = n.transitionSize := by
  have htypes : n'.types? = n.types? := by rw [Node.types?, Node.types?, h.attributes]
  have hlength : (n'.args.head?.bind Arg.list?).map List.length =
      (n.args.head?.bind Arg.list?).map List.length := by
    have hargs := h.args
    generalize n.args = args, n'.args = args' at hargs
    cases hargs with
    | nil => rfl
    | cons hab _ =>
      cases hab with
      | item hab => simp [list?_of_sameItem hab]
      | list hall => simp [Arg.list?, hall.length_eq]
  rw [Node.transitionSize, Node.transitionSize, htypes, hlength]

theorem callable_noOverlapSequence {x : NodeId} {seq : Node} {values : Option (List (List Int))}
    (ho : Offers m m' scope x) (hseq : m.node? x = some seq) (hop : seq.operator = .sequenceVar)
    (hvalues : ∀ matrix, values = some matrix →
      checkTransitions matrix seq.transitionSize = .ok ()) :
    Callable m m' scope .noOverlap [.term (use m x), .matrix values] [.node x] values := by
  obtain ⟨o, ho, hs⟩ := ho
  cases hs with
  | @literal l hl =>
    obtain ⟨n, hn, hl⟩ := literal?_eq_some.1 hl
    obtain rfl := Option.some.inj (hseq.symm.trans hn)
    have hc := isConstant_of_literal? hl
    rw [hop] at hc
    exact nomatch hc
  | @handle y n n' hn hc hn' hsame hp =>
    obtain rfl := Option.some.inj (hseq.symm.trans hn)
    have hread : (Argument.term (use m x)).read? scope (Operand.handle? .sequenceVar) = some y := by
      show ((use m x).operand? scope).bind _ = _
      rw [ho, hop]
      rfl
    refine ⟨.noOverlapSequence y values, ?_, ?_⟩
    · exact Option.bind_eq_some_iff.2 ⟨_, hread, rfl⟩
    · show Builds (some <$> Building.noOverlapSequence y values) _ _
      have hargs : List.Forall₂ (m.SameArg m') [.node x] [.node y] :=
        .cons (.item (.inr ⟨x, y, rfl, rfl, hp⟩)) .nil
      rw [Building.noOverlapSequence, Building.map_bind]
      refine .check (node_ok hn') ?_
      simp only [hsame.operator, hop, ne_eq, not_true_eq_false, if_false]
      cases values with
      | none => exact .like hargs
      | some matrix =>
        have hcheck : checkTransitions matrix n'.transitionSize = .ok () := by
          rw [transitionSize_eq hsame, hvalues matrix rfl]
        simp only [Building.map_bind]
        exact .check (check_ok hcheck) (.like hargs)

/-- Points that pass the check are pairs. -/
theorem map_point {previous : Option Int} {points : List (List Int)}
    (h : checkPointsAfter previous points = .ok ()) :
    (points.map point).map (fun p => [p.1, p.2]) = points := by
  induction points generalizing previous with
  | nil => rfl
  | cons row rest ih =>
    unfold checkPointsAfter at h
    split at h
    · rename_i heq
      exact nomatch heq
    · rename_i heq
      obtain ⟨rfl, rfl⟩ := List.cons.inj heq
      have hrest : ∃ previous, checkPointsAfter previous rest = .ok () := by
        split at h
        · split at h
          · exact nomatch h
          · exact ⟨_, h⟩
        · exact ⟨_, h⟩
      obtain ⟨previous, hrest⟩ := hrest
      rw [List.map_cons, List.map_cons, ih hrest]
      rfl
    · exact nomatch h

theorem callable_stepFunction {points : List (List Int)} (h : checkStepPoints points = .ok ()) :
    Callable m m' scope .stepFunction [.points (points.map point)] [] (some points) := by
  have hrun : Building.stepFunction (points.map point) = Building.check (checkStepPoints points) >>=
      fun _ => Building.add { Node.plain .stepFunction [] with values := some points } := by
    show (Building.check (checkStepPoints ((points.map point).map fun p => [p.1, p.2])) >>= fun _ =>
      Building.add { Node.plain .stepFunction [] with
        values := some ((points.map point).map fun p => [p.1, p.2]) }) = _
    rw [map_point h]
  refine ⟨.stepFunction (points.map point), rfl, ?_⟩
  show Builds (some <$> Building.stepFunction (points.map point)) _ _
  rw [hrun, Building.map_bind]
  exact .check (check_ok h) (.like .nil)

/-! ### Precedences and ranges -/

section Args

variable (ho : ∀ x ∈ Arg.nodesOf args, Offers m m' scope x)

include ho

/-- A precedence is called with a delay of zero when it has none, which is not recorded. -/
theorem callable_precedence {p : Precedence} (ht : m.TakesAll (.precedence p) args)
    (hdelay : ∀ a ∈ args, m.number? a ≠ some (.int 0)) :
    Callable m m' scope (.precedence p)
      (each m args ++ if args.length = 2 then [.noDelay] else []) args none := by
  obtain ⟨a, b, hta, htb, hargs⟩ := ht.triple rfl (Nat.le_refl 2)
  have hoffers {c : Arg} (hc : c ∈ args) : ∀ x ∈ c.nodes, Offers m m' scope x :=
    fun x hx => ho x (Arg.nodesOf_of_mem hc hx)
  have hread {c : Arg} (hc : c ∈ args) (htc : m.Takes (.node .interval) c) :=
    reads_handle (hoffers hc) typed_interval htc
  obtain ⟨rfl, -⟩ | ⟨c, rfl, htc⟩ := hargs
  · obtain ⟨y, hy, hfa⟩ := hread (by simp) hta
    obtain ⟨z, hz, hfb⟩ := hread (by simp) htb
    refine ⟨.precedence p y z (.const 0), ?_, .precedence hfa hfb rfl rfl .nil⟩
    show call? scope (.precedence p) [.term (term m a), .term (term m b), .noDelay] = _
    refine Option.bind_eq_some_iff.2 ⟨_, hy, ?_⟩
    exact Option.bind_eq_some_iff.2 ⟨_, hz, rfl⟩
  · obtain ⟨y, hy, hfa⟩ := hread (by simp) hta
    obtain ⟨z, hz, hfb⟩ := hread (by simp) htb
    obtain ⟨d, hd, hfd⟩ := reads_int (hoffers (by simp)) htc
    obtain ⟨c', hc', hsame⟩ := Building.intArg_ok hfd
    refine ⟨.precedence p y z d, ?_, .precedence hfa hfb hc' ?_ (.cons (.item hsame) .nil)⟩
    · show call? scope (.precedence p) [.term (term m a), .term (term m b), .term (term m c)] = _
      refine Option.bind_eq_some_iff.2 ⟨_, hy, ?_⟩
      refine Option.bind_eq_some_iff.2 ⟨_, hz, ?_⟩
      exact Option.bind_eq_some_iff.2 ⟨_, hd, rfl⟩
    · unfold Builds.recordedDelay
      split
      · -- A delay of zero is excluded.
        obtain ⟨v, hv, hzero⟩ | ⟨_, _, _, hzero, _⟩ := hsame
        · obtain rfl := Option.some.inj hzero
          exact absurd hv (hdelay c (by simp))
        · exact nomatch hzero
      · rfl

theorem callable_inRange (ht : m.TakesAll .inRange args)
    (hb : ∀ x ∈ Arg.nodesOf args, ∀ b, m.literal? x ≠ some (.bool b))
    (hfin : ∀ x v, m.literal? x = some (.float v) → v.isFinite) :
    Callable m m' scope .inRange
      (each m (args.take 1) ++ (args.drop 1).map fun a => .term (floatTerm m a)) args none := by
  obtain ⟨a, b, hta, htb, ⟨-, hle⟩ | ⟨c, rfl, htc⟩⟩ := ht.triple rfl (Nat.le_succ 2)
  · exact nomatch hle
  obtain ⟨least, rfl, hleast⟩ := takes_float htb
  obtain ⟨greatest, rfl, hgreatest⟩ := takes_float htc
  have hmem {x : NodeId} (hx : x ∈ a.nodes) : x ∈ Arg.nodesOf [a, .float least, .float greatest] :=
    Arg.nodesOf_of_mem List.mem_cons_self hx
  obtain ⟨d, hd, hfd⟩ := reads_float (fun x hx => ho x (hmem hx)) hta
    (fun x hx => hb x (hmem hx)) hfin
  refine ⟨.inRange d least greatest, ?_, ?_⟩
  · show call? scope .inRange
      [.term (term m a), .term (.float least), .term (.float greatest)] = _
    exact Option.bind_eq_some_iff.2 ⟨_, hd, rfl⟩
  · refine .check (finite_ok hleast) (.check (finite_ok hgreatest) ?_)
    exact .bind (.floatOperand hfd) fun _ _ _ hx =>
      .plain (.cons (.item hx) (.cons (.float _) (.cons (.float _) .nil)))

theorem callable_floatGuard (ht : m.TakesAll .floatGuard args)
    (hb : ∀ x ∈ Arg.nodesOf args, ∀ b, m.literal? x ≠ some (.bool b))
    (hfin : ∀ x v, m.literal? x = some (.float v) → v.isFinite) :
    Callable m m' scope .floatGuard
      (each m (args.take 1) ++ (args.drop 1).map fun a => .term (floatTerm m a)) args none := by
  obtain ⟨a, b, rfl, hta, htb⟩ := ht.pair rfl rfl
  obtain ⟨default, rfl, hdefault⟩ := takes_float htb
  have hmem {x : NodeId} (hx : x ∈ a.nodes) : x ∈ Arg.nodesOf [a, .float default] :=
    Arg.nodesOf_of_mem List.mem_cons_self hx
  obtain ⟨d, hd, hfd⟩ := reads_float (fun x hx => ho x (hmem hx)) hta
    (fun x hx => hb x (hmem hx)) hfin
  refine ⟨.floatGuard d default, ?_, ?_⟩
  · show call? scope .floatGuard [.term (term m a), .term (.float default)] = _
    exact Option.bind_eq_some_iff.2 ⟨_, hd, rfl⟩
  · refine .check (finite_ok hdefault) (.bind (.floatOperand hfd) fun _ _ _ hx => ?_)
    exact .plain (.cons (.item hx) (.cons (.float _) .nil))

end Args

section Formed

variable (hf : m.Formed n) (hw : m.Writable n) (ho : ∀ x ∈ n.operands, Offers m m' scope x)
  (hfin : ∀ x v, m.literal? x = some (.float v) → v.isFinite)

include hf hw ho hfin

theorem callable_each (heach : writesEach n.operator) :
    Callable m m' scope n.operator (each m n.args) n.args none := by
  obtain ⟨⟨name, presence, bounds, values⟩, op, args, ref, uses⟩ := n
  have ht : m.TakesAll op args := hf.args
  have hoffers {a : Arg} (ha : a ∈ args) : ∀ x ∈ a.nodes, Offers m m' scope x :=
    fun x hx => ho x (Arg.nodesOf_of_mem ha hx)
  have hint (a : Arg) (ha : a ∈ args) (ht : m.Takes (.node .integral) a) :
      Reads m scope Operand.int? (IntFor m m') a := reads_int (hoffers ha) (takes_amount ht)
  have hamount (a : Arg) (ha : a ∈ args) (ht : m.Takes .amount a) :
      Reads m scope Operand.int? (IntFor m m') a := reads_int (hoffers ha) ht
  have hfloat (hop : op.takesFloats) (a : Arg) (ha : a ∈ args) (ht : m.Takes (.node .numeric) a) :
      Reads m scope Operand.float? (FloatFor m m') a :=
    reads_float (hoffers ha) ht (fun x hx => hw.truth hop x (Arg.nodesOf_of_mem ha hx)) hfin
  have hbool (a : Arg) (ha : a ∈ args) (ht : m.Takes (.node .boolean) a) :
      Reads m scope Operand.bool? (BoolFor m m') a := reads_bool (hoffers ha) ht
  have hnode {e : Expectation} {type : HandleType} (he : Typed e type) (a : Arg) (ha : a ∈ args)
      (ht : m.Takes (.node e) a) : Reads m scope (Operand.handle? type) (NodeFor e m m') a :=
    reads_handle (hoffers ha) he ht
  have hliteral (a : Arg) (_ : a ∈ args) (ht : m.Takes .int a) :
      Reads m scope Operand.intLiteral? (fun a v => a = .int v) a := reads_intLiteral ht
  cases op with
  | int op =>
    exact callable_binary (.int op) ht rfl rfl hint hint (fun _ _ => rfl)
      fun _ _ _ _ ha hb => .two operands_int ha hb
  | intNeg =>
    exact callable_unary .intNeg ht rfl rfl hint (fun _ => rfl) fun _ _ ha => .one operands_int ha
  | intAbs =>
    exact callable_unary .intAbs ht rfl rfl hint (fun _ => rfl) fun _ _ ha => .one operands_int ha
  | intGuard =>
    refine callable_binary .intGuard ht rfl rfl hint hliteral (fun _ _ => rfl) ?_
    rintro a _ c d ha rfl
    exact .bind (.intOperand ha) fun _ _ _ hx => .plain (.cons (.item hx) (.cons (.int _) .nil))
  | float op =>
    exact callable_binary (.float op) ht rfl rfl (hfloat rfl) (hfloat rfl) (fun _ _ => rfl)
      fun _ _ _ _ ha hb => .two operands_float ha hb
  | floatNeg =>
    exact callable_unary .floatNeg ht rfl rfl (hfloat rfl) (fun _ => rfl)
      fun _ _ ha => .one operands_float ha
  | floatAbs =>
    exact callable_unary .floatAbs ht rfl rfl (hfloat rfl) (fun _ => rfl)
      fun _ _ ha => .one operands_float ha
  | presence =>
    refine callable_unary .presence ht rfl rfl
      (fun a ha hta => reads_node (hoffers ha) hta fun x hx =>
        hw.presence rfl x (Arg.nodesOf_of_mem ha hx)) (fun _ => rfl) fun a y ha => ?_
    obtain ⟨n, hn⟩ := (ha.has y List.mem_cons_self).exists_node
    exact .check (node_ok hn) (.plain (.cons (.item ha) .nil))
  | identity =>
    exact callable_binary .identity ht rfl rfl (hfloat rfl) (hfloat rfl) (fun _ _ => rfl)
      fun _ _ _ _ ha hb => .two operands_float ha hb
  | compare c =>
    exact callable_binary (.compare c) ht rfl rfl (hfloat rfl) (hfloat rfl) (fun _ _ => rfl)
      fun _ _ _ _ ha hb => .two operands_float ha hb
  | connect c =>
    exact callable_binary (.connect c) ht rfl rfl hbool hbool (fun _ _ => rfl)
      fun _ _ _ _ ha hb => .two operands_bool ha hb
  | not =>
    exact callable_unary .not ht rfl rfl hbool (fun _ => rfl) fun _ _ ha => .one operands_bool ha
  | measure q =>
    exact callable_unary (.measure q) ht rfl rfl (hnode typed_interval) (fun _ => rfl)
      fun _ _ ha => .check (expect_ok ha.1) (.plain (.cons (.item ha.2) .nil))
  | measureOr q =>
    refine callable_binary (.measureOr q) ht rfl rfl (hnode typed_interval) hliteral
      (fun _ _ => rfl) ?_
    rintro a _ y v ha rfl
    exact .check (expect_ok ha.1) (.plain (.cons (.item ha.2) (.cons (.int _) .nil)))
  | intervalStep s =>
    exact callable_binary (.intervalStep s) ht rfl rfl (hnode typed_interval) hamount
      (fun _ _ => rfl) fun _ _ _ _ ha hb => .check (expect_ok ha.1) (.amount (.item ha.2) hb)
  | stepAt =>
    refine callable_binary .stepAt ht rfl rfl hliteral hamount (fun _ _ => rfl) ?_
    rintro _ b v d rfl hb
    exact .amount (.int v) hb
  | cumulPlus =>
    exact callable_binary .cumulPlus ht rfl rfl (hnode typed_cumulative) (hnode typed_cumulative)
      (fun _ _ => rfl) fun _ _ _ _ ha hb => .nodes ha hb
  | cumulMinus =>
    exact callable_binary .cumulMinus ht rfl rfl (hnode typed_cumulative) (hnode typed_cumulative)
      (fun _ _ => rfl) fun _ _ _ _ ha hb => .nodes ha hb
  | cumulNeg =>
    exact callable_unary .cumulNeg ht rfl rfl (hnode typed_cumulative) (fun _ => rfl)
      fun _ _ ha => .check (expect_ok ha.1) (.plain (.cons (.item ha.2) .nil))
  | cumulBound q =>
    refine callable_binary (.cumulBound q) ht rfl rfl (hnode typed_cumulative) hliteral
      (fun _ _ => rfl) ?_
    rintro a _ y v ha rfl
    exact .check (expect_ok ha.1) (.plain (.cons (.item ha.2) (.cons (.int _) .nil)))
  | stepFunctionEval =>
    refine callable_binary .stepFunctionEval ht rfl rfl (hnode typed_stepFunction) hint
      (fun _ _ => rfl) fun _ _ _ _ ha hb => .check (expect_ok ha.1) ?_
    refine .bind (.intOperand hb) fun _ m₁ h₁ hy => .plain ?_
    exact .cons (.item (h₁.keeps.sameItem ha.2)) (.cons (.item hy) .nil)
  | stepFunctionSum =>
    exact callable_binary .stepFunctionSum ht rfl rfl (hnode typed_stepFunction)
      (hnode typed_interval) (fun _ _ => rfl) fun _ _ _ _ ha hb =>
        .check (expect_ok ha.1) (.check (expect_ok hb.1)
          (.plain (.cons (.item ha.2) (.cons (.item hb.2) .nil))))
  | forbid q =>
    exact callable_binary (.forbid q) ht rfl rfl (hnode typed_interval) (hnode typed_stepFunction)
      (fun _ _ => rfl) fun _ _ _ _ ha hb =>
        .check (expect_ok hb.1) (.check (expect_ok ha.1)
          (.plain (.cons (.item ha.2) (.cons (.item hb.2) .nil))))
  | _ => exact nomatch heach

/-- The call for a node that is neither a constant nor a variable can be carried out. -/
theorem callable_node (hc : n.operator.isConstant = false) (hv : n.operator.isVariable = false) :
    Callable m m' scope n.operator (arguments m n) n.args n.values := by
  have hcall := callable_each hf hw ho hfin
  have htable := hf.table
  have htruth := hw.truth
  obtain ⟨⟨name, presence, bounds, values⟩, op, args, ref, uses⟩ := n
  have ht : m.TakesAll op args := hf.args
  have ho : ∀ x ∈ Arg.nodesOf args, Offers m m' scope x := ho
  cases op with
  | intAggregate q =>
    obtain rfl : values = none := htable
    exact callable_intAggregate ho ht
  | floatAggregate q =>
    obtain rfl : values = none := htable
    exact callable_floatAggregate ho ht (htruth rfl) hfin
  | inRange =>
    obtain rfl : values = none := htable
    exact callable_inRange ho ht (htruth rfl) hfin
  | floatGuard =>
    obtain rfl : values = none := htable
    exact callable_floatGuard ho ht (htruth rfl) hfin
  | precedence p =>
    obtain rfl : values = none := htable
    exact callable_precedence ho ht (hw.delay rfl)
  | alternative =>
    obtain rfl : values = none := htable
    exact callable_overIntervals ho .alternative ht rfl rfl (fun _ _ => rfl) fun _ _ => rfl
  | span =>
    obtain rfl : values = none := htable
    exact callable_overIntervals ho .span ht rfl rfl (fun _ _ => rfl) fun _ _ => rfl
  | cumulSum =>
    obtain rfl : values = none := htable
    exact callable_cumulSum ho ht
  | stepFunction =>
    obtain ⟨points, rfl, hpoints⟩ : ∃ points, values = some points ∧
      checkStepPoints points = .ok () := htable
    obtain rfl := List.forall₂_nil_left_iff.1 (ht.all rfl)
    exact callable_stepFunction hpoints
  | noOverlap =>
    obtain ⟨a, rfl, hta⟩ := ht.single rfl rfl
    cases a with
    | list items =>
      obtain ⟨ids, rfl, hids⟩ := hta
      refine callable_noOverlap ho hids List.mem_cons_self fun matrix hm => ?_
      obtain ⟨size, hsize, hcheck⟩ := htable matrix hm
      rwa [← Option.some.inj hsize, List.length_map] at hcheck
    | node x =>
      obtain ⟨seq, hseq, hk⟩ := hta
      refine callable_noOverlapSequence (ho x List.mem_cons_self) hseq (eq_sequenceVar hk)
        fun matrix hm => ?_
      obtain ⟨size, hsize, hcheck⟩ := htable matrix hm
      rw [matrixSize?, List.head?_cons] at hsize
      simp only [hseq, Option.map_some, Option.some.injEq] at hsize
      rwa [← hsize] at hcheck
    | _ => exact hta.elim
  | intConst | floatConst | boolConst => cases hc
  | intVar | boolVar | floatVar | intervalVar | sequenceVar => cases hv
  | _ =>
    obtain rfl : values = none := htable
    exact hcall rfl

end Formed

end Listing

namespace Building

variable {α β : Type} {m m' : Model}

/-! ### Checks of variables -/

theorem bind_ok {s : Building α} {f : α → Building β} {c : α} (h : s m = (.ok c, m')) :
    (s >>= f) m = f c m' := by
  rw [bind_apply, h]

theorem checkLimit_ok {what : String} {least greatest : Int} {bound : Option Int}
    (h : ∀ v ∈ bound, least ≤ v ∧ v ≤ greatest) :
    checkLimit what least greatest bound m = (.ok ⟨⟩, m) := by
  cases bound with
  | none => rfl
  | some v =>
    have := h v rfl
    rw [checkLimit, if_neg (by omega)]
    rfl

theorem checkBounds_ok {what : String} {low high : Option Int} {least greatest : Int}
    (h : Limited least greatest low high) :
    checkBounds what low high least greatest m = (.ok ⟨⟩, m) := by
  obtain ⟨hlow, hhigh, horder⟩ := h
  unfold checkBounds
  rw [bind_ok (checkLimit_ok hlow), bind_ok (checkLimit_ok hhigh)]
  cases low with
  | none => rfl
  | some l =>
    cases high with
    | none => rfl
    | some v => exact congrFun (if_neg (Int.not_lt.2 (horder l rfl v rfl))) m

theorem checkFinite_ok {what : String} {bound : Option Float} (h : ∀ x ∈ bound, x.isFinite) :
    checkFinite what bound m = (.ok ⟨⟩, m) := by
  cases bound with
  | none => rfl
  | some x =>
    show ((fun _ => PUnit.unit) <$> finite what x : Building PUnit) m = _
    rw [map_apply, finite_ok (h x rfl)]

end Building

namespace Listing

open Building (Builds expectAll_ok checkBounds_ok checkFinite_ok checkTypes_ok map_bind)

variable {m m' : Model} {scope : Scope} {n : Node}

/-! ### Calls of variables -/

theorem map_boundInt {bound : Option Int} (h : ∀ v ∈ bound, -intVarMax ≤ v ∧ v ≤ intVarMax) :
    (bound.map Float.ofInt).map boundInt = bound := by
  cases bound with
  | none => rfl
  | some v =>
    obtain ⟨hlow, hhigh⟩ := h v rfl
    rw [intVarMax] at hlow hhigh
    rw [Option.map_some, Option.map_some, boundInt_ofInt (by omega)]

section Variables

variable {name : Option String} {presence : Option Presence} {bounds : Bounds} {args : List Arg}
  {values : Option (List (List Int))} {ref : Option Nat} {uses : Nat}

/-- A variable without arguments is added as it is. -/
theorem builds_leaf {op : Operator} :
    Builds (some <$> Building.add { Node.plain op [] with bounds, presence, name }) m'
      fun m'' n' => m.SameNode m'' ⟨⟨name, presence, bounds, none⟩, op, [], ref, uses⟩ n' :=
  .add nofun ⟨rfl, rfl, .nil⟩

theorem builds_floatVar {low high : Option Float} (hlow : ∀ x ∈ low, x.isFinite)
    (hhigh : ∀ x ∈ high, x.isFinite) (horder : ∀ l ∈ low, ∀ h ∈ high, ¬ h < l) :
    Builds (some <$> Building.floatVar ⟨low, high, presence, name⟩) m'
      fun m'' n' => m.SameNode m'' ⟨⟨name, presence, { Bounds.none with min := low, max := high },
        none⟩, .floatVar, [], ref, uses⟩ n' := by
  rw [Building.floatVar, map_bind]
  refine .check (checkFinite_ok hlow) ?_
  rw [map_bind]
  refine .check (checkFinite_ok hhigh) ?_
  cases low with
  | none => exact builds_leaf
  | some l =>
    cases high with
    | none => exact builds_leaf
    | some v =>
      simp only [if_neg (horder l rfl v rfl)]
      exact builds_leaf

theorem builds_intervalVar
    (hstart : Limited (-intervalMax) intervalMax bounds.startMin bounds.startMax)
    (hend : Limited (-intervalMax) intervalMax bounds.endMin bounds.endMax)
    (hlength : Limited 0 lengthMax bounds.lengthMin bounds.lengthMax) :
    Builds (some <$> Building.intervalVar ⟨bounds, presence, name⟩) m'
      fun m'' n' => m.SameNode m'' ⟨⟨name, presence, bounds, none⟩, .intervalVar, [], ref, uses⟩
        n' := by
  rw [Building.intervalVar, map_bind]
  refine .check (checkBounds_ok hstart) ?_
  rw [map_bind]
  refine .check (checkBounds_ok hend) ?_
  rw [map_bind]
  exact .check (checkBounds_ok hlength) builds_leaf

/-- The types of a sequence are the only row of its table. -/
theorem exists_types {size : Nat} (h : ∀ rows, values = some rows →
      ∃ types : List Int, rows = [types] ∧ types.length = size ∧ ∀ t ∈ types, 0 ≤ t) :
    ∃ types : Option (List Int), values = types.map (fun types => [types]) ∧
      values.bind List.head? = types ∧ ∀ ts ∈ types, ts.length = size ∧ ∀ t ∈ ts, 0 ≤ t := by
  cases values with
  | none => exact ⟨none, rfl, rfl, nofun⟩
  | some rows =>
    obtain ⟨types, rfl, hlength, hpos⟩ := h rows rfl
    refine ⟨some types, rfl, rfl, fun ts hts => ?_⟩
    obtain rfl := Option.some.inj hts
    exact ⟨hlength, hpos⟩

theorem exists_sequenceCall {ids : List NodeId}
    (ho : ∀ x ∈ Arg.nodesOf [.list (ids.map Arg.node)], Offers m m' scope x)
    (hids : ∀ x ∈ ids, m.Is .interval x)
    (htable : ∀ rows, values = some rows →
      ∃ types : List Int, rows = [types] ∧ types.length = ids.length ∧ ∀ t ∈ types, 0 ≤ t) :
    ∃ c, (VariableHead.sequence (headItems m [.list (ids.map Arg.node)])
        (values.bind List.head?)).call? scope none name = some c ∧
      Builds c.run m' fun m'' n' => m.SameNode m'' ⟨⟨name, none, .none, values⟩, .sequenceVar,
        [.list (ids.map Arg.node)], ref, uses⟩ n' := by
  obtain ⟨ys, hys, his, hsame, hlen⟩ := exists_handles ho typed_interval hids List.mem_cons_self []
  obtain ⟨types, hvalues, hhead, htypes⟩ := exists_types htable
  refine ⟨.sequenceVar ⟨ys, types, name⟩, ?_, ?_⟩
  · rw [VariableHead.call?, hys, hhead]
    rfl
  · show Builds (some <$> Building.sequenceVar _) _ _
    rw [Building.sequenceVar, map_bind]
    refine .check (expectAll_ok his) ?_
    rw [map_bind]
    refine .check (checkTypes_ok.2 fun ts hts => hlen ▸ htypes ts hts) ?_
    have hargs : List.Forall₂ (m.SameArg m') [.list (ids.map Arg.node)]
        [.list (ys.map Arg.node)] := .cons hsame .nil
    rw [hvalues]
    exact .add (forall_nodesOf hargs fun _ _ hab => hab.has) ⟨rfl, rfl, hargs⟩

end Variables

/-- The call for a variable can be read, and adds a variable that says the same. -/
theorem exists_variableCall (hf : m.Formed n) (hv : n.operator.isVariable)
    (ho : ∀ x ∈ n.operands, Offers m m' scope x) :
    ∃ c, (variableHead m n).call? scope n.presence n.name = some c ∧
      Builds c.run m' fun m'' n' => m.SameNode m'' n n' := by
  have hargs := hf.args
  have htable := hf.table
  have hbounds := hf.bounds
  have hpresence := hf.presence
  obtain ⟨⟨name, presence, bounds, values⟩, op, args, ref, uses⟩ := n
  have ht : m.TakesAll op args := hargs
  cases op with
  | intVar =>
    obtain rfl := List.forall₂_nil_left_iff.1 (ht.all rfl)
    obtain rfl : values = none := htable
    obtain ⟨low, high, hlimited, rfl⟩ := hbounds
    refine ⟨.intVar ⟨low, high, presence, name⟩, ?_, ?_⟩
    · show some (Call.intVar ⟨(low.map Float.ofInt).map boundInt, (high.map Float.ofInt).map boundInt,
        presence, name⟩) = _
      rw [map_boundInt hlimited.1, map_boundInt hlimited.2.1]
    · show Builds (some <$> Building.intVar _) _ _
      rw [Building.intVar, map_bind]
      exact .check (checkBounds_ok hlimited) builds_leaf
  | boolVar =>
    obtain rfl := List.forall₂_nil_left_iff.1 (ht.all rfl)
    obtain rfl : values = none := htable
    obtain rfl : bounds = .none := hbounds
    exact ⟨.boolVar ⟨presence, name⟩, rfl, builds_leaf⟩
  | floatVar =>
    obtain rfl := List.forall₂_nil_left_iff.1 (ht.all rfl)
    obtain rfl : values = none := htable
    obtain ⟨low, high, hlow, hhigh, horder, rfl⟩ := hbounds
    exact ⟨.floatVar ⟨low, high, presence, name⟩, rfl, builds_floatVar hlow hhigh horder⟩
  | intervalVar =>
    obtain rfl := List.forall₂_nil_left_iff.1 (ht.all rfl)
    obtain rfl : values = none := htable
    obtain ⟨hstart, hend, hlength⟩ := hbounds
    exact ⟨.intervalVar ⟨bounds, presence, name⟩, rfl, builds_intervalVar hstart hend hlength⟩
  | sequenceVar =>
    obtain ⟨a, rfl, hta⟩ := ht.single rfl rfl
    obtain ⟨ids, rfl, hids⟩ := takes_nodes hta
    obtain rfl : presence = none := by
      cases presence with
      | none => rfl
      | some p => cases hpresence rfl
    obtain rfl : bounds = .none := hbounds
    refine exists_sequenceCall ho hids fun rows hrows => ?_
    obtain ⟨types, hrow, hlength, hpos⟩ := htable rows hrows
    exact ⟨types, hrow, hlength.trans (List.length_map ..), hpos⟩
  | _ => cases hv

/-- What the call of an expression or a constraint adds is the node without its name. -/
theorem sameNode_of_like {n' : Node} (hf : m.Formed n) (hv : n.operator.isVariable = false)
    (h : Building.Like m n.operator n.args n.values m' n') :
    m.SameNode m' { n with name := none } n' := by
  obtain ⟨args', rfl, hargs⟩ := h
  have hbounds := hf.bounds
  have hpresence := hf.presence
  obtain ⟨⟨name, presence, bounds, values⟩, op, args, ref, uses⟩ := n
  obtain rfl : presence = none := by
    cases presence with
    | none => rfl
    | some p =>
      exact nomatch hv.symm.trans (Operator.isVariable_of_hasPresence (hpresence rfl))
  obtain rfl : bounds = .none := by
    cases op <;> first | exact hbounds | exact nomatch hv
  exact ⟨rfl, rfl, hargs⟩

end Listing

end Scheduling
