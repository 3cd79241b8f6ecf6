import Scheduling.Proofs.Listing.Rebuilt

/-!
# Operands of listings

What a listing writes for a node stands for the node (`Stands`): it is read as an operand that says
the same, unless it is a truth value where a number is asked for. Building succeeds with what was
read (`Succeeds`), and gives an argument that says the same.
-/

namespace Scheduling

namespace Listing

open Model

variable {m m' m'' : Model} {scope : Scope} {x y : NodeId} {n n' : Node} {a : Arg} {l : Literal}
  {e : Expectation} {o : Operand}

/-! ### Types of handles -/

theorem isInt_of (op : Operator) :
    (HandleType.of op).isInt = Expectation.integral.accepts op.kind := by cases op <;> rfl

theorem isFloat_of (op : Operator) :
    (HandleType.of op).isFloat = Expectation.numeric.accepts op.kind := by cases op <;> rfl

theorem isBool_of (op : Operator) :
    (HandleType.of op).isBool = Expectation.boolean.accepts op.kind := by cases op <;> rfl

/-- Nodes that are as expected have handles of one type, and are no constants. -/
def Typed (e : Expectation) (type : HandleType) : Prop :=
  ∀ op : Operator, e.accepts op.kind → HandleType.of op = type ∧ op.isConstant = false

theorem typed_interval : Typed .interval .intervalVar := fun op h => by
  cases op <;> first | exact ⟨rfl, rfl⟩ | exact nomatch h

theorem typed_cumulative : Typed .cumulative .cumulExpr := fun op h => by
  cases op <;> first | exact ⟨rfl, rfl⟩ | exact nomatch h

theorem typed_stepFunction : Typed .stepFunction .stepFunction := fun op h => by
  cases op <;> first | exact ⟨rfl, rfl⟩ | exact nomatch h

/-! ### Uses of nodes -/

theorem of_literal? (h : n.literal? = some l) :
    n.operator = l.operator ∧ n.args.head? = some l.arg := by
  unfold Node.literal? at h
  split at h <;> simp_all <;> subst h <;> exact ⟨rfl, rfl⟩

theorem isConstant_of_literal? (h : n.literal? = some l) : n.operator.isConstant := by
  rw [(of_literal? h).1]
  cases l <;> rfl

theorem use_of_literal (h : m.literal? x = some l) : use m x = l.term := by
  obtain ⟨n, hn, hl⟩ := literal?_eq_some.1 h
  obtain ⟨d, hd⟩ := Nat.exists_eq_add_one_of_ne_zero
    (Nat.ne_of_gt (Nat.lt_of_le_of_lt (Nat.zero_le _) (has_of_node? hn).2))
  rw [use, hd, useBelow]
  simp only [hn, if_pos (isConstant_of_literal? hl), (of_literal? hl).2]
  cases l <;> rfl

theorem use_of_bound (hn : m.node? x = some n) (hc : n.operator.isConstant = false) :
    use m x = .bound x := by
  rw [use]
  cases m.nodes.size with
  | zero => rfl
  | succ d => simp [useBelow, hn, hc]

/-- An operand stands for a node: it is the literal of a constant, or the handle of the node at the
same place of another model. -/
inductive Stands (m m' : Model) (x : NodeId) : Operand → Prop where
  | literal {l : Literal} : m.literal? x = some l → Stands m m' x l.operand
  | handle {y : NodeId} {n n' : Node} : m.node? x = some n → n.operator.isConstant = false →
      m'.node? y = some n' → m.SameNode m' n n' → m.Peers m' x y →
      Stands m m' x (.handle ⟨.of n.operator, y⟩)

/-- What is written for a node can be read, and stands for the node. -/
def Offers (m m' : Model) (scope : Scope) (x : NodeId) : Prop :=
  ∃ o, (use m x).operand? scope = some o ∧ Stands m m' x o

theorem offers_literal (h : m.literal? x = some l) : Offers m m' scope x := by
  refine ⟨l.operand, ?_, .literal h⟩
  rw [use_of_literal h]
  cases l <;> rfl

/-! ### Reading -/

/-- An integer operand says the same as an argument. -/
def IntFor (m m' : Model) (a : Arg) : IntOperand → Prop
  | .const v => m.number? a = some (.int v)
  | .node y => m'.Is .integral y ∧ m.SameItem m' a (.node y)

/-- A numeric operand says the same as an argument. -/
def FloatFor (m m' : Model) (a : Arg) : FloatOperand → Prop
  | .int v => m.number? a = some (.int v)
  | .float x => m.number? a = some (.float x) ∧ x.isFinite
  | .node y => m'.Is .numeric y ∧ m.SameItem m' a (.node y)

/-- A truth-valued operand says the same as an argument. -/
def BoolFor (m m' : Model) (a : Arg) : BoolOperand → Prop
  | .const b => m.number? a = some (.int (ofTruth b))
  | .node y => m'.Is .boolean y ∧ m.SameItem m' a (.node y)

/-- A node is as expected, and says the same as an argument. -/
def NodeFor (e : Expectation) (m m' : Model) (a : Arg) (y : NodeId) : Prop :=
  m'.Is e y ∧ m.SameItem m' a (.node y)

theorem IntFor.later {c : IntOperand} (hm : Prepared m' m'') (h : IntFor m m' a c) :
    IntFor m m'' a c := by
  cases c with
  | const v => exact h
  | node y => exact ⟨hm.keeps.is h.1, hm.keeps.sameItem h.2⟩

theorem FloatFor.later {c : FloatOperand} (hm : Prepared m' m'') (h : FloatFor m m' a c) :
    FloatFor m m'' a c := by
  cases c with
  | node y => exact ⟨hm.keeps.is h.1, hm.keeps.sameItem h.2⟩
  | _ => exact h

theorem BoolFor.later {c : BoolOperand} (hm : Prepared m' m'') (h : BoolFor m m' a c) :
    BoolFor m m'' a c := by
  cases c with
  | const b => exact h
  | node y => exact ⟨hm.keeps.is h.1, hm.keeps.sameItem h.2⟩

theorem NodeFor.later (hm : Prepared m' m'') (h : NodeFor e m m' a y) : NodeFor e m m'' a y :=
  ⟨hm.keeps.is h.1, hm.keeps.sameItem h.2⟩

theorem number?_of_literal (h : m.literal? x = some l) :
    m.number? (.node x) = some l.number := by
  rw [number?, h, Option.map_some]

theorem kind_of_literal (h : m.literal? x = some l) (hx : m.Is e x) :
    e.accepts l.operator.kind := by
  obtain ⟨n, hn, hk⟩ := hx
  obtain ⟨n', hn', hl⟩ := literal?_eq_some.1 h
  obtain rfl := Option.some.inj (hn.symm.trans hn')
  rwa [Node.kind, (of_literal? hl).1] at hk

/-- A handle that stands for a node has the type that the node's kind asks for. -/
theorem nodeFor_of_peers (hn : m.node? x = some n) (hn' : m'.node? y = some n')
    (hs : m.SameNode m' n n') (hp : m.Peers m' x y) (hx : m.Is e x) :
    e.accepts n.operator.kind ∧ NodeFor e m m' (.node x) y := by
  obtain ⟨n₁, hn₁, hk⟩ := hx
  obtain rfl := Option.some.inj (hn₁.symm.trans hn)
  exact ⟨hk, ⟨n', hn', by rwa [Node.kind, hs.operator]⟩, .inr ⟨x, y, rfl, rfl, hp⟩⟩

namespace Stands

theorem int (h : Stands m m' x o) (hx : m.Is .integral x) :
    ∃ c, o.int? = some c ∧ IntFor m m' (.node x) c := by
  cases h with
  | @literal l hl =>
    have hk := kind_of_literal hl hx
    have hv := number?_of_literal hl
    cases l with
    | int v => exact ⟨_, rfl, hv⟩
    | bool b => exact ⟨_, rfl, hv⟩
    | float v => exact nomatch hk
  | handle hn hc hn' hs hp =>
    obtain ⟨hk, hfor⟩ := nodeFor_of_peers hn hn' hs hp hx
    exact ⟨_, if_pos ((isInt_of _).trans hk), hfor⟩

theorem float (h : Stands m m' x o) (hx : m.Is .numeric x) (hb : ∀ b, m.literal? x ≠ some (.bool b))
    (hfin : ∀ v, m.literal? x = some (.float v) → v.isFinite) :
    ∃ c, o.float? = some c ∧ FloatFor m m' (.node x) c := by
  cases h with
  | @literal l hl =>
    have hv := number?_of_literal hl
    cases l with
    | int v => exact ⟨_, rfl, hv⟩
    | bool b => exact absurd hl (hb b)
    | float v => exact ⟨_, rfl, hv, hfin v hl⟩
  | handle hn hc hn' hs hp =>
    obtain ⟨hk, hfor⟩ := nodeFor_of_peers hn hn' hs hp hx
    exact ⟨_, if_pos ((isFloat_of _).trans hk), hfor⟩

theorem bool (h : Stands m m' x o) (hx : m.Is .boolean x) :
    ∃ c, o.bool? = some c ∧ BoolFor m m' (.node x) c := by
  cases h with
  | @literal l hl =>
    have hk := kind_of_literal hl hx
    have hv := number?_of_literal hl
    cases l with
    | bool b => exact ⟨_, rfl, hv⟩
    | int v => exact nomatch hk
    | float v => exact nomatch hk
  | handle hn hc hn' hs hp =>
    obtain ⟨hk, hfor⟩ := nodeFor_of_peers hn hn' hs hp hx
    exact ⟨_, if_pos ((isBool_of _).trans hk), hfor⟩

theorem handle? {type : HandleType} (h : Stands m m' x o) (hx : m.Is e x) (he : Typed e type) :
    ∃ y, o.handle? type = some y ∧ NodeFor e m m' (.node x) y := by
  cases h with
  | @literal l hl =>
    have hc := (he _ (kind_of_literal hl hx)).2
    cases l <;> exact nomatch hc
  | handle hn hc hn' hs hp =>
    obtain ⟨hk, hfor⟩ := nodeFor_of_peers hn hn' hs hp hx
    exact ⟨_, if_pos (he _ hk).1, hfor⟩

end Stands

/-! ### Reading arguments -/

section Reading

variable {α : Type} {R : Arg → α → Prop} {read : Operand → Option α}

/-- What is written for an argument is read as something that says the same. -/
def Reads (m : Model) (scope : Scope) (read : Operand → Option α) (R : Arg → α → Prop) (a : Arg) :
    Prop := ∃ c, (Argument.term (term m a)).read? scope read = some c ∧ R a c

theorem reads_of_stands (h : Offers m m' scope x)
    (hread : ∀ o, Stands m m' x o → ∃ c, read o = some c ∧ R (.node x) c) :
    Reads m scope read R (.node x) := by
  obtain ⟨o, ho, hs⟩ := h
  obtain ⟨c, hc, hR⟩ := hread o hs
  refine ⟨c, ?_, hR⟩
  show ((use m x).operand? scope).bind read = some c
  rw [ho, Option.bind_some, hc]

theorem exists_readAll? {items : List Arg} (h : ∀ a ∈ items, Reads m scope read R a) :
    ∃ cs, Argument.readAll? scope read (items.map (term m)) = some cs ∧ List.Forall₂ R items cs := by
  induction items with
  | nil => exact ⟨[], rfl, .nil⟩
  | cons a rest ih =>
    obtain ⟨c, hc, hR⟩ := h a List.mem_cons_self
    obtain ⟨cs, hcs, hall⟩ := ih fun b hb => h b (List.mem_cons_of_mem _ hb)
    refine ⟨c :: cs, ?_, .cons hR hall⟩
    have hc : ((term m a).operand? scope).bind read = some c := hc
    have hcs : (rest.map (term m)).mapM (fun t => (t.operand? scope).bind read) = some cs := hcs
    rw [Argument.readAll?, List.map_cons, List.mapM_cons, hc, hcs]
    rfl

variable (ho : ∀ x ∈ a.nodes, Offers m m' scope x)

include ho

theorem reads_int (ht : m.Takes .amount a) : Reads m scope Operand.int? (IntFor m m') a := by
  cases a with
  | int v => exact ⟨_, rfl, rfl⟩
  | node x => exact reads_of_stands (ho x List.mem_cons_self) fun _ hs => hs.int ht
  | _ => exact ht.elim

theorem reads_float (ht : m.Takes (.node .numeric) a)
    (hb : ∀ x ∈ a.nodes, ∀ b, m.literal? x ≠ some (.bool b))
    (hfin : ∀ x v, m.literal? x = some (.float v) → v.isFinite) :
    Reads m scope Operand.float? (FloatFor m m') a := by
  cases a with
  | node x =>
    have hx := List.mem_cons_self (a := x) (l := [])
    exact reads_of_stands (ho x hx) fun _ hs => hs.float ht (hb x hx) (hfin x)
  | _ => exact ht.elim

theorem reads_bool (ht : m.Takes (.node .boolean) a) :
    Reads m scope Operand.bool? (BoolFor m m') a := by
  cases a with
  | node x => exact reads_of_stands (ho x List.mem_cons_self) fun _ hs => hs.bool ht
  | _ => exact ht.elim

theorem reads_handle {type : HandleType} (he : Typed e type) (ht : m.Takes (.node e) a) :
    Reads m scope (Operand.handle? type) (NodeFor e m m') a := by
  cases a with
  | node x => exact reads_of_stands (ho x List.mem_cons_self) fun _ hs => hs.handle? ht he
  | _ => exact ht.elim

theorem reads_node (ht : m.Takes .anyNode a) (hl : ∀ x ∈ a.nodes, m.literal? x = none) :
    Reads m scope Operand.node? (fun a y => m.SameItem m' a (.node y)) a := by
  cases a with
  | node x =>
    refine reads_of_stands (ho x List.mem_cons_self) fun o hs => ?_
    cases hs with
    | literal hx =>
      rw [hl x List.mem_cons_self] at hx
      exact nomatch hx
    | handle _ _ _ _ hp => exact ⟨_, rfl, .inr ⟨x, _, rfl, rfl, hp⟩⟩
  | _ => exact ht.elim

end Reading

end Listing

namespace Building

open Model Listing

variable {α β γ : Type} {m m' m₀ : Model} {id y : NodeId} {n : Node} {a : Arg} {l : Literal}
  {e : Expectation}

/-! ### Steps that succeed -/

/-- A part of a call that gives a result with a property, and builds nothing but constants. -/
def Succeeds (s : Building α) (m : Model) (P : α → Model → Prop) : Prop :=
  ∃ c m', Prepared m m' ∧ s m = (.ok c, m') ∧ P c m'

/-- A call that adds a node with a property, and constants before it. -/
def Builds (s : Building (Option NodeId)) (m : Model) (P : Model → Node → Prop) : Prop :=
  ∃ m' n, Prepared m m' ∧ s m = (.ok (some (m'.idAt m'.nodes.size)), m'.extend n) ∧ P m' n

theorem check_ok {r : Except ModelError α} {c : α} (h : r = .ok c) : check r m = (.ok c, m) := by
  rw [check_apply, h]

theorem node_ok (h : m.node? id = some n) : node id m = (.ok n, m) := check_ok (node_eq_ok.2 h)

theorem expect_ok (h : m.Is e id) : expect e id m = (.ok ⟨⟩, m) := by
  obtain ⟨n, hn, hk⟩ := h
  rw [expect, bind_apply, node_ok hn]
  simp only [if_pos hk]
  rfl

theorem expectAll_ok {ids : List NodeId} (h : ∀ id ∈ ids, m.Is e id) :
    expectAll e ids m = (.ok ⟨⟩, m) := by
  induction ids with
  | nil => rfl
  | cons id ids ih =>
    rw [expectAll, bind_apply, expect_ok (h id List.mem_cons_self)]
    exact ih fun x hx => h x (List.mem_cons_of_mem _ hx)

theorem finite_ok {what : String} {x : Float} (h : x.isFinite) : finite what x m = (.ok x, m) := by
  rw [finite, if_pos h]
  rfl

namespace Succeeds

variable {P : α → Model → Prop} {Q : β → Model → Prop}

theorem pure {c : α} (h : P c m) : Succeeds (pure c) m P := ⟨c, m, .refl, rfl, h⟩

theorem bind {s : Building α} {f : α → Building β} (hs : Succeeds s m P)
    (hf : ∀ c m', Prepared m m' → P c m' → Succeeds (f c) m' Q) : Succeeds (s >>= f) m Q := by
  obtain ⟨c, m₁, h₁, he₁, hc⟩ := hs
  obtain ⟨d, m₂, h₂, he₂, hd⟩ := hf c m₁ h₁ hc
  exact ⟨d, m₂, h₁.trans h₂, by rw [bind_apply, he₁]; exact he₂, hd⟩

/-- A constant has the number of its value. -/
theorem constant (hl : l.Sound) (ha : m₀.number? a = some l.number) :
    Succeeds (constant l.is l.operator l.arg) m fun y m' => m₀.SameItem m' a (.node y) := by
  obtain ⟨y, m', hm, he, hy⟩ := exists_constant hl m
  refine ⟨y, m', hm, he, .inl ⟨l.number, ha, ?_⟩⟩
  rw [number?, literal?_of_constant? hy, Option.map_some]

theorem intOperand {c : IntOperand} (h : IntFor m₀ m a c) :
    Succeeds (intOperand c) m fun y m' => m₀.SameItem m' a (.node y) := by
  cases c with
  | const v => exact constant (l := .int v) trivial h
  | node y => exact ⟨y, m, .refl, by rw [Building.intOperand, bind_apply, expect_ok h.1]; rfl, h.2⟩

theorem floatOperand {c : FloatOperand} (h : FloatFor m₀ m a c) :
    Succeeds (floatOperand c) m fun y m' => m₀.SameItem m' a (.node y) := by
  cases c with
  | int v => exact constant (l := .int v) trivial h
  | float x =>
    obtain ⟨y, m', hm, he, hy⟩ := constant (m := m) (l := .float x) h.2 h.1
    refine ⟨y, m', hm, ?_, hy⟩
    rw [Building.floatOperand, floatConst, bind_apply, finite_ok h.2]
    exact he
  | node y =>
    exact ⟨y, m, .refl, by rw [Building.floatOperand, bind_apply, expect_ok h.1]; rfl, h.2⟩

theorem boolOperand {c : BoolOperand} (h : BoolFor m₀ m a c) :
    Succeeds (boolOperand c) m fun y m' => m₀.SameItem m' a (.node y) := by
  cases c with
  | const b => exact constant (l := .bool b) trivial h
  | node y =>
    exact ⟨y, m, .refl, by rw [Building.boolOperand, bind_apply, expect_ok h.1]; rfl, h.2⟩

end Succeeds

/-- A literal stays a literal. -/
theorem intArg_ok {c : IntOperand} (h : IntFor m₀ m a c) :
    ∃ b, intArg c m = (.ok b, m) ∧ m₀.SameItem m a b := by
  cases c with
  | const v => exact ⟨.int v, rfl, .inl ⟨.int v, h, rfl⟩⟩
  | node y => exact ⟨.node y, by rw [intArg, bind_apply, expect_ok h.1]; rfl, h.2⟩

/-- Operands of a kind, which `R` relates to arguments, are built to arguments that say the same. -/
structure Operands (m₀ : Model) (build : γ → Building NodeId) (R : Model → Arg → γ → Prop) :
    Prop where
  later : ∀ {m m' : Model} {a : Arg} {c : γ}, Prepared m m' → R m a c → R m' a c
  succeeds : ∀ {m : Model} {a : Arg} {c : γ}, R m a c →
    Succeeds (build c) m fun y m' => m₀.SameItem m' a (.node y)

theorem operands_int : Operands m₀ intOperand (IntFor m₀) := ⟨IntFor.later, .intOperand⟩

theorem operands_float : Operands m₀ floatOperand (FloatFor m₀) := ⟨FloatFor.later, .floatOperand⟩

theorem operands_bool : Operands m₀ boolOperand (BoolFor m₀) := ⟨BoolFor.later, .boolOperand⟩

/-- Operands of a list, built from left to right. -/
theorem Operands.each {build : γ → Building NodeId} {R : Model → Arg → γ → Prop}
    (ho : Operands m₀ build R) {all : List γ → Building (List NodeId)} (hnil : all [] = pure [])
    (hcons : ∀ c rest, all (c :: rest) = build c >>= fun y => all rest >>= fun ys =>
      pure (y :: ys)) {as : List Arg} {cs : List γ} (h : List.Forall₂ (R m) as cs) :
    Succeeds (all cs) m fun ys m' => List.Forall₂ (m₀.SameItem m') as (ys.map Arg.node) := by
  induction as generalizing m cs with
  | nil =>
    obtain rfl := List.forall₂_nil_left_iff.1 h
    rw [hnil]
    exact .pure .nil
  | cons a as ih =>
    obtain ⟨c, cs, hac, hall, rfl⟩ := List.forall₂_cons_left_iff.1 h
    rw [hcons]
    refine .bind (ho.succeeds hac) fun y m₁ h₁ hy => ?_
    refine .bind (ih (hall.imp fun _ _ => ho.later h₁)) fun ys m₂ h₂ hys => .pure ?_
    exact .cons (h₂.keeps.sameItem hy) hys

end Building

end Scheduling
