import Scheduling.Proofs.Arena.Coherent
import Scheduling.Proofs.Arena.Formed

/-!
# What a call does

Every call of the modeling vocabulary builds constants for its operands and then takes at most one
further step (`call_cases`); a call that fails has built constants at most. What a model keeps under
both is kept by every call.
-/

namespace Scheduling

/-! ### Constants -/

/-- The value of a constant. -/
inductive Literal where
  | int (v : Int)
  | float (x : Float)
  | bool (b : Bool)
deriving DecidableEq

namespace Literal

/-- The operator of the constants of this type. -/
def operator : Literal → Operator
  | int _ => .intConst
  | float _ => .floatConst
  | bool _ => .boolConst

/-- The value as an argument. -/
def arg : Literal → Arg
  | int v => .int v
  | float x => .float x
  | bool b => .bool b

/-- The node of the constant. -/
def node (l : Literal) : Node := .plain l.operator [l.arg]

/-- Whether a node is the constant. -/
def is : Literal → Node → Bool
  | int v => Node.isIntConst v
  | float x => Node.isFloatConst x
  | bool b => Node.isBoolConst b

/-- Floats in a model are finite. -/
def Sound : Literal → Prop
  | float x => x.isFinite
  | _ => True

theorem is_node (l : Literal) : l.is l.node := by
  cases l <;> simp [is, node, operator, arg, Node.plain, Node.fresh, Node.isIntConst,
    Node.isFloatConst, Node.isBoolConst]

end Literal

namespace Model

variable {m m' m'' : Model} {id : NodeId} {e : Expectation} {n : Node} {l : Literal}

theorem constant?_push (is : Node → Bool) :
    (m.push n).constant? is =
      (m.constant? is).or (if is n then some (m.idAt m.nodes.size) else none) := by
  have hfind : (m.push n).nodes.findIdx? is = (m.nodes.push n).findIdx? is := rfl
  rw [constant?, constant?, hfind, Array.findIdx?_push]
  cases m.nodes.findIdx? is with
  | some i => rfl
  | none => cases is n <;> rfl

/-- A later model has more constants, and is otherwise the same. -/
inductive Prepared (m : Model) : Model → Prop where
  | refl : Prepared m m
  | push {m' : Model} (l : Literal) : Prepared m m' → l.Sound → m'.constant? l.is = none →
      Prepared m (m'.push l.node)

namespace Prepared

theorem trans (h : Prepared m m') (h' : Prepared m' m'') : Prepared m m'' := by
  induction h' with
  | refl => exact h
  | push l _ hl hnew ih => exact .push l ih hl hnew

theorem grows (h : Prepared m m') : Grows m m' := by
  induction h with
  | refl => exact .refl m
  | push l _ _ _ ih => exact ih.trans grows_push

theorem keeps (h : Prepared m m') : Keeps m m' := h.grows.keeps

theorem name (h : Prepared m m') : m'.name = m.name := by
  induction h with
  | refl => rfl
  | push l _ _ _ ih => exact ih

theorem topLevel (h : Prepared m m') : m'.topLevel = m.topLevel := by
  induction h with
  | refl => rfl
  | push l _ _ _ ih => exact ih

theorem objective (h : Prepared m m') : m'.objective = m.objective := by
  induction h with
  | refl => rfl
  | push l _ _ _ ih => exact ih

end Prepared

theorem isConst_of_constant? (h : m.constant? l.is = some id) :
    ∃ n, m.node? id = some n ∧ l.is n := by
  obtain ⟨i, hi, rfl⟩ := Option.map_eq_some_iff.1 h
  obtain ⟨hlt, hp, -⟩ := Array.findIdx?_eq_some_iff_getElem.1 hi
  exact ⟨m.nodes[i], by rw [node?_idAt, Array.getElem?_eq_getElem hlt], hp⟩

theorem operator_of_is (h : l.is n) : n.operator = l.operator := by
  cases l <;> simp only [Literal.is, Node.isIntConst, Node.isFloatConst, Node.isBoolConst] at h <;>
    split at h <;> simp_all [Literal.operator]

theorem is_of_constant? (h : m.constant? l.is = some id) (he : e.accepts l.operator.kind) :
    m.Is e id := by
  obtain ⟨n, hn, his⟩ := isConst_of_constant? h
  exact ⟨n, hn, by rwa [Node.kind, operator_of_is his]⟩

end Model

/-! ### Steps -/

/-- The step that a call takes once it has the constants for its operands. -/
inductive Move where
  /-- No further step: the call is for the constant. -/
  | constant (l : Literal)
  | add (n : Node)
  | post (id : NodeId)
  | optimize (sense : Sense) (expr : NodeId)
  | nameNode (id : NodeId) (name : String)
  | nameModel (name : String)

namespace Move

/-- The model after the step. -/
def apply (m : Model) : Move → Model
  | constant _ => m
  | add n => m.extend n
  | post id => m.addTopLevel id
  | optimize sense expr => { m.materialize expr with objective := some ⟨sense, expr⟩ }
  | nameNode id name => (m.renamed id name).materialize id
  | nameModel name => { m with name := some name }

/-- The node that the call returns. -/
def result (m : Model) : Move → Option NodeId
  | constant l => m.constant? l.is
  | add _ => some (m.idAt m.nodes.size)
  | _ => none

/-- What holds of the model when the step is taken. -/
def Allowed (m : Model) : Move → Prop
  | constant l => (m.constant? l.is).isSome
  | add n => m.Formed n ∧ n.ref = none ∧ n.uses = 0 ∧ (n.name.isSome → n.operator.isVariable) ∧
      n.operator.isConstant = false
  | post id => m.Is .boolean id
  | optimize _ expr => m.Is .numeric expr
  | nameNode id _ => m.Has id
  | nameModel _ => True

end Move

namespace Model

/-- The node of a truth-valued operand. -/
def boolNode? (m : Model) : BoolOperand → Option NodeId
  | .const b => m.constant? (Node.isBoolConst b)
  | .node id => some id

/-- The node of a numeric operand. -/
def floatNode? (m : Model) : FloatOperand → Option NodeId
  | .int v => m.constant? (Node.isIntConst v)
  | .float x => m.constant? (Node.isFloatConst x)
  | .node id => some id

/-- Which step a call takes. -/
def Leads (m : Model) : Call → Move → Prop
  | .intConst i, v => v = .constant (.int i)
  | .floatConst x, v => v = .constant (.float x)
  | .boolConst b, v => v = .constant (.bool b)
  | .constraint a, v => ∃ id, m.boolNode? a = some id ∧ v = .post id
  | .optimize sense a, v => ∃ expr, m.floatNode? a = some expr ∧ v = .optimize sense expr
  | .nameNode id name, v => v = .nameNode id name
  | .nameModel name, v => v = .nameModel name
  | _, v => ∃ n, v = .add n

end Model

namespace Building

open Model

variable {α β : Type} {m : Model} {id : NodeId} {e : Expectation} {l : Literal}

/-! ### Steps of building on a model -/

theorem bind_apply (x : Building α) (f : α → Building β) (m : Model) :
    (x >>= f) m = match x m with
      | (.ok a, m') => f a m'
      | (.error e, m') => (.error e, m') := by
  show ExceptT.bind x f m = _
  simp only [ExceptT.bind, ExceptT.mk, bind, StateT.bind]
  rcases x m with ⟨r, m'⟩
  cases r <;> rfl

theorem pure_apply (a : α) (m : Model) : (pure a : Building α) m = (.ok a, m) := rfl

theorem get_apply (m : Model) : (get : Building Model) m = (.ok m, m) := rfl

theorem modify_apply (f : Model → Model) (m : Model) :
    (modify f : Building PUnit) m = (.ok ⟨⟩, f m) := rfl

theorem append_apply (n : Node) (m : Model) : append n m = (.ok (m.idAt m.nodes.size), m.push n) :=
  rfl

theorem check_apply (r : Except ModelError α) (m : Model) : check r m = (r, m) := by
  cases r <;> rfl

theorem node_apply (id : NodeId) (m : Model) : node id m = (m.node id, m) :=
  check_apply (m.node id) m

theorem map_apply (f : α → β) (x : Building α) (m : Model) :
    (f <$> x) m = match x m with
      | (.ok a, m') => (.ok (f a), m')
      | (.error e, m') => (.error e, m') := by
  show ExceptT.map f x m = _
  simp only [ExceptT.map, ExceptT.mk, bind, StateT.bind]
  rcases x m with ⟨r, m'⟩
  cases r <;> rfl

theorem add_apply {n : Node} (h : ∀ id ∈ n.operands, m.Has id) :
    add n m = (.ok (m.idAt m.nodes.size), m.extend n) := by
  have hforM {ids : List NodeId} (h : ∀ id ∈ ids, m.Has id) :
      (ids.forM fun id => discard (node id) : Building PUnit) m = (.ok ⟨⟩, m) := by
    induction ids with
    | nil => rfl
    | cons id ids ih =>
      obtain ⟨n, hn⟩ := (h id List.mem_cons_self).exists_node
      have hd : (discard (node id) : Building PUnit) m = (.ok ⟨⟩, m) := by
        show ((fun _ => PUnit.unit) <$> node id : Building PUnit) m = _
        rw [map_apply, node_apply, node_eq_ok.2 hn]
      show ((discard (node id) : Building PUnit) >>= fun _ => ids.forM _) m = _
      rw [bind_apply, hd]
      exact ih fun x hx => h x (List.mem_cons_of_mem _ hx)
  rw [add, bind_apply, hforM h]
  simp only [bind_apply, append_apply]
  by_cases hv : n.operator.isVariable <;> by_cases hc : n.operator.isConstraint <;>
    simp [hv, hc, extend, bind_apply, map_apply, modify_apply, pure_apply]

/-- A constant that is there is found. -/
theorem constant_of_some (h : m.constant? l.is = some id) :
    constant l.is l.operator l.arg m = (.ok id, m) := by
  show (get >>= _ : Building NodeId) m = _
  rw [bind_apply, get_apply]
  simp only [h]
  rfl

/-- A constant that is not there is built. -/
theorem constant_of_none (h : m.constant? l.is = none) :
    constant l.is l.operator l.arg m = (.ok (m.idAt m.nodes.size), m.push l.node) := by
  show (get >>= _ : Building NodeId) m = _
  rw [bind_apply, get_apply]
  simp only [h]
  rfl

/-- A constant is always found or built. -/
theorem exists_constant (hl : l.Sound) (m : Model) :
    ∃ id m', Prepared m m' ∧ constant l.is l.operator l.arg m = (.ok id, m') ∧
      m'.constant? l.is = some id := by
  cases hc : m.constant? l.is with
  | some id => exact ⟨id, m, .refl, constant_of_some hc, hc⟩
  | none =>
    refine ⟨_, _, .push l .refl hl hc, constant_of_none hc, ?_⟩
    rw [constant?_push, hc, if_pos l.is_node]
    rfl

/-! ### Preparations -/

/-- A part of a call that builds constants at most, and if it succeeds, gives a result with a
property. -/
def Prepares (x : Building α) (m : Model) (P : α → Model → Prop) : Prop :=
  ∃ m', Prepared m m' ∧ ((∃ a, x m = (.ok a, m') ∧ P a m') ∨ ∃ e, x m = (.error e, m'))

namespace Prepares

variable {P : α → Model → Prop} {Q : β → Model → Prop}

theorem pure {a : α} (h : P a m) : Prepares (pure a) m P := ⟨m, .refl, .inl ⟨a, rfl, h⟩⟩

theorem fail (e : ModelError) : Prepares (Building.fail e) m P := ⟨m, .refl, .inr ⟨e, rfl⟩⟩

theorem bind {x : Building α} {f : α → Building β} (hx : Prepares x m P)
    (hf : ∀ a m', Prepared m m' → P a m' → Prepares (f a) m' Q) : Prepares (x >>= f) m Q := by
  obtain ⟨m', hm, ⟨a, he, ha⟩ | ⟨e, he⟩⟩ := hx
  · obtain ⟨m'', hm', h⟩ := hf a m' hm ha
    refine ⟨m'', hm.trans hm', ?_⟩
    rwa [bind_apply, he]
  · exact ⟨m', hm, .inr ⟨e, by rw [bind_apply, he]⟩⟩

theorem check (r : Except ModelError α) : Prepares (check r) m fun a _ => r = .ok a := by
  refine ⟨m, .refl, ?_⟩
  rw [check_apply]
  cases r with
  | ok a => exact .inl ⟨a, rfl, rfl⟩
  | error e => exact .inr ⟨e, rfl⟩

theorem node (id : NodeId) : Prepares (node id) m fun n m' => m'.node? id = some n := by
  refine ⟨m, .refl, ?_⟩
  rw [node_apply]
  cases hn : m.node id with
  | ok n => exact .inl ⟨n, rfl, node_eq_ok.1 hn⟩
  | error e => exact .inr ⟨e, rfl⟩

theorem expect (e : Expectation) (id : NodeId) :
    Prepares (expect e id) m fun _ m' => m'.Is e id := by
  refine bind (node id) fun n m' _ hn => ?_
  split
  · rename_i h
    exact pure ⟨n, hn, h⟩
  · exact fail _

theorem expectAll (e : Expectation) (ids : List NodeId) :
    Prepares (expectAll e ids) m fun _ m' => ∀ id ∈ ids, m'.Is e id := by
  induction ids generalizing m with
  | nil => exact pure (by simp)
  | cons id ids ih =>
    refine bind (expect e id) fun _ m₁ _ hid => ?_
    obtain ⟨m₂, hm, h⟩ := ih (m := m₁)
    refine ⟨m₂, hm, h.imp_left fun ⟨a, he, hids⟩ => ⟨a, he, ?_⟩⟩
    exact List.forall_mem_cons.2 ⟨hm.keeps.is hid, hids⟩

theorem finite (what : String) (x : Float) :
    Prepares (finite what x) m fun y _ => y = x ∧ x.isFinite := by
  unfold Building.finite
  split
  · rename_i h
    exact pure ⟨rfl, h⟩
  · exact fail _

/-- A constant of the model is found, and any other one is built. -/
theorem constant (hl : l.Sound) :
    Prepares (constant l.is l.operator l.arg) m fun id m' => m'.constant? l.is = some id := by
  obtain ⟨id, m', hm, he, hid⟩ := exists_constant hl m
  exact ⟨m', hm, .inl ⟨id, he, hid⟩⟩

theorem floatConst (x : Float) :
    Prepares (floatConst x) m fun id m' => m'.constant? (Node.isFloatConst x) = some id ∧
      x.isFinite := by
  refine bind (finite "floatConst" x) fun y m₁ _ hy => ?_
  obtain ⟨rfl, hfin⟩ := hy
  obtain ⟨m₂, hm, h⟩ := constant (m := m₁) (l := .float y) hfin
  exact ⟨m₂, hm, h.imp_left fun ⟨id, he, hid⟩ => ⟨id, he, hid, hfin⟩⟩

/-! ### Operands -/

theorem intOperand (a : IntOperand) :
    Prepares (intOperand a) m fun id m' => m'.Is .integral id := by
  cases a with
  | const v =>
    obtain ⟨m', hm, h⟩ := constant (m := m) (l := .int v) trivial
    exact ⟨m', hm, h.imp_left fun ⟨id, he, hid⟩ => ⟨id, he, is_of_constant? hid rfl⟩⟩
  | node id => exact bind (expect .integral id) fun _ _ _ hid => pure hid

theorem floatOperand (a : FloatOperand) :
    Prepares (floatOperand a) m fun id m' => m'.floatNode? a = some id ∧ m'.Is .numeric id := by
  cases a with
  | int v =>
    obtain ⟨m', hm, h⟩ := constant (m := m) (l := .int v) trivial
    exact ⟨m', hm, h.imp_left fun ⟨id, he, hid⟩ => ⟨id, he, hid, is_of_constant? hid rfl⟩⟩
  | float x =>
    obtain ⟨m', hm, h⟩ := floatConst (m := m) x
    refine ⟨m', hm, h.imp_left fun ⟨id, he, hid, _⟩ => ⟨id, he, hid, ?_⟩⟩
    exact is_of_constant? (l := .float x) hid rfl
  | node id => exact bind (expect .numeric id) fun _ _ _ hid => pure ⟨rfl, hid⟩

theorem boolOperand (a : BoolOperand) :
    Prepares (boolOperand a) m fun id m' => m'.boolNode? a = some id ∧ m'.Is .boolean id := by
  cases a with
  | const b =>
    obtain ⟨m', hm, h⟩ := constant (m := m) (l := .bool b) trivial
    exact ⟨m', hm, h.imp_left fun ⟨id, he, hid⟩ => ⟨id, he, hid, is_of_constant? hid rfl⟩⟩
  | node id => exact bind (expect .boolean id) fun _ _ _ hid => pure ⟨rfl, hid⟩

theorem intArg (a : IntOperand) : Prepares (intArg a) m fun a m' => m'.Takes .amount a := by
  cases a with
  | const v => exact pure trivial
  | node id => exact bind (expect .integral id) fun _ _ _ hid => pure hid

/-- Operands built from left to right. -/
theorem each {γ : Type} (build : γ → Building NodeId) (all : List γ → Building (List NodeId))
    (hnil : all [] = Pure.pure [])
    (hcons : ∀ a rest, all (a :: rest) = build a >>= fun id => all rest >>= fun ids =>
      Pure.pure (id :: ids))
    (hbuild : ∀ (m : Model) (a : γ), Prepares (build a) m fun id m' => m'.Is e id) (items : List γ) :
    Prepares (all items) m fun ids m' => ∀ id ∈ ids, m'.Is e id := by
  induction items generalizing m with
  | nil =>
    rw [hnil]
    exact pure (by simp)
  | cons a rest ih =>
    rw [hcons]
    refine bind (hbuild m a) fun id m₁ _ hid => bind ih fun ids m₂ hm hids => pure ?_
    exact List.forall_mem_cons.2 ⟨hm.keeps.is hid, hids⟩

theorem intOperands (items : List IntOperand) :
    Prepares (intOperands items) m fun ids m' => ∀ id ∈ ids, m'.Is .integral id :=
  each Building.intOperand Building.intOperands rfl (fun _ _ => rfl) (fun _ => intOperand) items

theorem floatOperands (items : List FloatOperand) :
    Prepares (floatOperands items) m fun ids m' => ∀ id ∈ ids, m'.Is .numeric id := by
  refine each Building.floatOperand Building.floatOperands rfl (fun _ _ => rfl) (fun m a => ?_) items
  obtain ⟨m', hm, h⟩ := floatOperand (m := m) a
  exact ⟨m', hm, h.imp_left fun ⟨id, he, _, hid⟩ => ⟨id, he, hid⟩⟩

end Prepares

/-! ### Whole calls -/

/-- A call that builds constants, and unless it fails, takes one more step. -/
def Performs (x : Building (Option NodeId)) (m : Model) (P : Model → Move → Prop) : Prop :=
  ∃ m', Prepared m m' ∧
    ((∃ v : Move, x m = (.ok (v.result m'), v.apply m') ∧ v.Allowed m' ∧ P m' v) ∨
      ∃ e, x m = (.error e, m'))

/-- A call that adds a node unless it fails. -/
abbrev Adds (x : Building (Option NodeId)) (m : Model) : Prop :=
  Performs x m fun _ v => ∃ n, v = .add n

namespace Performs

variable {P : Model → Move → Prop}

theorem bind {x : Building α} {f : α → Building (Option NodeId)} {Q : α → Model → Prop}
    (hx : Prepares x m Q) (hf : ∀ a m', Prepared m m' → Q a m' → Performs (f a) m' P) :
    Performs (x >>= f) m P := by
  obtain ⟨m', hm, ⟨a, he, ha⟩ | ⟨e, he⟩⟩ := hx
  · obtain ⟨m'', hm', h⟩ := hf a m' hm ha
    refine ⟨m'', hm.trans hm', ?_⟩
    rwa [bind_apply, he]
  · exact ⟨m', hm, .inr ⟨e, by rw [bind_apply, he]⟩⟩

theorem fail_bind (e : ModelError) (f : α → Building (Option NodeId)) :
    Performs (Building.fail e >>= f) m P := ⟨m, .refl, .inr ⟨e, rfl⟩⟩

theorem add {n : Node} (hn : m.Formed n) (hr : n.ref = none) (hu : n.uses = 0)
    (hname : n.name.isSome → n.operator.isVariable) (hc : n.operator.isConstant = false) :
    Adds (some <$> Building.add n) m := by
  refine ⟨m, .refl, .inl ⟨.add n, ?_, ⟨hn, hr, hu, hname, hc⟩, n, rfl⟩⟩
  rw [map_apply, add_apply hn.has]
  rfl

theorem constant {x : Building NodeId}
    (hx : Prepares x m fun id m' => m'.constant? l.is = some id) :
    Performs (some <$> x) m fun _ v => v = .constant l := by
  obtain ⟨m', hm, ⟨id, he, hid⟩ | ⟨e, he⟩⟩ := hx
  · refine ⟨m', hm, .inl ⟨.constant l, ?_, by simp [Move.Allowed, hid], rfl⟩⟩
    rw [map_apply, he]
    simp only [Move.result, hid]
    rfl
  · exact ⟨m', hm, .inr ⟨e, by rw [map_apply, he]⟩⟩

/-- Adds a node that has nothing but arguments. -/
theorem plain {op : Operator} {args : List Arg} (h : m.TakesAll op args)
    (hv : op.isVariable = false) (hs : op ≠ .stepFunction) (hc : op.isConstant = false) :
    Adds (some <$> Building.add (.plain op args)) m :=
  add (.plain h hv hs) rfl rfl (by simp [Node.plain, Node.fresh, Attributes.none]) hc

end Performs

/-! ### Variables -/

theorem prepares_checkLimit (what : String) (least greatest : Int) (bound : Option Int) :
    Prepares (checkLimit what least greatest bound) m fun _ _ =>
      ∀ v ∈ bound, least ≤ v ∧ v ≤ greatest := by
  cases bound with
  | none => exact .pure (by simp)
  | some v =>
    show Prepares (if v < least ∨ greatest < v then _ else _) _ _
    split
    · exact .fail _
    · refine .pure fun w hw => ?_
      obtain rfl : v = w := Option.some.inj hw
      omega

theorem prepares_checkBounds (what : String) (low high : Option Int) (least greatest : Int) :
    Prepares (checkBounds what low high least greatest) m fun _ _ =>
      Limited least greatest low high := by
  refine .bind (prepares_checkLimit what least greatest low) fun _ _ _ hl => ?_
  refine .bind (prepares_checkLimit what least greatest high) fun _ _ _ hh => ?_
  cases low with
  | none => exact .pure ⟨hl, hh, by simp⟩
  | some l =>
    cases high with
    | none => exact .pure ⟨hl, hh, by simp⟩
    | some h =>
      show Prepares (if h < l then _ else _) _ _
      split
      · exact .fail _
      · refine .pure ⟨hl, hh, fun l' hl' h' hh' => ?_⟩
        obtain rfl : l = l' := Option.some.inj hl'
        obtain rfl : h = h' := Option.some.inj hh'
        omega

theorem prepares_checkFinite (what : String) (bound : Option Float) :
    Prepares (checkFinite what bound) m fun _ _ => ∀ x ∈ bound, x.isFinite := by
  cases bound with
  | none => exact .pure (by simp)
  | some x =>
    refine .bind (.finite what x) fun y m' _ hy => .pure fun z hz => ?_
    exact Option.some.inj hz ▸ hy.2

/-- Types are accepted when there is one for each interval and none is negative. -/
theorem checkTypes_ok {intervals : Nat} {types : Option (List Int)} :
    checkTypes intervals types m = (.ok (), m) ↔
      ∀ ts ∈ types, ts.length = intervals ∧ ∀ t ∈ ts, 0 ≤ t := by
  cases types with
  | none => exact iff_of_true rfl nofun
  | some types =>
    simp only [Option.mem_some_iff, forall_eq']
    rw [checkTypes]
    split
    · rename_i hlength
      exact ⟨nofun, fun h => absurd h.1 hlength⟩
    · rename_i hlength
      rw [and_iff_right (Classical.not_not.1 hlength)]
      cases hfind : types.find? (· < 0) with
      | some t =>
        have hneg : t < 0 := by simpa using List.find?_some hfind
        refine ⟨nofun, fun h => ?_⟩
        exact absurd (h t (List.mem_of_find?_eq_some hfind)) (Int.not_le.2 hneg)
      | none =>
        refine iff_of_true rfl fun t ht => ?_
        simpa using List.find?_eq_none.1 hfind t ht

theorem prepares_checkTypes (intervals : Nat) (types : Option (List Int)) :
    Prepares (checkTypes intervals types) m fun _ _ =>
      ∀ ts ∈ types, ts.length = intervals ∧ ∀ t ∈ ts, 0 ≤ t := by
  cases types with
  | none => exact .pure (by simp)
  | some types =>
    show Prepares (if types.length ≠ intervals then _ else _) _ _
    split
    · exact .fail _
    · split
      · exact .fail _
      · rename_i hlen _ hfind
        refine .pure fun ts hts => ?_
        obtain rfl := Option.some.inj hts
        refine ⟨not_not.1 hlen, fun t ht => ?_⟩
        have := List.find?_eq_none.1 hfind t ht
        simpa using this

theorem map_bind (f : β → Option NodeId) (x : Building α) (g : α → Building β) :
    f <$> (x >>= g) = x >>= fun a => f <$> g a := by
  funext m
  simp only [map_apply, bind_apply]
  rcases x m with ⟨r, m'⟩
  cases r <;> rfl

theorem adds_intVar (v : IntVarSpec) : Adds (some <$> Building.intVar v) m := by
  rw [Building.intVar, map_bind]
  refine .bind (prepares_checkBounds ..) fun _ m' _ hb => ?_
  refine .add ⟨⟨Nat.le_refl 0, .nil⟩, rfl, ⟨v.min, v.max, hb, rfl⟩, fun _ => rfl⟩ rfl rfl ?_ rfl
  exact fun _ => rfl

theorem adds_boolVar (v : BoolVarSpec) : Adds (some <$> Building.boolVar v) m :=
  .add ⟨⟨Nat.le_refl 0, .nil⟩, rfl, rfl, fun _ => rfl⟩ rfl rfl (fun _ => rfl) rfl

theorem adds_floatVar (v : FloatVarSpec) : Adds (some <$> Building.floatVar v) m := by
  rw [Building.floatVar, map_bind]
  refine .bind (prepares_checkFinite ..) fun _ m₁ _ hl => ?_
  rw [map_bind]
  refine .bind (prepares_checkFinite ..) fun _ m₂ _ hh => ?_
  have hadd (horder : ∀ l ∈ v.min, ∀ h ∈ v.max, ¬ h < l) :
      Adds (some <$> Building.add { Node.plain .floatVar [] with
        bounds := { Bounds.none with min := v.min, max := v.max }, presence := v.presence,
        name := v.name }) m₂ :=
    .add ⟨⟨Nat.le_refl 0, .nil⟩, rfl, ⟨v.min, v.max, hl, hh, horder, rfl⟩, fun _ => rfl⟩ rfl rfl
      (fun _ => rfl) rfl
  split
  · rename_i l h hmin hmax
    by_cases hlt : h < l
    · simp only [if_pos hlt, map_bind]
      exact .fail_bind ..
    · simp only [if_neg hlt]
      refine hadd fun l' hl' h' hh' => ?_
      obtain rfl : l = l' := Option.some.inj (hmin.symm.trans hl')
      obtain rfl : h = h' := Option.some.inj (hmax.symm.trans hh')
      exact hlt
  · rename_i hnone
    exact hadd fun l hl h hh => (hnone l h hl hh).elim

theorem adds_intervalVar (v : IntervalVarSpec) : Adds (some <$> Building.intervalVar v) m := by
  rw [Building.intervalVar, map_bind]
  refine .bind (prepares_checkBounds ..) fun _ _ _ hs => ?_
  rw [map_bind]
  refine .bind (prepares_checkBounds ..) fun _ _ _ he => ?_
  rw [map_bind]
  refine .bind (prepares_checkBounds ..) fun _ _ _ hl => ?_
  exact .add ⟨⟨Nat.le_refl 0, .nil⟩, rfl, ⟨hs, he, hl⟩, fun _ => rfl⟩ rfl rfl (fun _ => rfl) rfl

theorem adds_sequenceVar (v : SequenceVarSpec) : Adds (some <$> Building.sequenceVar v) m := by
  rw [Building.sequenceVar, map_bind]
  refine .bind (.expectAll ..) fun _ m₁ _ hi => ?_
  rw [map_bind]
  refine .bind (prepares_checkTypes ..) fun _ m₂ hm ht => ?_
  refine .add ⟨⟨Nat.le_refl 1, .cons ⟨v.intervals, rfl, fun id hid => hm.keeps.is (hi id hid)⟩ .nil⟩,
    fun rows hrows => ?_, rfl, nofun⟩ rfl rfl (fun _ => rfl) rfl
  obtain ⟨types, htypes, rfl⟩ := Option.map_eq_some_iff.1 hrows
  obtain ⟨hlen, hpos⟩ := ht types htypes
  refine ⟨types, rfl, ?_, hpos⟩
  show types.length = (v.intervals.map Arg.node).length
  rw [hlen, List.length_map]

/-! ### Intervals and tables -/

theorem adds_precedence (p : Precedence) (a b : NodeId) (delay : IntOperand) :
    Adds (some <$> Building.precedence p a b delay) m := by
  rw [Building.precedence, map_bind]
  refine .bind (.expect ..) fun _ m₁ _ ha => ?_
  rw [map_bind]
  refine .bind (.expect ..) fun _ m₂ h₂ hb => ?_
  rw [map_bind]
  refine .bind (.intArg delay) fun d m₃ h₃ hd => ?_
  have ha' := (h₂.trans h₃).keeps.is ha
  have hb' := h₃.keeps.is hb
  split
  · exact .plain ⟨Nat.le_refl 2, .cons ha' (.cons hb' .nil)⟩ rfl (by simp) rfl
  · refine .plain ⟨?_, .cons ha' (.cons hb' (.cons hd .nil))⟩ rfl (by simp) rfl
    exact Nat.le_succ 2

theorem adds_overIntervals (op : Operator) (main : NodeId) (items : List NodeId)
    (hop : op = .alternative ∨ op = .span) : Adds (some <$> overIntervals op [main] items) m := by
  rw [overIntervals, map_bind]
  refine .bind (.expectAll ..) fun _ m₁ _ hmain => ?_
  rw [map_bind]
  refine .bind (.expectAll ..) fun _ m₂ h₂ hitems => ?_
  have hm := h₂.keeps.is (hmain main List.mem_cons_self)
  obtain rfl | rfl := hop <;>
    exact .plain ⟨Nat.le_refl 2, .cons hm (.cons ⟨items, rfl, hitems⟩ .nil)⟩ rfl (by simp) rfl

theorem adds_noOverlap (intervals : List NodeId) (transitions : Option (List (List Int))) :
    Adds (some <$> Building.noOverlap intervals transitions) m := by
  rw [Building.noOverlap, map_bind]
  refine .bind (.expectAll ..) fun _ m₁ _ hi => ?_
  have hadd {m₂ : Model} (h : Prepared m₁ m₂)
      (ht : ∀ matrix, transitions = some matrix →
        checkTransitions matrix intervals.length = .ok ()) :
      Adds (some <$> Building.add { Node.plain .noOverlap [.list (intervals.map Arg.node)] with
        values := transitions }) m₂ := by
    refine .add ⟨⟨Nat.le_refl 1, .cons ⟨intervals, rfl, fun id hid => h.keeps.is (hi id hid)⟩ .nil⟩,
      fun matrix hm => ⟨intervals.length, ?_, ht matrix hm⟩, rfl, by simp [Node.plain, Node.fresh, Attributes.none]⟩
      rfl rfl (by simp [Node.plain, Node.fresh, Attributes.none]) rfl
    show some (intervals.map Arg.node).length = some intervals.length
    rw [List.length_map]
  cases transitions with
  | none => exact hadd .refl (by simp)
  | some matrix =>
    show Adds (some <$> (check (checkTransitions matrix intervals.length) >>= _)) _
    rw [map_bind]
    refine .bind (.check _) fun _ m₂ h₂ hc => hadd h₂ fun matrix' he => ?_
    exact Option.some.inj he ▸ hc

theorem adds_noOverlapSequence (sequence : NodeId) (transitions : Option (List (List Int))) :
    Adds (some <$> Building.noOverlapSequence sequence transitions) m := by
  rw [Building.noOverlapSequence, map_bind]
  refine .bind (.node sequence) fun seq m₁ _ hseq => ?_
  have hadd {m₂ : Model} (h : Prepared m₁ m₂) (hop : seq.operator = .sequenceVar)
      (ht : ∀ matrix, transitions = some matrix →
        checkTransitions matrix seq.transitionSize = .ok ()) :
      Adds (some <$> Building.add { Node.plain .noOverlap [.node sequence] with
        values := transitions }) m₂ := by
    have his : m₁.Is .sequence sequence := ⟨seq, hseq, by rw [Node.kind, hop]; rfl⟩
    have hsize : m₁.matrixSize? [.node sequence] = some seq.transitionSize := by
      simp [matrixSize?, hseq]
    refine .add ⟨⟨Nat.le_refl 1, .cons (h.keeps.is his) .nil⟩,
      fun matrix hm => ⟨_, h.keeps.matrixSize? hsize, ht matrix hm⟩, rfl, ?_⟩ rfl rfl ?_ rfl
    · simp [Node.plain, Node.fresh, Attributes.none]
    · simp [Node.plain, Node.fresh, Attributes.none]
  by_cases hop : seq.operator = .sequenceVar
  · simp only [hop, ne_eq, not_true_eq_false, if_false]
    cases transitions with
    | none => exact hadd .refl hop (by simp)
    | some matrix =>
      simp only [map_bind]
      refine .bind (.check _) fun _ m₂ h₂ hc => hadd h₂ hop fun matrix' he => ?_
      exact Option.some.inj he ▸ hc
  · simp only [ne_eq, hop, not_false_eq_true, if_true, map_bind]
    exact .fail_bind ..

theorem adds_stepFunction (points : List (Int × Int)) :
    Adds (some <$> Building.stepFunction points) m := by
  show Adds (some <$> (check (checkStepPoints (points.map fun p => [p.1, p.2])) >>= _)) _
  rw [map_bind]
  refine .bind (.check _) fun _ m₁ _ hc => ?_
  refine .add ⟨⟨Nat.le_refl 0, .nil⟩, ⟨_, rfl, hc⟩, rfl, ?_⟩ rfl rfl ?_ rfl
  · simp [Node.plain, Node.fresh, Attributes.none]
  · simp [Node.plain, Node.fresh, Attributes.none]

/-! ### Every call -/

/-- Two operands and nothing else. -/
theorem adds_pair {e₁ e₂ : Expectation} {op : Operator} {a b : NodeId} (ha : m.Is e₁ a)
    (hb : m.Is e₂ b) (hin : op.inputs = [.node e₁, .node e₂]) (hle : op.arity.1 ≤ 2)
    (hv : op.isVariable = false) (hs : op ≠ .stepFunction) (hc : op.isConstant = false) :
    Adds (some <$> addOver op [a, b]) m := by
  refine .plain ⟨hle, ?_⟩ hv hs hc
  rw [hin]
  exact .cons ha (.cons hb .nil)

/-- One operand and nothing else. -/
theorem adds_single (input : Input) {op : Operator} {a : NodeId} (ha : m.Takes input (.node a))
    (hin : op.inputs = [input]) (hle : op.arity.1 ≤ 1) (hv : op.isVariable = false)
    (hs : op ≠ .stepFunction) (hc : op.isConstant = false) :
    Adds (some <$> addOver op [a]) m := by
  refine .plain ⟨hle, ?_⟩ hv hs hc
  rw [hin]
  exact .cons ha .nil

/-- A list of operands and nothing else. -/
theorem adds_list {op : Operator} {ids : List NodeId} (hids : ∀ id ∈ ids, m.Is e id)
    (hin : op.inputs = [.nodes e]) (hle : op.arity.1 ≤ 1) (hv : op.isVariable = false)
    (hs : op ≠ .stepFunction) (hc : op.isConstant = false) :
    Adds (some <$> Building.add (.plain op [.list (ids.map Arg.node)])) m := by
  refine .plain ⟨hle, ?_⟩ hv hs hc
  rw [hin]
  exact .cons ⟨ids, rfl, hids⟩ .nil

theorem adds_ints (op : Operator) (a b : IntOperand)
    (hop : op.inputs = [.node .integral, .node .integral]) (hle : op.arity.1 ≤ 2)
    (hv : op.isVariable = false) (hs : op ≠ .stepFunction) (hc : op.isConstant = false) :
    Adds (intOperand a >>= fun a => intOperand b >>= fun b => some <$> addOver op [a, b]) m := by
  refine .bind (.intOperand a) fun a m₁ _ ha => .bind (.intOperand b) fun b m₂ h₂ hb => ?_
  exact adds_pair (h₂.keeps.is ha) hb hop hle hv hs hc

theorem adds_floats (op : Operator) (a b : FloatOperand)
    (hop : op.inputs = [.node .numeric, .node .numeric]) (hle : op.arity.1 ≤ 2)
    (hv : op.isVariable = false) (hs : op ≠ .stepFunction) (hc : op.isConstant = false) :
    Adds (floatOperand a >>= fun a => floatOperand b >>= fun b => some <$> addOver op [a, b]) m := by
  refine .bind (.floatOperand a) fun a m₁ _ ha => .bind (.floatOperand b) fun b m₂ h₂ hb => ?_
  exact adds_pair (h₂.keeps.is ha.2) hb.2 hop hle hv hs hc

/-- A call without a result ends with a change of the model. -/
theorem performs_discard {Q : α → Model → Prop} {P : Model → Move → Prop} {x : Building α}
    (hx : Prepares x m Q) (v : α → Move) (hv : ∀ a m, (v a).result m = none)
    (hP : ∀ a m', Q a m' → (v a).Allowed m' ∧ P m' (v a)) :
    Performs ((x >>= fun a => modify fun m => (v a).apply m) >>= fun _ => Pure.pure none) m P := by
  obtain ⟨m', hm, ⟨a, he, ha⟩ | ⟨e, he⟩⟩ := hx
  · refine ⟨m', hm, .inl ⟨v a, ?_, hP a m' ha⟩⟩
    simp only [bind_apply, he, hv]
    rfl
  · exact ⟨m', hm, .inr ⟨e, by simp only [bind_apply, he]⟩⟩

end Building

open Building

/-- What a call does: it builds constants, and unless it fails, takes one more step. -/
theorem Model.call_cases (m : Model) (c : Call) :
    Performs c.run m fun m' v => m'.Leads c v := by
  cases c with
  | intVar v => exact adds_intVar v
  | boolVar v => exact adds_boolVar v
  | floatVar v => exact adds_floatVar v
  | intervalVar v => exact adds_intervalVar v
  | sequenceVar v => exact adds_sequenceVar v
  | intConst i => exact .constant (.constant (l := .int i) trivial)
  | floatConst x =>
    refine .constant (l := .float x) ?_
    obtain ⟨m', hm, h⟩ := Prepares.floatConst (m := m) x
    exact ⟨m', hm, h.imp_left fun ⟨id, he, hid, _⟩ => ⟨id, he, hid⟩⟩
  | boolConst b => exact .constant (.constant (l := .bool b) trivial)
  | int op a b => exact adds_ints (.int op) a b rfl (Nat.le_refl 2) rfl (by simp) rfl
  | intNeg a =>
    refine .bind (.intOperand a) fun a _ _ ha => ?_
    exact adds_single (.node .integral) ha rfl (Nat.le_refl 1) rfl (by simp) rfl
  | intAbs a =>
    refine .bind (.intOperand a) fun a _ _ ha => ?_
    exact adds_single (.node .integral) ha rfl (Nat.le_refl 1) rfl (by simp) rfl
  | intAggregate op items =>
    refine .bind (.intOperands items) fun ids _ _ hids => ?_
    exact adds_list hids rfl (Nat.le_refl 1) rfl (by simp) rfl
  | intGuard a default =>
    refine .bind (.intOperand a) fun a _ _ ha => ?_
    exact .plain ⟨Nat.le_refl 2, .cons ha (.cons trivial .nil)⟩ rfl (by simp) rfl
  | float op a b => exact adds_floats (.float op) a b rfl (Nat.le_refl 2) rfl (by simp) rfl
  | floatNeg a =>
    refine .bind (.floatOperand a) fun a _ _ ha => ?_
    exact adds_single (.node .numeric) ha.2 rfl (Nat.le_refl 1) rfl (by simp) rfl
  | floatAbs a =>
    refine .bind (.floatOperand a) fun a _ _ ha => ?_
    exact adds_single (.node .numeric) ha.2 rfl (Nat.le_refl 1) rfl (by simp) rfl
  | floatAggregate op items =>
    refine .bind (.floatOperands items) fun ids _ _ hids => ?_
    exact adds_list hids rfl (Nat.le_refl 1) rfl (by simp) rfl
  | floatGuard a default =>
    refine .bind (.finite "floatGuard" default) fun x m₁ _ hx => ?_
    refine .bind (.floatOperand a) fun a m₂ _ ha => ?_
    obtain ⟨rfl, hfin⟩ := hx
    exact .plain ⟨Nat.le_refl 2, .cons ha.2 (.cons hfin .nil)⟩ rfl (by simp) rfl
  | presence id =>
    refine .bind (.node id) fun n _ _ hn => ?_
    exact adds_single .anyNode (has_of_node? hn) rfl (Nat.le_refl 1) rfl (by simp) rfl
  | identity a b => exact adds_floats .identity a b rfl (Nat.le_refl 2) rfl (by simp) rfl
  | compare c a b => exact adds_floats (.compare c) a b rfl (Nat.le_refl 2) rfl (by simp) rfl
  | inRange a least greatest =>
    refine .bind (.finite "inRange" least) fun x _ _ hx => ?_
    refine .bind (.finite "inRange" greatest) fun y _ _ hy => ?_
    refine .bind (.floatOperand a) fun a _ _ ha => ?_
    obtain ⟨rfl, hx⟩ := hx
    obtain ⟨rfl, hy⟩ := hy
    exact .plain ⟨Nat.le_refl 3, .cons ha.2 (.cons hx (.cons hy .nil))⟩ rfl (by simp) rfl
  | connect op a b =>
    refine .bind (.boolOperand a) fun a m₁ _ ha => .bind (.boolOperand b) fun b m₂ h₂ hb => ?_
    exact adds_pair (h₂.keeps.is ha.2) hb.2 rfl (Nat.le_refl 2) rfl (by simp) rfl
  | not a =>
    refine .bind (.boolOperand a) fun a _ _ ha => ?_
    exact adds_single (.node .boolean) ha.2 rfl (Nat.le_refl 1) rfl (by simp) rfl
  | measure op interval =>
    refine .bind (.expect .interval interval) fun _ _ _ hi => ?_
    exact adds_single (.node .interval) hi rfl (Nat.le_refl 1) rfl (by simp) rfl
  | measureOr op interval default =>
    refine .bind (.expect .interval interval) fun _ _ _ hi => ?_
    exact .plain ⟨Nat.le_refl 2, .cons hi (.cons trivial .nil)⟩ rfl (by simp) rfl
  | precedence p a b delay => exact adds_precedence p a b delay
  | alternative main options => exact adds_overIntervals .alternative main options (.inl rfl)
  | span main covered => exact adds_overIntervals .span main covered (.inr rfl)
  | noOverlap intervals transitions => exact adds_noOverlap intervals transitions
  | noOverlapSequence sequence transitions => exact adds_noOverlapSequence sequence transitions
  | intervalStep step interval height =>
    refine .bind (.expect .interval interval) fun _ m₁ _ hi => ?_
    refine .bind (.intArg height) fun h m₂ h₂ hh => ?_
    have hi' := h₂.keeps.is hi
    exact .plain ⟨Nat.le_refl 2, .cons hi' (.cons hh .nil)⟩ rfl (by simp) rfl
  | stepAt time height =>
    refine .bind (.intArg height) fun h _ _ hh => ?_
    exact .plain ⟨Nat.le_refl 2, .cons trivial (.cons hh .nil)⟩ rfl (by simp) rfl
  | cumulPlus a b =>
    refine .bind (.expectAll .cumulative [a, b]) fun _ _ _ h => ?_
    exact adds_pair (h a (by simp)) (h b (by simp)) rfl (Nat.le_refl 2) rfl (by simp) rfl
  | cumulMinus a b =>
    refine .bind (.expectAll .cumulative [a, b]) fun _ _ _ h => ?_
    exact adds_pair (h a (by simp)) (h b (by simp)) rfl (Nat.le_refl 2) rfl (by simp) rfl
  | cumulNeg a =>
    refine .bind (.expect .cumulative a) fun _ _ _ ha => ?_
    exact adds_single (.node .cumulative) ha rfl (Nat.le_refl 1) rfl (by simp) rfl
  | cumulSum items =>
    refine .bind (.expectAll .cumulative items) fun _ _ _ h => ?_
    exact adds_list h rfl (Nat.le_refl 1) rfl (by simp) rfl
  | cumulBound b f bound =>
    refine .bind (.expect .cumulative f) fun _ _ _ hf => ?_
    exact .plain ⟨Nat.le_refl 2, .cons hf (.cons trivial .nil)⟩ rfl (by simp) rfl
  | stepFunction points => exact adds_stepFunction points
  | stepFunctionEval f time =>
    refine .bind (.expect .stepFunction f) fun _ m₁ _ hf => ?_
    refine .bind (.intOperand time) fun x m₂ h₂ hx => ?_
    exact adds_pair (h₂.keeps.is hf) hx rfl (Nat.le_refl 2) rfl (by simp) rfl
  | stepFunctionSum f interval =>
    refine .bind (.expect .stepFunction f) fun _ m₁ _ hf => ?_
    refine .bind (.expect .interval interval) fun _ m₂ h₂ hi => ?_
    exact adds_pair (h₂.keeps.is hf) hi rfl (Nat.le_refl 2) rfl (by simp) rfl
  | forbid what interval f =>
    refine .bind (.expect .stepFunction f) fun _ m₁ _ hf => ?_
    refine .bind (.expect .interval interval) fun _ m₂ h₂ hi => ?_
    exact adds_pair hi (h₂.keeps.is hf) rfl (Nat.le_refl 2) rfl (by simp) rfl
  | constraint a =>
    refine performs_discard (.boolOperand a) (fun id => .post id) (fun _ _ => rfl) ?_
    exact fun id m' h => ⟨h.2, id, h.1, rfl⟩
  | optimize sense a =>
    refine performs_discard (.floatOperand a) (fun id => .optimize sense id) (fun _ _ => rfl) ?_
    exact fun id m' h => ⟨h.2, id, h.1, rfl⟩
  | nameNode id name =>
    refine performs_discard (.node id) (fun _ => .nameNode id name) (fun _ _ => rfl) ?_
    exact fun n m' hn => ⟨has_of_node? hn, rfl⟩
  | nameModel name =>
    exact ⟨m, .refl, .inl ⟨.nameModel name, rfl, trivial, rfl⟩⟩

end Scheduling
