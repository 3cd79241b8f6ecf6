import Scheduling.Proofs.Arena.Calls
import Scheduling.Proofs.Record.Covers
import Scheduling.Proofs.Record.Json

/-!
# Numbers in a model

A model that is built from integers of 64 bits has no other integers in its nodes, and its floats
are finite or those of such integers (`InRange.calls`). So are the numbers in its record
(`InRange.record`).
-/

namespace Scheduling

/-- A float that building leaves in a node: a finite one, or that of an integer. -/
def IsReal (x : Float) : Prop := x.isFinite ∨ ∃ v, Fits v ∧ x = Float.ofInt v

/-! ### Calls with integers of 64 bits -/

/-- The literal has 64 bits. -/
def IntOperand.Proper : IntOperand → Prop
  | const v => Fits v
  | node _ => True

/-- An integer literal has 64 bits. -/
def FloatOperand.Proper : FloatOperand → Prop
  | int v => Fits v
  | _ => True

/-- The integers of the call have 64 bits, and an interval variable has no bounds but its own. -/
def Call.Proper : Call → Prop
  | intervalVar v => v.bounds.min = none ∧ v.bounds.max = none
  | sequenceVar v => ∀ types ∈ v.types, ∀ t ∈ types, Fits t
  | intConst v => Fits v
  | int _ a b => a.Proper ∧ b.Proper
  | intNeg a | intAbs a => a.Proper
  | intAggregate _ items => ∀ a ∈ items, a.Proper
  | intGuard a default => a.Proper ∧ Fits default
  | float _ a b | identity a b | compare _ a b => a.Proper ∧ b.Proper
  | floatNeg a | floatAbs a | floatGuard a _ | inRange a _ _ | optimize _ a => a.Proper
  | floatAggregate _ items => ∀ a ∈ items, a.Proper
  | measureOr _ _ default => Fits default
  | precedence _ _ _ delay => delay.Proper
  | noOverlap _ transitions | noOverlapSequence _ transitions =>
    ∀ rows ∈ transitions, TableInRange rows
  | intervalStep _ _ height => height.Proper
  | stepAt time height => Fits time ∧ height.Proper
  | cumulBound _ _ bound => Fits bound
  | stepFunction points => ∀ p ∈ points, Fits p.1 ∧ Fits p.2
  | stepFunctionEval _ time => time.Proper
  | _ => True

/-! ### Nodes -/

mutual

/-- Integers have 64 bits and floats are real. -/
def Arg.InRange : Arg → Prop
  | .int v => Fits v
  | .float x => IsReal x
  | .list items => Arg.AllInRange items
  | _ => True

/-- All arguments are in range. -/
def Arg.AllInRange : List Arg → Prop
  | [] => True
  | a :: rest => Arg.InRange a ∧ Arg.AllInRange rest

end

theorem Arg.allInRange_nodes (ids : List NodeId) : AllInRange (ids.map Arg.node) := by
  induction ids with
  | nil => trivial
  | cons id ids ih => exact ⟨trivial, ih⟩

/-- Arguments and attributes are in range. -/
structure Node.InRange (n : Node) : Prop where
  args : Arg.AllInRange n.args
  attributes : n.toAttributes.InRange IsReal

namespace Node

variable {n n' : Node} {args : List Arg} {op : Operator}

theorem InRange.of_core (h : n.InRange) (hc : n'.core = n.core) : n'.InRange := by
  refine ⟨args_eq_of_core hc ▸ h.args, ?_, ?_⟩
  · exact bounds_eq_of_core hc ▸ h.attributes.bounds
  · exact values_eq_of_core hc ▸ h.attributes.values

theorem boundsNone_inRange : Bounds.none.InRange IsReal := by
  constructor <;> simp [Bounds.none]

theorem plain_inRange (h : Arg.AllInRange args) : (plain op args).InRange :=
  ⟨h, boundsNone_inRange, by simp [plain, fresh, Attributes.none]⟩

end Node

namespace Model

variable {m m' : Model} {n : Node} {id : NodeId}

/-- All nodes are in range. -/
def InRange (m : Model) : Prop := ∀ (i : Nat) (n : Node), m.nodes[i]? = some n → n.InRange

namespace InRange

theorem of_keeps (h : m.InRange) (hk : Keeps m m') (hs : m'.nodes.size = m.nodes.size) :
    m'.InRange := fun _ _ hn' => by
  obtain ⟨n, hn, hc⟩ := hk.node_back hs hn'
  exact (h _ n hn).of_core hc

theorem push (h : m.InRange) (hn : n.InRange) : (m.push n).InRange := by
  intro i n' hn'
  rw [getElem?_push] at hn'
  split at hn'
  · exact Option.some.inj hn' ▸ hn
  · exact h i n' hn'

theorem extend (h : m.InRange) (hn : n.InRange) : (m.extend n).InRange :=
  (h.push hn).of_keeps grows_extend.keeps (by rw [extend_frame.2.2.2.1, size_push])

theorem addTopLevel (h : m.InRange) : (m.addTopLevel id).InRange := by
  obtain ⟨-, -, -, -, hs⟩ := use_frame { m with topLevel := m.topLevel.push id } id
  exact h.of_keeps grows_addTopLevel.keeps hs

theorem materialize (h : m.InRange) : (m.materialize id).InRange :=
  h.of_keeps grows_materialize.keeps size_materialize

theorem renamed (h : m.InRange) (name : String) : (m.renamed id name).InRange :=
  h.of_keeps (keeps_renamed name) (size_modify _)

end InRange

end Model

/-! ### Parts of a call -/

namespace Building

open Model

variable {α β : Type} {x : Building α} {f : α → Building β} {Q : α → Prop} {R : β → Prop}

/-- A part of a call that leaves the model as it is. -/
def Still (x : Building α) : Prop := ∀ m, (x m).2 = m

namespace Still

theorem bind (hx : Still x) (hf : ∀ a, Still (f a)) : Still (x >>= f) := by
  intro m
  have hm := hx m
  rw [bind_apply]
  rcases he : x m with ⟨r, m'⟩
  rw [he] at hm
  obtain rfl : m' = m := hm
  cases r with
  | ok a => exact hf a m'
  | error e => rfl

theorem pure (a : α) : Still (Pure.pure a) := fun _ => rfl

theorem fail (e : ModelError) : Still (Building.fail (α := α) e) := fun _ => rfl

theorem check (r : Except ModelError α) : Still (check r) := fun m => by rw [check_apply]

theorem node {id : NodeId} : Still (node id) := fun m => by rw [node_apply]

theorem expect {e : Expectation} {id : NodeId} : Still (expect e id) := by
  refine bind node fun n => ?_
  split
  · exact pure _
  · exact fail _

theorem expectAll {e : Expectation} {ids : List NodeId} : Still (expectAll e ids) := by
  induction ids with
  | nil => exact pure _
  | cons id ids ih => exact bind expect fun _ => ih

theorem finite {what : String} {x : Float} : Still (finite what x) := by
  unfold Building.finite
  split
  · exact pure _
  · exact fail _

theorem checkLimit {what : String} {least greatest : Int} {bound : Option Int} :
    Still (checkLimit what least greatest bound) := by
  cases bound with
  | none => exact pure _
  | some v =>
    show Still (if v < least ∨ greatest < v then _ else _)
    split
    · exact fail _
    · exact pure _

theorem checkBounds {what : String} {low high : Option Int} {least greatest : Int} :
    Still (checkBounds what low high least greatest) := by
  refine bind checkLimit fun _ => bind checkLimit fun _ => ?_
  split
  · split
    · exact fail _
    · exact pure _
  · exact pure _

theorem checkFinite {what : String} {bound : Option Float} : Still (checkFinite what bound) := by
  cases bound with
  | none => exact pure _
  | some x => exact bind finite fun _ => pure _

theorem checkTypes {intervals : Nat} {types : Option (List Int)} :
    Still (checkTypes intervals types) := by
  cases types with
  | none => exact pure _
  | some types =>
    show Still (if types.length ≠ intervals then _ else _)
    split
    · exact fail _
    · split
      · exact fail _
      · exact pure _

end Still

/-- A part of a call that keeps the nodes in range, and if it succeeds, gives a result with a
property. -/
def Within (x : Building α) (Q : α → Prop) : Prop :=
  ∀ m, m.InRange → (x m).2.InRange ∧ ∀ a, (x m).1 = .ok a → Q a

namespace Within

theorem pure {a : α} (h : Q a) : Within (Pure.pure a) Q :=
  fun _ hm => ⟨hm, fun _ he => Except.ok.inj he ▸ h⟩

theorem bind (hx : Within x Q) (hf : ∀ a, Q a → Within (f a) R) : Within (x >>= f) R := by
  intro m hm
  obtain ⟨hm', ha⟩ := hx m hm
  rw [bind_apply]
  rcases he : x m with ⟨r, m'⟩
  rw [he] at hm' ha
  cases r with
  | ok a => exact hf a (ha a rfl) m' hm'
  | error e => exact ⟨hm', fun a ha => (nomatch ha)⟩

theorem map {g : α → β} (hx : Within x Q) (hg : ∀ a, Q a → R (g a)) : Within (g <$> x) R := by
  intro m hm
  obtain ⟨hm', ha⟩ := hx m hm
  rw [map_apply]
  rcases he : x m with ⟨r, m'⟩
  rw [he] at hm' ha
  cases r with
  | ok a => exact ⟨hm', fun _ he => Except.ok.inj he ▸ hg a (ha a rfl)⟩
  | error e => exact ⟨hm', fun a ha => (nomatch ha)⟩

/-- What a part prepares without building anything. -/
theorem of_still (hs : Still x) (hp : ∀ m, Prepares x m fun a _ => Q a) : Within x Q := by
  intro m hm
  refine ⟨by rwa [hs m], fun a ha => ?_⟩
  obtain ⟨m', -, ⟨b, he, hb⟩ | ⟨e, he⟩⟩ := hp m
  · rw [he] at ha
    exact Except.ok.inj ha ▸ hb
  · rw [he] at ha
    exact nomatch ha

/-- A part that leaves the model as it is may come first. -/
theorem after (hx : Still x) (hf : ∀ a, Within (f a) R) : Within (x >>= f) R :=
  bind (Q := fun _ => True) (fun m hm => ⟨by rwa [hx m], fun _ _ => trivial⟩) fun a _ => hf a

theorem modify {g : Model → Model} (hg : ∀ m, m.InRange → (g m).InRange) :
    Within (modify g) fun _ => True :=
  fun m hm => ⟨hg m hm, fun _ _ => trivial⟩

/-- Nodes of another model are not found. -/
theorem forM_node_error {m : Model} {ids : List NodeId} (h : ¬ ∀ id ∈ ids, m.Has id) :
    ∃ e, (ids.forM fun id => discard (node id) : Building PUnit) m = (.error e, m) := by
  induction ids with
  | nil => exact (h (by simp)).elim
  | cons id ids ih =>
    have hdiscard : (discard (node id) : Building PUnit) m =
        ((m.node id).map fun _ => ⟨⟩, m) := by
      show ((fun _ => PUnit.unit) <$> node id : Building PUnit) m = _
      rw [map_apply, node_apply]
      cases m.node id <;> rfl
    show ∃ e, ((discard (node id) : Building PUnit) >>= fun _ => ids.forM _) m = _
    rw [bind_apply, hdiscard]
    cases hn : m.node id with
    | error e => exact ⟨e, rfl⟩
    | ok n =>
      refine ih fun hall => h (List.forall_mem_cons.2 ⟨?_, hall⟩)
      exact has_of_node? (node_eq_ok.1 hn)

theorem add {n : Node} (hn : n.InRange) : Within (add n) fun _ => True := by
  intro m hm
  refine ⟨?_, fun _ _ => trivial⟩
  by_cases hhas : ∀ id ∈ n.operands, m.Has id
  · rw [add_apply hhas]
    exact hm.extend hn
  · obtain ⟨e, he⟩ := forM_node_error hhas
    rw [Building.add, bind_apply, he]
    exact hm

theorem addOver {op : Operator} {ids : List NodeId} : Within (addOver op ids) fun _ => True :=
  add (Node.plain_inRange (Arg.allInRange_nodes ids))

/-! ### Operands -/

theorem constant {is : Node → Bool} {op : Operator} {value : Arg} (h : value.InRange) :
    Within (constant is op value) fun _ => True := by
  refine after (fun _ => rfl) fun m => ?_
  split
  · exact pure trivial
  · exact fun m hm => ⟨hm.push (Node.plain_inRange ⟨h, trivial⟩), fun _ _ => trivial⟩

theorem finite {what : String} {x : Float} : Within (finite what x) IsReal :=
  of_still .finite fun m => by
    obtain ⟨m', hm, h⟩ := Prepares.finite (m := m) what x
    exact ⟨m', hm, h.imp_left fun ⟨a, he, ha⟩ => ⟨a, he, .inl (ha.1 ▸ ha.2)⟩⟩

theorem floatConst (x : Float) : Within (floatConst x) fun _ => True :=
  bind finite fun _ hy => constant hy

theorem intOperand {a : IntOperand} (h : a.Proper) : Within (intOperand a) fun _ => True := by
  cases a with
  | const v => exact constant h
  | node id => exact after .expect fun _ => pure trivial

theorem floatOperand {a : FloatOperand} (h : a.Proper) : Within (floatOperand a) fun _ => True := by
  cases a with
  | int v => exact constant h
  | float x => exact floatConst x
  | node id => exact after .expect fun _ => pure trivial

theorem boolOperand (a : BoolOperand) : Within (boolOperand a) fun _ => True := by
  cases a with
  | const b => exact constant trivial
  | node id => exact after .expect fun _ => pure trivial

theorem intArg {a : IntOperand} (h : a.Proper) : Within (intArg a) Arg.InRange := by
  cases a with
  | const v => exact pure h
  | node id => exact after .expect fun _ => pure trivial

theorem intOperands {items : List IntOperand} (h : ∀ a ∈ items, a.Proper) :
    Within (intOperands items) fun _ => True := by
  induction items with
  | nil => exact pure trivial
  | cons a rest ih =>
    obtain ⟨ha, hrest⟩ := List.forall_mem_cons.1 h
    exact bind (intOperand ha) fun _ _ => bind (ih hrest) fun _ _ => pure trivial

theorem floatOperands {items : List FloatOperand} (h : ∀ a ∈ items, a.Proper) :
    Within (floatOperands items) fun _ => True := by
  induction items with
  | nil => exact pure trivial
  | cons a rest ih =>
    obtain ⟨ha, hrest⟩ := List.forall_mem_cons.1 h
    exact bind (floatOperand ha) fun _ _ => bind (ih hrest) fun _ _ => pure trivial

/-! ### Variables -/

theorem checkBounds {what : String} {low high : Option Int} {least greatest : Int} :
    Within (checkBounds what low high least greatest) fun _ => Limited least greatest low high :=
  of_still .checkBounds fun _ => prepares_checkBounds ..

theorem checkFinite {what : String} {bound : Option Float} :
    Within (checkFinite what bound) fun _ => ∀ x ∈ bound, x.isFinite :=
  of_still .checkFinite fun _ => prepares_checkFinite ..

theorem intVar (v : IntVarSpec) : Within (intVar v) fun _ => True := by
  refine bind checkBounds fun _ hb => add ?_
  have hreal {o : Option Int} (ho : ∀ i ∈ o, -intVarMax ≤ i ∧ i ≤ intVarMax) :
      ∀ x ∈ o.map Float.ofInt, IsReal x := by
    intro x hx
    obtain ⟨i, hi, rfl⟩ := Option.map_eq_some_iff.1 hx
    have := ho i hi
    refine .inr ⟨i, ?_, rfl⟩
    simp only [Fits, intMin, intMax, intVarMax] at *
    omega
  refine ⟨trivial, ⟨hreal hb.1, hreal hb.2.1, ?_, ?_, ?_, ?_, ?_, ?_⟩, ?_⟩ <;>
    simp [Bounds.none, Node.plain, Node.fresh, Attributes.none]

theorem floatVar (v : FloatVarSpec) : Within (floatVar v) fun _ => True := by
  refine bind checkFinite fun _ hl => bind checkFinite fun _ hh => ?_
  have hadd : Within (Building.add { Node.plain .floatVar [] with
      bounds := { Bounds.none with min := v.min, max := v.max }, presence := v.presence,
      name := v.name }) fun _ => True := by
    refine add ⟨trivial, ⟨fun x hx => .inl (hl x hx), fun x hx => .inl (hh x hx), ?_, ?_, ?_, ?_, ?_,
      ?_⟩, ?_⟩ <;> simp [Bounds.none, Node.plain, Node.fresh, Attributes.none]
  split
  · split
    · exact after (.fail _) fun _ => hadd
    · exact hadd
  · exact hadd

theorem intervalVar {v : IntervalVarSpec} (hmin : v.bounds.min = none) (hmax : v.bounds.max = none) :
    Within (intervalVar v) fun _ => True := by
  refine bind checkBounds fun _ hs => bind checkBounds fun _ he => ?_
  refine bind checkBounds fun _ hl => add ?_
  have hfits {least greatest : Int} {o : Option Int} (hleast : intMin ≤ least)
      (hgreatest : greatest ≤ intMax) (ho : ∀ i ∈ o, least ≤ i ∧ i ≤ greatest) :
      ∀ i ∈ o, Fits i := by
    intro i hi
    have := ho i hi
    simp only [Fits]
    omega
  refine ⟨trivial, ⟨?_, ?_, hfits ?_ ?_ hs.1, hfits ?_ ?_ hs.2.1, hfits ?_ ?_ he.1,
    hfits ?_ ?_ he.2.1, hfits ?_ ?_ hl.1, hfits ?_ ?_ hl.2.1⟩, ?_⟩
  case refine_1 => simp [hmin]
  case refine_2 => simp [hmax]
  case refine_15 => simp [Node.plain, Node.fresh, Attributes.none]
  all_goals decide

theorem sequenceVar {v : SequenceVarSpec} (h : ∀ types ∈ v.types, ∀ t ∈ types, Fits t) :
    Within (sequenceVar v) fun _ => True := by
  refine after .expectAll fun _ => after .checkTypes fun _ => add ?_
  refine ⟨⟨Arg.allInRange_nodes v.intervals, trivial⟩, Node.boundsNone_inRange, fun rows hrows => ?_⟩
  obtain ⟨types, htypes, rfl⟩ := Option.map_eq_some_iff.1 hrows
  intro row hrow t ht
  obtain rfl := List.mem_singleton.1 hrow
  exact h row htypes t ht

/-! ### Intervals and tables -/

theorem precedence (p : Precedence) (a b : NodeId) {delay : IntOperand} (h : delay.Proper) :
    Within (precedence p a b delay) fun _ => True := by
  refine after .expect fun _ => after .expect fun _ => bind (intArg h) fun d hd => ?_
  split
  · exact add (Node.plain_inRange ⟨trivial, trivial, trivial⟩)
  · exact add (Node.plain_inRange ⟨trivial, trivial, hd, trivial⟩)

theorem overIntervals {op : Operator} {main : NodeId} {items : List NodeId} :
    Within (overIntervals op [main] items) fun _ => True :=
  after .expectAll fun _ => after .expectAll fun _ =>
    add (Node.plain_inRange ⟨trivial, Arg.allInRange_nodes items, trivial⟩)

theorem noOverlap (intervals : List NodeId) {transitions : Option (List (List Int))}
    (h : ∀ rows ∈ transitions, TableInRange rows) :
    Within (noOverlap intervals transitions) fun _ => True := by
  have hadd : Within (Building.add { Node.plain .noOverlap [.list (intervals.map Arg.node)] with
      values := transitions }) fun _ => True :=
    add ⟨⟨Arg.allInRange_nodes intervals, trivial⟩, Node.boundsNone_inRange, h⟩
  refine after .expectAll fun _ => ?_
  cases transitions with
  | none => exact hadd
  | some matrix => exact after (.check _) fun _ => hadd

theorem noOverlapSequence (sequence : NodeId) {transitions : Option (List (List Int))}
    (h : ∀ rows ∈ transitions, TableInRange rows) :
    Within (noOverlapSequence sequence transitions) fun _ => True := by
  have hadd : Within (Building.add { Node.plain .noOverlap [.node sequence] with
      values := transitions }) fun _ => True :=
    add ⟨⟨trivial, trivial⟩, Node.boundsNone_inRange, h⟩
  refine after .node fun seq => ?_
  by_cases hop : seq.operator = .sequenceVar
  · simp only [hop, ne_eq, not_true_eq_false, if_false]
    cases transitions with
    | none => exact hadd
    | some matrix => exact after (.check _) fun _ => hadd
  · simp only [ne_eq, hop, not_false_eq_true, if_true]
    cases transitions with
    | none => exact after (.fail _) fun _ => hadd
    | some matrix => exact after (.fail _) fun _ => after (.check _) fun _ => hadd

theorem stepFunction {points : List (Int × Int)} (h : ∀ p ∈ points, Fits p.1 ∧ Fits p.2) :
    Within (stepFunction points) fun _ => True := by
  refine after (.check _) fun _ => add ⟨trivial, Node.boundsNone_inRange, fun rows hrows => ?_⟩
  obtain rfl := Option.some.inj hrows
  intro row hrow v hv
  obtain ⟨p, hp, rfl⟩ := List.mem_map.1 hrow
  obtain rfl | hv := List.mem_cons.1 hv
  · exact (h p hp).1
  · exact List.mem_singleton.1 hv ▸ (h p hp).2

end Within

end Building

/-! ### Every call -/

namespace Model

open Building

/-- A call keeps the numbers in the nodes in range. -/
theorem within_run {c : Call} (h : c.Proper) : Within c.run fun _ => True := by
  have hmap {α : Type} {x : Building α} {g : α → Option NodeId} (hx : Within x fun _ => True) :
      Within (g <$> x) fun _ => True := .map hx fun _ _ => trivial
  cases c with
  | intVar v => exact hmap (.intVar v)
  | boolVar v =>
    exact hmap (.add ⟨trivial, Node.boundsNone_inRange, by simp [Node.plain, Node.fresh, Attributes.none]⟩)
  | floatVar v => exact hmap (.floatVar v)
  | intervalVar v => exact hmap (.intervalVar h.1 h.2)
  | sequenceVar v => exact hmap (.sequenceVar h)
  | intConst v => exact hmap (.constant h)
  | floatConst x => exact hmap (.floatConst x)
  | boolConst b => exact hmap (.constant trivial)
  | int op a b =>
    exact .bind (.intOperand h.1) fun _ _ => .bind (.intOperand h.2) fun _ _ => hmap .addOver
  | intNeg a | intAbs a => exact .bind (.intOperand h) fun _ _ => hmap .addOver
  | intAggregate op items =>
    refine .bind (.intOperands h) fun ids _ => hmap (.add (Node.plain_inRange ?_))
    exact ⟨Arg.allInRange_nodes ids, trivial⟩
  | intGuard a default =>
    refine .bind (.intOperand h.1) fun id _ => hmap (.add (Node.plain_inRange ?_))
    exact ⟨trivial, h.2, trivial⟩
  | float op a b | identity a b | compare op a b =>
    exact .bind (.floatOperand h.1) fun _ _ => .bind (.floatOperand h.2) fun _ _ =>
      hmap .addOver
  | floatNeg a | floatAbs a => exact .bind (.floatOperand h) fun _ _ => hmap .addOver
  | floatAggregate op items =>
    refine .bind (.floatOperands h) fun ids _ => hmap (.add (Node.plain_inRange ?_))
    exact ⟨Arg.allInRange_nodes ids, trivial⟩
  | floatGuard a default =>
    refine .bind .finite fun x hx => .bind (.floatOperand h) fun id _ => ?_
    exact hmap (.add (Node.plain_inRange ⟨trivial, hx, trivial⟩))
  | presence id => exact .after .node fun _ => hmap .addOver
  | inRange a least greatest =>
    refine .bind .finite fun x hx => .bind .finite fun y hy => ?_
    refine .bind (.floatOperand h) fun id _ => hmap (.add (Node.plain_inRange ?_))
    exact ⟨trivial, hx, hy, trivial⟩
  | connect op a b =>
    exact .bind (.boolOperand a) fun _ _ => .bind (.boolOperand b) fun _ _ => hmap .addOver
  | not a => exact .bind (.boolOperand a) fun _ _ => hmap .addOver
  | measure op interval => exact .after .expect fun _ => hmap .addOver
  | measureOr op interval default =>
    refine .after .expect fun _ => hmap (.add (Node.plain_inRange ?_))
    exact ⟨trivial, h, trivial⟩
  | precedence p a b delay => exact hmap (.precedence p a b h)
  | alternative main options => exact hmap .overIntervals
  | span main covered => exact hmap .overIntervals
  | noOverlap intervals transitions => exact hmap (.noOverlap intervals h)
  | noOverlapSequence sequence transitions => exact hmap (.noOverlapSequence sequence h)
  | intervalStep step interval height =>
    refine .after .expect fun _ => .bind (.intArg h) fun a ha => ?_
    exact hmap (.add (Node.plain_inRange ⟨trivial, ha, trivial⟩))
  | stepAt time height =>
    refine .bind (.intArg h.2) fun a ha => hmap (.add (Node.plain_inRange ?_))
    exact ⟨h.1, ha, trivial⟩
  | cumulPlus a b | cumulMinus a b => exact .after .expectAll fun _ => hmap .addOver
  | cumulNeg a => exact .after .expect fun _ => hmap .addOver
  | cumulSum items =>
    refine .after .expectAll fun _ => hmap (.add (Node.plain_inRange ?_))
    exact ⟨Arg.allInRange_nodes items, trivial⟩
  | cumulBound b f bound =>
    refine .after .expect fun _ => hmap (.add (Node.plain_inRange ?_))
    exact ⟨trivial, h, trivial⟩
  | stepFunction points => exact hmap (.stepFunction h)
  | stepFunctionEval f time =>
    refine .after .expect fun _ => .bind (.intOperand h) fun _ _ => ?_
    exact hmap .addOver
  | stepFunctionSum f interval | forbid what interval f =>
    refine .after .expect fun _ => .after .expect fun _ => ?_
    exact hmap .addOver
  | constraint a =>
    refine .bind (Q := fun _ => True) (.bind (.boolOperand a) fun id _ => ?_) fun _ _ => .pure trivial
    exact .modify fun m hm => hm.addTopLevel
  | optimize sense a =>
    refine .bind (Q := fun _ => True) (.bind (.floatOperand h) fun id _ => ?_) fun _ _ => .pure trivial
    exact .modify fun m hm => hm.materialize
  | nameNode id name =>
    refine .bind (Q := fun _ => True) (.after .node fun n => ?_) fun _ _ => .pure trivial
    exact .modify fun m hm => (hm.renamed name).materialize
  | nameModel name =>
    refine .bind (.modify fun m hm => ?_) fun _ _ => .pure trivial
    exact hm

theorem InRange.calls {m : Model} (h : m.InRange) {cs : List Call} (hcs : ∀ c ∈ cs, c.Proper) :
    (m.calls cs).InRange := by
  induction cs generalizing m with
  | nil => exact h
  | cons c cs ih =>
    obtain ⟨hc, hcs⟩ := List.forall_mem_cons.1 hcs
    exact ih (within_run hc m h).1 hcs

theorem inRange_empty (tag : Nat) (name : Option String) : (empty tag name).InRange := by
  simp [InRange, empty]

/-! ### Records -/

section Records

variable {m : Model} {reference : NodeId → Except ProtocolError ArgRecord}

mutual

theorem argRecord_inRange (href : ∀ id r, reference id = .ok r → r.InRange IsReal) (a : Arg)
    (h : a.InRange) {r : ArgRecord} (hr : argRecord reference a = .ok r) : r.InRange IsReal := by
  match a with
  | .int v => exact Except.ok.inj hr ▸ h
  | .float x => exact Except.ok.inj hr ▸ h
  | .bool b => exact Except.ok.inj hr ▸ trivial
  | .node id => exact href id r hr
  | .list items =>
    rw [argRecord] at hr
    split at hr
    · rename_i rs hrs
      exact Except.ok.inj hr ▸ argRecords_inRange href items h hrs
    · exact nomatch hr

theorem argRecords_inRange (href : ∀ id r, reference id = .ok r → r.InRange IsReal)
    (args : List Arg) (h : Arg.AllInRange args) {rs : List ArgRecord}
    (hr : argRecords reference args = .ok rs) : ArgRecord.AllInRange IsReal rs := by
  match args with
  | [] => exact Except.ok.inj hr ▸ trivial
  | a :: rest =>
    rw [argRecords] at hr
    split at hr
    · exact nomatch hr
    · rename_i ra hra
      split at hr
      · exact nomatch hr
      · rename_i rs' hrs
        exact Except.ok.inj hr ▸
          ⟨argRecord_inRange href a h.1 hra, argRecords_inRange href rest h.2 hrs⟩

end

theorem nodeRecord_inRange (href : ∀ id r, reference id = .ok r → r.InRange IsReal) {n : Node}
    (h : n.InRange) {r : NodeRecord} (hr : nodeRecord reference n = .ok r) : r.InRange IsReal := by
  rw [nodeRecord] at hr
  split at hr
  · rename_i args hargs
    exact Except.ok.inj hr ▸ ⟨argRecords_inRange href n.args h.args hargs, h.attributes⟩
  · cases hr

/-- Uses of nodes are in range: numbers of nodes have 32 bits. -/
theorem referenceBelow_inRange (h : m.InRange)
    (href : ∀ id n k, m.node? id = some n → n.ref = some k → (k : Int) ≤ halfWordMax) (depth : Nat)
    (id : NodeId) (r : ArgRecord) (hr : m.referenceBelow depth id = .ok r) : r.InRange IsReal := by
  induction depth generalizing id r with
  | zero => cases hr
  | succ depth ih =>
    rw [referenceBelow] at hr
    split at hr
    · cases hr
    · rename_i n hn
      have hn' := node_eq_ok.1 hn
      split at hr
      · rename_i k hk
        exact Except.ok.inj hr ▸ href id n k hn' hk
      · split at hr
        · rename_i rn hrn
          exact Except.ok.inj hr ▸ nodeRecord_inRange ih (h _ n (node?_eq_some.1 hn').2) hrn
        · cases hr

/-- The numbers in the record of a model are in range. -/
theorem InRange.record (h : m.InRange) (hs : Sound m) (hsize : (m.refs.size : Int) ≤ halfWordMax + 1)
    {r : ModelRecord} (hr : m.record = .ok r) : r.InRange IsReal := by
  have hnumber (id : NodeId) (n : Node) (k : Nat) (hn : m.node? id = some n) (hk : n.ref = some k) :
      (k : Int) ≤ halfWordMax := by
    have := hs.numbered.ref_lt (ref?_eq_some.2 ⟨n, hn, hk⟩)
    omega
  have href := referenceBelow_inRange h hnumber m.nodes.size
  obtain ⟨r', hr', -, hrefs, htop, hobj⟩ := exists_record hs
  obtain rfl := Except.ok.inj (hr.symm.trans hr')
  refine ⟨fun n hn => ?_, fun a ha => ?_, fun o ho => ?_⟩
  · obtain ⟨id, -, hid⟩ := exists_of_forall₂ hrefs hn
    rw [refRecord] at hid
    split at hid
    · rename_i nd hnd
      exact nodeRecord_inRange href (h _ nd (node?_eq_some.1 (node_eq_ok.1 hnd)).2) hid
    · cases hid
  · obtain ⟨id, -, hid⟩ := exists_of_forall₂ htop ha
    exact href id a hid
  · cases hmo : m.objective with
    | none =>
      rw [hmo] at hobj
      simp [hobj] at ho
    | some mo =>
      rw [hmo] at hobj
      obtain ⟨k, hk, hobj⟩ := hobj
      obtain ⟨n, hn, hnk⟩ := ref?_eq_some.1 hk
      obtain rfl := Option.some.inj (hobj.symm.trans ho)
      exact hnumber _ n k hn hnk

end Records

end Model

end Scheduling
