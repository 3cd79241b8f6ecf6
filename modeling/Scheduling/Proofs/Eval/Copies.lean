import Scheduling.Eval.Verify
import Scheduling.Proofs.Eval.Operands

/-!
# Evaluation of copies

Where one model covers another and the solutions give variables the same values, a node and its copy
are evaluated alike (`alike_nodeValue`), so they have the same value or none at all.
-/

namespace Scheduling

namespace Model

open Query (Alike)

variable {f : NodeId → NodeId} {m m' : Model} {s s' : Solution} {d d' : Nat} {id id' x y : NodeId}
  {n n' : Node} {a a' : Arg} {as as' : List Arg}

/-- A node before a place, and what it is a copy of before another place. -/
def Below (f : NodeId → NodeId) (m' : Model) (d' d : Nat) (x y : NodeId) : Prop :=
  m'.Has x ∧ y = f x ∧ x.index < d' ∧ y.index < d

theorem Below.succ (h : Below f m' d' d x y) : Below f m' (d' + 1) (d + 1) x y :=
  ⟨h.1, h.2.1, Nat.lt_succ_of_lt h.2.2.1, Nat.lt_succ_of_lt h.2.2.2⟩

/-! ### Variables -/

/-- The solutions give each variable and what it is a copy of the same value, as one of its kind. -/
def Follows (f : NodeId → NodeId) (m' : Model) (s' s : Solution) : Prop :=
  ∀ (id : NodeId) (n' : Node), m'.node? id = some n' → n'.operator.isVariable →
    (s'.value? id).map (adapted n'.operator) = (s.value? (f id)).map (adapted n'.operator)

theorem Follows.refl (m : Model) (s : Solution) : Follows (fun id => id) m s s := fun _ _ _ _ => rfl

/-- A variable has the same value for values that are the same as ones of its kind. -/
theorem alike_variableValue {S : NodeId → NodeId → Prop} (ho : n.operator = n'.operator)
    (hv : (s'.value? id').map (adapted n'.operator) = (s.value? id).map (adapted n'.operator)) :
    Alike Eq S (variableValue s' id' n') (variableValue s id n) := by
  unfold variableValue
  rw [ho]
  cases hs' : s'.value? id' with
  | none =>
    rw [hs', Option.map_none, eq_comm, Option.map_eq_none_iff] at hv
    rw [hv]
    exact .fail
  | some v' =>
    rw [hs', Option.map_some, eq_comm, Option.map_eq_some_iff] at hv
    obtain ⟨v, hs, hv⟩ := hv
    rw [hs]
    generalize n'.operator = op at hv
    by_cases hfloat : op = .floatVar
    · subst hfloat
      cases v' <;> cases v <;> simp only [adapted, reduceCtorEq] at hv <;>
        first
        | exact .fail
        | exact .answer (by simp_all)
    by_cases hbool : op = .boolVar
    · subst hbool
      cases v' <;> cases v <;> simp only [adapted, reduceCtorEq] at hv <;>
        first
        | exact .fail
        | exact .answer (by simp_all)
    · have hself (v : SolutionValue) : adapted op v = v := by
        unfold adapted
        split <;> simp_all
      rw [hself, hself] at hv
      subst hv
      cases op <;> cases v <;> first | exact .fail | exact .answer rfl

/-! ### Tables and changes of level -/

theorem alike_pairs {S : NodeId → NodeId → Prop} (points : List (List Int)) :
    Alike Eq S (pairs id' n' points) (pairs id n points) := by
  induction points with
  | nil => exact .answer rfl
  | cons point rest ih =>
    match point with
    | [x, y] =>
      refine ih.bind fun ps _ hps => ?_
      subst hps
      exact .answer rfl
    | [] | [_] | _ :: _ :: _ :: _ => exact .fail

theorem alike_negated {S : NodeId → NodeId → Prop} (cs : List Change) :
    Alike Eq S (negated cs) (negated cs) := by
  induction cs with
  | nil => exact .answer rfl
  | cons c rest ih =>
    obtain ⟨t, v⟩ := c
    refine (Alike.fitting _).bind fun w _ hw => ih.bind fun cs _ hcs => ?_
    subst hw hcs
    exact .answer rfl

section Parts

variable {S : NodeId → NodeId → Prop} {parts' parts : NodeId → Query (List Change)}

theorem alike_changesOfAll (hparts : ∀ x y, S x y → Alike Eq S (parts' x) (parts y))
    (has : Arg.AllLike f S as' as) :
    Alike Eq S (changesOfAll parts' id' n' as') (changesOfAll parts id n as) := by
  induction as' generalizing as with
  | nil =>
    obtain rfl := has.nil
    exact .answer rfl
  | cons a' as' ih =>
    obtain ⟨a, rest, rfl, ha, hrest⟩ := has.cons
    cases a' with
    | node x =>
      obtain ⟨rfl, hx⟩ := ha.node
      refine (hparts _ _ hx).bind fun cs _ hcs => (ih hrest).bind fun ds _ hds => ?_
      subst hcs hds
      exact .answer rfl
    | _ =>
      obtain ⟨rfl, -⟩ := ha
      exact .fail

theorem alike_changesAt (hparts : ∀ x y, S x y → Alike Eq S (parts' x) (parts y))
    (hcopy : n'.Copy f n) (hS : ∀ x ∈ n'.operands, S x (f x)) (i : Nat) :
    Alike Eq S (changesAt parts' id' n' i) (changesAt parts id n i) := by
  refine (Node.alike_arg hcopy hS i).bind fun a' a ha => ?_
  cases a' with
  | node x =>
    obtain ⟨rfl, hx⟩ := ha.node
    exact hparts _ _ hx
  | _ =>
    obtain ⟨rfl, -⟩ := ha
    exact .fail

end Parts

/-! ### Nodes of a copy -/

variable (hc : Covers f m' m)

include hc

theorem alike_lookup (hx : Below f m' d' d x y) :
    Alike (fun n' n => m'.node? x = some n' ∧ m.node? y = some n ∧ n'.Copy f n) (Below f m' d' d)
      (m'.lookup x) (m.lookup y) := by
  obtain ⟨hhas, rfl, -⟩ := hx
  obtain ⟨n', hn'⟩ := hhas.exists_node
  obtain ⟨n, hn, hcopy, -⟩ := hc.node x n' hn'
  rw [lookup, lookup, node_eq_ok.2 hn', node_eq_ok.2 hn]
  exact .answer ⟨hn', hn, hcopy⟩

theorem alike_stepPoints (ha : Arg.Like f (Below f m' d' d) a' a) :
    Alike Eq (Below f m' d' d) (m'.stepPoints a') (m.stepPoints a) := by
  cases a' with
  | node x =>
    obtain ⟨rfl, hx⟩ := ha.node
    refine (alike_lookup hc hx).bind fun n' n hn => ?_
    obtain ⟨-, -, hcopy⟩ := hn
    by_cases ho : n'.operator ≠ .stepFunction
    · rw [if_pos ho, if_pos (hcopy.operator ▸ ho)]
      exact .fail
    · rw [if_neg ho, if_neg (hcopy.operator ▸ ho), hcopy.attributes]
      refine (alike_pairs _).bind fun ps _ hps => ?_
      subst hps
      exact .answer rfl
  | _ =>
    obtain ⟨rfl, -⟩ := ha
    exact .fail

variable (h' : Sound m') (h : Sound m)

include h' h

/-- The operands of a node and those of its copy stand before them. -/
theorem below_operands (hid : Below f m' (d' + 1) (d + 1) id' id) (hn' : m'.node? id' = some n')
    (hn : m.node? id = some n) : ∀ x ∈ n'.operands, Below f m' d' d x (f x) := by
  obtain ⟨-, rfl, hd', hd⟩ := hid
  intro x hx
  obtain ⟨hhas, hlt⟩ := h'.operand hn' hx
  have hfx : f x ∈ n.operands := by
    rw [hc.operands hn' hn]
    exact List.mem_map_of_mem hx
  have := (h.operand hn hfx).2
  exact ⟨hhas, rfl, by omega, by omega⟩

/-- A cumulative function and its copy change alike. -/
theorem alike_changes (hx : Below f m' d' d x y) :
    Alike Eq (Below f m' d' d) (m'.changes d' x) (m.changes d y) := by
  induction d' generalizing d x y with
  | zero => exact absurd hx.2.2.1 (Nat.not_lt_zero _)
  | succ d' ih =>
    obtain ⟨d, rfl⟩ := Nat.exists_eq_succ_of_ne_zero (n := d) (by have := hx.2.2.2; omega)
    refine (alike_lookup hc hx).bind fun n' n hn => ?_
    obtain ⟨hn', hn, hcopy⟩ := hn
    have hbelow := below_operands hc h' h hx hn' hn
    have hS : ∀ z ∈ n'.operands, Below f m' (d' + 1) (d + 1) z (f z) :=
      fun z hz => (hbelow z hz).succ
    have hparts (i : Nat) : Alike Eq (Below f m' (d' + 1) (d + 1))
        (changesAt (m'.changes d') x n' i) (changesAt (m.changes d) y n i) :=
      (alike_changesAt (fun _ _ => ih) hcopy hbelow i).mono fun _ _ => Below.succ
    rw [hcopy.operator]
    cases n'.operator with
    | intervalStep step =>
      refine (Node.alike_intervalAt hcopy hS 0).bind fun interval _ hi => ?_
      subst hi
      cases interval with
      | none => exact Node.alike_argValue_bind hcopy hS 1 fun _ => .answer rfl
      | some interval =>
        refine Node.alike_argValue_bind hcopy hS 1 fun v => ?_
        cases v.int? with
        | none => exact .answer rfl
        | some height =>
          cases step with
          | pulse =>
            refine (Alike.fitting _).bind fun down _ hdown => ?_
            subst hdown
            exact .answer rfl
          | _ => exact .answer rfl
    | stepAt =>
      refine Node.alike_argValue_bind hcopy hS 0 fun t =>
        Node.alike_argValue_bind hcopy hS 1 fun height => ?_
      cases t.int? <;> cases height.int? <;> exact .answer rfl
    | cumulPlus =>
      refine (hparts 0).bind fun cs _ hcs => (hparts 1).bind fun ds _ hds => ?_
      subst hcs hds
      exact .answer rfl
    | cumulMinus =>
      refine (hparts 0).bind fun cs _ hcs => (hparts 1).bind fun ds _ hds => ?_
      subst hcs hds
      refine (alike_negated ds).bind fun es _ hes => ?_
      subst hes
      exact .answer rfl
    | cumulNeg =>
      refine (hparts 0).bind fun cs _ hcs => ?_
      subst hcs
      exact alike_negated cs
    | cumulSum =>
      refine ((Node.alike_listArg hcopy hbelow 0).mono fun _ _ => Below.succ).bind fun as' as has => ?_
      exact (alike_changesOfAll (fun _ _ => ih) has).mono fun _ _ => Below.succ
    | _ => exact .fail

/-! ### Nodes -/

section Nodes

variable (hcopy : n'.Copy f n) (hS : ∀ x ∈ n'.operands, Below f m' d' d x (f x))

include hcopy hS

theorem alike_cumulBoundHolds (b : Bounding) :
    Alike Eq (Below f m' d' d) (m'.cumulBoundHolds d' id' n' b) (m.cumulBoundHolds d id n b) := by
  refine (Node.alike_arg hcopy hS 0).bind fun a' a ha => ?_
  cases a' with
  | node x =>
    obtain ⟨rfl, hx⟩ := ha.node
    refine Node.alike_argValue_bind hcopy hS 1 fun v => ?_
    by_cases hv : v.isAbsent
    · rw [if_pos hv, if_pos hv]
      exact .answer rfl
    · rw [if_neg hv, if_neg hv]
      cases v.int? with
      | none => exact .fail
      | some bound =>
        by_cases hb : b.within bound 0
        · simp only [if_pos hb]
          refine (alike_changes hc h' h hx).bind fun cs _ hcs => ?_
          subst hcs
          exact .answer rfl
        · simp only [if_neg hb]
          exact .answer rfl
  | _ =>
    obtain ⟨rfl, -⟩ := ha
    exact .fail

theorem alike_noOverlapItems :
    Alike (fun p' p => Arg.AllLike f (Below f m' d' d) p'.1 p.1 ∧ p'.2 = p.2) (Below f m' d' d)
      (m'.noOverlapItems id' n') (m.noOverlapItems id n) := by
  refine (Node.alike_arg hcopy hS 0).bind fun a' a ha => ?_
  cases a' with
  | list items =>
    obtain ⟨rfl, hS⟩ := ha
    exact .answer ⟨⟨rfl, hS⟩, rfl⟩
  | node x =>
    obtain ⟨rfl, hx⟩ := ha.node
    refine (alike_lookup hc hx).bind fun seq' seq hseq => ?_
    obtain ⟨hseq', hseq, hcopy⟩ := hseq
    have hS := fun z hz => (below_operands hc h' h hx.succ hseq' hseq z hz)
    have htypes : seq'.types? = seq.types? := by rw [Node.types?, Node.types?, hcopy.attributes]
    have hhead := Node.like_getElem? hcopy hS 0
    simp only [← List.head?_eq_getElem?] at hhead
    obtain ⟨hn', hn⟩ | ⟨a', a, ha', ha, hl⟩ := hhead
    · simp only [hn', hn, Option.bind_none]
      exact .fail
    · obtain ⟨hn', hn⟩ | ⟨as', as, has', has, hall⟩ := hl.list?
      · simp only [ha', ha, Option.bind_some, hn', hn]
        exact .fail
      · simp only [ha', ha, Option.bind_some, has', has]
        exact .answer ⟨hall, htypes⟩
  | _ =>
    obtain ⟨rfl, -⟩ := ha
    exact .fail

theorem alike_constraintValue :
    Alike Eq (Below f m' d' d) (m'.constraintValue d' id' n') (m.constraintValue d id n) := by
  rw [constraintValue, constraintValue, hcopy.operator]
  cases n'.operator with
  | precedence p =>
    refine (Node.alike_intervalAt hcopy hS 0).bind fun a _ ha =>
      (Node.alike_intervalAt hcopy hS 1).bind fun b _ hb => ?_
    subst ha hb
    cases a with
    | none => exact .answer rfl
    | some a =>
      cases b with
      | none => exact .answer rfl
      | some b =>
        obtain ⟨hn', hn⟩ | ⟨a', a, ha', ha, hl⟩ := Node.like_getElem? hcopy hS 2
        · simp only [hn', hn]
          exact .answer rfl
        · simp only [ha', ha]
          refine hl.value.bind fun v _ hv => ?_
          subst hv
          cases v.int? <;> exact .answer rfl
  | alternative =>
    refine (Node.alike_intervalAt hcopy hS 0).bind fun main _ hmain =>
      (Node.alike_listArg hcopy hS 1).bind fun as' as has =>
        (Node.alike_intervalsOf has).bind fun options _ hoptions => ?_
    subst hmain hoptions
    exact .answer rfl
  | span =>
    refine (Node.alike_intervalAt hcopy hS 0).bind fun main _ hmain =>
      (Node.alike_listArg hcopy hS 1).bind fun as' as has =>
        (Node.alike_intervalsOf has).bind fun covered _ hcovered => ?_
    subst hmain hcovered
    exact .answer rfl
  | noOverlap =>
    refine (alike_noOverlapItems hc h' h hcopy hS).bind fun p' p hp => ?_
    obtain ⟨items', types'⟩ := p'
    obtain ⟨items, types⟩ := p
    obtain ⟨hitems, htypes⟩ := hp
    refine (Node.alike_intervalsOf hitems).bind fun intervals _ hi => ?_
    subst hi
    rw [hcopy.attributes, show types' = types from htypes]
    exact .answer rfl
  | cumulBound b =>
    exact (alike_cumulBoundHolds hc h' h hcopy hS b).map fun _ _ he => congrArg some he
  | forbid what =>
    refine (Node.alike_intervalAt hcopy hS 0).bind fun interval _ hi =>
      (Node.alike_arg hcopy hS 1).bind fun a' a ha =>
        (alike_stepPoints hc ha).bind fun g _ hg => ?_
    subst hi hg
    exact .answer rfl
  | _ => exact .answer rfl

/-- A node and its copy are evaluated alike. -/
theorem alike_nodeValue (hs : Follows f m' s' s) (hn' : m'.node? id' = some n') (hid : id = f id') :
    Alike Eq (Below f m' d' d) (m'.nodeValue s' d' id' n') (m.nodeValue s d id n) := by
  have hvar (hv : n'.operator.isVariable) :
      Alike Eq (Below f m' d' d) (variableValue s' id' n') (variableValue s id n) := by
    rw [hid]
    exact alike_variableValue hcopy.operator (hs id' n' hn' hv)
  have hints (i : Nat) : Alike Eq (Below f m' d' d) (n'.intAt id' i) (n.intAt id i) :=
    Node.alike_readArg hcopy hS _ _ i
  have hfloats (i : Nat) : Alike Eq (Below f m' d' d) (n'.floatAt id' i) (n.floatAt id i) :=
    Node.alike_readArg hcopy hS _ _ i
  have hbools (i : Nat) : Alike Eq (Below f m' d' d) (n'.boolAt id' i) (n.boolAt id i) :=
    Node.alike_readArg hcopy hS _ _ i
  have hintervals (i : Nat) :
      Alike Eq (Below f m' d' d) (n'.intervalAt id' i) (n.intervalAt id i) :=
    Node.alike_intervalAt hcopy hS i
  have hvalues (i : Nat) : Alike Eq (Below f m' d' d) (n'.arg id' i >>= Arg.value)
      (n.arg id i >>= Arg.value) := Node.alike_argValue hcopy hS i
  have hlist : Alike (Arg.AllLike f (Below f m' d' d)) (Below f m' d' d) (n'.listArg id' 0)
      (n.listArg id 0) := Node.alike_listArg hcopy hS 0
  have hholds : Alike Eq (Below f m' d' d) (m'.constraintValue d' id' n')
      (m.constraintValue d id n) := alike_constraintValue hc h' h hcopy hS
  rw [nodeValue, nodeValue, hcopy.operator]
  cases ho : n'.operator with
  | intVar | boolVar | floatVar | intervalVar => exact hvar (by rw [ho]; rfl)
  | intConst | floatConst | boolConst => exact hvalues 0
  | int op => exact Node.alike_binary _ hints
  | intNeg | intAbs => exact Node.alike_unary _ hints
  | intAggregate op =>
    refine hlist.bind fun as' as has => (Node.alike_presentOf _ _ has).bind fun vs _ hvs => ?_
    subst hvs
    exact .answer rfl
  | float op => exact Node.alike_binary _ hfloats
  | floatNeg | floatAbs => exact Node.alike_unary _ hfloats
  | floatAggregate op =>
    refine hlist.bind fun as' as has => (Node.alike_presentOf _ _ has).bind fun vs _ hvs => ?_
    subst hvs
    exact .answer rfl
  | intGuard | floatGuard =>
    refine Node.alike_argValue_bind hcopy hS 0 fun v => ?_
    by_cases hv : v.isAbsent
    · rw [if_pos hv, if_pos hv]
      exact hvalues 1
    · rw [if_neg hv, if_neg hv]
      exact .answer rfl
  | presence => exact Node.alike_argValue_bind hcopy hS 0 fun v => .answer rfl
  | identity =>
    refine (hfloats 0).bind fun a _ ha => (hfloats 1).bind fun b _ hb => ?_
    subst ha hb
    exact .answer rfl
  | compare c => exact Node.alike_binary _ hfloats
  | inRange =>
    refine (hfloats 0).bind fun x _ hx => ?_
    subst hx
    cases x with
    | none => exact .answer rfl
    | some x =>
      refine (hfloats 1).bind fun a _ ha => (hfloats 2).bind fun b _ hb => ?_
      subst ha hb
      exact .answer rfl
  | connect c => exact Node.alike_binary _ hbools
  | not => exact Node.alike_unary _ hbools
  | measure what =>
    refine (hintervals 0).bind fun interval _ hi => ?_
    subst hi
    cases interval <;> exact .answer rfl
  | measureOr what =>
    refine (hintervals 0).bind fun interval _ hi => ?_
    subst hi
    cases interval with
    | some interval => exact .answer rfl
    | none => exact hvalues 1
  | stepFunctionEval =>
    refine (Node.alike_arg hcopy hS 0).bind fun a' a ha =>
      (alike_stepPoints hc ha).bind fun g _ hg => (hints 1).bind fun t _ ht => ?_
    subst hg ht
    cases t <;> exact .answer rfl
  | stepFunctionSum =>
    refine (Node.alike_arg hcopy hS 0).bind fun a' a ha =>
      (alike_stepPoints hc ha).bind fun g _ hg => (hintervals 1).bind fun interval _ hi => ?_
    subst hg hi
    cases interval with
    | none => exact .answer rfl
    | some interval =>
      cases hsum : g.sum? interval.1 interval.2 with
      | none =>
        simp only [hsum]
        exact .fail
      | some total =>
        simp only [hsum]
        exact .answer rfl
  | precedence | alternative | span | noOverlap | cumulBound | forbid =>
    refine hholds.bind fun b _ hb => ?_
    subst hb
    exact .answer rfl
  | sequenceVar | stepFunction | intervalStep | stepAt | cumulPlus | cumulMinus | cumulNeg
  | cumulSum => exact .fail

end Nodes

/-- Whether a node holds is asked alike of the node and its copy. -/
theorem alike_holdsQuery (hx : Below f m' d' d x y) :
    Alike Eq (Below f m' d' d) (m'.holdsQuery d' x) (m.holdsQuery d y) := by
  refine (alike_lookup hc hx).bind fun n' n hn => ?_
  obtain ⟨hn', hn, hcopy⟩ := hn
  have hS := below_operands hc h' h hx.succ hn' hn
  rw [hcopy.operator]
  by_cases ho : n'.operator.isConstraint
  · rw [if_pos ho, if_pos ho]
    exact alike_constraintValue hc h' h hcopy hS
  · rw [if_neg ho, if_neg ho]
    refine (Alike.value hx).bind fun v _ hv => ?_
    subst hv
    by_cases hv : v.isAbsent
    · rw [if_pos hv, if_pos hv]
      exact .answer rfl
    · rw [if_neg hv, if_neg hv]
      cases v.bool? with
      | some b => exact .answer rfl
      | none => exact .fail

end Model

end Scheduling
