import Scheduling.Proofs.Eval.Safe
import Scheduling.Proofs.Eval.StepFunctions
import Scheduling.Proofs.Record.Range

/-!
# What an overflow is to blame on

A model with integers of 64 bits and a solution with integers of 64 bits evaluate to integers of 64
bits. On the way an operation overflows only for a cause: in a bound on a cumulative function, where a
height of -2^63 has to be turned (`boundsBlame_of_hasHeight`), or where an interval is longer than 64
bits can count (`sure_nodeValue`). The cause is a proposition that is carried through the operators,
so that it can be chosen later.
-/

namespace Scheduling

/-! ### Values of 64 bits -/

/-- The integers of a value have 64 bits. -/
def Value.InRange : Value → Prop
  | int v => Fits v
  | interval start finish => Fits start ∧ Fits finish
  | _ => True

namespace Value

variable {v : Value} {i : Int} {p : Int × Int}

theorem InRange.fits_int? (h : v.InRange) (hi : v.int? = some i) : Fits i := by
  cases v with
  | bool b =>
    obtain rfl := Option.some.inj hi
    cases b <;> decide
  | int w => exact Option.some.inj hi ▸ h
  | _ => exact nomatch hi

theorem inRange_ofInt? {o : Option Int} (h : ∀ i ∈ o, Fits i) : (ofInt? o).InRange := by
  cases o with
  | none => trivial
  | some i => exact h i rfl

theorem inRange_ofFloat? (o : Option Float) : (ofFloat? o).InRange := by cases o <;> trivial

theorem inRange_ofBool? (o : Option Bool) : (ofBool? o).InRange := by cases o <;> trivial

end Value

theorem fits_of_checked {v : Int} : ∀ w ∈ checked v, Fits w := fun _ hw =>
  (checked_eq_some.1 hw).2 ▸ (checked_eq_some.1 hw).1

theorem Arithmetic.fits_ints? {op : Arithmetic} {a b : Int} (ha : Fits a) (hb : Fits b) :
    ∀ w ∈ op.ints? a b, Fits w := by
  cases op with
  | plus | minus | times => exact fits_of_checked
  | div =>
    simp only [ints?, checkedDiv]
    split
    · exact nofun
    · exact fits_of_checked
  | min2 =>
    rintro w ⟨⟩
    rcases min_choice a b with h | h <;> rw [h] <;> assumption
  | max2 =>
    rintro w ⟨⟩
    rcases max_choice a b with h | h <;> rw [h] <;> assumption

theorem Aggregate.fits_ints? {op : Aggregate} {vs : List Int} (h : ∀ v ∈ vs, Fits v) :
    ∀ w ∈ op.ints? vs, Fits w := by
  cases op with
  | sum =>
    have hsum (total : Int) (ht : Fits total) : ∀ w ∈ sumInts? total vs, Fits w := by
      clear h
      induction vs generalizing total with
      | nil =>
        rintro w ⟨⟩
        exact ht
      | cons v vs ih =>
        rw [sumInts?]
        cases hnext : checked (total + v) with
        | none => exact nofun
        | some t => exact ih t (fits_of_checked t hnext)
    exact hsum 0 (by decide)
  | min => exact fun w hw => h w (List.min?_mem hw)
  | max => exact fun w hw => h w (List.max?_mem hw)

theorem Measure.fits_of? {what : Measure} {i : Int × Int} (h : Fits i.1 ∧ Fits i.2) :
    ∀ w ∈ what.of? i, Fits w := by
  cases what with
  | start =>
    rintro w ⟨⟩
    exact h.1
  | finish =>
    rintro w ⟨⟩
    exact h.2
  | length => exact fits_of_checked

namespace StepPoints

variable {f : StepPoints} {t start finish total : Int} {fuel : Nat}

theorem fits_heightAt (h : ∀ p ∈ f.points.toList, Fits p.2) (t : Int) : Fits (f.heightAt t) := by
  unfold heightAt
  have hzero : Fits 0 := by decide
  cases f.reached t with
  | zero => exact hzero
  | succ k =>
    dsimp only
    cases hp : f.points[k]? with
    | none => exact hzero
    | some p =>
      rw [← Array.getElem?_toList] at hp
      exact h p (List.mem_of_getElem? hp)

theorem fits_sumFrom (ht : Fits total) : ∀ w ∈ f.sumFrom finish fuel t total, Fits w := by
  induction fuel generalizing t total with
  | zero =>
    rintro w ⟨⟩
    exact ht
  | succ fuel ih =>
    rw [sumFrom]
    split
    · dsimp only
      cases checked (f.pieceEnd t finish - t) with
      | none => rintro w ⟨⟩
      | some width => exact ih (fits_saturated _)
    · rintro w ⟨⟩
      exact ht

/-- No piece of a range is wider than the range. -/
theorem sumFrom_ne_none (hf : Ascending f.points.toList) (hlength : Fits (finish - start))
    (hle : start ≤ t) : f.sumFrom finish fuel t total ≠ none := by
  induction fuel generalizing t total with
  | zero => exact nofun
  | succ fuel ih =>
    rw [sumFrom]
    split
    · rename_i ht
      have hlt := lt_pieceEnd hf ht
      have hend := f.pieceEnd_le t finish
      have hwidth : Fits (f.pieceEnd t finish - t) := by
        unfold Fits intMin at *
        omega
      simp only [checked_of_fits hwidth]
      exact ih (by omega)
    · exact Option.some_ne_none total

end StepPoints

/-! ### Blame -/

/-- An overflow is to blame on a cause. -/
def Blames (cause : Prop) (e : EvalError) : Prop := e = .overflow → cause

theorem blames_of_ne {cause : Prop} {e : EvalError} (h : e ≠ .overflow) : Blames cause e :=
  fun he => absurd he h

namespace Query

variable {α β : Type} {value : NodeId → Except EvalError Value} {cause : Prop} {P : α → Prop}

/-- A safe query ends as it should when the nodes that it asks for do. -/
theorem Safe.resolve {asks : NodeId → Prop} {spec : NodeId → Except EvalError Value → Prop}
    {E : EvalError → Prop} {q : Query α} (h : Safe asks spec E P q)
    (hv : ∀ x, asks x → spec x (value x)) : Ends E P (q.resolve value) := by
  induction h with
  | answer h => exact .ok h
  | fail h => exact .error h
  | @ask x next hx he _ ih =>
    have hspec := hv x hx
    simp only [Query.resolve]
    cases hr : value x with
    | ok v => exact ih v (hr ▸ hspec)
    | error e => exact .error (he e (hr ▸ hspec))

/-- Given the values of nodes, the query answers as `P` says, and an overflow is to blame on the
cause. -/
abbrev Sure (value : NodeId → Except EvalError Value) (cause : Prop) (P : α → Prop) :
    Query α → Prop :=
  Safe (fun _ => True) (fun x r => value x = r) (Blames cause) P

theorem Sure.ends {q : Query α} (h : q.Sure value cause P) :
    Ends (Blames cause) P (q.resolve value) :=
  h.resolve fun _ _ => rfl

theorem Sure.blamed {q : Query α} (h : q.Sure value cause P)
    (hq : q.resolve value = .error .overflow) : cause := by
  have hends := h.ends
  rw [hq] at hends
  obtain _ | hblames := hends
  exact hblames rfl

/-- The outcome says all that there is to say. -/
theorem sure_of_ends {q : Query α} (h : Ends (Blames cause) P (q.resolve value)) :
    q.Sure value cause P := by
  induction q with
  | answer a =>
    obtain ha | _ := h
    exact .answer ha
  | fail e =>
    obtain _ | he := h
    exact .fail he
  | ask x next ih =>
    refine .ask trivial (fun e hx => ?_) fun v hx => ih v ?_
    all_goals
      simp only [Query.resolve, hx] at h
    · obtain _ | he := h
      exact he
    · exact h

theorem Sure.mono {P' : α → Prop} {q : Query α} (h : q.Sure value cause P) (hP : ∀ a, P a → P' a) :
    q.Sure value cause P' :=
  h.imp (fun _ hx => hx) (fun _ he => he) hP

theorem resolve_value (x : NodeId) : (Query.value x).resolve value = value x := by
  rw [Query.value, Query.resolve]
  cases value x <;> rfl

theorem sure_fail {e : EvalError} (he : e ≠ .overflow) : (Query.fail e).Sure value cause P :=
  .fail (blames_of_ne he)

end Query

theorem Arg.inRange_of_mem {as : List Arg} (h : AllInRange as) : ∀ a ∈ as, a.InRange := by
  induction as with
  | nil => exact nofun
  | cons a as ih => exact List.forall_mem_cons.2 ⟨h.1, ih h.2⟩

namespace Model

open Query (Ends Safe Sure sure_fail)

variable {m : Model} {s : Solution} {d i : Nat} {id x : NodeId} {n : Node} {a : Arg}
  {value : NodeId → Except EvalError Value} {cause : Prop} {α : Type}

/-! ### Arguments -/

theorem sure_lookup : (m.lookup id).Sure value cause (fun n => m.node? id = some n) := by
  unfold lookup
  cases hn : m.node id with
  | ok n => exact .answer (node_eq_ok.1 hn)
  | error e => exact sure_fail nofun

theorem sure_arg : (n.arg id i).Sure value cause (fun a => n.args[i]? = some a) := by
  unfold Node.arg
  cases n.args[i]? with
  | none => exact sure_fail nofun
  | some a => exact .answer rfl

theorem sure_listArg : (n.listArg id i).Sure value cause
    (fun items => n.args[i]? = some (.list items)) := by
  refine sure_arg.bind fun a ha => ?_
  cases a with
  | list items => exact .answer ha
  | _ => exact sure_fail nofun

/-- The value of an argument is in range as the argument is. -/
theorem sure_argument (ha : ∀ x ∈ a.nodes, Ends (Blames cause) Value.InRange (value x)) :
    a.value.Sure value cause
      (fun v => (a.InRange → v.InRange) ∧ a.value.resolve value = .ok v) := by
  cases a with
  | node x =>
    have hx := ha x (List.mem_singleton_self x)
    refine .ask trivial (fun e he => ?_) fun v hv => .answer ⟨fun _ => ?_, ?_⟩
    · rw [he] at hx
      obtain _ | he := hx
      exact he
    · rw [hv] at hx
      obtain hv | _ := hx
      exact hv
    · exact (Query.resolve_value x).trans hv
  | list items => exact sure_fail nofun
  | int v => exact .answer ⟨fun h => h, rfl⟩
  | float v => exact .answer ⟨fun _ => trivial, rfl⟩
  | bool v => exact .answer ⟨fun _ => trivial, rfl⟩

/-- An argument that is an interval is a node. -/
theorem exists_node_of_interval {start finish : Int}
    (h : a.value.resolve value = .ok (.interval start finish)) :
    ∃ x ∈ a.nodes, value x = .ok (.interval start finish) := by
  cases a with
  | node x => exact ⟨x, List.mem_singleton_self x, (Query.resolve_value x).symm.trans h⟩
  | _ => cases h

/-- An interval that is present is the value of a node. -/
theorem sure_intervalOf (ha : ∀ x ∈ a.nodes, Ends (Blames cause) Value.InRange (value x)) :
    (n.intervalOf id a).Sure value cause (fun o => ∀ p ∈ o, Fits p.1 ∧ Fits p.2 ∧
      ∃ x ∈ a.nodes, value x = .ok (.interval p.1 p.2)) := by
  refine (sure_argument ha).bind fun v ⟨hv, hresolve⟩ => ?_
  cases v with
  | absent => exact .answer nofun
  | interval start finish =>
    obtain ⟨x, hx, hvalue⟩ := exists_node_of_interval hresolve
    have hends := ha x hx
    rw [hvalue] at hends
    obtain ⟨hstart, hfinish⟩ | _ := hends
    refine .answer ?_
    rintro p ⟨⟩
    exact ⟨hstart, hfinish, x, hx, hvalue⟩
  | _ => exact sure_fail nofun

theorem sure_intervalAt (id : NodeId) (ha : ∀ a, n.args[i]? = some a →
      ∀ x ∈ a.nodes, Ends (Blames cause) Value.InRange (value x)) :
    (n.intervalAt id i).Sure value cause (fun o => ∀ p ∈ o, Fits p.1 ∧ Fits p.2 ∧
      ∃ x a, n.args[i]? = some a ∧ x ∈ a.nodes ∧ value x = .ok (.interval p.1 p.2)) := by
  refine sure_arg.bind fun a hi => (sure_intervalOf (ha a hi)).mono ?_
  rintro o ho p hp
  obtain ⟨hstart, hfinish, x, hx, hv⟩ := ho p hp
  exact ⟨hstart, hfinish, x, a, hi, hx, hv⟩

/-- A node that is a step function has a table of points that ascend. -/
theorem exists_points {asked : NodeId → Prop} {sent : List NodeId} (h : Built m asked sent)
    (hn : m.node? id = some n) (ho : n.operator = .stepFunction) :
    ∃ points, n.values = some (points.map pointRow) ∧ Ascending points := by
  have htable := (formed_of_node? h hn).table
  rw [Table, ho] at htable
  obtain ⟨rows, hrows, hchecked⟩ := htable
  obtain ⟨points, rfl, hascending⟩ := checkStepPoints_ok.1 hchecked
  exact ⟨points, hrows, hascending⟩

/-- The points of a step function ascend, and its heights have 64 bits. -/
theorem sure_stepPoints {asked : NodeId → Prop} {sent : List NodeId} (h : Built m asked sent)
    (hm : m.InRange) : (m.stepPoints a).Sure value cause
      (fun f => Ascending f.points.toList ∧ ∀ p ∈ f.points.toList, Fits p.2) := by
  cases a with
  | node g =>
    refine sure_lookup.bind fun n hn => ?_
    by_cases ho : n.operator = .stepFunction
    · obtain ⟨points, hvalues, hascending⟩ := exists_points h hn ho
      have hfits := (hm _ n (node?_eq_some.1 hn).2).attributes.values _ hvalues
      rw [if_neg (not_not_intro ho), hvalues, Option.getD_some, pairs_map]
      refine .answer ⟨hascending, fun p hp => hfits _ (List.mem_map_of_mem hp) p.2 ?_⟩
      exact List.mem_cons_of_mem _ (List.mem_singleton_self _)
    · rw [if_pos ho]
      exact sure_fail nofun
  | _ => exact sure_fail nofun

section Values

variable (hvalue : ∀ x, Ends (Blames cause) Value.InRange (value x))

include hvalue

theorem sure_operand (hn : n.InRange) (ha : n.args[i]? = some a) :
    a.value.Sure value cause Value.InRange :=
  (sure_argument fun x _ => hvalue x).mono fun _ hv =>
    hv.1 (Arg.inRange_of_mem hn.args a (List.mem_of_getElem? ha))

theorem sure_readArg {read : Value → Option α} {flaw : Nat → NodeFlaw} (hn : n.InRange) :
    (Node.readArg read flaw id n i).Sure value cause
      (fun o => ∀ b ∈ o, ∃ v : Value, v.InRange ∧ read v = some b) := by
  refine sure_arg.bind fun a ha => (sure_operand hvalue hn ha).bind fun v hrange => ?_
  split
  · exact .answer nofun
  · cases hread : read v with
    | none => exact sure_fail nofun
    | some b =>
      refine .answer ?_
      rintro b ⟨⟩
      exact ⟨v, hrange, hread⟩

theorem sure_intAt (id : NodeId) (hn : n.InRange) :
    (n.intAt id i).Sure value cause (fun o => ∀ b ∈ o, Fits b) := by
  refine (sure_readArg hvalue hn).mono fun o ho b hb => ?_
  obtain ⟨v, hv, hread⟩ := ho b hb
  exact hv.fits_int? hread

theorem sure_intervalsOf (items : List Arg) :
    (n.intervalsOf id items).Sure value cause (fun _ => True) := by
  induction items with
  | nil => exact .answer trivial
  | cons a items ih =>
    exact (sure_intervalOf fun x _ => hvalue x).bind fun _ _ => ih.bind fun _ _ => .answer trivial

theorem sure_presentOf {read : Value → Option α} {flaw : NodeFlaw} {items : List Arg}
    (h : ∀ a ∈ items, a.InRange) : (n.presentOf read flaw id items).Sure value cause
      (fun bs => ∀ b ∈ bs, ∃ v : Value, v.InRange ∧ read v = some b) := by
  induction items with
  | nil => exact .answer nofun
  | cons a items ih =>
    obtain ⟨ha, hitems⟩ := List.forall_mem_cons.1 h
    refine (sure_argument fun x _ => hvalue x).bind fun v ⟨hv, _⟩ => ?_
    cases hread : read v with
    | none =>
      by_cases habsent : v.isAbsent
      · simp only [habsent, if_true]
        exact ih hitems
      · simp only [habsent]
        exact sure_fail nofun
    | some b =>
      exact (ih hitems).bind fun bs hbs => .answer (List.forall_mem_cons.2 ⟨⟨v, hv ha, hread⟩, hbs⟩)

end Values

/-! ### Variables -/

theorem sure_variableValue (hs : ∀ v, s.value? id = some v → v.InRange fun _ => True) :
    (variableValue s id n).Sure value cause Value.InRange := by
  unfold variableValue
  cases hv : s.value? id with
  | none => exact sure_fail nofun
  | some v =>
    have hrange := hs v hv
    cases n.operator <;> cases v <;> first
      | exact .answer trivial
      | exact .answer hrange
      | exact .answer (Value.InRange.fits_int? (v := .bool _) trivial rfl)
      | exact sure_fail nofun

/-! ### Changes of level -/

/-- An integer of 64 bits whose sign can be turned unless there is a cause. -/
def Turnable (cause : Prop) (d : Int) : Prop := Fits d ∧ (d = intMin → cause)

theorem sure_fitting_neg {d : Int} (hd : Turnable cause d) :
    (Query.fitting (-d)).Sure value cause (Turnable cause) := by
  obtain ⟨hfits, hcause⟩ := hd
  unfold Query.fitting
  split
  · rename_i hneg
    refine .answer ⟨hneg, fun h => ?_⟩
    simp only [Fits, intMin, intMax] at *
    omega
  · rename_i hneg
    refine .fail fun _ => hcause ?_
    simp only [Fits, intMin, intMax] at *
    omega

theorem sure_negated {cs : List Change} (h : ∀ c ∈ cs, Turnable cause c.2) :
    (negated cs).Sure value cause (fun cs => ∀ c ∈ cs, Turnable cause c.2) := by
  induction cs with
  | nil => exact .answer nofun
  | cons c cs ih =>
    obtain ⟨hc, hcs⟩ := List.forall_mem_cons.1 h
    refine (sure_fitting_neg hc).bind fun d hd => (ih hcs).bind fun cs hcs => ?_
    exact .answer (List.forall_mem_cons.2 ⟨hd, hcs⟩)

theorem sure_changesAt {parts : NodeId → Query (List Change)}
    (hparts : ∀ y, (parts y).Sure value cause (fun cs => ∀ c ∈ cs, Turnable cause c.2)) :
    (changesAt parts id n i).Sure value cause (fun cs => ∀ c ∈ cs, Turnable cause c.2) := by
  refine sure_arg.bind fun a _ => ?_
  cases a with
  | node y => exact hparts y
  | _ => exact sure_fail nofun

theorem sure_changesOfAll {parts : NodeId → Query (List Change)}
    (hparts : ∀ y, (parts y).Sure value cause (fun cs => ∀ c ∈ cs, Turnable cause c.2))
    (items : List Arg) : (changesOfAll parts id n items).Sure value cause
      (fun cs => ∀ c ∈ cs, Turnable cause c.2) := by
  induction items with
  | nil => exact .answer nofun
  | cons a items ih =>
    cases a with
    | node y =>
      refine (hparts y).bind fun cs hcs => ih.bind fun others hothers => ?_
      exact .answer (List.forall_mem_append.2 ⟨hcs, hothers⟩)
    | _ => exact sure_fail nofun

end Model

/-- Whether an operator has a height. -/
def Operator.hasHeight : Operator → Bool
  | intervalStep _ | stepAt => true
  | _ => false

namespace Model

open Query (Ends Safe Sure sure_fail)

variable {m : Model} {s : Solution} {d i : Nat} {id x : NodeId} {n : Node} {a : Arg}
  {value : NodeId → Except EvalError Value} {cause : Prop}

/-- A pulse or a step of the model has the height, given the values of nodes. -/
def HasHeight (m : Model) (value : NodeId → Except EvalError Value) (height : Int) : Prop :=
  ∃ x n a v, m.node? x = some n ∧ n.operator.hasHeight ∧ n.args[1]? = some a ∧
    a.value.resolve value = .ok v ∧ v.int? = some height

/-- What bounds on cumulative functions overflow for is to blame on the cause. -/
def BoundsBlame (m : Model) (depth : Nat) (value : NodeId → Except EvalError Value) (cause : Prop) :
    Prop :=
  ∀ id n b, m.node? id = some n → n.operator = .cumulBound b →
    (m.cumulBoundHolds depth id n b).Sure value cause (fun _ => True)

/-- An interval is longer than 64 bits can count. -/
def HasLongInterval (value : NodeId → Except EvalError Value) : Prop :=
  ∃ x start finish, value x = .ok (.interval start finish) ∧ ¬ Fits (finish - start)

section Nodes

variable {asked : NodeId → Prop} {sent : List NodeId} (h : Built m asked sent) (hm : m.InRange)
  (hvalue : ∀ x, Ends (Blames cause) Value.InRange (value x))

include hm hvalue

/-- What is found of a height can be turned unless a height is the least integer. -/
theorem sure_height {β : Type} {P : β → Prop} {k : Value → Query β}
    (hheight : m.HasHeight value intMin → cause) (hn : m.node? id = some n)
    (ho : n.operator.hasHeight)
    (hk : ∀ v, (∀ b ∈ v.int?, Turnable cause b) → (k v).Sure value cause P) :
    (n.arg id 1 >>= fun a => a.value >>= k).Sure value cause P := by
  refine sure_arg.bind fun a ha => (sure_argument fun x _ => hvalue x).bind fun v ⟨hv, hresolve⟩ =>
    hk v fun b hb => ⟨?_, ?_⟩
  · have hargs := (hm _ n (node?_eq_some.1 hn).2).args
    exact (hv (Arg.inRange_of_mem hargs a (List.mem_of_getElem? ha))).fits_int? hb
  · rintro rfl
    exact hheight ⟨id, n, a, v, hn, ho, ha, hresolve, hb⟩

theorem sure_changes (hheight : m.HasHeight value intMin → cause) (depth : Nat) (id : NodeId) :
    (m.changes depth id).Sure value cause (fun cs => ∀ c ∈ cs, Turnable cause c.2) := by
  induction depth generalizing id with
  | zero => exact sure_fail nofun
  | succ depth ih =>
    refine sure_lookup.bind fun n hn => ?_
    cases ho : n.operator with
    | intervalStep step =>
      have hstep : n.operator.hasHeight := by rw [ho]; rfl
      refine (sure_intervalAt id fun a _ x _ => hvalue x).bind fun interval _ => ?_
      cases interval with
      | none => exact sure_height hm hvalue hheight hn hstep fun _ _ => .answer nofun
      | some p =>
        refine sure_height hm hvalue hheight hn hstep fun v hv => ?_
        cases hb : v.int? with
        | none => exact .answer nofun
        | some b =>
          have hturn : Turnable cause b := hv b hb
          cases step with
          | pulse =>
            refine (sure_fitting_neg hturn).bind fun down hdown => .answer ?_
            exact List.forall_mem_cons.2 ⟨hturn, List.forall_mem_singleton.2 hdown⟩
          | _ => exact .answer (List.forall_mem_singleton.2 hturn)
    | stepAt =>
      have hstep : n.operator.hasHeight := by rw [ho]; rfl
      refine sure_arg.bind fun a _ => (sure_argument fun x _ => hvalue x).bind fun t _ =>
        sure_height hm hvalue hheight hn hstep fun v hv => ?_
      cases t.int? with
      | none => exact .answer nofun
      | some t =>
        cases hb : v.int? with
        | none => exact .answer nofun
        | some b => exact .answer (List.forall_mem_singleton.2 (hv b hb))
    | cumulPlus =>
      refine (sure_changesAt ih).bind fun cs hcs => (sure_changesAt ih).bind fun others hothers => ?_
      exact .answer (List.forall_mem_append.2 ⟨hcs, hothers⟩)
    | cumulMinus =>
      refine (sure_changesAt ih).bind fun cs hcs => (sure_changesAt ih).bind fun others hothers =>
        (sure_negated hothers).bind fun down hdown => ?_
      exact .answer (List.forall_mem_append.2 ⟨hcs, hdown⟩)
    | cumulNeg => exact (sure_changesAt ih).bind fun cs hcs => sure_negated hcs
    | cumulSum => exact sure_listArg.bind fun items _ => sure_changesOfAll ih items
    | _ => exact sure_fail nofun

theorem sure_cumulBoundHolds (hheight : m.HasHeight value intMin → cause) (b : Bounding) :
    (m.cumulBoundHolds d id n b).Sure value cause (fun _ => True) := by
  refine sure_arg.bind fun a _ => ?_
  cases a with
  | node f =>
    refine sure_arg.bind fun a _ => (sure_argument fun x _ => hvalue x).bind fun v _ => ?_
    by_cases habsent : v.isAbsent
    · simp only [habsent, if_true]
      exact .answer trivial
    · simp only [habsent]
      cases v.int? with
      | none => exact sure_fail nofun
      | some bound =>
        by_cases hzero : b.within bound 0
        · simp only [hzero, if_true]
          exact (sure_changes hm hvalue hheight d f).bind fun _ _ => .answer trivial
        · simp only [hzero]
          exact .answer trivial
  | _ => exact sure_fail nofun

/-- A bound overflows only for a height that is the least integer. -/
theorem boundsBlame_of_hasHeight (hheight : m.HasHeight value intMin → cause) :
    m.BoundsBlame d value cause := fun _ _ b _ _ => sure_cumulBoundHolds hm hvalue hheight b

/-! ### Constraints -/

omit hm hvalue in
theorem sure_noOverlapItems :
    (m.noOverlapItems id n).Sure value cause (fun _ => True) := by
  refine sure_arg.bind fun a _ => ?_
  cases a with
  | list items => exact .answer trivial
  | node x =>
    refine sure_lookup.bind fun seq _ => ?_
    cases seq.args.head?.bind Arg.list? with
    | none => exact sure_fail nofun
    | some items => exact .answer trivial
  | _ => exact sure_fail nofun

include h

theorem sure_constraintValue (hbound : m.BoundsBlame d value cause) (hn : m.node? id = some n) :
    (m.constraintValue d id n).Sure value cause (fun _ => True) := by
  have hinterval (i : Nat) := sure_intervalAt (n := n) (i := i) id fun a _ x _ => hvalue x
  unfold constraintValue
  cases ho : n.operator with
  | precedence p =>
    refine (hinterval 0).bind fun a _ => (hinterval 1).bind fun b _ => ?_
    cases a with
    | none => exact .answer trivial
    | some a =>
      cases b with
      | none => exact .answer trivial
      | some b =>
        cases n.args[2]? with
        | none => exact .answer trivial
        | some delay =>
          refine (sure_argument fun x _ => hvalue x).bind fun v _ => ?_
          cases v.int? <;> exact .answer trivial
  | alternative | span =>
    exact (hinterval 0).bind fun _ _ => sure_listArg.bind fun items _ =>
      (sure_intervalsOf hvalue items).bind fun _ _ => .answer trivial
  | noOverlap =>
    refine sure_noOverlapItems.bind fun p _ => ?_
    exact (sure_intervalsOf hvalue p.1).bind fun _ _ => .answer trivial
  | cumulBound b => exact (hbound id n b hn ho).map fun _ _ => trivial
  | forbid what =>
    exact (hinterval 0).bind fun _ _ => sure_arg.bind fun a _ =>
      (sure_stepPoints h hm).bind fun _ _ => .answer trivial
  | _ => exact .answer trivial

/-! ### Nodes -/

omit h hm hvalue

theorem sure_unary {α : Type} {read : NodeId → Node → Nat → Query (Option α)} {f : α → Value}
    {R : α → Prop} (hread : ∀ i, (read id n i).Sure value cause (fun o => ∀ a ∈ o, R a))
    (hf : ∀ a, R a → (f a).InRange) : (unary read f id n).Sure value cause Value.InRange := by
  refine (hread 0).bind fun o ho => ?_
  cases o with
  | none => exact .answer trivial
  | some a => exact .answer (hf a (ho a rfl))

theorem sure_binary {α : Type} {read : NodeId → Node → Nat → Query (Option α)}
    {f : α → α → Value} {R : α → Prop}
    (hread : ∀ i, (read id n i).Sure value cause (fun o => ∀ a ∈ o, R a))
    (hf : ∀ a b, R a → R b → (f a b).InRange) :
    (binary read f id n).Sure value cause Value.InRange := by
  refine (hread 0).bind fun o ho => (hread 1).bind fun o' ho' => ?_
  cases o with
  | none => exact .answer trivial
  | some a =>
    cases o' with
    | none => exact .answer trivial
    | some b => exact .answer (hf a b (ho a rfl) (ho' b rfl))

/-- A sum over an interval overflows only when the interval is longer than 64 bits can count. -/
theorem sure_stepFunctionSum (h : Built m asked sent) (hm : m.InRange) (id : NodeId)
    (ho : n.operator = .stepFunctionSum)
    (hinterval : ∀ a, n.args[1]? = some a →
      ∀ x ∈ a.nodes, Ends (Blames cause) Value.InRange (value x))
    (hlong : HasLongInterval value → cause) :
    (m.nodeValue s d id n).Sure value cause Value.InRange := by
  unfold nodeValue
  rw [ho]
  refine sure_arg.bind fun a _ => (sure_stepPoints h hm).bind fun f ⟨hf, _⟩ =>
    (sure_intervalAt id hinterval).bind fun interval hi => ?_
  cases interval with
  | none => exact .answer trivial
  | some p =>
    obtain ⟨start, finish⟩ := p
    obtain ⟨-, -, x, -, -, -, hx⟩ := hi _ rfl
    dsimp only
    cases hsum : f.sum? start finish with
    | none =>
      refine .fail fun _ => hlong ⟨x, start, finish, hx, fun hlength => ?_⟩
      exact StepPoints.sumFrom_ne_none hf hlength le_rfl hsum
    | some total => exact .answer (StepPoints.fits_sumFrom (by decide) total hsum)

include h hm hvalue

/-- A node evaluates to a value of 64 bits, and an overflow on the way has one of two causes. -/
theorem sure_nodeValue (hs : ∀ v, s.value? id = some v → v.InRange fun _ => True)
    (hnode : m.node? id = some n) (hbound : m.BoundsBlame d value cause)
    (hlong : HasLongInterval value → cause) :
    (m.nodeValue s d id n).Sure value cause Value.InRange := by
  have hn : n.InRange := hm _ n (node?_eq_some.1 hnode).2
  have hint (i : Nat) := sure_intAt (i := i) hvalue id hn
  have hfloat (i : Nat) : (n.floatAt id i).Sure value cause (fun o => ∀ x ∈ o, True) :=
    (sure_readArg hvalue hn).mono fun _ _ _ _ => trivial
  have hbool (i : Nat) : (n.boolAt id i).Sure value cause (fun o => ∀ b ∈ o, True) :=
    (sure_readArg hvalue hn).mono fun _ _ _ _ => trivial
  have hinterval (i : Nat) := sure_intervalAt (n := n) (i := i) id fun a _ x _ => hvalue x
  have hargument (i : Nat) : (n.arg id i >>= fun a => a.value).Sure value cause Value.InRange :=
    sure_arg.bind fun _ ha => sure_operand hvalue hn ha
  have hitems {items : List Arg} (hi : n.args[0]? = some (.list items)) :
      ∀ a ∈ items, a.InRange := by
    have hlist := Arg.inRange_of_mem hn.args _ (List.mem_of_getElem? hi)
    exact Arg.inRange_of_mem hlist
  have hmeasure {what : Measure} {o : Option (Int × Int)}
      (hp : ∀ p ∈ o, Fits p.1 ∧ Fits p.2 ∧
        ∃ x a, n.args[0]? = some a ∧ x ∈ a.nodes ∧ value x = .ok (.interval p.1 p.2))
      (p : Int × Int) (hop : o = some p) : (Value.ofInt? (what.of? p)).InRange := by
    obtain ⟨hstart, hfinish, -⟩ := hp p hop
    exact Value.inRange_ofInt? (Measure.fits_of? ⟨hstart, hfinish⟩)
  unfold nodeValue
  cases ho : n.operator with
  | intVar | boolVar | floatVar | intervalVar => exact sure_variableValue hs
  | intConst | floatConst | boolConst => exact hargument 0
  | int op =>
    exact sure_binary hint fun a b ha hb => Value.inRange_ofInt? (Arithmetic.fits_ints? ha hb)
  | intNeg | intAbs => exact sure_unary hint fun _ _ => Value.inRange_ofInt? fits_of_checked
  | intAggregate op =>
    refine sure_listArg.bind fun items hi =>
      (sure_presentOf hvalue (hitems hi)).bind fun vs hvs => .answer ?_
    refine Value.inRange_ofInt? (Aggregate.fits_ints? fun v hv => ?_)
    obtain ⟨w, hw, hread⟩ := hvs v hv
    exact hw.fits_int? hread
  | float op => exact sure_binary hfloat fun _ _ _ _ => Value.inRange_ofFloat? _
  | floatNeg | floatAbs => exact sure_unary hfloat fun _ _ => trivial
  | floatAggregate op =>
    exact sure_listArg.bind fun items hi => (sure_presentOf hvalue (hitems hi)).bind fun _ _ =>
      .answer (Value.inRange_ofFloat? _)
  | intGuard | floatGuard =>
    refine sure_arg.bind fun a ha => (sure_operand hvalue hn ha).bind fun v hv => ?_
    by_cases habsent : v.isAbsent
    · simp only [habsent, if_true]
      exact hargument 1
    · simp only [habsent]
      exact .answer hv
  | presence =>
    exact sure_arg.bind fun _ ha => (sure_operand hvalue hn ha).bind fun _ _ => .answer trivial
  | identity => exact (hfloat 0).bind fun _ _ => (hfloat 1).bind fun _ _ => .answer trivial
  | compare c => exact sure_binary hfloat fun _ _ _ _ => trivial
  | inRange =>
    refine (hfloat 0).bind fun o _ => ?_
    cases o with
    | none => exact .answer trivial
    | some x => exact (hfloat 1).bind fun _ _ => (hfloat 2).bind fun _ _ => .answer trivial
  | connect c => exact sure_binary hbool fun _ _ _ _ => trivial
  | not => exact sure_unary hbool fun _ _ => trivial
  | measure what =>
    refine (hinterval 0).bind fun o hp => ?_
    cases o with
    | none => exact .answer trivial
    | some p => exact .answer (hmeasure hp p rfl)
  | measureOr what =>
    refine (hinterval 0).bind fun o hp => ?_
    cases o with
    | none => exact hargument 1
    | some p => exact .answer (hmeasure hp p rfl)
  | stepFunctionEval =>
    refine sure_arg.bind fun a _ => (sure_stepPoints h hm).bind fun f ⟨_, hheights⟩ =>
      (hint 1).bind fun o _ => ?_
    cases o with
    | none => exact .answer trivial
    | some t => exact .answer (StepPoints.fits_heightAt hheights t)
  | stepFunctionSum =>
    have hsum := sure_stepFunctionSum (s := s) (d := d) h hm id ho
      (fun a _ x _ => hvalue x) hlong
    unfold nodeValue at hsum
    rw [ho] at hsum
    exact hsum
  | precedence | alternative | span | noOverlap | cumulBound | forbid =>
    exact (sure_constraintValue h hm hvalue hbound hnode).bind fun o _ =>
      .answer (Value.inRange_ofBool? o)
  | sequenceVar | stepFunction | intervalStep | stepAt | cumulPlus | cumulMinus | cumulNeg
  | cumulSum => exact sure_fail nofun

/-- Whether a node holds is found unless an overflow has one of two causes. -/
theorem sure_holdsQuery (hbound : m.BoundsBlame d value cause) :
    (m.holdsQuery d id).Sure value cause (fun _ => True) := by
  refine sure_lookup.bind fun n hn => ?_
  by_cases ho : n.operator.isConstraint
  · simp only [ho, if_true]
    exact sure_constraintValue h hm hvalue hbound hn
  · simp only [ho]
    refine (sure_argument (a := .node id) fun x _ => hvalue x).bind fun v _ => ?_
    by_cases habsent : v.isAbsent
    · simp only [habsent, if_true]
      exact .answer trivial
    · simp only [habsent]
      cases v.bool? with
      | none => exact sure_fail nofun
      | some b => exact .answer trivial

/-! ### Checks -/

theorem sure_constraintQuery (hbound : m.BoundsBlame m.nodes.size value cause) :
    (m.constraintQuery id).Sure value cause (fun _ => True) := by
  refine (sure_holdsQuery h hm hvalue hbound).bind fun b _ => ?_
  obtain _ | b := b
  · exact .answer trivial
  · cases b with
    | true => exact .answer trivial
    | false => exact sure_lookup.bind fun _ _ => sure_fail nofun

omit h hm in
theorem sure_objectiveQuery (reported : ObjectiveValue) :
    (m.objectiveQuery reported).Sure value cause (fun _ => True) := by
  have hcheck (actual : ObjectiveValue) :
      (if agrees reported actual then .answer () else .fail (.objective reported actual) :
        Query Unit).Sure value cause (fun _ => True) := by
    split
    · exact .answer trivial
    · exact sure_fail nofun
  unfold objectiveQuery
  cases m.objective with
  | none => exact .answer trivial
  | some o =>
    by_cases hr : reported.isUndefined
    · simp only [if_pos hr]
      exact .answer trivial
    · simp only [if_neg hr]
      refine (sure_argument (a := .node o.expr) fun x _ => hvalue x).bind fun v _ => ?_
      cases v.float? with
      | none => exact hcheck _
      | some x => exact hcheck _

end Nodes

end Model

end Scheduling
