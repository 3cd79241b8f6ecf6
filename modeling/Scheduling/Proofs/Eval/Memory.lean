import Scheduling.Proofs.Eval.Checks
import Scheduling.Proofs.Record.RoundTrip

/-!
# Evaluation with and without memory

An evaluator that remembers values answers each question as one that remembers none, however many
questions were asked before, and also where some of them failed (`replies_eq`). The answer is the
one that plain recursion over the operands comes to (`answered_iff`): `Model.Answered` derives it
from the answers of the operands, without a bound on the depth. As operands stand before the node
that they belong to, every question has an answer.
-/

namespace Scheduling

namespace Query

variable {α β : Type} {S : NodeId → Prop} {value value' : NodeId → Except EvalError Value}

theorem answer_bind (a : α) (next : α → Query β) : (answer a >>= next) = next a := rfl

/-- The query only asks for nodes of a set. -/
inductive Asks (S : NodeId → Prop) : {α : Type} → Query α → Prop where
  | answer {α : Type} (a : α) : Asks S (.answer a)
  | fail {α : Type} (e : EvalError) : Asks S (.fail e : Query α)
  | ask {α : Type} {id : NodeId} {next : Value → Query α} : S id → (∀ v, Asks S (next v)) →
      Asks S (.ask id next)

/-- A query asks for nodes that are related to others when it is like another query. -/
theorem Alike.asks {R : α → β → Prop} {T : NodeId → NodeId → Prop} {q : Query α} {q' : Query β}
    (h : Alike R T q q') : q.Asks fun x => ∃ y, T x y := by
  induction h with
  | answer => exact .answer _
  | fail => exact .fail _
  | ask h _ ih => exact .ask ⟨_, h⟩ ih

theorem Asks.resolve_congr {q : Query α} (h : q.Asks S) (hv : ∀ x, S x → value x = value' x) :
    q.resolve value = q.resolve value' := by
  induction h with
  | answer => rfl
  | fail => rfl
  | @ask id next hid _ ih =>
    simp only [resolve]
    rw [hv id hid]
    cases value' id with
    | ok v => exact ih v
    | error e => rfl

/-- A query has the same outcome when each value that it asks for is found by remembering. -/
theorem Asks.resolveWith {found : NodeId → Remembering Value} {Good : Memory → Prop} {q : Query α}
    (h : q.Asks S) {memory : Memory} (hmemory : Good memory)
    (hv : ∀ x, S x → ∀ memory, Good memory →
      (found x memory).1 = value x ∧ Good (found x memory).2) :
    (q.resolveWith found memory).1 = q.resolve value ∧ Good (q.resolveWith found memory).2 := by
  induction h generalizing memory with
  | answer => exact ⟨rfl, hmemory⟩
  | fail => exact ⟨rfl, hmemory⟩
  | @ask id next hid _ ih =>
    obtain ⟨hfound, hgood⟩ := hv id hid memory hmemory
    simp only [Query.resolveWith, resolve]
    rw [← hfound]
    obtain ⟨r, memory', hr⟩ : ∃ r memory', found id memory = (r, memory') := ⟨_, _, rfl⟩
    rw [hr] at hgood ⊢
    cases r with
    | ok v => exact ih v hgood
    | error e => exact ⟨rfl, hgood⟩

theorem Asks.imp {T : NodeId → Prop} {q : Query α} (h : q.Asks S) (hS : ∀ x, S x → T x) :
    q.Asks T := by
  induction h with
  | answer a => exact .answer a
  | fail e => exact .fail e
  | ask hid _ ih => exact .ask (hS _ hid) ih

theorem asks_all (q : Query α) : q.Asks fun _ => True := by
  induction q with
  | answer a => exact .answer a
  | fail e => exact .fail e
  | ask id next ih => exact .ask trivial ih

theorem resolve_map (f : α → β) (q : Query α) :
    (f <$> q).resolve value = (q.resolve value).map f := by
  induction q with
  | answer a => rfl
  | fail e => rfl
  | ask id next ih =>
    show (Query.ask id fun v => f <$> next v).resolve value = _
    simp only [resolve]
    cases value id with
    | ok v => exact ih v
    | error e => rfl

end Query

namespace Model

open Query (Alike Asks Memory Remembering)

variable {m : Model} {s : Solution} {id x : NodeId} {n : Node} {d d' : Nat}
  {parts parts' : NodeId → Query (List Change)}

/-! ### Depth -/

/-- The changes of a cumulative function, from those of its parts. -/
def changesOver (parts : NodeId → Query (List Change)) (id : NodeId) (n : Node) :
    Query (List Change) :=
  match n.operator with
  | .intervalStep step => do
    let interval ← n.intervalAt id 0
    match interval with
    | none => do
      let _ ← (← n.arg id 1).value
      .answer []
    | some (start, finish) =>
      match (← (← n.arg id 1).value).int? with
      | none => .answer []
      | some h =>
        match step with
        | .pulse => do
          let down ← Query.fitting (-h)
          .answer [(start, h), (finish, down)]
        | .atStart => .answer [(start, h)]
        | .atEnd => .answer [(finish, h)]
  | .stepAt => do
    let t ← (← n.arg id 0).value
    let h ← (← n.arg id 1).value
    match t.int?, h.int? with
    | some t, some h => .answer [(t, h)]
    | _, _ => .answer []
  | .cumulPlus => do
    let a ← changesAt parts id n 0
    let b ← changesAt parts id n 1
    .answer (a ++ b)
  | .cumulMinus => do
    let a ← changesAt parts id n 0
    let b ← changesAt parts id n 1
    let b ← negated b
    .answer (a ++ b)
  | .cumulNeg => do
    let a ← changesAt parts id n 0
    negated a
  | .cumulSum => do
    let items ← n.listArg id 0
    changesOfAll parts id n items
  | _ => n.flawed id .notCumulative

theorem changes_succ (d : Nat) (id : NodeId) :
    m.changes (d + 1) id = m.lookup id >>= changesOver (m.changes d) id := rfl

theorem changesAt_congr (i : Nat) (h : ∀ x ∈ n.operands, parts x = parts' x) :
    changesAt parts id n i = changesAt parts' id n i := by
  unfold changesAt Node.arg
  cases hi : n.args[i]? with
  | none => rfl
  | some a =>
    cases a with
    | node child =>
      exact h child (Arg.nodesOf_of_mem (List.mem_of_getElem? hi) (List.mem_singleton_self child))
    | _ => rfl

theorem changesOfAll_congr {items : List Arg} (h : ∀ x ∈ Arg.nodesOf items, parts x = parts' x) :
    changesOfAll parts id n items = changesOfAll parts' id n items := by
  induction items with
  | nil => rfl
  | cons a rest ih =>
    cases a with
    | node child =>
      have hchild := h child (List.mem_append_left _ (List.mem_singleton_self child))
      rw [changesOfAll, changesOfAll, hchild, ih fun x hx => h x (List.mem_append_right _ hx)]
    | _ => rfl

/-- The changes of a function depend on those of its operands only. -/
theorem changesOver_congr (h : ∀ x ∈ n.operands, parts x = parts' x) :
    changesOver parts id n = changesOver parts' id n := by
  have hat (i : Nat) : changesAt parts id n i = changesAt parts' id n i := changesAt_congr i h
  unfold changesOver
  cases n.operator with
  | cumulPlus | cumulMinus | cumulNeg => simp only [hat]
  | cumulSum =>
    dsimp only
    unfold Node.listArg Node.arg
    cases hi : n.args[0]? with
    | none => rfl
    | some a =>
      cases a with
      | list items =>
        exact changesOfAll_congr fun x hx => h x (Arg.nodesOf_of_mem (List.mem_of_getElem? hi) hx)
      | _ => rfl
  | _ => rfl

theorem bind_lookup_congr {α : Type} {next next' : Node → Query α}
    (h : ∀ n, m.node? id = some n → next n = next' n) :
    m.lookup id >>= next = m.lookup id >>= next' := by
  unfold lookup node
  cases hn : m.node? id with
  | none => rfl
  | some n => exact h n hn

theorem node?_eq_none (hx : ¬ m.Has x) : m.node? x = none := by
  cases hn : m.node? x with
  | none => rfl
  | some n => exact absurd (has_of_node? hn) hx

theorem lookup_unknown (hx : ¬ m.Has x) : m.lookup x = .fail (.model (.unknownNode x)) := by
  rw [lookup, node, node?_eq_none hx]

theorem changes_unknown (hx : ¬ m.Has x) (d : Nat) :
    m.changes d x = .fail (.model (.unknownNode x)) := by
  cases d with
  | zero => rfl
  | succ d =>
    rw [changes_succ, lookup_unknown hx]
    rfl

theorem valueBelow_unknown (hx : ¬ m.Has x) (d : Nat) :
    m.valueBelow s d x = .error (.model (.unknownNode x)) := by
  cases d with
  | zero => rfl
  | succ d => rw [valueBelow, node, node?_eq_none hx]

theorem value_unknown (hx : ¬ m.Has x) : m.value s x = .error (.model (.unknownNode x)) :=
  valueBelow_unknown hx _

/-- What is found from a depth does not depend on it where the node stands below, if what is found of
a node depends on the nodes before it only. -/
theorem depth_irrelevant {α : Type} {f : Nat → NodeId → α}
    (hunknown : ∀ d d' x, ¬ m.Has x → f d x = f d' x)
    (hstep : ∀ d d' x, m.Has x → x.index ≤ d → x.index ≤ d' →
      (∀ z, m.Has z → z.index < x.index → f d z = f d' z) → f (d + 1) x = f (d' + 1) x)
    (hd : m.Has x → x.index < d) (hd' : m.Has x → x.index < d') : f d x = f d' x := by
  by_cases hx : m.Has x
  · induction d generalizing d' x with
    | zero => exact absurd (hd hx) (Nat.not_lt_zero _)
    | succ d ih =>
      obtain ⟨d', rfl⟩ := Nat.exists_eq_succ_of_ne_zero (Nat.ne_zero_of_lt (hd' hx))
      have hd := hd hx
      have hd' := hd' hx
      refine hstep d d' x hx (by omega) (by omega) fun z hz hlt => ?_
      exact ih (fun _ => by omega) (fun _ => by omega) hz
  · exact hunknown d d' x hx

section Sound

variable (h : Sound m)

include h

/-- The changes of a function are found from any depth below which it stands. -/
theorem changes_eq (hd : m.Has x → x.index < d) (hd' : m.Has x → x.index < d') :
    m.changes d x = m.changes d' x := by
  refine depth_irrelevant (fun d d' x hx => ?_) (fun d d' x _ _ _ ih => ?_) hd hd'
  · rw [changes_unknown hx, changes_unknown hx]
  · rw [changes_succ, changes_succ]
    refine bind_lookup_congr fun n hn => changesOver_congr fun z hz => ?_
    obtain ⟨hhas, hlt⟩ := h.operand hn hz
    exact ih z hhas hlt

theorem constraintValue_eq (hd : ∀ x ∈ n.operands, m.Has x → x.index < d)
    (hd' : ∀ x ∈ n.operands, m.Has x → x.index < d') :
    m.constraintValue d id n = m.constraintValue d' id n := by
  unfold constraintValue
  cases n.operator with
  | cumulBound b =>
    refine congrArg (some <$> ·) ?_
    unfold cumulBoundHolds Node.arg
    cases hi : n.args[0]? with
    | none => rfl
    | some a =>
      cases a with
      | node f =>
        have hf : f ∈ n.operands :=
          Arg.nodesOf_of_mem (List.mem_of_getElem? hi) (List.mem_singleton_self f)
        simp only [Query.answer_bind, changes_eq h (hd f hf) (hd' f hf)]
      | _ => rfl
  | _ => rfl

/-- What a node asks does not depend on the depth from which its operands are found. -/
theorem nodeValue_eq (hd : ∀ x ∈ n.operands, m.Has x → x.index < d)
    (hd' : ∀ x ∈ n.operands, m.Has x → x.index < d') :
    m.nodeValue s d id n = m.nodeValue s d' id n := by
  unfold nodeValue
  rw [constraintValue_eq h hd hd']

variable (hn : m.node? id = some n)

include hn

/-- A node asks for nodes before it only. -/
theorem asks_nodeValue (hd : id.index ≤ d) :
    (m.nodeValue s d id n).Asks fun x => m.Has x ∧ x.index < id.index := by
  have hid := has_of_node? hn
  have hbelow : Below (fun x => x) m (id.index + 1) (id.index + 1) id id :=
    ⟨hid, rfl, Nat.lt_succ_self _, Nat.lt_succ_self _⟩
  have halike := alike_nodeValue (.refl m) h h (.refl n)
    (below_operands (.refl m) h h hbelow hn hn) (.refl m s) hn rfl
  have hops : ∀ x ∈ n.operands, m.Has x → x.index < id.index := fun x hx _ => (h.operand hn hx).2
  have hbound : ∀ x ∈ n.operands, m.Has x → x.index < d := fun x hx hhas =>
    (hops x hx hhas).trans_le hd
  rw [nodeValue_eq h hbound hops]
  exact halike.asks.imp fun x ⟨_, hx⟩ => ⟨hx.1, hx.2.2.1⟩

omit hn in
/-- The value of a node is found from any depth below which it stands. -/
theorem valueBelow_eq (hd : m.Has x → x.index < d) (hd' : m.Has x → x.index < d') :
    m.valueBelow s d x = m.valueBelow s d' x := by
  refine depth_irrelevant (fun d d' x hx => ?_) (fun d d' x hx hd hd' ih => ?_) hd hd'
  · rw [valueBelow_unknown hx, valueBelow_unknown hx]
  · obtain ⟨n, hn⟩ := hx.exists_node
    have hsame : m.nodeValue s d x n = m.nodeValue s d' x n := by
      refine nodeValue_eq h (fun z hz _ => ?_) fun z hz _ => ?_
      all_goals
        have := (h.operand hn hz).2
        omega
    rw [valueBelow, valueBelow, node_eq_ok.2 hn]
    dsimp only
    rw [hsame]
    exact (asks_nodeValue h hn hd').resolve_congr fun z hz => ih z hz.1 hz.2

/-- The value of a node, from those of all nodes. -/
theorem value_eq : m.value s id = (m.nodeValue s m.nodes.size id n).resolve (m.value s) := by
  have hid := has_of_node? hn
  obtain ⟨d, hd⟩ := Nat.exists_eq_succ_of_ne_zero (Nat.ne_zero_of_lt hid.2)
  have hsame : m.nodeValue s d id n = m.nodeValue s m.nodes.size id n := by
    refine nodeValue_eq h (fun z hz _ => ?_) fun z _ hz => hz.2
    have := (h.operand hn hz).2
    have := hid.2
    omega
  have hask := asks_nodeValue (s := s) h hn hid.2.le
  have hvalues : (m.nodeValue s m.nodes.size id n).resolve (m.valueBelow s d) =
      (m.nodeValue s m.nodes.size id n).resolve (m.value s) :=
    hask.resolve_congr fun z hz => valueBelow_eq h (fun _ => by have := hid.2; omega) fun hz => hz.2
  rw [← hvalues, value, hd, valueBelow, node_eq_ok.2 hn]
  dsimp only
  rw [hsame, hd]

/-! ### Memory -/

omit hn in
/-- What an evaluator that remembers values finds is the value. -/
theorem found_eq (hd : m.Has x → x.index < d) {memory : Memory}
    (hm : Remembers (fun x => x) m m s memory) :
    (Evaluator.valueBelow m s d x memory).1 = m.value s x ∧
      Remembers (fun x => x) m m s (Evaluator.valueBelow m s d x memory).2 := by
  induction d generalizing x memory with
  | zero =>
    have hx : ¬ m.Has x := fun hx => absurd (hd hx) (Nat.not_lt_zero _)
    exact ⟨(valueBelow_unknown hx _).symm, hm⟩
  | succ d ih =>
    simp only [Evaluator.valueBelow]
    cases hr : Evaluator.recalled? m memory x with
    | some v => exact ⟨(hm x v hr).symm, hm⟩
    | none =>
      by_cases hx : m.Has x
      · obtain ⟨n, hn⟩ := hx.exists_node
        have hlt := hd hx
        have hsame : m.nodeValue s d x n = m.nodeValue s m.nodes.size x n := by
          refine nodeValue_eq h (fun z hz _ => ?_) fun z _ hz => hz.2
          have := (h.operand hn hz).2
          omega
        have hbefore (z : NodeId) (hz : m.Has z ∧ z.index < x.index) (memory : Memory)
            (hm : Remembers (fun x => x) m m s memory) :
            (Evaluator.valueBelow m s d z memory).1 = m.value s z ∧
              Remembers (fun x => x) m m s (Evaluator.valueBelow m s d z memory).2 :=
          ih (fun _ => by omega) hm
        obtain ⟨hvalue, hkept⟩ := (asks_nodeValue h hn hx.2.le).resolveWith hm hbefore
        rw [← value_eq h hn] at hvalue
        simp only [node_eq_ok.2 hn, hsame]
        obtain ⟨r, memory', hr⟩ : ∃ r memory', (m.nodeValue s m.nodes.size x n).resolveWith
            (Evaluator.valueBelow m s d) memory = (r, memory') := ⟨_, _, rfl⟩
        rw [hr] at hvalue hkept ⊢
        cases r with
        | ok v => exact ⟨hvalue, hkept.set hx.1 hvalue.symm⟩
        | error e => exact ⟨hvalue, hkept⟩
      · simp only [node, node?_eq_none hx]
        exact ⟨(valueBelow_unknown hx _).symm, hm⟩

omit hn in
/-- Whatever is asked of an evaluator has the outcome that the values say. -/
theorem resolveWith_eq {α : Type} (q : Query α) {memory : Memory}
    (hm : Remembers (fun x => x) m m s memory) :
    (q.resolveWith (Evaluator.value m s) memory).1 = q.resolve (m.value s) ∧
      Remembers (fun x => x) m m s (q.resolveWith (Evaluator.value m s) memory).2 :=
  q.asks_all.resolveWith hm fun _ _ _ => found_eq h fun hx => hx.2

end Sound

/-! ### Plain recursion -/

/-- What plain recursion answers to a query: what a query asks for is answered in the same way, as
often as it is asked for. -/
inductive Answered (m : Model) (s : Solution) :
    {α : Type} → Query α → Except EvalError α → Prop where
  | answer {α : Type} (a : α) : Answered m s (.answer a) (.ok a)
  | fail {α : Type} (e : EvalError) : Answered m s (.fail e : Query α) (.error e)
  | unknown {α : Type} {id : NodeId} {next : Value → Query α} {e : ModelError} :
      m.node id = .error e → Answered m s (.ask id next) (.error (.model e))
  | stop {α : Type} {id : NodeId} {n : Node} {next : Value → Query α} {e : EvalError} :
      m.node id = .ok n → Answered m s (m.nodeValue s m.nodes.size id n) (.error e) →
      Answered m s (.ask id next) (.error e)
  | ask {α : Type} {id : NodeId} {n : Node} {next : Value → Query α} {v : Value}
      {r : Except EvalError α} :
      m.node id = .ok n → Answered m s (m.nodeValue s m.nodes.size id n) (.ok v) →
      Answered m s (next v) r → Answered m s (.ask id next) r

theorem Answered.of_asks {α : Type} {S : NodeId → Prop} {q : Query α} (hq : q.Asks S)
    (hS : ∀ x n, S x → m.node? x = some n →
      m.Answered s (m.nodeValue s m.nodes.size x n) (m.value s x)) :
    m.Answered s q (q.resolve (m.value s)) := by
  induction hq with
  | answer a => exact .answer a
  | fail e => exact .fail e
  | @ask id next hid _ ih =>
    simp only [Query.resolve]
    by_cases hx : m.Has id
    · obtain ⟨n, hn⟩ := hx.exists_node
      have hvalue := hS id n hid hn
      cases hv : m.value s id with
      | ok v => exact .ask (node_eq_ok.2 hn) (hv ▸ hvalue) (ih v)
      | error e => exact .stop (node_eq_ok.2 hn) (hv ▸ hvalue)
    · rw [value_unknown hx]
      exact .unknown (by rw [node, node?_eq_none hx])

section Sound

variable (h : Sound m)

include h

theorem answered_node (hn : m.node? id = some n) :
    m.Answered s (m.nodeValue s m.nodes.size id n) (m.value s id) := by
  rw [value_eq h hn]
  induction hi : id.index using Nat.strong_induction_on generalizing id n with
  | _ i ih =>
    refine .of_asks (asks_nodeValue h hn (has_of_node? hn).2.le) fun x n' hx hn' => ?_
    rw [value_eq h hn']
    exact ih x.index (hi ▸ hx.2) hn' rfl

/-- Plain recursion gives each query one answer, which the values say. -/
theorem answered_iff {α : Type} {q : Query α} {r : Except EvalError α} :
    m.Answered s q r ↔ q.resolve (m.value s) = r := by
  constructor
  · intro hr
    induction hr with
    | answer a => rfl
    | fail e => rfl
    | @unknown _ id next e he =>
      have hx : ¬ m.Has id := fun hx => by
        obtain ⟨n, hn⟩ := hx.exists_node
        exact nomatch (node_eq_ok.2 hn).symm.trans he
      rw [node, node?_eq_none hx] at he
      rw [Query.resolve, value, valueBelow_unknown hx, ← Except.error.inj he]
    | stop hn _ ih =>
      rw [Query.resolve, value_eq h (node_eq_ok.1 hn), ih]
    | ask hn _ _ ihv ih =>
      rw [Query.resolve, value_eq h (node_eq_ok.1 hn), ihv]
      exact ih
  · rintro rfl
    exact .of_asks q.asks_all fun x n _ => answered_node h

end Sound

end Model

/-! ### Questions to one evaluator -/

namespace Evaluator

open Query (Memory Remembering)

/-- What an evaluator can be asked. -/
inductive Question where
  | value (id : NodeId)
  | holds (id : NodeId)
  | argument (a : Arg)
  | domain (id : NodeId)

/-- What an evaluator replies. -/
inductive Reply where
  | value (v : Value)
  | truth (b : Option Bool)
  | passed
deriving DecidableEq

/-- What is found, as a reply. -/
def replying {α : Type} (reply : α → Reply) (found : Remembering α) : Remembering Reply :=
  fun memory => ((found memory).1.map reply, (found memory).2)

/-- Asks an evaluator. -/
def Question.run (m : Model) (s : Solution) : Question → Remembering Reply
  | .value id => replying .value (Evaluator.value m s id)
  | .holds id => replying .truth (Evaluator.holds m s id)
  | .argument a => replying .value (Evaluator.argValue m s a)
  | .domain id => replying (fun _ => .passed) (Evaluator.checkDomain m s id)

/-- The query behind a question. -/
def Question.query (m : Model) : Question → Query Reply
  | .value id => .value <$> Query.value id
  | .holds id => .truth <$> m.holdsQuery m.nodes.size id
  | .argument a => .value <$> a.value
  | .domain id => (fun _ => .passed) <$> m.domainQuery id

/-- The replies of one evaluator to one question after the other. -/
def replies (m : Model) (s : Solution) : List Question → Memory → List (Except EvalError Reply)
  | [], _ => []
  | q :: rest, memory => (q.run m s memory).1 :: replies m s rest (q.run m s memory).2

end Evaluator

namespace Model

open Evaluator

variable {m : Model} {s : Solution}

/-- A question is answered by its query, and what is remembered stays good. -/
theorem run_eq (h : Sound m) (q : Question) {memory : Query.Memory}
    (hm : Remembers (fun x => x) m m s memory) :
    (q.run m s memory).1 = (q.query m).resolve (m.value s) ∧
      Remembers (fun x => x) m m s (q.run m s memory).2 := by
  have hreplying {α : Type} (reply : α → Reply) (query : Query α) :
      (replying reply (query.resolveWith (Evaluator.value m s)) memory).1 =
          (reply <$> query).resolve (m.value s) ∧
        Remembers (fun x => x) m m s
          (replying reply (query.resolveWith (Evaluator.value m s)) memory).2 := by
    obtain ⟨hvalue, hkept⟩ := resolveWith_eq h query hm
    refine ⟨?_, hkept⟩
    rw [Query.resolve_map, ← hvalue]
    rfl
  cases q with
  | value id =>
    obtain ⟨hvalue, hkept⟩ := found_eq h (d := m.nodes.size) (x := id) (fun hx => hx.2) hm
    refine ⟨?_, hkept⟩
    show ((Evaluator.valueBelow m s m.nodes.size id memory).1).map Reply.value = _
    rw [hvalue, Question.query, Query.resolve_map, Query.value, Query.resolve]
    cases m.value s id <;> rfl
  | holds id => exact hreplying .truth (m.holdsQuery m.nodes.size id)
  | argument a => exact hreplying .value a.value
  | domain id => exact hreplying (fun _ => .passed) (m.domainQuery id)

theorem replies_eq (h : Sound m) (qs : List Question) {memory : Query.Memory}
    (hm : Remembers (fun x => x) m m s memory) :
    replies m s qs memory = qs.map fun q => (q.query m).resolve (m.value s) := by
  induction qs generalizing memory with
  | nil => rfl
  | cons q qs ih =>
    obtain ⟨hq, hkept⟩ := run_eq h q hm
    rw [replies, hq, ih hkept, List.map_cons]

/-- Memory changes no answer: one evaluator that is asked one question after the other, whether they
fail or not, replies to each as a new one does, and a new one replies what plain recursion over the
operands answers, which answers every question once. The recursion ends, since operands stand before
their node; what bounds its depth over cumulative functions has no effect. -/
theorem memory_transparent (hm : m.Obtained) (s : Solution) :
    (∀ qs : List Question,
      replies m s qs (start m) = qs.map fun q => (q.run m s (start m)).1) ∧
    (∀ (q : Question) (r : Except EvalError Reply),
      m.Answered s (q.query m) r ↔ (q.run m s (start m)).1 = r) ∧
    (∀ id, m.changes m.nodes.size id =
      m.lookup id >>= changesOver (m.changes m.nodes.size) id) ∧
    WellFounded fun x id => ∃ n, m.node? id = some n ∧ x ∈ n.operands := by
  have h := hm.sound
  have hstart : Remembers (fun x => x) m m s (start m) := remembers_start _ m m s
  refine ⟨fun qs => ?_, fun q r => ?_, fun id => ?_, ?_⟩
  · rw [replies_eq h qs hstart]
    exact List.map_congr_left fun q _ => (run_eq h q hstart).1.symm
  · rw [answered_iff h, (run_eq h q hstart).1]
  · by_cases hid : m.Has id
    · obtain ⟨d, hd⟩ := Nat.exists_eq_succ_of_ne_zero (Nat.ne_zero_of_lt hid.2)
      conv_lhs => rw [hd, changes_succ]
      refine bind_lookup_congr fun n hn => changesOver_congr fun x hx => ?_
      refine changes_eq h (fun _ => ?_) fun hx => hx.2
      have := (h.operand hn hx).2
      have := hid.2
      omega
    · rw [changes_unknown hid, lookup_unknown hid]
      rfl
  · refine Subrelation.wf (fun {x id} hx => ?_) (measure NodeId.index).wf
    obtain ⟨n, hn, hx⟩ := hx
    exact (h.operand hn hx).2

/-- Calls that add a number to itself, and to another one that has no value. -/
def doubled : List Call :=
  [.intVar ⟨none, none, none, none⟩, .int .plus (.node ⟨0, 0⟩) (.node ⟨0, 0⟩),
    .intVar ⟨none, none, none, none⟩, .int .plus (.node ⟨0, 1⟩) (.node ⟨0, 2⟩)]

theorem memory_transparent_doubled :
    let m := (empty 0 none).calls doubled
    replies m (Solution.empty.set ⟨0, 0⟩ (.int 2))
        [.value ⟨0, 3⟩, .argument (.node ⟨0, 1⟩), .holds ⟨0, 1⟩, .domain ⟨0, 2⟩] (start m) =
      [.error (.missingValue ⟨0, 2⟩), .ok (.value (.int 4)), .ok (.truth (some true)),
        .error (.missingValue ⟨0, 2⟩)] := by
  intro m
  have hm : m.Obtained := (Obtained.empty 0 none).calls doubled
  rw [(memory_transparent hm _).1]
  decide +kernel

end Model

end Scheduling
