import Scheduling.Proofs.Eval.Checks
import Scheduling.Proofs.Eval.Cumulative
import Scheduling.Proofs.Eval.Soundness
import Scheduling.Proofs.Record.Solution

/-!
# Bounds on cumulative functions

A node over intervals and heights stands for a cumulative function once the solution gives their
values (`Model.cumulative?`). What evaluation finds for the node is what is found for the function:
its changes, or an overflow (`traces_changes`). As long as the heights are not too great these are
the changes, and a bound holds exactly when the level of every time is within it (`cumulBound_iff`).
-/

namespace Scheduling

/-! ### Queries one after the other -/

namespace Query

variable {α β γ : Type}

theorem fitting_of_fits {v : Int} (h : Fits v) : fitting v = .answer v := if_pos h

theorem resolve_bind_eq {value : NodeId → Except EvalError Value} (q : Query α) (k : α → Query β) :
    (q >>= k).resolve value = q.resolve value >>= fun a => (k a).resolve value := by
  rw [resolve_bind]
  cases q.resolve value <;> rfl

theorem query_bind_assoc (q : Query α) (k : α → Query β) (l : β → Query γ) :
    q >>= k >>= l = q >>= fun a => k a >>= l := by
  induction q with
  | answer a => rfl
  | fail e => rfl
  | ask id next ih => exact congrArg (ask id) (funext ih)

end Query

open Query (Alike Agree fitting_of_fits query_bind_assoc resolve_bind_eq)

/-! ### The function of a node -/

/-- What an interval adds to a cumulative function. -/
def IntervalStep.over (start finish height : Int) : IntervalStep → Cumulative
  | pulse => .pulse start finish height
  | atStart => .step start height
  | atEnd => .step finish height

namespace Model

variable {m : Model} {s : Solution} {id f x : NodeId} {n : Node} {depth i : Nat}
  {o oa ob : Option Cumulative} {r ra rb : Except EvalError (List Change)}

/-- The function of the node at a position. -/
def cumulativeAt? (part : NodeId → Option Cumulative) (n : Node) (i : Nat) : Option Cumulative :=
  match n.args[i]? with
  | some (.node x) => part x
  | _ => none

/-- The sum of the functions of nodes. -/
def cumulativeOfAll? (part : NodeId → Option Cumulative) : List Arg → Option Cumulative
  | [] => some .zero
  | .node x :: rest => do
    let a ← part x
    let b ← cumulativeOfAll? part rest
    some (.plus a b)
  | _ :: _ => none

/-- The value at a position. -/
def valueAt? (m : Model) (s : Solution) (n : Node) (i : Nat) : Option Value :=
  match n.args[i]? with
  | some a => (m.argValue s a).toOption
  | none => none

/-- The function of a node whose parts stand among the first `depth` nodes. Nothing is added over an
interval that is absent, or by a height that is absent. -/
def cumulativeBelow? (m : Model) (s : Solution) : (depth : Nat) → NodeId → Option Cumulative
  | 0, _ => none
  | depth + 1, id =>
    match m.node? id with
    | none => none
    | some n =>
      match n.operator with
      | .intervalStep step => do
        match ← m.valueAt? s n 0 with
        | .absent => do
          let _ ← m.valueAt? s n 1
          some .zero
        | .interval start finish => do
          let height ← m.valueAt? s n 1
          some ((height.int?.map (step.over start finish)).getD .zero)
        | _ => none
      | .stepAt => do
        let t ← m.valueAt? s n 0
        let height ← m.valueAt? s n 1
        match t.int?, height.int? with
        | some t, some height => some (.step t height)
        | _, _ => some .zero
      | .cumulPlus => do
        let a ← cumulativeAt? (cumulativeBelow? m s depth) n 0
        let b ← cumulativeAt? (cumulativeBelow? m s depth) n 1
        some (.plus a b)
      | .cumulMinus => do
        let a ← cumulativeAt? (cumulativeBelow? m s depth) n 0
        let b ← cumulativeAt? (cumulativeBelow? m s depth) n 1
        some (.minus a b)
      | .cumulNeg => do
        let a ← cumulativeAt? (cumulativeBelow? m s depth) n 0
        some (.neg a)
      | .cumulSum =>
        match n.args[0]?.bind Arg.list? with
        | some items => cumulativeOfAll? (cumulativeBelow? m s depth) items
        | none => none
      | _ => none

/-- The cumulative function that a node stands for under a solution; there is none when a value is
missing. -/
def cumulative? (m : Model) (s : Solution) (id : NodeId) : Option Cumulative :=
  m.cumulativeBelow? s m.nodes.size id

/-! ### The changes of a node -/

/-- What is found is what is found for the function. Without a function nothing is found. -/
structure Traces (o : Option Cumulative) (r : Except EvalError (List Change)) : Prop where
  found : ∀ c, o = some c → r = c.found
  missing : o = none → ∃ e, r = .error e

namespace Traces

theorem of_none (e : EvalError) : Traces none (.error e) := ⟨nofun, fun _ => ⟨e, rfl⟩⟩

theorem of_some {c : Cumulative} (h : r = c.found) : Traces (some c) r :=
  ⟨fun _ hc => Option.some.inj hc ▸ h, nofun⟩

/-- A change that a part turns is turned by the whole. -/
theorem of_overflow {a c : Cumulative} (h : a.found = .error .overflow) (hsub : a.turned ⊆ c.turned) :
    c.found = .error .overflow := by
  rw [Cumulative.found_eq_overflow] at h ⊢
  obtain ⟨d, hd, hnot⟩ := h
  exact ⟨d, hsub hd, hnot⟩

theorem unary (ha : Traces oa ra) {g : Cumulative → Cumulative}
    {k : List Change → Except EvalError (List Change)} (hg : ∀ a, a.turned ⊆ (g a).turned)
    (hk : ∀ a : Cumulative, (∀ d ∈ a.turned, Fits (-d)) → k a.changes = (g a).found) :
    Traces (do let a ← oa; some (g a)) (ra >>= k) := by
  cases oa with
  | none =>
    obtain ⟨e, rfl⟩ := ha.missing rfl
    exact of_none e
  | some a =>
    refine of_some ?_
    rw [ha.found a rfl]
    by_cases hfits : ∀ d ∈ a.turned, Fits (-d)
    · rw [Cumulative.found, if_pos hfits]
      exact hk a hfits
    · have hover : a.found = .error .overflow := if_neg hfits
      rw [hover, of_overflow hover (hg a)]
      rfl

theorem binary (ha : Traces oa ra) (hb : Traces ob rb) {g : Cumulative → Cumulative → Cumulative}
    {k : List Change → List Change → Except EvalError (List Change)}
    (hg : ∀ a b, a.turned ++ b.turned ⊆ (g a b).turned)
    (hk : ∀ a b : Cumulative, (∀ d ∈ a.turned ++ b.turned, Fits (-d)) →
      k a.changes b.changes = (g a b).found) :
    Traces (do let a ← oa; let b ← ob; some (g a b)) (ra >>= fun a => rb >>= k a) := by
  cases oa with
  | none =>
    obtain ⟨e, rfl⟩ := ha.missing rfl
    exact of_none e
  | some a =>
    cases ob with
    | none =>
      -- The first function may have overflowed already.
      obtain ⟨e, rfl⟩ := hb.missing rfl
      cases ra <;> exact of_none _
    | some b =>
      refine of_some ?_
      rw [ha.found a rfl, hb.found b rfl]
      by_cases hfits : ∀ d ∈ a.turned ++ b.turned, Fits (-d)
      · obtain ⟨hfa, hfb⟩ := List.forall_mem_append.1 hfits
        rw [Cumulative.found, Cumulative.found, if_pos hfa, if_pos hfb]
        exact hk a b hfits
      · obtain ⟨d, hd, hnot⟩ : ∃ d ∈ a.turned ++ b.turned, ¬ Fits (-d) := by simpa using hfits
        rw [Cumulative.found_eq_overflow.2 ⟨d, hg a b hd, hnot⟩]
        by_cases hfa : ∀ d ∈ a.turned, Fits (-d)
        · have hdb : d ∈ b.turned := (List.mem_append.1 hd).resolve_left fun h => hnot (hfa d h)
          rw [Cumulative.found, if_pos hfa, Cumulative.found_eq_overflow.2 ⟨d, hdb, hnot⟩]
          rfl
        · rw [Cumulative.found, if_neg hfa]
          rfl

end Traces

section Queries

variable {β : Type} {value : NodeId → Except EvalError Value}

theorem resolve_lookup (k : Node → Query β) : (m.lookup id >>= k).resolve value =
    match m.node? id with
    | some n => (k n).resolve value
    | none => .error (.model (.unknownNode id)) := by
  unfold lookup node
  cases m.node? id <;> rfl

theorem resolve_arg_bind (id : NodeId) (n : Node) (i : Nat) (k : Arg → Query β) :
    (n.arg id i >>= k).resolve value =
      match n.args[i]? with
      | some a => (k a).resolve value
      | none => .error (.malformed id n.operator (.missingArgument i)) := by
  unfold Node.arg
  cases n.args[i]? <;> rfl

/-- Turning the signs of changes overflows when one of them cannot be turned in 64 bits. -/
theorem resolve_negated (cs : List Change) : (negated cs).resolve value =
    if ∀ d ∈ cs.map Prod.snd, Fits (-d) then .ok (cs.map fun c => (c.1, -c.2))
    else .error .overflow := by
  induction cs with
  | nil => rfl
  | cons c cs ih =>
    obtain ⟨t, d⟩ := c
    by_cases hd : Fits (-d)
    · rw [negated, fitting_of_fits hd]
      show (negated cs >>= _).resolve value = _
      rw [resolve_bind_eq, ih]
      simp only [List.map_cons, List.forall_mem_cons, hd, true_and]
      split <;> rfl
    · rw [negated, Query.fitting, if_neg hd, if_neg]
      · rfl
      · exact fun h => hd (h d (by simp))

end Queries

theorem Traces.value {g : Value → Option Cumulative} {k : Value → Query (List Change)}
    (h : ∀ v, Traces (g v) ((k v).resolve (m.value s))) :
    Traces (do let v ← m.valueAt? s n i; g v)
      ((n.arg id i >>= fun a => a.value >>= k).resolve (m.value s)) := by
  rw [resolve_arg_bind]
  unfold valueAt?
  cases n.args[i]? with
  | none => exact .of_none _
  | some a =>
    simp only
    rw [resolve_bind_eq]
    show Traces _ (m.argValue s a >>= _)
    cases m.argValue s a with
    | ok v => exact h v
    | error e => exact .of_none e

theorem traces_changesOfAll {part : NodeId → Option Cumulative}
    {changes : NodeId → Query (List Change)}
    (hpart : ∀ x, Traces (part x) ((changes x).resolve (m.value s))) (items : List Arg) :
    Traces (cumulativeOfAll? part items)
      ((changesOfAll changes id n items).resolve (m.value s)) := by
  induction items with
  | nil => exact .of_some rfl
  | cons a rest ih =>
    cases a with
    | node x =>
      rw [cumulativeOfAll?, changesOfAll, resolve_bind_eq]
      simp only [resolve_bind_eq]
      exact (hpart x).binary ih (g := .plus) (fun _ _ => List.Subset.refl _) fun _ _ h =>
        (if_pos h).symm
    | _ => exact .of_none _

theorem traces_changesAt {part : NodeId → Option Cumulative}
    {changes : NodeId → Query (List Change)}
    (hpart : ∀ x, Traces (part x) ((changes x).resolve (m.value s))) :
    Traces (cumulativeAt? part n i) ((changesAt changes id n i).resolve (m.value s)) := by
  unfold cumulativeAt? changesAt Node.arg
  cases n.args[i]? with
  | none => exact .of_none _
  | some a =>
    cases a with
    | node x => exact hpart x
    | _ => exact .of_none _

/-- What is found for a node is what is found for its function. -/
theorem traces_changes (depth : Nat) (id : NodeId) :
    Traces (m.cumulativeBelow? s depth id) ((m.changes depth id).resolve (m.value s)) := by
  induction depth generalizing id with
  | zero => exact .of_none _
  | succ depth ih =>
    unfold cumulativeBelow? changes
    rw [resolve_lookup]
    cases m.node? id with
    | none => exact .of_none _
    | some n =>
      simp only
      cases n.operator with
      | intervalStep step =>
        simp only
        unfold Node.intervalAt Node.intervalOf
        rw [query_bind_assoc]
        simp only [query_bind_assoc]
        refine Traces.value fun v => ?_
        cases v with
        | absent => exact Traces.value fun _ => .of_some rfl
        | interval start finish =>
          refine Traces.value fun height => ?_
          cases height.int? with
          | none => exact .of_some rfl
          | some h =>
            cases step with
            | pulse =>
              refine .of_some ?_
              show (Query.fitting (-h) >>= _).resolve _ = (Cumulative.pulse start finish h).found
              rw [Cumulative.found_pulse, Query.fitting]
              split <;> rfl
            | _ => exact .of_some rfl
        | _ => exact .of_none _
      | stepAt =>
        simp only
        refine Traces.value fun t => Traces.value fun height => ?_
        cases t.int? <;> cases height.int? <;> exact .of_some rfl
      | cumulPlus =>
        simp only [resolve_bind_eq]
        exact (traces_changesAt ih).binary (traces_changesAt ih) (g := .plus)
          (fun _ _ => List.Subset.refl _) fun _ _ h => (if_pos h).symm
      | cumulMinus =>
        simp only [resolve_bind_eq]
        refine (traces_changesAt ih).binary (traces_changesAt ih) (g := .minus)
          (fun _ _ => List.subset_append_left _ _) fun a b h => ?_
        rw [resolve_negated, Cumulative.found_minus h]
        split <;> rfl
      | cumulNeg =>
        simp only [resolve_bind_eq]
        refine (traces_changesAt ih).unary (g := .neg) (fun _ => List.subset_append_left _ _)
          fun a h => ?_
        rw [resolve_negated, Cumulative.found_neg h]
        rfl
      | cumulSum =>
        unfold Node.listArg
        simp only [query_bind_assoc]
        rw [resolve_arg_bind]
        cases n.args[0]? with
        | none => exact .of_none _
        | some a =>
          cases a with
          | list items => exact traces_changesOfAll ih items
          | _ => exact .of_none _
      | _ => exact .of_none _

/-! ### The sweep of a bound -/

/-- The sweep that answers a bound on the function of a node. -/
theorem resolve_cumulBoundHolds {b : Bounding} {bound : Int}
    (hargs : n.args = [.node f, .int bound]) :
    (m.cumulBoundHolds depth id n b).resolve (m.value s) =
      if b.within bound 0 then do
        let cs ← (m.changes depth f).resolve (m.value s)
        .ok (staysWithin (b.within bound) 0 (cs.mergeSort notAfter))
      else .ok false := by
  unfold cumulBoundHolds
  rw [resolve_arg_bind, hargs]
  show (n.arg id 1 >>= fun a => a.value >>= _).resolve _ = _
  rw [resolve_arg_bind, hargs]
  show (if b.within bound 0 then _ else _ : Query Bool).resolve _ = _
  by_cases hzero : b.within bound 0 = true
  · rw [if_pos hzero, if_pos hzero, resolve_bind_eq]
    rfl
  · rw [if_neg hzero, if_neg hzero]
    rfl

/-! ### Intervals that do not end before they start -/

/-- No present interval of the model ends before it starts. -/
def Forward (m : Model) (s : Solution) : Prop :=
  ∀ x start finish, m.Has x → s.value? x = some (.interval start finish) → start ≤ finish

theorem value?_of_value {start finish : Int} (hx : m.Is .interval x)
    (hv : m.value s x = .ok (.interval start finish)) :
    s.value? x = some (.interval start finish) := by
  obtain ⟨n, hn, hk⟩ := hx
  have ho : n.operator = .intervalVar := eq_intervalVar hk
  obtain ⟨d, hd⟩ := Nat.exists_eq_succ_of_ne_zero (Nat.ne_zero_of_lt (has_of_node? hn).2)
  rw [value, hd, valueBelow, node_eq_ok.2 hn] at hv
  simp only [nodeValue, ho, variableValue] at hv
  cases hs : s.value? x with
  | none => rw [hs] at hv; cases hv
  | some w =>
    rw [hs] at hv
    cases w with
    | interval a b =>
      obtain ⟨rfl, rfl⟩ : a = start ∧ b = finish := by simpa [Query.resolve] using hv
      rfl
    | _ => cases hv

section Built

variable {asked : NodeId → Prop} {sent : List NodeId} (h : Built m asked sent)
  (hs : m.Forward s)

include h hs

theorem forward_valueAt {step : IntervalStep} {start finish : Int} (hn : m.node? id = some n)
    (ho : n.operator = .intervalStep step)
    (hv : m.valueAt? s n 0 = some (.interval start finish)) : start ≤ finish := by
  obtain ⟨a, ha, htakes⟩ := (ho ▸ (formed_of_node? h hn).args).inputAt (i := 0) rfl
  unfold valueAt? at hv
  rw [ha] at hv
  cases a with
  | node x =>
    refine hs x start finish (Is.has htakes) (value?_of_value htakes ?_)
    simp only [argValue, Arg.value, Query.value, Query.resolve] at hv
    cases hx : m.value s x with
    | ok v => rw [hx] at hv; exact congrArg Except.ok (Option.some.inj hv)
    | error e => rw [hx] at hv; cases hv
  | _ => exact htakes.elim

/-- The function of a node is proper when no interval ends before it starts. -/
theorem proper_cumulativeBelow? {c : Cumulative}
    (hc : m.cumulativeBelow? s depth id = some c) : c.Proper := by
  induction depth generalizing id c with
  | zero => exact nomatch hc
  | succ depth ih =>
    have hat {n : Node} {i : Nat} {a : Cumulative}
        (ha : cumulativeAt? (m.cumulativeBelow? s depth) n i = some a) : a.Proper := by
      unfold cumulativeAt? at ha
      split at ha
      · exact ih ha
      · exact nomatch ha
    have hall {items : List Arg} {a : Cumulative}
        (ha : cumulativeOfAll? (m.cumulativeBelow? s depth) items = some a) : a.Proper := by
      induction items generalizing a with
      | nil => exact Option.some.inj ha ▸ trivial
      | cons item rest ihrest =>
        cases item with
        | node x =>
          obtain ⟨b, hb, hrest⟩ := Option.bind_eq_some_iff.1 ha
          obtain ⟨d, hd, hrest⟩ := Option.bind_eq_some_iff.1 hrest
          exact Option.some.inj hrest ▸ ⟨ih hb, ihrest hd⟩
        | _ => exact nomatch ha
    unfold cumulativeBelow? at hc
    cases hn : m.node? id with
    | none => rw [hn] at hc; exact nomatch hc
    | some n =>
      rw [hn] at hc
      simp only at hc
      cases ho : n.operator with
      | intervalStep step =>
        rw [ho] at hc
        obtain ⟨v, hv, hc⟩ := Option.bind_eq_some_iff.1 hc
        cases v with
        | absent =>
          obtain ⟨-, -, hc⟩ := Option.bind_eq_some_iff.1 hc
          exact Option.some.inj hc ▸ trivial
        | interval start finish =>
          obtain ⟨height, -, hc⟩ := Option.bind_eq_some_iff.1 hc
          obtain rfl := Option.some.inj hc
          have hle : start ≤ finish := forward_valueAt h hs hn ho hv
          cases height.int? with
          | none => trivial
          | some height => cases step <;> first | exact hle | trivial
        | _ => exact nomatch hc
      | stepAt =>
        rw [ho] at hc
        obtain ⟨t, -, hc⟩ := Option.bind_eq_some_iff.1 hc
        obtain ⟨height, -, hc⟩ := Option.bind_eq_some_iff.1 hc
        cases ht : t.int? <;> cases hheight : height.int? <;> simp only [ht, hheight] at hc <;>
          exact Option.some.inj hc ▸ trivial
      | cumulPlus | cumulMinus =>
        rw [ho] at hc
        obtain ⟨a, ha, hc⟩ := Option.bind_eq_some_iff.1 hc
        obtain ⟨b, hb, hc⟩ := Option.bind_eq_some_iff.1 hc
        exact Option.some.inj hc ▸ ⟨hat ha, hat hb⟩
      | cumulNeg =>
        rw [ho] at hc
        obtain ⟨a, ha, hc⟩ := Option.bind_eq_some_iff.1 hc
        have ha : a.Proper := hat ha
        exact Option.some.inj hc ▸ ha
      | cumulSum =>
        rw [ho] at hc
        simp only at hc
        split at hc
        · exact hall hc
        · exact nomatch hc
      | _ => rw [ho] at hc; exact nomatch hc

/-- A bound on a node with a function holds when the level of every time is within it. Without a
function it does not hold. -/
theorem cumulBoundHolds_iff (depth : Nat) (id : NodeId) (b : Bounding) {bound : Int}
    (hargs : n.args = [.node f, .int bound]) :
    (∀ c, m.cumulativeBelow? s depth f = some c → (c.weight : Int) ≤ intMax →
      ∃ v, (m.cumulBoundHolds depth id n b).resolve (m.value s) = .ok v ∧
        (v = true ↔ ∀ t, b.within bound (c.level t) = true)) ∧
    (m.cumulativeBelow? s depth f = none →
      (m.cumulBoundHolds depth id n b).resolve (m.value s) ≠ .ok true) := by
  have htraces : Traces (m.cumulativeBelow? s depth f) _ := traces_changes depth f
  rw [resolve_cumulBoundHolds hargs]
  refine ⟨fun c hc hw => ?_, fun hnone => ?_⟩
  · have hproper := proper_cumulativeBelow? h hs hc
    have hfits (t : Int) (k : Nat) : Fits (cut t k c.changes) := by
      have := Cumulative.natAbs_cut_changes hproper t k
      unfold Fits intMin
      unfold intMax at *
      omega
    have hsweep : _ ↔ ∀ t, b.within bound (levelAt t c.changes) = true := staysWithin_iff hfits
    simp only [Cumulative.levelAt_changes hproper] at hsweep
    rw [htraces.found c hc, Cumulative.found_of_weight hw, ← hsweep]
    by_cases hzero : b.within bound 0 = true
    · rw [if_pos hzero]
      exact ⟨_, rfl, ⟨fun hstays => ⟨hzero, hstays⟩, fun hstays => hstays.2⟩⟩
    · rw [if_neg hzero]
      exact ⟨false, rfl, nofun, fun hstays => absurd hstays.1 hzero⟩
  · obtain ⟨e, he⟩ := htraces.missing hnone
    rw [he]
    split <;> exact nofun

end Built

/-! ### Bounds on nodes -/

section Sound

variable (h : Sound m) (hn : m.node? id = some n)

include h hn

/-- The value of a node is found from the values of all nodes. -/
theorem agree_nodeValue :
    Agree Eq (m.eval s id) ((m.nodeValue s m.nodes.size id n).resolve (m.value s)) := by
  have hid := has_of_node? hn
  have heval := (agree_remembered (.refl m) h h (.refl m s) ⟨hid, rfl, hid.2, hid.2⟩
    (remembers_start _ m m s)).1
  obtain ⟨d, hd⟩ := Nat.exists_eq_succ_of_ne_zero (Nat.ne_zero_of_lt hid.2)
  have hbelow : Below (fun id => id) m (d + 1) (m.nodes.size + 1) id id :=
    ⟨hid, rfl, Nat.lt_of_lt_of_eq hid.2 hd, Nat.lt_succ_of_lt hid.2⟩
  have halike := alike_nodeValue (.refl m) h h (.refl n) (below_operands (.refl m) h h hbelow hn hn)
    (.refl m s) hn rfl
  have hvalue : m.value s id = (m.nodeValue s d id n).resolve (m.valueBelow s d) := by
    rw [value, hd, valueBelow, node_eq_ok.2 hn]
  refine heval.trans ?_
  rw [hvalue]
  exact halike.resolve fun x y hx => hx.2.1 ▸ (agree_value h hx.1 hx.2.2.1).symm

/-- A constraint holds as its value says. -/
theorem agree_constraintValue (ho : n.operator.isConstraint) : Agree Eq (m.evalConstraint s id)
    ((m.constraintValue m.nodes.size id n).resolve (m.value s)) := by
  have hid := has_of_node? hn
  have hholds := agree_resolveWith (.refl m) h h (.refl m s)
    (alike_holdsQuery (.refl m) h h ⟨hid, rfl, hid.2, hid.2⟩)
  rw [holdsQuery, resolve_lookup, hn] at hholds
  simp only [ho, if_true] at hholds
  exact hholds

end Sound

/-- A bound on a cumulative function says that the level of every time is within the bound. In a
model that calls have built, under a solution in which no interval ends before it starts, a bound on
a function whose heights do not add up to more than fits in 64 bits evaluates to whether this is so.
A bound does not hold where values of the function are missing. -/
theorem cumulBound_iff (tag : Nat) (name : Option String) (cs : List Call) (s : Solution)
    (hs : ((empty tag name).calls cs).Forward s) {id : NodeId} {n : Node} {b : Bounding}
    (hn : ((empty tag name).calls cs).node? id = some n) (ho : n.operator = .cumulBound b) :
    let m := (empty tag name).calls cs
    ∃ f bound, n.args = [.node f, .int bound] ∧ m.Is .cumulative f ∧
      (∀ c, m.cumulative? s f = some c → (c.weight : Int) ≤ intMax →
        ∃ v, m.evalConstraint s id = .ok (some v) ∧ m.eval s id = .ok (.bool v) ∧
          (v = true ↔ ∀ t, b.within bound (c.level t) = true)) ∧
      (m.cumulative? s f = none →
        m.evalConstraint s id ≠ .ok (some true) ∧ m.eval s id ≠ .ok (.bool true)) := by
  intro m
  have h : Built m _ _ := built_calls tag name cs
  obtain ⟨a, a', hargs, ha, ha'⟩ := (ho ▸ (formed_of_node? h hn).args).pair rfl rfl
  cases a with
  | node f =>
    cases a' with
    | int bound =>
      have hholds := agree_constraintValue (s := s) h.toSound hn (by rw [ho]; rfl)
      have hvalue := agree_nodeValue (s := s) h.toSound hn
      have hconstraint : (m.constraintValue m.nodes.size id n).resolve (m.value s) =
          (m.cumulBoundHolds m.nodes.size id n b).resolve (m.value s) >>= fun v =>
            .ok (some v) := by
        rw [constraintValue, ho]
        exact resolve_bind_eq _ _
      have hnode : (m.nodeValue s m.nodes.size id n).resolve (m.value s) =
          (m.cumulBoundHolds m.nodes.size id n b).resolve (m.value s) >>= fun v =>
            .ok (.bool v) := by
        rw [nodeValue, ho]
        show (m.constraintValue m.nodes.size id n >>= _).resolve _ = _
        rw [resolve_bind_eq, hconstraint]
        cases (m.cumulBoundHolds m.nodes.size id n b).resolve (m.value s) <;> rfl
      rw [hconstraint] at hholds
      rw [hnode] at hvalue
      obtain ⟨hfound, hmissing⟩ :=
        cumulBoundHolds_iff h hs m.nodes.size id b hargs
      refine ⟨f, bound, hargs, ha, fun c hc hw => ?_, fun hnone => ?_⟩
      · obtain ⟨v, hv, hiff⟩ := hfound c hc hw
        rw [hv] at hholds hvalue
        exact ⟨v, (hholds.ok_iff _).2 rfl, (hvalue.ok_iff _).2 rfl, hiff⟩
      · have hne := hmissing hnone
        generalize (m.cumulBoundHolds m.nodes.size id n b).resolve (m.value s) = r at *
        refine ⟨fun htrue => hne ?_, fun htrue => hne ?_⟩
        · have htrue := (hholds.ok_iff _).1 htrue
          cases r with
          | ok v => rw [Option.some.inj (Except.ok.inj htrue)]
          | error e => cases htrue
        · have htrue := (hvalue.ok_iff _).1 htrue
          cases r with
          | ok v => rw [Value.bool.inj (Except.ok.inj htrue)]
          | error e => cases htrue
    | _ => exact ha'.elim
  | _ => exact ha.elim

/-- Calls that bound a sum which counts one of its pulses twice. -/
def towers : List Call :=
  [.intervalVar ⟨.none, none, none⟩, .intervalVar ⟨.none, none, none⟩,
    .intVar ⟨none, none, none, none⟩, .intervalStep .pulse ⟨0, 0⟩ (.node ⟨0, 2⟩),
    .intervalStep .pulse ⟨0, 1⟩ (.const 4), .cumulSum [⟨0, 3⟩, ⟨0, 4⟩, ⟨0, 3⟩],
    .cumulBound .atMost ⟨0, 5⟩ 4]

/-- One interval starts where the other one ends. -/
def towersSolution : Solution :=
  ((Solution.empty.set ⟨0, 0⟩ (.interval 0 3)).set ⟨0, 1⟩ (.interval 3 5)).set ⟨0, 2⟩ (.int 2)

theorem forward_towersSolution : ((empty 0 none).calls towers).Forward towersSolution := by
  intro x start finish _ hv
  simp only [towersSolution, Solution.set, Solution.value?, Solution.empty, SortedMap.get?_insert,
    SortedMap.get?_empty] at hv
  split_ifs at hv <;>
    simp only [Option.some.injEq, SolutionValue.interval.injEq, reduceCtorEq] at hv <;> omega

theorem cumulBound_iff_towers :
    let m := (empty 0 none).calls towers
    (∃ c, m.cumulative? towersSolution ⟨0, 5⟩ = some c ∧ c.weight = 8 ∧ ∀ t, c.level t ≤ 4) ∧
      m.evalConstraint towersSolution ⟨0, 6⟩ = .ok (some true) := by
  intro m
  have hop : (m.node? ⟨0, 6⟩).map Node.operator = some (.cumulBound .atMost) := by decide +kernel
  obtain ⟨n, hn, ho⟩ := Option.map_eq_some_iff.1 hop
  have hlook : (m.node? ⟨0, 6⟩).map Node.args = some [.node ⟨0, 5⟩, .int 4] := by rfl
  obtain ⟨f, bound, hargs, -, hfound, -⟩ :=
    cumulBound_iff 0 none towers towersSolution forward_towersSolution hn ho
  rw [hn, Option.map_some, hargs] at hlook
  obtain ⟨rfl, rfl⟩ : f = ⟨0, 5⟩ ∧ bound = 4 := by simpa using hlook
  have hc : m.cumulative? towersSolution ⟨0, 5⟩ =
      some (.plus (.pulse 0 3 2) (.plus (.pulse 3 5 4) (.plus (.pulse 0 3 2) .zero))) := by
    decide +kernel
  have hlevel (t : Int) : Cumulative.level
      (.plus (.pulse 0 3 2) (.plus (.pulse 3 5 4) (.plus (.pulse 0 3 2) .zero))) t ≤ 4 := by
    simp only [Cumulative.level]
    split_ifs <;> omega
  obtain ⟨v, hv, -, hiff⟩ := hfound _ hc (by decide)
  obtain rfl : v = true := hiff.2 fun t => decide_eq_true (hlevel t)
  exact ⟨⟨_, hc, rfl, hlevel⟩, hv⟩

end Model

end Scheduling
