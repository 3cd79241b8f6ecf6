import Scheduling.Proofs.Eval.Reading

/-!
# Precedences

A precedence says of two intervals that an endpoint of the first one, later by a delay, does not come
after an endpoint of the second one, or comes with it (`Precedence.Relates`). Evaluation adds the
delay in 64 bits and takes a sum that does not fit for one that comes too late. That is right of a
sum above all integers of 64 bits and wrong of one below them, which no endpoint comes before
(`Precedence.holds_iff`).
-/

namespace Scheduling

open Query (resolve_bind_eq)

namespace Precedence

variable {p : Precedence} {a b : Int × Int} {delay : Int}

/-- The endpoint of the first interval. -/
def first (p : Precedence) (a : Int × Int) : Int := if p.firstEnd then a.2 else a.1

/-- The endpoint of the second interval. -/
def second (p : Precedence) (b : Int × Int) : Int := if p.secondEnd then b.2 else b.1

/-- What a precedence says of two intervals and a delay. -/
def Relates (p : Precedence) (a b : Int × Int) (delay : Int) : Prop :=
  if p.exact then p.first a + delay = p.second b else p.first a + delay ≤ p.second b

instance (p : Precedence) (a b : Int × Int) (delay : Int) : Decidable (p.Relates a b delay) :=
  inferInstanceAs (Decidable (if p.exact = true then _ = _ else _ ≤ _))

theorem Relates.le (h : p.Relates a b delay) : p.first a + delay ≤ p.second b := by
  unfold Relates at h
  split at h
  · exact h.le
  · exact h

/-- A precedence holds where it is so, unless the delay moves the endpoint below all integers of 64
bits. -/
theorem holds_iff (hb : Fits (p.second b)) :
    p.holds a b delay = true ↔ p.Relates a b delay ∧ intMin ≤ p.first a + delay := by
  unfold holds
  rw [show (if p.firstEnd then a.2 else a.1) = p.first a from rfl]
  cases hsum : checked (p.first a + delay) with
  | none =>
    refine iff_of_false Bool.false_ne_true ?_
    rintro ⟨hrelates, hmin⟩
    exact checked_eq_none.1 hsum ⟨hmin, hrelates.le.trans hb.2⟩
  | some e =>
    obtain ⟨hfits, rfl⟩ := checked_eq_some.1 hsum
    rw [and_iff_left hfits.1, Relates]
    dsimp only
    split <;> exact decide_eq_true_iff

/-- Where the delay moves the endpoint below all integers of 64 bits, the endpoint comes before any
other and with none. -/
theorem relates_of_lt (hb : Fits (p.second b)) (hlt : p.first a + delay < intMin) :
    p.Relates a b delay ↔ p.exact = false := by
  have hmin := hb.1
  unfold Relates
  split
  · rename_i hexact
    rw [hexact]
    exact iff_of_false (by omega) nofun
  · rename_i hexact
    exact iff_of_true (by omega) (Bool.eq_false_iff.2 hexact)

/-- The verdict is right unless the sum of an order is below all integers of 64 bits. -/
theorem holds_iff_relates (hb : Fits (p.second b)) :
    (p.holds a b delay = true ↔ p.Relates a b delay) ↔
      p.exact = true ∨ intMin ≤ p.first a + delay := by
  rw [holds_iff hb]
  obtain hmin | hlt := le_or_gt intMin (p.first a + delay)
  · simp only [hmin, and_true, or_true]
  · rw [relates_of_lt hb hlt]
    cases p.exact <;> simp [not_le.2 hlt]

end Precedence

/-- The delay of a precedence; none is recorded when it is the literal zero. -/
def Node.delay (n : Node) : Arg := (n.args[2]?).getD (.int 0)

namespace Model

variable {m : Model} {s : Solution} {id : NodeId} {n : Node} {p : Precedence} {x y : Arg}
  {a b : Int × Int} {oa ob : Option (Int × Int)} {od : Option Int}

section Resolve

variable (depth : Nat) (ho : n.operator = .precedence p) (hx : n.args[0]? = some x)
  (hy : n.args[1]? = some y) (ha : m.Reads s Value.interval? x oa)
  (hb : m.Reads s Value.interval? y ob)

include ho hx hy ha hb

/-- A precedence is absent with either interval, whatever its delay. -/
theorem resolve_precedence_absent (h : oa = none ∨ ob = none) :
    (m.constraintValue depth id n).resolve (m.value s) = .ok none := by
  rw [constraintValue, ho]
  show (n.intervalAt id 0 >>= fun a => _).resolve (m.value s) = _
  rw [resolve_bind_eq, resolve_intervalAt_of_reads hx ha]
  show (n.intervalAt id 1 >>= fun b => _).resolve (m.value s) = _
  rw [resolve_bind_eq, resolve_intervalAt_of_reads hy hb]
  obtain rfl | rfl := h
  · rfl
  · cases oa <;> rfl

/-- Where both intervals are present, a precedence is absent with its delay. -/
theorem resolve_precedence (hoa : oa = some a) (hob : ob = some b)
    (hd : m.Reads s Value.int? n.delay od) :
    (m.constraintValue depth id n).resolve (m.value s) = .ok (od.map (p.holds a b)) := by
  subst hoa hob
  rw [constraintValue, ho]
  show (n.intervalAt id 0 >>= fun a => _).resolve (m.value s) = _
  rw [resolve_bind_eq, resolve_intervalAt_of_reads hx ha]
  show (n.intervalAt id 1 >>= fun b => _).resolve (m.value s) = _
  rw [resolve_bind_eq, resolve_intervalAt_of_reads hy hb]
  rw [Node.delay] at hd
  cases hdelay : n.args[2]? with
  | none =>
    rw [hdelay] at hd
    have hzero : m.Reads s Value.int? (.int 0) (some 0) := ⟨.int 0, rfl, rfl⟩
    obtain rfl := hd.unique rfl hzero
    rfl
  | some d =>
    rw [hdelay, Option.getD_some] at hd
    show (d.value >>= fun v => _).resolve (m.value s) = _
    rw [resolve_value_bind]
    cases od with
    | none =>
      rw [show m.argValue s d = .ok .absent from hd]
      rfl
    | some k =>
      obtain ⟨v, hv, hk⟩ := hd
      simp only [hv, bind, Except.bind, hk]
      rfl

end Resolve

/-- A precedence is absent exactly when an interval or the delay is. Where they are present its
verdict is the truth over all integers, except that one about an order is that it fails where the
first endpoint with its delay is below all integers of 64 bits. So the verdicts about exact delays
are right, and one about an order is right exactly when the sum is not below them. -/
theorem precedence_verdict (hm : m.Obtained) (hn : m.node? id = some n)
    (ho : n.operator = .precedence p) (hx : n.args[0]? = some x) (hy : n.args[1]? = some y)
    (ha : m.Reads s Value.interval? x oa) (hb : m.Reads s Value.interval? y ob) :
    (oa = none ∨ ob = none → m.Verdict s id none) ∧
    ∀ od, m.Reads s Value.int? n.delay od →
      (m.Verdict s id none ↔ oa = none ∨ ob = none ∨ od = none) ∧
      ∀ a b k, oa = some a → ob = some b → od = some k → Fits (p.second b) →
        ∃ v, m.Verdict s id (some v) ∧
          (v = true ↔ p.Relates a b k ∧ intMin ≤ p.first a + k) ∧
          ((v = true ↔ p.Relates a b k) ↔ p.exact = true ∨ intMin ≤ p.first a + k) := by
  have hconstraint : n.operator.isConstraint := by rw [ho]; rfl
  have habsent (h : oa = none ∨ ob = none) : m.Verdict s id none :=
    .constraint hm.sound hn hconstraint (resolve_precedence_absent _ ho hx hy ha hb h)
  have hpresent {a b od} (hoa : oa = some a) (hob : ob = some b)
      (hd : m.Reads s Value.int? n.delay od) : m.Verdict s id (od.map (p.holds a b)) :=
    .constraint hm.sound hn hconstraint (resolve_precedence _ ho hx hy ha hb hoa hob hd)
  refine ⟨habsent, fun od hd => ⟨⟨fun hnone => ?_, fun h => ?_⟩, ?_⟩⟩
  · by_contra hall
    simp only [not_or, ← ne_eq, Option.ne_none_iff_exists'] at hall
    obtain ⟨⟨a, hoa⟩, ⟨b, hob⟩, ⟨k, rfl⟩⟩ := hall
    exact nomatch hnone.unique (hpresent hoa hob hd)
  · cases hoa : oa with
    | none => exact habsent (.inl hoa)
    | some a =>
      cases hob : ob with
      | none => exact habsent (.inr hob)
      | some b =>
        have hod : od = none := by simpa [hoa, hob] using h
        have := hpresent hoa hob hd
        rwa [hod] at this
  · rintro a b k hoa hob rfl hfits
    exact ⟨p.holds a b k, hpresent hoa hob hd, p.holds_iff hfits, p.holds_iff_relates hfits⟩

/-- Two tasks, one of which starts where the other one ends, and later than long before it starts. -/
def delayed : List Call :=
  [.intervalVar ⟨.none, none, none⟩, .intervalVar ⟨.none, none, none⟩,
    .intVar ⟨none, none, none, none⟩, .precedence ⟨true, false, true⟩ ⟨0, 0⟩ ⟨0, 1⟩ (.node ⟨0, 2⟩),
    .precedence ⟨false, false, false⟩ ⟨0, 0⟩ ⟨0, 1⟩ (.const (-9223372036854775808))]

/-- The second task starts at once when the first one ends. -/
def delayedSolution : Solution :=
  ((Solution.empty.set ⟨0, 0⟩ (.interval (-1) 0)).set ⟨0, 1⟩ (.interval 0 1)).set ⟨0, 2⟩ (.int 0)

theorem precedence_verdict_delayed :
    ((empty 0 none).calls delayed).Verdict delayedSolution ⟨0, 3⟩ (some true) := by
  have hm : ((empty 0 none).calls delayed).Obtained := (Obtained.empty 0 none).calls delayed
  obtain ⟨n, hn, ho, hx, hy, hdelay⟩ : ∃ n, ((empty 0 none).calls delayed).node? ⟨0, 3⟩ = some n ∧
      n.operator = .precedence ⟨true, false, true⟩ ∧ n.args[0]? = some (.node ⟨0, 0⟩) ∧
      n.args[1]? = some (.node ⟨0, 1⟩) ∧ n.delay = .node ⟨0, 2⟩ := ⟨_, rfl, rfl, rfl, rfl, rfl⟩
  have hfirst : ((empty 0 none).calls delayed).Reads delayedSolution Value.interval?
      (.node ⟨0, 0⟩) (some (-1, 0)) := ⟨.interval (-1) 0, by decide +kernel, rfl⟩
  have hsecond : ((empty 0 none).calls delayed).Reads delayedSolution Value.interval?
      (.node ⟨0, 1⟩) (some (0, 1)) := ⟨.interval 0 1, by decide +kernel, rfl⟩
  obtain ⟨-, hverdict⟩ := precedence_verdict hm hn ho hx hy hfirst hsecond
  rw [hdelay] at hverdict
  obtain ⟨-, hpresent⟩ := hverdict (some 0) ⟨.int 0, by decide +kernel, rfl⟩
  obtain ⟨v, hv, hiff, -⟩ := hpresent (-1, 0) (0, 1) 0 rfl rfl rfl (by decide)
  obtain rfl : v = true := hiff.2 (by decide)
  exact hv

/-- The delay moves the start of the first task far before that of the second one, and below all
integers of 64 bits: the order fails. -/
theorem early_start_too_late :
    let m := (empty 0 none).calls delayed
    (m.node? ⟨0, 4⟩).map (fun n => (n.operator, n.args)) = some
      (.precedence ⟨false, false, false⟩, [.node ⟨0, 0⟩, .node ⟨0, 1⟩, .int intMin]) ∧
    (⟨false, false, false⟩ : Precedence).Relates (-1, 0) (0, 1) intMin ∧
    m.Verdict delayedSolution ⟨0, 4⟩ (some false) ∧
    m.verify delayedSolution = .error (.violated ⟨0, 4⟩ (.precedence ⟨false, false, false⟩)) := by
  exact ⟨rfl, by decide, ⟨by decide +kernel, by decide +kernel⟩, by decide +kernel⟩

end Model

end Scheduling
