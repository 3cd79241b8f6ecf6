import Scheduling.Proofs.Record.Reachable
import Scheduling.Proofs.Replay.Calls

/-!
# Calls that fail

A call that fails leaves constants at most that nobody uses (`Tracks.failed`). The same calls
without the failed ones, with the names of nodes translated, therefore return the same nodes and
lead to the same record (`failed_calls_invisible`).
-/

namespace Scheduling

theorem Call.nodes_rename (f : NodeId → NodeId) (c : Call) :
    (c.rename f).nodes = c.nodes.map f := by
  have hint (a : IntOperand) : (a.rename f).nodes = a.nodes.map f := by cases a <;> rfl
  have hfloat (a : FloatOperand) : (a.rename f).nodes = a.nodes.map f := by cases a <;> rfl
  have hbool (a : BoolOperand) : (a.rename f).nodes = a.nodes.map f := by cases a <;> rfl
  cases c <;> simp [rename, nodes, hint, hfloat, hbool, List.flatMap_map, List.map_flatMap]

namespace Model

variable {m m' m₁ : Model} {x : NodeId} {n n' : Node} {f g : NodeId → NodeId} {cs : List Call}
  {returned : List NodeId}

/-! ### Runs without the calls that fail -/

/-- The calls that succeed. -/
def succeeding (m : Model) : List Call → List Call
  | [] => []
  | c :: cs =>
    if (m.call c).1.isOk then c :: (m.call c).2.succeeding cs else (m.call c).2.succeeding cs

/-- The node that a call returned. -/
def handle : Except ModelError (Option NodeId) → List NodeId
  | .ok (some id) => [id]
  | _ => []

/-- The nodes that a client knows: those that calls returned, those that can be reached, and the
operands of these. All others are constants that nobody uses (`known_or_unused`). -/
inductive Known (m : Model) (returned : List NodeId) : NodeId → Prop where
  | returned {id : NodeId} : id ∈ returned → Known m returned id
  | reachable {id : NodeId} : m.Reachable id → Known m returned id
  | operand {id x : NodeId} {n : Node} : Known m returned id → m.node? id = some n →
      x ∈ n.operands → Known m returned x

/-- The calls that succeed name known nodes only. What a failed call has left and nobody uses does
not exist in the run without that call, so there is no name to translate it to. -/
def Handled (m : Model) (returned : List NodeId) : List Call → Prop
  | [] => True
  | c :: cs =>
    ((m.call c).1.isOk → ∀ id ∈ c.nodes, m.Known returned id) ∧
      (m.call c).2.Handled (handle (m.call c).1 ++ returned) cs

/-! ### What is known -/

/-- The nodes that calls return, those of later calls first. -/
def returns (m : Model) (returned : List NodeId) : List Call → List NodeId
  | [] => returned
  | c :: cs => (m.call c).2.returns (handle (m.call c).1 ++ returned) cs

/-- All nodes but constants have been returned. -/
def Handed (m : Model) (returned : List NodeId) : Prop :=
  ∀ id n, m.node? id = some n → n.operator.isConstant = false → id ∈ returned

/-- A node of the model after a step is one of the model before, or the one that is returned. -/
theorem has_of_apply {v : Move} (hx : (v.apply m).Has x) : m.Has x ∨ v.result m = some x := by
  cases v with
  | add n =>
    obtain ⟨ht, -, -, hs, -⟩ := extend_frame (m := m) (n := n)
    obtain ⟨htag, hi⟩ : x.model = (m.extend n).tag ∧ x.index < (m.extend n).nodes.size := hx
    by_cases hlt : x.index < m.nodes.size
    · exact .inl ⟨htag.trans ht, hlt⟩
    · have hlast : m.nodes.size = x.index := by omega
      refine .inr (congrArg some ?_)
      rw [hlast, idAt, ← htag.trans ht]
  | post id =>
    obtain ⟨ht, -, -, -, hs⟩ := use_frame { m with topLevel := m.topLevel.push id } id
    exact .inl ⟨hx.1.trans ht, hs ▸ hx.2⟩
  | optimize sense expr =>
    exact .inl ⟨hx.1.trans materialize_tag, lt_of_lt_of_eq hx.2 size_materialize⟩
  | nameNode id name =>
    exact .inl ⟨hx.1.trans materialize_tag,
      lt_of_lt_of_eq hx.2 (size_materialize.trans (size_modify _))⟩
  | _ => exact .inl hx

theorem Handed.prepared (h : m.Handed returned) (hp : Prepared m m₁) : m₁.Handed returned := by
  induction hp with
  | refl => exact h
  | push l _ _ _ ih =>
    intro id n hn ho
    rw [node?_push] at hn
    split at hn
    · obtain rfl := Option.some.inj hn
      cases l <;> cases ho
    · exact ih id n hn ho

theorem Handed.call (h : m.Handed returned) (c : Call) :
    (m.call c).2.Handed (handle (m.call c).1 ++ returned) := by
  obtain ⟨m₁, hp, ⟨v, hc, -⟩ | ⟨e, hc⟩⟩ := m.call_cases c
  · have hc : m.call c = (.ok (v.result m₁), v.apply m₁) := hc
    rw [hc]
    intro id n hn ho
    obtain hid | hnew := has_of_apply (has_of_node? hn)
    · obtain ⟨n₁, hn₁⟩ := hid.exists_node
      obtain ⟨n', hn', hcore⟩ := (keeps_apply v).node? hn₁
      obtain rfl := Option.some.inj (hn.symm.trans hn')
      rw [Node.operator_eq_of_core hcore] at ho
      exact List.mem_append_right _ (h.prepared hp id n₁ hn₁ ho)
    · rw [hnew]
      exact List.mem_append_left _ (List.mem_singleton_self id)
  · have hc : m.call c = (.error e, m₁) := hc
    rw [hc]
    exact fun id n hn ho => List.mem_append_right _ (h.prepared hp id n hn ho)

theorem Handed.calls (h : m.Handed returned) (cs : List Call) :
    (m.calls cs).Handed (m.returns returned cs) := by
  induction cs generalizing m returned with
  | nil => exact h
  | cons c cs ih => exact ih (h.call c)

/-- A node that is used stands among the constraints or the operands of a node. -/
theorem exists_user (h : Sound m) (hn : m.node? x = some n) (hu : n.uses ≠ 0) :
    x ∈ m.topLevel.toList ∨ ∃ p np, m.node? p = some np ∧ x ∈ np.operands := by
  have huses := h.counted.uses (node?_eq_some.1 hn).2
  rw [← (has_of_node? hn).eq_idAt, List.count_nil] at huses
  by_cases htop : x ∈ m.topLevel.toList
  · exact .inl htop
  · have hsum : (m.nodes.toList.map fun n => n.operands.count x).sum ≠ 0 := by
      rw [occurrences, List.count_eq_zero.2 htop] at huses
      omega
    obtain ⟨c, hc, hpos⟩ : ∃ c ∈ m.nodes.toList.map fun n => n.operands.count x, c ≠ 0 := by
      by_contra hall
      refine hsum (List.sum_eq_zero_iff_forall_eq_nat.2 fun c hc => ?_)
      exact by_contra fun hpos => hall ⟨c, hc, hpos⟩
    obtain ⟨np, hnp, rfl⟩ := List.mem_map.1 hc
    obtain ⟨i, hi⟩ := List.mem_iff_getElem?.1 hnp
    rw [Array.getElem?_toList] at hi
    refine .inr ⟨m.idAt i, np, by rw [node?_idAt, hi], ?_⟩
    exact List.count_pos_iff.1 (Nat.pos_of_ne_zero hpos)

/-- All that is not known are constants that nobody uses. -/
theorem known_or_unused (tag : Nat) (name : Option String) (cs : List Call)
    (hn : ((empty tag name).calls cs).node? x = some n) :
    ((empty tag name).calls cs).Known ((empty tag name).returns [] cs) x ∨
      n.operator.isConstant ∧ n.uses = 0 ∧ n.ref = none := by
  have hb := built_calls tag name cs
  have hstart : (empty tag name).Handed [] := fun id n hn => by simp [node?, Model.empty] at hn
  have hh := hstart.calls cs
  by_cases ho : n.operator.isConstant
  · cases hr : n.ref with
    | some r =>
      have hslot := (hb.numbered r x).2 (ref?_eq_some.2 ⟨n, hn, hr⟩)
      rw [← Array.getElem?_toList] at hslot
      exact .inl (.reachable (.ref (List.mem_of_getElem? hslot)))
    | none =>
      by_cases hu : n.uses = 0
      · exact .inr ⟨ho, hu, rfl⟩
      · obtain htop | ⟨p, np, hp, hx⟩ := exists_user hb.toSound hn hu
        · exact .inl (.reachable (.topLevel htop))
        · -- Constants have no operands, so the user is a node that a call returned.
          refine .inl (.operand (.returned (hh p np hp ?_)) hp hx)
          by_contra hconst
          obtain ⟨l, -, hargs⟩ := hb.exists_literal (node?_eq_some.1 hp).2 (by simpa using hconst)
          rw [Node.operands, hargs] at hx
          cases l <;> cases hx
  · exact .inl (.returned (hh x n hn (by simpa using ho)))

/-! ### Calls on models that match -/

/-- The node that a call returns is one of the model. -/
theorem call_has {c : Call} (h : (m.call c).1 = .ok (some x)) : (m.call c).2.Has x := by
  obtain ⟨m', -, ⟨v, he, hv, -⟩ | ⟨e, he⟩⟩ := m.call_cases c
  · have he : m.call c = (.ok (v.result m'), v.apply m') := he
    rw [he] at h ⊢
    have hx : v.result m' = some x := Except.ok.inj h
    cases v with
    | constant l =>
      obtain ⟨n, hn, -⟩ := isConst_of_constant? hx
      exact has_of_node? hn
    | add n =>
      obtain rfl := Option.some.inj hx
      refine grows_extend.has ?_
      exact ⟨rfl, by simp [idAt]⟩
    | _ => cases hx
  · have he : m.call c = (.error e, m') := he
    rw [he] at h
    cases h

/-- A call that fails on one side leaves constants to spare. -/
theorem Matches.prepared (h : Matches f m' m) (hp : Prepared m m₁) : Matches f m' m₁ := by
  induction hp with
  | refl => exact h
  | @push m₁ l _ _ _ ih =>
    refine ⟨fun id n' hn' => ?_, ih.injective, fun id n hn hfree => ?_, ih.name, ih.refs,
      ih.topLevel, ih.objective⟩
    · obtain ⟨n, hn, htwin⟩ := ih.node id n' hn'
      refine ⟨n, ?_, htwin⟩
      rw [node?_push, if_neg (ne_idAt_size (has_of_node? hn)), hn]
    · rw [node?_push] at hn
      split at hn
      · exact ⟨l, (Option.some.inj hn).symm⟩
      · exact ih.spare id n hn hfree

/-- A call that fails has built constants at most. -/
theorem prepared_of_error {c : Call} {e : ModelError} (h : (m.call c).1 = .error e) :
    Prepared m (m.call c).2 := by
  obtain ⟨m₁, hp, ⟨v, hc, -⟩ | ⟨e', hc⟩⟩ := m.call_cases c
  · have hc : m.call c = (.ok (v.result m₁), v.apply m₁) := hc
    rw [hc] at h
    cases h
  · have hc : m.call c = (.error e', m₁) := hc
    rw [hc]
    exact hp

theorem Tracks.failed (h : Tracks f m' m) {c : Call} {e : ModelError}
    (he : (m.call c).1 = .error e) : Tracks f m' (m.call c).2 := by
  obtain ⟨asked, sent, hb⟩ := h.built
  have hp := prepared_of_error he
  exact ⟨h.toMatches.prepared hp, h.sound, _, _, hb.prepared hp⟩

/-- Known nodes have an origin. -/
theorem Tracks.origin (h : Tracks f m' m) (hret : ∀ id ∈ returned, ∃ x, m'.Has x ∧ f x = id)
    {id : NodeId} (hid : m.Known returned id) : ∃ x, m'.Has x ∧ f x = id := by
  induction hid with
  | returned hid => exact hret _ hid
  | reachable hid =>
    obtain ⟨x, hx, rfl⟩ := h.toMatches.covers.exists_reachable h.sound hid
    exact ⟨x, hx.has h.sound, rfl⟩
  | operand _ hn hx ih =>
    obtain ⟨y, hy, rfl⟩ := ih
    obtain ⟨n', hn'⟩ := hy.exists_node
    rw [h.toMatches.covers.operands hn' hn] at hx
    obtain ⟨z, hz, rfl⟩ := List.mem_map.1 hx
    exact ⟨z, (h.sound.operand hn' hz).1, rfl⟩

/-- The step of a run: a call that succeeds is repeated on a model that matches, with the nodes that
it names translated back. -/
theorem Tracks.repeated (h : Tracks f m' m) {c : Call} {r : Option NodeId}
    (horigin : ∀ id ∈ c.nodes, ∃ x, m'.Has x ∧ f x = id) (hr : (m.call c).1 = .ok r) :
    ∃ k f₁ r', (∀ id ∈ c.nodes, m'.Has (k id) ∧ f (k id) = id) ∧
      Later f m' m f₁ (m'.call (c.rename k)).2 (m.call c).2 ∧
      Tracks f₁ (m'.call (c.rename k)).2 (m.call c).2 ∧
      (m'.call (c.rename k)).1 = .ok r' ∧ r = r'.map f₁ := by
  choose! k hk using horigin
  have hback : (c.rename k).rename f = c := Call.rename_rename_self fun id hid => (hk id hid).2
  have hnames : ∀ x ∈ (c.rename k).nodes, Named f m' m x (f x) := by
    rw [Call.nodes_rename, List.forall_mem_map]
    exact fun id hid => ⟨rfl, .inl (hk id hid).1⟩
  obtain ⟨f₁, hl, ht, hout⟩ := h.call (c.rename k) hnames
  rw [hback] at hl ht
  rw [hback, hr] at hout
  cases hr' : (m'.call (c.rename k)).1 with
  | ok r' =>
    rw [hr'] at hout
    exact ⟨k, f₁, r', hk, hl, ht, hr', Except.ok.inj hout⟩
  | error e =>
    rw [hr'] at hout
    cases hout

/-- What calls have returned still has an origin after another one. -/
theorem Later.origin {f₁ : NodeId → NodeId} {m₁' m₁ : Model} {r' : Option NodeId}
    (hl : Later f m' m f₁ m₁' m₁) (hhas : ∀ x ∈ r', m₁'.Has x)
    (hret : ∀ id ∈ returned, ∃ x, m'.Has x ∧ f x = id) :
    ∀ id ∈ handle (.ok (r'.map f₁)) ++ returned, ∃ x, m₁'.Has x ∧ f₁ x = id := by
  intro id hid
  rcases List.mem_append.1 hid with hid | hid
  · cases r' with
    | none => cases hid
    | some x =>
      obtain rfl := List.mem_singleton.1 hid
      exact ⟨x, hhas x rfl, rfl⟩
  · obtain ⟨x, hx, rfl⟩ := hret id hid
    exact ⟨x, hl.has x hx, hl.eq x hx⟩

/-- The run: next to the calls, those that succeed are repeated on a model that matches. -/
theorem Tracks.rerun (h : Tracks f m' m) (hret : ∀ id ∈ returned, ∃ x, m'.Has x ∧ f x = id)
    (hh : m.Handled returned cs) :
    ∃ f₁ m₁', (∀ x, m'.Has x → m₁'.Has x ∧ f₁ x = f x) ∧ Tracks f₁ m₁' (m.calls cs) ∧
      ∀ g : NodeId → NodeId, (∀ x, m₁'.Has x → g (f₁ x) = x) →
        m'.calls ((m.succeeding cs).map (·.rename g)) = m₁' ∧
        m'.outcomes ((m.succeeding cs).map (·.rename g)) =
          ((m.outcomes cs).filter (·.isOk)).map (renameOutcome g) := by
  -- Later calls extend the map, so its inverse `g` is only chosen when all calls are made.
  induction cs generalizing f m' m returned with
  | nil => exact ⟨f, m', fun x hx => ⟨hx, rfl⟩, h, fun g _ => ⟨rfl, rfl⟩⟩
  | cons c cs ih =>
    obtain ⟨hknown, hh⟩ := hh
    cases hr : (m.call c).1 with
    | error e =>
      rw [hr] at hh
      obtain ⟨f₁, m₁', hl, ht, hg⟩ := ih (h.failed hr) hret hh
      refine ⟨f₁, m₁', hl, ht, fun g hinv => ?_⟩
      have hskip : m.succeeding (c :: cs) = (m.call c).2.succeeding cs := by
        simp [succeeding, hr, Except.isOk, Except.toBool]
      have hout : (m.outcomes (c :: cs)).filter (·.isOk) =
          ((m.call c).2.outcomes cs).filter (·.isOk) := by
        simp [outcomes, hr, Except.isOk, Except.toBool]
      rw [hskip, hout]
      exact hg g hinv
    | ok r =>
      have horigin : ∀ id ∈ c.nodes, ∃ x, m'.Has x ∧ f x = id :=
        fun id hid => h.origin hret (hknown (by rw [hr]; rfl) id hid)
      obtain ⟨k, f₁, r', hk, hl, ht, hr', rfl⟩ := h.repeated horigin hr
      have hhas : ∀ x ∈ r', (m'.call (c.rename k)).2.Has x := by
        rintro x rfl
        exact call_has hr'
      rw [hr] at hh
      obtain ⟨f₂, m₂', hl₂, ht₂, hg⟩ := ih ht (hl.origin hhas hret) hh
      refine ⟨f₂, m₂', fun x hx => ?_, ht₂, fun g hinv => ?_⟩
      · obtain ⟨hx₂, he⟩ := hl₂ x (hl.has x hx)
        exact ⟨hx₂, he.trans (hl.eq x hx)⟩
      · obtain ⟨hcalls, houtcomes⟩ := hg g hinv
        have hundo : ∀ x, (m'.call (c.rename k)).2.Has x → g (f₁ x) = x := by
          intro x hx
          obtain ⟨hx₂, he⟩ := hl₂ x hx
          rw [← he]
          exact hinv x hx₂
        have hname : c.rename g = c.rename k := by
          refine Call.rename_congr fun id hid => ?_
          obtain ⟨hx, he⟩ := hk id hid
          rw [← hundo (k id) (hl.has _ hx), hl.eq _ hx, he]
        have hkeep : m.succeeding (c :: cs) = c :: (m.call c).2.succeeding cs := by
          simp [succeeding, hr, Except.isOk, Except.toBool]
        have hkept : (m.outcomes (c :: cs)).filter (·.isOk) =
            .ok (r'.map f₁) :: ((m.call c).2.outcomes cs).filter (·.isOk) := by
          simp [outcomes, hr, Except.isOk, Except.toBool]
        have hresult : renameOutcome g (.ok (r'.map f₁)) = .ok r' := by
          cases r' with
          | none => rfl
          | some x => simp [renameOutcome, hundo x (hhas x rfl)]
        rw [hkeep, hkept, List.map_cons, List.map_cons, hname, hresult, outcomes, hr', houtcomes]
        exact ⟨hcalls, rfl⟩

theorem Prepared.eq_append (h : Prepared m m₁) :
    ∃ ls : List Literal, m₁ = { m with nodes := m.nodes ++ (ls.map Literal.node).toArray } := by
  induction h with
  | refl => exact ⟨[], by simp⟩
  | push l _ _ _ ih =>
    obtain ⟨ls, rfl⟩ := ih
    exact ⟨ls ++ [l], by simp [Model.push]⟩

/-- What a call that fails has done: it has built constants at most. -/
theorem call_failed {c : Call} {e : ModelError} (h : (m.call c).1 = .error e) :
    ∃ ls : List Literal,
      (m.call c).2 = { m with nodes := m.nodes ++ (ls.map Literal.node).toArray } :=
  (prepared_of_error h).eq_append

/-- Calls that fail are invisible. A call that fails leaves all but the nodes of the model as it is,
and adds constants at most that nobody uses. And when the calls of a run that succeed name known
nodes, they do the same without the failed ones: with the names of nodes translated, each of them
succeeds and returns the node that matches the one that it returned, what the two models hold
matches but for unused constants, and their records are equal. -/
theorem failed_calls_invisible (tag : Nat) (name : Option String) (cs : List Call)
    (h : (empty tag name).Handled [] cs) :
    (∃ f g : NodeId → NodeId,
      let all := (empty tag name).calls cs
      let kept := ((empty tag name).succeeding cs).map (·.rename g)
      let clean := (empty tag name).calls kept
      (empty tag name).outcomes kept =
        (((empty tag name).outcomes cs).filter (·.isOk)).map (renameOutcome g) ∧
      Matches f clean all ∧ (∀ id, clean.Has id → g (f id) = id) ∧
      ∃ r, all.record = .ok r ∧ clean.record = .ok r) ∧
    ∀ (m : Model) (c : Call) (e : ModelError), (m.call c).1 = .error e →
      ∃ ls : List Literal,
        (m.call c).2 = { m with nodes := m.nodes ++ (ls.map Literal.node).toArray } := by
  refine ⟨?_, fun m c e he => call_failed he⟩
  have hstart : Tracks id (empty tag name) (empty tag name) :=
    ⟨.empty id tag name, sound_empty tag name, _, _, built_empty tag name⟩
  obtain ⟨f, m', -, ht, hg⟩ := hstart.rerun (fun _ hid => (List.not_mem_nil hid).elim) h
  -- The map is undone by its inverse on the nodes that it maps.
  have : Nonempty NodeId := ⟨⟨tag, 0⟩⟩
  let g : NodeId → NodeId := Function.invFunOn f {x | m'.Has x}
  have hinj : Set.InjOn f {x | m'.Has x} := fun a ha b hb hab => ht.injective a b ha hb hab
  have hinv : ∀ x, m'.Has x → g (f x) = x := fun x hx => hinj.leftInvOn_invFunOn hx
  obtain ⟨hcalls, houtcomes⟩ := hg g hinv
  obtain ⟨r, hr, -⟩ := exists_record ((sound_empty tag name).calls cs)
  refine ⟨f, g, houtcomes, ?_, ?_, r, hr, ?_⟩
  · rw [hcalls]
    exact ht.toMatches
  · rw [hcalls]
    exact hinv
  · rw [hcalls, ht.toMatches.covers.record_eq ht.sound ((sound_empty tag name).calls cs), hr]

/-- The second call fails and leaves a constant, which later calls find and use. -/
def leftover : List Call := [
  .intVar ⟨none, none, none, some "x"⟩,
  .int .plus (.const 5) (.node ⟨0, 9⟩),
  .intVar ⟨none, none, none, some "y"⟩,
  .int .plus (.node ⟨0, 2⟩) (.const 5),
  .compare .le (.node ⟨0, 3⟩) (.node ⟨0, 1⟩),
  .constraint (.node ⟨0, 4⟩)]

theorem failed_calls_invisible_leftover :
    (empty 0 none).Handled [] leftover ∧
    (∃ f g : NodeId → NodeId,
      let all := (empty 0 none).calls leftover
      let kept := ((empty 0 none).succeeding leftover).map (·.rename g)
      let clean := (empty 0 none).calls kept
      (empty 0 none).outcomes kept =
        (((empty 0 none).outcomes leftover).filter (·.isOk)).map (renameOutcome g) ∧
      Matches f clean all ∧ (∀ id, clean.Has id → g (f id) = id) ∧
      ∃ r, all.record = .ok r ∧ clean.record = .ok r) ∧
    ∀ (m : Model) (c : Call) (e : ModelError), (m.call c).1 = .error e →
      ∃ ls : List Literal,
        (m.call c).2 = { m with nodes := m.nodes ++ (ls.map Literal.node).toArray } := by
  have h : (empty 0 none).Handled [] leftover := by
    refine ⟨fun _ => by simp [Call.nodes], fun hok => absurd hok (by decide +kernel), ?_⟩
    refine ⟨fun _ => by simp [Call.nodes], fun _ x hx => ?_, fun _ x hx => ?_, fun _ x hx => ?_,
      trivial⟩
    · obtain rfl := List.mem_singleton.1 hx
      exact .returned (by decide +kernel)
    · rcases List.mem_cons.1 hx with rfl | hx
      · exact .returned (by decide +kernel)
      · obtain rfl := List.mem_singleton.1 hx
        -- The constant is known as an operand of the sum.
        have hsum : (((empty 0 none).calls (leftover.take 4)).node? ⟨0, 3⟩).map Node.operands =
            some [⟨0, 2⟩, ⟨0, 1⟩] := by decide +kernel
        obtain ⟨n, hn, hops⟩ := Option.map_eq_some_iff.1 hsum
        exact .operand (.returned (by decide +kernel)) hn (by rw [hops]; decide)
    · obtain rfl := List.mem_singleton.1 hx
      exact .returned (by decide +kernel)
  exact ⟨h, failed_calls_invisible 0 none leftover h⟩

end Model

end Scheduling
