import Scheduling.Proofs.Arena.History
import Scheduling.Proofs.Floats
import Scheduling.Proofs.Replay.Matches
import Scheduling.Proofs.Replay.Rename

/-!
# Calls on models that match

The same call on two models that match, with its nodes renamed, succeeds on both or fails on both,
returns matching nodes or the renamed error, and leaves models that match (`Tracks.call`). The map
of the nodes only grows; when every node has an origin and the next nodes are mapped to each other
(`Exact`), it does not change at all.
-/

namespace Scheduling

/-! ### Literals -/

namespace Literal

variable {l l' : Literal} {f : NodeId → NodeId} {n n' : Node}

theorem eq_of_is_node (h : l.is l'.node) : l = l' := by
  cases l <;> cases l' <;>
    simp_all [is, node, operator, arg, Node.plain, Node.fresh, Node.isIntConst, Node.isFloatConst,
      Node.isBoolConst, toBits_injective.eq_iff]

theorem is_of_copy (h : n'.Copy f n) : l.is n = l.is n' := by
  have hargs := h.args
  have hop := h.operator
  cases hn : n'.args with
  | nil =>
    rw [hn] at hargs
    cases l <;> simp [is, Node.isIntConst, Node.isFloatConst, Node.isBoolConst, hop, hargs, hn,
      Arg.renameAll]
  | cons a rest =>
    rw [hn] at hargs
    cases l <;> cases a <;> simp [is, Node.isIntConst, Node.isFloatConst, Node.isBoolConst, hop,
      hargs, hn, Arg.renameAll, Arg.rename] <;> cases n'.operator <;> rfl

theorem twin_node (f : NodeId → NodeId) (l : Literal) : l.node.Twin f l.node := by
  cases l <;> exact ⟨⟨rfl, rfl, rfl⟩, rfl, rfl⟩

end Literal

namespace Model

variable {m m' m₁ m₁' m₂ m₂' : Model} {f f₁ f₂ g : NodeId → NodeId} {x y : NodeId} {n n' : Node}

/-- Models that match, one of which calls have built. -/
structure Tracks (f : NodeId → NodeId) (m' m : Model) : Prop extends Matches f m' m where
  sound : Sound m'
  built : ∃ asked sent, Built m asked sent

/-- Every node has an origin, and nodes that are built at the same time are mapped to each other. -/
structure Exact (f : NodeId → NodeId) (m' m : Model) : Prop where
  size : m'.nodes.size = m.nodes.size
  injective : Function.Injective f
  onto : ∀ y, m.Has y → ∃ x, m'.Has x ∧ f x = y
  next : ∀ i, m'.nodes.size ≤ i → f (m'.idAt i) = m.idAt i

theorem Exact.congr (h : Exact f m' m) (ht' : m₁'.tag = m'.tag) (ht : m₁.tag = m.tag)
    (hs' : m₁'.nodes.size = m'.nodes.size) (hs : m₁.nodes.size = m.nodes.size) :
    Exact f m₁' m₁ := by
  refine ⟨by rw [hs', hs, h.size], h.injective, fun y hy => ?_, fun i hi => ?_⟩
  · obtain ⟨x, hx, rfl⟩ := h.onto y ⟨hy.1.trans ht, hs ▸ hy.2⟩
    exact ⟨x, ⟨hx.1.trans ht'.symm, hs' ▸ hx.2⟩, rfl⟩
  · rw [idAt, idAt, ht', ht]
    exact h.next i (hs' ▸ hi)

/-- A node joins on both sides. -/
theorem Exact.push (h : Exact f m' m) (ht' : m₁'.tag = m'.tag) (ht : m₁.tag = m.tag)
    (hs' : m₁'.nodes.size = m'.nodes.size + 1) (hs : m₁.nodes.size = m.nodes.size + 1) :
    Exact f m₁' m₁ := by
  have hsize := h.size
  refine ⟨by omega, h.injective, fun y hy => ?_, fun i hi => ?_⟩
  · by_cases hlast : y.index < m.nodes.size
    · obtain ⟨x, hx, rfl⟩ := h.onto y ⟨hy.1.trans ht, hlast⟩
      exact ⟨x, ⟨hx.1.trans ht'.symm, by have := hx.2; omega⟩, rfl⟩
    · have hi : y = m.idAt m'.nodes.size := by
        obtain ⟨k, i⟩ := y
        obtain ⟨hk, hi⟩ := hy
        simp only at hk hi hlast
        simp only [idAt, NodeId.mk.injEq]
        exact ⟨hk.trans ht, by omega⟩
      refine ⟨m'.idAt m'.nodes.size, ⟨ht'.symm, ?_⟩, ?_⟩
      · simp only [idAt]
        omega
      · rw [h.next _ (Nat.le_refl _), hi]
  · rw [idAt, idAt, ht', ht]
    exact h.next i (by omega)

theorem Exact.has_iff (h : Exact f m' m) (hm : Matches f m' m) : m.Has (f x) ↔ m'.Has x := by
  refine ⟨fun hx => ?_, hm.has⟩
  obtain ⟨x', hx', he⟩ := h.onto _ hx
  exact h.injective he ▸ hx'

/-- Two models and the map between them after further steps on both. -/
structure Later (f : NodeId → NodeId) (m' m : Model) (f₁ : NodeId → NodeId) (m₁' m₁ : Model) :
    Prop where
  has : ∀ x, m'.Has x → m₁'.Has x
  eq : ∀ x, m'.Has x → f₁ x = f x
  exact : Exact f m' m → f₁ = f ∧ Exact f m₁' m₁

namespace Later

theorem refl (f : NodeId → NodeId) (m' m : Model) : Later f m' m f m' m :=
  ⟨fun _ h => h, fun _ _ => rfl, fun h => ⟨rfl, h⟩⟩

theorem trans (h : Later f m' m f₁ m₁' m₁) (h' : Later f₁ m₁' m₁ f₂ m₂' m₂) :
    Later f m' m f₂ m₂' m₂ := by
  refine ⟨fun x hx => h'.has x (h.has x hx), fun x hx => ?_, fun he => ?_⟩
  · rw [h'.eq x (h.has x hx), h.eq x hx]
  · obtain ⟨rfl, he₁⟩ := h.exact he
    exact h'.exact he₁

/-- No node joined. -/
theorem same (ht' : m₁'.tag = m'.tag) (ht : m₁.tag = m.tag)
    (hs' : m₁'.nodes.size = m'.nodes.size) (hs : m₁.nodes.size = m.nodes.size) :
    Later f m' m f m₁' m₁ :=
  ⟨fun _ hx => ⟨hx.1.trans ht'.symm, hs' ▸ hx.2⟩, fun _ _ => rfl,
    fun he => ⟨rfl, he.congr ht' ht hs' hs⟩⟩

/-- One node joined on each side. -/
theorem pushed (ht' : m₁'.tag = m'.tag) (ht : m₁.tag = m.tag)
    (hs' : m₁'.nodes.size = m'.nodes.size + 1) (hs : m₁.nodes.size = m.nodes.size + 1) :
    Later f m' m (Function.update f (m'.idAt m'.nodes.size) (m.idAt m.nodes.size)) m₁' m₁ := by
  refine ⟨fun x hx => ⟨hx.1.trans ht'.symm, ?_⟩, fun x hx => ?_, fun he => ⟨?_, ?_⟩⟩
  · have := hx.2
    omega
  · exact Function.update_of_ne (ne_idAt_size hx) ..
  · rw [Function.update_eq_self_iff, he.next _ (Nat.le_refl _), he.size]
  · exact he.push ht' ht hs' hs

end Later

/-- A node that is called by its name on both sides. On one side it need not exist when the map is
right for all names. -/
def Named (f : NodeId → NodeId) (m' m : Model) (x y : NodeId) : Prop :=
  y = f x ∧ (m'.Has x ∨ Exact f m' m)

theorem Named.later (h : Named f m' m x y) (hl : Later f m' m f₁ m₁' m₁) :
    Named f₁ m₁' m₁ x y := by
  obtain ⟨rfl, hx | he⟩ := h
  · exact ⟨(hl.eq x hx).symm, .inl (hl.has x hx)⟩
  · obtain ⟨rfl, he₁⟩ := hl.exact he
    exact ⟨rfl, .inr he₁⟩

/-- A node and its image. -/
def Paired (f : NodeId → NodeId) (m' : Model) (x y : NodeId) : Prop := m'.Has x ∧ y = f x

theorem Paired.later (h : Paired f m' x y) (hl : Later f m' m f₁ m₁' m₁) : Paired f₁ m₁' x y :=
  ⟨hl.has x h.1, h.2.trans (hl.eq x h.1).symm⟩

end Model

namespace Building

open Model

variable {α β γ δ : Type} {m m' : Model} {f g : NodeId → NodeId} {x y : NodeId} {n n' : Node}
  {inv : (NodeId → NodeId) → Model → Model → Prop}

/-- Two steps of building on two models end alike: with results that are related or with errors that
are the same but for the names of nodes. -/
def Simulates (inv : (NodeId → NodeId) → Model → Model → Prop) (f : NodeId → NodeId)
    (m' m : Model) (s' : Building α) (s : Building β)
    (P : (NodeId → NodeId) → Model → α → β → Prop) : Prop :=
  ∃ f₁ m₁' m₁, Later f m' m f₁ m₁' m₁ ∧ inv f₁ m₁' m₁ ∧
    ((∃ a b, s' m' = (.ok a, m₁') ∧ s m = (.ok b, m₁) ∧ P f₁ m₁' a b) ∨
      ∃ e, s' m' = (.error e, m₁') ∧ s m = (.error (e.rename f₁), m₁))

/-- Steps that do not look at the model. -/
def Inert (s : Building α) : Prop :=
  ∃ r, (∀ m, s m = (r, m)) ∧ ∀ e f, r = .error e → ModelError.rename f e = e

namespace Inert

theorem pure (a : α) : Inert (pure a) := ⟨.ok a, fun _ => rfl, fun _ _ he => nomatch he⟩

theorem fail {e : ModelError} (he : ∀ f, e.rename f = e) :
    Inert (Building.fail e : Building α) := by
  refine ⟨.error e, fun _ => rfl, fun e' f he' => ?_⟩
  obtain rfl := Except.error.inj he'
  exact he f

theorem bind {s : Building α} {k : α → Building β} (hs : Inert s) (hk : ∀ a, Inert (k a)) :
    Inert (s >>= k) := by
  obtain ⟨r, hr, he⟩ := hs
  cases r with
  | error e =>
    refine ⟨.error e, fun m => by rw [bind_apply, hr], fun e' f he' => ?_⟩
    obtain rfl := Except.error.inj he'
    exact he e f rfl
  | ok a =>
    obtain ⟨r', hr', he'⟩ := hk a
    exact ⟨r', fun m => by rw [bind_apply, hr]; exact hr' m, he'⟩

theorem check {r : Except ModelError α} (h : ∀ e f, r = .error e → ModelError.rename f e = e) :
    Inert (check r) := ⟨r, fun m => check_apply r m, h⟩

theorem finite (what : String) (v : Float) : Inert (finite what v) := by
  unfold Building.finite
  split
  · exact pure v
  · exact fail fun _ => rfl

theorem checkLimit (what : String) (least greatest : Int) (bound : Option Int) :
    Inert (checkLimit what least greatest bound) := by
  unfold Building.checkLimit
  split
  · exact pure _
  · split
    · exact fail fun _ => rfl
    · exact pure _

theorem checkBounds (what : String) (low high : Option Int) (least greatest : Int) :
    Inert (checkBounds what low high least greatest) := by
  refine bind (checkLimit ..) fun _ => bind (checkLimit ..) fun _ => ?_
  split
  · split
    · exact fail fun _ => rfl
    · exact pure _
  · exact pure _

theorem checkFinite (what : String) (bound : Option Float) : Inert (checkFinite what bound) := by
  cases bound with
  | none => exact pure _
  | some v => exact bind (finite what v) fun _ => pure _

theorem checkTypes (intervals : Nat) (types : Option (List Int)) :
    Inert (checkTypes intervals types) := by
  unfold Building.checkTypes
  split
  · exact pure _
  · split
    · exact fail fun _ => rfl
    · split
      · exact fail fun _ => rfl
      · exact pure _

end Inert

/-- Errors about tables do not name nodes. -/
theorem rename_of_checkEntries {row col : Nat} {values : List Int} {e : ModelError}
    (h : checkEntries row col values = .error e) : e.rename f = e := by
  induction values generalizing col with
  | nil => exact nomatch h
  | cons v rest ih =>
    rw [checkEntries] at h
    split at h
    · obtain rfl := Except.error.inj h
      rfl
    · exact ih h

theorem rename_of_checkRows {size row : Nat} {rows : List (List Int)} {e : ModelError}
    (h : checkRows size row rows = .error e) : e.rename f = e := by
  induction rows generalizing row with
  | nil => exact nomatch h
  | cons values rest ih =>
    rw [checkRows] at h
    split at h
    · obtain rfl := Except.error.inj h
      rfl
    · split at h
      · exact ih h
      · rename_i he
        obtain rfl := Except.error.inj h
        exact rename_of_checkEntries he

theorem inert_checkTransitions (matrix : List (List Int)) (size : Nat) :
    Inert (check (checkTransitions matrix size)) := by
  refine .check fun e f h => ?_
  rw [checkTransitions] at h
  split at h
  · obtain rfl := Except.error.inj h
    rfl
  · exact rename_of_checkRows h

theorem rename_of_checkPointsAfter {previous : Option Int} {points : List (List Int)}
    {e : ModelError} (h : checkPointsAfter previous points = .error e) : e.rename f = e := by
  induction points generalizing previous with
  | nil => exact nomatch h
  | cons point rest ih =>
    unfold checkPointsAfter at h
    split at h
    · exact nomatch h
    · rename_i heq
      obtain ⟨rfl, rfl⟩ := List.cons.inj heq
      split at h
      · split at h
        · obtain rfl := Except.error.inj h
          rfl
        · exact ih h
      · exact ih h
    · obtain rfl := Except.error.inj h
      rfl

namespace Simulates

variable {P : (NodeId → NodeId) → Model → α → β → Prop}
  {Q : (NodeId → NodeId) → Model → γ → δ → Prop}

theorem pure {a : α} {b : β} (h : inv f m' m) (hab : P f m' a b) :
    Simulates inv f m' m (pure a) (pure b) P :=
  ⟨f, m', m, .refl .., h, .inl ⟨a, b, rfl, rfl, hab⟩⟩

theorem fail (h : inv f m' m) {e e' : ModelError} (he : e = e'.rename f) :
    Simulates inv f m' m (Building.fail e') (Building.fail e) P :=
  ⟨f, m', m, .refl .., h, .inr ⟨e', rfl, by rw [he]; rfl⟩⟩

theorem bind {s' : Building α} {s : Building β} {k' : α → Building γ} {k : β → Building δ}
    (hinv : ∀ f m' m, Tracks f m' m → inv f m' m) (hs : Simulates Tracks f m' m s' s P)
    (hk : ∀ f₁ m₁' m₁ a b, Later f m' m f₁ m₁' m₁ → Tracks f₁ m₁' m₁ → P f₁ m₁' a b →
      Simulates inv f₁ m₁' m₁ (k' a) (k b) Q) :
    Simulates inv f m' m (s' >>= k') (s >>= k) Q := by
  obtain ⟨f₁, m₁', m₁, hl, ht, ⟨a, b, hs', hs, hab⟩ | ⟨e, hs', hs⟩⟩ := hs
  · obtain ⟨f₂, m₂', m₂, hl', hi, h⟩ := hk f₁ m₁' m₁ a b hl ht hab
    refine ⟨f₂, m₂', m₂, hl.trans hl', hi, ?_⟩
    rwa [bind_apply, bind_apply, hs', hs]
  · refine ⟨f₁, m₁', m₁, hl, hinv f₁ m₁' m₁ ht, .inr ⟨e, ?_, ?_⟩⟩
    · rw [bind_apply, hs']
    · rw [bind_apply, hs]

/-- Steps before the last one. -/
theorem andThen {s' : Building α} {s : Building β} {k' : α → Building γ} {k : β → Building δ}
    (hs : Simulates Tracks f m' m s' s P)
    (hk : ∀ f₁ m₁' m₁ a b, Later f m' m f₁ m₁' m₁ → Tracks f₁ m₁' m₁ → P f₁ m₁' a b →
      Simulates Tracks f₁ m₁' m₁ (k' a) (k b) Q) :
    Simulates Tracks f m' m (s' >>= k') (s >>= k) Q :=
  bind (fun _ _ _ h => h) hs hk

/-- The last step. -/
theorem last {s' : Building α} {s : Building β} {k' : α → Building γ} {k : β → Building δ}
    (hs : Simulates Tracks f m' m s' s P)
    (hk : ∀ f₁ m₁' m₁ a b, Later f m' m f₁ m₁' m₁ → Tracks f₁ m₁' m₁ → P f₁ m₁' a b →
      Simulates Matches f₁ m₁' m₁ (k' a) (k b) Q) :
    Simulates Matches f m' m (s' >>= k') (s >>= k) Q :=
  bind (fun _ _ _ h => h.toMatches) hs hk

theorem inert {s : Building α} (hs : Inert s) (h : Tracks f m' m) :
    Simulates Tracks f m' m s s fun _ _ a b => a = b := by
  obtain ⟨r, hr, he⟩ := hs
  cases r with
  | ok a => exact ⟨f, m', m, .refl .., h, .inl ⟨a, a, hr m', hr m, rfl⟩⟩
  | error e => exact ⟨f, m', m, .refl .., h, .inr ⟨e, hr m', by rw [hr m, he e f rfl]⟩⟩

/-! ### Checks -/

theorem node (h : Tracks f m' m) (hx : Named f m' m x y) :
    Simulates Tracks f m' m (node x) (node y) fun f₁ m₁' n' n =>
      Paired f₁ m₁' x y ∧ n'.Twin f₁ n := by
  obtain ⟨rfl, hx⟩ := hx
  refine ⟨f, m', m, .refl .., h, ?_⟩
  rw [node_apply, node_apply]
  by_cases hhas : m'.Has x
  · obtain ⟨n', hn'⟩ := hhas.exists_node
    obtain ⟨n, hn, htwin⟩ := h.toMatches.node x n' hn'
    exact .inl ⟨n', n, by rw [node_eq_ok.2 hn'], by rw [node_eq_ok.2 hn], ⟨hhas, rfl⟩, htwin⟩
  · have he : Exact f m' m := hx.resolve_left hhas
    have hnone {k : Model} {z : NodeId} (hz : ¬ k.Has z) : k.node z = .error (.unknownNode z) := by
      unfold Model.node
      cases hk : k.node? z with
      | none => rfl
      | some n => exact (hz (has_of_node? hk)).elim
    refine .inr ⟨.unknownNode x, by rw [hnone hhas], ?_⟩
    rw [hnone fun hy => hhas ((he.has_iff h.toMatches).1 hy)]
    rfl

theorem expect (h : Tracks f m' m) (e : Expectation) (hx : Named f m' m x y) :
    Simulates Tracks f m' m (expect e x) (expect e y) fun f₁ m₁' _ _ => Paired f₁ m₁' x y := by
  refine andThen (node h hx) fun f₁ m₁' m₁ n' n hl ht hn => ?_
  have hkind : n.kind = n'.kind := congrArg Operator.kind hn.2.operator
  rw [hkind]
  split
  · exact pure ht hn.1
  · exact fail ht (by rw [hn.1.2]; rfl)

theorem expectAll (h : Tracks f m' m) (e : Expectation) {ids : List NodeId}
    (hids : ∀ x ∈ ids, Named f m' m x (g x)) :
    Simulates Tracks f m' m (expectAll e ids) (expectAll e (ids.map g)) fun f₁ m₁' _ _ =>
      ∀ x ∈ ids, Paired f₁ m₁' x (g x) := by
  induction ids generalizing f m' m with
  | nil => exact pure h (by simp)
  | cons x ids ih =>
    obtain ⟨hx, hids⟩ := List.forall_mem_cons.1 hids
    refine andThen (expect h e hx) fun f₁ m₁' m₁ _ _ hl ht hx₁ => ?_
    obtain ⟨f₂, m₂', m₂, hl₂, ht₂, hend⟩ := ih ht fun z hz => (hids z hz).later hl
    refine ⟨f₂, m₂', m₂, hl₂, ht₂, hend.imp_left ?_⟩
    rintro ⟨a, b, ha, hb, hall⟩
    exact ⟨a, b, ha, hb, List.forall_mem_cons.2 ⟨hx₁.later hl₂, hall⟩⟩

/-! ### Constants -/

/-- A constant that only one model has is to spare there. -/
theorem ne_of_constant? (h : Matches f m' m) {l : Literal} (hc : m'.constant? l.is = none)
    (hn : m.node? y = some n) (his : l.is n) : ∀ x, m'.Has x → f x ≠ y := by
  rintro x hx rfl
  obtain ⟨n', hn'⟩ := hx.exists_node
  obtain ⟨n₁, hn₁, htwin⟩ := h.node x n' hn'
  obtain rfl : n = n₁ := Option.some.inj (hn.symm.trans hn₁)
  rw [Literal.is_of_copy htwin.toCopy] at his
  rw [constant?, Option.map_eq_none_iff, Array.findIdx?_eq_none_iff] at hc
  have := hc n' (Array.mem_of_getElem? (node?_eq_some.1 hn').2)
  simp [his] at this

theorem constant (h : Tracks f m' m) {l : Literal} (hl : l.Sound) :
    Simulates Tracks f m' m (constant l.is l.operator l.arg) (constant l.is l.operator l.arg)
      Paired := by
  obtain ⟨asked, sent, hb⟩ := h.built
  have hops : ∀ x ∈ l.node.operands, m'.Has x := by cases l <;> intro x hx <;> cases hx
  cases hc' : m'.constant? l.is with
  | some a =>
    obtain ⟨n', hn', his'⟩ := isConst_of_constant? hc'
    obtain ⟨n, hn, htwin⟩ := h.toMatches.node a n' hn'
    have his : l.is n := by rw [Literal.is_of_copy htwin.toCopy, his']
    have hc : m.constant? l.is = some (f a) := by
      rw [hb.constant_eq (node?_eq_some.1 hn).2 his, ← (has_of_node? hn).eq_idAt]
    exact ⟨f, m', m, .refl .., h,
      .inl ⟨a, f a, constant_of_some hc', constant_of_some hc, has_of_node? hn', rfl⟩⟩
  | none =>
    have hhas : (m'.push l.node).Has (m'.idAt m'.nodes.size) := ⟨rfl, by simp [idAt]⟩
    cases hc : m.constant? l.is with
    | none =>
      refine ⟨_, m'.push l.node, m.push l.node, .pushed rfl rfl size_push size_push, ⟨?_, ?_, ?_⟩,
        .inl ⟨_, _, constant_of_none hc', constant_of_none hc, hhas, ?_⟩⟩
      · exact h.toMatches.push h.sound hops (l.twin_node f)
      · exact h.sound.push_literal l
      · exact ⟨asked, sent, hb.push_literal hl hc⟩
      · rw [Function.update_self]
    | some y =>
      -- The other model has had the constant to spare.
      obtain ⟨n, hn, his⟩ := isConst_of_constant? hc
      have hfree := ne_of_constant? h.toMatches hc' hn his
      obtain ⟨l', rfl⟩ := h.spare y n hn hfree
      obtain rfl := Literal.eq_of_is_node his
      refine ⟨Function.update f (m'.idAt m'.nodes.size) y, _, _, ⟨?_, ?_, ?_⟩, ⟨?_, ?_, ?_⟩,
        .inl ⟨_, _, constant_of_none hc', constant_of_some hc, hhas, ?_⟩⟩
      · exact fun x hx => grows_push.has hx
      · exact fun x hx => Function.update_of_ne (ne_idAt_size hx) ..
      · intro he
        obtain ⟨x, hx, hxy⟩ := he.onto y (has_of_node? hn)
        exact (hfree x hx hxy).elim
      · exact h.toMatches.join h.sound hops (l.twin_node f) hn hfree (fun _ _ => rfl)
          rfl rfl rfl rfl
      · exact h.sound.push_literal l
      · exact h.built
      · rw [Function.update_self]

theorem floatConst (h : Tracks f m' m) (v : Float) :
    Simulates Tracks f m' m (floatConst v) (floatConst v) Paired := by
  unfold Building.floatConst Building.finite
  split
  · rename_i hfin
    have hv : Simulates Tracks f m' m (Pure.pure v) (Pure.pure v) fun _ _ a b => a = v ∧ b = v :=
      pure h ⟨rfl, rfl⟩
    refine andThen hv fun f₁ m₁' m₁ a b _ ht hab => ?_
    rw [hab.1, hab.2]
    exact constant (l := .float v) ht hfin
  · exact ⟨f, m', m, .refl .., h, .inr ⟨_, rfl, rfl⟩⟩

/-! ### Operands -/

theorem intOperand (h : Tracks f m' m) {a : IntOperand}
    (ha : ∀ x ∈ a.nodes, Named f m' m x (g x)) :
    Simulates Tracks f m' m (intOperand a) (intOperand (a.rename g)) Paired := by
  cases a with
  | const v => exact constant (l := .int v) h trivial
  | node x =>
    exact andThen (expect h .integral (ha x (by simp [IntOperand.nodes])))
      fun _ _ _ _ _ _ ht hx => pure ht hx

theorem floatOperand (h : Tracks f m' m) {a : FloatOperand}
    (ha : ∀ x ∈ a.nodes, Named f m' m x (g x)) :
    Simulates Tracks f m' m (floatOperand a) (floatOperand (a.rename g)) Paired := by
  cases a with
  | int v => exact constant (l := .int v) h trivial
  | float v => exact floatConst h v
  | node x =>
    exact andThen (expect h .numeric (ha x (by simp [FloatOperand.nodes])))
      fun _ _ _ _ _ _ ht hx => pure ht hx

theorem boolOperand (h : Tracks f m' m) {a : BoolOperand}
    (ha : ∀ x ∈ a.nodes, Named f m' m x (g x)) :
    Simulates Tracks f m' m (boolOperand a) (boolOperand (a.rename g)) Paired := by
  cases a with
  | const b => exact constant (l := .bool b) h trivial
  | node x =>
    exact andThen (expect h .boolean (ha x (by simp [BoolOperand.nodes])))
      fun _ _ _ _ _ _ ht hx => pure ht hx

theorem intArg (h : Tracks f m' m) {a : IntOperand} (ha : ∀ x ∈ a.nodes, Named f m' m x (g x)) :
    Simulates Tracks f m' m (intArg a) (intArg (a.rename g)) fun f₁ m₁' d e =>
      e = d.rename f₁ ∧ ∀ x ∈ d.nodes, m₁'.Has x := by
  cases a with
  | const v => exact pure h ⟨rfl, by simp [Arg.nodes]⟩
  | node x =>
    refine andThen (expect h .integral (ha x (by simp [IntOperand.nodes])))
      fun f₁ m₁' _ _ _ _ ht hx => pure ht ⟨?_, ?_⟩
    · rw [hx.2]
      rfl
    · simpa [Arg.nodes] using hx.1

/-- Operands built from left to right. -/
theorem each {ι : Type} (build : ι → Building NodeId) (all : List ι → Building (List NodeId))
    (hnil : all [] = Pure.pure [])
    (hcons : ∀ a rest, all (a :: rest) = build a >>= fun id => all rest >>= fun ids =>
      Pure.pure (id :: ids))
    (nodes : ι → List NodeId) (rename : ι → ι)
    (hbuild : ∀ f m' m a, Tracks f m' m → (∀ x ∈ nodes a, Named f m' m x (g x)) →
      Simulates Tracks f m' m (build a) (build (rename a)) Paired)
    (h : Tracks f m' m) {items : List ι}
    (hitems : ∀ x ∈ items.flatMap nodes, Named f m' m x (g x)) :
    Simulates Tracks f m' m (all items) (all (items.map rename)) fun f₁ m₁' ids' ids =>
      ids = ids'.map f₁ ∧ ∀ x ∈ ids', m₁'.Has x := by
  induction items generalizing f m' m with
  | nil =>
    rw [List.map_nil, hnil]
    exact pure h ⟨rfl, by simp⟩
  | cons a rest ih =>
    rw [List.flatMap_cons, List.forall_mem_append] at hitems
    rw [List.map_cons, hcons, hcons]
    refine andThen (hbuild f m' m a h hitems.1) fun f₁ m₁' m₁ x y hl ht hx => ?_
    refine andThen (ih ht fun z hz => (hitems.2 z hz).later hl)
      fun f₂ m₂' m₂ ids' ids hl₂ ht₂ hids => pure ht₂ ⟨?_, ?_⟩
    · rw [List.map_cons, ← hids.1, (hx.later hl₂).2]
    · exact List.forall_mem_cons.2 ⟨(hx.later hl₂).1, hids.2⟩

theorem intOperands (h : Tracks f m' m) {items : List IntOperand}
    (hitems : ∀ x ∈ items.flatMap IntOperand.nodes, Named f m' m x (g x)) :
    Simulates Tracks f m' m (intOperands items) (intOperands (items.map (·.rename g)))
      fun f₁ m₁' ids' ids => ids = ids'.map f₁ ∧ ∀ x ∈ ids', m₁'.Has x :=
  each Building.intOperand Building.intOperands rfl (fun _ _ => rfl) IntOperand.nodes (·.rename g)
    (fun _ _ _ _ h ha => intOperand h ha) h hitems

theorem floatOperands (h : Tracks f m' m) {items : List FloatOperand}
    (hitems : ∀ x ∈ items.flatMap FloatOperand.nodes, Named f m' m x (g x)) :
    Simulates Tracks f m' m (floatOperands items) (floatOperands (items.map (·.rename g)))
      fun f₁ m₁' ids' ids => ids = ids'.map f₁ ∧ ∀ x ∈ ids', m₁'.Has x :=
  each Building.floatOperand Building.floatOperands rfl (fun _ _ => rfl) FloatOperand.nodes
    (·.rename g) (fun _ _ _ _ h ha => floatOperand h ha) h hitems

end Simulates

end Building

end Scheduling
