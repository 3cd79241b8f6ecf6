import Scheduling.Proofs.Replay.Simulation

/-!
# The same call on models that match

Case by case over the vocabulary: a call and the same call with its nodes renamed end alike on
models that match (`Tracks.call`). Calls that check, build constants and add one node follow the
same rules on both sides, so each case says only which checks come first and what the node is.
-/

namespace Scheduling

open Model Building

namespace Building

variable {α β : Type} {m m' : Model} {f g : NodeId → NodeId} {x y : NodeId} {n n' : Node}

/-- Two calls end alike. -/
abbrev Mirrors (f : NodeId → NodeId) (m' m : Model) (s' s : Building (Option NodeId)) : Prop :=
  Simulates Matches f m' m s' s fun f₁ _ r' r => r = r'.map f₁

/-! ### New nodes -/

theorem renameAll_map_node (ids : List NodeId) :
    Arg.renameAll f (ids.map Arg.node) = (ids.map f).map Arg.node := by
  induction ids with
  | nil => rfl
  | cons x ids ih => simp [Arg.renameAll, Arg.rename, ih]

theorem map_eq_of_paired {ids : List NodeId} (h : ∀ x ∈ ids, Paired f m' x (g x)) :
    ids.map g = ids.map f := List.map_congr_left fun x hx => (h x hx).2

namespace Simulates

/-- A call for a constant. -/
theorem found {s' s : Building NodeId} (hs : Simulates Tracks f m' m s' s Paired) :
    Mirrors f m' m (some <$> s') (some <$> s) := by
  obtain ⟨f₁, m₁', m₁, hl, ht, ⟨x, y, hs', hs, hx⟩ | ⟨e, hs', hs⟩⟩ := hs
  · refine ⟨f₁, m₁', m₁, hl, ht.toMatches, .inl ⟨some x, some y, ?_, ?_, ?_⟩⟩
    · rw [map_apply, hs']
    · rw [map_apply, hs]
    · simp only [Option.map_some, hx.2]
  · refine ⟨f₁, m₁', m₁, hl, ht.toMatches, .inr ⟨e, ?_, ?_⟩⟩
    · rw [map_apply, hs']
    · rw [map_apply, hs]

theorem add (h : Tracks f m' m) (hops : ∀ x ∈ n'.operands, m'.Has x) (htwin : n'.Twin f n) :
    Mirrors f m' m (some <$> Building.add n') (some <$> Building.add n) := by
  have hops' : ∀ x ∈ n.operands, m.Has x := by
    rw [htwin.toCopy.operands, List.forall_mem_map]
    exact fun x hx => h.toMatches.has (hops x hx)
  obtain ⟨ht', -, -, hs', -⟩ := extend_frame (m := m') (n := n')
  obtain ⟨ht, -, -, hs, -⟩ := extend_frame (m := m) (n := n)
  refine ⟨_, m'.extend n', m.extend n, .pushed ht' ht hs' hs,
    h.toMatches.extend h.sound hops htwin, .inl ⟨some (m'.idAt m'.nodes.size),
      some (m.idAt m.nodes.size), ?_, ?_, ?_⟩⟩
  · rw [map_apply, add_apply hops]
  · rw [map_apply, add_apply hops']
  · simp only [Option.map_some, Function.update_self]

/-- A node that has nothing but arguments. -/
theorem plain (h : Tracks f m' m) {op : Operator} {args' args : List Arg}
    (hargs : args = Arg.renameAll f args') (hops : ∀ x ∈ Arg.nodesOf args', m'.Has x) :
    Mirrors f m' m (some <$> Building.add (.plain op args'))
      (some <$> Building.add (.plain op args)) :=
  add h hops ⟨⟨rfl, rfl, hargs⟩, rfl, rfl⟩

theorem addOver (h : Tracks f m' m) {op : Operator} {ids' ids : List NodeId}
    (hids : List.Forall₂ (Paired f m') ids' ids) :
    Mirrors f m' m (some <$> Building.addOver op ids') (some <$> Building.addOver op ids) := by
  have hmap : ids = ids'.map f ∧ ∀ x ∈ ids', m'.Has x := by
    induction hids with
    | nil => exact ⟨rfl, by simp⟩
    | cons hx _ ih => exact ⟨by rw [hx.2, ih.1, List.map_cons], List.forall_mem_cons.2 ⟨hx.1, ih.2⟩⟩
  refine plain h ?_ ?_
  · rw [renameAll_map_node, hmap.1]
  · rw [nodesOf_map_node]
    exact hmap.2

/-- A node over a list of nodes. -/
theorem addList (h : Tracks f m' m) {ids' ids : List NodeId}
    (hids : ids = ids'.map f ∧ ∀ x ∈ ids', m'.Has x)
    (hargs : n'.args = [.list (ids'.map Arg.node)])
    (hn : n = { n' with args := [.list (ids.map Arg.node)] }) :
    Mirrors f m' m (some <$> Building.add n') (some <$> Building.add n) := by
  subst hn
  refine add h (fun x hx => hids.2 x ?_) ⟨⟨rfl, rfl, ?_⟩, rfl, rfl⟩
  · simpa [Node.operands, hargs, Arg.nodesOf, Arg.nodes, nodesOf_map_node] using hx
  · simp [hargs, Arg.renameAll, Arg.rename, renameAll_map_node, hids.1]

/-- A node over one node, with literals after it. -/
theorem headed (h : Tracks f m' m) {op : Operator} {rest : List Arg} (hx : Paired f m' x y)
    (hrest : Arg.renameAll f rest = rest) (hnodes : Arg.nodesOf rest = []) :
    Mirrors f m' m (some <$> Building.add (.plain op (.node x :: rest)))
      (some <$> Building.add (.plain op (.node y :: rest))) := by
  refine plain h ?_ ?_
  · simp [Arg.renameAll, Arg.rename, hrest, hx.2]
  · simpa [Arg.nodesOf, Arg.nodes, hnodes] using hx.1

end Simulates

/-! ### Calls that check first -/

namespace Mirrors

/-- An operator on two operands of one kind. -/
theorem pair {ι : Type} (build : ι → Building NodeId) (nodes : ι → List NodeId) (rename : ι → ι)
    (hbuild : ∀ f m' m a, Tracks f m' m → (∀ x ∈ nodes a, Named f m' m x (g x)) →
      Simulates Tracks f m' m (build a) (build (rename a)) Paired)
    (h : Tracks f m' m) (op : Operator) {a b : ι}
    (hnames : ∀ x ∈ nodes a ++ nodes b, Named f m' m x (g x)) :
    Mirrors f m' m
      (build a >>= fun a => build b >>= fun b => some <$> Building.addOver op [a, b])
      (build (rename a) >>= fun a => build (rename b) >>= fun b =>
        some <$> Building.addOver op [a, b]) := by
  obtain ⟨ha, hb⟩ := List.forall_mem_append.1 hnames
  refine .last (hbuild f m' m a h ha) fun f₁ m₁' m₁ x y hl ht hx => ?_
  refine .last (hbuild f₁ m₁' m₁ b ht fun z hz => (hb z hz).later hl)
    fun f₂ m₂' m₂ z w hl₂ ht₂ hz => ?_
  exact .addOver ht₂ (.cons (hx.later hl₂) (.cons hz .nil))

theorem ints (h : Tracks f m' m) (op : Operator) {a b : IntOperand}
    (hnames : ∀ x ∈ a.nodes ++ b.nodes, Named f m' m x (g x)) :
    Mirrors f m' m
      (intOperand a >>= fun a => intOperand b >>= fun b => some <$> Building.addOver op [a, b])
      (intOperand (a.rename g) >>= fun a => intOperand (b.rename g) >>= fun b =>
        some <$> Building.addOver op [a, b]) :=
  pair intOperand IntOperand.nodes (·.rename g) (fun _ _ _ _ h ha => .intOperand h ha) h op hnames

theorem floats (h : Tracks f m' m) (op : Operator) {a b : FloatOperand}
    (hnames : ∀ x ∈ a.nodes ++ b.nodes, Named f m' m x (g x)) :
    Mirrors f m' m
      (floatOperand a >>= fun a => floatOperand b >>= fun b => some <$> Building.addOver op [a, b])
      (floatOperand (a.rename g) >>= fun a => floatOperand (b.rename g) >>= fun b =>
        some <$> Building.addOver op [a, b]) :=
  pair floatOperand FloatOperand.nodes (·.rename g) (fun _ _ _ _ h ha => .floatOperand h ha) h op
    hnames

/-- Two nodes of given kinds come first. -/
theorem checked (h : Tracks f m' m) (e₁ e₂ : Expectation) {a b : NodeId}
    (ha : Named f m' m a (g a)) (hb : Named f m' m b (g b)) {s' s : Building (Option NodeId)}
    (hs : ∀ f₁ m₁' m₁, Tracks f₁ m₁' m₁ → Paired f₁ m₁' a (g a) → Paired f₁ m₁' b (g b) →
      Mirrors f₁ m₁' m₁ s' s) :
    Mirrors f m' m (expect e₁ a >>= fun _ => expect e₂ b >>= fun _ => s')
      (expect e₁ (g a) >>= fun _ => expect e₂ (g b) >>= fun _ => s) := by
  refine .last (.expect h e₁ ha) fun f₁ m₁' m₁ _ _ hl ht ha => ?_
  refine .last (.expect ht e₂ (hb.later hl)) fun f₂ m₂' m₂ _ _ hl₂ ht₂ hb => ?_
  exact hs f₂ m₂' m₂ ht₂ (ha.later hl₂) hb

theorem overIntervals (h : Tracks f m' m) (op : Operator) {main : NodeId} {items : List NodeId}
    (hnames : ∀ x ∈ main :: items, Named f m' m x (g x)) :
    Mirrors f m' m (some <$> Building.overIntervals op [main] items)
      (some <$> Building.overIntervals op [g main] (items.map g)) := by
  obtain ⟨hmain, hitems⟩ := List.forall_mem_cons.1 hnames
  simp only [Building.overIntervals, map_bind]
  have hmain' : ∀ x ∈ [main], Named f m' m x (g x) := by simpa using hmain
  refine .last (.expectAll h .interval hmain') fun f₁ m₁' m₁ _ _ hl ht hm => ?_
  refine .last (.expectAll ht .interval fun z hz => (hitems z hz).later hl)
    fun f₂ m₂' m₂ _ _ hl₂ ht₂ hi => ?_
  have hm' := (hm main (by simp)).later hl₂
  have hmap := map_eq_of_paired hi
  refine .plain ht₂ ?_ ?_
  · simp [Arg.renameAll, Arg.rename, renameAll_map_node, hmap, hm'.2]
  · simpa [Arg.nodesOf, Arg.nodes, nodesOf_map_node] using ⟨hm'.1, fun x hx => (hi x hx).1⟩

theorem precedence (h : Tracks f m' m) (p : Precedence) {a b : NodeId} {delay : IntOperand}
    (hnames : ∀ x ∈ [a, b] ++ delay.nodes, Named f m' m x (g x)) :
    Mirrors f m' m (some <$> Building.precedence p a b delay)
      (some <$> Building.precedence p (g a) (g b) (delay.rename g)) := by
  obtain ⟨hab, hdelay⟩ := List.forall_mem_append.1 hnames
  simp only [Building.precedence, map_bind]
  refine .last (.expect h .interval (hab a (by simp))) fun f₁ m₁' m₁ _ _ hl₁ ht₁ ha => ?_
  refine .last (.expect ht₁ .interval ((hab b (by simp)).later hl₁))
    fun f₂ m₂' m₂ _ _ hl₂ ht₂ hb => ?_
  refine .last (.intArg ht₂ fun z hz => (hdelay z hz).later (hl₁.trans hl₂))
    fun f₃ m₃' m₃ d d' hl₃ ht₃ hd => ?_
  have ha' := ha.later (hl₂.trans hl₃)
  have hb' := hb.later hl₃
  obtain ⟨rfl, hd⟩ := hd
  -- Only the literal zero is left out, and renaming makes no literal of a node.
  have hzero : d.rename f₃ = .int 0 ↔ d = .int 0 := by cases d <;> simp [Arg.rename]
  split
  · refine .plain ht₃ ?_ ?_
    · simp [Arg.renameAll, Arg.rename, ha'.2, hb'.2]
    · simpa [Arg.nodesOf, Arg.nodes] using ⟨ha'.1, hb'.1⟩
  · rename_i hd0
    split
    · rename_i he
      exact (hd0 (hzero.1 he)).elim
    · refine .plain ht₃ ?_ ?_
      · simp [Arg.renameAll, Arg.rename, ha'.2, hb'.2]
      · simpa [Arg.nodesOf, Arg.nodes] using ⟨ha'.1, hb'.1, hd⟩

/-! ### Tables -/

theorem noOverlap (h : Tracks f m' m) {intervals : List NodeId}
    (transitions : Option (List (List Int)))
    (hnames : ∀ x ∈ intervals, Named f m' m x (g x)) :
    Mirrors f m' m (some <$> Building.noOverlap intervals transitions)
      (some <$> Building.noOverlap (intervals.map g) transitions) := by
  simp only [Building.noOverlap, map_bind, List.length_map]
  refine .last (.expectAll h .interval hnames) fun f₁ m₁' m₁ _ _ hl ht hi => ?_
  have hadd {f₂ : NodeId → NodeId} {m₂' m₂ : Model} (hl₂ : Later f₁ m₁' m₁ f₂ m₂' m₂)
      (ht₂ : Tracks f₂ m₂' m₂) :
      Mirrors f₂ m₂' m₂
        (some <$> Building.add { Node.plain .noOverlap [.list (intervals.map Arg.node)] with
          values := transitions })
        (some <$> Building.add { Node.plain .noOverlap [.list ((intervals.map g).map Arg.node)] with
          values := transitions }) := by
    have hi' : ∀ x ∈ intervals, Paired f₂ m₂' x (g x) := fun x hx => (hi x hx).later hl₂
    exact .addList ht₂ ⟨map_eq_of_paired hi', fun x hx => (hi' x hx).1⟩ rfl rfl
  cases transitions with
  | none => exact hadd (.refl ..) ht
  | some matrix =>
    simp only [map_bind]
    refine .last (.inert (inert_checkTransitions matrix intervals.length) ht)
      fun f₂ m₂' m₂ _ _ hl₂ ht₂ _ => hadd hl₂ ht₂

theorem noOverlapSequence (h : Tracks f m' m) {sequence : NodeId}
    (transitions : Option (List (List Int))) (hname : Named f m' m sequence (g sequence)) :
    Mirrors f m' m (some <$> Building.noOverlapSequence sequence transitions)
      (some <$> Building.noOverlapSequence (g sequence) transitions) := by
  simp only [Building.noOverlapSequence, map_bind]
  refine .last (.node h hname) fun f₁ m₁' m₁ seq' seq hl ht hseq => ?_
  obtain ⟨hpair, htwin⟩ := hseq
  rw [htwin.operator, htwin.toCopy.transitionSize]
  have hadd {f₂ : NodeId → NodeId} {m₂' m₂ : Model} (hl₂ : Later f₁ m₁' m₁ f₂ m₂' m₂)
      (ht₂ : Tracks f₂ m₂' m₂) :
      Mirrors f₂ m₂' m₂
        (some <$> Building.add { Node.plain .noOverlap [.node sequence] with
          values := transitions })
        (some <$> Building.add { Node.plain .noOverlap [.node (g sequence)] with
          values := transitions }) := by
    have hpair' := hpair.later hl₂
    refine .add ht₂ (fun x hx => ?_) ⟨⟨rfl, rfl, ?_⟩, rfl, rfl⟩
    · obtain rfl : x = sequence := by
        simpa [Node.operands, Node.plain, Node.fresh, Arg.nodesOf, Arg.nodes] using hx
      exact hpair'.1
    · simp only [Node.plain, Node.fresh, Arg.renameAll, Arg.rename, hpair'.2]
  by_cases hop : seq'.operator = .sequenceVar
  · simp only [hop, ne_eq, not_true_eq_false, if_false]
    cases transitions with
    | none => exact hadd (.refl ..) ht
    | some matrix =>
      simp only [map_bind]
      refine .last (.inert (inert_checkTransitions matrix seq'.transitionSize) ht)
        fun f₂ m₂' m₂ _ _ hl₂ ht₂ _ => hadd hl₂ ht₂
  · have hkind : seq.kind = seq'.kind := congrArg Operator.kind htwin.operator
    simp only [ne_eq, hop, not_false_eq_true, if_true, map_bind]
    refine .last (P := fun _ _ _ _ => False) (.fail ht ?_) fun _ _ _ _ _ _ _ hfalse => hfalse.elim
    rw [hkind, hpair.2]
    rfl

theorem stepFunction (h : Tracks f m' m) (points : List (Int × Int)) :
    Mirrors f m' m (some <$> Building.stepFunction points)
      (some <$> Building.stepFunction points) := by
  simp only [Building.stepFunction, map_bind]
  refine .last (.inert (.check fun e f he => rename_of_checkPointsAfter he) h)
    fun f₁ m₁' m₁ _ _ _ ht _ => ?_
  exact .add ht (by simp [Node.operands, Node.plain, Node.fresh, Arg.nodesOf])
    ⟨⟨rfl, rfl, rfl⟩, rfl, rfl⟩

/-! ### Variables -/

/-- A node without arguments. -/
theorem leaf (h : Tracks f m' m) (hn : n.args = []) :
    Mirrors f m' m (some <$> Building.add n) (some <$> Building.add n) := by
  refine .add h ?_ ⟨⟨rfl, rfl, ?_⟩, rfl, rfl⟩
  · simp [Node.operands, hn, Arg.nodesOf]
  · simp [hn, Arg.renameAll]

theorem intVar (h : Tracks f m' m) (v : IntVarSpec) :
    Mirrors f m' m (some <$> Building.intVar v) (some <$> Building.intVar v) := by
  simp only [Building.intVar, map_bind]
  exact .last (.inert (.checkBounds ..) h) fun _ _ _ _ _ _ ht _ => leaf ht rfl

theorem floatVar (h : Tracks f m' m) (v : FloatVarSpec) :
    Mirrors f m' m (some <$> Building.floatVar v) (some <$> Building.floatVar v) := by
  simp only [Building.floatVar, map_bind]
  refine .last (.inert (.checkFinite ..) h) fun _ _ _ _ _ _ ht₁ _ => ?_
  refine .last (.inert (.checkFinite ..) ht₁) fun _ _ _ _ _ _ ht₂ _ => ?_
  split
  · split
    · simp only [map_bind]
      exact .last (.inert (.fail fun _ => rfl) ht₂) fun _ _ _ _ _ _ ht₃ _ => leaf ht₃ rfl
    · exact leaf ht₂ rfl
  · exact leaf ht₂ rfl

theorem intervalVar (h : Tracks f m' m) (v : IntervalVarSpec) :
    Mirrors f m' m (some <$> Building.intervalVar v) (some <$> Building.intervalVar v) := by
  simp only [Building.intervalVar, map_bind]
  refine .last (.inert (.checkBounds ..) h) fun _ _ _ _ _ _ ht₁ _ => ?_
  refine .last (.inert (.checkBounds ..) ht₁) fun _ _ _ _ _ _ ht₂ _ => ?_
  exact .last (.inert (.checkBounds ..) ht₂) fun _ _ _ _ _ _ ht₃ _ => leaf ht₃ rfl

theorem sequenceVar (h : Tracks f m' m) (v : SequenceVarSpec)
    (hnames : ∀ x ∈ v.intervals, Named f m' m x (g x)) :
    Mirrors f m' m (some <$> Building.sequenceVar v)
      (some <$> Building.sequenceVar { v with intervals := v.intervals.map g }) := by
  simp only [Building.sequenceVar, map_bind, List.length_map]
  refine .last (.expectAll h .interval hnames) fun f₁ m₁' m₁ _ _ hl ht hi => ?_
  refine .last (.inert (.checkTypes ..) ht) fun f₂ m₂' m₂ _ _ hl₂ ht₂ _ => ?_
  have hi' : ∀ x ∈ v.intervals, Paired f₂ m₂' x (g x) := fun x hx => (hi x hx).later hl₂
  exact .addList ht₂ ⟨map_eq_of_paired hi', fun x hx => (hi' x hx).1⟩ rfl rfl

/-! ### Calls without a result -/

/-- A call that changes the model at a node and returns nothing. -/
theorem discard {s' : Building α} {s : Building β} (u' : α → Model → Model)
    (u : β → Model → Model) {P : (NodeId → NodeId) → Model → α → β → Prop}
    (hs : Simulates Tracks f m' m s' s P)
    (hu : ∀ f₁ m₁' m₁ a b, Tracks f₁ m₁' m₁ → P f₁ m₁' a b →
      Matches f₁ (u' a m₁') (u b m₁) ∧ Later f₁ m₁' m₁ f₁ (u' a m₁') (u b m₁)) :
    Mirrors f m' m ((s' >>= fun a => modify (u' a)) >>= fun _ => Pure.pure none)
      ((s >>= fun b => modify (u b)) >>= fun _ => Pure.pure none) := by
  obtain ⟨f₁, m₁', m₁, hl, ht, ⟨a, b, hs', hs, hab⟩ | ⟨e, hs', hs⟩⟩ := hs
  · obtain ⟨hm, hl₁⟩ := hu f₁ m₁' m₁ a b ht hab
    refine ⟨f₁, u' a m₁', u b m₁, hl.trans hl₁, hm, .inl ⟨none, none, ?_, ?_, rfl⟩⟩
    · simp only [bind_apply, hs']
      rfl
    · simp only [bind_apply, hs]
      rfl
  · refine ⟨f₁, m₁', m₁, hl, ht.toMatches, .inr ⟨e, ?_, ?_⟩⟩
    · simp only [bind_apply, hs']
    · simp only [bind_apply, hs]

theorem post {a : BoolOperand} (h : Tracks f m' m) (ha : ∀ x ∈ a.nodes, Named f m' m x (g x)) :
    Mirrors f m' m (Building.constraint a >>= fun _ => Pure.pure none)
      (Building.constraint (a.rename g) >>= fun _ => Pure.pure none) := by
  refine discard (fun x m => m.addTopLevel x) (fun x m => m.addTopLevel x) (.boolOperand h ha)
    fun f₁ m₁' m₁ x y ht hx => ?_
  rw [hx.2]
  obtain ⟨ht', -, -, -, hs'⟩ := use_frame { m₁' with topLevel := m₁'.topLevel.push x } x
  obtain ⟨ht₁, -, -, -, hs⟩ := use_frame { m₁ with topLevel := m₁.topLevel.push (f₁ x) } (f₁ x)
  exact ⟨ht.toMatches.addTopLevel hx.1, .same ht' ht₁ hs' hs⟩

theorem optimize {a : FloatOperand} (h : Tracks f m' m) (sense : Sense)
    (ha : ∀ x ∈ a.nodes, Named f m' m x (g x)) :
    Mirrors f m' m (Building.optimize sense a >>= fun _ => Pure.pure none)
      (Building.optimize sense (a.rename g) >>= fun _ => Pure.pure none) := by
  refine discard (fun x m => { m.materialize x with objective := some ⟨sense, x⟩ })
    (fun x m => { m.materialize x with objective := some ⟨sense, x⟩ })
    (.floatOperand h ha) fun f₁ m₁' m₁ x y ht hx => ?_
  rw [hx.2]
  exact ⟨ht.toMatches.optimize hx.1 sense,
    .same materialize_tag materialize_tag size_materialize size_materialize⟩

theorem nameNode (h : Tracks f m' m) (name : String) (hx : Named f m' m x y) :
    Mirrors f m' m (Building.nameNode x name >>= fun _ => Pure.pure none)
      (Building.nameNode y name >>= fun _ => Pure.pure none) := by
  refine discard (fun _ m => (m.renamed x name).materialize x)
    (fun _ m => (m.renamed y name).materialize y)
    (.node h hx) fun f₁ m₁' m₁ _ _ ht hn => ?_
  have hname : (m₁'.renamed x name).Has x := (keeps_renamed name).has hn.1.1
  rw [hn.1.2]
  refine ⟨(ht.toMatches.renamed hn.1.1 name).materialize hname, .same ?_ ?_ ?_ ?_⟩
  · exact materialize_tag
  · exact materialize_tag
  · exact size_materialize.trans (size_modify _)
  · exact size_materialize.trans (size_modify _)

end Mirrors

end Building

namespace Model

variable {m m' : Model} {f g : NodeId → NodeId}

/-- A call and the same call with its nodes renamed end alike on models that match. -/
theorem Tracks.mirrors (h : Tracks f m' m) (c : Call)
    (hnames : ∀ x ∈ c.nodes, Named f m' m x (g x)) : Mirrors f m' m c.run (c.rename g).run := by
  cases c with
  | intVar v => exact .intVar h v
  | boolVar v => exact .leaf h rfl
  | floatVar v => exact .floatVar h v
  | intervalVar v => exact .intervalVar h v
  | sequenceVar v => exact .sequenceVar h v hnames
  | intConst v => exact .found (.constant (l := .int v) h trivial)
  | floatConst v => exact .found (.floatConst h v)
  | boolConst v => exact .found (.constant (l := .bool v) h trivial)
  | int op a b => exact .ints h (.int op) hnames
  | intNeg a =>
    refine .last (.intOperand h hnames) fun f₁ m₁' m₁ x y _ ht hx => ?_
    exact .addOver ht (.cons hx .nil)
  | intAbs a =>
    refine .last (.intOperand h hnames) fun f₁ m₁' m₁ x y _ ht hx => ?_
    exact .addOver ht (.cons hx .nil)
  | intAggregate op items =>
    exact .last (.intOperands h hnames) fun f₁ m₁' m₁ _ _ _ ht hids => .addList ht hids rfl rfl
  | intGuard a default =>
    refine .last (.intOperand h hnames) fun f₁ m₁' m₁ x y _ ht hx => ?_
    exact .headed ht hx rfl rfl
  | float op a b => exact .floats h (.float op) hnames
  | floatNeg a =>
    refine .last (.floatOperand h hnames) fun f₁ m₁' m₁ x y _ ht hx => ?_
    exact .addOver ht (.cons hx .nil)
  | floatAbs a =>
    refine .last (.floatOperand h hnames) fun f₁ m₁' m₁ x y _ ht hx => ?_
    exact .addOver ht (.cons hx .nil)
  | floatAggregate op items =>
    exact .last (.floatOperands h hnames) fun f₁ m₁' m₁ _ _ _ ht hids => .addList ht hids rfl rfl
  | floatGuard a default =>
    refine .last (.inert (.finite ..) h) fun f₁ m₁' m₁ v w hl ht hv => ?_
    obtain rfl : v = w := hv
    refine .last (.floatOperand ht fun z hz => (hnames z hz).later hl)
      fun f₂ m₂' m₂ x y _ ht₂ hx => ?_
    exact .headed ht₂ hx rfl rfl
  | presence x =>
    refine .last (.node h (hnames x (by simp [Call.nodes]))) fun f₁ m₁' m₁ _ _ _ ht hn => ?_
    exact .addOver ht (.cons hn.1 .nil)
  | identity a b => exact .floats h .identity hnames
  | compare c a b => exact .floats h (.compare c) hnames
  | inRange a least greatest =>
    refine .last (.inert (.finite ..) h) fun f₁ m₁' m₁ v w hl ht hv => ?_
    obtain rfl : v = w := hv
    refine .last (.inert (.finite ..) ht) fun f₂ m₂' m₂ v' w' hl₂ ht₂ hv' => ?_
    obtain rfl : v' = w' := hv'
    refine .last (.floatOperand ht₂ fun z hz => (hnames z hz).later (hl.trans hl₂))
      fun f₃ m₃' m₃ x y _ ht₃ hx => ?_
    exact .headed ht₃ hx rfl rfl
  | connect op a b =>
    exact .pair boolOperand BoolOperand.nodes (·.rename g) (fun _ _ _ _ h ha => .boolOperand h ha)
      h (.connect op) hnames
  | not a =>
    refine .last (.boolOperand h hnames) fun f₁ m₁' m₁ x y _ ht hx => ?_
    exact .addOver ht (.cons hx .nil)
  | measure op x =>
    refine .last (.expect h .interval (hnames x (by simp [Call.nodes])))
      fun f₁ m₁' m₁ _ _ _ ht hx => ?_
    exact .addOver ht (.cons hx .nil)
  | measureOr op x default =>
    refine .last (.expect h .interval (hnames x (by simp [Call.nodes])))
      fun f₁ m₁' m₁ _ _ _ ht hx => ?_
    exact .headed ht hx rfl rfl
  | precedence p a b delay => exact .precedence h p hnames
  | alternative main options => exact .overIntervals h .alternative hnames
  | span main covered => exact .overIntervals h .span hnames
  | noOverlap intervals transitions => exact .noOverlap h transitions hnames
  | noOverlapSequence sequence transitions =>
    exact .noOverlapSequence h transitions (hnames sequence (by simp [Call.nodes]))
  | intervalStep step x height =>
    obtain ⟨hx, hheight⟩ := List.forall_mem_cons.1 hnames
    refine .last (.expect h .interval hx) fun f₁ m₁' m₁ _ _ hl ht hx => ?_
    refine .last (.intArg ht fun z hz => (hheight z hz).later hl)
      fun f₂ m₂' m₂ d d' hl₂ ht₂ hd => ?_
    have hx' := hx.later hl₂
    refine .plain ht₂ ?_ ?_
    · simp [Arg.renameAll, Arg.rename, hx'.2, hd.1]
    · simpa [Arg.nodesOf, Arg.nodes] using ⟨hx'.1, hd.2⟩
  | stepAt time height =>
    refine .last (.intArg h hnames) fun f₁ m₁' m₁ d d' _ ht hd => ?_
    refine .plain ht ?_ ?_
    · simp [Arg.renameAll, Arg.rename, hd.1]
    · simpa [Arg.nodesOf, Arg.nodes] using hd.2
  | cumulPlus a b =>
    refine .last (.expectAll h .cumulative hnames) fun f₁ m₁' m₁ _ _ _ ht hab => ?_
    exact .addOver ht (.cons (hab a (by simp)) (.cons (hab b (by simp)) .nil))
  | cumulMinus a b =>
    refine .last (.expectAll h .cumulative hnames) fun f₁ m₁' m₁ _ _ _ ht hab => ?_
    exact .addOver ht (.cons (hab a (by simp)) (.cons (hab b (by simp)) .nil))
  | cumulNeg a =>
    refine .last (.expect h .cumulative (hnames a (by simp [Call.nodes])))
      fun f₁ m₁' m₁ _ _ _ ht hx => ?_
    exact .addOver ht (.cons hx .nil)
  | cumulSum items =>
    refine .last (.expectAll h .cumulative hnames) fun f₁ m₁' m₁ _ _ _ ht hids => ?_
    exact .addList ht ⟨map_eq_of_paired hids, fun x hx => (hids x hx).1⟩ rfl rfl
  | cumulBound b x bound =>
    refine .last (.expect h .cumulative (hnames x (by simp [Call.nodes])))
      fun f₁ m₁' m₁ _ _ _ ht hx => ?_
    exact .headed ht hx rfl rfl
  | stepFunction points => exact .stepFunction h points
  | stepFunctionEval a time =>
    obtain ⟨ha, htime⟩ := List.forall_mem_cons.1 hnames
    refine .last (.expect h .stepFunction ha) fun f₁ m₁' m₁ _ _ hl ht ha => ?_
    refine .last (.intOperand ht fun z hz => (htime z hz).later hl)
      fun f₂ m₂' m₂ x y hl₂ ht₂ hx => ?_
    exact .addOver ht₂ (.cons (ha.later hl₂) (.cons hx .nil))
  | stepFunctionSum a interval =>
    refine .checked h .stepFunction .interval (hnames a (by simp [Call.nodes]))
      (hnames interval (by simp [Call.nodes])) fun f₁ m₁' m₁ ht ha hi => ?_
    exact .addOver ht (.cons ha (.cons hi .nil))
  | forbid what interval a =>
    refine .checked h .stepFunction .interval (hnames a (by simp [Call.nodes]))
      (hnames interval (by simp [Call.nodes])) fun f₁ m₁' m₁ ht ha hi => ?_
    exact .addOver ht (.cons hi (.cons ha .nil))
  | constraint a => exact .post h hnames
  | optimize sense a => exact .optimize h sense hnames
  | nameNode x name => exact .nameNode h name (hnames x (by simp [Call.nodes]))
  | nameModel name =>
    refine ⟨f, { m' with name := some name }, { m with name := some name }, .same rfl rfl rfl rfl,
      ?_, .inl ⟨none, none, rfl, rfl, rfl⟩⟩
    have hm := h.toMatches
    exact ⟨hm.node, hm.injective, hm.spare, rfl, hm.refs, hm.topLevel, hm.objective⟩

/-- The step of a run: models that match still match after the same call, which has the same outcome
on both. -/
theorem Tracks.call (h : Tracks f m' m) (c : Call) (hnames : ∀ x ∈ c.nodes, Named f m' m x (g x)) :
    ∃ f₁, Later f m' m f₁ (m'.call c).2 (m.call (c.rename g)).2 ∧
      Tracks f₁ (m'.call c).2 (m.call (c.rename g)).2 ∧
      (m.call (c.rename g)).1 = renameOutcome f₁ (m'.call c).1 := by
  obtain ⟨asked, sent, hb⟩ := h.built
  obtain ⟨f₁, m₁', m₁, hl, hm, hend⟩ := h.mirrors c hnames
  have hmodels : (m'.call c).2 = m₁' ∧ (m.call (c.rename g)).2 = m₁ ∧
      (m.call (c.rename g)).1 = renameOutcome f₁ (m'.call c).1 := by
    obtain ⟨r', r, hr', hr, hrr⟩ | ⟨e, hr', hr⟩ := hend
    · have hr' : m'.call c = (.ok r', m₁') := hr'
      have hr : m.call (c.rename g) = (.ok r, m₁) := hr
      rw [hr', hr, hrr]
      exact ⟨rfl, rfl, rfl⟩
    · have hr' : m'.call c = (.error e, m₁') := hr'
      have hr : m.call (c.rename g) = (.error (e.rename f₁), m₁) := hr
      rw [hr', hr]
      exact ⟨rfl, rfl, rfl⟩
  obtain ⟨he', he, houtcome⟩ := hmodels
  refine ⟨f₁, by rw [he', he]; exact hl, ⟨by rw [he', he]; exact hm, h.sound.call c, ?_⟩, houtcome⟩
  exact ⟨_, _, hb.call (c.rename g)⟩

end Model

end Scheduling
