import Scheduling.Proofs.Eval.Copies

/-!
# Values of copies

A node has the value of what it is a copy of (`agree_valueBelow`), and remembering values changes
none (`agree_remembered`): a value does not depend on the depth from which it is found, nor on the
order in which values are asked for.
-/

namespace Scheduling

namespace Model

open Query (Alike Agree Memory)

variable {f : NodeId → NodeId} {m m' : Model} {s s' : Solution} {d d' : Nat} {x y : NodeId}

/-! ### What is remembered -/

theorem recalled?_start (m : Model) (x : NodeId) :
    Evaluator.recalled? m (Evaluator.start m) x = none := by
  unfold Evaluator.recalled? Evaluator.start
  rw [Array.getElem?_replicate]
  split
  · split <;> rfl
  · rfl

/-- What is recalled after a value is remembered. -/
theorem recalled?_set {memory : Memory} {v w : Value} (hx : x.model = m.tag)
    (hw : Evaluator.recalled? m (memory.setIfInBounds x.index (some v)) y = some w) :
    (y = x ∧ w = v) ∨ Evaluator.recalled? m memory y = some w := by
  unfold Evaluator.recalled? at hw ⊢
  split at hw
  · rename_i hy
    rw [if_pos hy]
    rw [Array.getElem?_setIfInBounds] at hw
    by_cases hi : x.index = y.index
    · rw [if_pos hi] at hw
      split at hw
      · obtain ⟨kx, i⟩ := x
        obtain ⟨ky, j⟩ := y
        simp_all
      · exact nomatch hw
    · rw [if_neg hi] at hw
      exact .inr hw
  · exact nomatch hw

/-- What is remembered of a model is the value of what it is a copy of. -/
def Remembers (f : NodeId → NodeId) (m' m : Model) (s : Solution) (memory : Memory) : Prop :=
  ∀ (x : NodeId) (v : Value), Evaluator.recalled? m' memory x = some v → m.value s (f x) = .ok v

theorem remembers_start (f : NodeId → NodeId) (m' m : Model) (s : Solution) :
    Remembers f m' m s (Evaluator.start m') := by
  intro x v hv
  rw [recalled?_start] at hv
  exact nomatch hv

theorem Remembers.set {memory : Memory} {v : Value} (hm : Remembers f m' m s memory)
    (hx : x.model = m'.tag) (hv : m.value s (f x) = .ok v) :
    Remembers f m' m s (memory.setIfInBounds x.index (some v)) := by
  intro z w hw
  obtain ⟨rfl, rfl⟩ | hold := recalled?_set hx hw
  · exact hv
  · exact hm z w hold

/-! ### Values -/

variable (hc : Covers f m' m) (h' : Sound m') (h : Sound m) (hs : Follows f m' s' s)

include hc h' h hs

/-- A node has the value of what it is a copy of. -/
theorem agree_valueBelow (hx : Below f m' d' d x y) :
    Agree Eq (m'.valueBelow s' d' x) (m.valueBelow s d y) := by
  induction d' generalizing d x y with
  | zero => exact absurd hx.2.2.1 (Nat.not_lt_zero _)
  | succ d' ih =>
    obtain ⟨d, rfl⟩ := Nat.exists_eq_succ_of_ne_zero (n := d) (by have := hx.2.2.2; omega)
    obtain ⟨n', hn'⟩ := hx.1.exists_node
    obtain ⟨n, hn, hcopy, -⟩ := hc.node x n' hn'
    rw [← hx.2.1] at hn
    rw [valueBelow, valueBelow, node_eq_ok.2 hn', node_eq_ok.2 hn]
    have hS := below_operands hc h' h hx hn' hn
    exact (alike_nodeValue hc h' h hcopy hS hs hn' hx.2.1).resolve fun _ _ => ih

omit hc h' hs in
/-- The value of a node does not depend on the depth from which it is found. -/
theorem agree_value (hx : m.Has x) (hd : x.index < d) :
    Agree Eq (m.value s x) (m.valueBelow s d x) :=
  agree_valueBelow (.refl m) h h (.refl m s) ⟨hx, rfl, hx.2, hd⟩

/-- An evaluator that remembers values finds the value of what a node is a copy of. -/
theorem agree_remembered (hx : Below f m' d' m.nodes.size x y) {memory : Memory}
    (hm : Remembers f m' m s memory) :
    Agree Eq (Evaluator.valueBelow m' s' d' x memory).1 (m.value s y) ∧
      Remembers f m' m s (Evaluator.valueBelow m' s' d' x memory).2 := by
  induction d' generalizing x y memory with
  | zero => exact absurd hx.2.2.1 (Nat.not_lt_zero _)
  | succ d' ih =>
    simp only [Evaluator.valueBelow]
    cases hr : Evaluator.recalled? m' memory x with
    | some v =>
      rw [hx.2.1, hm x v hr]
      exact ⟨.ok rfl, hm⟩
    | none =>
      obtain ⟨e, he⟩ := Nat.exists_eq_succ_of_ne_zero (n := m.nodes.size) (by
        have := hx.2.2.2
        omega)
      obtain ⟨n', hn'⟩ := hx.1.exists_node
      obtain ⟨n, hn, hcopy, -⟩ := hc.node x n' hn'
      rw [← hx.2.1] at hn
      have hvalue : m.value s y = (m.nodeValue s e y n).resolve (m.valueBelow s e) := by
        rw [value, he, valueBelow, node_eq_ok.2 hn]
      -- What the node asks for is found by remembering, and from any depth.
      have hask : ∀ z w, Below f m' d' e z w → ∀ memory, Remembers f m' m s memory →
          Agree Eq (Evaluator.valueBelow m' s' d' z memory).1 (m.valueBelow s e w) ∧
            Remembers f m' m s (Evaluator.valueBelow m' s' d' z memory).2 := by
        intro z w hz memory hm
        have hw : m.Has w := hz.2.1 ▸ hc.has hz.1
        obtain ⟨hagree, hm'⟩ := ih ⟨hz.1, hz.2.1, hz.2.2.1, hw.2⟩ hm
        exact ⟨hagree.trans (agree_value h hw hz.2.2.2), hm'⟩
      have hS := below_operands hc h' h (he ▸ hx) hn' hn
      obtain ⟨hagree, hm'⟩ :=
        (alike_nodeValue hc h' h hcopy hS hs hn' hx.2.1).resolveWith hask hm
      rw [← hvalue] at hagree
      simp only [node_eq_ok.2 hn']
      obtain ⟨r, memory', hr⟩ : ∃ r memory', (m'.nodeValue s' d' x n').resolveWith
          (Evaluator.valueBelow m' s' d') memory = (r, memory') := ⟨_, _, rfl⟩
      rw [hr] at hagree hm' ⊢
      cases r with
      | ok v => exact ⟨hagree, hm'.set hx.1.1 (hx.2.1 ▸ (hagree.ok_iff v).1 rfl)⟩
      | error e => exact ⟨hagree, hm'⟩

/-- An evaluator that remembers values answers alike questions as from scratch. -/
theorem agree_resolveWith {α β : Type} {R : α → β → Prop} {q' : Query α} {q : Query β}
    (hq : Alike R (Below f m' m'.nodes.size m.nodes.size) q' q) :
    Agree R (q'.resolveWith (Evaluator.value m' s') (Evaluator.start m')).1
      (q.resolve (m.value s)) :=
  (hq.resolveWith (fun _ _ hx _ hm => agree_remembered hc h' h hs hx hm)
    (remembers_start f m' m s)).1

/-- The values of a node and of what it is a copy of are the same. -/
theorem agree_eval (hx : m'.Has x) : Agree Eq (m'.eval s' x) (m.eval s (f x)) := by
  have hy := hc.has hx
  have hcopy := agree_remembered hc h' h hs ⟨hx, rfl, hx.2, hy.2⟩ (remembers_start f m' m s)
  have hself := agree_remembered (.refl m) h h (.refl m s) ⟨hy, rfl, hy.2, hy.2⟩
    (remembers_start _ m m s)
  exact hcopy.1.trans hself.1.symm

end Model

end Scheduling
