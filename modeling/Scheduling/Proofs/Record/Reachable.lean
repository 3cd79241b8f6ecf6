import Mathlib.Algebra.Order.BigOperators.Group.List
import Mathlib.Algebra.Order.Group.Nat
import Mathlib.Data.Set.Function
import Scheduling.Proofs.Record.Covers

/-!
# Reachable nodes

The nodes that a record of a model has to write: those with a number, the constraints, the objective
and all that these use (`Model.Reachable`). A cover by a model without other nodes is one-to-one
onto them (`Covers.bijOn`).
-/

namespace Scheduling

namespace Model

variable {m m' : Model} {id x : NodeId} {n n' : Node} {f : NodeId → NodeId}

/-- The nodes that are found from the numbered ones, the constraints and the objective. -/
inductive Reachable (m : Model) : NodeId → Prop where
  | ref {id : NodeId} : id ∈ m.refs.toList → Reachable m id
  | topLevel {id : NodeId} : id ∈ m.topLevel.toList → Reachable m id
  | objective {o : Objective} : m.objective = some o → Reachable m o.expr
  | operand {id x : NodeId} {n : Node} : Reachable m id → m.node? id = some n → x ∈ n.operands →
      Reachable m x

theorem Reachable.has (h : Sound m) (hid : m.Reachable id) : m.Has id := by
  induction hid with
  | ref hid => exact h.refs_has _ hid
  | topLevel hid => exact h.topLevel_has _ hid
  | objective ho =>
    obtain ⟨n, -, hn, -⟩ := h.objective_ref ho
    exact has_of_node? hn
  | operand _ hn hx _ => exact (h.operand hn hx).1

/-! ### Single uses -/

theorem add_le_sum {α : Type} (g : α → Nat) {l : List α} {i j : Nat} {a b : α} (hij : i ≠ j)
    (hi : l[i]? = some a) (hj : l[j]? = some b) : g a + g b ≤ (l.map g).sum := by
  induction l generalizing i j with
  | nil => simp at hi
  | cons c l ih =>
    have hmem {k : Nat} {d : α} (hd : l[k]? = some d) : g d ≤ (l.map g).sum :=
      List.single_le_sum (fun _ _ => Nat.zero_le _) _ (List.mem_map_of_mem (List.mem_of_getElem? hd))
    rw [List.map_cons, List.sum_cons]
    cases i with
    | zero =>
      obtain ⟨j, rfl⟩ := Nat.exists_eq_succ_of_ne_zero (Ne.symm hij)
      obtain rfl : c = a := by simpa using hi
      have := hmem (by simpa using hj)
      omega
    | succ i =>
      cases j with
      | zero =>
        obtain rfl : c = b := by simpa using hj
        have := hmem (by simpa using hi)
        omega
      | succ j =>
        have := ih (i := i) (j := j) (by omega) (by simpa using hi) (by simpa using hj)
        omega

/-- Two members of a list with the same image make that image occur twice. -/
theorem two_le_count_map {l : List NodeId} {a b : NodeId} (hab : a ≠ b) (ha : a ∈ l) (hb : b ∈ l)
    (hf : f a = f b) : 2 ≤ (l.map f).count (f a) := by
  have hb' : b ∈ l.erase a := (List.mem_erase_of_ne (Ne.symm hab)).2 hb
  have hperm : l.Perm (a :: b :: (l.erase a).erase b) :=
    (List.perm_cons_erase ha).trans ((List.perm_cons_erase hb').cons a)
  rw [(hperm.map f).count_eq]
  simp [hf]

/-- A node without a number occurs once at most. -/
theorem Sound.occurrences_le_one (h : Sound m) (hn : m.node? id = some n) (hr : n.ref = none) :
    m.occurrences id ≤ 1 := by
  obtain ⟨ht, hi⟩ := node?_eq_some.1 hn
  have hid : id = m.idAt id.index := (has_of_node? hn).eq_idAt
  have hu := h.counted.uses hi
  rw [← hid, List.count_nil] at hu
  by_contra hgt
  have := h.shared id.index n hi (.inl (by omega))
  simp [hr] at this

theorem count_le_occurrences (hn : m.node? id = some n) (x : NodeId) :
    n.operands.count x + m.topLevel.toList.count x ≤ m.occurrences x := by
  have hmem : n ∈ m.nodes.toList :=
    Array.mem_toList_iff.2 (Array.mem_of_getElem? (node?_eq_some.1 hn).2)
  have := List.single_le_sum (fun _ _ => Nat.zero_le _) _
    (List.mem_map_of_mem (f := fun n : Node => n.operands.count x) hmem)
  rw [occurrences]
  omega

/-- A node that occurs once at most has one user. -/
theorem user_unique {p q : NodeId} {np nq : Node} (hocc : m.occurrences x ≤ 1)
    (hp : m.node? p = some np) (hq : m.node? q = some nq) (hxp : x ∈ np.operands)
    (hxq : x ∈ nq.operands) : p = q := by
  obtain ⟨htp, hip⟩ := node?_eq_some.1 hp
  obtain ⟨htq, hiq⟩ := node?_eq_some.1 hq
  by_contra hne
  have hidx : p.index ≠ q.index := by
    intro he
    obtain ⟨kp, ip⟩ := p
    obtain ⟨kq, iq⟩ := q
    simp_all
  have hsum := add_le_sum (fun n : Node => n.operands.count x) (l := m.nodes.toList) hidx
    (by simpa using hip) (by simpa using hiq)
  have := List.count_pos_iff.2 hxp
  have := List.count_pos_iff.2 hxq
  rw [occurrences] at hocc
  omega

/-! ### Covers of the reachable nodes -/

theorem Covers.ref?_eq (hc : Covers f m' m) (hid : m'.Has id) : m.ref? (f id) = m'.ref? id := by
  obtain ⟨n', hn'⟩ := hid.exists_node
  obtain ⟨n, hn, -, hr⟩ := hc.node id n' hn'
  simp [ref?, hn, hn', hr]

/-- Why a node without a number is reachable. -/
theorem Reachable.cases_of_none (h : Sound m) (hid : m.Reachable id) (hr : m.ref? id = none) :
    id ∈ m.topLevel.toList ∨
      ∃ p n, m.Reachable p ∧ m.node? p = some n ∧ id ∈ n.operands := by
  cases hid with
  | ref hid =>
    obtain ⟨r, hr'⟩ := List.mem_iff_getElem?.1 hid
    rw [Array.getElem?_toList] at hr'
    simp [(h.numbered r id).1 hr'] at hr
  | topLevel hid => exact .inl hid
  | objective ho =>
    have := h.objective _ ho
    simp [hr] at this
  | operand hp hn hx => exact .inr ⟨_, _, hp, hn, hx⟩

/-- A cover by reachable nodes is one-to-one. -/
theorem Covers.injective (hc : Covers f m' m) (h' : Sound m') (h : Sound m) {a b : NodeId}
    (ha : m'.Reachable a) (hb : m'.Reachable b) (hab : f a = f b) : a = b := by
  induction hk : m'.nodes.size - a.index using Nat.strongRecOn generalizing a b with
  | _ k ih =>
  have hra := hc.ref?_eq (ha.has h')
  have hrb := hc.ref?_eq (hb.has h')
  cases href : m'.ref? a with
  | some r =>
    -- Numbers tell the numbered nodes apart.
    have hb' : m'.ref? b = some r := by rw [← hrb, ← hab, hra, href]
    exact Option.some.inj (((h'.numbered r a).2 href).symm.trans ((h'.numbered r b).2 hb'))
  | none =>
    have hb' : m'.ref? b = none := by rw [← hrb, ← hab, hra, href]
    obtain ⟨na, hna⟩ := (ha.has h').exists_node
    obtain ⟨n, hn, -, hr⟩ := hc.node a na hna
    have hocc : m.occurrences (f a) ≤ 1 := by
      refine h.occurrences_le_one hn (hr.trans ?_)
      simpa [ref?, hna] using href
    have htop {c : NodeId} (hc' : c ∈ m'.topLevel.toList) (hfc : f c = f a) :
        f a ∈ m.topLevel.toList := by
      rw [hc.topLevel, ← hfc]
      exact List.mem_map_of_mem hc'
    have hops {c p : NodeId} {np : Node} (hp : m'.node? p = some np) (hcp : c ∈ np.operands)
        (hfc : f c = f a) : ∃ nf, m.node? (f p) = some nf ∧ f a ∈ nf.operands := by
      obtain ⟨nf, hnf, -⟩ := hc.node p np hp
      refine ⟨nf, hnf, ?_⟩
      rw [hc.operands hp hnf, ← hfc]
      exact List.mem_map_of_mem hcp
    -- The one use of the node below is the image of the use of `a` and of that of `b`.
    have hmixed {p : NodeId} {nf : Node} (hp : m.node? p = some nf) (hx : f a ∈ nf.operands)
        (ht : f a ∈ m.topLevel.toList) : False := by
      have := count_le_occurrences hp (f a)
      have := List.count_pos_iff.2 hx
      have := List.count_pos_iff.2 ht
      omega
    by_contra hne
    obtain hta | ⟨p, np, hp, hnp, hap⟩ := ha.cases_of_none h' href <;>
      obtain htb | ⟨q, nq, hq, hnq, hbq⟩ := hb.cases_of_none h' hb'
    · have := two_le_count_map hne hta htb hab
      rw [← hc.topLevel] at this
      rw [occurrences] at hocc
      omega
    · obtain ⟨nf, hnf, hx⟩ := hops hnq hbq hab.symm
      exact hmixed hnf hx (htop hta rfl)
    · obtain ⟨nf, hnf, hx⟩ := hops hnp hap rfl
      exact hmixed hnf hx (htop htb hab.symm)
    · obtain ⟨nf, hnf, hx⟩ := hops hnp hap rfl
      obtain ⟨ng, hng, hy⟩ := hops hnq hbq hab.symm
      have hfpq : f p = f q := user_unique hocc hnf hng hx hy
      have hlt := (h'.operand hnp hap).2
      have hsize := (has_of_node? hnp).2
      obtain rfl : p = q := ih _ (by omega) hp hq hfpq rfl
      obtain rfl : np = nq := Option.some.inj (hnp.symm.trans hnq)
      have htwo := two_le_count_map hne hap hbq hab
      rw [← hc.operands hnp hnf] at htwo
      have := count_le_occurrences hnf (f a)
      omega

theorem Covers.reachable (hc : Covers f m' m) (hid : m'.Reachable id) : m.Reachable (f id) := by
  induction hid with
  | ref hid => exact .ref (hc.refs ▸ List.mem_map_of_mem hid)
  | topLevel hid => exact .topLevel (hc.topLevel ▸ List.mem_map_of_mem hid)
  | objective ho =>
    have := hc.objective
    rw [ho, Option.map_some] at this
    exact .objective this
  | operand _ hn hx ih =>
    obtain ⟨n, hn', -⟩ := hc.node _ _ hn
    exact .operand ih hn' (hc.operands hn hn' ▸ List.mem_map_of_mem hx)

theorem Covers.exists_reachable (hc : Covers f m' m) (h' : Sound m') (hx : m.Reachable x) :
    ∃ id, m'.Reachable id ∧ f id = x := by
  induction hx with
  | ref hx =>
    rw [hc.refs] at hx
    obtain ⟨id, hid, rfl⟩ := List.mem_map.1 hx
    exact ⟨id, .ref hid, rfl⟩
  | topLevel hx =>
    rw [hc.topLevel] at hx
    obtain ⟨id, hid, rfl⟩ := List.mem_map.1 hx
    exact ⟨id, .topLevel hid, rfl⟩
  | objective ho =>
    rw [hc.objective] at ho
    obtain ⟨o, ho', rfl⟩ := Option.map_eq_some_iff.1 ho
    exact ⟨o.expr, .objective ho', rfl⟩
  | operand _ hn hx ih =>
    obtain ⟨p, hp, rfl⟩ := ih
    obtain ⟨np, hnp⟩ := (hp.has h').exists_node
    rw [hc.operands hnp hn] at hx
    obtain ⟨id, hid, rfl⟩ := List.mem_map.1 hx
    exact ⟨id, .operand hp hnp hid, rfl⟩

/-- A cover by a model of which every node is reachable is one-to-one onto the reachable nodes. -/
theorem Covers.bijOn (hc : Covers f m' m) (h' : Sound m') (h : Sound m)
    (hall : ∀ id, m'.Has id → m'.Reachable id) :
    Set.BijOn f {id | m'.Has id} {id | m.Reachable id} := by
  refine ⟨fun id hid => hc.reachable (hall id hid), fun a ha b hb hab => ?_, fun x hx => ?_⟩
  · exact hc.injective h' h (hall a ha) (hall b hb) hab
  · obtain ⟨id, hid, rfl⟩ := hc.exists_reachable h' hx
    exact ⟨id, hid.has h', rfl⟩

end Model

end Scheduling
