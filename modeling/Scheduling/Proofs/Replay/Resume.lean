import Mathlib.Logic.Equiv.Basic
import Scheduling.Proofs.Record.RoundTrip
import Scheduling.Proofs.Replay.Calls

/-!
# Building on after a reload

A model whose nodes are all reachable and the model that is read from its record match node for
node, uses included, so all further calls have the same outcomes on both and lead to the same record
(`building_resumes`).
-/

namespace Scheduling

namespace Model

variable {m m' : Model} {x : NodeId} {n n' : Node} {f g : NodeId → NodeId}

/-! ### One-to-one covers -/

theorem occurrences_eq_sum (m : Model) (y : NodeId) :
    m.occurrences y =
      (m.ids.map fun id => (m.node? id).elim 0 fun n => n.operands.count y).sum +
        m.topLevel.toList.count y := by
  have hnodes : (m.nodes.toList.map fun n => n.operands.count y) =
      m.ids.map fun id => (m.node? id).elim 0 fun n => n.operands.count y := by
    refine List.ext_getElem (by simp [ids]) fun i hi hi' => ?_
    have hi : i < m.nodes.size := by simpa using hi
    simp [ids, node?_idAt, hi]
  rw [occurrences, hnodes]

theorem count_map_of_injOn {l : List NodeId} (h : ∀ a ∈ l, f a = f x → a = x) :
    (l.map f).count (f x) = l.count x := by
  rw [List.count, List.count, List.countP_map]
  refine List.countP_congr fun a ha => ?_
  simp only [Function.comp_apply, beq_iff_eq]
  exact ⟨h a ha, fun he => congrArg f he⟩

section

variable (hc : Covers f m' m) (h' : Sound m') (h : Sound m)
  (hbij : Set.BijOn f {id | m'.Has id} {id | m.Has id})

include hbij in
theorem perm_ids_of_bijOn : (m'.ids.map f).Perm m.ids := by
  have hinj : ∀ a ∈ m'.ids, ∀ b ∈ m'.ids, f a = f b → a = b :=
    fun a ha b hb => hbij.injOn (mem_ids.1 ha) (mem_ids.1 hb)
  refine (List.perm_ext_iff_of_nodup (nodup_ids.map_on hinj) nodup_ids).2 fun y => ?_
  rw [List.mem_map, mem_ids]
  constructor
  · rintro ⟨x, hx, rfl⟩
    exact hbij.mapsTo (mem_ids.1 hx)
  · intro hy
    obtain ⟨x, hx, rfl⟩ := hbij.surjOn hy
    exact ⟨x, mem_ids.2 hx, rfl⟩

include hbij in
theorem size_eq_of_bijOn : m'.nodes.size = m.nodes.size := by
  simpa [ids] using (perm_ids_of_bijOn hbij).length_eq

include hc h' hbij in
/-- Without other nodes, the nodes of the model below occur as often as those above. -/
theorem Covers.occurrences_eq (hx : m'.Has x) : m.occurrences (f x) = m'.occurrences x := by
  have hcount {l : List NodeId} (hl : ∀ a ∈ l, m'.Has a) : (l.map f).count (f x) = l.count x :=
    count_map_of_injOn fun a ha he => hbij.injOn (hl a ha) hx he
  have hnodes : ∀ id ∈ m'.ids, ((m.node? (f id)).elim 0 fun n => n.operands.count (f x)) =
      (m'.node? id).elim 0 fun n => n.operands.count x := by
    intro id hid
    obtain ⟨n', hn'⟩ := (mem_ids.1 hid).exists_node
    obtain ⟨n, hn, hcopy, -⟩ := hc.node id n' hn'
    rw [hn, hn', Option.elim_some, Option.elim_some, hcopy.operands]
    exact hcount fun a ha => (h'.operand hn' ha).1
  rw [occurrences_eq_sum, occurrences_eq_sum, hc.topLevel, hcount h'.topLevel_has,
    ← ((perm_ids_of_bijOn hbij).map _).sum_eq, List.map_map]
  exact congrArg (fun l : List Nat => l.sum + _) (List.map_congr_left hnodes)

include hc h' h hbij in
/-- A one-to-one cover keeps the uses too. -/
theorem Covers.matches : Matches f m' m := by
  refine ⟨fun id n' hn' => ?_, fun a b ha hb => hbij.injOn ha hb, fun y n hn hfree => ?_, hc.name,
    hc.refs, hc.topLevel, hc.objective⟩
  · obtain ⟨n, hn, hcopy, href⟩ := hc.node id n' hn'
    refine ⟨n, hn, hcopy, href, ?_⟩
    have hid := has_of_node? hn'
    have hocc := hc.occurrences_eq h' hbij hid
    have hu := h.counted.uses (node?_eq_some.1 hn).2
    have hu' := h'.counted.uses (node?_eq_some.1 hn').2
    rw [← (has_of_node? hn).eq_idAt] at hu
    rw [← hid.eq_idAt] at hu'
    simp only [List.count_nil] at hu hu'
    omega
  · obtain ⟨x, hx, hxy⟩ := hbij.surjOn (has_of_node? hn)
    exact (hfree x hx hxy).elim

end

/-! ### All names -/

/-- A map of nodes that also maps the names that are not in use yet. -/
def mapNames (m' m : Model) (f : NodeId → NodeId) (id : NodeId) : NodeId :=
  if m'.Has id then f id else ⟨Equiv.swap m'.tag m.tag id.model, id.index⟩

/-- The names of nodes to come are exchanged between the tags of both models. -/
theorem mapNames_of_not_has (hx : ¬ m'.Has x) :
    mapNames m' m f x = ⟨Equiv.swap m'.tag m.tag x.model, x.index⟩ := if_neg hx

theorem not_has_swap (hs : m'.nodes.size = m.nodes.size) (hx : ¬ m'.Has x) :
    ¬ m.Has ⟨Equiv.swap m'.tag m.tag x.model, x.index⟩ := by
  rintro ⟨ht, hi⟩
  have htag : x.model = m'.tag := by
    rw [Equiv.swap_apply_eq_iff, Equiv.swap_apply_right] at ht
    exact ht
  exact hx ⟨htag, by simpa [hs] using hi⟩

theorem bijective_mapNames (hbij : Set.BijOn f {id | m'.Has id} {id | m.Has id}) :
    Function.Bijective (mapNames m' m f) := by
  have hs := size_eq_of_bijOn hbij
  have hpos {x : NodeId} (hx : m'.Has x) : mapNames m' m f x = f x := if_pos hx
  constructor
  · intro a b hab
    by_cases ha : m'.Has a <;> by_cases hb : m'.Has b
    · rw [hpos ha, hpos hb] at hab
      exact hbij.injOn ha hb hab
    · rw [hpos ha, mapNames_of_not_has hb] at hab
      exact (not_has_swap hs hb (hab ▸ hbij.mapsTo ha)).elim
    · rw [hpos hb, mapNames_of_not_has ha] at hab
      exact (not_has_swap hs ha (hab ▸ hbij.mapsTo hb)).elim
    · rw [mapNames_of_not_has ha, mapNames_of_not_has hb] at hab
      obtain ⟨k, i⟩ := a
      obtain ⟨k', j⟩ := b
      simpa using hab
  · intro y
    by_cases hy : m.Has y
    · obtain ⟨x, hx, rfl⟩ := hbij.surjOn hy
      exact ⟨x, hpos hx⟩
    · refine ⟨⟨Equiv.swap m'.tag m.tag y.model, y.index⟩, ?_⟩
      rw [mapNames_of_not_has]
      · simp
      · rw [Equiv.swap_comm]
        exact not_has_swap hs.symm hy

theorem exact_mapNames (hbij : Set.BijOn f {id | m'.Has id} {id | m.Has id}) :
    Exact (mapNames m' m f) m' m := by
  refine ⟨size_eq_of_bijOn hbij, (bijective_mapNames hbij).injective, fun y hy => ?_,
    fun i hi => ?_⟩
  · obtain ⟨x, hx, rfl⟩ := hbij.surjOn hy
    exact ⟨x, hx, if_pos hx⟩
  · rw [mapNames_of_not_has (by simp [has_idAt, hi])]
    simp [idAt]

/-! ### Runs -/

theorem ModelError.rename_rename (e : ModelError) : (e.rename f).rename g = e.rename (g ∘ f) := by
  cases e <;> rfl

theorem renameOutcome_renameOutcome (r : Except ModelError (Option NodeId)) :
    renameOutcome g (renameOutcome f r) = renameOutcome (g ∘ f) r := by
  cases r with
  | ok r => simp [renameOutcome]
  | error e => simp [renameOutcome, ModelError.rename_rename]

theorem renameOutcome_id (r : Except ModelError (Option NodeId)) : renameOutcome id r = r := by
  rcases r with (e | r)
  · cases e <;> rfl
  · simp [renameOutcome]

/-- The run: when the map is right for all names, it is so after any calls, which have the same
outcomes on both models. -/
theorem Tracks.calls (h : Tracks f m' m) (he : Exact f m' m) (cs : List Call) :
    Tracks f (m'.calls cs) (m.calls (cs.map (·.rename f))) ∧
      m.outcomes (cs.map (·.rename f)) = (m'.outcomes cs).map (renameOutcome f) := by
  induction cs generalizing m' m with
  | nil => exact ⟨h, rfl⟩
  | cons c cs ih =>
    obtain ⟨f₁, hl, ht, hr⟩ := h.call c (g := f) fun x _ => ⟨rfl, .inr he⟩
    obtain ⟨rfl, he₁⟩ := hl.exact he
    obtain ⟨ht', hrs⟩ := ih ht he₁
    exact ⟨ht', by rw [List.map_cons, outcomes, outcomes, List.map_cons, hr, hrs]⟩

/-- The constant is built before the variable, and numbered after it. -/
def lateNumber : List Call := [
  .intConst 5,
  .intVar ⟨none, none, none, some "x"⟩,
  .int .plus (.node ⟨0, 1⟩) (.const 5),
  .compare .le (.node ⟨0, 2⟩) (.int 5),
  .constraint (.node ⟨0, 3⟩)]

end Model

end Scheduling
