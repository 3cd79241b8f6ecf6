import Scheduling.Proofs.Benchmark.Stats
import Scheduling.Proofs.FloatOrder

/-!
# The best figures of a model

A run is compared with what the runs before it gave, in the sense that the run itself states. So the
best objective of a model hangs on the order of its runs when only some of them state that the model
maximizes. It is the best one in every order exactly when those runs do not matter
(`Report.aggregate_best_iff`).
-/

namespace Scheduling

namespace ModelStats

variable {up : Bool} {a b c x y : Float} {p : Bool × Float} {ps qs : List (Bool × Float)}
  {o o' : Option Float}

/-! ### Better figures -/

/-- A figure is not better than another one in a sense: not greater when `up`, otherwise not less. -/
def NoBetter (up : Bool) (y x : Float) : Prop := if up then y ≤ x else x ≤ y

instance (up : Bool) (y x : Float) : Decidable (NoBetter up y x) :=
  inferInstanceAs (Decidable (if up then _ else _))

theorem noBetter_not : NoBetter (!up) y x ↔ NoBetter up x y := by cases up <;> simp [NoBetter]

section Numbers

variable (ha : a.isNaN = false) (hb : b.isNaN = false) (hc : c.isNaN = false)

include ha

theorem NoBetter.refl : NoBetter up a a := by
  cases up <;> exact (le_iff_rank ha ha).2 le_rfl

include hb

theorem NoBetter.total (up : Bool) : NoBetter up a b ∨ NoBetter up b a := by
  cases up <;> simp only [NoBetter, le_iff_rank ha hb, le_iff_rank hb ha] <;> exact le_total _ _

/-- Of two figures the first one is picked when the second one is not better. -/
theorem pick_eq_left (h : NoBetter up b a) : pick up a b = a := by
  cases up with
  | true =>
    have hle : rank b ≤ rank a := (le_iff_rank hb ha).1 h
    show (if a.isNaN then b else if a < b then b else a) = a
    rw [ha, if_neg Bool.false_ne_true, if_neg]
    rw [lt_iff_rank ha hb]
    exact not_lt.2 hle
  | false =>
    have hle : rank a ≤ rank b := (le_iff_rank ha hb).1 h
    show (if a.isNaN then b else if b < a then b else a) = a
    rw [ha, if_neg Bool.false_ne_true, if_neg]
    rw [lt_iff_rank hb ha]
    exact not_lt.2 hle

theorem pick_eq_right (h : ¬ NoBetter up b a) : pick up a b = b := by
  cases up with
  | true =>
    have hlt : rank a < rank b := not_le.1 fun hle => h ((le_iff_rank hb ha).2 hle)
    show (if a.isNaN then b else if a < b then b else a) = b
    rw [ha, if_neg Bool.false_ne_true, if_pos ((lt_iff_rank ha hb).2 hlt)]
  | false =>
    have hlt : rank b < rank a := not_le.1 fun hle => h ((le_iff_rank ha hb).2 hle)
    show (if a.isNaN then b else if b < a then b else a) = b
    rw [ha, if_neg Bool.false_ne_true, if_pos ((lt_iff_rank hb ha).2 hlt)]

theorem NoBetter.beq (h : NoBetter up a b) (h' : NoBetter up b a) : (a == b) = true := by
  rw [beq_iff_rank ha hb]
  cases up with
  | true => exact le_antisymm ((le_iff_rank ha hb).1 h) ((le_iff_rank hb ha).1 h')
  | false => exact le_antisymm ((le_iff_rank ha hb).1 h') ((le_iff_rank hb ha).1 h)

theorem pick_eq_or (up : Bool) : pick up a b = a ∨ pick up a b = b := by
  by_cases h : NoBetter up b a
  · exact .inl (pick_eq_left ha hb h)
  · exact .inr (pick_eq_right ha hb h)

theorem isNaN_pick (up : Bool) : (pick up a b).isNaN = false := by
  rcases pick_eq_or ha hb up with h | h <;> rw [h]
  · exact ha
  · exact hb

/-- Neither of two figures is better than the one that is picked. -/
theorem noBetter_pick (up : Bool) : NoBetter up a (pick up a b) ∧ NoBetter up b (pick up a b) := by
  by_cases h : NoBetter up b a
  · rw [pick_eq_left ha hb h]
    exact ⟨.refl ha, h⟩
  · rw [pick_eq_right ha hb h]
    exact ⟨(NoBetter.total ha hb up).resolve_right h, .refl hb⟩

include hc

theorem NoBetter.trans (h : NoBetter up a b) (h' : NoBetter up b c) : NoBetter up a c := by
  cases up with
  | true => exact (le_iff_rank ha hc).2 (((le_iff_rank ha hb).1 h).trans ((le_iff_rank hb hc).1 h'))
  | false => exact (le_iff_rank hc ha).2 (((le_iff_rank hc hb).1 h').trans ((le_iff_rank hb ha).1 h))

end Numbers

/-! ### Comparing one figure after the other -/

/-- The figure that is left when figures are compared with it one after the other, each in its own
sense. -/
def bestFrom (best : Option Float) (ps : List (Bool × Float)) : Option Float :=
  ps.foldl (fun best p => better (pick p.1) best (some p.2)) best

/-- All figures are numbers. -/
def Numbers (ps : List (Bool × Float)) : Prop := ∀ p ∈ ps, p.2.isNaN = false

/-- The figure is one of the list, and none of the list is better; there is none when the list is
empty. -/
def IsBest (up : Bool) (ps : List (Bool × Float)) : Option Float → Prop
  | none => ps = []
  | some x => (∃ p ∈ ps, p.2 = x) ∧ ∀ p ∈ ps, NoBetter up p.2 x

/-- Whoever is compared in the other sense has a best figure, and so has one of those who are
compared in the sense, unless there are none. -/
def Settled (up : Bool) (ps : List (Bool × Float)) : Prop :=
  (∀ p ∈ ps, p.1 ≠ up → ∀ q ∈ ps, NoBetter up q.2 p.2) ∧
    ((∃ p ∈ ps, p.1 = up) → ∃ p ∈ ps, p.1 = up ∧ ∀ q ∈ ps, NoBetter up q.2 p.2)

instance (up : Bool) (ps : List (Bool × Float)) : Decidable (Settled up ps) :=
  inferInstanceAs (Decidable ((∀ p ∈ ps, _ → ∀ q ∈ ps, _) ∧
    ((∃ p ∈ ps, _) → ∃ p ∈ ps, _ ∧ ∀ q ∈ ps, _)))

theorem bestFrom_concat (best : Option Float) (ps : List (Bool × Float)) (p : Bool × Float) :
    bestFrom best (ps ++ [p]) = better (pick p.1) (bestFrom best ps) (some p.2) :=
  List.foldl_concat ..

theorem bestFrom_append (best : Option Float) (ps qs : List (Bool × Float)) :
    bestFrom best (ps ++ qs) = bestFrom (bestFrom best ps) qs := List.foldl_append ..

theorem IsBest.congr (hperm : qs.Perm ps) (h : IsBest up qs o) : IsBest up ps o := by
  cases o with
  | none => exact List.perm_nil.1 ((show qs = [] from h) ▸ hperm.symm)
  | some x =>
    obtain ⟨⟨p, hp, hx⟩, hall⟩ := h
    exact ⟨⟨p, hperm.mem_iff.1 hp, hx⟩, fun q hq => hall q (hperm.mem_iff.2 hq)⟩

/-- Two best figures are equal. -/
theorem IsBest.beq (hnum : Numbers ps) (h : IsBest up ps o) (h' : IsBest up ps o') :
    (o == o') = true := by
  cases o with
  | none =>
    cases o' with
    | none => rfl
    | some y =>
      obtain ⟨⟨p, hp, -⟩, -⟩ := h'
      rw [show ps = [] from h] at hp
      exact nomatch hp
  | some x =>
    obtain ⟨⟨p, hp, rfl⟩, hall⟩ := h
    cases o' with
    | none =>
      rw [show ps = [] from h'] at hp
      exact nomatch hp
    | some y =>
      obtain ⟨⟨q, hq, rfl⟩, hall'⟩ := h'
      exact NoBetter.beq (hnum p hp) (hnum q hq) (hall' p hp) (hall q hq)

/-- Some figure is left, and it is one of those that were compared. -/
theorem exists_bestFrom (hne : ps ≠ []) (hnum : Numbers ps) :
    ∃ x, bestFrom none ps = some x ∧ ∃ p ∈ ps, p.2 = x := by
  induction ps using List.reverseRecOn with
  | nil => exact absurd rfl hne
  | append_singleton ps p ih =>
    rw [bestFrom_concat]
    obtain rfl | hps := eq_or_ne ps []
    · exact ⟨p.2, rfl, p, by simp, rfl⟩
    obtain ⟨x, hleft, q, hq, rfl⟩ := ih hps fun q hq => hnum q (List.mem_append_left _ hq)
    rw [hleft, better]
    have hq' : q ∈ ps ++ [p] := List.mem_append_left _ hq
    refine ⟨_, rfl, ?_⟩
    rcases pick_eq_or (hnum q hq') (hnum p (by simp)) p.1 with h | h
    · exact ⟨q, hq', h.symm⟩
    · exact ⟨p, by simp, h.symm⟩

/-- What is left when all are compared in one sense is not worse than what they started with. -/
theorem noBetter_bestFrom (hnum : Numbers ps) (hps : ∀ p ∈ ps, p.1 = up) (ha : a.isNaN = false) :
    ∃ x, bestFrom (some a) ps = some x ∧ x.isNaN = false ∧ NoBetter up a x := by
  induction ps using List.reverseRecOn with
  | nil => exact ⟨a, rfl, ha, .refl ha⟩
  | append_singleton ps p ih =>
    obtain ⟨x, hleft, hx, hax⟩ := ih (fun q hq => hnum q (List.mem_append_left _ hq))
      fun q hq => hps q (List.mem_append_left _ hq)
    have hp : p.2.isNaN = false := hnum p (by simp)
    have hup : p.1 = up := hps p (by simp)
    rw [bestFrom_concat, hleft, better, hup]
    have hxle := (noBetter_pick hx hp up).1
    exact ⟨_, rfl, isNaN_pick hx hp up, hax.trans ha hx (isNaN_pick hx hp up) hxle⟩

/-! ### Settled lists -/

/-- As long as no figure is better than one that is compared in the other sense, what is left is not
worse than any figure that is compared in the sense. -/
theorem noBetter_bestFrom_of_settled (hnum : Numbers ps)
    (hother : ∀ p ∈ ps, p.1 ≠ up → ∀ q ∈ ps, NoBetter up q.2 p.2)
    (hx : bestFrom none ps = some x) : ∀ p ∈ ps, p.1 = up → NoBetter up p.2 x := by
  induction ps using List.reverseRecOn generalizing x with
  | nil => exact fun p hp => nomatch hp
  | append_singleton ps p ih =>
    have hp : p.2.isNaN = false := hnum p (by simp)
    have hnum' : Numbers ps := fun q hq => hnum q (List.mem_append_left _ hq)
    rw [bestFrom_concat] at hx
    obtain rfl | hps := eq_or_ne ps []
    · obtain rfl : p.2 = x := Option.some.inj hx
      intro q hq _
      obtain rfl : q = p := by simpa using hq
      exact .refl hp
    obtain ⟨y, hleft, r, hr, rfl⟩ := exists_bestFrom hps hnum'
    have hr' : r ∈ ps ++ [p] := List.mem_append_left _ hr
    have hrn : r.2.isNaN = false := hnum r hr'
    have hall := ih hnum' (fun q hq hqup t ht =>
      hother q (List.mem_append_left _ hq) hqup t (List.mem_append_left _ ht)) hleft
    rw [hleft, better, Option.some.injEq] at hx
    have hrx : NoBetter up r.2 x ∧ (p.1 = up → NoBetter up p.2 x) := by
      by_cases hup : p.1 = up
      · rw [← hx, hup]
        exact ⟨(noBetter_pick hrn hp up).1, fun _ => (noBetter_pick hrn hp up).2⟩
      · -- No figure is better than this one, so the one before stays.
        have hstay : NoBetter (!up) p.2 r.2 := noBetter_not.2 (hother p (by simp) hup r hr')
        rw [← hx, show p.1 = !up from Bool.eq_not.2 hup, pick_eq_left hrn hp hstay]
        exact ⟨.refl hrn, fun h => absurd h (by simp)⟩
    have hxn : x.isNaN = false := hx ▸ isNaN_pick hrn hp p.1
    intro q hq hqup
    rcases List.mem_append.1 hq with hq | hq
    · exact (hall q hq hqup).trans (hnum' q hq) hrn hxn hrx.1
    · obtain rfl : q = p := List.mem_singleton.1 hq
      exact hrx.2 hqup

/-- A settled list leaves a best figure. -/
theorem Settled.isBest (h : Settled up ps) (hnum : Numbers ps) : IsBest up ps (bestFrom none ps) := by
  obtain rfl | hne := eq_or_ne ps []
  · exact rfl
  obtain ⟨hother, hgoal⟩ := h
  obtain ⟨x, hleft, p, hp, rfl⟩ := exists_bestFrom hne hnum
  have hall := noBetter_bestFrom_of_settled hnum hother hleft
  rw [hleft]
  refine ⟨⟨p, hp, rfl⟩, fun q hq => ?_⟩
  by_cases hup : ∃ r ∈ ps, r.1 = up
  · obtain ⟨r, hr, hrup, hrbest⟩ := hgoal hup
    exact (hrbest q hq).trans (hnum q hq) (hnum r hr) (hnum p hp) (hall r hr hrup)
  · exact hother p hp (fun hpup => hup ⟨p, hp, hpup⟩) q hq

theorem Settled.perm (h : Settled up ps) (hperm : qs.Perm ps) : Settled up qs := by
  simpa only [Settled, hperm.mem_iff] using h

/-- Compared last in the other sense, a figure leaves a best one only if it is a best one itself. -/
theorem noBetter_of_last {p : Bool × Float} (hnum : Numbers (qs ++ [p])) (hp : p.1 ≠ up)
    (hbest : IsBest up (qs ++ [p]) (bestFrom none (qs ++ [p]))) :
    ∀ q ∈ qs ++ [p], NoBetter up q.2 p.2 := by
  have hpn : p.2.isNaN = false := hnum p (by simp)
  have hnum' : Numbers qs := fun q hq => hnum q (List.mem_append_left _ hq)
  obtain rfl | hne := eq_or_ne qs []
  · intro q hq
    obtain rfl : q = p := by simpa using hq
    exact .refl hpn
  obtain ⟨x, hleft, r, hr, rfl⟩ := exists_bestFrom hne hnum'
  rw [bestFrom_concat, hleft, better, show p.1 = !up from Bool.eq_not.2 hp] at hbest
  have hple := noBetter_not.1 (noBetter_pick (hnum' r hr) hpn (!up)).2
  have hpick := isNaN_pick (hnum' r hr) hpn (!up)
  exact fun q hq => (hbest.2 q hq).trans (hnum q hq) hpick hpn hple

/-- Compared before the others, the figures of a sense leave a best one only if they hold one. -/
theorem exists_noBetter_of_first {rs : List (Bool × Float)} (hnum : Numbers (qs ++ rs))
    (hne : qs ≠ []) (hrs : ∀ p ∈ rs, p.1 = !up)
    (hbest : IsBest up (qs ++ rs) (bestFrom none (qs ++ rs))) :
    ∃ p ∈ qs, ∀ q ∈ qs ++ rs, NoBetter up q.2 p.2 := by
  obtain ⟨y, hleft, p, hp, rfl⟩ :=
    exists_bestFrom hne fun q hq => hnum q (List.mem_append_left _ hq)
  have hpn : p.2.isNaN = false := hnum p (List.mem_append_left _ hp)
  obtain ⟨x, hx, hxn, hpx⟩ :=
    noBetter_bestFrom (fun q hq => hnum q (List.mem_append_right _ hq)) hrs hpn
  rw [bestFrom_append, hleft, hx] at hbest
  obtain ⟨-, hall⟩ := hbest
  exact ⟨p, hp, fun q hq => (hall q hq).trans (hnum q hq) hxn hpn (noBetter_not.1 hpx)⟩

/-- The figure that is left is a best one in every order exactly when the list is settled. -/
theorem isBest_iff_settled (hnum : Numbers ps) :
    (∀ qs, qs.Perm ps → IsBest up ps (bestFrom none qs)) ↔ Settled up ps := by
  constructor
  · intro h
    have hnum' {qs} (hperm : qs.Perm ps) : Numbers qs := fun q hq => hnum q (hperm.mem_iff.1 hq)
    refine ⟨fun p hp hpup q hq => ?_, fun ⟨p, hp, hpup⟩ => ?_⟩
    · -- The order in which `p` comes last.
      obtain ⟨l, r, rfl⟩ := List.append_of_mem hp
      have hperm : (l ++ r ++ [p]).Perm (l ++ p :: r) := by
        rw [List.append_assoc]
        exact (List.perm_append_singleton p r).append_left l
      exact noBetter_of_last (hnum' hperm) hpup ((h _ hperm).congr hperm.symm) q
        (hperm.mem_iff.2 hq)
    · -- The order in which those of the sense come first.
      have hperm := List.filter_append_perm (fun p => p.1 == up) ps
      have hothers : ∀ q ∈ ps.filter (fun p => !(p.1 == up)), q.1 = !up := by
        intro q hq
        exact Bool.eq_not.2 (by simpa using (List.mem_filter.1 hq).2)
      obtain ⟨q, hq, hall⟩ := exists_noBetter_of_first (hnum' hperm)
        (List.ne_nil_of_mem (List.mem_filter.2 ⟨hp, beq_iff_eq.2 hpup⟩)) hothers
        ((h _ hperm).congr hperm.symm)
      obtain ⟨hq, hqup⟩ := List.mem_filter.1 hq
      exact ⟨q, hq, beq_iff_eq.1 hqup, fun r hr => hall r (hperm.mem_iff.2 hr)⟩
  · intro h qs hperm
    have hqs : IsBest up qs (bestFrom none qs) :=
      (h.perm hperm).isBest fun q hq => hnum q (hperm.mem_iff.1 hq)
    exact hqs.congr hperm

end ModelStats

namespace Report

open ModelStats

variable {results : List RunResult} {name : String}

/-! ### Runs of a model -/

/-- The figures that the runs of a model give, each with whether its run is compared upwards. -/
def sensed (up : RunResult → Bool) (value : RunResult → Option Float) (name : String)
    (results : List RunResult) : List (Bool × Float) :=
  (runsOf name results).filterMap fun r => (value r).map (up r, ·)

/-- The objectives that a model's runs give: one that says that the model maximizes is compared
upwards. -/
def objectives : String → List RunResult → List (Bool × Float) :=
  sensed (·.maximizes) (·.objective?)

/-- The bounds that a model's runs give: one that says that the model maximizes is compared
downwards. -/
def bounds : String → List RunResult → List (Bool × Float) :=
  sensed (fun r => !r.maximizes) (·.lowerBound?)

/-- Whether some run says that the model maximizes. -/
def maximizes (name : String) (results : List RunResult) : Bool :=
  (runsOf name results).any (·.maximizes)

/-- In every order of the results a figure of the model is a best one in the sense, and always the
same. -/
def BestInEveryOrder (up : Bool) (ps : List (Bool × Float)) (figure : ModelStats → Option Float)
    (name : String) (results : List RunResult) : Prop :=
  ∃ best, ∀ results', results'.Perm results → ∀ s ∈ aggregate results', s.modelName = name →
    IsBest up ps (figure s) ∧ (figure s == best) = true

section Figure

variable {up : RunResult → Bool} {value : RunResult → Option Float}
  {figure : ModelStats → Option Float}

/-- A figure that each run adds to as the objective does is what is left of the runs' figures. -/
theorem figure_foldl_add
    (hadd : ∀ s r, figure (s.add r) = better (pick (up r)) (figure s) (value r))
    (s : ModelStats) (rs : List RunResult) :
    figure (rs.foldl add s) =
      bestFrom (figure s) (rs.filterMap fun r => (value r).map (up r, ·)) := by
  induction rs generalizing s with
  | nil => rfl
  | cons r rs ih =>
    rw [List.foldl_cons, ih, hadd, List.filterMap_cons]
    cases value r with
    | none => rw [better_none, Option.map_none]
    | some x => rfl

/-- A reordering of what is picked from a list is what is picked from a reordering of the list. -/
theorem exists_perm_filterMap {α β : Type} {f : α → Option β} {ys : List β} {xs : List α}
    (h : ys.Perm (xs.filterMap f)) : ∃ xs' : List α, xs'.Perm xs ∧ xs'.filterMap f = ys := by
  induction ys generalizing xs with
  | nil => exact ⟨xs, .refl xs, List.nil_perm.1 h⟩
  | cons y ys ih =>
    obtain ⟨x, hx, hxy⟩ := List.mem_filterMap.1 (h.mem_iff.1 List.mem_cons_self)
    obtain ⟨l, r, rfl⟩ := List.append_of_mem hx
    have hrest : ys.Perm ((l ++ r).filterMap f) := by
      refine List.Perm.cons_inv (a := y) (h.trans ?_)
      rw [List.filterMap_append, List.filterMap_append, List.filterMap_cons_some hxy]
      exact List.perm_middle
    obtain ⟨xs', hperm, heq⟩ := ih hrest
    exact ⟨x :: xs', (hperm.cons x).trans List.perm_middle.symm,
      by rw [List.filterMap_cons_some hxy, heq]⟩

theorem sensed_eq (results : List RunResult) : sensed up value name results =
    results.filterMap fun r =>
      if r.modelName = name then (value r).map (up r, ·) else none := by
  rw [sensed, runsOf, List.filterMap_filter]
  simp only [decide_eq_true_eq]

theorem bestInEveryOrder_iff (hempty : ∀ name, figure (empty name) = none)
    (hadd : ∀ s r, figure (s.add r) = better (pick (up r)) (figure s) (value r))
    (hnum : ∀ r ∈ results, ∀ x ∈ value r, x.isNaN = false) (hname : name ∈ modelNames results)
    (goal : Bool) :
    BestInEveryOrder goal (sensed up value name results) figure name results ↔
      Settled goal (sensed up value name results) := by
  have hnumbers : Numbers (sensed up value name results) := by
    intro p hp
    obtain ⟨r, hr, hp⟩ := List.mem_filterMap.1 hp
    obtain ⟨x, hx, rfl⟩ := Option.map_eq_some_iff.1 hp
    exact hnum r (List.mem_of_mem_filter hr) x hx
  have hfigure (results' : List RunResult) :
      figure (statsOf name results') = bestFrom none (sensed up value name results') := by
    rw [statsOf, figure_foldl_add hadd, hempty, sensed]
  have hmem {results' : List RunResult} (hperm : results'.Perm results) (s : ModelStats) :
      s ∈ aggregate results' ∧ s.modelName = name ↔ s = statsOf name results' := by
    constructor
    · rintro ⟨hs, rfl⟩
      exact (mem_aggregate.1 hs).2
    · rintro rfl
      have hname' : name ∈ modelNames results' := by
        obtain ⟨r, hr, hrname⟩ := mem_modelNames.1 hname
        exact mem_modelNames.2 ⟨r, hperm.mem_iff.2 hr, hrname⟩
      rw [mem_aggregate, statsOf_modelName]
      exact ⟨⟨hname', rfl⟩, rfl⟩
  rw [← isBest_iff_settled hnumbers]
  constructor
  · rintro ⟨best, h⟩ qs hqs
    rw [sensed_eq] at hqs
    obtain ⟨results', hperm, hqs⟩ := exists_perm_filterMap hqs
    obtain ⟨hs, hsname⟩ := (hmem hperm _).2 rfl
    rw [← hqs, ← sensed_eq, ← hfigure]
    exact (h results' hperm _ hs hsname).1
  · intro h
    refine ⟨figure (statsOf name results), fun results' hperm s hs hsname => ?_⟩
    obtain rfl := (hmem hperm s).1 ⟨hs, hsname⟩
    have hsensed : (sensed up value name results').Perm (sensed up value name results) :=
      (hperm.filter _).filterMap _
    have hbest := h _ hsensed
    rw [hfigure, hfigure]
    exact ⟨hbest, hbest.beq hnumbers (h _ (.refl _))⟩

end Figure

/-- In every order of the results each model has one entry, which counts its runs and those that
failed. Its best objective is in every order the greatest one, or when no run says that the model
maximizes the least one, exactly when the objectives are settled: those of the runs that do not say
so are the greatest, and one of a run that says so is, if there are any. The best lower bound is the
other way around. -/
theorem aggregate_best_iff (results : List RunResult)
    (hnumbers : ∀ r ∈ results,
      (∀ x ∈ r.objective?, x.isNaN = false) ∧ ∀ x ∈ r.lowerBound?, x.isNaN = false) :
    (∀ results', results'.Perm results →
      ((aggregate results').map (·.modelName)).Perm (modelNames results) ∧
        ∀ s ∈ aggregate results', s.runs = (runsOf s.modelName results).length ∧
          s.errors = (runsOf s.modelName results).countP (·.hasFailed)) ∧
    ∀ name ∈ modelNames results,
      (BestInEveryOrder (maximizes name results) (objectives name results) (·.bestObjective) name
        results ↔ Settled (maximizes name results) (objectives name results)) ∧
      (BestInEveryOrder (!maximizes name results) (bounds name results) (·.bestLowerBound) name
        results ↔ Settled (!maximizes name results) (bounds name results)) := by
  refine ⟨fun results' hperm => ⟨?_, fun s hs => ?_⟩, fun name hname => ⟨?_, ?_⟩⟩
  · rw [map_modelName_aggregate]
    exact modelNames_perm hperm
  · have hruns : (runsOf s.modelName results').Perm (runsOf s.modelName results) := hperm.filter _
    obtain ⟨hcount, herrors⟩ := statsOf_counts s.modelName results'
    rw [(mem_aggregate.1 hs).2, statsOf_modelName, hcount, herrors]
    exact ⟨hruns.length_eq, hruns.countP_eq _⟩
  · exact bestInEveryOrder_iff (fun _ => rfl) add_bestObjective (fun r hr => (hnumbers r hr).1)
      hname _
  · exact bestInEveryOrder_iff (fun _ => rfl) add_bestLowerBound (fun r hr => (hnumbers r hr).2)
      hname _

/-- A run whose summary states a sense and an objective. -/
def summarized (sense : Option Sense) (objective : Float) : RunResult :=
  ⟨"m", "", .empty, none, .solved { SolveResult.empty with
    summary := some { Summary.plain 1 0.25 true with
      sense := sense, objective := some objective } }⟩

theorem aggregate_best_iff_agreeing :
    let results :=
      [summarized (some .maximize) 3, summarized (some .maximize) 9, summarized none 9]
    (∀ r ∈ results,
      (∀ x ∈ r.objective?, x.isNaN = false) ∧ ∀ x ∈ r.lowerBound?, x.isNaN = false) ∧
      "m" ∈ modelNames results ∧
      BestInEveryOrder true [(true, 3), (true, 9), (false, 9)] (·.bestObjective) "m" results := by
  intro results
  have hnumbers : ∀ r ∈ results,
      (∀ x ∈ r.objective?, x.isNaN = false) ∧ ∀ x ∈ r.lowerBound?, x.isNaN = false := by
    decide
  have hname : "m" ∈ modelNames results := by decide
  have hmaximizes : maximizes "m" results = true := by decide
  have hobjectives : objectives "m" results = [(true, 3), (true, 9), (false, 9)] := rfl
  have hbest := ((aggregate_best_iff results hnumbers).2 "m" hname).1.2
  rw [hmaximizes, hobjectives] at hbest
  exact ⟨hnumbers, hname, hbest (by decide)⟩

/-- A run that does not say that the model maximizes hides the best objective when it comes last. -/
theorem unstated_sense_minimized :
    let results := [summarized (some .maximize) 9, summarized none 3]
    maximizes "m" results = true ∧
      (aggregate results).map (·.bestObjective) = [some 3] ∧
      (aggregate results.reverse).map (·.bestObjective) = [some 9] ∧
      ¬ BestInEveryOrder true (objectives "m" results) (·.bestObjective) "m" results := by
  intro results
  have hlast : (aggregate results).map (·.bestObjective) = [some 3] := by decide
  refine ⟨by decide, hlast, by decide, ?_⟩
  rintro ⟨best, h⟩
  obtain ⟨s, hs, hthree⟩ : ∃ s ∈ aggregate results, s.bestObjective = some 3 :=
    List.mem_map.1 (by rw [hlast]; exact List.mem_singleton.2 rfl)
  have hname : s.modelName = "m" := by
    have hmem := (mem_aggregate.1 hs).1
    rw [show modelNames results = ["m"] by decide] at hmem
    exact List.mem_singleton.1 hmem
  have hbest : IsBest true (objectives "m" results) s.bestObjective :=
    (h results (.refl _) s hs hname).1
  rw [hthree, show objectives "m" results = [(true, 9), (false, 3)] from rfl] at hbest
  obtain ⟨-, hall⟩ := hbest
  exact absurd (hall (true, 9) List.mem_cons_self) (by decide)

end Report

end Scheduling
