import Scheduling.Proofs.Record.Json

/-!
# Levels of records

A record that has more levels than a reader follows is refused: what lies too deep is in an argument
of a node, and an argument has to be readable as a whole (`ModelRecord.nesting_le`). All else in a
record is shallow.
-/

namespace Scheduling

namespace Json

variable {items : List Json} {members : List (String × Json)} {depth k : Nat} {α : Type}
  {read : Json → Option α} {as : List α}

/-! ### Levels of arrays and objects -/

theorem nestingOfItems_le_iff : nestingOfItems items ≤ k ↔ ∀ j ∈ items, j.nesting ≤ k := by
  induction items with
  | nil => simp [nestingOfItems]
  | cons j rest ih => rw [nestingOfItems, Nat.max_le, ih, List.forall_mem_cons]

theorem nestingOfMembers_le_iff : nestingOfMembers members ≤ k ↔ ∀ m ∈ members, m.2.nesting ≤ k := by
  induction members with
  | nil => simp [nestingOfMembers]
  | cons m rest ih => rw [nestingOfMembers, Nat.max_le, ih, List.forall_mem_cons]

theorem clip_arr (hd : depth < depthMax) (items : List Json) :
    clip depth (arr items) = arr (items.map (clip (depth + 1))) := by
  rw [clip, if_neg (by omega), clipItems_eq_map]

theorem clip_obj (hd : depth < depthMax) (members : List (String × Json)) :
    clip depth (obj members) = obj (members.map fun m => (m.1, clip (depth + 1) m.2)) := by
  rw [clip, if_neg (by omega), clipMembers_eq_map]

theorem keys_clip : (members.map fun m => (m.1, clip depth m.2)).map Prod.fst = members.map Prod.fst := by
  rw [List.map_map]
  rfl

theorem exists_of_mapM (h : items.mapM read = some as) : ∀ j ∈ items, ∃ a, read j = some a := by
  induction items generalizing as with
  | nil => simp
  | cons j rest ih =>
    rw [List.mapM_cons, Option.bind_eq_bind, Option.bind_eq_some_iff] at h
    obtain ⟨a, ha, h⟩ := h
    rw [Option.bind_eq_bind, Option.bind_eq_some_iff] at h
    obtain ⟨as', has, -⟩ := h
    exact List.forall_mem_cons.2 ⟨⟨a, ha⟩, ih has⟩

/-- What is read of a clipped array is read item by item. -/
theorem exists_of_list?_clip (hd : depth < depthMax)
    (h : list? read (clip depth (arr items)) = some as) :
    ∀ j ∈ items, ∃ a, read (clip (depth + 1) j) = some a := by
  rw [clip_arr hd] at h
  intro j hj
  exact exists_of_mapM h _ (List.mem_map_of_mem hj)

/-- A record of which some members are read has its keys at most once. -/
theorem fields?_clip {known needed : List String} (hd : depth < depthMax)
    (hk : (members.map Prod.fst).Sublist known) (hn : known.Nodup) :
    (clip depth (obj members)).fields? known needed =
      some (members.map fun m => (m.1, clip (depth + 1) m.2)) := by
  rw [clip_obj hd]
  exact knownMembers?_eq (keys_clip.symm ▸ hk) hn

theorem mem_member? {β : Type} {key : String} {o : Option β} {write : β → Json}
    {m : String × Json} (hm : m ∈ member? key o write) : ∃ b ∈ o, m = (key, write b) := by
  cases o with
  | none => exact (List.not_mem_nil hm).elim
  | some b => exact ⟨b, rfl, List.mem_singleton.1 hm⟩

theorem nesting_member? {β : Type} {key : String} {o : Option β} {write : β → Json}
    (h : ∀ b ∈ o, (write b).nesting ≤ k) : ∀ m ∈ member? key o write, m.2.nesting ≤ k := by
  intro m hm
  obtain ⟨b, hb, rfl⟩ := mem_member? hm
  exact h b hb

theorem nesting_arr_le {items : List Json} (h : ∀ j ∈ items, j.nesting ≤ k) :
    (arr items).nesting ≤ k + 1 := by
  have := nestingOfItems_le_iff.2 h
  rw [nesting]
  omega

theorem nesting_obj_le {members : List (String × Json)} (h : ∀ m ∈ members, m.2.nesting ≤ k) :
    (obj members).nesting ≤ k + 1 := by
  have := nestingOfMembers_le_iff.2 h
  rw [nesting]
  omega

theorem nesting_ofTable (rows : List (List Int)) : (ofTable rows).nesting ≤ 2 := by
  refine nesting_arr_le fun j hj => ?_
  obtain ⟨row, -, rfl⟩ := List.mem_map.1 hj
  refine nesting_arr_le fun j hj => ?_
  obtain ⟨v, -, rfl⟩ := List.mem_map.1 hj
  exact Nat.le_refl 0

end Json

open Json

variable {depth k : Nat}

/-! ### Nodes -/

theorem ArgRecord.nesting_le {j : Json} {a : ArgRecord} (hd : depth ≤ depthMax)
    (h : ofJson? (clip depth j) = some a) : depth + j.nesting ≤ depthMax := by
  rw [ofJson?] at h
  split at h
  · rename_i hs
    exact nesting_le_of_isSound_clip j depth hd hs
  · cases h

namespace NodeRecord

variable {unit : UnitForm} {n n' : NodeRecord}

theorem nesting_bounds (b : Bounds) : ∀ m ∈ b.members, m.2.nesting ≤ 0 := by
  have hfloat {key : String} {o : Option Float} :
      ∀ m ∈ member? key o .float, m.2.nesting ≤ 0 := nesting_member? fun _ _ => Nat.le_refl 0
  have hint {key : String} {o : Option Int} :
      ∀ m ∈ member? key o .int, m.2.nesting ≤ 0 := nesting_member? fun _ _ => Nat.le_refl 0
  simp only [Bounds.members, List.forall_mem_append]
  exact ⟨⟨⟨⟨⟨⟨⟨hfloat, hfloat⟩, hint⟩, hint⟩, hint⟩, hint⟩, hint⟩, hint⟩

/-- Beside its arguments, a node has no more levels than a table. -/
theorem nesting_nodeMembers (op : Operator) (items : List Json) (attributes : Attributes)
    (h : ∀ j ∈ items, j.nesting ≤ k) (hk : 1 ≤ k) :
    (Json.obj (ArgRecord.nodeMembers op items attributes)).nesting ≤ k + 2 := by
  have hfunc : ∀ m ∈ [("func", Json.str op.tag)], m.2.nesting ≤ k + 1 := by
    simp [nesting]
  have hname : ∀ m ∈ member? "name" attributes.name .str, m.2.nesting ≤ k + 1 :=
    nesting_member? fun _ _ => Nat.zero_le _
  have hstatus : ∀ m ∈ member? "status" attributes.presence (fun p => .str p.tag),
      m.2.nesting ≤ k + 1 := nesting_member? fun _ _ => Nat.zero_le _
  have hbounds : ∀ m ∈ attributes.bounds.members, m.2.nesting ≤ k + 1 := fun m hm =>
    Nat.le_trans (nesting_bounds _ m hm) (Nat.zero_le _)
  have hvalues : ∀ m ∈ member? "values" attributes.values ofTable, m.2.nesting ≤ k + 1 :=
    nesting_member? fun rows _ => Nat.le_trans (nesting_ofTable rows) (by omega)
  refine nesting_obj_le ?_
  simp only [ArgRecord.nodeMembers, List.forall_mem_append]
  refine ⟨⟨⟨⟨⟨hfunc, ?_⟩, hname⟩, hstatus⟩, hbounds⟩, hvalues⟩
  cases items with
  | nil => simp
  | cons j items => exact List.forall_mem_singleton.2 (nesting_arr_le h)

/-- A node that is read has no more levels than its place leaves. -/
theorem nesting_le (hd : depth + 3 ≤ depthMax)
    (h : ofJson? unit (clip depth n.toJson) = some n') : depth + n.toJson.nesting ≤ depthMax := by
  obtain ⟨op, args, attributes⟩ := n
  rw [toJson, ArgRecord.nodeToJson_mk] at h ⊢
  generalize ArgRecord.listToJson args = items at h ⊢
  simp only [ofJson?, ArgRecord.nodeWith?, Option.bind_eq_bind, Option.bind_eq_some_iff,
    fields?_clip (show depth < depthMax by omega) (ArgRecord.keys_nodeMembers op items attributes)
      (show NodeRecord.keys.Nodup by decide)] at h
  obtain ⟨fs, hfs, op', -, args', hargs, -⟩ := h
  obtain rfl := Option.some.inj hfs
  rw [JsonFields.withDefault?, lookup_mapped, (ArgRecord.lookup_nodeMembers op items attributes).2.1]
    at hargs
  have hitems : ∀ j ∈ items, depth + 2 + j.nesting ≤ depthMax := by
    cases items with
    | nil => simp
    | cons j items =>
      intro j' hj'
      obtain ⟨a, ha⟩ := exists_of_list?_clip (by omega) hargs j' hj'
      exact ArgRecord.nesting_le (by omega) ha
  have := nesting_nodeMembers (k := depthMax - depth - 2) op items attributes
    (fun j hj => by have := hitems j hj; omega) (by omega)
  omega

end NodeRecord

/-! ### Models -/

theorem ObjectiveRecord.nesting_le {unit : UnitForm} {o o' : ObjectiveRecord}
    (hd : depth + 1 ≤ depthMax) (h : ofJson? unit (clip depth o.toJson) = some o') :
    depth + o.toJson.nesting ≤ depthMax := by
  simp only [ofJson?, toJson, Option.bind_eq_bind, Option.bind_eq_some_iff,
    fields?_clip (show depth < depthMax by omega)
      (show ([("sense", Json.str o.sense.tag), ("expr", o.expr.toJson)].map Prod.fst).Sublist
        ["sense", "expr"] from List.Sublist.refl _) (show ["sense", "expr"].Nodup by decide)] at h
  obtain ⟨fs, hfs, sense, -, expr, hexpr, -⟩ := h
  obtain rfl := Option.some.inj hfs
  rw [JsonFields.required?, lookup_mapped] at hexpr
  have := ArgRecord.nesting_le (j := o.expr.toJson) (by omega) hexpr
  simp only [toJson, nesting, nestingOfMembers]
  omega

namespace ModelRecord

variable {unit : UnitForm} {r r' : ModelRecord}

/-- A model that is read has no more levels than its place leaves. -/
theorem nesting_le (hd : depth + 6 ≤ depthMax) (h : ofJson? unit (clip depth r.toJson) = some r') :
    depth + r.toJson.nesting ≤ depthMax := by
  obtain ⟨-, hlrefs, hltop, hlobj⟩ := r.lookup_members
  have hobj : r.toJson = .obj r.members := rfl
  rw [hobj] at h ⊢
  simp only [ofJson?, Option.bind_eq_bind, Option.bind_eq_some_iff,
    fields?_clip (show depth < depthMax by omega) r.keys_members
      (show ["name", "refs", "model", "objective"].Nodup by decide)] at h
  obtain ⟨fs, hfs, name, -, refs, hrefs, top, htop, objective, hobjective, -⟩ := h
  obtain rfl := Option.some.inj hfs
  rw [JsonFields.required?, lookup_mapped, hlrefs] at hrefs
  rw [JsonFields.required?, lookup_mapped, hltop] at htop
  rw [JsonFields.optional?, lookup_mapped, hlobj] at hobjective
  have hrefs' : ∀ j ∈ r.refs.map NodeRecord.toJson, j.nesting ≤ depthMax - depth - 2 := by
    intro j hj
    obtain ⟨n', hn'⟩ := exists_of_list?_clip (by omega) hrefs j hj
    obtain ⟨n, -, rfl⟩ := List.mem_map.1 hj
    have := NodeRecord.nesting_le (by omega) hn'
    omega
  have htop' : ∀ j ∈ ArgRecord.listToJson r.topLevel, j.nesting ≤ depthMax - depth - 2 := by
    intro j hj
    obtain ⟨a, ha⟩ := exists_of_list?_clip (by omega) htop j hj
    have := ArgRecord.nesting_le (by omega) ha
    omega
  have hobjective' : ∀ o ∈ r.objective, o.toJson.nesting ≤ depthMax - depth - 1 := by
    intro o ho
    rw [ho] at hobjective
    have hread : (ObjectiveRecord.ofJson? unit (clip (depth + 1) o.toJson)).map some =
        some objective := by
      rw [ObjectiveRecord.toJson, clip_obj (by omega)]
      rw [Option.map_some, Option.map_some, ObjectiveRecord.toJson, clip_obj (by omega)] at hobjective
      exact hobjective
    obtain ⟨o', ho', -⟩ := Option.map_eq_some_iff.1 hread
    have := ObjectiveRecord.nesting_le (by omega) ho'
    omega
  have hmembers : ∀ m ∈ r.members, m.2.nesting ≤ depthMax - depth - 1 := by
    have hname : ∀ m ∈ member? "name" r.name .str, m.2.nesting ≤ depthMax - depth - 1 :=
      nesting_member? fun _ _ => Nat.zero_le _
    have harrs : ∀ m ∈ [("refs", Json.arr (r.refs.map NodeRecord.toJson)),
        ("model", .arr (ArgRecord.listToJson r.topLevel))], m.2.nesting ≤ depthMax - depth - 1 := by
      have hrefs := nesting_arr_le hrefs'
      have htop := nesting_arr_le htop'
      refine List.forall_mem_cons.2 ⟨Nat.le_trans hrefs (by omega), ?_⟩
      exact List.forall_mem_singleton.2 (Nat.le_trans htop (by omega))
    simp only [members, List.forall_mem_append]
    exact ⟨⟨hname, harrs⟩, nesting_member? hobjective'⟩
  have := nesting_obj_le hmembers
  omega

end ModelRecord

/-! ### Solutions -/

theorem SolutionRecord.nesting_toJson (r : SolutionRecord) : r.toJson.nesting ≤ 4 := by
  have hvalue (v : SolutionValue) : v.toJson.nesting ≤ 1 := by
    cases v <;> simp [SolutionValue.toJson, nesting, nestingOfMembers]
  have hvalues : ∀ j ∈ r.values.map valueToJson, j.nesting ≤ 2 := by
    intro j hj
    obtain ⟨v, -, rfl⟩ := List.mem_map.1 hj
    have := hvalue v.2
    simp only [valueToJson, nesting, nestingOfMembers]
    omega
  have hobjective : ∀ m ∈ r.objective.members, m.2.nesting ≤ 3 := by
    cases r.objective <;>
      simp [ObjectiveValue.members, ObjectiveValue.isUndefined, ObjectiveValue.toJson, nesting]
  refine nesting_obj_le (k := 3) fun m hm => ?_
  obtain hm | hm := List.mem_append.1 hm
  · exact hobjective m hm
  · obtain rfl := List.mem_singleton.1 hm
    exact nesting_arr_le hvalues

end Scheduling
