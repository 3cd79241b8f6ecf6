import Scheduling.Proofs.Json.OneLine
import Scheduling.Proofs.Record.Texts

/-!
# Events as lines

The line of an event whose numbers are in range is one line and is read as the same event
(`EventRecord.ofText?_compact`). All nine kinds of events are shallow, so no reader refuses one for
its levels.
-/

namespace Scheduling

variable {ok : Float → Prop}

/-! ### Ranges -/

/-- Figures have the widths of their fields and floats are as asked. -/
structure Summary.InRange (ok : Float → Prop) (s : Summary) : Prop where
  nbSolutions : (s.nbSolutions : Int) ≤ wordMax
  lowerBound : ∀ x ∈ s.lowerBound, ok x
  objective : ∀ x ∈ s.objective, ok x
  duration : ok s.duration
  nbBranches : ∀ n ∈ s.nbBranches, (n : Int) ≤ wordMax
  nbFails : ∀ n ∈ s.nbFails, (n : Int) ≤ wordMax
  nbLnsSteps : ∀ n ∈ s.nbLnsSteps, (n : Int) ≤ wordMax
  nbRestarts : ∀ n ∈ s.nbRestarts, (n : Int) ≤ wordMax
  memoryUsed : ∀ n ∈ s.memoryUsed, (n : Int) ≤ wordMax
  nbIntVars : ∀ n ∈ s.nbIntVars, (n : Int) ≤ wordMax
  nbIntervalVars : ∀ n ∈ s.nbIntervalVars, (n : Int) ≤ wordMax
  nbConstraints : ∀ n ∈ s.nbConstraints, (n : Int) ≤ wordMax
  nbWorkers : ∀ n ∈ s.nbWorkers, (n : Int) ≤ halfWordMax

/-- Numbers of variables have 32 bits and bounds are in range. -/
structure DomainsRecord.InRange (ok : Float → Prop) (r : DomainsRecord) : Prop where
  duration : ok r.duration
  domains : ∀ d ∈ r.domains, (d.1 : Int) ≤ halfWordMax ∧ d.2.bounds.InRange ok

/-- All numbers of the event are in range. -/
def EventRecord.InRange (ok : Float → Prop) : EventRecord → Prop
  | solution found => ok found.solveTime ∧ found.solution.InRange ok
  | lowerBound solveTime value => ok solveTime ∧ ok value
  | summary s => s.InRange ok
  | domains d => d.InRange ok
  | _ => True

/-! ### Summaries -/

namespace Summary

variable {s : Summary}

theorem keys_members (s : Summary) : (s.members.map Prod.fst).Sublist keys := by
  have happend {l l' : List (String × Json)} {ks ks' : List String}
      (h : (l.map Prod.fst).Sublist ks) (h' : (l'.map Prod.fst).Sublist ks') :
      ((l ++ l').map Prod.fst).Sublist (ks ++ ks') := by
    rw [List.map_append]
    exact h.append h'
  have hone (key : String) (j : Json) : (([(key, j)] : List (String × Json)).map Prod.fst).Sublist
      [key] := .refl _
  have htwo (k k' : String) (j j' : Json) : (([(k, j), (k', j')] :
      List (String × Json)).map Prod.fst).Sublist [k, k'] := .refl _
  have hmember {α : Type} (key : String) (o : Option α) (write : α → Json) :=
    Json.keys_member? key o write
  exact happend (happend (happend (happend (happend (happend (happend (happend (happend (happend
    (happend (happend (happend (happend (happend (hone ..) (hmember ..)) (hmember ..))
    (hmember ..)) (htwo ..)) (hmember ..)) (hmember ..)) (hmember ..)) (hmember ..)) (hmember ..))
    (hmember ..)) (hmember ..)) (hmember ..)) (hmember ..)) (hmember ..)) (hmember ..)

theorem plain_members (h : s.InRange ok) : ∀ m ∈ s.members, Json.Plain ok m.2 := by
  have hfloat {key : String} {o : Option Float} (ho : ∀ x ∈ o, ok x) :
      Json.PlainMembers ok (Json.member? key o .float) :=
    Json.plainMembers_member? fun x hx => ho x hx
  have hcount {key : String} {o : Option Nat} (ho : ∀ n ∈ o, (n : Int) ≤ wordMax) :
      Json.PlainMembers ok (Json.member? key o fun n => .int n) :=
    Json.plainMembers_member? fun n hn => Json.plain_of_le_wordMax (ho n hn)
  have hworkers : Json.PlainMembers ok (Json.member? "nbWorkers" s.nbWorkers fun n => .int n) :=
    Json.plainMembers_member? fun n hn => Json.plain_of_le_halfWordMax (h.nbWorkers n hn)
  have hsense : Json.PlainMembers ok (Json.member? "objectiveSense" s.sense fun d => .str d.tag) :=
    Json.plainMembers_member? fun _ _ => trivial
  have htext {key : String} {o : Option String} : Json.PlainMembers ok (Json.member? key o .str) :=
    Json.plainMembers_member? fun _ _ => trivial
  have hfirst : Json.PlainMembers ok [("nbSolutions", .int s.nbSolutions)] :=
    ⟨Json.plain_of_le_wordMax h.nbSolutions, trivial⟩
  have hmiddle : Json.PlainMembers ok [("duration", .float s.duration), ("proof", .bool s.proof)] :=
    ⟨h.duration, trivial, trivial⟩
  simp only [members, List.forall_mem_append]
  simp only [← Json.plainMembers_iff]
  exact ⟨⟨⟨⟨⟨⟨⟨⟨⟨⟨⟨⟨⟨⟨⟨hfirst, hfloat h.lowerBound⟩, hfloat h.objective⟩, hsense⟩, hmiddle⟩,
    hcount h.nbBranches⟩, hcount h.nbFails⟩, hcount h.nbLnsSteps⟩, hcount h.nbRestarts⟩,
    hcount h.memoryUsed⟩, hcount h.nbIntVars⟩, hcount h.nbIntervalVars⟩, hcount h.nbConstraints⟩,
    hworkers⟩, htext⟩, htext⟩

theorem nesting_members (s : Summary) : ∀ m ∈ s.members, m.2.nesting ≤ 0 := by
  have hfloat {key : String} {o : Option Float} :
      ∀ m ∈ Json.member? key o .float, m.2.nesting ≤ 0 :=
    Json.nesting_member? fun _ _ => Nat.le_refl 0
  have hcount {key : String} {o : Option Nat} :
      ∀ m ∈ Json.member? key o (fun n => .int n), m.2.nesting ≤ 0 :=
    Json.nesting_member? fun _ _ => Nat.le_refl 0
  have htext {key : String} {o : Option String} :
      ∀ m ∈ Json.member? key o .str, m.2.nesting ≤ 0 :=
    Json.nesting_member? fun _ _ => Nat.le_refl 0
  have hsense : ∀ m ∈ Json.member? "objectiveSense" s.sense (fun d => .str d.tag),
      m.2.nesting ≤ 0 := Json.nesting_member? fun _ _ => Nat.le_refl 0
  have hfirst : ∀ m ∈ [("nbSolutions", Json.int s.nbSolutions)], m.2.nesting ≤ 0 := by
    simp [Json.nesting]
  have hmiddle : ∀ m ∈ [("duration", Json.float s.duration), ("proof", .bool s.proof)],
      m.2.nesting ≤ 0 := by
    simp [Json.nesting]
  simp only [members, List.forall_mem_append]
  exact ⟨⟨⟨⟨⟨⟨⟨⟨⟨⟨⟨⟨⟨⟨⟨hfirst, hfloat⟩, hfloat⟩, hsense⟩, hmiddle⟩, hcount⟩, hcount⟩, hcount⟩,
    hcount⟩, hcount⟩, hcount⟩, hcount⟩, hcount⟩, hcount⟩, htext⟩, htext⟩

theorem lookup_members (s : Summary) :
    (s.members.lookup "nbSolutions" = some (.int s.nbSolutions) ∧
      s.members.lookup "duration" = some (.float s.duration) ∧
      s.members.lookup "proof" = some (.bool s.proof)) ∧
    (s.members.lookup "lowerBound" = s.lowerBound.map .float ∧
      s.members.lookup "objective" = s.objective.map .float) ∧
    s.members.lookup "objectiveSense" = s.sense.map (fun d => .str d.tag) ∧
    (s.members.lookup "nbBranches" = s.nbBranches.map (fun n => .int n) ∧
      s.members.lookup "nbFails" = s.nbFails.map (fun n => .int n) ∧
      s.members.lookup "nbLNSSteps" = s.nbLnsSteps.map (fun n => .int n) ∧
      s.members.lookup "nbRestarts" = s.nbRestarts.map (fun n => .int n) ∧
      s.members.lookup "memoryUsed" = s.memoryUsed.map (fun n => .int n) ∧
      s.members.lookup "nbIntVars" = s.nbIntVars.map (fun n => .int n) ∧
      s.members.lookup "nbIntervalVars" = s.nbIntervalVars.map (fun n => .int n) ∧
      s.members.lookup "nbConstraints" = s.nbConstraints.map (fun n => .int n) ∧
      s.members.lookup "nbWorkers" = s.nbWorkers.map (fun n => .int n)) ∧
    s.members.lookup "solver" = s.solver.map .str ∧ s.members.lookup "cpu" = s.cpu.map .str := by
  refine ⟨⟨?_, ?_, ?_⟩, ⟨?_, ?_⟩, ?_, ⟨?_, ?_, ?_, ?_, ?_, ?_, ?_, ?_, ?_⟩, ?_, ?_⟩ <;>
    simp [members, List.lookup_append, List.lookup_cons, Json.lookup_member?]

/-- A summary is read from its members. -/
theorem ofJson?_members (h : s.InRange ok) (unit : UnitForm) :
    ofJson? unit (.obj s.members) = some s := by
  have hfields : (Json.obj s.members).fields? keys ["nbSolutions", "duration", "proof"] =
      some s.members := by
    rw [Json.fields?]
    exact Json.knownMembers?_eq s.keys_members (by decide)
  have hfloat {key : String} {o : Option Float} (hl : s.members.lookup key = o.map .float) :
      JsonFields.optional? s.members key Json.float? = some o :=
    JsonFields.optional?_eq hl (fun _ _ => nofun) fun _ _ => rfl
  have hcount {key : String} {o : Option Nat} (ho : ∀ n ∈ o, (n : Int) ≤ wordMax)
      (hl : s.members.lookup key = o.map fun n => .int n) :
      JsonFields.optional? s.members key Json.nat64? = some o :=
    JsonFields.optional?_eq hl (fun _ _ => nofun) fun n hn => Json.nat64?_int (ho n hn)
  have htext {key : String} {o : Option String} (hl : s.members.lookup key = o.map .str) :
      JsonFields.optional? s.members key Json.string? = some o :=
    JsonFields.optional?_eq hl (fun _ _ => nofun) fun _ _ => rfl
  obtain ⟨⟨hlsolutions, hlduration, hlproof⟩, ⟨hlbound, hlobjective⟩, hlsense, ⟨hl₁, hl₂, hl₃, hl₄,
    hl₅, hl₆, hl₇, hl₈, hlworkers⟩, hlsolver, hlcpu⟩ := s.lookup_members
  have hsolutions : JsonFields.required? s.members "nbSolutions" Json.nat64? =
      some s.nbSolutions := JsonFields.required?_eq hlsolutions (Json.nat64?_int h.nbSolutions)
  have hduration : JsonFields.required? s.members "duration" Json.float? = some s.duration :=
    JsonFields.required?_eq hlduration rfl
  have hproof : JsonFields.required? s.members "proof" Json.bool? = some s.proof :=
    JsonFields.required?_eq hlproof rfl
  have hsense : JsonFields.optional? s.members "objectiveSense" (Json.named? unit Sense.ofTag?) =
      some s.sense :=
    JsonFields.optional?_eq hlsense (fun _ _ => nofun) fun d _ => Sense.ofTag?_tag d
  have hworkers : JsonFields.optional? s.members "nbWorkers" Json.nat32? = some s.nbWorkers :=
    JsonFields.optional?_eq hlworkers (fun _ _ => nofun)
      fun n hn => Json.nat32?_int (h.nbWorkers n hn)
  have hread {α : Type} {o : Option α} {a : α} {f : α → Option Summary} (ho : o = some a) :
      (o >>= f) = f a := by rw [ho, Option.bind_eq_bind, Option.bind_some]
  rw [ofJson?, hread hfields, hread hsolutions, hread (hfloat hlbound), hread (hfloat hlobjective),
    hread hsense, hread hduration, hread hproof, hread (hcount h.nbBranches hl₁),
    hread (hcount h.nbFails hl₂), hread (hcount h.nbLnsSteps hl₃), hread (hcount h.nbRestarts hl₄),
    hread (hcount h.memoryUsed hl₅), hread (hcount h.nbIntVars hl₆),
    hread (hcount h.nbIntervalVars hl₇), hread (hcount h.nbConstraints hl₈), hread hworkers,
    hread (htext hlsolver), hread (htext hlcpu)]

end Summary

/-! ### Domains -/

namespace DomainsRecord

variable {r : DomainsRecord}

/-- The members of the domain of a variable. -/
def domainMembers (d : Nat × Domain) : List (String × Json) :=
  [("id", .int d.1)] ++ Json.member? "presence" d.2.presence (fun p => .str p.tag)
    ++ d.2.bounds.members

theorem keys_domainMembers (d : Nat × Domain) :
    ((domainMembers d).map Prod.fst).Sublist (["id", "presence"] ++ Bounds.keys) := by
  simp only [domainMembers, List.map_append]
  exact ((List.Sublist.refl ["id"]).append (Json.keys_member? ..)).append (Bounds.keys_members _)

theorem domain?_toJson {d : Nat × Domain} (hid : (d.1 : Int) ≤ halfWordMax)
    (h : d.2.bounds.InRange ok) : domain? (domainToJson d) = some d := by
  have hfields : Json.knownMembers? (["id", "presence"] ++ Bounds.keys) (domainMembers d) =
      some (domainMembers d) := Json.knownMembers?_eq (keys_domainMembers d) (by decide)
  have hother (key : String) (hk : key ∉ Bounds.keys) : d.2.bounds.members.lookup key = none := by
    rw [List.lookup_eq_none_iff]
    intro m hm
    have := (Bounds.keys_members d.2.bounds).subset (List.mem_map_of_mem hm)
    exact bne_iff_ne.2 fun he => hk (he ▸ this)
  have hlpresence : (domainMembers d).lookup "presence" =
      d.2.presence.map fun p => .str p.tag := by
    simp [domainMembers, List.lookup_cons, List.lookup_append, Json.lookup_member?,
      hother "presence" (by decide)]
  have hnumber : JsonFields.required? (domainMembers d) "id" Json.nat32? = some d.1 :=
    JsonFields.required?_eq (j := .int d.1) (by simp [domainMembers]) (Json.nat32?_int hid)
  have hpresence : JsonFields.optional? (domainMembers d) "presence"
      (Json.named? .nullOrObject Presence.ofTag?) = some d.2.presence :=
    JsonFields.optional?_eq hlpresence (fun _ _ => nofun) fun p _ => Presence.ofTag?_tag p
  have hbounds : Bounds.ofFields? (domainMembers d) = some d.2.bounds := by
    refine Bounds.ofFields?_eq h fun key hk => ?_
    have hid : (key == "id") = false := beq_eq_false_iff_ne.2 fun he => absurd (he ▸ hk) (by decide)
    have hpresence : key ≠ "presence" := fun he => absurd (he ▸ hk) (by decide)
    simp [domainMembers, List.lookup_cons, List.lookup_append, Json.lookup_member?, hid, hpresence]
  show domain? (.obj (domainMembers d)) = _
  simp only [domain?, hfields, hnumber, hpresence, hbounds, Option.bind_eq_bind, Option.bind_some]

theorem keys_members (r : DomainsRecord) :
    (r.members.map Prod.fst).Sublist ["infeasible", "duration", "domains"] := by
  obtain ⟨infeasible, duration, domains⟩ := r
  cases infeasible
  · exact .cons _ (.refl ["duration", "domains"])
  · exact .refl ["infeasible", "duration", "domains"]

theorem plain_members (h : r.InRange ok) : ∀ m ∈ r.members, Json.Plain ok m.2 := by
  have hdomains : Json.Plain ok (.arr (r.domains.map domainToJson)) := by
    refine Json.plain_list fun d hd => ?_
    obtain ⟨hid, hbounds⟩ := h.domains d hd
    have hfirst : Json.PlainMembers ok [("id", .int d.1)] :=
      ⟨Json.plain_of_le_halfWordMax hid, trivial⟩
    have hpresence : Json.PlainMembers ok
        (Json.member? "presence" d.2.presence fun p => .str p.tag) :=
      Json.plainMembers_member? fun _ _ => trivial
    exact Json.plainMembers_append (Json.plainMembers_append hfirst hpresence)
      (Bounds.plain_members hbounds)
  have hinfeasible : Json.PlainMembers ok
      (if r.infeasible then [("infeasible", .bool true)] else []) := by
    split <;> simp [Json.PlainMembers, Json.Plain]
  exact Json.plainMembers_iff.1 (Json.plainMembers_append hinfeasible ⟨h.duration, hdomains, trivial⟩)

theorem nesting_members (r : DomainsRecord) : ∀ m ∈ r.members, m.2.nesting ≤ 2 := by
  have hdomain : ∀ j ∈ r.domains.map domainToJson, j.nesting ≤ 1 := by
    intro j hj
    obtain ⟨d, -, rfl⟩ := List.mem_map.1 hj
    have hpresence : ∀ m ∈ Json.member? "presence" d.2.presence (fun p => .str p.tag),
        m.2.nesting ≤ 0 := Json.nesting_member? fun _ _ => Nat.le_refl 0
    have hid : ∀ m ∈ [("id", Json.int d.1)], m.2.nesting ≤ 0 := by simp [Json.nesting]
    refine Json.nesting_obj_le ?_
    simp only [List.forall_mem_append]
    exact ⟨⟨hid, hpresence⟩, NodeRecord.nesting_bounds _⟩
  have hinfeasible : ∀ m ∈ (if r.infeasible then [("infeasible", Json.bool true)] else []),
      m.2.nesting ≤ 2 := by
    split <;> simp [Json.nesting]
  simp only [members, List.forall_mem_append, List.forall_mem_cons]
  exact ⟨hinfeasible, Nat.zero_le 2, Json.nesting_arr_le hdomain, nofun⟩

theorem lookup_members (r : DomainsRecord) :
    r.members.lookup "infeasible" = (if r.infeasible then some (.bool true) else none) ∧
    r.members.lookup "duration" = some (.float r.duration) ∧
    r.members.lookup "domains" = some (.arr (r.domains.map domainToJson)) := by
  obtain ⟨infeasible, duration, domains⟩ := r
  cases infeasible <;> exact ⟨rfl, rfl, rfl⟩

/-- Domains are read from their members. -/
theorem ofJson?_members (h : r.InRange ok) : ofJson? (.obj r.members) = some r := by
  have hfields : (Json.obj r.members).fields? ["infeasible", "duration", "domains"] ["duration"] =
      some r.members := by
    rw [Json.fields?]
    exact Json.knownMembers?_eq r.keys_members (by decide)
  obtain ⟨hlinfeasible, hlduration, hldomains⟩ := r.lookup_members
  have hinfeasible : JsonFields.withDefault? r.members "infeasible" false Json.bool? =
      some r.infeasible := by
    rw [JsonFields.withDefault?, hlinfeasible]
    cases r.infeasible <;> rfl
  have hduration : JsonFields.required? r.members "duration" Json.float? = some r.duration :=
    JsonFields.required?_eq hlduration rfl
  have hdomains : JsonFields.withDefault? r.members "domains" [] (Json.list? domain?) =
      some r.domains := by
    rw [JsonFields.withDefault?, hldomains]
    exact Json.list?_map fun d hd => domain?_toJson (h.domains d hd).1 (h.domains d hd).2
  simp only [ofJson?, hfields, hinfeasible, hduration, hdomains, Option.bind_eq_bind,
    Option.bind_some]

end DomainsRecord

/-! ### Events -/

namespace EventRecord

variable {e : EventRecord} {tag : String} {members : List (String × Json)}

/-- The tag and the other members are told apart. -/
theorem tagged?_tagged (hs : (tagged tag members).isSound) (hk : "msg" ∉ members.map Prod.fst) :
    (tagged tag members).tagged? "msg" = some (tag, .obj members) := by
  have hne : ∀ m ∈ members, m.1 ≠ "msg" := fun m hm he => hk (he ▸ List.mem_map_of_mem hm)
  have htag : (("msg", Json.str tag) :: members).filter (fun m => m.1 == "msg") =
      [("msg", .str tag)] := by
    rw [List.filter_cons_of_pos rfl, List.filter_eq_nil_iff.2 fun m hm => by simpa using hne m hm]
  have hrest : (("msg", Json.str tag) :: members).filter (fun m => m.1 != "msg") = members := by
    rw [List.filter_cons_of_neg (by simp), List.filter_eq_self.2 fun m hm => by simpa using hne m hm]
  rw [tagged] at hs ⊢
  simp only [Json.tagged?, hs, htag, hrest, Bool.not_true, Bool.false_eq_true, if_false]

/-- The members of a solution that was found. -/
def foundMembers (found : FoundRecord) : List (String × Json) :=
  [("solveTime", .float found.solveTime)] ++ found.solution.objective.members
    ++ Json.member? "valid" found.valid .bool ++ [SolutionRecord.valuesMember found.solution.values]

theorem keys_foundMembers (found : FoundRecord) :
    ((foundMembers found).map Prod.fst).Sublist ["solveTime", "objective", "valid", "values"] := by
  have hobjective : (found.solution.objective.members.map Prod.fst).Sublist ["objective"] := by
    cases found.solution.objective with
    | undefined => exact List.nil_sublist _
    | _ => exact .refl _
  simp only [foundMembers, List.map_append]
  exact (((List.Sublist.refl ["solveTime"]).append hobjective).append (Json.keys_member? ..)).append
    (.refl ["values"])

theorem lookup_foundMembers (found : FoundRecord) :
    (foundMembers found).lookup "solveTime" = some (.float found.solveTime) ∧
    (foundMembers found).lookup "objective" =
      (if found.solution.objective.isUndefined then none
      else some found.solution.objective.toJson) ∧
    (foundMembers found).lookup "valid" = found.valid.map .bool ∧
    (foundMembers found).lookup "values" =
      some (.arr (found.solution.values.map SolutionRecord.valueToJson)) := by
  obtain ⟨solveTime, valid, objective, values⟩ := found
  cases objective <;> cases valid <;> exact ⟨rfl, rfl, rfl, rfl⟩

/-- What an engine found is read from its members. -/
theorem read_foundMembers {found : FoundRecord} (h : found.solution.InRange ok) :
    ∃ fs, (Json.obj (foundMembers found)).fields? ["solveTime", "objective", "valid", "values"]
        ["solveTime", "values"] = some fs ∧
      JsonFields.required? fs "solveTime" Json.float? = some found.solveTime ∧
      ObjectiveValue.ofFields? fs = some found.solution.objective ∧
      JsonFields.optional? fs "valid" Json.bool? = some found.valid ∧
      JsonFields.required? fs "values" (Json.list? SolutionRecord.value?) =
        some found.solution.values := by
  obtain ⟨hltime, hlobjective, hlvalid, hlvalues⟩ := lookup_foundMembers found
  refine ⟨foundMembers found, ?_, JsonFields.required?_eq hltime rfl, ?_,
    JsonFields.optional?_eq hlvalid (fun _ _ => nofun) fun _ _ => rfl,
    JsonFields.required?_eq hlvalues (Json.list?_map fun v hv => ?_)⟩
  · rw [Json.fields?]
    exact Json.knownMembers?_eq (keys_foundMembers found) (by decide)
  · rw [ObjectiveValue.ofFields?, hlobjective]
    cases found.solution.objective <;> rfl
  · exact SolutionRecord.value?_arranged (Json.arranges_id ok) (h.values v hv).1 (h.values v hv).2

theorem plain_tagged (h : ∀ m ∈ members, Json.Plain ok m.2) : Json.Plain ok (tagged tag members) :=
  ⟨trivial, Json.plainMembers_iff.2 h⟩

theorem plain_toJson (h : e.InRange ok) : Json.Plain ok e.toJson := by
  cases e with
  | log line | trace line | warning line | error line | text line =>
    exact plain_tagged (by simp [Json.Plain])
  | solution found =>
    have hsolution := Json.plainMembers_iff.1 (SolutionRecord.plain_toJson h.2)
    refine plain_tagged fun m hm => ?_
    simp only [List.mem_append, or_assoc] at hm
    obtain hm | hm | hm | hm := hm
    · obtain rfl := List.mem_singleton.1 hm
      exact h.1
    · exact hsolution m (List.mem_append_left _ hm)
    · obtain ⟨valid, -, rfl⟩ := Json.mem_member? hm
      trivial
    · exact hsolution m (List.mem_append_right _ hm)
  | lowerBound solveTime value => exact plain_tagged (by simpa [Json.Plain, InRange] using h)
  | summary s => exact plain_tagged (Summary.plain_members h)
  | domains d => exact plain_tagged (DomainsRecord.plain_members h)

theorem nesting_toJson (e : EventRecord) : e.toJson.nesting ≤ 5 := by
  have htagged {tag : String} {members : List (String × Json)}
      (h : ∀ m ∈ members, m.2.nesting ≤ 4) : (tagged tag members).nesting ≤ 5 :=
    Json.nesting_obj_le (List.forall_mem_cons.2 ⟨Nat.zero_le 4, h⟩)
  cases e with
  | log line | trace line | warning line | error line | text line => exact htagged (by simp [Json.nesting])
  | solution found =>
    refine htagged fun m hm => ?_
    have hsolution (m : String × Json) (hm : m ∈ found.solution.members) : m.2.nesting ≤ 4 := by
      have h := Json.nestingOfMembers_le_iff.1 (Nat.le_refl _) m hm
      have := found.solution.nesting_toJson
      rw [show found.solution.toJson = .obj found.solution.members from rfl, Json.nesting] at this
      omega
    simp only [List.mem_append, or_assoc] at hm
    obtain hm | hm | hm | hm := hm
    · obtain rfl := List.mem_singleton.1 hm
      exact Nat.zero_le 4
    · exact hsolution m (List.mem_append_left _ hm)
    · exact Json.nesting_member? (fun _ _ => Nat.zero_le 4) m hm
    · exact hsolution m (List.mem_append_right _ hm)
  | lowerBound solveTime value => exact htagged (by simp [Json.nesting])
  | summary s => exact htagged fun m hm => Nat.le_trans (s.nesting_members m hm) (Nat.zero_le 4)
  | domains d => exact htagged fun m hm => Nat.le_trans (d.nesting_members m hm) (by decide)

/-- An event is read from its JSON value. -/
theorem ofJson?_toJson (h : e.InRange ok) : ofJson? e.toJson = some e := by
  have hs := (plain_toJson h).isSound
  have htext {tag : String} {line : String} (hs : (tagged tag [("data", .str line)]).isSound) :
      (tagged tag [("data", .str line)]).tagged? "msg" = some (tag, .obj [("data", .str line)]) :=
    tagged?_tagged hs (by simp)
  cases e with
  | log line | trace line | warning line | error line | text line =>
    unfold ofJson?
    rw [toJson, htext hs]
    rfl
  | solution found =>
    have htag : (tagged "solution" (foundMembers found)).tagged? "msg" = some ("solution", _) :=
      tagged?_tagged hs fun hm => absurd ((keys_foundMembers found).subset hm) (by decide)
    obtain ⟨fs, hfields, htime, hobjective, hvalid, hvalues⟩ := read_foundMembers h.2
    show ofJson? (tagged "solution" (foundMembers found)) = _
    unfold ofJson?
    simp only [htag, hfields, htime, hobjective, hvalid, hvalues, Option.bind_eq_bind,
      Option.bind_some]
  | lowerBound solveTime value =>
    unfold ofJson?
    rw [toJson, tagged?_tagged hs (by simp)]
    rfl
  | summary s =>
    rw [toJson] at hs ⊢
    have htag : (tagged "summary" s.members).tagged? "msg" = some ("summary", _) :=
      tagged?_tagged hs fun hm => absurd (s.keys_members.subset hm) (by decide)
    unfold ofJson?
    simp only [htag, Summary.ofJson?_members h, Option.bind_eq_bind, Option.bind_some,
      Option.map_some]
  | domains d =>
    rw [toJson] at hs ⊢
    have htag : (tagged "domains" d.members).tagged? "msg" = some ("domains", _) :=
      tagged?_tagged hs fun hm => absurd (d.keys_members.subset hm) (by decide)
    unfold ofJson?
    simp only [htag, DomainsRecord.ofJson?_members h, Option.bind_eq_bind, Option.bind_some,
      Option.map_some]

/-- The line of an event is read as the event. -/
theorem ofText?_compact (h : e.InRange ok) (hf : ∀ x ∈ e.toJson.floats, ok x → Json.Faithful x) :
    (Json.ofText? e.toJson.compact).bind ofJson? = some e := by
  have hlevels : 0 + e.toJson.nesting ≤ Json.depthMax := by
    have := e.nesting_toJson
    simp only [Json.depthMax]
    omega
  rw [Json.ofText?_compact ((plain_toJson h).imp hf), Option.bind_some, Json.clip_eq _ 0 hlevels]
  exact ofJson?_toJson h

end EventRecord

end Scheduling
