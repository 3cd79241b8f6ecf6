import Scheduling.Proofs.Json.Reading
import Scheduling.Proofs.Record.Levels
import Scheduling.Record.Document

/-!
# Commands and documents as texts

A command in range is what is read from its line, unless it has more levels than a reader follows;
then the line is refused (`Command.ofLine_line`). The same holds of the records in a document.
-/

namespace Scheduling

variable {P : Type} {ok : Float → Prop} {f : Json → Json} {read : Json → Option P}
  {write : P → Json}

namespace EventRecord

variable {tag : String} {members : List (String × Json)}

/-- The tag of a tagged record and its members are found whatever their order. -/
theorem tagged?_arranged (hf : Json.Arranges ok f) (hs : (tagged tag members).isSound)
    (hn : (members.map Prod.fst).Nodup) (hk : "msg" ∉ members.map Prod.fst) :
    ∃ j, (f (tagged tag members)).tagged? "msg" = some (tag, j) ∧ Json.Arranged f members j := by
  have hj : Json.Arranged f (("msg", .str tag) :: members) (f (tagged tag members)) :=
    hf.obj _ (List.nodup_cons.2 ⟨hk, hn⟩)
  refine hj.tagged? hf (hf.sound _ hs) ?_
  rw [List.lookup_eq_none_iff]
  exact fun m hm => bne_iff_ne.2 fun he => hk (he ▸ List.mem_map_of_mem hm)

end EventRecord

namespace Command

/-- The records of the command are in range. -/
def InRange (ok : Float → Prop) : Command P → Prop
  | solve model _ warmStart | toText model _ warmStart =>
    model.InRange ok ∧ ∀ s ∈ warmStart, s.InRange ok
  | propagate model _ => model.InRange ok
  | stop _ => True
  | solution s => s.InRange ok

/-- The parameters of the command. -/
def parameters? : Command P → Option P
  | solve _ parameters _ | propagate _ parameters | toText _ parameters _ => some parameters
  | _ => none

/-- The members of a command that has a model, parameters and a warm start. -/
def problemMembers (write : P → Json) (model : ModelRecord) (parameters : P)
    (warmStart : Option SolutionRecord) : List (String × Json) :=
  [("model", model.toJson), ("parameters", write parameters)]
    ++ Json.member? "warmStart" warmStart SolutionRecord.toJson

section Members

variable {model : ModelRecord} {parameters : P} {warmStart : Option SolutionRecord}

theorem keys_problemMembers : ((problemMembers write model parameters warmStart).map
    Prod.fst).Sublist ["model", "parameters", "warmStart"] := by
  simp only [problemMembers, List.map_append]
  exact (List.Sublist.refl ["model", "parameters"]).append (Json.keys_member? ..)

theorem plain_problemMembers (hm : model.InRange ok) (hp : Json.Plain ok (write parameters))
    (hs : ∀ s ∈ warmStart, s.InRange ok) :
    Json.PlainMembers ok (problemMembers write model parameters warmStart) :=
  Json.plainMembers_append ⟨ModelRecord.plain_toJson hm, hp, trivial⟩
    (Json.plainMembers_member? fun s h => SolutionRecord.plain_toJson (hs s h))

theorem lookup_problemMembers (write : P → Json) (model : ModelRecord) (parameters : P)
    (warmStart : Option SolutionRecord) :
    (problemMembers write model parameters warmStart).lookup "model" = some model.toJson ∧
    (problemMembers write model parameters warmStart).lookup "parameters" =
      some (write parameters) ∧
    (problemMembers write model parameters warmStart).lookup "warmStart" =
      warmStart.map SolutionRecord.toJson := by
  refine ⟨?_, ?_, ?_⟩ <;>
    simp [problemMembers, List.lookup_cons, Json.lookup_member?]

/-- The model, the parameters and the warm start are read from their members. -/
theorem read_problemMembers (hf : Json.Arranges ok f) {j : Json}
    (hj : Json.Arranged f (problemMembers write model parameters warmStart) j)
    (hm : model.InRange ok) (hr : read (f (write parameters)) = some parameters)
    (hs : ∀ s ∈ warmStart, s.InRange ok) (unit : UnitForm) :
    ∃ fs, j.fields? ["model", "parameters", "warmStart"] ["model", "parameters"] = some fs ∧
      JsonFields.required? fs "model" (ModelRecord.ofJson? unit) = some model ∧
      JsonFields.required? fs "parameters" read = some parameters ∧
      JsonFields.optional? fs "warmStart" SolutionRecord.ofJson? = some warmStart := by
  obtain ⟨hmodel, hparameters, hwarm⟩ := lookup_problemMembers write model parameters warmStart
  obtain ⟨fs, hfields, hl⟩ :=
    hj.fields? ["model", "parameters", "warmStart"] ["model", "parameters"]
  have hstart : fs.lookup "warmStart" = warmStart.map (f ∘ SolutionRecord.toJson) := by
    rw [hl "warmStart" (by decide), hwarm, Option.map_map]
  refine ⟨fs, hfields, JsonFields.required?_eq (j := f model.toJson) ?_
      (ModelRecord.ofJson?_arranged hf hm unit),
    JsonFields.required?_eq (j := f (write parameters)) ?_ hr,
    JsonFields.optional?_eq hstart (fun s _ hnull => ?_) ?_⟩
  · rw [hl "model" (by decide), hmodel, Option.map_some]
  · rw [hl "parameters" (by decide), hparameters, Option.map_some]
  · obtain ⟨members, hobj, -⟩ : Json.Arranged f _ (f s.toJson) :=
      hf.obj _ (s.keys_members.nodup (by decide))
    rw [Function.comp, hobj] at hnull
    exact nomatch hnull
  · exact fun s h => SolutionRecord.ofJson?_arranged hf (hs s h)

theorem tagged?_problemMembers (hf : Json.Arranges ok f) {tag : String}
    (hs : (EventRecord.tagged tag (problemMembers write model parameters warmStart)).isSound) :
    ∃ j, (f (EventRecord.tagged tag (problemMembers write model parameters warmStart))).tagged?
        "msg" = some (tag, j) ∧
      Json.Arranged f (problemMembers write model parameters warmStart) j := by
  have hkeys : ((problemMembers write model parameters warmStart).map Prod.fst).Sublist
      ["model", "parameters", "warmStart"] := keys_problemMembers
  refine EventRecord.tagged?_arranged hf hs (hkeys.nodup (by decide)) fun hm => ?_
  exact absurd (hkeys.subset hm) (by decide)

end Members

variable {c : Command P}

theorem plain_toJson (h : c.InRange ok) (hp : ∀ p ∈ c.parameters?, Json.Plain ok (write p)) :
    Json.Plain ok (c.toJson write) := by
  cases c with
  | solve model p warmStart =>
    exact ⟨trivial, plain_problemMembers h.1 (hp p rfl) h.2⟩
  | propagate model p => exact ⟨trivial, ModelRecord.plain_toJson h, hp p rfl, trivial⟩
  | toText model p warmStart =>
    exact ⟨trivial, plain_problemMembers h.1 (hp p rfl) h.2⟩
  | stop reason => exact ⟨trivial, trivial, trivial⟩
  | solution s => exact ⟨trivial, SolutionRecord.plain_toJson h, trivial⟩

/-- A command is read back whatever the order of members. -/
theorem ofJson?_arranged (hf : Json.Arranges ok f) (h : c.InRange ok)
    (hp : ∀ p ∈ c.parameters?, Json.Plain ok (write p))
    (hr : ∀ p ∈ c.parameters?, read (f (write p)) = some p) :
    ofJson? read (f (c.toJson write)) = some c := by
  have hs := (plain_toJson h hp).isSound
  cases c with
  | solve model p warmStart =>
    obtain ⟨j, htag, hj⟩ := tagged?_problemMembers hf hs
    obtain ⟨fs, hfields, hmodel, hparameters, hwarm⟩ :=
      read_problemMembers hf hj h.1 (hr p rfl) h.2 .nullOrObject
    show ofJson? read (f (EventRecord.tagged "solve" (problemMembers write model p warmStart))) = _
    unfold ofJson?
    rw [htag]
    simp only [Option.bind_eq_bind, Option.bind_some, hfields, hmodel, hparameters, hwarm]
  | propagate model p =>
    obtain ⟨j, htag, hj⟩ := EventRecord.tagged?_arranged hf hs (by simp) (by simp)
    obtain ⟨fs, hfields, hl⟩ := hj.fields? ["model", "parameters"] ["model", "parameters"]
    have hmodel : JsonFields.required? fs "model" (ModelRecord.ofJson? .nullOrObject) =
        some model :=
      JsonFields.required?_eq ((hl "model" (by decide)).trans rfl)
        (ModelRecord.ofJson?_arranged hf h .nullOrObject)
    have hparameters : JsonFields.required? fs "parameters" read = some p :=
      JsonFields.required?_eq ((hl "parameters" (by decide)).trans rfl) (hr p rfl)
    show ofJson? read (f (EventRecord.tagged "propagate"
      [("model", model.toJson), ("parameters", write p)])) = _
    unfold ofJson?
    rw [htag]
    simp only [Option.bind_eq_bind, Option.bind_some, hfields, hmodel, hparameters]
  | toText model p warmStart =>
    obtain ⟨j, htag, hj⟩ := tagged?_problemMembers hf hs
    obtain ⟨fs, hfields, hmodel, hparameters, hwarm⟩ :=
      read_problemMembers hf hj h.1 (hr p rfl) h.2 .nullOrObject
    show ofJson? read (f (EventRecord.tagged "toText" (problemMembers write model p warmStart))) = _
    unfold ofJson?
    rw [htag]
    simp only [Option.bind_eq_bind, Option.bind_some, hfields, hmodel, hparameters, hwarm]
  | stop reason =>
    obtain ⟨j, htag, hj⟩ := EventRecord.tagged?_arranged hf hs (by simp) (by simp)
    obtain ⟨fs, hfields, hl⟩ := hj.fields? ["reason"] ["reason"]
    have hreason : JsonFields.required? fs "reason" Json.string? = some reason := by
      refine JsonFields.required?_eq (j := .str reason) ?_ rfl
      rw [hl "reason" (by decide), List.lookup_cons_self, Option.map_some, hf.str]
    show ofJson? read (f (EventRecord.tagged "stop" [("reason", .str reason)])) = _
    unfold ofJson?
    rw [htag]
    simp only [Option.bind_eq_bind, Option.bind_some, hfields, hreason]
  | solution r =>
    obtain ⟨j, htag, hj⟩ := EventRecord.tagged?_arranged hf hs (by simp) (by simp)
    obtain ⟨fs, hfields, hl⟩ := hj.fields? ["solution"] ["solution"]
    have hsolution : JsonFields.required? fs "solution" SolutionRecord.ofJson? = some r :=
      JsonFields.required?_eq ((hl "solution" (by decide)).trans rfl)
        (SolutionRecord.ofJson?_arranged hf h)
    show ofJson? read (f (EventRecord.tagged "solution" [("solution", r.toJson)])) = _
    unfold ofJson?
    rw [htag]
    simp only [Option.bind_eq_bind, Option.bind_some, hfields, hsolution]

/-- A command is read back from its JSON value. -/
theorem ofJson?_toJson (h : c.InRange ok) (hp : ∀ p ∈ c.parameters?, Json.Plain ok (write p))
    (hr : ∀ p ∈ c.parameters?, read (write p) = some p) : ofJson? read (c.toJson write) = some c :=
  ofJson?_arranged (Json.arranges_id ok) h hp hr

theorem isSound_of_ofJson? {j : Json} (h : (ofJson? read j).isSome) : j.isSound := by
  by_contra hs
  have hnone : j.tagged? "msg" = none := by
    unfold Json.tagged?
    rw [Bool.eq_false_iff.2 hs]
    rfl
  unfold ofJson? at h
  rw [hnone] at h
  simp at h

/-- A command is what is read from its line, unless it has too many levels. -/
theorem ofLine_line (h : c.InRange ok) (hp : ∀ p ∈ c.parameters?, Json.Plain ok (write p))
    (hr : ∀ p ∈ c.parameters?, read (write p) = some p)
    (hf : ∀ x ∈ (c.toJson write).floats, ok x → Json.Faithful x) :
    ofLine read (c.line write) =
      if (c.toJson write).nesting ≤ Json.depthMax then .ok c else .error .unreadable := by
  have htext : Json.ofText? (c.line write) = some (Json.clip 0 (c.toJson write)) :=
    Json.ofText?_compact ((plain_toJson h hp).imp hf)
  rw [ofLine, htext, Option.bind_some]
  by_cases hd : (c.toJson write).nesting ≤ Json.depthMax
  · rw [Json.clip_eq _ 0 (by omega), ofJson?_toJson h hp hr, if_pos hd]
  · have hnone : ofJson? read (Json.clip 0 (c.toJson write)) = none := by
      rw [← Option.not_isSome_iff_eq_none]
      intro hsome
      have := Json.nesting_le_of_isSound_clip _ 0 (Nat.zero_le _) (isSound_of_ofJson? hsome)
      omega
    rw [hnone, if_neg hd]

end Command

/-! ### Documents -/

namespace Problem

variable {model : ModelRecord} {parameters : Option P} {warmStart : Option SolutionRecord}

/-- The members of a document. -/
def members (write : P → Json) (model : ModelRecord) (parameters : Option P)
    (warmStart : Option SolutionRecord) : List (String × Json) :=
  [("model", model.toJson)] ++ Json.member? "parameters" parameters write
    ++ Json.member? "warmStart" warmStart SolutionRecord.toJson

/-- The JSON value of a document. -/
def recordsJson (write : P → Json) (model : ModelRecord) (parameters : Option P)
    (warmStart : Option SolutionRecord) : Json := .obj (members write model parameters warmStart)

theorem keys_members : ((members write model parameters warmStart).map Prod.fst).Sublist
    ["model", "parameters", "warmStart"] := by
  simp only [members, List.map_append]
  exact ((List.Sublist.refl ["model"]).append (Json.keys_member? ..)).append (Json.keys_member? ..)

theorem lookup_members (write : P → Json) (model : ModelRecord) (parameters : Option P)
    (warmStart : Option SolutionRecord) :
    (members write model parameters warmStart).lookup "model" = some model.toJson ∧
    (members write model parameters warmStart).lookup "parameters" = parameters.map write ∧
    (members write model parameters warmStart).lookup "warmStart" =
      warmStart.map SolutionRecord.toJson := by
  refine ⟨?_, ?_, ?_⟩ <;>
    simp [members, List.lookup_append, List.lookup_cons, Json.lookup_member?]

theorem plain_recordsJson (hm : model.InRange ok) (hp : ∀ p ∈ parameters, Json.Plain ok (write p))
    (hs : ∀ s ∈ warmStart, s.InRange ok) :
    Json.Plain ok (recordsJson write model parameters warmStart) := by
  have hmodel : Json.PlainMembers ok [("model", model.toJson)] :=
    ⟨ModelRecord.plain_toJson hm, trivial⟩
  exact Json.plainMembers_append (Json.plainMembers_append hmodel (Json.plainMembers_member? hp))
    (Json.plainMembers_member? fun s h => SolutionRecord.plain_toJson (hs s h))

/-- The records of a document are read back from its JSON value. -/
theorem records?_recordsJson (hm : model.InRange ok) (hs : ∀ s ∈ warmStart, s.InRange ok)
    (hw : ∀ p ∈ parameters, write p ≠ .null) (hr : ∀ p ∈ parameters, read (write p) = some p) :
    records? read (recordsJson write model parameters warmStart) =
      some (model, parameters, warmStart) := by
  obtain ⟨hlmodel, hlparameters, hlwarm⟩ := lookup_members write model parameters warmStart
  have hfields : (recordsJson write model parameters warmStart).fields?
      ["model", "parameters", "warmStart"] ["model"] =
      some (members write model parameters warmStart) :=
    Json.knownMembers?_eq keys_members (by decide)
  have hmodel : JsonFields.required? (members write model parameters warmStart) "model"
      (ModelRecord.ofJson? .null) = some model :=
    JsonFields.required?_eq hlmodel (ModelRecord.ofJson?_toJson hm .null)
  have hparameters : JsonFields.optional? (members write model parameters warmStart) "parameters"
      read = some parameters := JsonFields.optional?_eq hlparameters hw hr
  have hwarm : JsonFields.optional? (members write model parameters warmStart) "warmStart"
      SolutionRecord.ofJson? = some warmStart :=
    JsonFields.optional?_eq hlwarm (fun _ _ => nofun)
      fun s h => SolutionRecord.ofJson?_toJson (hs s h)
  simp only [records?, hfields, hmodel, hparameters, hwarm, Option.bind_eq_bind, Option.bind_some]

/-- Records that are read from a document have no more levels than a reader follows. -/
theorem nesting_le (hstrict : ∀ j p, read j = some p → j.isSound)
    {found : ModelRecord × Option P × Option SolutionRecord}
    (h : records? read (Json.clip 0 (recordsJson write model parameters warmStart)) = some found) :
    (recordsJson write model parameters warmStart).nesting ≤ Json.depthMax := by
  obtain ⟨hlmodel, hlparameters, -⟩ := lookup_members write model parameters warmStart
  rw [recordsJson] at h ⊢
  simp only [records?, Option.bind_eq_bind, Option.bind_eq_some_iff,
    Json.fields?_clip (show 0 < Json.depthMax by decide) keys_members
      (show ["model", "parameters", "warmStart"].Nodup by decide)] at h
  obtain ⟨fs, hfs, model', hmodel, parameters', hparameters, -⟩ := h
  obtain rfl := Option.some.inj hfs
  rw [JsonFields.required?, Json.lookup_mapped, hlmodel] at hmodel
  rw [JsonFields.optional?, Json.lookup_mapped, hlparameters] at hparameters
  have hmodel' := ModelRecord.nesting_le (by decide) hmodel
  have hparameters' : ∀ p ∈ parameters, (write p).nesting ≤ Json.depthMax - 1 := by
    intro p hp
    rw [hp] at hparameters
    have hs := Json.isSound_of_nullable? hparameters (hstrict _)
    have := Json.nesting_le_of_isSound_clip _ 1 (by decide) hs
    omega
  have hmembers : ∀ m ∈ members write model parameters warmStart,
      m.2.nesting ≤ Json.depthMax - 1 := by
    simp only [members, List.forall_mem_append, List.forall_mem_singleton]
    refine ⟨⟨by omega, Json.nesting_member? hparameters'⟩, Json.nesting_member? fun s _ => ?_⟩
    exact Nat.le_trans s.nesting_toJson (by decide)
  have := Json.nesting_obj_le hmembers
  omega

/-- The records of a document are what is read from its text, unless it has too many levels. -/
theorem records?_text (hm : model.InRange ok) (hp : ∀ p ∈ parameters, Json.Plain ok (write p))
    (hs : ∀ s ∈ warmStart, s.InRange ok) (hw : ∀ p ∈ parameters, write p ≠ .null)
    (hr : ∀ p ∈ parameters, read (write p) = some p)
    (hstrict : ∀ j p, read j = some p → j.isSound)
    (hf : ∀ x ∈ (recordsJson write model parameters warmStart).floats, ok x → Json.Faithful x) :
    (Json.ofText? (recordsJson write model parameters warmStart).pretty).bind (records? read) =
      if (recordsJson write model parameters warmStart).nesting ≤ Json.depthMax then
        some (model, parameters, warmStart)
      else none := by
  rw [Json.ofText?_pretty ((plain_recordsJson hm hp hs).imp hf), Option.bind_some]
  by_cases hd : (recordsJson write model parameters warmStart).nesting ≤ Json.depthMax
  · rw [Json.clip_eq _ 0 (by omega), records?_recordsJson hm hs hw hr, if_pos hd]
  · rw [if_neg hd]
    cases hread : records? read (Json.clip 0 (recordsJson write model parameters warmStart)) with
    | none => rfl
    | some found => exact (hd (nesting_le hstrict hread)).elim

end Problem

end Scheduling
