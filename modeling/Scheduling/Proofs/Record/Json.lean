import Scheduling.Proofs.Json.Arranged
import Scheduling.Record.Json

/-!
# Records and their JSON values

A record whose integers have 64 bits and whose numbers have 32 (`InRange`) has a plain JSON value,
and is what is read back from it, whatever the order of members (`Json.Arranges`).
-/

namespace Scheduling

variable {ok : Float → Prop} {f : Json → Json}

/-! ### Ranges -/

/-- Integers have 64 bits and floats are as asked. -/
structure Bounds.InRange (ok : Float → Prop) (b : Bounds) : Prop where
  min : ∀ x ∈ b.min, ok x
  max : ∀ x ∈ b.max, ok x
  startMin : ∀ v ∈ b.startMin, Fits v
  startMax : ∀ v ∈ b.startMax, Fits v
  endMin : ∀ v ∈ b.endMin, Fits v
  endMax : ∀ v ∈ b.endMax, Fits v
  lengthMin : ∀ v ∈ b.lengthMin, Fits v
  lengthMax : ∀ v ∈ b.lengthMax, Fits v

/-- Integers of a table have 64 bits. -/
def TableInRange (rows : List (List Int)) : Prop := ∀ row ∈ rows, ∀ v ∈ row, Fits v

/-- Integers have 64 bits and floats are as asked. -/
structure Attributes.InRange (ok : Float → Prop) (a : Attributes) : Prop where
  bounds : a.bounds.InRange ok
  values : ∀ rows ∈ a.values, TableInRange rows

mutual

/-- Numbers have 32 bits, integers have 64 bits and floats are as asked. -/
def ArgRecord.InRange (ok : Float → Prop) : ArgRecord → Prop
  | .ref number => (number : Int) ≤ halfWordMax
  | .inline n => NodeRecord.InRange ok n
  | .bool _ => True
  | .int v => Fits v
  | .float x => ok x
  | .list items => ArgRecord.AllInRange ok items

/-- All arguments are in range. -/
def ArgRecord.AllInRange (ok : Float → Prop) : List ArgRecord → Prop
  | [] => True
  | a :: rest => ArgRecord.InRange ok a ∧ ArgRecord.AllInRange ok rest

/-- The arguments and the attributes are in range. -/
def NodeRecord.InRange (ok : Float → Prop) : NodeRecord → Prop
  | .mk _ args attributes => ArgRecord.AllInRange ok args ∧ attributes.InRange ok

end

/-- All nodes and arguments are in range. -/
structure ModelRecord.InRange (ok : Float → Prop) (r : ModelRecord) : Prop where
  refs : ∀ n ∈ r.refs, n.InRange ok
  topLevel : ∀ a ∈ r.topLevel, a.InRange ok
  objective : ∀ o ∈ r.objective, o.expr.InRange ok

/-! ### Bounds and tables -/

namespace Bounds

variable {b : Bounds}

theorem keys_members (b : Bounds) : (b.members.map Prod.fst).Sublist keys := by
  simp only [members, List.map_append]
  exact ((((((((Json.keys_member? ..).append (Json.keys_member? ..)).append
    (Json.keys_member? ..)).append (Json.keys_member? ..)).append (Json.keys_member? ..)).append
    (Json.keys_member? ..)).append (Json.keys_member? ..)).append (Json.keys_member? ..))

theorem plain_members (h : b.InRange ok) : Json.PlainMembers ok b.members := by
  have hint {key : String} {o : Option Int} (ho : ∀ v ∈ o, Fits v) :
      Json.PlainMembers ok (Json.member? key o .int) :=
    Json.plainMembers_member? fun v hv => Json.plain_of_fits (ho v hv)
  have hfloat {key : String} {o : Option Float} (ho : ∀ x ∈ o, ok x) :
      Json.PlainMembers ok (Json.member? key o .float) :=
    Json.plainMembers_member? fun x hx => ho x hx
  simp only [members, Json.plainMembers_iff, List.forall_mem_append]
  simp only [← Json.plainMembers_iff]
  exact ⟨⟨⟨⟨⟨⟨⟨hfloat h.min, hfloat h.max⟩, hint h.startMin⟩, hint h.startMax⟩, hint h.endMin⟩,
    hint h.endMax⟩, hint h.lengthMin⟩, hint h.lengthMax⟩

/-- Members of bounds are numbers, which do not depend on the order of members. -/
theorem lookup_members_arranged (hf : Json.Arranges ok f) (h : b.InRange ok) (key : String) :
    (b.members.lookup key).map f = b.members.lookup key := by
  have hint {key : String} {o : Option Int} : ∀ m ∈ Json.member? key o .int, f m.2 = m.2 := by
    cases o <;> simp [Json.member?, hf.int]
  have hfloat {key : String} {o : Option Float} (ho : ∀ x ∈ o, ok x) :
      ∀ m ∈ Json.member? key o .float, f m.2 = m.2 := by
    cases o with
    | none => simp [Json.member?]
    | some x => simpa [Json.member?] using hf.float x (ho x rfl)
  refine Json.lookup_fixed ?_ key
  simp only [members, List.forall_mem_append]
  exact ⟨⟨⟨⟨⟨⟨⟨hfloat h.min, hfloat h.max⟩, hint⟩, hint⟩, hint⟩, hint⟩, hint⟩, hint⟩

/-- Bounds are read from fields that have their members. -/
theorem ofFields?_eq {fs : JsonFields} (h : b.InRange ok)
    (hl : ∀ key ∈ keys, fs.lookup key = b.members.lookup key) : ofFields? fs = some b := by
  have hfloat {key : String} {o : Option Float} (hk : key ∈ keys)
      (hm : b.members.lookup key = o.map .float) : fs.optional? key Json.float? = some o :=
    JsonFields.optional?_eq ((hl key hk).trans hm) (fun _ _ => nofun) fun _ _ => rfl
  have hint {key : String} {o : Option Int} (ho : ∀ v ∈ o, Fits v) (hk : key ∈ keys)
      (hm : b.members.lookup key = o.map .int) : fs.optional? key Json.int64? = some o :=
    JsonFields.optional?_eq ((hl key hk).trans hm) (fun _ _ => nofun)
      fun v hv => Json.int64?_int (ho v hv)
  have hmin : fs.optional? "min" Json.float? = some b.min :=
    hfloat (by decide) (by simp [members, List.lookup_append, Json.lookup_member?])
  have hmax : fs.optional? "max" Json.float? = some b.max :=
    hfloat (by decide) (by simp [members, List.lookup_append, Json.lookup_member?])
  have hstartMin : fs.optional? "startMin" Json.int64? = some b.startMin :=
    hint h.startMin (by decide) (by simp [members, List.lookup_append, Json.lookup_member?])
  have hstartMax : fs.optional? "startMax" Json.int64? = some b.startMax :=
    hint h.startMax (by decide) (by simp [members, List.lookup_append, Json.lookup_member?])
  have hendMin : fs.optional? "endMin" Json.int64? = some b.endMin :=
    hint h.endMin (by decide) (by simp [members, List.lookup_append, Json.lookup_member?])
  have hendMax : fs.optional? "endMax" Json.int64? = some b.endMax :=
    hint h.endMax (by decide) (by simp [members, List.lookup_append, Json.lookup_member?])
  have hlengthMin : fs.optional? "lengthMin" Json.int64? = some b.lengthMin :=
    hint h.lengthMin (by decide) (by simp [members, List.lookup_append, Json.lookup_member?])
  have hlengthMax : fs.optional? "lengthMax" Json.int64? = some b.lengthMax :=
    hint h.lengthMax (by decide) (by simp [members, List.lookup_append, Json.lookup_member?])
  simp only [ofFields?, hmin, hmax, hstartMin, hstartMax, hendMin, hendMax, hlengthMin, hlengthMax,
    Option.bind_eq_bind, Option.bind_some]

end Bounds

namespace Json

theorem table?_ofTable {rows : List (List Int)} (h : TableInRange rows) :
    table? (ofTable rows) = some rows :=
  list?_map fun row hrow => list?_map fun v hv => int64?_int (h row hrow v hv)

theorem ofTable_arranged (hf : Arranges ok f) (rows : List (List Int)) :
    f (ofTable rows) = ofTable rows := by
  have hrow (row : List Int) : f (.arr (row.map .int)) = .arr (row.map .int) := by
    rw [hf.arr, List.map_map]
    exact congrArg Json.arr (List.map_congr_left fun v _ => hf.int v)
  rw [ofTable, hf.arr, List.map_map]
  exact congrArg Json.arr (List.map_congr_left fun row _ => hrow row)

theorem plain_ofTable {rows : List (List Int)} (h : TableInRange rows) : Plain ok (ofTable rows) :=
  plain_list fun row hrow => plain_list fun v hv => plain_of_fits (h row hrow v hv)

end Json

/-! ### Names of choices -/

theorem Operator.mem_all (op : Operator) : op ∈ all := by
  cases op with
  | precedence p =>
    obtain ⟨firstEnd, secondEnd, exact⟩ := p
    cases firstEnd <;> cases secondEnd <;> cases exact <;> decide
  | int op | float op => cases op <;> decide
  | intAggregate op | floatAggregate op => cases op <;> decide
  | compare op | connect op | measure op | measureOr op => cases op <;> decide
  | intervalStep op | cumulBound op | forbid op => cases op <;> decide
  | _ => decide

theorem Operator.ofTag?_tag (op : Operator) : ofTag? op.tag = some op := by
  have hall : ∀ op ∈ all, ofTag? op.tag = some op := by decide +kernel
  exact hall op op.mem_all

theorem Presence.ofTag?_tag (p : Presence) : ofTag? p.tag = some p := by cases p <;> rfl

theorem Sense.ofTag?_tag (s : Sense) : ofTag? s.tag = some s := by cases s <;> rfl

/-! ### Nodes -/

namespace ArgRecord

variable {args : List ArgRecord} {items : List Json} {attributes : Attributes} {op : Operator}

/-- The members of a node, given the JSON values of its arguments. -/
def nodeMembers (op : Operator) (items : List Json) (attributes : Attributes) :
    List (String × Json) :=
  [("func", .str op.tag)]
    ++ (match items with
      | [] => []
      | items => [("args", .arr items)])
    ++ Json.member? "name" attributes.name .str
    ++ Json.member? "status" attributes.presence (fun p => .str p.tag)
    ++ attributes.bounds.members
    ++ Json.member? "values" attributes.values Json.ofTable

theorem nodeToJson_mk (op : Operator) (args : List ArgRecord) (attributes : Attributes) :
    nodeToJson (.mk op args attributes) = .obj (nodeMembers op (listToJson args) attributes) := by
  rw [nodeToJson]
  rfl

theorem keys_nodeMembers (op : Operator) (items : List Json) (attributes : Attributes) :
    ((nodeMembers op items attributes).map Prod.fst).Sublist NodeRecord.keys := by
  have hargs : ((match items with
      | [] => []
      | items => [("args", Json.arr items)]).map Prod.fst).Sublist ["args"] := by
    cases items with
    | nil => exact List.nil_sublist _
    | cons j items => exact List.Sublist.refl _
  simp only [nodeMembers, List.map_append]
  exact (((((List.Sublist.refl ["func"]).append hargs).append (Json.keys_member? ..)).append
    (Json.keys_member? ..)).append (Bounds.keys_members _)).append (Json.keys_member? ..)

theorem lookup_nodeMembers (op : Operator) (items : List Json) (attributes : Attributes) :
    (nodeMembers op items attributes).lookup "func" = some (.str op.tag) ∧
    (nodeMembers op items attributes).lookup "args" =
      (match items with
      | [] => none
      | items => some (.arr items)) ∧
    (nodeMembers op items attributes).lookup "name" = attributes.name.map .str ∧
    (nodeMembers op items attributes).lookup "status" =
      attributes.presence.map (fun p => .str p.tag) ∧
    (nodeMembers op items attributes).lookup "values" = attributes.values.map Json.ofTable ∧
    ∀ key ∈ Bounds.keys, (nodeMembers op items attributes).lookup key =
      attributes.bounds.members.lookup key := by
  have hbounds (key : String) (hk : key ∉ Bounds.keys) :
      attributes.bounds.members.lookup key = none := by
    rw [List.lookup_eq_none_iff]
    intro m hm
    have := (Bounds.keys_members attributes.bounds).subset (List.mem_map_of_mem hm)
    exact bne_iff_ne.2 fun he => hk (he ▸ this)
  have hargs (key : String) : (match items with
      | [] => []
      | items => [("args", Json.arr items)]).lookup key =
      if key = "args" then (match items with
        | [] => none
        | items => some (.arr items)) else none := by
    cases items with
    | nil => simp
    | cons j items =>
      by_cases hk : key = "args"
      · simp [hk]
      · have hne : (key == "args") = false := beq_eq_false_iff_ne.2 hk
        simp [List.lookup_cons, hk, hne]
  refine ⟨by simp [nodeMembers], ?_, ?_, ?_, ?_, fun key hk => ?_⟩
  · simp [nodeMembers, List.lookup_append, List.lookup_cons, Json.lookup_member?, hargs,
      hbounds "args" (by decide)]
  · simp [nodeMembers, List.lookup_append, List.lookup_cons, Json.lookup_member?, hargs,
      hbounds "name" (by decide)]
  · simp [nodeMembers, List.lookup_append, List.lookup_cons, Json.lookup_member?, hargs,
      hbounds "status" (by decide)]
  · simp [nodeMembers, List.lookup_append, List.lookup_cons, Json.lookup_member?, hargs,
      hbounds "values" (by decide)]
  · have hne : key ≠ "func" ∧ key ≠ "args" ∧ key ≠ "name" ∧ key ≠ "status" ∧ key ≠ "values" := by
      refine ⟨?_, ?_, ?_, ?_, ?_⟩ <;> exact fun he => absurd (he ▸ hk) (by decide)
    have hfunc : (key == "func") = false := beq_eq_false_iff_ne.2 hne.1
    simp [nodeMembers, List.lookup_append, List.lookup_cons, Json.lookup_member?, hargs, hne, hfunc]

/-- A node is read back when its arguments are. -/
theorem nodeWith?_arranged {unit : UnitForm} {arg : Json → Option ArgRecord} {j : Json}
    (hf : Json.Arranges ok f) (hj : Json.Arranged f (nodeMembers op items attributes) j)
    (hargs : (items.map f).mapM arg = some args) (h : attributes.InRange ok) :
    nodeWith? unit arg j = some (.mk op args attributes) := by
  obtain ⟨hfunc, hargsl, hname, hstatus, hvalues, hbounds⟩ := lookup_nodeMembers op items attributes
  obtain ⟨fs, hfields, hl⟩ := hj.fields? NodeRecord.keys ["func"]
  have hop : JsonFields.required? fs "func" (Json.named? unit Operator.ofTag?) = some op := by
    refine JsonFields.required?_eq (j := .str op.tag) ?_ (Operator.ofTag?_tag op)
    rw [hl "func" (by decide), hfunc, Option.map_some, hf.str]
  have hread : JsonFields.withDefault? fs "args" [] (Json.list? arg) = some args := by
    rw [JsonFields.withDefault?, hl "args" (by decide), hargsl]
    cases items with
    | nil => exact hargs
    | cons j items =>
      simp only [Option.map_some, hf.arr]
      exact hargs
  have hname' : JsonFields.optional? fs "name" Json.string? = some attributes.name := by
    have hmember : fs.lookup "name" = attributes.name.map .str := by
      rw [hl "name" (by decide), hname, Json.map_fixed hf.str]
    exact JsonFields.optional?_eq hmember (fun _ _ => nofun) fun _ _ => rfl
  have hstatus' : JsonFields.optional? fs "status" (Json.named? unit Presence.ofTag?) =
      some attributes.presence := by
    have hmember : fs.lookup "status" = attributes.presence.map fun p => .str p.tag := by
      rw [hl "status" (by decide), hstatus, Json.map_fixed fun p : Presence => hf.str p.tag]
    exact JsonFields.optional?_eq hmember (fun _ _ => nofun) fun p _ => Presence.ofTag?_tag p
  have hvalues' : JsonFields.optional? fs "values" Json.table? = some attributes.values := by
    have hmember : fs.lookup "values" = attributes.values.map Json.ofTable := by
      rw [hl "values" (by decide), hvalues, Json.map_fixed (Json.ofTable_arranged hf)]
    exact JsonFields.optional?_eq hmember (fun _ _ => nofun)
      fun rows hrows => Json.table?_ofTable (h.values rows hrows)
  have hbounds' : Bounds.ofFields? fs = some attributes.bounds := by
    refine Bounds.ofFields?_eq h.bounds fun key hk => ?_
    rw [hl key (List.mem_append_left _ (List.mem_append_right _ hk)), hbounds key hk,
      Bounds.lookup_members_arranged hf h.bounds]
  simp only [nodeWith?, hfields, hop, hread, hname', hbounds', hstatus', hvalues',
    Option.bind_eq_bind, Option.bind_some]

theorem plain_nodeMembers (hitems : Json.PlainItems ok items) (h : attributes.InRange ok) :
    Json.PlainMembers ok (nodeMembers op items attributes) := by
  have hargs : Json.PlainMembers ok (match (motive := List Json → List (String × Json)) items with
      | [] => []
      | items => [("args", .arr items)]) := by
    cases items with
    | nil => trivial
    | cons j items => exact ⟨hitems, trivial⟩
  have hfunc : Json.PlainMembers ok [("func", .str op.tag)] := ⟨trivial, trivial⟩
  have hname : Json.PlainMembers ok (Json.member? "name" attributes.name .str) :=
    Json.plainMembers_member? fun _ _ => trivial
  have hstatus : Json.PlainMembers ok
      (Json.member? "status" attributes.presence fun p => .str p.tag) :=
    Json.plainMembers_member? fun _ _ => trivial
  have hvalues : Json.PlainMembers ok (Json.member? "values" attributes.values Json.ofTable) :=
    Json.plainMembers_member? fun rows hrows => Json.plain_ofTable (h.values rows hrows)
  have hbounds := Bounds.plain_members h.bounds
  exact Json.plainMembers_append (Json.plainMembers_append (Json.plainMembers_append
    (Json.plainMembers_append (Json.plainMembers_append hfunc hargs) hname) hstatus) hbounds)
    hvalues

mutual

theorem plain_toJson (a : ArgRecord) (h : a.InRange ok) : Json.Plain ok a.toJson := by
  match a with
  | .ref number => exact ⟨Json.plain_of_le_halfWordMax h, trivial⟩
  | .inline n => exact ⟨plain_nodeToJson n h, trivial⟩
  | .bool _ => trivial
  | .int v => exact Json.plain_of_fits h
  | .float x => exact h
  | .list items => exact plain_listToJson items h

theorem plain_listToJson (args : List ArgRecord) (h : AllInRange ok args) :
    Json.PlainItems ok (listToJson args) := by
  match args with
  | [] => trivial
  | a :: rest => exact ⟨plain_toJson a h.1, plain_listToJson rest h.2⟩

theorem plain_nodeToJson (n : NodeRecord) (h : n.InRange ok) : Json.Plain ok (nodeToJson n) := by
  match n with
  | .mk op args attributes =>
    rw [nodeToJson_mk]
    exact plain_nodeMembers (plain_listToJson args h.1) h.2

end

theorem depth_le_of_lookup {key : String} {j : Json} {members : List (String × Json)}
    (hl : members.lookup key = some j) : j.depth ≤ Json.depthOfMembers members := by
  induction members with
  | nil => exact nomatch hl
  | cons m members ih =>
    rw [Json.depthOfMembers]
    rw [List.lookup_cons] at hl
    cases hk : key == m.1 with
    | true =>
      rw [hk] at hl
      obtain rfl : m.2 = j := Option.some.inj hl
      exact Nat.le_max_left _ _
    | false =>
      rw [hk] at hl
      exact Nat.le_trans (ih hl) (Nat.le_max_right _ _)

theorem nodup_nodeMembers (op : Operator) (items : List Json) (attributes : Attributes) :
    ((nodeMembers op items attributes).map Prod.fst).Nodup :=
  (keys_nodeMembers op items attributes).nodup (by decide)

theorem depthOfItems_lt (hf : Json.Arranges ok f) {j : Json}
    (hj : Json.Arranged f (nodeMembers op items attributes) j) :
    Json.depthOfItems (items.map f) < j.depth := by
  obtain ⟨members, rfl, -, hl⟩ := hj
  have hlookup := hl "args"
  rw [(lookup_nodeMembers op items attributes).2.1] at hlookup
  cases items with
  | nil => exact Nat.succ_pos _
  | cons i items =>
    simp only [Option.map_some, hf.arr] at hlookup
    have := depth_le_of_lookup hlookup
    rw [Json.depth] at this
    rw [Json.depth]
    omega

mutual

/-- An argument is read back from its JSON value. -/
theorem readTo?_arranged (hf : Json.Arranges ok f) (a : ArgRecord) (h : a.InRange ok) (depth : Nat)
    (hd : (f a.toJson).depth ≤ depth) : readTo? depth (f a.toJson) = some a := by
  obtain ⟨depth, rfl⟩ : ∃ k, depth = k + 1 := by
    refine ⟨depth - 1, ?_⟩
    have : 0 < (f a.toJson).depth := by cases f a.toJson <;> simp [Json.depth]
    omega
  match a with
  | .ref number =>
    obtain ⟨members, hobj, hn, hl⟩ := hf.obj [("ref", .int number)] (by simp)
    obtain ⟨fs, hfields, hfs⟩ := Json.Arranged.knownMembers? hn hl ["ref"]
    have hread : JsonFields.required? fs "ref" Json.nat32? = some number := by
      refine JsonFields.required?_eq (j := .int number) ?_ (Json.nat32?_int h)
      rw [hfs "ref" (by decide), List.lookup_cons_self, Option.map_some, hf.int]
    simp only [toJson, hobj, readTo?, hfields, hread, Option.bind_eq_bind, Option.bind_some, either]
  | .inline n =>
    obtain ⟨members, hobj, hn, hl⟩ := hf.obj [("arg", nodeToJson n)] (by simp)
    obtain ⟨fs, hnone, hfs⟩ := Json.Arranged.knownMembers? hn hl ["ref"]
    have hmiss : JsonFields.required? fs "ref" Json.nat32? = none := by
      rw [JsonFields.required?, hfs "ref" (by decide)]
      rfl
    obtain ⟨gs, hfields, hgs⟩ := Json.Arranged.knownMembers? hn hl ["arg"]
    have hd' : (f (nodeToJson n)).depth ≤ depth := by
      have hle := depth_le_of_lookup ((hl "arg").trans rfl)
      simp only [toJson, hobj, Json.depth] at hd
      omega
    have harg : JsonFields.required? gs "arg" (nodeWith? .null (readTo? depth)) = some n :=
      JsonFields.required?_eq ((hgs "arg" (by decide)).trans rfl)
        (nodeWith?_toJson_arranged hf n h .null depth hd')
    simp only [toJson, hobj, readTo?, hnone, hmiss, hfields, harg, Option.bind_eq_bind,
      Option.bind_some, Option.bind_none, either]
  | .bool b => rw [toJson, hf.bool, readTo?]
  | .int v =>
    rw [toJson, hf.int, readTo?]
    exact if_pos h
  | .float x => rw [toJson, hf.float x h, readTo?]
  | .list items =>
    have hd' : Json.depthOfItems ((listToJson items).map f) ≤ depth := by
      simp only [toJson, hf.arr, Json.depth] at hd
      omega
    rw [toJson, hf.arr, readTo?, mapM_readTo?_arranged hf items h depth hd']
    rfl

theorem mapM_readTo?_arranged (hf : Json.Arranges ok f) (args : List ArgRecord)
    (h : AllInRange ok args) (depth : Nat)
    (hd : Json.depthOfItems ((listToJson args).map f) ≤ depth) :
    ((listToJson args).map f).mapM (readTo? depth) = some args := by
  match args with
  | [] => rfl
  | a :: rest =>
    rw [listToJson, List.map_cons, Json.depthOfItems] at hd
    rw [listToJson, List.map_cons, List.mapM_cons, readTo?_arranged hf a h.1 depth (by omega),
      mapM_readTo?_arranged hf rest h.2 depth (by omega)]
    rfl

theorem nodeWith?_toJson_arranged (hf : Json.Arranges ok f) (n : NodeRecord) (h : n.InRange ok)
    (unit : UnitForm) (depth : Nat) (hd : (f (nodeToJson n)).depth ≤ depth) :
    nodeWith? unit (readTo? depth) (f (nodeToJson n)) = some n := by
  match n with
  | .mk op args attributes =>
    rw [nodeToJson_mk] at hd ⊢
    have hj := hf.obj _ (nodup_nodeMembers op (listToJson args) attributes)
    have := depthOfItems_lt hf hj
    exact nodeWith?_arranged hf hj (mapM_readTo?_arranged hf args h.1 depth (by omega)) h.2

end

theorem ofJson?_arranged (hf : Json.Arranges ok f) (a : ArgRecord) (h : a.InRange ok) :
    ofJson? (f a.toJson) = some a := by
  rw [ofJson?, if_pos (hf.sound _ (plain_toJson a h).isSound)]
  exact readTo?_arranged hf a h _ (Nat.le_refl _)

theorem ofJson?_toJson (a : ArgRecord) (h : a.InRange ok) : ofJson? a.toJson = some a :=
  ofJson?_arranged (Json.arranges_id ok) a h

theorem listToJson_eq_map (args : List ArgRecord) : listToJson args = args.map toJson := by
  induction args with
  | nil => rfl
  | cons a rest ih => rw [listToJson, ih, List.map_cons]

theorem allInRange_iff {args : List ArgRecord} : AllInRange ok args ↔ ∀ a ∈ args, a.InRange ok := by
  induction args with
  | nil => simp [AllInRange]
  | cons a rest ih => rw [AllInRange, ih, List.forall_mem_cons]

end ArgRecord

namespace NodeRecord

theorem ofJson?_arranged (hf : Json.Arranges ok f) (n : NodeRecord) (h : n.InRange ok)
    (unit : UnitForm) : ofJson? unit (f n.toJson) = some n := by
  match n with
  | .mk op args attributes =>
    have hread : ∀ a ∈ args, ArgRecord.ofJson? ((f ∘ ArgRecord.toJson) a) = some a := fun a ha =>
      a.ofJson?_arranged hf (ArgRecord.allInRange_iff.1 h.1 a ha)
    have hargs : ((ArgRecord.listToJson args).map f).mapM ArgRecord.ofJson? = some args := by
      rw [ArgRecord.listToJson_eq_map, List.map_map]
      exact Json.list?_map hread
    rw [toJson, ArgRecord.nodeToJson_mk]
    exact ArgRecord.nodeWith?_arranged hf (hf.obj _ (ArgRecord.nodup_nodeMembers ..)) hargs h.2

end NodeRecord

/-! ### Models -/

theorem ObjectiveRecord.ofJson?_arranged (hf : Json.Arranges ok f) (o : ObjectiveRecord)
    (h : o.expr.InRange ok) (unit : UnitForm) : ofJson? unit (f o.toJson) = some o := by
  have hj : Json.Arranged f [("sense", .str o.sense.tag), ("expr", o.expr.toJson)] (f o.toJson) :=
    hf.obj _ (by simp)
  obtain ⟨fs, hfields, hl⟩ := hj.fields? ["sense", "expr"] ["sense", "expr"]
  have hsense : JsonFields.required? fs "sense" (Json.named? unit Sense.ofTag?) = some o.sense := by
    refine JsonFields.required?_eq (j := .str o.sense.tag) ?_ (Sense.ofTag?_tag o.sense)
    rw [hl "sense" (by decide), List.lookup_cons_self, Option.map_some, hf.str]
  have hexpr : JsonFields.required? fs "expr" ArgRecord.ofJson? = some o.expr :=
    JsonFields.required?_eq ((hl "expr" (by decide)).trans rfl) (o.expr.ofJson?_arranged hf h)
  simp only [ofJson?, hfields, hsense, hexpr, Option.bind_eq_bind, Option.bind_some]

namespace ModelRecord

/-- The members of a model. -/
def members (r : ModelRecord) : List (String × Json) :=
  Json.member? "name" r.name .str
    ++ [("refs", .arr (r.refs.map NodeRecord.toJson)),
      ("model", .arr (ArgRecord.listToJson r.topLevel))]
    ++ Json.member? "objective" r.objective ObjectiveRecord.toJson

theorem keys_members (r : ModelRecord) :
    (r.members.map Prod.fst).Sublist ["name", "refs", "model", "objective"] := by
  simp only [members, List.map_append]
  exact ((Json.keys_member? ..).append (List.Sublist.refl ["refs", "model"])).append
    (Json.keys_member? ..)

theorem lookup_members (r : ModelRecord) : r.members.lookup "name" = r.name.map .str ∧
    r.members.lookup "refs" = some (.arr (r.refs.map NodeRecord.toJson)) ∧
    r.members.lookup "model" = some (.arr (ArgRecord.listToJson r.topLevel)) ∧
    r.members.lookup "objective" = r.objective.map ObjectiveRecord.toJson := by
  refine ⟨?_, ?_, ?_, ?_⟩ <;>
    simp [members, List.lookup_append, List.lookup_cons, Json.lookup_member?]

theorem plain_toJson {r : ModelRecord} (h : r.InRange ok) : Json.Plain ok r.toJson := by
  have hname : Json.PlainMembers ok (Json.member? "name" r.name .str) :=
    Json.plainMembers_member? fun _ _ => trivial
  have hrefs : Json.Plain ok (.arr (r.refs.map NodeRecord.toJson)) :=
    Json.plain_list fun n hn => ArgRecord.plain_nodeToJson n (h.refs n hn)
  have htop : Json.Plain ok (.arr (ArgRecord.listToJson r.topLevel)) :=
    ArgRecord.plain_listToJson r.topLevel (ArgRecord.allInRange_iff.2 h.topLevel)
  have hobj : Json.PlainMembers ok (Json.member? "objective" r.objective ObjectiveRecord.toJson) :=
    Json.plainMembers_member? fun o ho =>
      ⟨trivial, ArgRecord.plain_toJson o.expr (h.objective o ho), trivial⟩
  exact Json.plainMembers_append (Json.plainMembers_append hname ⟨hrefs, htop, trivial⟩) hobj

/-- A model is read back whatever the order of members. -/
theorem ofJson?_arranged (hf : Json.Arranges ok f) {r : ModelRecord} (h : r.InRange ok)
    (unit : UnitForm) : ofJson? unit (f r.toJson) = some r := by
  have hj : Json.Arranged f r.members (f r.toJson) := hf.obj _ (r.keys_members.nodup (by decide))
  obtain ⟨fs, hfields, hl⟩ := hj.fields? ["name", "refs", "model", "objective"] ["refs", "model"]
  obtain ⟨hlname, hlrefs, hltop, hlobj⟩ := r.lookup_members
  have hname : JsonFields.optional? fs "name" Json.string? = some r.name := by
    have hmember : fs.lookup "name" = r.name.map .str := by
      rw [hl "name" (by decide), hlname, Json.map_fixed hf.str]
    exact JsonFields.optional?_eq hmember (fun _ _ => nofun) fun _ _ => rfl
  have hrefs : JsonFields.required? fs "refs" (Json.list? (NodeRecord.ofJson? unit)) =
      some r.refs := by
    refine JsonFields.required?_eq (j := .arr (r.refs.map (f ∘ NodeRecord.toJson))) ?_
      (Json.list?_map fun n hn => n.ofJson?_arranged hf (h.refs n hn) unit)
    rw [hl "refs" (by decide), hlrefs, Option.map_some, hf.arr, List.map_map]
  have htop : JsonFields.required? fs "model" (Json.list? ArgRecord.ofJson?) =
      some r.topLevel := by
    refine JsonFields.required?_eq (j := .arr (r.topLevel.map (f ∘ ArgRecord.toJson))) ?_
      (Json.list?_map fun a ha => a.ofJson?_arranged hf (h.topLevel a ha))
    rw [hl "model" (by decide), hltop, Option.map_some, hf.arr, ArgRecord.listToJson_eq_map,
      List.map_map]
  have hobj : JsonFields.optional? fs "objective" (ObjectiveRecord.ofJson? unit) =
      some r.objective := by
    have hmember : fs.lookup "objective" = r.objective.map (f ∘ ObjectiveRecord.toJson) := by
      rw [hl "objective" (by decide), hlobj, Option.map_map]
    refine JsonFields.optional?_eq hmember (fun o _ hnull => ?_)
      fun o ho => o.ofJson?_arranged hf (h.objective o ho) unit
    obtain ⟨members, hobj, -⟩ : Json.Arranged f _ (f o.toJson) := hf.obj _ (by simp)
    rw [Function.comp, hobj] at hnull
    exact nomatch hnull
  simp only [ofJson?, hfields, hname, hrefs, htop, hobj, Option.bind_eq_bind, Option.bind_some]

theorem ofJson?_toJson {r : ModelRecord} (h : r.InRange ok) (unit : UnitForm) :
    ofJson? unit r.toJson = some r := ofJson?_arranged (Json.arranges_id ok) h unit

end ModelRecord

/-! ### Solutions -/

/-- Integers have 64 bits and floats are as asked. -/
def SolutionValue.InRange (ok : Float → Prop) : SolutionValue → Prop
  | int v => Fits v
  | float x => ok x
  | interval start finish => Fits start ∧ Fits finish
  | _ => True

/-- A number is as asked. -/
def ObjectiveValue.InRange (ok : Float → Prop) : ObjectiveValue → Prop
  | value x => ok x
  | _ => True

/-- Numbers have 32 bits, integers have 64 bits and floats are as asked. -/
structure SolutionRecord.InRange (ok : Float → Prop) (r : SolutionRecord) : Prop where
  objective : r.objective.InRange ok
  values : ∀ v ∈ r.values, (v.1 : Int) ≤ halfWordMax ∧ v.2.InRange ok

theorem SolutionValue.plain_toJson {v : SolutionValue} (h : v.InRange ok) :
    Json.Plain ok v.toJson := by
  cases v with
  | int v => exact Json.plain_of_fits h
  | float x => exact h
  | interval start finish => exact ⟨Json.plain_of_fits h.1, Json.plain_of_fits h.2, trivial⟩
  | _ => trivial

theorem SolutionValue.ofJson?_arranged (hf : Json.Arranges ok f) {v : SolutionValue}
    (h : v.InRange ok) : ofJson? (f v.toJson) = some v := by
  have hs := hf.sound _ (plain_toJson h).isSound
  cases v with
  | absent =>
    rw [toJson, hf.null]
    rfl
  | bool b =>
    rw [toJson, hf.bool]
    rfl
  | int v =>
    rw [toJson, hf.int]
    exact if_pos h
  | float x =>
    rw [toJson, hf.float x h]
    rfl
  | interval start finish =>
    obtain ⟨members, hobj, hn, hl⟩ := hf.obj [("start", .int start), ("end", .int finish)] (by simp)
    obtain ⟨fs, hfields, hfs⟩ := Json.Arranged.knownMembers? hn hl ["start", "end"]
    have hstart : JsonFields.required? fs "start" Json.int64? = some start := by
      refine JsonFields.required?_eq (j := .int start) ?_ (Json.int64?_int h.1)
      rw [hfs "start" (by decide), List.lookup_cons_self, Option.map_some, hf.int]
    have hfinish : JsonFields.required? fs "end" Json.int64? = some finish := by
      refine JsonFields.required?_eq (j := .int finish) ?_ (Json.int64?_int h.2)
      rw [hfs "end" (by decide)]
      exact congrArg some (hf.int finish)
    unfold ofJson?
    rw [hs]
    simp only [toJson, hobj, hfields, hstart, hfinish, Option.bind_eq_bind, Option.bind_some,
      Bool.not_true, Bool.false_eq_true, if_false]

namespace SolutionRecord

theorem value?_arranged (hf : Json.Arranges ok f) {v : Nat × SolutionValue}
    (hid : (v.1 : Int) ≤ halfWordMax) (h : v.2.InRange ok) :
    value? (f (valueToJson v)) = some v := by
  have hj : Json.Arranged f [("id", .int v.1), ("value", v.2.toJson)] (f (valueToJson v)) :=
    hf.obj _ (by simp)
  obtain ⟨fs, hfields, hl⟩ := hj.fields? ["id", "value"] ["id", "value"]
  have hnumber : JsonFields.required? fs "id" Json.nat32? = some v.1 := by
    refine JsonFields.required?_eq (j := .int v.1) ?_ (Json.nat32?_int hid)
    rw [hl "id" (by decide), List.lookup_cons_self, Option.map_some, hf.int]
  have hvalue : JsonFields.withDefault? fs "value" SolutionValue.absent SolutionValue.ofJson? =
      some v.2 := by
    rw [JsonFields.withDefault?, hl "value" (by decide)]
    exact SolutionValue.ofJson?_arranged hf h
  simp only [value?, hfields, hnumber, hvalue, Option.bind_eq_bind, Option.bind_some]

/-- The members of a solution. -/
def members (r : SolutionRecord) : List (String × Json) :=
  r.objective.members ++ [valuesMember r.values]

theorem keys_members (r : SolutionRecord) :
    (r.members.map Prod.fst).Sublist ["objective", "values"] := by
  obtain ⟨objective, values⟩ := r
  cases objective with
  | undefined => exact .cons _ (.refl ["values"])
  | _ => exact .refl ["objective", "values"]

theorem plain_toJson {r : SolutionRecord} (h : r.InRange ok) : Json.Plain ok r.toJson := by
  have hobjective : Json.PlainMembers ok r.objective.members := by
    have ho := h.objective
    cases hr : r.objective with
    | value x => exact ⟨by rw [hr] at ho; exact ho, trivial⟩
    | undefined => trivial
    | absent => exact ⟨trivial, trivial⟩
  have hvalues : Json.Plain ok (.arr (r.values.map valueToJson)) := by
    refine Json.plain_list fun v hv => ?_
    obtain ⟨hid, hin⟩ := h.values v hv
    exact ⟨Json.plain_of_le_halfWordMax hid, SolutionValue.plain_toJson hin, trivial⟩
  exact Json.plainMembers_append hobjective ⟨hvalues, trivial⟩

theorem lookup_members (r : SolutionRecord) :
    r.members.lookup "objective" =
      (if r.objective.isUndefined then none else some r.objective.toJson) ∧
    r.members.lookup "values" = some (.arr (r.values.map valueToJson)) := by
  obtain ⟨objective, values⟩ := r
  cases objective <;> exact ⟨rfl, rfl⟩

/-- A solution is read back whatever the order of members. -/
theorem ofJson?_arranged (hf : Json.Arranges ok f) {r : SolutionRecord} (h : r.InRange ok) :
    ofJson? (f r.toJson) = some r := by
  have hj : Json.Arranged f r.members (f r.toJson) := hf.obj _ (r.keys_members.nodup (by decide))
  obtain ⟨fs, hfields, hl⟩ := hj.fields? ["objective", "values"] ["values"]
  obtain ⟨hlobjective, hlvalues⟩ := r.lookup_members
  have hsame : fs.lookup "objective" = r.members.lookup "objective" := by
    have ho := h.objective
    rw [hl "objective" (by decide), hlobjective]
    cases hr : r.objective with
    | undefined => rfl
    | absent => exact congrArg some hf.null
    | value x =>
      rw [hr] at ho
      exact congrArg some (hf.float x ho)
  have hobjective : ObjectiveValue.ofFields? fs = some r.objective := by
    rw [ObjectiveValue.ofFields?, hsame, hlobjective]
    cases r.objective <;> rfl
  have hvalues : JsonFields.required? fs "values" (Json.list? value?) = some r.values := by
    refine JsonFields.required?_eq (j := .arr (r.values.map (f ∘ valueToJson))) ?_
      (Json.list?_map fun v hv => value?_arranged hf (h.values v hv).1 (h.values v hv).2)
    rw [hl "values" (by decide), hlvalues, Option.map_some, hf.arr, List.map_map]
  simp only [ofJson?, hfields, hobjective, hvalues, Option.bind_eq_bind, Option.bind_some]

theorem ofJson?_toJson {r : SolutionRecord} (h : r.InRange ok) : ofJson? r.toJson = some r :=
  ofJson?_arranged (Json.arranges_id ok) h

end SolutionRecord

end Scheduling
