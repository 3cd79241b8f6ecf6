import Scheduling.Proofs.Record.Texts

/-!
# Records from their trees

Every model, solution and command of finite floats is what is read from its JSON value, both in the
order in which members are written and with the members of every object sorted by key
(`trees_round_trip`). So no form of an argument is taken for another one, and what a record tells
apart its JSON value tells apart.
-/

namespace Scheduling

variable {P : Type} {write : P → Json} {read : Json → Option P}

/-- The value has a JSON value that can be written, and is read back from it in whatever order. -/
structure ReadBack {α : Type} (read : Json → Option α) (j : Json) (a : α) : Prop where
  plain : Json.Plain (fun x => x.isFinite = true) j
  written : read j = some a
  sorted : read j.canonical = some a

theorem ArgRecord.readBack {a : ArgRecord} (h : a.InRange fun x => x.isFinite = true) :
    ReadBack ofJson? a.toJson a :=
  ⟨plain_toJson a h, ofJson?_toJson a h, ofJson?_arranged Json.arranges_canonical a h⟩

theorem ModelRecord.readBack {r : ModelRecord} (h : r.InRange fun x => x.isFinite = true)
    (unit : UnitForm) : ReadBack (ofJson? unit) r.toJson r :=
  ⟨plain_toJson h, ofJson?_toJson h unit, ofJson?_arranged Json.arranges_canonical h unit⟩

theorem SolutionValue.readBack {v : SolutionValue} (h : v.InRange fun x => x.isFinite = true) :
    ReadBack ofJson? v.toJson v :=
  ⟨plain_toJson h, ofJson?_arranged (Json.arranges_id _) h,
    ofJson?_arranged Json.arranges_canonical h⟩

theorem SolutionRecord.readBack {r : SolutionRecord} (h : r.InRange fun x => x.isFinite = true) :
    ReadBack ofJson? r.toJson r :=
  ⟨plain_toJson h, ofJson?_toJson h, ofJson?_arranged Json.arranges_canonical h⟩

theorem Command.readBack {c : Command P} (h : c.InRange fun x => x.isFinite = true)
    (hp : ∀ p, ReadBack read (write p) p) : ReadBack (ofJson? read) (c.toJson write) c :=
  ⟨plain_toJson h fun p _ => (hp p).plain,
    ofJson?_toJson h (fun p _ => (hp p).plain) fun p _ => (hp p).written,
    ofJson?_arranged Json.arranges_canonical h (fun p _ => (hp p).plain) fun p _ => (hp p).sorted⟩

/-- Arguments, models, values of variables, solutions and commands are what is read from their JSON
values. The parameters of a command are of any type of which the same holds. -/
theorem trees_round_trip (write : P → Json) (read : Json → Option P)
    (hp : ∀ p, ReadBack read (write p) p) :
    (∀ a : ArgRecord, a.InRange (fun x => x.isFinite = true) →
      ReadBack ArgRecord.ofJson? a.toJson a) ∧
    (∀ (r : ModelRecord) (unit : UnitForm), r.InRange (fun x => x.isFinite = true) →
      ReadBack (ModelRecord.ofJson? unit) r.toJson r) ∧
    (∀ v : SolutionValue, v.InRange (fun x => x.isFinite = true) →
      ReadBack SolutionValue.ofJson? v.toJson v) ∧
    (∀ r : SolutionRecord, r.InRange (fun x => x.isFinite = true) →
      ReadBack SolutionRecord.ofJson? r.toJson r) ∧
    ∀ c : Command P, c.InRange (fun x => x.isFinite = true) →
      ReadBack (Command.ofJson? read) (c.toJson write) c :=
  ⟨fun _ => ArgRecord.readBack, fun _ unit h => ModelRecord.readBack h unit,
    fun _ => SolutionValue.readBack, fun _ => SolutionRecord.readBack,
    fun _ h => Command.readBack h hp⟩

/-- A command with an argument of every form and a warm start with a value of every form. -/
def everyForm : Command Bool :=
  let constant : NodeRecord := .mk .floatConst [.float 2.0] .none
  let steps : NodeRecord := .mk .stepFunction [] { Attributes.none with values := some [] }
  .solve ⟨none, [.mk .boolVar [] .none],
      [.ref 0, .inline constant, .inline steps, .list [.bool true, .list [], .int 2]], none⟩ true
    (some ⟨.absent,
      [(0, .absent), (0, .bool true), (0, .int 2), (0, .float 2.0), (0, .interval 0 2)]⟩)

/-- The parameters of the command, as an object whose members are not sorted. -/
def writeFlag (b : Bool) : Json := .obj [("verbose", .bool b), ("seed", .int 1)]

def readFlag? (j : Json) : Option Bool := do
  let fs ← j.fields? ["verbose", "seed"] ["verbose"]
  fs.required? "verbose" Json.bool?

theorem trees_round_trip_everyForm :
    (∀ b, ReadBack readFlag? (writeFlag b) b) ∧
      everyForm.InRange (fun x => x.isFinite = true) ∧
      ReadBack (Command.ofJson? readFlag?) (everyForm.toJson writeFlag) everyForm := by
  have hp (b : Bool) : ReadBack readFlag? (writeFlag b) b := by
    have hseed : Json.Plain (fun x => x.isFinite = true) (.int 1) := Json.plain_of_fits (by decide)
    cases b <;> exact ⟨⟨trivial, hseed, trivial⟩, by decide, by decide⟩
  have hin : everyForm.InRange (fun x => x.isFinite = true) := by
    have hfloat : (2.0 : Float).isFinite = true := by decide
    have hnone : Attributes.none.InRange (fun x => x.isFinite = true) :=
      ⟨⟨nofun, nofun, nofun, nofun, nofun, nofun, nofun, nofun⟩, nofun⟩
    refine ⟨⟨?_, ?_, nofun⟩, ?_⟩
    · simp [NodeRecord.InRange, ArgRecord.AllInRange, hnone]
    · have hvalues : Attributes.InRange (fun x => x.isFinite = true)
          { Attributes.none with values := some [] } := ⟨hnone.bounds, by simp [TableInRange]⟩
      simp [ArgRecord.InRange, ArgRecord.AllInRange, NodeRecord.InRange, hnone, hvalues, hfloat,
        Fits, intMin, intMax, halfWordMax]
    · intro s hs
      obtain rfl := Option.some.inj hs
      refine ⟨trivial, ?_⟩
      simp [SolutionValue.InRange, hfloat, Fits, intMin, intMax, halfWordMax]
  exact ⟨hp, hin, (trees_round_trip writeFlag readFlag? hp).2.2.2.2 everyForm hin⟩

end Scheduling
