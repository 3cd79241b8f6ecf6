import Scheduling.Proofs.Eval.Alike
import Scheduling.Proofs.Record.Reachable

/-!
# Operands of copies

What a node asks of its operands, a copy of the node asks of the copies of the operands.
-/

namespace Scheduling

open Query (Alike)

variable {α : Type} {f : NodeId → NodeId} {S : NodeId → NodeId → Prop} {id id' : NodeId} {n n' : Node}
  {a a' : Arg} {as as' : List Arg}

/-! ### Arguments -/

namespace Arg

/-- The argument is the other one about related nodes. -/
def Like (f : NodeId → NodeId) (S : NodeId → NodeId → Prop) (a' a : Arg) : Prop :=
  a = a'.rename f ∧ ∀ x ∈ a'.nodes, S x (f x)

/-- The arguments are the other ones about related nodes. -/
def AllLike (f : NodeId → NodeId) (S : NodeId → NodeId → Prop) (as' as : List Arg) : Prop :=
  as = renameAll f as' ∧ ∀ x ∈ nodesOf as', S x (f x)

theorem Like.node {x : NodeId} (h : Like f S (.node x) a) : a = .node (f x) ∧ S x (f x) :=
  ⟨h.1, h.2 x (List.mem_singleton_self x)⟩

theorem AllLike.nil (h : AllLike f S [] as) : as = [] := h.1

theorem AllLike.cons (h : AllLike f S (a' :: as') as) :
    ∃ a rest, as = a :: rest ∧ Like f S a' a ∧ AllLike f S as' rest :=
  ⟨_, _, h.1, ⟨rfl, fun x hx => h.2 x (List.mem_append_left _ hx)⟩,
    rfl, fun x hx => h.2 x (List.mem_append_right _ hx)⟩

theorem Like.list? (h : Like f S a' a) :
    (a'.list? = none ∧ a.list? = none) ∨
      ∃ as' as, a'.list? = some as' ∧ a.list? = some as ∧ AllLike f S as' as := by
  obtain ⟨rfl, hS⟩ := h
  cases a' with
  | list items => exact .inr ⟨items, renameAll f items, rfl, rfl, rfl, hS⟩
  | _ => exact .inl ⟨rfl, rfl⟩

theorem Like.value (h : Like f S a' a) : Alike Eq S a'.value a.value := by
  obtain ⟨rfl, hS⟩ := h
  cases a' with
  | node x => exact .value (hS x (List.mem_singleton_self x))
  | list items => exact .fail
  | _ => exact .answer rfl

end Arg

namespace Node

/-! ### Arguments of nodes -/

theorem alike_binary {read : NodeId → Node → Nat → Query (Option α)} (g : α → α → Value)
    (h : ∀ i, Alike Eq S (read id' n' i) (read id n i)) :
    Alike Eq S (Model.binary read g id' n') (Model.binary read g id n) := by
  refine (h 0).bind fun x _ hx => (h 1).bind fun y _ hy => ?_
  subst hx hy
  cases x <;> cases y <;> exact .answer rfl

theorem alike_unary {read : NodeId → Node → Nat → Query (Option α)} (g : α → Value)
    (h : ∀ i, Alike Eq S (read id' n' i) (read id n i)) :
    Alike Eq S (Model.unary read g id' n') (Model.unary read g id n) := by
  refine (h 0).bind fun x _ hx => ?_
  subst hx
  cases x <;> exact .answer rfl

theorem alike_intervalOf (h : Arg.Like f S a' a) :
    Alike Eq S (n'.intervalOf id' a') (n.intervalOf id a) := by
  refine h.value.bind fun v _ hv => ?_
  subst hv
  cases v <;> first | exact .answer rfl | exact .fail

theorem alike_intervalsOf (h : Arg.AllLike f S as' as) :
    Alike Eq S (n'.intervalsOf id' as') (n.intervalsOf id as) := by
  induction as' generalizing as with
  | nil =>
    obtain rfl := h.nil
    exact .answer rfl
  | cons a' as' ih =>
    obtain ⟨a, rest, rfl, ha, hrest⟩ := h.cons
    refine (alike_intervalOf ha).bind fun x _ hx => (ih hrest).bind fun xs _ hxs => ?_
    subst hx hxs
    exact .answer rfl

theorem alike_presentOf (read : Value → Option α) (flaw : NodeFlaw) (h : Arg.AllLike f S as' as) :
    Alike Eq S (n'.presentOf read flaw id' as') (n.presentOf read flaw id as) := by
  induction as' generalizing as with
  | nil =>
    obtain rfl := h.nil
    exact .answer rfl
  | cons a' as' ih =>
    obtain ⟨a, rest, rfl, ha, hrest⟩ := h.cons
    refine ha.value.bind fun v _ hv => ?_
    subst hv
    cases read v with
    | some x =>
      refine (ih hrest).bind fun xs _ hxs => ?_
      subst hxs
      exact .answer rfl
    | none =>
      by_cases hv : v.isAbsent
      · simpa only [hv, if_true] using ih hrest
      · simpa only [hv] using .fail

variable (hc : n'.Copy f n) (hS : ∀ x ∈ n'.operands, S x (f x))

include hc hS

theorem like_getElem? (i : Nat) :
    (n'.args[i]? = none ∧ n.args[i]? = none) ∨
      ∃ a' a, n'.args[i]? = some a' ∧ n.args[i]? = some a ∧ Arg.Like f S a' a := by
  have he : n.args[i]? = (n'.args[i]?).map (Arg.rename f) := by
    rw [hc.args, Arg.renameAll_eq_map, List.getElem?_map]
  cases hi : n'.args[i]? with
  | none => exact .inl ⟨rfl, by rw [he, hi, Option.map_none]⟩
  | some a' =>
    refine .inr ⟨a', a'.rename f, rfl, by rw [he, hi, Option.map_some], rfl, fun x hx => hS x ?_⟩
    exact Arg.nodesOf_of_mem (List.mem_of_getElem? hi) hx

theorem alike_arg (i : Nat) : Alike (Arg.Like f S) S (n'.arg id' i) (n.arg id i) := by
  unfold arg
  obtain ⟨h', h⟩ | ⟨a', a, h', h, hl⟩ := like_getElem? hc hS i
  · rw [h', h]
    exact .fail
  · rw [h', h]
    exact .answer hl

theorem alike_listArg (i : Nat) :
    Alike (Arg.AllLike f S) S (n'.listArg id' i) (n.listArg id i) := by
  refine (alike_arg hc hS i).bind fun a' a ha => ?_
  obtain ⟨h', h⟩ | ⟨as', as, h', h, hl⟩ := ha.list?
  · rw [h', h]
    exact .fail
  · rw [h', h]
    exact .answer hl

theorem alike_argValue (i : Nat) :
    Alike Eq S (n'.arg id' i >>= Arg.value) (n.arg id i >>= Arg.value) :=
  (alike_arg hc hS i).bind fun _ _ ha => ha.value

/-- Going on alike with the value of an argument. -/
theorem alike_argValue_bind {β γ : Type} {R : β → γ → Prop} {next' : Value → Query β}
    {next : Value → Query γ} (i : Nat) (h : ∀ v, Alike R S (next' v) (next v)) :
    Alike R S (n'.arg id' i >>= fun a => a.value >>= next') (n.arg id i >>= fun a => a.value >>= next) :=
  (alike_arg hc hS i).bind fun _ _ ha => ha.value.bind fun v _ hv => hv ▸ h v

theorem alike_readArg (read : Value → Option α) (flaw : Nat → NodeFlaw) (i : Nat) :
    Alike Eq S (n'.readArg read flaw id' i) (n.readArg read flaw id i) := by
  refine alike_argValue_bind hc hS i fun v => ?_
  by_cases hv : v.isAbsent
  · rw [if_pos hv, if_pos hv]
    exact .answer rfl
  · rw [if_neg hv, if_neg hv]
    cases read v with
    | some x => exact .answer rfl
    | none => exact .fail

theorem alike_intervalAt (i : Nat) : Alike Eq S (n'.intervalAt id' i) (n.intervalAt id i) :=
  (alike_arg hc hS i).bind fun _ _ ha => alike_intervalOf ha

end Node

end Scheduling
