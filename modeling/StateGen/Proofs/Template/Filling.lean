import Mathlib.Data.List.Forall2
import StateGen.Proofs.Template.Layout

/-!
# What lines write

The rules of `Writes` for trees that are put together from lines: a block writes its lines with the
values filled in, a loop what its body writes for every element, in an environment that has the
variables of the round in front.
-/

namespace StateGen.Template

/-! ## Values of paths -/

theorem Env.extend_nil (env : Env) : env.extend [] = env := rfl

theorem Env.extend_cons (env : Env) (x : String) (v : Value) (scopes : List (String × Value))
    (name : String) :
    env.extend ((x, v) :: scopes) name = if name = x then some v else env.extend scopes name := by
  rw [Env.extend, OrderedMap.lookup_entry_cons]
  by_cases h : name = x
  · simp [h]
  · simp [h, Env.extend]

theorem Path.resolve_name {env : Env} {x : String} {v : Value} (h : env x = some v) :
    Path.resolve env ⟨x, []⟩ = some v := by
  simp [Path.resolve, Path.followSteps, h]

theorem Path.resolve_field {env : Env} {x key : String} {v w : Value} (h : env x = some v)
    (hkey : v.get? key = some w) : Path.resolve env ⟨x, [.key key]⟩ = some w := by
  simp [Path.resolve, Path.followSteps, Step.follow, h, hkey]

/-- What a substitution writes. -/
def Shows (env : Env) (p : Path) (s : String) : Prop := Writes env [.subst p .none] s

theorem Shows.string {env : Env} {x s : String} (h : env x = some (.str s)) :
    Shows env ⟨x, []⟩ s :=
  Writes.string (Path.resolve_name h)

theorem Shows.integer {env : Env} {x : String} {n : Int} (h : env x = some (.int n)) :
    Shows env ⟨x, []⟩ (toString n) :=
  Writes.integer (Path.resolve_name h)

theorem Shows.field {env : Env} {x key s : String} {v : Value} (h : env x = some v)
    (hkey : v.get? key = some (.str s)) : Shows env ⟨x, [.key key]⟩ s :=
  Writes.string (Path.resolve_field h hkey)

/-! ## Lines -/

/-- What a line writes, without its end. -/
inductive Line.Fills (env : Env) : Line → String → Prop where
  | text (s : String) : Fills env (.text s) s
  | value {p : Path} {v : String} (hp : Shows env p v) (s : String) :
    Fills env (.value p s) (v ++ s)
  | put {l : Line} {p : Path} {t v : String} (hl : Fills env l t) (hp : Shows env p v)
    (s : String) : Fills env (.put l p s) (t ++ v ++ s)
  | last {l : Line} {p : Path} {t v : String} (hl : Fills env l t) (hp : Shows env p v) :
    Fills env (.last l p) (t ++ v)

variable {env : Env}

private theorem Line.Fills.front {l : Line} {s : String} (h : l.Fills env s) :
    ∃ t, Writes env l.front t ∧ s = t ++ l.tail := by
  induction h with
  | text s => exact ⟨"", .nil, by simp [Line.tail]⟩
  | @value p v hp s => exact ⟨v, hp, rfl⟩
  | @put l p t v hl hp s ih =>
    obtain ⟨u, hu, rfl⟩ := ih
    refine ⟨u ++ (l.tail ++ v), hu.append ((Writes.text l.tail).cons hp), ?_⟩
    simp only [Line.tail, String.append_assoc]
  | @last l p t v hl hp ih =>
    obtain ⟨u, hu, rfl⟩ := ih
    refine ⟨u ++ (l.tail ++ v), hu.append ((Writes.text l.tail).cons hp), ?_⟩
    simp only [Line.tail, String.append_assoc, String.append_empty]

namespace Writes

/-- A block writes its lines with the values filled in. -/
theorem block {ls : List Line} {ss : List String} (h : List.Forall₂ (Line.Fills env) ls ss) :
    Writes env (block ls) (lines ss) := by
  induction h with
  | nil => exact .nil
  | @cons l s ls ss hl _ ih =>
    obtain ⟨t, ht, rfl⟩ := hl.front
    have hblock : Template.block (l :: ls) = l.nodes ++ Template.block ls := List.flatMap_cons
    have hlines : lines ((t ++ l.tail) :: ss) = t ++ (l.tail ++ "\n") ++ lines ss := by
      simp [lines, String.append_assoc]
    rw [hblock, hlines]
    exact (ht.append (.text (l.tail ++ "\n"))).append ih

/-- A loop over names writes what its body writes for each of them. -/
theorem each {value : String} {p : Path} {body : List Node} {names : List String}
    {f : String → String} (hp : p.resolve env = some (.ofStrings names))
    (hbody : ∀ name ∈ names, ∀ info,
      Writes (env.extend [(value, .str name), (Renderer.loopVariable, info)]) body (f name)) :
    Writes env (each value p body) (String.join (names.map f)) :=
  each_string hp fun name hname i ↦ hbody name hname (Renderer.loopInfo i names.length)

/-- A loop over a mapping writes what its body writes for each of the entries. -/
theorem eachEntry {ι : Type} {key value : String} {p : Path} {body : List Node} {xs : List ι}
    {entry : ι → String × Value} {f : ι → String}
    (hp : p.resolve env = some (.map ⟨xs.map entry⟩))
    (hbody : ∀ x ∈ xs, ∀ info,
      Writes (env.extend [(value, (entry x).2), (key, .str (entry x).1),
        (Renderer.loopVariable, info)]) body (f x)) :
    Writes env (eachEntry key value p body) (String.join (xs.map f)) :=
  each_entry hp fun x hx i ↦ hbody x hx (Renderer.loopInfo i xs.length)

/-- A choice on a truth value writes the part that it selects. -/
theorem choose {p : Path} {yes no : List Node} {b : Bool} {s t : String}
    (hp : p.resolve env = some (.ofBool b)) (hyes : b = true → Writes env yes s)
    (hno : b = false → Writes env no t) :
    Writes env (choose p yes no) (if b then s else t) := by
  cases b with
  | true =>
    refine choice_pos ?_ (hyes rfl)
    simp [Condition.holds, hp, Value.ofBool, Value.isTruthy]
  | false =>
    refine choice_neg ?_ (hno rfl)
    simp [Condition.holds, hp, Value.ofBool, Value.isTruthy]

/-- A choice on a list of names writes its part unless the list is empty. -/
theorem chooseAny {p : Path} {yes : List Node} {names : List String} {s : String}
    (hp : p.resolve env = some (.ofStrings names)) (hyes : Writes env yes s) :
    Writes env (Template.choose p yes []) (if names.isEmpty then "" else s) := by
  cases names with
  | nil =>
    refine choice_neg ?_ .nil
    simp [Condition.holds, hp, Value.ofStrings, Value.isTruthy]
  | cons name names =>
    refine choice_pos ?_ hyes
    simp [Condition.holds, hp, Value.ofStrings, Value.isTruthy]

end Writes

end StateGen.Template
