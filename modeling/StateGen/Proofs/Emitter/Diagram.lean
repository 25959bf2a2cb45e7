import Mathlib.Algebra.BigOperators.Group.List.Basic
import Mathlib.Data.List.Nodup
import StateGen.Proofs.Emitter.Rendering

/-!
# The diagram of a machine is its transition graph

The Graphviz text of a finished machine, line by line and in terms of the declarations: a node for
every state and an arrow for every declared edge, each exactly once.
-/

namespace StateGen

/-! ## The lines of a diagram -/

namespace Declaration

/-- The arrow of an edge; one with an event is labelled with it. -/
def Link.arrow (source : String) (e : Link) : String :=
  match e.event with
  | some event => "\t" ++ source ++ " -> " ++ e.target ++ " [label=\"" ++ event ++ "\"];"
  | none => "\t" ++ source ++ " -> " ++ e.target ++ ";"

/-- The arrows of all edges: the states in the order of their numbers, and the edges of each in the
order of their declarations. -/
def arrows (ds : List Declaration) : List String :=
  (stateNames ds).flatMap fun s ↦ (linksFrom ds s).map (Link.arrow s)

/-- The lines of the diagram of a machine that has a name and comes from a path. -/
def diagram (path name : String) (ds : List Declaration) : List String :=
  ["/* Generated by cfsm from " ++ path ++ " */",
    "",
    "digraph " ++ name ++ " \x7b",
    "\tnode [shape=circle];"]
  ++ (initialNames ds).map (fun s ↦ "\t" ++ s ++ " [peripheries=2];")
  ++ (stateNames ds).map (fun s ↦ "\t" ++ s ++ ";")
  ++ [""]
  ++ arrows ds
  ++ ["\x7d"]

/-! ## The number of arrows -/

/-- A declared edge goes out of one of the distinct states. -/
private theorem length_flatMap_linkFrom? {names : List String} (hnodup : names.Nodup) {kind : Kind}
    (hsource : ∀ s, kind.linkFrom? s ≠ none → s ∈ names) :
    (names.flatMap fun s ↦ (kind.linkFrom? s).toList).length =
      if kind.isTransition then 1 else 0 := by
  rw [← List.filterMap_eq_flatMap_toList, List.length_filterMap_eq_countP]
  cases kind with
  | transition source event target =>
    have hmem : source ∈ names := hsource source (by simp)
    calc names.countP (fun s ↦ ((Kind.transition source event target).linkFrom? s).isSome)
        = names.count source := by
          rw [List.count_eq_countP]
          refine List.countP_congr fun s _ ↦ ?_
          simp only [Kind.linkFrom?, beq_iff_eq]
          by_cases hs : source = s <;> simp [hs, Ne.symm]
      _ = 1 := List.count_eq_one_of_mem hnodup hmem
  | _ => simp

/-- Edges are counted at the states that they go out of. -/
private theorem length_flatMap_linksFrom {names : List String} (hnodup : names.Nodup)
    {ds : List Declaration} (hsource : ∀ s, linksFrom ds s ≠ [] → s ∈ names) :
    (names.flatMap (linksFrom ds)).length = ds.countP (·.kind.isTransition) := by
  induction ds with
  | nil => simp [linksFrom]
  | cons d ds ih =>
    have hcons (s : String) :
        linksFrom (d :: ds) s = (d.kind.linkFrom? s).toList ++ linksFrom ds s := by
      rw [linksFrom, List.filterMap_cons]
      cases d.kind.linkFrom? s <;> rfl
    have hhead : (names.flatMap fun s ↦ (d.kind.linkFrom? s).toList).length =
        if d.kind.isTransition then 1 else 0 := by
      refine length_flatMap_linkFrom? hnodup fun s hs ↦ hsource s ?_
      rw [hcons]
      exact List.append_ne_nil_of_left_ne_nil (by simpa using hs) _
    have htail : (names.flatMap (linksFrom ds)).length = ds.countP (·.kind.isTransition) := by
      refine ih fun s hs ↦ hsource s ?_
      rw [hcons]
      exact List.append_ne_nil_of_right_ne_nil _ hs
    rw [List.length_flatMap] at hhead htail
    calc (names.flatMap (linksFrom (d :: ds))).length
        = (names.map fun s ↦ (d.kind.linkFrom? s).toList.length + (linksFrom ds s).length).sum := by
          simp only [List.length_flatMap, hcons, List.length_append]
      _ = (if d.kind.isTransition then 1 else 0) + ds.countP (·.kind.isTransition) := by
          rw [List.sum_map_add, hhead, htail]
      _ = (d :: ds).countP (·.kind.isTransition) := by
          rw [List.countP_cons, Nat.add_comm]

/-- There is an arrow for every declared edge. -/
theorem length_arrows {ds : List Declaration} (hc : Consistent ds) :
    (arrows ds).length = ds.countP (·.kind.isTransition) := by
  rw [← length_flatMap_linksFrom hc.states_nodup hc.source_declared, arrows]
  simp [List.length_flatMap]

end Declaration

/-! ## The text of a diagram -/

namespace Emitter

open Machine Declaration Template

section

variable {inputPath : String} {ds : List Declaration} {ns : Namespace}

private theorem lines_append (as bs : List String) : lines (as ++ bs) = lines as ++ lines bs := by
  simp [lines]

/-- Pieces that are lines are the lines of all pieces. -/
private theorem each_lines {α : Type} (xs : List α) (f : α → List String) :
    (each xs fun x ↦ lines (f x)) = lines (xs.flatMap f) := by
  induction xs with
  | nil => rfl
  | cons x xs ih =>
    rw [List.flatMap_cons, lines_append, ← ih, each, List.map_cons, String.join_cons]

/-- The emitter looks at the machine to tell whether edges have events, and the declarations agree
with each other on that. -/
private theorem arrow_declaredBy (hc : Consistent ds) {source : String} {e : Link}
    (he : e ∈ linksFrom ds source) :
    arrow (Spec.declaredBy ds) (State.declaredBy ds source) (Edge.declaredBy ds source e) =
      lines [e.arrow source] := by
  have htarget := stateNameD_idxOf (hc.target_declared source e he)
  cases hevent : e.event with
  | some event =>
    have hevents := List.ne_nil_of_mem (hc.event_declared source e he event hevent)
    have hdriven : (Spec.declaredBy ds).eventDriven = true := by
      simpa [Spec.declaredBy] using hevents
    have hkey : e.key = event := by rw [Link.key, hevent, Option.getD_some]
    rw [arrow, if_pos hdriven, Link.arrow, hevent]
    simp only [State.declaredBy, Edge.declaredBy, htarget, hkey]
  | none =>
    have hevents := hc.events_of_direct source e he hevent
    have hdriven : (Spec.declaredBy ds).eventDriven = false := by
      simpa [Spec.declaredBy] using hevents
    rw [arrow, hdriven, if_neg Bool.false_ne_true, Link.arrow, hevent]
    simp only [State.declaredBy, Edge.declaredBy, htarget]

private theorem arrows_declaredBy (hc : Consistent ds) :
    (each (Spec.declaredBy ds).states fun s ↦ each s.edges (arrow (Spec.declaredBy ds) s)) =
      lines (arrows ds) := by
  have hstate (source : String) :
      each (State.declaredBy ds source).edges
          (arrow (Spec.declaredBy ds) (State.declaredBy ds source)) =
        lines ((linksFrom ds source).map (Link.arrow source)) := by
    rw [each, State.declaredBy, List.map_map]
    calc String.join ((linksFrom ds source).map
          (arrow (Spec.declaredBy ds) (State.declaredBy ds source) ∘ Edge.declaredBy ds source))
        = each (linksFrom ds source) fun e ↦ lines [e.arrow source] :=
          congrArg String.join (List.map_congr_left fun e he ↦ arrow_declaredBy hc he)
      _ = lines ((linksFrom ds source).map (Link.arrow source)) := by
          rw [each_lines, List.map_eq_flatMap]
  calc (each (Spec.declaredBy ds).states fun s ↦ each s.edges (arrow (Spec.declaredBy ds) s))
      = each (stateNames ds) fun source ↦
          lines ((linksFrom ds source).map (Link.arrow source)) := by
        rw [each, Spec.declaredBy, List.map_map]
        exact congrArg String.join (List.map_congr_left fun source _ ↦ hstate source)
    _ = lines (arrows ds) := each_lines ..

/-- The diagram of a machine is the one of its declarations. -/
private theorem graphviz_declaredBy (cfg : Settings) (hc : Consistent ds) :
    graphviz cfg (Spec.declaredBy ds) =
      lines (diagram cfg.inputPath (cfg.option "fsm_struct") ds) := by
  rw [graphviz, arrows_declaredBy hc, initialNames_declaredBy hc, map_name_states, each_lines,
    each_lines, ← List.map_eq_flatMap, ← List.map_eq_flatMap, diagram]
  simp only [lines_append]

/-- The Graphviz template renders for every finished machine, whatever was declared and whatever of
it was rejected. The text is the diagram of the accepted declarations, under the path and the name
in the namespace, and there is an arrow for every accepted edge. -/
theorem render_graphviz_eq_diagram
    (h : ((Model.initial inputPath).applyEach ds).finalize = .ok ns) :
    let accepted := (Model.initial inputPath).accepted ds
    ∃ path name, ns.root.get? "input_path" = some (.str path) ∧
      ns.root.get? "fsm_struct" = some (.str name) ∧
      (∃ t, parse "graphviz.m" Builtin.graphviz = .ok t ∧
        (t.render ns.root {}).result =
          .ok (Utf8.encode (lines (diagram path name accepted)))) ∧
      (arrows accepted).length = accepted.countP (·.kind.isTransition) := by
  intro accepted
  have hc : Consistent accepted := (Model.acceptable_accepted inputPath ds).consistent
  obtain ⟨-, -, hd⟩ := describes_accepted h
  obtain ⟨t, ht, hresult⟩ := render_graphviz "graphviz.m" hd
  refine ⟨_, _, hd.inputPath, hd.option "fsm_struct" (by decide), ⟨t, ht, ?_⟩, length_arrows hc⟩
  rw [hresult #[], Array.toList_empty, List.nil_append, graphviz_declaredBy _ hc]

/-- A valve with an event; the second edge for it is rejected. -/
private def valve : List Declaration :=
  [⟨.state "shut", .none⟩, ⟨.state "open", .none⟩, ⟨.event "turn", .none⟩, ⟨.initial "shut", .none⟩,
    ⟨.transition "shut" (some "turn") "open", .none⟩,
    ⟨.transition "shut" (some "turn") "shut", .none⟩]

/-- The diagram of the valve has one arrow. -/
theorem render_graphviz_eq_diagram_valve :
    ∃ ns, ((Model.initial "valve.fsm").applyEach valve).finalize = .ok ns ∧
      ∃ path name, ns.root.get? "input_path" = some (.str path) ∧
        ns.root.get? "fsm_struct" = some (.str name) ∧
        (∃ t, parse "graphviz.m" Builtin.graphviz = .ok t ∧
          (t.render ns.root {}).result =
            .ok (Utf8.encode (lines
              ["/* Generated by cfsm from " ++ path ++ " */", "", "digraph " ++ name ++ " \x7b",
                "\tnode [shape=circle];", "\tshut [peripheries=2];", "\tshut;", "\topen;", "",
                "\tshut -> open [label=\"turn\"];", "\x7d"]))) := by
  have hfinalize : ∃ ns, ((Model.initial "valve.fsm").applyEach valve).finalize = .ok ns :=
    ⟨_, rfl⟩
  obtain ⟨ns, hns⟩ := hfinalize
  obtain ⟨path, name, hpath, hname, hrender, -⟩ := render_graphviz_eq_diagram hns
  exact ⟨ns, hns, path, name, hpath, hname, hrender⟩

end

end Emitter

end StateGen
