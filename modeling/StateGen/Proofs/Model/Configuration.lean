import StateGen.Proofs.Model.Publish
import StateGen.Proofs.Model.Rejection

/-!
# The configuration of a machine

Options, the path of the description and the status codes stand at the head of every namespace. The
options begin with their defaults, change only through checked values, and the path is made fit for
a comment once, so that no configuration text ends the identifier, the literal or the comment that a
template puts it in. Nothing that is declared adds a key, drops one or moves one.
-/

namespace StateGen.Model

open Declaration

/-- The head of the namespace: every option, the path and every status with its code. -/
def configuration (m : Model) : OrderedMap Value := ⟨m.configEntries⟩

theorem keys_configuration (m : Model) :
    m.configuration.keys =
      m.options.keys ++ "input_path" :: Status.all.map Status.namespaceKey := by
  simp only [configuration, configEntries, OrderedMap.keys, List.map_append, List.map_map,
    List.append_assoc]
  rfl

/-- Templates find under a key of the configuration what the configuration holds. -/
theorem get?_publish_of_mem_configuration {m : Model} {key : String}
    (h : key ∈ m.configuration.keys) :
    m.publish.root.get? key = m.configuration.get? key := by
  have hfound : (m.configEntries.lookup key).isSome := by
    rw [List.lookup_isSome_iff]
    obtain ⟨e, he, rfl⟩ := List.mem_map.1 h
    exact ⟨e, he, beq_self_eq_true _⟩
  obtain ⟨value, hvalue⟩ := Option.isSome_iff_exists.1 hfound
  simp only [publish, Value.get?, OrderedMap.get?, configuration, List.append_assoc]
  rw [List.lookup_append, hvalue, Option.some_or]

/-- A configuration whose texts cannot leave the places where templates put them. -/
structure IsConfined (configuration : OrderedMap Value) (inputPath : String) : Prop where
  identifier : ∀ key ∈ Config.identifierKeys, ∃ value,
    configuration.get? key = some (.str value) ∧ ∃ first rest, value.toList = first :: rest ∧
      (first.isAlpha ∨ first = '_') ∧ ∀ c ∈ rest, c.isAlphanum ∨ c = '_'
  text : ∀ key ∈ Config.textKeys, ∃ value,
    configuration.get? key = some (.str value) ∧ Config.FitsLiteral value
  callbackOrder : ∃ order : CallbackOrder,
    configuration.get? "callback_order" = some (.str order.name)
  inputPath : ∃ path, configuration.get? "input_path" = some (.str path) ∧
    Config.FitsComment path ∧ (Config.FitsComment inputPath → path = inputPath)
  status : ∀ s : Status, configuration.get? s.namespaceKey = some (.int s.code)

section

variable {inputPath : String} {ds : List Declaration}

private theorem keys_configuration_declaredBy :
    (declaredBy inputPath ds).configuration.keys =
      Config.keys ++ "input_path" :: Status.all.map Status.namespaceKey := by
  rw [keys_configuration, keys_options_declaredBy]

private theorem isConfined_declaredBy (hc : Consistent ds) :
    IsConfined (declaredBy inputPath ds).configuration inputPath := by
  have hp : Publishes (declaredBy inputPath ds).publish.root inputPath ds := publishes_declaredBy
  have hkeys : (declaredBy inputPath ds).configuration.keys = _ := keys_configuration_declaredBy
  have hoption {key : String} (hkey : key ∈ Config.keys) :
      (declaredBy inputPath ds).configuration.get? key = some (.str (optionOf ds key)) := by
    have hmem : key ∈ (declaredBy inputPath ds).configuration.keys := by
      rw [hkeys]
      exact List.mem_append_left _ hkey
    rw [← get?_publish_of_mem_configuration hmem, hp.option key hkey]
  have hidentifiers : ∀ key ∈ Config.identifierKeys, key ∈ Config.keys := by decide
  have htexts : ∀ key ∈ Config.textKeys, key ∈ Config.keys := by decide
  constructor
  case identifier =>
    intro key hkey
    have hmem := hidentifiers key hkey
    have hvalid := (Config.isValid_identifier_iff hkey).1 (hc.isValid_optionOf hmem)
    exact ⟨_, hoption hmem, Text.isIdentifier_iff.1 hvalid⟩
  case text =>
    intro key hkey
    have hmem := htexts key hkey
    exact ⟨_, hoption hmem, (Config.isValid_text_iff hkey).1 (hc.isValid_optionOf hmem)⟩
  case callbackOrder =>
    have hmem : "callback_order" ∈ Config.keys := by decide
    obtain ⟨order, horder⟩ := Config.isValid_callbackOrder_iff.1 (hc.isValid_optionOf hmem)
    exact ⟨order, by rw [hoption hmem, horder]⟩
  case inputPath =>
    have hmem : "input_path" ∈ (declaredBy inputPath ds).configuration.keys := by
      rw [hkeys]
      exact List.mem_append_right _ List.mem_cons_self
    refine ⟨Config.forComment inputPath, ?_, Config.fitsComment_forComment inputPath,
      Config.FitsComment.forComment_eq⟩
    rw [← get?_publish_of_mem_configuration hmem, hp.inputPath]
  case status =>
    intro s
    have hmem : s.namespaceKey ∈ (declaredBy inputPath ds).configuration.keys := by
      rw [hkeys]
      refine List.mem_append_right _ (List.mem_cons_of_mem _ (List.mem_map_of_mem ?_))
      cases s <;> decide
    rw [← get?_publish_of_mem_configuration hmem, hp.status s]

end

/-- Whatever the path is and whatever was declared, the configuration has the keys it began with, in
their order, its texts stay in their places, and the namespace gives them out as they are. A path
that was made fit for a comment stays as it is when that is done again. -/
theorem isConfined_applyEach (inputPath : String) (ds : List Declaration) :
    let m := (initial inputPath).applyEach ds
    IsConfined m.configuration inputPath ∧
      m.configuration.keys =
        Config.keys ++ "input_path" :: Status.all.map Status.namespaceKey ∧
      m.configuration.keys = (initial inputPath).configuration.keys ∧
      (∀ key ∈ m.configuration.keys, m.publish.root.get? key = m.configuration.get? key) ∧
      Config.forComment (Config.forComment inputPath) = Config.forComment inputPath := by
  intro m
  have hm : m = declaredBy inputPath ((initial inputPath).accepted ds) :=
    applyEach_eq_declaredBy inputPath ds
  have hkeys : m.configuration.keys =
      Config.keys ++ "input_path" :: Status.all.map Status.namespaceKey := by
    rw [hm, keys_configuration_declaredBy]
  have hstart : (initial inputPath).configuration.keys =
      Config.keys ++ "input_path" :: Status.all.map Status.namespaceKey := by
    rw [initial_eq_declaredBy, keys_configuration_declaredBy]
  refine ⟨?_, hkeys, by rw [hkeys, hstart], fun key ↦ get?_publish_of_mem_configuration,
    Config.forComment_idem inputPath⟩
  rw [hm]
  exact isConfined_declaredBy (acceptable_accepted inputPath ds).consistent

end StateGen.Model
