import StateGen.Proofs.Description.Declared
import StateGen.Proofs.Description.Grammar

/-!
# The names of a description

States, events, targets and hooks are named by identifiers of the text. A declaration that points at
a name has the place of an identifier of some item, and the derivation of that item has it as a word
among its tokens.
-/

namespace StateGen

/-- The name at which a declaration points, if it points at one and not at a whole item. -/
def Declaration.Kind.quoted? : Declaration.Kind → Option String
  | .state name | .event name | .initial name | .precondition _ name | .callback _ name
  | .transition _ none name => some name
  | .transition _ (some _) _ | .config _ _ => none

/-- A declaration that introduces a name points at it. -/
theorem Declaration.Kind.quoted?_of_named? {k : Declaration.Kind} {kind : Model.NameKind}
    {name : String} (h : k.named? = some (kind, name)) : k.quoted? = some name := by
  cases k <;> cases h <;> rfl

namespace Description

/-! ## Where names are written -/

/-- The targets and hooks of an entry of a state at which declarations point. -/
def StateEntry.quotedIdents : StateEntry → List Ident
  | .entryPrecondition names | .exitPrecondition names | .onEnter names | .onExit names => names
  | .nextState edges => edges.targets ++ edges.preconditions
  | .onEvent _ edges => edges.preconditions

/-- The names of an item at which declarations point. -/
def Item.quotedIdents : Item → List Ident
  | .option _ => []
  | .initial i => i.states
  | .event e => e.name :: (e.preconditions ++ e.callbacks)
  | .state s => s.name :: s.body.flatMap StateEntry.quotedIdents

variable {d : Description} {decl : Declaration} {name : String}

private theorem StateEntry.exists_hookIdent {state : String} {entry : StateEntry}
    (h : decl ∈ entry.hooks state) (hquoted : decl.kind.quoted? = some name) :
    ∃ i ∈ entry.quotedIdents, i.name = name ∧ i.span = decl.span := by
  cases entry <;>
    simp only [hooks, preconditions, callbacks, List.mem_flatMap, List.mem_map] at h
  case nextState =>
    obtain ⟨t, -, i, hi, rfl⟩ := h
    cases hquoted
    exact ⟨i, List.mem_append_right _ hi, rfl, rfl⟩
  all_goals
    obtain ⟨i, hi, rfl⟩ := h
    cases hquoted
    exact ⟨i, hi, rfl, rfl⟩

private theorem StateEntry.exists_targetIdent {state : String} {entry : StateEntry}
    (h : decl ∈ entry.transitions state) (hquoted : decl.kind.quoted? = some name) :
    ∃ i ∈ entry.quotedIdents, i.name = name ∧ i.span = decl.span := by
  cases entry <;> simp only [transitions, List.mem_map, List.not_mem_nil] at h
  case nextState =>
    obtain ⟨t, ht, rfl⟩ := h
    cases hquoted
    exact ⟨t, List.mem_append_left _ ht, rfl, rfl⟩
  case onEvent =>
    obtain ⟨t, -, rfl⟩ := h
    cases hquoted

private theorem Item.exists_hookIdent {item : Item} (h : decl ∈ item.hooks)
    (hquoted : decl.kind.quoted? = some name) :
    ∃ i ∈ item.quotedIdents, i.name = name ∧ i.span = decl.span := by
  cases item with
  | option | initial => cases h
  | event e =>
    simp only [hooks, preconditions, callbacks, List.mem_append, List.mem_map] at h
    obtain ⟨i, hi, rfl⟩ | ⟨i, hi, rfl⟩ := h
    all_goals
      cases hquoted
      exact ⟨i, by simp [quotedIdents, hi], rfl, rfl⟩
  | state s =>
    obtain ⟨entry, hentry, h⟩ := List.mem_flatMap.1 h
    obtain ⟨i, hi, hname⟩ := StateEntry.exists_hookIdent h hquoted
    exact ⟨i, List.mem_cons_of_mem _ (List.mem_flatMap.2 ⟨entry, hentry, hi⟩), hname⟩

/-- A declaration that points at a name has the place of an identifier of an item. -/
theorem exists_quotedIdent (h : decl ∈ d.declarations)
    (hquoted : decl.kind.quoted? = some name) :
    ∃ item ∈ d.items, ∃ i ∈ item.quotedIdents, i.name = name ∧ i.span = decl.span := by
  obtain ⟨item, hitem, h⟩ := exists_item_of_mem_declarations d h
  refine ⟨item, hitem, ?_⟩
  obtain ⟨declared, span⟩ := decl
  cases declared with
  | config => cases hquoted
  | precondition | callback => exact Item.exists_hookIdent h hquoted
  | state declared =>
    cases hquoted
    cases item with
    | option | initial | event => cases h
    | state s =>
      cases List.mem_singleton.1 h
      exact ⟨s.name, List.mem_cons_self, rfl, rfl⟩
  | event declared =>
    cases hquoted
    cases item with
    | option | initial | state => cases h
    | event e =>
      cases List.mem_singleton.1 h
      exact ⟨e.name, List.mem_cons_self, rfl, rfl⟩
  | initial declared =>
    cases hquoted
    cases item with
    | option | event => cases h
    | initial i =>
      obtain ⟨s, hs, heq⟩ := List.mem_map.1 h
      cases heq
      exact ⟨s, hs, rfl, rfl⟩
    | state s =>
      simp only [Group.ofKind, Group.ofItem, Item.initials] at h
      split at h
      · cases List.mem_singleton.1 h
        exact ⟨s.name, List.mem_cons_self, rfl, rfl⟩
      · cases h
  | transition source event target =>
    cases item with
    | option | initial | event => cases h
    | state s =>
      obtain ⟨entry, hentry, h⟩ := List.mem_flatMap.1 h
      obtain ⟨i, hi, hname⟩ := StateEntry.exists_targetIdent h hquoted
      exact ⟨i, List.mem_cons_of_mem _ (List.mem_flatMap.2 ⟨entry, hentry, hi⟩), hname⟩

/-! ## Names as words of the text -/

namespace Grammar

/-- An identifier that stands as a word among tokens. -/
def Spells (tokens : List Token) (i : Ident) : Prop :=
  Text.isIdentifier i.name ∧ wordToken i ∈ tokens

variable {i : Ident}

theorem Spells.mono {tokens tokens' : List Token} (h : Spells tokens i) (hsub : tokens ⊆ tokens') :
    Spells tokens' i :=
  ⟨h.1, hsub h.2⟩

theorem Names.spells {ns : Names} (h : i ∈ ns.idents) : Spells ns.tokens i := by
  rcases List.mem_cons.1 h with rfl | h
  · exact ⟨ns.first.isIdentifier, List.mem_cons_self⟩
  · obtain ⟨n, hn, rfl⟩ := List.mem_map.1 h
    refine ⟨n.2.isIdentifier, List.mem_cons_of_mem _ (List.mem_flatMap.2 ⟨n, hn, ?_⟩)⟩
    simp [commaTokens]

theorem Line.spells {l : Line} (h : i ∈ l.idents) : Spells l.tokens i :=
  (Names.spells h).mono (List.subset_append_left _ _)

/-- What an entry of a body spells, the body spells. -/
theorem Body.spells {ε : Type} {entryTokens : ε → List Token} {b : Body ε} {entry : ε}
    (hentry : entry ∈ b.entries) (h : Spells (entryTokens entry) i) :
    Spells (b.tokens entryTokens) i := by
  cases b with
  | semicolon => cases hentry
  | block left entries right =>
    have hsub : entryTokens entry ⊆ entries.flatMap entryTokens :=
      fun t ht ↦ List.mem_flatMap.2 ⟨entry, hentry, ht⟩
    exact h.mono (List.Subset.trans hsub (by simp [tokens]))

theorem Body.spells_guard {b : Body GuardLine} (h : i ∈ b.guards) :
    Spells (b.tokens GuardLine.tokens) i := by
  obtain ⟨g, hg, hi⟩ := List.mem_flatMap.1 h
  exact Body.spells hg ((Line.spells hi).mono (List.subset_cons_self _ _))

theorem Entry.spells {e : Entry} (h : i ∈ e.toStateEntry.quotedIdents) : Spells e.tokens i := by
  cases e with
  | hooks hook keyword line =>
    have hidents : (hook.entry line.idents).quotedIdents = line.idents := by cases hook <;> rfl
    rw [toStateEntry, hidents] at h
    exact (Line.spells h).mono (List.subset_cons_self _ _)
  | nextState keyword targets body =>
    rcases List.mem_append.1 h with h | h
    · exact (Names.spells h).mono fun t ht ↦
        List.mem_append_left _ (List.mem_cons_of_mem _ ht)
    · exact (Body.spells_guard h).mono (List.subset_append_right _ _)
  | onEvent keyword event arrow target body =>
    exact (Body.spells_guard h).mono (List.subset_append_right _ _)

theorem EventLine.spells {l : EventLine} (h : i ∈ l.preconditions ++ l.callbacks) :
    Spells l.tokens i := by
  cases l with
  | precondition keyword line =>
    simp only [preconditions, callbacks, List.append_nil] at h
    exact (Line.spells h).mono (List.subset_cons_self _ _)
  | callback keyword line => exact (Line.spells h).mono (List.subset_cons_self _ _)

/-- Every name of an item is an identifier that the item spells. -/
theorem Item.spells {item : Item} (h : i ∈ item.toItem.quotedIdents) : Spells item.tokens i := by
  cases item with
  | option => cases h
  | initial keyword states => exact (Line.spells h).mono (List.subset_cons_self _ _)
  | event keyword name body =>
    rcases List.mem_cons.1 h with rfl | h
    · exact ⟨name.isIdentifier, by simp [tokens]⟩
    · obtain ⟨line, hline, hi⟩ :
          ∃ line ∈ body.entries, i ∈ line.preconditions ++ line.callbacks := by
        simp only [List.mem_append, List.mem_flatMap] at h ⊢
        obtain ⟨line, hline, hi⟩ | ⟨line, hline, hi⟩ := h
        · exact ⟨line, hline, .inl hi⟩
        · exact ⟨line, hline, .inr hi⟩
      exact (Body.spells hline (EventLine.spells hi)).mono fun t ht ↦
        List.mem_cons_of_mem _ (List.mem_cons_of_mem _ ht)
  | state keyword name mark body =>
    rcases List.mem_cons.1 h with rfl | h
    · exact ⟨name.isIdentifier, by simp [tokens]⟩
    · simp only [List.mem_flatMap, List.mem_map] at h
      obtain ⟨_, ⟨entry, hentry, rfl⟩, hi⟩ := h
      exact (Body.spells hentry (Entry.spells hi)).mono fun t ht ↦
        List.mem_cons_of_mem _ (List.mem_cons_of_mem _ (List.mem_append_right _ ht))

end Grammar

/-- The names at which the declarations of a derived description point are identifiers among the
words of the text. -/
theorem Derivation.spells {items : Derivation} {finish : Token}
    (h : decl ∈ (items.description finish).declarations)
    (hquoted : decl.kind.quoted? = some name) :
    ∃ i : Ident, i.name = name ∧ i.span = decl.span ∧ Grammar.Spells items.tokens i := by
  obtain ⟨_, hitem, i, hi, hname, hspan⟩ := exists_quotedIdent h hquoted
  obtain ⟨item, hmem, rfl⟩ := List.mem_map.1 hitem
  refine ⟨i, hname, hspan, (Grammar.Item.spells hi).mono fun t ht ↦ ?_⟩
  exact List.mem_flatMap.2 ⟨item, hmem, ht⟩

end Description

end StateGen
