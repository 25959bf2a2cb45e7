import StateGen.Proofs.Template.Directive
import StateGen.Proofs.Template.Similarity

/-!
# Reading a printed template back

Printing a tree and reading the text gives a tree that writes the same: the two differ only in the
places of tags and in how texts are divided. Nodes can be printed if their texts hold no tags and
their names can stand in tags.
-/

namespace StateGen.Template

/-- The end of a choice; `pieces` are those of its last part. -/
def choiceEnd (otherwise : List Node) (pieces : List Piece) : List Piece :=
  (if otherwise.isEmpty then [] else .line "else" :: pieces) ++ [.line "endif"]

mutual

/-- The pieces of a node. -/
def Node.pieces : Node → List Piece
  | .text s => [.text s]
  | .subst path _ => [.inline path.display]
  | .loop key value path body _ =>
    .line ("for" ++ " " ++ Directive.loopText key value path) :: piecesOf body ++ [.line "endfor"]
  | .choice branches otherwise =>
    branchPieces "if" branches ++ choiceEnd otherwise (piecesOf otherwise)

/-- The pieces of several nodes. -/
def piecesOf : List Node → List Piece
  | [] => []
  | n :: ns => n.pieces ++ piecesOf ns

/-- The pieces of branches, of which the first one starts with the given word. -/
def branchPieces (word : String) : List (Condition × List Node) → List Piece
  | [] => []
  | (c, body) :: branches =>
    .line (word ++ " " ++ Directive.conditionText c) :: piecesOf body
      ++ branchPieces "elif" branches

end

mutual

/-- A node that can be printed and has no place. -/
def Node.IsPlain : Node → Prop
  | .text s => isSparse '\x7b' s.toList = true
  | .subst path span => path.IsPlain ∧ span = .none
  | .loop key value path body span =>
    (∀ name, key = some name → IsName name) ∧ IsName value ∧ path.IsPlain ∧ span = .none ∧
      ArePlain body
  | .choice branches otherwise => branches ≠ [] ∧ BranchesPlain branches ∧ ArePlain otherwise

/-- Nodes that can be printed. -/
def ArePlain : List Node → Prop
  | [] => True
  | n :: ns => n.IsPlain ∧ ArePlain ns

/-- Branches that can be printed. -/
def BranchesPlain : List (Condition × List Node) → Prop
  | [] => True
  | (c, body) :: branches => c.path.IsPlain ∧ ArePlain body ∧ BranchesPlain branches

end

/-- The text of a template. -/
def printNodes (ns : List Node) : String := printPieces (piecesOf ns)

/-! ## The pieces are plain -/

mutual

private theorem isPlain_of_mem_pieces (n : Node) (h : n.IsPlain) :
    ∀ p ∈ n.pieces, p.IsPlain := by
  match n with
  | .text s => simpa [Node.pieces, Piece.IsPlain, Node.IsPlain] using h
  | .subst path span =>
    rw [Node.IsPlain] at h
    simpa [Node.pieces, Piece.IsPlain] using Directive.isTagBody_display h.1
  | .loop key value path body span =>
    rw [Node.IsPlain] at h
    obtain ⟨hkey, hvalue, hpath, -, hbody⟩ := h
    intro p hp
    simp only [Node.pieces, List.cons_append, List.mem_cons, List.mem_append, List.not_mem_nil,
      or_false] at hp
    rcases hp with rfl | hp | rfl
    · exact Directive.isTagBody_for hkey hvalue hpath
    · exact isPlain_of_mem_piecesOf body hbody p hp
    · exact Directive.isTagBody_keyword (by simp)
  | .choice branches otherwise =>
    rw [Node.IsPlain] at h
    obtain ⟨-, hbranches, hotherwise⟩ := h
    intro p hp
    simp only [Node.pieces, choiceEnd, List.mem_append, List.mem_singleton] at hp
    rcases hp with hp | hp | rfl
    · exact isPlain_of_mem_branchPieces "if" (.inl rfl) branches hbranches p hp
    · split at hp
      · simp at hp
      · rw [List.mem_cons] at hp
        rcases hp with rfl | hp
        · exact Directive.isTagBody_keyword (by simp)
        · exact isPlain_of_mem_piecesOf otherwise hotherwise p hp
    · exact Directive.isTagBody_keyword (by simp)

private theorem isPlain_of_mem_piecesOf (ns : List Node) (h : ArePlain ns) :
    ∀ p ∈ piecesOf ns, p.IsPlain := by
  match ns with
  | [] => simp [piecesOf]
  | n :: ns =>
    rw [ArePlain] at h
    intro p hp
    rw [piecesOf, List.mem_append] at hp
    rcases hp with hp | hp
    · exact isPlain_of_mem_pieces n h.1 p hp
    · exact isPlain_of_mem_piecesOf ns h.2 p hp

private theorem isPlain_of_mem_branchPieces (word : String) (hword : word = "if" ∨ word = "elif")
    (branches : List (Condition × List Node)) (h : BranchesPlain branches) :
    ∀ p ∈ branchPieces word branches, p.IsPlain := by
  match branches with
  | [] => simp [branchPieces]
  | (c, body) :: branches =>
    rw [BranchesPlain] at h
    intro p hp
    simp only [branchPieces, List.cons_append, List.mem_cons, List.mem_append] at hp
    rcases hp with rfl | hp | hp
    · rcases hword with rfl | rfl
      · exact Directive.isTagBody_if h.1
      · exact Directive.isTagBody_elif h.1
    · exact isPlain_of_mem_piecesOf body h.2.1 p hp
    · exact isPlain_of_mem_branchPieces "elif" (.inr rfl) branches h.2.2 p hp

end

/-! ## Blocks -/

open Partial in
private theorem readAll_tag {t t' : Partial} {body : String} {d : Directive}
    (hread : Directive.ofTag ⟨body, .none⟩ = .ok d) (hstep : t.step d .none = .ok t')
    (rest : List Segment) : readAll t (.tag ⟨body, .none⟩ :: rest) = readAll t' rest := by
  rw [readAll, hread]
  simp only [bind, Except.bind, hstep]

/-- The end of a choice closes its last branch. -/
private theorem readAll_endif {frames : List Frame} {before otherwise : List Node}
    {done : List (Condition × List Node)} {c : Condition} {body : List Node}
    (hotherwise : ∀ frames before rest,
      Partial.readAll ⟨frames, before⟩ ((piecesOf otherwise).map Piece.segment ++ rest) =
        Partial.readAll ⟨frames, before ++ otherwise⟩ rest) (rest : List Segment) :
    Partial.readAll ⟨.branch before done c .none :: frames, body⟩
        ((choiceEnd otherwise (piecesOf otherwise)).map Piece.segment ++ rest) =
      Partial.readAll ⟨frames, before ++ [.choice (done ++ [(c, body)]) otherwise]⟩ rest := by
  cases otherwise with
  | nil => exact readAll_tag (Directive.ofTag_endif .none) rfl rest
  | cons n ns =>
    simp only [choiceEnd, List.isEmpty_cons, Bool.false_eq_true, if_false, List.cons_append,
      List.map_cons, List.map_append, List.map_nil, List.append_assoc, Piece.segment,
      List.nil_append]
    rw [readAll_tag (Directive.ofTag_else .none) rfl, hotherwise,
      readAll_tag (Directive.ofTag_endif .none) rfl]
    rfl

mutual

/-- Reading the pieces of a node appends the node. -/
private theorem readAll_pieces (n : Node) (h : n.IsPlain) (frames : List Frame)
    (before : List Node) (rest : List Segment) :
    Partial.readAll ⟨frames, before⟩ (n.pieces.map Piece.segment ++ rest) =
      Partial.readAll ⟨frames, before ++ [n]⟩ rest := by
  match n with
  | .text s => rfl
  | .subst path span =>
    rw [Node.IsPlain] at h
    obtain ⟨hpath, rfl⟩ := h
    exact readAll_tag (Directive.ofTag_display hpath .none) rfl rest
  | .loop key value path body span =>
    rw [Node.IsPlain] at h
    obtain ⟨hkey, hvalue, hpath, rfl, hbody⟩ := h
    simp only [Node.pieces, List.cons_append, List.map_cons, List.map_append, List.map_nil,
      List.append_assoc, Piece.segment, List.nil_append]
    rw [readAll_tag (Directive.ofTag_for hkey hvalue hpath .none) rfl,
      readAll_piecesOf body hbody, readAll_tag (Directive.ofTag_endfor .none) rfl]
    rfl
  | .choice ((c, body) :: branches) otherwise =>
    rw [Node.IsPlain, BranchesPlain] at h
    obtain ⟨-, ⟨hc, hbody, hbranches⟩, hotherwise⟩ := h
    rw [Node.pieces, branchPieces]
    simp only [List.cons_append, List.map_cons, List.map_append, List.append_assoc, Piece.segment]
    rw [readAll_tag (Directive.ofTag_if hc .none) rfl, readAll_piecesOf body hbody,
      List.nil_append, readAll_branchPieces branches hbranches frames before [] c body otherwise
        (readAll_piecesOf otherwise hotherwise) rest, List.nil_append]
  | .choice [] otherwise =>
    rw [Node.IsPlain] at h
    exact absurd rfl h.1

/-- Reading the pieces of nodes appends the nodes. -/
private theorem readAll_piecesOf (ns : List Node) (h : ArePlain ns) (frames : List Frame)
    (before : List Node) (rest : List Segment) :
    Partial.readAll ⟨frames, before⟩ ((piecesOf ns).map Piece.segment ++ rest) =
      Partial.readAll ⟨frames, before ++ ns⟩ rest := by
  match ns with
  | [] =>
    rw [piecesOf, List.append_nil]
    rfl
  | n :: ns =>
    rw [ArePlain] at h
    rw [piecesOf, List.map_append, List.append_assoc, readAll_pieces n h.1,
      readAll_piecesOf ns h.2, List.append_assoc, List.singleton_append]

/-- Reading further branches and the end of a choice gives the choice. -/
private theorem readAll_branchPieces (branches : List (Condition × List Node))
    (h : BranchesPlain branches) (frames : List Frame) (before : List Node)
    (done : List (Condition × List Node)) (c : Condition) (body otherwise : List Node)
    (hotherwise : ∀ frames before rest,
      Partial.readAll ⟨frames, before⟩ ((piecesOf otherwise).map Piece.segment ++ rest) =
        Partial.readAll ⟨frames, before ++ otherwise⟩ rest) (rest : List Segment) :
    Partial.readAll ⟨.branch before done c .none :: frames, body⟩
        ((branchPieces "elif" branches).map Piece.segment ++
          ((choiceEnd otherwise (piecesOf otherwise)).map Piece.segment ++ rest)) =
      Partial.readAll
        ⟨frames, before ++ [.choice (done ++ (c, body) :: branches) otherwise]⟩ rest := by
  match branches with
  | [] =>
    rw [branchPieces, List.map_nil, List.nil_append]
    exact readAll_endif hotherwise rest
  | (c', body') :: branches =>
    rw [BranchesPlain] at h
    obtain ⟨hc, hbody, hbranches⟩ := h
    rw [branchPieces]
    simp only [List.cons_append, List.map_cons, List.map_append, List.append_assoc, Piece.segment]
    rw [readAll_tag (Directive.ofTag_elif hc .none) rfl, readAll_piecesOf body' hbody,
      List.nil_append,
      readAll_branchPieces branches hbranches frames before (done ++ [(c, body)]) c' body'
        otherwise hotherwise rest, List.append_assoc, List.singleton_append]

end

/-! ## Round trip -/

/-- Reading a printed tree gives a tree that writes the same. -/
theorem parseNodes_printNodes {ns : List Node} (h : ArePlain ns) :
    ∃ ms, parseNodes (printNodes ns) = .ok ms ∧ Similar ms ns := by
  obtain ⟨segments, hscan, htidy⟩ := scan_printPieces (isPlain_of_mem_piecesOf ns h)
  have hread := readAll_tidy segments
  have hpieces := readAll_tidy ((piecesOf ns).map Piece.segment)
  have hall : Partial.readAll {} ((piecesOf ns).map Piece.segment) = .ok ns := by
    have hnodes := readAll_piecesOf ns h [] [] []
    rwa [List.append_nil] at hnodes
  rw [hall] at hpieces
  rw [htidy] at hread
  have hparse : parseNodes (printNodes ns) = Partial.readAll {} segments := by
    rw [parseNodes, printNodes, hscan]
    rfl
  rw [hparse]
  generalize Partial.readAll {} (tidy [] ((piecesOf ns).map Piece.segment)) = tidied
    at hread hpieces
  cases hpieces with
  | ok htidied =>
    cases hread' : Partial.readAll {} segments with
    | ok ms =>
      rw [hread'] at hread
      cases hread with
      | ok hms => exact ⟨ms, rfl, hms.trans htidied.symm⟩
    | error e =>
      rw [hread'] at hread
      cases hread

/-- A printed tree is a template, and rendering it writes what the tree writes. -/
theorem render_printNodes {ns : List Node} (h : ArePlain ns) (name : String) :
    ∃ t, parse name (printNodes ns) = .ok t ∧
      ∀ root written s, Writes root.get? ns s →
        (t.render root { written }).output = written.toList ++ Utf8.encode s ∧
          (t.render root { written }).failure = none := by
  obtain ⟨ms, hparse, hsimilar⟩ := parseNodes_printNodes h
  refine ⟨⟨name, ms⟩, by rw [parse, hparse]; rfl, fun root written s hs ↦ ?_⟩
  obtain ⟨houtput, hfailure⟩ := render_eq_output ⟨name, ms⟩ root written
  have hms : (outputs ms root.get?).text? = some s := (hsimilar root.get?).trans hs
  rw [Output.text?] at hms
  split at hms
  · rename_i hnone
    rw [houtput, hfailure, hnone, Option.some.inj hms]
    exact ⟨rfl, rfl⟩
  · cases hms

end StateGen.Template
