import Mathlib.Data.List.Forall2
import StateGen.Proofs.Template.Wording

/-!
# The blocks of a template

A template is a sequence of texts and directives. The sequences that make sense are those of the
grammar

    block := (text | substitution | comment | for block endfor
             | if block (elif block)* [else block] endif)*

and a derivation of a sequence is a tree of nodes. Reading pieces with a stack of open blocks
succeeds exactly on the sequences of the grammar and gives the tree of the derivation, and the tree,
written out in order, is the sequence again: it lacks the comments, and the `else` of a last part
that holds nothing.
-/

namespace StateGen.Template

/-! ## The grammar -/

/-- What a piece of a template says. -/
inductive Sign where
  | text (s : String)
  | tag (d : Directive) (span : Span)

/-- A piece says something: a text itself, and a tag a directive that it words. -/
inductive Segment.Reads : Segment → Sign → Prop where
  | text (s : String) : Reads (.text s) (.text s)
  | tag {t : Tag} {d : Directive} : d.Says t.body.toList → Reads (.tag t) (.tag d t.span)

mutual

/-- The sequence is a block with these nodes. -/
inductive Derives : List Sign → List Node → Prop where
  | nil : Derives [] []
  | text {s : String} {signs : List Sign} {nodes : List Node} :
    Derives signs nodes → Derives (.text s :: signs) (.text s :: nodes)
  | comment {span : Span} {signs : List Sign} {nodes : List Node} :
    Derives signs nodes → Derives (.tag .comment span :: signs) nodes
  | subst {path : Path} {span : Span} {signs : List Sign} {nodes : List Node} :
    Derives signs nodes → Derives (.tag (.subst path) span :: signs) (.subst path span :: nodes)
  | loop {key : Option String} {value : String} {path : Path} {span closing : Span}
      {inner signs : List Sign} {body nodes : List Node} :
    Derives inner body → Derives signs nodes →
      Derives (.tag (.loop key value path) span :: (inner ++ .tag .endfor closing :: signs))
        (.loop key value path body span :: nodes)
  | choice {c : Condition} {span : Span} {chain signs : List Sign}
      {branches : List (Condition × List Node)} {otherwise nodes : List Node} :
    DerivesChain c chain branches otherwise → Derives signs nodes →
      Derives (.tag (.branch c) span :: (chain ++ signs)) (.choice branches otherwise :: nodes)

/-- The sequence completes a branch with this condition: its block, further branches, possibly a
last part, and the end. -/
inductive DerivesChain :
    Condition → List Sign → List (Condition × List Node) → List Node → Prop where
  | endif {c : Condition} {span : Span} {inner : List Sign} {body : List Node} :
    Derives inner body → DerivesChain c (inner ++ [.tag .endif span]) [(c, body)] []
  | otherwise {c : Condition} {span closing : Span} {inner last : List Sign}
      {body otherwise : List Node} :
    Derives inner body → Derives last otherwise →
      DerivesChain c (inner ++ .tag .otherwise span :: (last ++ [.tag .endif closing])) [(c, body)]
        otherwise
  | elif {c next : Condition} {span : Span} {inner chain : List Sign} {body otherwise : List Node}
      {branches : List (Condition × List Node)} :
    Derives inner body → DerivesChain next chain branches otherwise →
      DerivesChain c (inner ++ .tag (.elif next) span :: chain) ((c, body) :: branches) otherwise

end

/-! ## Reading what pieces say -/

namespace Partial

/-- Read what pieces say. -/
def readSigns (t : Partial) : List Sign → Except Error (List Node)
  | [] => t.finish
  | .text s :: rest => readSigns (t.push (.text s)) rest
  | .tag d span :: rest => do
    let t ← t.step d span
    readSigns t rest

/-- Pieces are read by what they say. -/
theorem readAll_eq_ok_iff {t : Partial} {segments : List Segment} {nodes : List Node} :
    t.readAll segments = .ok nodes ↔
      ∃ signs, List.Forall₂ Segment.Reads segments signs ∧ t.readSigns signs = .ok nodes := by
  induction segments generalizing t with
  | nil =>
    constructor
    · intro h
      exact ⟨[], .nil, h⟩
    · rintro ⟨signs, hreads, h⟩
      cases hreads
      exact h
  | cons segment segments ih =>
    cases segment with
    | text s =>
      rw [readAll, ih]
      constructor
      · rintro ⟨signs, hreads, h⟩
        exact ⟨.text s :: signs, .cons (.text s) hreads, h⟩
      · rintro ⟨signs, ⟨⟩ | ⟨⟨⟩, hreads⟩, h⟩
        exact ⟨_, hreads, h⟩
    | tag tag =>
      constructor
      · intro h
        obtain ⟨d, hd, h⟩ := bind_eq_ok h
        obtain ⟨t', hstep, h⟩ := bind_eq_ok h
        obtain ⟨signs, hreads, h⟩ := ih.1 h
        refine ⟨.tag d tag.span :: signs, .cons (.tag (Directive.ofTag_eq_ok_iff.1 hd)) hreads, ?_⟩
        rw [readSigns, hstep]
        exact h
      · rintro ⟨signs, hreads, h⟩
        obtain ⟨sign, more, hread, hmore, rfl⟩ := List.forall₂_cons_left_iff.1 hreads
        cases hread with
        | tag hd =>
          obtain ⟨t', hstep, h⟩ := bind_eq_ok h
          rw [readAll, Directive.ofTag_eq_ok_iff.2 hd]
          simp only [bind, Except.bind, hstep]
          exact ih.2 ⟨more, hmore, h⟩

/-! ### Derived sequences are read -/

mutual

-- The recursion is on derivations; what is open around a block and what follows it stay general.
private theorem readSigns_of_derives {signs : List Sign} {nodes : List Node} :
    Derives signs nodes → ∀ (frames : List Frame) (before : List Node) (rest : List Sign),
      readSigns ⟨frames, before⟩ (signs ++ rest) = readSigns ⟨frames, before ++ nodes⟩ rest
  | .nil, frames, before, rest => by rw [List.append_nil, List.nil_append]
  | @Derives.text s signs nodes h, frames, before, rest => by
    have hrest := readSigns_of_derives h frames (before ++ [.text s]) rest
    rw [List.append_assoc] at hrest
    exact hrest
  | @Derives.comment span signs nodes h, frames, before, rest =>
    readSigns_of_derives h frames before rest
  | @Derives.subst path span signs nodes h, frames, before, rest => by
    have hrest := readSigns_of_derives h frames (before ++ [.subst path span]) rest
    rw [List.append_assoc] at hrest
    exact hrest
  | @Derives.loop key value path span closing inner signs body nodes hbody h, frames, before,
      rest => by
    have hinner := readSigns_of_derives hbody (.loop before key value path span :: frames) []
      (.tag .endfor closing :: (signs ++ rest))
    have hrest := readSigns_of_derives h frames (before ++ [.loop key value path body span]) rest
    rw [List.append_assoc] at hrest
    rw [List.cons_append, List.append_assoc]
    exact hinner.trans hrest
  | @Derives.choice c span chain signs branches otherwise nodes hchain h, frames, before, rest => by
    have hbranches := readSigns_of_derivesChain hchain frames before [] span (signs ++ rest)
    have hrest := readSigns_of_derives h frames (before ++ [.choice branches otherwise]) rest
    rw [List.append_assoc] at hrest
    rw [List.cons_append, List.append_assoc]
    exact hbranches.trans hrest

private theorem readSigns_of_derivesChain {c : Condition} {signs : List Sign}
    {branches : List (Condition × List Node)} {otherwise : List Node} :
    DerivesChain c signs branches otherwise →
      ∀ (frames : List Frame) (before : List Node) (done : List (Condition × List Node))
        (opened : Span) (rest : List Sign),
        readSigns ⟨.branch before done c opened :: frames, []⟩ (signs ++ rest) =
          readSigns ⟨frames, before ++ [.choice (done ++ branches) otherwise]⟩ rest
  | @DerivesChain.endif c span inner body hbody, frames, before, done, opened, rest => by
    rw [List.append_assoc]
    exact readSigns_of_derives hbody (.branch before done c opened :: frames) []
      (.tag .endif span :: rest)
  | @DerivesChain.otherwise c span closing inner last body otherwise hbody hlast, frames, before,
      done, opened, rest => by
    have hinner := readSigns_of_derives hbody (.branch before done c opened :: frames) []
      (.tag .otherwise span :: (last ++ .tag .endif closing :: rest))
    have hrest := readSigns_of_derives hlast
      (.otherwise before (done ++ [(c, body)]) opened :: frames) [] (.tag .endif closing :: rest)
    rw [List.append_assoc, List.cons_append, List.append_assoc]
    exact hinner.trans hrest
  | @DerivesChain.elif c next span inner chain body otherwise branches hbody hchain, frames, before,
      done, opened, rest => by
    have hinner := readSigns_of_derives hbody (.branch before done c opened :: frames) []
      (.tag (.elif next) span :: (chain ++ rest))
    have hrest := readSigns_of_derivesChain hchain frames before (done ++ [(c, body)]) opened rest
    rw [List.append_assoc] at hrest
    rw [List.append_assoc, List.cons_append]
    exact hinner.trans hrest

end

end Partial

/-! ### What is read was derived -/

private theorem Derives.append {signs more : List Sign} {nodes new : List Node} :
    Derives signs nodes → Derives more new → Derives (signs ++ more) (nodes ++ new)
  | .nil, hmore => hmore
  | .text h, hmore => .text (h.append hmore)
  | .comment h, hmore => .comment (h.append hmore)
  | .subst h, hmore => .subst (h.append hmore)
  | .loop hbody h, hmore => by
    rw [List.cons_append, List.append_assoc]
    exact .loop hbody (h.append hmore)
  | .choice hchain h, hmore => by
    rw [List.cons_append, List.append_assoc]
    exact .choice hchain (h.append hmore)

/-- The branches behind `if c` that are complete, while the one with the last condition is open. -/
inductive Elifs (c : Condition) :
    List Sign → List (Condition × List Node) → Condition → Prop where
  | nil : Elifs c [] [] c
  | snoc {last next : Condition} {span : Span} {chain inner : List Sign} {body : List Node}
      {done : List (Condition × List Node)} :
    Elifs c chain done last → Derives inner body →
      Elifs c (chain ++ (inner ++ [.tag (.elif next) span])) (done ++ [(last, body)]) next

/-- Complete branches and the completion of the open one make a chain. -/
private theorem Elifs.complete {c last : Condition} {chain rest : List Sign}
    {done branches : List (Condition × List Node)} {otherwise : List Node}
    (h : Elifs c chain done last) (hrest : DerivesChain last rest branches otherwise) :
    DerivesChain c (chain ++ rest) (done ++ branches) otherwise := by
  induction h generalizing rest branches with
  | nil => exact hrest
  | snoc _ hbody ih =>
    simp only [List.append_assoc, List.cons_append, List.nil_append]
    exact ih (.elif hbody hrest)

/-- What was read so far: a block for the nodes of the innermost block and, around it, what opened
the blocks that are open. -/
inductive Opened : List Sign → List Frame → List Node → Prop where
  | top {signs : List Sign} {nodes : List Node} : Derives signs nodes → Opened signs [] nodes
  | loop {key : Option String} {value : String} {path : Path} {span : Span}
      {outer inner : List Sign} {frames : List Frame} {before nodes : List Node} :
    Opened outer frames before → Derives inner nodes →
      Opened (outer ++ .tag (.loop key value path) span :: inner)
        (.loop before key value path span :: frames) nodes
  | branch {c last : Condition} {span : Span} {outer chain inner : List Sign} {frames : List Frame}
      {before nodes : List Node} {done : List (Condition × List Node)} :
    Opened outer frames before → Elifs c chain done last → Derives inner nodes →
      Opened (outer ++ .tag (.branch c) span :: (chain ++ inner))
        (.branch before done last span :: frames) nodes
  | otherwise {c last : Condition} {span dividing : Span} {outer chain inner rest : List Sign}
      {frames : List Frame} {before body nodes : List Node} {done : List (Condition × List Node)} :
    Opened outer frames before → Elifs c chain done last → Derives inner body →
      Derives rest nodes →
      Opened
        (outer ++ .tag (.branch c) span :: (chain ++ (inner ++ .tag .otherwise dividing :: rest)))
        (.otherwise before (done ++ [(last, body)]) span :: frames) nodes

namespace Opened

/-- A block goes on. -/
theorem extend {signs more : List Sign} {frames : List Frame} {nodes new : List Node}
    (h : Opened signs frames nodes) (hmore : Derives more new) :
    Opened (signs ++ more) frames (nodes ++ new) := by
  cases h with
  | top h => exact .top (h.append hmore)
  | loop houter h =>
    rw [List.append_assoc]
    exact .loop houter (h.append hmore)
  | branch houter hchain h =>
    rw [List.append_assoc, List.cons_append, List.append_assoc]
    exact .branch houter hchain (h.append hmore)
  | otherwise houter hchain hbody h =>
    simp only [List.append_assoc, List.cons_append]
    exact .otherwise houter hchain hbody (h.append hmore)

/-- One directive keeps account of what is open. -/
theorem step {signs : List Sign} {t t' : Partial} {d : Directive} {span : Span}
    (h : Opened signs t.frames t.nodes) (hstep : t.step d span = .ok t') :
    Opened (signs ++ [.tag d span]) t'.frames t'.nodes := by
  obtain ⟨frames, nodes⟩ := t
  cases d with
  | comment =>
    cases hstep
    simpa using h.extend (.comment .nil)
  | subst path =>
    cases hstep
    exact h.extend (.subst .nil)
  | loop key value path =>
    cases hstep
    exact .loop h .nil
  | branch c =>
    cases hstep
    exact .branch h .nil .nil
  | endfor =>
    cases h with
    | loop houter hbody =>
      cases hstep
      simpa using houter.extend (.loop hbody .nil)
    | top | branch | otherwise => cases hstep
  | elif next =>
    cases h with
    | branch houter hchain hbody =>
      cases hstep
      simpa using Opened.branch houter (hchain.snoc hbody) .nil
    | top | loop | otherwise => cases hstep
  | otherwise =>
    cases h with
    | branch houter hchain hbody =>
      cases hstep
      simpa using Opened.otherwise houter hchain hbody .nil
    | top | loop | otherwise => cases hstep
  | endif =>
    -- Both an open branch and an open last part complete the chain.
    cases h with
    | branch houter hchain hbody =>
      cases hstep
      simpa using houter.extend (.choice (hchain.complete (.endif hbody)) .nil)
    | otherwise houter hchain hbody hlast =>
      cases hstep
      simpa using houter.extend (.choice (hchain.complete (.otherwise hbody hlast)) .nil)
    | top | loop => cases hstep

private theorem run {more : List Sign} {signs : List Sign} {t : Partial} {nodes : List Node}
    (h : Opened signs t.frames t.nodes) (hread : t.readSigns more = .ok nodes) :
    Derives (signs ++ more) nodes := by
  induction more generalizing signs t with
  | nil =>
    obtain ⟨frames, inner⟩ := t
    cases h with
    | top h =>
      cases hread
      simpa using h
    | loop | branch | otherwise => cases hread
  | cons sign more ih =>
    rw [List.append_cons]
    cases sign with
    | text s => exact ih (h.extend (.text .nil)) hread
    | tag d span =>
      obtain ⟨t', hstep, hread⟩ := bind_eq_ok hread
      exact ih (h.step hstep) hread

end Opened

/-- Reading pieces gives the tree of what they say, if there is one. -/
theorem readSigns_eq_ok_iff {signs : List Sign} {nodes : List Node} :
    Partial.readSigns {} signs = .ok nodes ↔ Derives signs nodes := by
  constructor
  · intro h
    exact Opened.run (.top .nil) h
  · intro h
    have hread := Partial.readSigns_of_derives h [] [] []
    rw [List.append_nil] at hread
    exact hread

/-! ## The sequence of a tree -/

/-- What a template says at one place: a text or a directive. -/
inductive Mark where
  | text (s : String)
  | directive (d : Directive)

/-- What a piece says, unless it is a comment. -/
def Sign.mark? : Sign → Option Mark
  | .text s => some (.text s)
  | .tag .comment _ => none
  | .tag d _ => some (.directive d)

mutual

/-- The texts and directives of a node in order. -/
def Node.marks : Node → List Mark
  | .text s => [.text s]
  | .subst path _ => [.directive (.subst path)]
  | .loop key value path body _ =>
    .directive (.loop key value path) :: (marksOf body ++ [.directive .endfor])
  | .choice branches otherwise =>
    branchMarks .branch branches ++
      ((if otherwise.isEmpty then [] else .directive .otherwise :: marksOf otherwise) ++
        [.directive .endif])

/-- The texts and directives of several nodes. -/
def marksOf : List Node → List Mark
  | [] => []
  | n :: ns => n.marks ++ marksOf ns

/-- The texts and directives of branches, the first one behind a word of its own. -/
def branchMarks (word : Condition → Directive) : List (Condition × List Node) → List Mark
  | [] => []
  | (c, body) :: rest => .directive (word c) :: (marksOf body ++ branchMarks .elif rest)

end

/-- The sequence without the `else` of parts that hold nothing. -/
def withoutEmptyElse : List Mark → List Mark
  | [] => []
  | .directive .otherwise :: .directive .endif :: rest =>
    .directive .endif :: withoutEmptyElse rest
  | m :: rest => m :: withoutEmptyElse rest

/-- A block without nodes says nothing, and no other block starts with an end. -/
private theorem Derives.marks_cases {signs : List Sign} {nodes : List Node} :
    Derives signs nodes →
      (nodes = [] ∧ signs.filterMap Sign.mark? = []) ∨
        (nodes ≠ [] ∧ ∃ m rest, signs.filterMap Sign.mark? = m :: rest ∧ m ≠ .directive .endif)
  | .nil => .inl ⟨rfl, rfl⟩
  | .text _ => .inr ⟨by simp, _, _, rfl, by simp⟩
  | .comment h => h.marks_cases
  | .subst _ => .inr ⟨by simp, _, _, rfl, by simp⟩
  | .loop _ _ => .inr ⟨by simp, _, _, rfl, by simp⟩
  | .choice _ _ => .inr ⟨by simp, _, _, rfl, by simp⟩

private theorem withoutEmptyElse_else {signs : List Sign} {nodes : List Node}
    (h : Derives signs nodes) (rest : List Mark) :
    withoutEmptyElse (.directive .otherwise :: (signs.filterMap Sign.mark? ++
        .directive .endif :: rest)) =
      (if nodes.isEmpty then [] else [.directive .otherwise]) ++
        withoutEmptyElse (signs.filterMap Sign.mark? ++ .directive .endif :: rest) := by
  obtain ⟨rfl, hmarks⟩ | ⟨hne, m, marks, hmarks, hm⟩ := h.marks_cases
  · rw [hmarks]
    simp [withoutEmptyElse]
  · rw [hmarks]
    simp [withoutEmptyElse, hne, hm]

mutual

-- The recursion is on derivations; what follows a block stays general.
private theorem withoutEmptyElse_of_derives {signs : List Sign} {nodes : List Node} :
    Derives signs nodes → ∀ rest : List Mark,
      withoutEmptyElse (signs.filterMap Sign.mark? ++ rest) =
        marksOf nodes ++ withoutEmptyElse rest
  | .nil, rest => by
    rw [marksOf]
    rfl
  | @Derives.text s signs nodes h, rest => by
    have hrest := withoutEmptyElse_of_derives h rest
    simp [Sign.mark?, withoutEmptyElse, marksOf, Node.marks, hrest]
  | @Derives.comment span signs nodes h, rest => withoutEmptyElse_of_derives h rest
  | @Derives.subst path span signs nodes h, rest => by
    have hrest := withoutEmptyElse_of_derives h rest
    simp [Sign.mark?, withoutEmptyElse, marksOf, Node.marks, hrest]
  | @Derives.loop key value path span closing inner signs body nodes hbody h, rest => by
    have hinner := withoutEmptyElse_of_derives hbody
      (.directive .endfor :: (signs.filterMap Sign.mark? ++ rest))
    have hrest := withoutEmptyElse_of_derives h rest
    simp [Sign.mark?, withoutEmptyElse, marksOf, Node.marks, hinner, hrest]
  | @Derives.choice c span chain signs branches otherwise nodes hchain h, rest => by
    have hbranches := withoutEmptyElse_of_derivesChain hchain .branch
      (signs.filterMap Sign.mark? ++ rest)
    have hrest := withoutEmptyElse_of_derives h rest
    rw [marksOf, Node.marks]
    simp [Sign.mark?, withoutEmptyElse, hbranches, hrest]

private theorem withoutEmptyElse_of_derivesChain {c : Condition} {chain : List Sign}
    {branches : List (Condition × List Node)} {otherwise : List Node} :
    DerivesChain c chain branches otherwise →
      ∀ (word : Condition → Directive) (rest : List Mark),
        .directive (word c) :: withoutEmptyElse (chain.filterMap Sign.mark? ++ rest) =
          branchMarks word branches ++
            ((if otherwise.isEmpty then [] else .directive .otherwise :: marksOf otherwise) ++
              .directive .endif :: withoutEmptyElse rest)
  | @DerivesChain.endif c span inner body hbody, word, rest => by
    have hinner := withoutEmptyElse_of_derives hbody (.directive .endif :: rest)
    simp [Sign.mark?, withoutEmptyElse, branchMarks, hinner]
  | @DerivesChain.otherwise c span closing inner last body otherwise hbody hlast, word, rest => by
    have hinner := withoutEmptyElse_of_derives hbody
      (.directive .otherwise :: (last.filterMap Sign.mark? ++ .directive .endif :: rest))
    have hrest := withoutEmptyElse_of_derives hlast (.directive .endif :: rest)
    rw [withoutEmptyElse_else hlast, hrest] at hinner
    cases otherwise with
    | nil => simp [Sign.mark?, withoutEmptyElse, branchMarks, marksOf, hinner]
    | cons n ns => simp [Sign.mark?, withoutEmptyElse, branchMarks, hinner]
  | @DerivesChain.elif c next span inner chain body otherwise branches hbody hchain, word,
      rest => by
    have hinner := withoutEmptyElse_of_derives hbody
      (.directive (.elif next) :: (chain.filterMap Sign.mark? ++ rest))
    have hrest := withoutEmptyElse_of_derivesChain hchain .elif rest
    simp [Sign.mark?, withoutEmptyElse, branchMarks, hinner, hrest]

end

/-! ## Acceptance -/

/-- A piece says one thing at most. -/
private theorem Segment.Reads.unique : Relator.RightUnique Segment.Reads := by
  intro segment sign sign' h h'
  cases h with
  | text s =>
    cases h'
    rfl
  | tag hd =>
    cases h' with
    | tag hd' =>
      have heq := (Directive.ofTag_eq_ok_iff.2 hd).symm.trans (Directive.ofTag_eq_ok_iff.2 hd')
      cases heq
      rfl

/-- Pieces are read if what they say is a block. -/
theorem readAll_eq_ok_iff_derives {segments : List Segment} {nodes : List Node} :
    Partial.readAll {} segments = .ok nodes ↔
      ∃ signs, List.Forall₂ Segment.Reads segments signs ∧ Derives signs nodes := by
  rw [Partial.readAll_eq_ok_iff]
  simp only [readSigns_eq_ok_iff]

/-- Pieces are read exactly if every tag words a directive and the sequence of texts and directives
is a block. The nodes are those of the only derivation, and written out in order they are the
sequence without its comments and without the `else` of parts that hold nothing. -/
theorem readAll_accepts_blocks (segments : List Segment) :
    ((∃ nodes, Partial.readAll {} segments = .ok nodes) ↔
      ∃ signs, List.Forall₂ Segment.Reads segments signs ∧ ∃ nodes, Derives signs nodes) ∧
    ∀ nodes, Partial.readAll {} segments = .ok nodes →
      ∀ signs, List.Forall₂ Segment.Reads segments signs →
        (∀ other, Derives signs other ↔ other = nodes) ∧
        marksOf nodes = withoutEmptyElse (signs.filterMap Sign.mark?) := by
  constructor
  · constructor
    · rintro ⟨nodes, h⟩
      obtain ⟨signs, hreads, hderives⟩ := readAll_eq_ok_iff_derives.1 h
      exact ⟨signs, hreads, nodes, hderives⟩
    · rintro ⟨signs, hreads, nodes, hderives⟩
      exact ⟨nodes, readAll_eq_ok_iff_derives.2 ⟨signs, hreads, hderives⟩⟩
  · intro nodes h signs hreads
    obtain ⟨signs', hreads', hderives⟩ := readAll_eq_ok_iff_derives.1 h
    have hsigns : signs = signs' := Relator.RightUnique.forall₂ Segment.Reads.unique hreads hreads'
    subst hsigns
    constructor
    · intro other
      constructor
      · intro hother
        have hread := readAll_eq_ok_iff_derives.2 ⟨signs, hreads, hother⟩
        rw [h] at hread
        cases hread
        rfl
      · rintro rfl
        exact hderives
    · have hmarks := withoutEmptyElse_of_derives hderives []
      rw [List.append_nil] at hmarks
      rw [hmarks, withoutEmptyElse, List.append_nil]

/-- A choice within a loop; the last part holds a comment only. -/
theorem readAll_accepts_blocks_nested :
    let segments : List Segment :=
      [.tag ⟨"for v in xs", .none⟩, .tag ⟨"if ! v", .none⟩, .text "-", .tag ⟨"else", .none⟩,
        .tag ⟨"# nothing", .none⟩, .tag ⟨"endif", .none⟩, .tag ⟨"endfor", .none⟩]
    let signs : List Sign :=
      [.tag (.loop none "v" ⟨"xs", []⟩) .none, .tag (.branch ⟨true, ⟨"v", []⟩⟩) .none, .text "-",
        .tag .otherwise .none, .tag .comment .none, .tag .endif .none, .tag .endfor .none]
    let nodes : List Node :=
      [.loop none "v" ⟨"xs", []⟩ [.choice [(⟨true, ⟨"v", []⟩⟩, [.text "-"])] []] .none]
    Partial.readAll {} segments = .ok nodes ∧ List.Forall₂ Segment.Reads segments signs ∧
      (∀ other, Derives signs other ↔ other = nodes) ∧
      marksOf nodes = withoutEmptyElse (signs.filterMap Sign.mark?) := by
  intro segments signs nodes
  have hnames : IsName "xs" ∧ IsName "v" := by simp [IsName, Text.isWordChar]
  have hxs := Path.parse_name hnames.1
  have hv := Path.parse_name hnames.2
  have hgap := Text.isGap_space
  have hfor : Directive.Says "for v in xs".toList (.loop none "v" ⟨"xs", []⟩) :=
    .loop hgap (@Directive.Iterates.mk "v" ⟨"xs", []⟩ [' '] [' '] [] ['x', 's']
      hnames.2 hgap hgap hxs Text.allBlank_nil)
  have hif : Directive.Says "if ! v".toList (.branch ⟨true, ⟨"v", []⟩⟩) :=
    @Directive.Says.branch [' '] [] ['!', ' ', 'v'] ⟨true, ⟨"v", []⟩⟩ hgap
      (@Condition.Says.negated [' '] ['v'] ⟨"v", []⟩ hgap.2 hv) Text.allBlank_nil
  have hreads : List.Forall₂ Segment.Reads segments signs := by
    refine .cons (.tag hfor) (.cons (.tag hif) (.cons (.text "-") (.cons (.tag ?_)
      (.cons (.tag ?_) (.cons (.tag ?_) (.cons (.tag ?_) .nil))))))
    · exact .otherwise Text.allBlank_nil
    · exact .comment _
    · exact .endif Text.allBlank_nil
    · exact .endfor Text.allBlank_nil
  have hread : Partial.readAll {} segments = .ok nodes :=
    Partial.readAll_eq_ok_iff.2 ⟨signs, hreads, rfl⟩
  exact ⟨hread, hreads, (readAll_accepts_blocks segments).2 nodes hread signs hreads⟩

end StateGen.Template
