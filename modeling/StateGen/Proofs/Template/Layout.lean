import StateGen.Proofs.Template.Reading

/-!
# Templates by lines

A tree whose texts are whole lines, with values in them, is printed line by line: the tags of its
blocks have lines of their own. `Spells` compares such a tree with the lines of a text, from the
first line on, so a template can be read off its text without running the reader.
-/

namespace StateGen.Template

/-- A name as a path. -/
instance : Coe String Path := ⟨fun name ↦ ⟨name, []⟩⟩

/-- A line: texts with values between them. -/
inductive Line where
  | text (s : String)
  /-- A value at the start, and a text behind it. -/
  | value (p : Path) (s : String)
  /-- One more value, and a text behind it. -/
  | put (l : Line) (p : Path) (s : String)
  /-- One more value, at the end. -/
  | last (l : Line) (p : Path)

namespace Line

/-- The text at the end of a line. -/
def tail : Line → String
  | .text s | .value _ s | .put _ _ s => s
  | .last .. => ""

/-- What precedes the text at the end of a line. -/
def front : Line → List Node
  | .text _ => []
  | .value p _ => [.subst p .none]
  | .put l p _ | .last l p => l.front ++ [.text l.tail, .subst p .none]

/-- The nodes of a line; the last text has the end of the line. -/
def nodes (l : Line) : List Node := l.front ++ [.text (l.tail ++ "\n")]

end Line

/-- The nodes of lines. -/
def block (ls : List Line) : List Node := ls.flatMap Line.nodes

/-- A loop over the elements of a sequence. -/
def each (value : String) (path : Path) (body : List Node) : List Node :=
  [.loop none value path body .none]

/-- A loop over the entries of a mapping. -/
def eachEntry (key value : String) (path : Path) (body : List Node) : List Node :=
  [.loop (some key) value path body .none]

/-- One part or another. -/
def choose (path : Path) (yes no : List Node) : List Node := [.choice [(⟨false, path⟩, yes)] no]

/-- A text of lines. -/
def lines (ls : List String) : String := String.join (ls.map (· ++ "\n"))

/-! ## Printing -/

private theorem piecesOf_append (ns ms : List Node) :
    piecesOf (ns ++ ms) = piecesOf ns ++ piecesOf ms := by
  induction ns with
  | nil => rw [piecesOf, List.nil_append, List.nil_append]
  | cons n ns ih => rw [List.cons_append, piecesOf, piecesOf, ih, List.append_assoc]

private theorem printNodes_append (ns ms : List Node) :
    printNodes (ns ++ ms) = printNodes ns ++ printNodes ms := by
  simp [printNodes, printPieces, piecesOf_append]

private theorem arePlain_append {ns ms : List Node} (hn : ArePlain ns) (hm : ArePlain ms) :
    ArePlain (ns ++ ms) := by
  induction ns with
  | nil => exact hm
  | cons n ns ih =>
    rw [ArePlain] at hn
    rw [List.cons_append, ArePlain]
    exact ⟨hn.1, ih hn.2⟩

private theorem printNodes_text (s : String) : printNodes [.text s] = s := by
  simp [printNodes, printPieces, piecesOf, Node.pieces, Piece.print]

private theorem printNodes_subst (p : Path) :
    printNodes [.subst p .none] = "\x7b\x7b" ++ p.display ++ "\x7d\x7d" := by
  simp [printNodes, printPieces, piecesOf, Node.pieces, Piece.print]

private theorem lines_cons (l : String) (ls : List String) :
    lines (l :: ls) = l ++ "\n" ++ lines ls := by
  simp [lines]

/-! ## Spelling

Texts are compared with literals as lists of characters: a literal is `String.ofList` of its
characters, and lists are taken apart by computation. -/

/-- The characters of a text that is put together from literals. -/
def Spelled (s : String) (cs : List Char) : Prop := s = String.ofList cs

theorem Spelled.literal (cs : List Char) : Spelled (String.ofList cs) cs := rfl

theorem Spelled.append {s t : String} {cs ds : List Char} (hs : Spelled s cs) (ht : Spelled t ds) :
    Spelled (s ++ t) (cs ++ ds) := by
  rw [Spelled, hs, ht, String.ofList_append]

private theorem Spelled.toList {s : String} {cs : List Char} (h : Spelled s cs) :
    s.toList = cs := by
  rw [h, String.toList_ofList]

/-- The characters of the words that a name must not be. -/
private def keywords : List (List Char) :=
  [['f', 'o', 'r'], ['e', 'n', 'd', 'f', 'o', 'r'], ['i', 'f'], ['e', 'l', 'i', 'f'],
    ['e', 'l', 's', 'e'], ['e', 'n', 'd', 'i', 'f']]

/-- The characters of a name that can stand in a tag. -/
def isTagName (cs : List Char) : Bool :=
  !cs.isEmpty && cs.all Text.isWordChar && !keywords.contains cs

private theorem isName_of_spelled {s : String} {cs : List Char} (h : Spelled s cs)
    (hcs : isTagName cs = true) : IsName s := by
  simp only [isTagName, Bool.and_eq_true, Bool.not_eq_true', List.isEmpty_eq_false_iff,
    List.all_eq_true] at hcs
  rw [IsName, h.toList]
  exact hcs.1

/-- The characters of a path that can stand in a tag. -/
structure Path.Spelled (p : Path) (cs : List Char) : Prop where
  plain : p.IsPlain
  display : Template.Spelled p.display cs

namespace Path.Spelled

private theorem isPlain {root : String} {cs : List Char} {steps : List Step}
    (h : Template.Spelled root cs) (hcs : isTagName cs = true)
    (hsteps : ∀ step ∈ steps, ∃ name, step = .key name ∧ IsName name) :
    Path.IsPlain ⟨root, steps⟩ := by
  refine ⟨isName_of_spelled h hcs, fun hmem ↦ ?_, hsteps⟩
  have hkeyword : root.toList ∈ keywords := by
    simpa [keywords] using List.mem_map_of_mem (f := String.toList) hmem
  simp only [isTagName, Bool.and_eq_true, Bool.not_eq_true', List.contains_eq_mem,
    decide_eq_false_iff_not] at hcs
  exact hcs.2 (h.toList ▸ hkeyword)

theorem name {root : String} {cs : List Char} (h : Template.Spelled root cs)
    (hcs : isTagName cs = true) : Path.Spelled ⟨root, []⟩ cs where
  plain := isPlain h hcs (by simp)
  display := by simpa [Path.display, Path.displaySteps] using h

theorem field {root key : String} {cs ds : List Char} (h : Template.Spelled root cs)
    (hcs : isTagName cs = true) (hkey : Template.Spelled key ds) (hds : isTagName ds = true) :
    Path.Spelled ⟨root, [.key key]⟩ (cs ++ '.' :: ds) where
  plain := isPlain h hcs (by simpa using isName_of_spelled hkey hds)
  display := by
    simp only [Path.display, Path.displaySteps, Step.display, String.append_empty]
    exact h.append ((Spelled.literal ['.']).append hkey)

end Path.Spelled

/-- The characters of a line: those that are printed for its front, and those of its tail. -/
structure Line.Spelled (l : Line) (cs ts : List Char) : Prop where
  plain : ArePlain l.front
  front : Template.Spelled (printNodes l.front) cs
  tail : Template.Spelled l.tail ts

namespace Line.Spelled

variable {l : Line} {s : String} {p : Path} {cs ds us ts : List Char}

theorem text (h : Template.Spelled s ts) : (Line.text s).Spelled [] ts where
  plain := trivial
  front := rfl
  tail := h

private theorem subst (hp : p.Spelled ds) :
    Template.Spelled (printNodes [.subst p .none])
      ('\x7b' :: '\x7b' :: ds ++ ['\x7d', '\x7d']) := by
  rw [printNodes_subst]
  exact ((Spelled.literal _).append hp.display).append (Spelled.literal _)

theorem value (hp : p.Spelled ds) (h : Template.Spelled s ts) :
    (Line.value p s).Spelled ('\x7b' :: '\x7b' :: ds ++ ['\x7d', '\x7d']) ts where
  plain := ⟨⟨hp.plain, rfl⟩, trivial⟩
  front := subst hp
  tail := h

/-- A line with one more value, whatever text is behind it. -/
private theorem snoc {l' : Line} (hl : l.Spelled cs us) (hus : isSparse '\x7b' us = true)
    (hp : p.Spelled ds) (hfront : l'.front = l.front ++ [.text l.tail, .subst p .none])
    (htail : Template.Spelled l'.tail ts) :
    l'.Spelled (cs ++ (us ++ ('\x7b' :: '\x7b' :: ds ++ ['\x7d', '\x7d']))) ts where
  plain := by
    rw [hfront]
    refine arePlain_append hl.plain ⟨?_, ⟨hp.plain, rfl⟩, trivial⟩
    rw [Node.IsPlain, hl.tail.toList]
    exact hus
  front := by
    have hsplit : [Node.text l.tail, .subst p .none] = [.text l.tail] ++ [.subst p .none] := rfl
    rw [hfront, hsplit, printNodes_append, printNodes_append, printNodes_text]
    exact hl.front.append (hl.tail.append (subst hp))
  tail := htail

theorem put (hl : l.Spelled cs us) (hus : isSparse '\x7b' us = true) (hp : p.Spelled ds)
    (h : Template.Spelled s ts) :
    (l.put p s).Spelled (cs ++ (us ++ ('\x7b' :: '\x7b' :: ds ++ ['\x7d', '\x7d']))) ts :=
  snoc hl hus hp rfl h

theorem last (hl : l.Spelled cs us) (hus : isSparse '\x7b' us = true) (hp : p.Spelled ds) :
    (l.last p).Spelled (cs ++ (us ++ ('\x7b' :: '\x7b' :: ds ++ ['\x7d', '\x7d']))) [] :=
  snoc hl hus hp rfl rfl

end Line.Spelled

/-! ## Comparing a tree with lines -/

/-- A tree that can be read back and is printed as the lines up to the rest of them. -/
structure Spells (ns : List Node) (ls rest : List String) : Prop where
  plain : ArePlain ns
  text : lines ls = printNodes ns ++ lines rest

namespace Spells

variable {ns ms : List Node} {ls rest : List String}

theorem append {mid : List String} (hn : Spells ns ls mid) (hm : Spells ms mid rest) :
    Spells (ns ++ ms) ls rest where
  plain := arePlain_append hn.plain hm.plain
  text := by rw [printNodes_append, String.append_assoc, ← hm.text, hn.text]

theorem block_nil : Spells (block []) ls ls where
  plain := trivial
  text := by simp [block, printNodes, printPieces, piecesOf]

theorem block_cons {l : Line} {more : List Line} {as ts cs : List Char} (hl : l.Spelled as ts)
    (hts : isSparse '\x7b' (ts ++ ['\n']) = true) (hcs : as ++ ts = cs)
    (h : Spells (block more) ls rest) :
    Spells (block (l :: more)) (String.ofList cs :: ls) rest where
  plain := by
    refine arePlain_append (arePlain_append hl.plain ⟨?_, trivial⟩) h.plain
    rw [Node.IsPlain, String.toList_append, hl.tail.toList]
    exact hts
  text := by
    have hblock : block (l :: more) = l.nodes ++ block more := List.flatMap_cons
    rw [hblock, lines_cons, h.text, Line.nodes, printNodes_append, printNodes_append,
      printNodes_text, hl.front, hl.tail, ← hcs, String.ofList_append]
    simp only [String.append_assoc]

/-- The line of a tag. -/
private theorem lines_tag {body : String} {cs ds : List Char} (h : Spelled body ds)
    (hcs : '\x7b' :: '\x7b' :: (ds ++ [' ', '-', '\x7d', '\x7d']) = cs) :
    lines (String.ofList cs :: ls) = printPieces [.line body] ++ lines ls := by
  have hprint : Spelled ("\x7b\x7b" ++ (body ++ " -\x7d\x7d")) cs := by
    rw [← hcs]
    exact (Spelled.literal _).append (h.append (Spelled.literal _))
  rw [lines_cons, ← hprint]
  simp [printPieces, Piece.print, String.append_assoc]

private theorem lines_endfor :
    lines ("\x7b\x7bendfor -\x7d\x7d" :: ls) = printPieces [.line "endfor"] ++ lines ls :=
  lines_tag (.literal ['e', 'n', 'd', 'f', 'o', 'r']) rfl

private theorem lines_else :
    lines ("\x7b\x7belse -\x7d\x7d" :: ls) = printPieces [.line "else"] ++ lines ls :=
  lines_tag (.literal ['e', 'l', 's', 'e']) rfl

private theorem lines_endif :
    lines ("\x7b\x7bendif -\x7d\x7d" :: ls) = printPieces [.line "endif"] ++ lines ls :=
  lines_tag (.literal ['e', 'n', 'd', 'i', 'f']) rfl

private theorem loop {key : Option String} {value : String} {path : Path} {ds cs : List Char}
    {body : List Node} (hkey : ∀ name, key = some name → IsName name) (hvalue : IsName value)
    (hpath : path.IsPlain) (htag : Spelled ("for" ++ " " ++ Directive.loopText key value path) ds)
    (hcs : '\x7b' :: '\x7b' :: (ds ++ [' ', '-', '\x7d', '\x7d']) = cs)
    (hbody : Spells body ls ("\x7b\x7bendfor -\x7d\x7d" :: rest)) :
    Spells [.loop key value path body .none] (String.ofList cs :: ls) rest where
  plain := by
    rw [ArePlain, Node.IsPlain]
    exact ⟨⟨hkey, hvalue, hpath, rfl, hbody.plain⟩, trivial⟩
  text := by
    rw [lines_tag htag hcs, hbody.text, lines_endfor]
    simp [printNodes, printPieces, piecesOf, Node.pieces, String.append_assoc]

theorem each {value : String} {path : Path} {vs ds cs : List Char} {body : List Node}
    (hvalue : Spelled value vs) (hvs : isTagName vs = true) (hpath : path.Spelled ds)
    (hcs : '\x7b' :: '\x7b' :: 'f' :: 'o' :: 'r' :: ' '
      :: (vs ++ ' ' :: 'i' :: 'n' :: ' ' :: ds ++ [' ', '-', '\x7d', '\x7d']) = cs)
    (hbody : Spells body ls ("\x7b\x7bendfor -\x7d\x7d" :: rest)) :
    Spells (each value path body) (String.ofList cs :: ls) rest := by
  have htag : Spelled ("for" ++ " " ++ Directive.loopText none value path)
      (['f', 'o', 'r'] ++ [' '] ++ ([] ++ vs ++ [' ', 'i', 'n', ' '] ++ ds)) :=
    ((Spelled.literal _).append (.literal _)).append
      ((((Spelled.literal _).append hvalue).append (.literal _)).append hpath.display)
  exact loop (by simp) (isName_of_spelled hvalue hvs) hpath.plain htag (by simpa using hcs) hbody

theorem eachEntry {key value : String} {path : Path} {ks vs ds cs : List Char} {body : List Node}
    (hkey : Spelled key ks) (hks : isTagName ks = true) (hvalue : Spelled value vs)
    (hvs : isTagName vs = true) (hpath : path.Spelled ds)
    (hcs : '\x7b' :: '\x7b' :: 'f' :: 'o' :: 'r' :: ' ' :: (ks ++ ',' :: ' '
      :: (vs ++ ' ' :: 'i' :: 'n' :: ' ' :: ds) ++ [' ', '-', '\x7d', '\x7d']) = cs)
    (hbody : Spells body ls ("\x7b\x7bendfor -\x7d\x7d" :: rest)) :
    Spells (eachEntry key value path body) (String.ofList cs :: ls) rest := by
  have hname : ∀ name, some key = some name → IsName name := by
    rintro _ ⟨⟩
    exact isName_of_spelled hkey hks
  have htag : Spelled ("for" ++ " " ++ Directive.loopText (some key) value path)
      (['f', 'o', 'r'] ++ [' '] ++ (ks ++ [',', ' '] ++ vs ++ [' ', 'i', 'n', ' '] ++ ds)) :=
    ((Spelled.literal _).append (.literal _)).append
      ((((hkey.append (.literal _)).append hvalue).append (.literal _)).append hpath.display)
  exact loop hname (isName_of_spelled hvalue hvs) hpath.plain htag (by simpa using hcs) hbody

private theorem if_tag {path : Path} {ds : List Char} (hpath : path.Spelled ds) :
    Spelled ("if" ++ " " ++ Directive.conditionText ⟨false, path⟩) ('i' :: 'f' :: ' ' :: ds) :=
  ((Spelled.literal _).append (.literal _)).append ((Spelled.literal _).append hpath.display)

/-- A part that is there if a condition holds. -/
theorem choose_nil {path : Path} {ds cs : List Char} {yes : List Node} (hpath : path.Spelled ds)
    (hcs : '\x7b' :: '\x7b' :: 'i' :: 'f' :: ' ' :: (ds ++ [' ', '-', '\x7d', '\x7d']) = cs)
    (hyes : Spells yes ls ("\x7b\x7bendif -\x7d\x7d" :: rest)) :
    Spells (choose path yes []) (String.ofList cs :: ls) rest where
  plain := by
    rw [choose, ArePlain, Node.IsPlain, BranchesPlain]
    exact ⟨⟨by simp, ⟨hpath.plain, hyes.plain, trivial⟩, trivial⟩, trivial⟩
  text := by
    rw [lines_tag (if_tag hpath) hcs, hyes.text, lines_endif]
    simp [choose, choiceEnd, printNodes, printPieces, piecesOf, branchPieces, Node.pieces,
      String.append_assoc]

/-- Two parts of which one is there. -/
theorem choose_cons {path : Path} {ds cs : List Char} {yes no : List Node} {mid : List String}
    (hpath : path.Spelled ds)
    (hcs : '\x7b' :: '\x7b' :: 'i' :: 'f' :: ' ' :: (ds ++ [' ', '-', '\x7d', '\x7d']) = cs)
    (hyes : Spells yes ls ("\x7b\x7belse -\x7d\x7d" :: mid))
    (hno : Spells no mid ("\x7b\x7bendif -\x7d\x7d" :: rest)) (hne : no.isEmpty = false) :
    Spells (choose path yes no) (String.ofList cs :: ls) rest where
  plain := by
    rw [choose, ArePlain, Node.IsPlain, BranchesPlain]
    exact ⟨⟨by simp, ⟨hpath.plain, hyes.plain, trivial⟩, hno.plain⟩, trivial⟩
  text := by
    rw [lines_tag (if_tag hpath) hcs, hyes.text, lines_else, hno.text,
      lines_endif]
    simp [choose, choiceEnd, hne, printNodes, printPieces, piecesOf, branchPieces, Node.pieces,
      String.append_assoc]

/-- Lines that spell a tree are a template, and rendering it writes what the tree writes. -/
theorem render (h : Spells ns ls []) (name : String) :
    ∃ t, parse name (lines ls) = .ok t ∧
      ∀ root written s, Writes root.get? ns s →
        (t.render root { written }).output = written.toList ++ Utf8.encode s ∧
          (t.render root { written }).failure = none := by
  have htext : lines ls = printNodes ns := by
    rw [h.text]
    exact String.append_empty
  rw [htext]
  exact render_printNodes h.plain name

end Spells

end StateGen.Template
