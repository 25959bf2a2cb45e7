import StateGen.Generation
import StateGen.Proofs.Template.Balance
import StateGen.Proofs.Template.Failures
import StateGen.Proofs.Template.Leftmost

/-!
# Failures of templates quote the directive at fault

Whatever goes wrong with a template, other than its output, is blamed on a pair of opening braces
that opens a tag. The failure tells their place, and the line that is kept with it is the line of
the text on which they stand, at the column that the place tells. If the blocks are not balanced,
these are the braces of the tag that stands where the block has to end otherwise, or of the `for` or
`if` of a block that does not end.
-/

namespace StateGen.Template

/-! ## Opening braces -/

/-- Opening braces of the text that open a tag stand behind `before`: those of a leftmost tag, or
those behind the last one if no closing braces follow them. -/
inductive OpensTag (cs : List Char) : List Char → Prop where
  | closed {tags more : List RawTag} {t : RawTag} {last : List Char} :
    IsDivision cs (tags ++ t :: more) last → OpensTag cs (rawText tags t.literal)
  | unclosed {tags : List RawTag} {literal inside : List Char} :
    IsDivision cs tags (literal ++ '\x7b' :: '\x7b' :: inside) → IsUnclosed literal inside →
      OpensTag cs (rawText tags literal)

theorem OpensTag.exists_append {cs before : List Char} (h : OpensTag cs before) :
    ∃ rest, cs = before ++ (['\x7b', '\x7b'] ++ rest) := by
  cases h with
  | @closed tags more t last hdivision =>
    refine ⟨t.whole ++ ['\x7d', '\x7d'] ++ rawText more last, ?_⟩
    rw [hdivision.1]
    simp [rawText, RawTag.text]
  | @unclosed tags literal inside hdivision =>
    refine ⟨inside, ?_⟩
    rw [hdivision.1]
    simp [rawText]

private theorem tag_notMem_textSegment {tag : Tag} {cs : List Char} :
    .tag tag ∉ textSegment cs := by
  unfold textSegment
  split <;> simp

/-- The tags of a divided text start at their opening braces. -/
private theorem Yields.exists_start {before last : List Char} {trims : Bool} {tags : List RawTag}
    {segments : List Segment} (h : Yields before trims tags last segments) {tag : Tag}
    (htag : .tag tag ∈ segments) :
    ∃ front t more, tags = front ++ t :: more ∧
      tag.span.start = .behind (before ++ rawText front t.literal) := by
  induction h with
  | last => exact absurd htag tag_notMem_textSegment
  | @tag before kept inner middle body last trims opening closing t tags segments _ _ _ _ _ ih =>
    rw [List.mem_append, List.mem_cons] at htag
    obtain htext | heq | htag := htag
    · exact absurd htext tag_notMem_textSegment
    · cases heq
      exact ⟨[], t, tags, rfl, rfl⟩
    · obtain ⟨front, t', more, rfl, hstart⟩ := ih htag
      refine ⟨t :: front, t', more, rfl, ?_⟩
      rw [hstart, rawText, rawText, List.flatMap_cons]
      simp only [List.append_assoc]

/-- A place is that of opening braces of the text that open a tag. -/
def Opens (text : String) (span : Span) : Prop :=
  ∃ before, OpensTag text.toList before ∧ span.start = .behind before

/-- Cutting a text gives tags at opening braces, or fails at opening braces. -/
private theorem opens_of_scan (text : String) :
    match scan text with
    | .ok segments => ∀ tag, .tag tag ∈ segments → Opens text tag.span
    | .error e => (∃ span, e.span? = some span ∧ Opens text span) ∧ ¬ e.IsImbalance := by
  obtain ⟨tags, last, hdivision, hlast | ⟨literal, inside, rfl, hunclosed⟩⟩ :=
    exists_isDivision text.toList
  · obtain ⟨segments, hyields⟩ := exists_yields [] false tags last
    have hscan : scan text = .ok segments := by
      rw [scan, hdivision.1]
      exact scanFrom_of_yields hyields hdivision.2 hlast
    rw [hscan]
    intro tag htag
    obtain ⟨front, t, more, rfl, hstart⟩ := hyields.exists_start htag
    exact ⟨_, .closed hdivision, hstart⟩
  · have hscan : scan text =
        .error (.malformed .unterminated (.point (.behind (rawText tags literal)))) := by
      rw [scan, hdivision.1]
      exact scanFrom_of_unclosed hdivision.2 hunclosed [] false
    rw [hscan]
    exact ⟨⟨_, rfl, _, .unclosed hdivision hunclosed, rfl⟩, id⟩

/-! ## The directives of a tree -/

mutual

/-- Nodes stand where their directives do. -/
private theorem mem_of_derives {signs : List Sign} {nodes : List Node} {span : Span} :
    Derives signs nodes → span ∈ spansOf nodes → ∃ d, .tag d span ∈ signs
  | .nil, hspan => nomatch hspan
  | .text h, hspan => by
    rw [spansOf, Node.spans, List.nil_append] at hspan
    have ⟨d, hd⟩ := mem_of_derives h hspan
    exact ⟨d, List.mem_cons_of_mem _ hd⟩
  | .comment h, hspan => by
    have ⟨d, hd⟩ := mem_of_derives h hspan
    exact ⟨d, List.mem_cons_of_mem _ hd⟩
  | .subst h, hspan => by
    rw [spansOf, Node.spans, List.singleton_append, List.mem_cons] at hspan
    obtain rfl | hspan := hspan
    · exact ⟨_, List.mem_cons_self⟩
    · have ⟨d, hd⟩ := mem_of_derives h hspan
      exact ⟨d, List.mem_cons_of_mem _ hd⟩
  | .loop hbody h, hspan => by
    rw [spansOf, Node.spans, List.cons_append, List.mem_cons, List.mem_append] at hspan
    obtain rfl | hspan | hspan := hspan
    · exact ⟨_, List.mem_cons_self⟩
    · have ⟨d, hd⟩ := mem_of_derives hbody hspan
      exact ⟨d, List.mem_cons_of_mem _ (List.mem_append_left _ hd)⟩
    · have ⟨d, hd⟩ := mem_of_derives h hspan
      exact ⟨d, List.mem_cons_of_mem _ (List.mem_append_right _ (List.mem_cons_of_mem _ hd))⟩
  | .choice hchain h, hspan => by
    rw [spansOf, Node.spans, List.mem_append] at hspan
    obtain hspan | hspan := hspan
    · have ⟨d, hd⟩ := mem_of_derivesChain hchain hspan
      exact ⟨d, List.mem_cons_of_mem _ (List.mem_append_left _ hd)⟩
    · have ⟨d, hd⟩ := mem_of_derives h hspan
      exact ⟨d, List.mem_cons_of_mem _ (List.mem_append_right _ hd)⟩

private theorem mem_of_derivesChain {c : Condition} {signs : List Sign}
    {branches : List (Condition × List Node)} {otherwise : List Node} {span : Span} :
    DerivesChain c signs branches otherwise → span ∈ branchSpans branches ++ spansOf otherwise →
      ∃ d, .tag d span ∈ signs
  | .endif hbody, hspan => by
    simp only [branchSpans, spansOf, List.append_nil] at hspan
    have ⟨d, hd⟩ := mem_of_derives hbody hspan
    exact ⟨d, List.mem_append_left _ hd⟩
  | .otherwise hbody hlast, hspan => by
    simp only [branchSpans, List.append_nil, List.mem_append] at hspan
    obtain hspan | hspan := hspan
    · have ⟨d, hd⟩ := mem_of_derives hbody hspan
      exact ⟨d, List.mem_append_left _ hd⟩
    · have ⟨d, hd⟩ := mem_of_derives hlast hspan
      exact ⟨d, List.mem_append_right _ (List.mem_cons_of_mem _ (List.mem_append_left _ hd))⟩
  | .elif hbody hchain, hspan => by
    rw [branchSpans, List.append_assoc, List.mem_append] at hspan
    obtain hspan | hspan := hspan
    · have ⟨d, hd⟩ := mem_of_derives hbody hspan
      exact ⟨d, List.mem_append_left _ hd⟩
    · have ⟨d, hd⟩ := mem_of_derivesChain hchain hspan
      exact ⟨d, List.mem_append_right _ (List.mem_cons_of_mem _ hd)⟩

end

/-! ## Failures -/

/-- A failure is blamed on opening braces of the text that open a tag, and the line that is kept
with it is the one on which they stand, at their column. -/
def Quotes (name text : String) (e : Error) : Prop :=
  ∃ span before line, e.span? = some span ∧ OpensTag text.toList before ∧
    span.start = .behind before ∧
    Generation.Error.ofTemplate name text e = .template name (String.ofList line) e ∧
    Text.IsLineAt text.toList before line ∧
    ['\x7b', '\x7b'] <+: line.drop (span.startColumn - 1)

private theorem quotes_of_opens {name text : String} {e : Error} {span : Span}
    (he : e.span? = some span) (h : Opens text span) : Quotes name text e := by
  obtain ⟨before, hopens, hstart⟩ := h
  obtain ⟨rest, hrest⟩ := hopens.exists_append
  obtain ⟨line, hget, hline, hbraces⟩ := Text.exists_line_at hrest (by simp) (by simp)
  rw [← hstart] at hget hbraces
  refine ⟨span, before, line, he, hopens, hstart, ?_, hline, hbraces⟩
  have hget : (Text.lines text.toList)[span.startLine - 1]? = some line := hget
  rw [Generation.Error.ofTemplate, he]
  simp only [Option.bind_some, hget, Option.getD_some]

private theorem readAll_of_parse_eq_error {name text : String} {segments : List Segment}
    {e : Error} (hscan : scan text = .ok segments) (h : parse name text = .error e) :
    Partial.readAll {} segments = .error e := by
  simp only [parse, parseNodes, hscan, bind, Except.bind] at h
  cases hread : Partial.readAll {} segments with
  | ok nodes =>
    rw [hread] at h
    cases h
  | error e' =>
    rw [hread] at h
    exact congrArg Except.error (Except.error.inj h)

/-- **Failures of templates quote the directive at fault.** A text that is no template fails at
opening braces of a tag, and so does rendering a template unless the sink is full; the line that is
kept with the failure shows these braces at the column that the failure tells. Blocks that are not
balanced are blamed on the tag that stands in the wrong place, or on the `for` or `if` of the
innermost block if the text ends within it. -/
theorem failures_quote_directives (name text : String) :
    (∀ e, parse name text = .error e →
      Quotes name text e ∧
        (e.IsImbalance → ∃ segments, scan text = .ok segments ∧ Unbalanced segments e)) ∧
    ∀ t root capacity e, parse name text = .ok t →
      (t.render root { capacity }).failure = some e →
        (∃ reason, e = .writeFailed reason) ∨ Quotes name text e := by
  have hcut := opens_of_scan text
  constructor
  · intro e h
    cases hscan : scan text with
    | error e' =>
      rw [parse, parseNodes, hscan] at h
      cases h
      rw [hscan] at hcut
      obtain ⟨⟨span, he, hopens⟩, hbalance⟩ := hcut
      exact ⟨quotes_of_opens he hopens, fun himbalance ↦ absurd himbalance hbalance⟩
    | ok segments =>
      rw [hscan] at hcut
      have hread := readAll_of_parse_eq_error hscan h
      obtain ⟨tag, htag, he, hbalance⟩ | hunbalanced := readAll_eq_error hread
      · exact ⟨quotes_of_opens he (hcut tag htag), fun himbalance ↦ absurd himbalance hbalance⟩
      · obtain ⟨tag, htag, he⟩ := hunbalanced.span?
        exact ⟨quotes_of_opens he (hcut tag htag), fun _ ↦ ⟨segments, rfl, hunbalanced⟩⟩
  · intro t root capacity e hparse h
    obtain ⟨nodes, hnodes, hparse⟩ := bind_eq_ok hparse
    cases hparse
    obtain ⟨segments, hscan, hread⟩ := bind_eq_ok hnodes
    rw [hscan] at hcut
    obtain hfull | ⟨span, hspan, he⟩ := failure_of_render h
    · exact .inl hfull
    · obtain ⟨signs, hreads, hderives⟩ := readAll_eq_ok_iff_derives.1 hread
      obtain ⟨d, hd⟩ := mem_of_derives hderives hspan
      obtain ⟨tag, htag, rfl, _⟩ := exists_tag_of_mem hreads hd
      exact .inr (quotes_of_opens he (hcut tag htag))

/-- A block that does not end, and a reference without a value, both on the line behind one that
ends with a carriage return and a line feed. -/
theorem failures_quote_directives_lines :
    let block := "a\r\n \x7b\x7bif x\x7d\x7d"
    let unclosed : Error := .malformed (.unclosed .branch ⟨2, 2, 2, 9⟩ .endOfTemplate) ⟨2, 2, 2, 9⟩
    let reference := "a\r\n \x7b\x7bx\x7d\x7d"
    let unresolved : Error := .unresolvedReference "x" ⟨2, 2, 2, 6⟩
    Quotes "t" block unclosed ∧
      (∃ segments, scan block = .ok segments ∧ Unbalanced segments unclosed) ∧
      Quotes "t" reference unresolved := by
  intro block unclosed reference unresolved
  have hscanBlock : scan block = .ok [.text "a\r\n ", .tag ⟨"if x", ⟨2, 2, 2, 9⟩⟩] := by
    decide +kernel
  have hscanReference : scan reference = .ok [.text "a\r\n ", .tag ⟨"x", ⟨2, 2, 2, 6⟩⟩] := by
    decide +kernel
  have hx : Path.parse "x" = .ok ⟨"x", []⟩ := Path.parse_name (by simp [IsName, Text.isWordChar])
  have hif : Directive.ofTag ⟨"if x", ⟨2, 2, 2, 9⟩⟩ = .ok (.branch ⟨false, ⟨"x", []⟩⟩) :=
    Directive.ofTag_eq_ok_iff.2 (@Directive.Says.branch [' '] [] ['x'] _ Text.isGap_space (.plain hx)
      Text.allBlank_nil)
  have hsubst : Directive.ofTag ⟨"x", ⟨2, 2, 2, 6⟩⟩ = .ok (.subst ⟨"x", []⟩) :=
    Directive.ofTag_eq_ok_iff.2 (.subst hx (by decide))
  have hblock : parse "t" block = .error unclosed := by
    simp only [parse, parseNodes, hscanBlock, bind, Except.bind, Partial.readAll, hif]
    rfl
  have hreference : parse "t" reference =
      .ok ⟨"t", [.text "a\r\n ", .subst ⟨"x", []⟩ ⟨2, 2, 2, 6⟩]⟩ := by
    simp only [parse, parseNodes, hscanReference, bind, Except.bind, Partial.readAll, hsubst]
    rfl
  have hquotes := (failures_quote_directives "t" block).1 unclosed hblock
  have hunresolved := (failures_quote_directives "t" reference).2 _ (.map {}) none unresolved
    hreference (by decide)
  refine ⟨hquotes.1, hquotes.2 trivial, hunresolved.resolve_left ?_⟩
  rintro ⟨reason, hreason⟩
  exact Error.noConfusion hreason

/-- The line lacks its carriage return, and keeps what stands in front of the braces. -/
example :
    Generation.Error.ofTemplate "t" "a\n \x7b\x7bx\x7d\x7d\r\nb"
        (.unresolvedReference "x" ⟨2, 2, 2, 6⟩) =
      .template "t" " \x7b\x7bx\x7d\x7d" (.unresolvedReference "x" ⟨2, 2, 2, 6⟩) := by
  decide

end StateGen.Template
