import MdxProse.Proofs.ClosingLine
import MdxProse.Proofs.ExpressionGrammar
import MdxProse.Proofs.Failures

/-!
# Comments inside an element

A comment between two lines of tags is one expression.  The reader of expressions goes over it
character by character and takes nothing in it for markup; the search for the closing tag goes over
its lines and knows of no expressions.

* `Comment.complete`: what stands between the marks of a comment does not matter to the reader of
  expressions, if it does not end the comment.
* `FlowExpression.read?_whole`: an expression that takes all lines is one block.
  `readInside_expression`: **so it is read as one expression**, whatever the lines of it look like.
* `comment_opaque_iff`: **the element holds just the comment if and only if the search comes to the
  last line** with nothing open; it does so if no line of the comment starts like a tag or a fence.
* `comment_not_opaque`: a closing tag on a line of the comment closes the element.
-/

namespace MdxProse

namespace Comment

/-- A comment as an expression. -/
def spell (c : List Char) : List Char :=
  '\x7b' :: '/' :: '*' :: (c ++ ['*', '/', '\x7d'])

/-- **A comment is an expression**, whatever is in it. -/
theorem complete {c : List Char} (h : ¬ ['*', '/'] <:+: c) : Expression.Complete (spell c) := by
  intro x
  have hopen : Expression.rest? 0 (spell c ++ x) =
      Expression.rest? 1 ('/' :: '*' :: (c ++ '*' :: '/' :: '\x7d' :: x)) := by
    rw [spell, List.cons_append, Expression.rest?_cons 0 (by decide) (by simp) (by simp)]
    simp
  have hclose : Expression.rest? 1 ('\x7d' :: x) = some x := by
    rw [Expression.rest?_cons 1 (by decide) (by simp) (by simp)]
    rfl
  rw [hopen, Expression.rest?_blockComment, Inner.rest?_append h, Option.bind_some, hclose]

end Comment

/-- **An expression that starts a line and ends with the lines that may be looked at** takes all of
them, whatever they look like. -/
theorem Block.FlowExpression.read?_whole {src : Source} {r : Block.Region} {i past pos : Nat}
    {u v : List Char} (hr : r.Sound src) (hi : i < past) (hpast : past ≤ r.height)
    (hu : Expression.Complete u) (hat : r.src.HasAt pos u) (hfirst : r.Holds i pos ('\x7b' :: v))
    (hlimit : r.limit past = pos + u.length) : read? r i past =
      some (.leaf (.flowExpression (String.ofList u) ⟨pos, pos + u.length⟩) i past) := by
  have hscan : Expression.stop? r.src pos (pos + u.length) = some (pos + u.length) :=
    Expression.stop?_eq_some_iff.mpr ⟨u, hu, hat, Nat.le_refl _, rfl⟩
  have hhas : r.src.has '\x7b' pos = true := by
    simp [Source.has, Source.test, hfirst.getElem?]
  have hempty : (r.line i).isEmpty = false := hfirst.isEmpty
  have hskip := r.src.le_skipWhile Text.isSpace (pos + u.length) (pos + u.length)
  have hstop : stop? r i past = some (pos + u.length) := by
    simp [stop?, hempty, hfirst.start, hhas, hlimit, hscan, hskip]
  have hcover : r.src.cover ⟨pos, pos + u.length⟩ = String.ofList u := by
    rw [Source.cover, Source.slice, hat.window_eq]
  have hlast : r.lineReaching (pos + u.length) i = past - 1 := by
    rw [← hlimit]
    exact hr.lineReaching_stop (by omega) (by omega)
  rw [read?, hstop, Option.map_some, hfirst.start]
  dsimp only
  rw [hcover, hlast, Nat.sub_add_cancel (by omega)]

theorem Block.readBlock_expression {one two : Block.Reader} {r : Block.Region} {i past pos : Nat}
    {v : List Char} {o : Block.Outcome} (hfirst : r.Holds i pos ('\x7b' :: v))
    (hdash : r.src.has '-' 0 = false) (h : FlowExpression.read? r i past = some o) :
    readBlock one two r i past = .ok o := by
  have hesm : Esm.starts r i = false := by
    rw [Esm.starts, hfirst.lineText]
    simp [Esm.isStatement]
  simp [readBlock, FrontMatter.read?, hdash, hfirst.mathBlock (by decide), Esm.read?, hesm, h]

namespace Block.Wrapping

variable {n : Word} {c : List Char}

/-- The expression that the comment is. -/
def expression (n : Word) (c : List Char) : Kind :=
  .flowExpression (String.ofList (Comment.spell c))
    ⟨textStart n, textStart n + (Comment.spell c).length⟩

section Whole

variable {u v : List Char}

theorem inside_holds (h : (region n u).Holds 1 (textStart n) v) :
    (inside n u).Holds 1 (textStart n) v :=
  ⟨h.line, h.hasAt⟩

theorem read?_inside (hw : Expression.Complete u)
    (hfirst : (inside n u).Holds 1 (textStart n) ('\x7b' :: v)) :
    FlowExpression.read? (inside n u) 1 (last u) = some (.leaf (.flowExpression (String.ofList u)
      ⟨textStart n, textStart n + u.length⟩) 1 (last u)) := by
  have hpast : 1 < last u := Nat.le_add_left 2 _
  exact FlowExpression.read?_whole (sound_inside n u) hpast (Nat.le_refl _) hw (hasAt_text n u)
    hfirst (stop_eq n u)

/-- **A block that takes the whole text is all that the element holds**, if the text is not
indented. -/
theorem readInside_block {w : List Char} {c : Char} {o : Outcome}
    (hfirst : (inside n w).Holds 1 (textStart n) (c :: v))
    (h : readBlock (read 18) (read 17) (inside n w) 1 (last w) = .ok o) (hnext : o.next = last w) :
    readInside (read 19) (region n w) 1 (last w) = .ok o := by
  have hpast : 1 < last w := Nat.le_add_left 2 _
  have hempty : (region n w).isEmpty 1 = false := hfirst.isEmpty
  have hleast : Element.leastIndent? (region n w) 1 (last w) = some 0 :=
    Element.leastIndent?_eq_zero (fun j _ hj => indent_nonneg n w (Nat.le_of_lt hj))
      (Nat.le_refl 1) hpast hempty hfirst.indent
  have hskip : (inside n w).skipEmpty 1 = 1 :=
    Region.skipEmpty_of_isEmpty_eq_false hfirst.isEmpty
  have hlt : (inside n w).skipEmpty 1 < last w := by rwa [hskip]
  obtain ⟨tight, honly⟩ := readBlocks_only hlt
    (by rw [hskip]; exact Int.le_of_eq hfirst.indent.symm) (by rw [hskip]; exact h) hnext
    false true
  rw [readInside_eq hleast, honly]
  rfl

theorem readInside_expression (hw : Expression.Complete ('\x7b' :: u)) :
    readInside (read 19) (region n ('\x7b' :: u)) 1 (last ('\x7b' :: u)) =
      .ok (.leaf (.flowExpression (String.ofList ('\x7b' :: u))
        ⟨textStart n, textStart n + ('\x7b' :: u).length⟩) 1 (last ('\x7b' :: u))) := by
  obtain ⟨v, hfirst⟩ := holds_text (c := '\x7b') (by decide) n u
  have hread := read?_inside hw (inside_holds hfirst)
  generalize '\x7b' :: u = w at *
  have hinside : (inside n w).Holds 1 (textStart n) ('\x7b' :: v) := inside_holds hfirst
  exact readInside_block hinside (readBlock_expression hinside rfl hread) rfl

end Whole

/-! ### The document -/

/-- The element that holds the comment and nothing else. -/
def commentTree (n : Word) (c : List Char) : Node :=
  let w := Comment.spell c
  .mk .root none [.mk (.flowElement (opener n).name ⟨0, (source n w).size⟩) (some ⟨0, last w + 1⟩)
    [.mk (expression n c) (some ⟨1, last w⟩) []]]

theorem read_of_closes (hc : ¬ ['*', '/'] <:+: c) {d : Document}
    (hd : d.source = source n (Comment.spell c)) (h : Closes n (Comment.spell c)) :
    d.read = .ok (commentTree n c) := by
  have hinside : readInside (read 19) (region n (Comment.spell c)) 1 (last (Comment.spell c)) =
      .ok (.leaf (expression n c) 1 (last (Comment.spell c))) :=
    readInside_expression (Comment.complete hc)
  exact read_of_inside hd h hinside rfl (Walk.atom _ _)

/-- Where the closing tag is not found on the last line, the document is not read, or its first
element ends before that line. -/
theorem read_of_not_closes {w : List Char} {d : Document} (hd : d.source = source n w)
    (h : ¬ Closes n w) {root : Node} (hroot : d.read = .ok root) : ∃ name stop lines cs ns,
      root = .mk .root none (.mk (.flowElement name ⟨0, stop⟩) lines cs :: ns) ∧
        stop < (source n w).size := by
  have hread := hroot
  rw [Document.read, Except.bind_eq_ok] at hroot
  obtain ⟨es, hes, hroot⟩ := hroot
  obtain ⟨ns, hwalk, -, -⟩ := Document.events_spec hes
  obtain rfl : root = .mk .root none ns := by
    have := Document.read_eq hes hwalk
    rw [hread] at this
    exact Except.ok.inj this
  rw [Document.events, hd, Except.bind_eq_ok] at hes
  obtain ⟨o, ho, hfill⟩ := hes
  cases hrun : Element.closingRun? (region n w) (opener n).name (last w + 1) 0 none 1 with
  | none => cases (readSource_unclosed hrun).symm.trans ho
  | some run =>
    rcases of_closingRun? hrun with ⟨-, -, -, -, -, hstop⟩ | hlast
    · obtain ⟨lines, es', hevents⟩ := exists_of_closes_early hrun ho
      rw [hevents, List.mapM_cons, Except.bind_eq_ok] at hfill
      obtain ⟨e, he, hfill⟩ := hfill
      rw [Except.bind_eq_ok] at hfill
      obtain ⟨rest, -, hes⟩ := hfill
      cases he
      cases hes
      obtain ⟨cs, ns', rfl⟩ := hwalk.of_enter
      refine ⟨_, _, _, _, _, rfl, ?_⟩
      rw [size_source, lastStart]
      omega
    · exact absurd (hrun.trans (congrArg some hlast)) h

/-- A line that starts neither like a tag nor like fenced code. -/
def IsOpaque (line : List Char) : Prop :=
  (line.dropWhile Text.isSpace).head? ≠ some '<' ∧
    Fence.mark? (line.dropWhile Text.isSpace) = none

instance (line : List Char) : Decidable (IsOpaque line) :=
  inferInstanceAs (Decidable (_ ∧ _))

theorem passes_of_isOpaque {w : List Char} {i : Nat} (h₁ : 1 ≤ i) (h₂ : i < last w)
    (h : ∀ line, (Text.splitOn '\n' w)[i - 1]? = some line → IsOpaque line) : Passes n w i := by
  obtain ⟨s, body, hget, hline, hisLine⟩ := exists_line (n := n) h₁ h₂
  obtain ⟨hhead, hmark⟩ := h body (Anchor.getElem?_of_linesFrom hget)
  have htext : (region n w).lineText i = body.dropWhile Text.isSpace :=
    lineText_ofBody hline hisLine.hasAt
  cases hw : body.dropWhile Text.isSpace with
  | nil =>
    left
    show ((region n w).line i).isEmpty = true
    have hall := List.takeWhile_append_dropWhile (p := Text.isSpace) (l := body)
    rw [hw, List.append_nil] at hall
    rw [hline, Line.isEmpty_ofBody, ← hall]
    exact List.all_takeWhile
  | cons c u =>
    refine .inr ⟨by rwa [htext], fun ts stop hrun => absurd ?_ hhead⟩
    obtain ⟨⟨t, ts', rfl, hstart⟩, ⟨-, hscan, -⟩, -⟩ := Tag.run?_spec hrun
    have hlt : (source n w)[((region n w).line i).start]? = some '<' :=
      hstart ▸ Tag.has_lt_of_scan? hscan
    have hc : ((region n w).lineText i)[0]? = some c := by
      rw [htext, hw]
      rfl
    have hat : (source n w)[((region n w).line i).start]? = some c :=
      (Region.getElem?_of_lineText hc).2
    rw [hw, List.head?_cons, ← hat, hlt]

end Block.Wrapping

open Block Block.Wrapping

/-- **A comment inside an element is opaque where the search for the closing tag comes to the last
line with nothing open**, and only there.  It does so if no line of the comment below its first one
starts like a tag or like fenced code. -/
theorem comment_opaque_iff (n : Word) (c : List Char) (hbreak : '\r' ∉ c) (hnul : '\x00' ∉ c)
    (hc : ¬ ['*', '/'] <:+: c) :
    ((document n (Comment.spell c)).read = .ok (commentTree n c) ↔ Closes n (Comment.spell c)) ∧
    ((∀ line ∈ (Text.splitOn '\n' (Comment.spell c)).tail, IsOpaque line) →
      (document n (Comment.spell c)).read = .ok (commentTree n c)) := by
  have hsource : (document n (Comment.spell c)).source = source n (Comment.spell c) := by
    have hspell {d : Char} (hd : d ∉ c) (hmark : d ∉ ['\x7b', '/', '*', '\x7d']) :
        d ∉ Comment.spell c := by
      simp only [List.mem_cons, List.not_mem_nil, or_false, not_or] at hmark
      simp [Comment.spell, hd, hmark]
    rw [source_document (hspell hbreak (by decide)), replaceNul_eq (hspell hnul (by decide))]
  refine ⟨⟨fun hread => Classical.not_not.mp fun hno => ?_, read_of_closes hc hsource⟩,
    fun hlines => read_of_closes hc hsource (closes_of_passes fun i h₁ h₂ => ?_)⟩
  · obtain ⟨name, stop, lines, cs, ns, htree, hstop⟩ := read_of_not_closes hsource hno hread
    simp only [commentTree, Node.mk.injEq, List.cons.injEq, Kind.flowElement.injEq,
      Span.mk.injEq] at htree
    omega
  · refine passes_of_isOpaque h₁ h₂ fun line hline => ?_
    obtain ⟨u, rest, hsplit⟩ : ∃ u rest,
        Text.splitOn '\n' (Comment.spell c) = ('\x7b' :: u) :: rest :=
      Text.exists_splitOn_cons (by decide) _
    rw [hsplit] at hlines hline
    cases hi : i - 1 with
    | zero =>
      rw [hi] at hline
      cases hline
      exact ⟨by simp [Text.isSpace], by simp [Text.isSpace, Fence.mark?]⟩
    | succ k =>
      rw [hi] at hline
      exact hlines line (List.mem_of_getElem? hline)

/-- Markup inside a line, an expression and an indented list. -/
theorem comment_opaque_iff_lines : ∃ (n : Word) (c : List Char),
    n.wrap (Comment.spell c) = "<N>\n\x7b/* a </N>\n\x7bb\n\n  - c */\x7d\n</N>".toList ∧
      (document n (Comment.spell c)).read = .ok (commentTree n c) := by
  let n : Word := ⟨['N'], List.cons_ne_nil _ _, List.forall_mem_singleton.mpr rfl⟩
  let c : List Char := " a </N>\n\x7bb\n\n  - c ".toList
  exact ⟨n, c, rfl, (comment_opaque_iff n c (by decide +kernel) (by decide +kernel)
    (by decide +kernel)).2 (by decide +kernel)⟩

/-- A closing tag on a line of a comment closes the element. -/
theorem comment_not_opaque : ∃ (n : Word) (c : List Char),
    '\r' ∉ c ∧ '\x00' ∉ c ∧ ¬ ['*', '/'] <:+: c ∧
      n.wrap (Comment.spell c) = "<N>\n\x7b/*\n</N>\n*/\x7d\n</N>".toList ∧
      (document n (Comment.spell c)).read = .error ⟨.strayClosingTag "</N>", some 5⟩ := by
  let n : Word := ⟨['N'], List.cons_ne_nil _ _, List.forall_mem_singleton.mpr rfl⟩
  let c : List Char := "\n</N>\n".toList
  exact ⟨n, c, by decide +kernel, by decide +kernel, by decide +kernel, rfl,
    Document.read_of_error? (by decide +kernel)⟩

end MdxProse
