import MdxProse.Proofs.DeepNesting
import MdxProse.Proofs.OpaqueComments

/-!
# A comment that is the whole text

A text that is one comment is converted to that comment, whatever it holds: no line of it is looked
at as a block, and what is written down is what stands between its marks.

* `Region.stop_last`: the last line of a text that does not end with a gap.
* `readSource_expression`: **a text that is one expression is one block.**
* `Document.read_expression`: the tree of such a text.
* `Embedded.render_comment`: **an expression that is a comment is rendered to what the comment
  holds.**
* `lone_comment_kept`: the conversion of a comment.
-/

namespace MdxProse

namespace Block

variable {src : Source}

/-! ### The last line -/

theorem Region.stop_last {c : Char} (hsrc : src.toList.getLast? = some c)
    (hc : Text.isGap c = false) :
    ((ofSource src).line ((ofSource src).height - 1)).stop = src.size := by
  obtain ⟨k, s, body, hget, hlen, hsize⟩ := Anchor.exists_last src
  have hisLine := Anchor.lines_isLine hget
  have hlast : src[src.size - 1]? = some c := by
    rw [← Array.getElem?_toList, ← Array.length_toList, ← List.getLast?_eq_getElem?]
    exact hsrc
  have hmem : c ∈ body := by
    cases body with
    | nil =>
      -- the text would end with a line break
      rcases hisLine.start with h0 | hbreak
      · have := (Array.getElem?_eq_some_iff.mp hlast).1
        simp at hsize
        omega
      · rw [← hsize, List.length_nil, Nat.add_zero, hbreak] at hlast
        cases hlast
        cases hc
    | cons d v =>
      have hat := hisLine.hasAt.getElem? (Nat.sub_lt (Nat.succ_pos v.length) Nat.one_pos)
      have hend : s + ((d :: v).length - 1) = src.size - 1 := by
        rw [← hsize, List.length_cons]
        omega
      rw [hend, hlast] at hat
      exact List.mem_of_getElem? hat.symm
  have hlt : k < (ofSource src).height := by
    apply (Line.lt_size_table hget).resolve_right
    rintro ⟨-, hblank⟩
    rw [Text.isGap, Bool.or_eq_false_iff, ← Bool.not_eq_true] at hc
    exact hc.1 (List.all_eq_true.mp hblank c hmem)
  obtain ⟨t, body', hget', hline⟩ :=
    line_ofSource src (Nat.sub_lt (Nat.zero_lt_of_lt hlt) Nat.one_pos)
  have hlast : (ofSource src).height - 1 = k := by
    have := (List.getElem?_eq_some_iff.mp hget').1
    omega
  rw [hlast] at hget' hline ⊢
  cases hget.symm.trans hget'
  rw [hline]
  exact hsize

/-! ### One expression -/

/-- **A text that is one expression is one block.** -/
theorem readSource_expression {u : List Char} (hsrc : src.toList = u) (hu : Expression.Complete u)
    (hopen : u.head? = some '\x7b') (hclose : u.getLast? = some '\x7d') :
    readSource src = .ok (.leaf (.flowExpression (String.ofList u) ⟨0, u.length⟩) 0
      (Region.ofSource src).height) := by
  obtain ⟨w, rfl⟩ := List.head?_eq_some_iff.mp hopen
  obtain ⟨v, hfirst, hpos⟩ := Region.exists_first hsrc (by decide)
  have hstop := Region.stop_last (hsrc ▸ hclose) (by decide)
  have hat : src.HasAt 0 ('\x7b' :: w) := Source.hasAt_of_toList_eq hsrc
  have hlimit : (Region.ofSource src).limit (Region.ofSource src).height =
      0 + ('\x7b' :: w).length := by
    rw [Region.limit, hstop, ← hsrc, Array.length_toList, Nat.zero_add]
  have hread := FlowExpression.read?_whole (Region.sound_ofSource src) hpos (Nat.le_refl _) hu hat
    hfirst hlimit
  rw [Nat.zero_add] at hread
  have hblock : readBlock (read 19) (read 18) (Region.ofSource src) 0
      (Region.ofSource src).height = .ok (.leaf (.flowExpression (String.ofList ('\x7b' :: w))
        ⟨0, ('\x7b' :: w).length⟩) 0 (Region.ofSource src).height) :=
    readBlock_expression hfirst (hfirst.has (by decide)) hread
  have hskip := Region.skipEmpty_of_isEmpty_eq_false hfirst.isEmpty
  rw [← hskip] at hblock
  obtain ⟨tight, honly⟩ := readBlocks_only (hskip.symm ▸ hpos)
    (hskip.symm ▸ Region.indent_ofSource_le hpos) hblock rfl false true
  rw [readSource_blocks, honly, hskip]
  rfl

end Block

theorem Document.read_expression {d : Document} {u : List Char} (hsrc : d.source.toList = u)
    (hu : Expression.Complete u) (hopen : u.head? = some '\x7b')
    (hclose : u.getLast? = some '\x7d') :
    d.read = .ok (.mk .root none [.mk (.flowExpression (String.ofList u) ⟨0, u.length⟩)
      (some ⟨0, (Block.Region.ofSource d.source).height⟩) []]) := by
  have hevents : d.events = .ok [.leaf (.flowExpression (String.ofList u) ⟨0, u.length⟩)
      (some ⟨0, (Block.Region.ofSource d.source).height⟩) []] := by
    rw [events, Block.readSource_expression hsrc hu hopen hclose]
    rfl
  exact read_eq hevents (Walk.atom _ _)

namespace Embedded

variable {c : List Char}

theorem isComment_spell (c : List Char) : isComment (String.ofList (Comment.spell c)) = true := by
  have htext : (String.ofList (Comment.spell c)).toList = Comment.spell c := String.toList_ofList
  have hsuffix : "*/\x7d".toList <:+ Comment.spell c := ⟨'\x7b' :: '/' :: '*' :: c, rfl⟩
  rw [isComment, htext, Bool.and_eq_true, List.isSuffixOf_iff_suffix]
  exact ⟨rfl, hsuffix⟩

theorem commentText_spell (c : List Char) :
    commentText (String.ofList (Comment.spell c)) = String.ofList c := by
  have hlen : (Comment.spell c).length - 6 = c.length := by
    simp [Comment.spell]
  rw [commentText, String.toList_ofList, hlen, Comment.spell]
  exact congrArg String.ofList List.take_left

theorem render_comment {d : Document} {components : Option (List String)} {s : Span}
    {l : Option LineRange} (hle : s.start ≤ s.stop)
    (hcover : d.source.cover s = String.ofList (Comment.spell c)) (content : String) :
    Node.render (handlers d components) (.mk (.flowExpression content s) l []) =
      .ok (.plain [.comment (String.ofList c)]) := by
  have hrender : Node.render (handlers d components) (.mk (.flowExpression content s) l []) =
      handleCode d flowExpression (.mk (.flowExpression content s) l [])
        (Rendering.join (Node.renderEach (handlers d components) [])) := by
    rw [Node.render]
    rfl
  rw [hrender, handleCode, sourceOf_of_le rfl hle, hcover]
  show (if (decide (flowExpression = flowExpression) && isComment _) = true then _ else _) = _
  rw [if_pos (by rw [isComment_spell]; rfl), commentText_spell]
  rfl

end Embedded

theorem Document.render_comment {d : Document} {c : List Char} (hclose : ¬ ['*', '/'] <:+: c)
    (hsrc : d.source.toList = Comment.spell c) (components : Option (List String)) :
    d.render components = .ok (.plain [.comment (String.ofList c)]) := by
  have hread := Document.read_expression hsrc (Comment.complete hclose) rfl
    (by rw [Comment.spell]; simp [List.getLast?_cons])
  have hcover : d.source.cover ⟨0, (Comment.spell c).length⟩ =
      String.ofList (Comment.spell c) := by
    have hwindow := (Source.hasAt_of_toList_eq hsrc).window_eq
    rw [Nat.zero_add] at hwindow
    rw [Source.cover, Source.slice, hwindow]
  rw [render, hread]
  show ((Node.mk .root none _).renderRoot _).mapError ConversionError.unrenderable = _
  rw [Node.renderRoot]
  show ((Rendering.join (Node.renderEach _ [_])) >>= _).mapError ConversionError.unrenderable = _
  rw [Node.join_single (Embedded.render_comment (Nat.zero_le _) hcover _)]
  rfl

/-- **A comment that is the whole text is kept**, whatever it holds: the conversion is the comment
with what stands between its marks. -/
theorem lone_comment_kept (c : String) (framework : Option String) (settings : Settings)
    (hbreak : '\r' ∉ c.toList) (hnul : '\x00' ∉ c.toList)
    (hclose : ¬ ['*', '/'] <:+: c.toList) :
    (convert ("\x7b/*" ++ c ++ "*/\x7d") framework settings).html =
      .ok ("<!--" ++ c ++ "-->") := by
  have htext : "\x7b/*" ++ c ++ "*/\x7d" = String.ofList (Comment.spell c.toList) := by
    rw [← String.ofList_toList (s := "\x7b/*" ++ c ++ "*/\x7d")]
    simp [Comment.spell]
  have hsource : (Document.ofString ("\x7b/*" ++ c ++ "*/\x7d")).source.toList =
      Comment.spell c.toList := by
    rw [htext, Document.source_ofList]
    · simpa [Comment.spell] using hbreak
    · simpa [Comment.spell] using hnul
  have hrender := Document.render_comment hclose hsource
  rw [convert, Document.convert]
  dsimp only
  rw [hrender]
  show Except.ok (Html.writeAll [.comment (String.ofList c.toList)]) = _
  rw [String.ofList_toList, Html.writeAll, Html.write, Html.writeAll, String.append_empty]

/-- A comment of several lines that look like markup, one of which is blank. -/
theorem lone_comment_kept_markup :
    (convert ("\x7b/*" ++ "/\n\n</A>\n\x60\x60\x60\n> - \x7b '\n*" ++ "*/\x7d") (some "starlight")
      (Settings.ofVariables [])).html =
        .ok ("<!--" ++ "/\n\n</A>\n\x60\x60\x60\n> - \x7b '\n*" ++ "-->") :=
  lone_comment_kept _ _ _ (by decide +kernel) (by decide +kernel) (by decide +kernel)

end MdxProse
