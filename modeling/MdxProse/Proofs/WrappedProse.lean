import MdxProse.Proofs.WrappedText

/-!
# Paragraphs inside an element

Between two lines of tags, a text of paragraphs is looked at twice: the search for the closing tag
goes over its lines for tags and for the marks of fenced code, and then the text is read.

* `Word.Fresh`: the name of the element occurs in no tag of the text.  So no tag of the text closes
  the element, `closingRun?_eq_none`: **the closing tag is found on the last line or not at all.**
* `closes_of_marks`: it is found if no line looks like the mark of fenced code.  A line may look
  like one and be none: grave accents follow the mark, or the line continues a paragraph.
* `exists_readInside`: prose without indentation is read inside the element.
* `wrapped_prose_read_iff`: **the document is one element, if and only if the closing tag is found
  and the text inside can be read.**
* `wrapped_prose_not_read`: a text that fails each of the two conditions.
-/

namespace MdxProse

theorem Source.HasAt.isInfix {src : Source} {pos start : Nat} {u v : List Char}
    (h : src.HasAt pos u) (hv : src.HasAt start v) (hle : start ≤ pos)
    (hend : pos + u.length ≤ start + v.length) : u <:+: v := by
  refine ⟨src.window start pos, src.window (pos + u.length) (start + v.length), ?_⟩
  have hmid := src.window_append hle (Nat.le_add_right pos u.length)
  have hall := src.window_append (Nat.le_trans hle (Nat.le_add_right pos u.length)) hend
  rw [h.window_eq] at hmid
  rw [hmid, hall, hv.window_eq]

theorem Tag.prefix_of_read? {w r : List Char} {name : String} {f : TagForm}
    (h : read? w = some (some name, f, r)) :
    '<' :: name.toList <+: w ∨ '<' :: '/' :: name.toList <+: w := by
  have hname {closing : Bool} {w r : List Char} (h : body? closing w = some (some name, f, r)) :
      name.toList <+: w := by
    unfold body? at h
    split at h
    · obtain ⟨x, -, hx⟩ := Option.map_eq_some_iff.mp h
      simp only [Prod.mk.injEq, Option.some.injEq] at hx
      rw [← hx.1, String.toList_ofList]
      exact List.take_prefix _ _
    · split at h
      · obtain ⟨x, -, hx⟩ := Option.map_eq_some_iff.mp h
        cases hx
      · cases h
  unfold read? at h
  split at h
  · exact .inr ((List.prefix_cons_inj _).mpr ((List.prefix_cons_inj _).mpr (hname h)))
  · exact .inl ((List.prefix_cons_inj _).mpr (hname h))
  · cases h

theorem Block.Element.findIn_of_ne {name : Option String} {ts : List Tag}
    (h : ∀ t ∈ ts, t.name ≠ name) (inner : Nat) : findIn name inner ts = .inr inner := by
  induction ts with
  | nil => rfl
  | cons t ts ih =>
    obtain ⟨hne, hts⟩ := List.forall_mem_cons.mp h
    simp only [findIn, if_neg hne, ih hts]

/-- The name stands in the text neither in an opening tag nor in a closing one. -/
structure Word.Fresh (n : Word) (w : List Char) : Prop where
  opening : ¬ '<' :: n.letters <:+: w
  closing : ¬ '<' :: '/' :: n.letters <:+: w

theorem infix_replaceNul {u w : List Char} (hu : replacement ∉ u) (h : u <:+: replaceNul w) :
    u <:+: w := by
  obtain ⟨v, hv, rfl⟩ := List.infix_map_iff.mp h
  have hnul : '\x00' ∉ v := fun hmem => hu (List.mem_map.mpr ⟨_, hmem, rfl⟩)
  have hsame : v.map _ = v := replaceNul_eq hnul
  rwa [hsame]

theorem Word.Fresh.replaceNul {n : Word} {w : List Char} (h : n.Fresh w) :
    n.Fresh (replaceNul w) := by
  have hletters : replacement ∉ n.letters := fun hmem => absurd (n.isAlpha _ hmem) (by decide)
  refine ⟨fun hin => h.opening (infix_replaceNul ?_ hin),
    fun hin => h.closing (infix_replaceNul ?_ hin)⟩
  · simpa [replacement] using hletters
  · simpa [replacement] using hletters

/-- The tree of the text is made of paragraphs. -/
def IsProse (w : List Char) (root : Node) : Prop :=
  (Document.ofString (String.ofList w)).read = .ok root ∧
    ∀ c ∈ root.children, c.type = .paragraph

/-- Whether a text is prose can be computed. -/
theorem exists_isProse {w : List Char} (h : ((Document.ofString (String.ofList w)).read.toOption.any
    fun root => root.children.all (·.type == .paragraph)) = true) : ∃ root, IsProse w root := by
  cases hread : (Document.ofString (String.ofList w)).read with
  | error e =>
    rw [hread] at h
    cases h
  | ok root =>
    rw [hread] at h
    exact ⟨root, hread, fun c hc => beq_iff_eq.mp (List.all_eq_true.mp h c hc)⟩

namespace Block.Wrapping

variable {n : Word} {w : List Char}

/-! ### The search for the closing tag -/

theorem name_ne (h : n.Fresh w) {p : Nat} {t : Tag}
    (ht : Tag.scan? (source n w) p (source n w).size = some t) (hp : textStart n ≤ p)
    (hstop : t.span.stop ≤ textStart n + w.length) : t.name ≠ (opener n).name := by
  intro hname
  obtain ⟨u, hu, hat, -, hspan⟩ := Tag.scan?_eq_some_iff.mp ht
  have hin : u <:+: w := by
    refine hat.isInfix (hasAt_text n w) hp ?_
    rw [hspan] at hstop
    exact hstop
  have hread := hu.2 []
  rw [List.append_nil, hname] at hread
  have hstart := Tag.prefix_of_read? hread
  rw [String.toList_ofList] at hstart
  rcases hstart with hstart | hstart
  · exact h.opening (hstart.isInfix.trans hin)
  · exact h.closing (hstart.isInfix.trans hin)

theorem le_start {i : Nat} (h₁ : 1 ≤ i) (h₂ : i < last w) :
    textStart n ≤ ((region n w).line i).start := by
  obtain ⟨s, body, hget, hline, -⟩ := exists_line (n := n) h₁ h₂
  rw [hline]
  exact Nat.le_trans (Anchor.le_of_linesFrom hget) (Nat.le_add_right _ _)

theorem closingRun?_eq_none (h : n.Fresh w) (hno : ¬ Closes n w) :
    Element.closingRun? (region n w) (opener n).name (last w + 1) 0 none 1 = none := by
  refine Option.eq_none_iff_forall_ne_some.mpr fun run hrun => ?_
  rcases of_closingRun? hrun with ⟨hlt, -, hname, hstart, hscan, hstop⟩ | hlast
  · have hle := (Element.closingRun?_spec hrun).1
    exact name_ne h hscan (Nat.le_trans (le_start hle hlt) hstart) hstop hname
  · exact hno (hrun.trans (congrArg some hlast))

/-- **If no line looks like the mark of fenced code, the closing tag is found on the last line.** -/
theorem closes_of_marks (h : n.Fresh w) (hmarks : ∀ line ∈ Text.splitOn '\n' w,
    Fence.mark? (line.dropWhile Text.isSpace) = none) : Closes n w := by
  refine closes_of_passes fun i h₁ h₂ => .inr ⟨?_, fun ts stop hrun => ?_⟩
  · obtain ⟨s, body, hget, hline, hisLine⟩ := exists_line (n := n) h₁ h₂
    rw [lineText_ofBody hline hisLine.hasAt]
    exact hmarks body (List.mem_of_getElem? (Anchor.getElem?_of_linesFrom hget))
  · obtain ⟨-, hrow, -, -⟩ := Tag.run?_spec hrun
    refine Element.findIn_of_ne (fun t ht => ?_) 0
    obtain ⟨hstart, hscan, hstop⟩ := hrow.of_mem ht
    exact name_ne h hscan (Nat.le_trans (le_start h₁ h₂) hstart)
      (Nat.le_trans hstop (run_stop_le h₂ hrun))

/-! ### Prose -/

theorem exists_prose (hbreak : '\r' ∉ w) {root : Node} (h : IsProse w root) : ∃ o es ns,
      readSource (replaceNul w).toArray = .ok o ∧
      o.events.mapM (Document.fill (Anchor.lines (replaceNul w).toArray) o.definitions) = .ok es ∧
      Walk o.events ns ∧ ns.map Node.kind = root.children.map Node.kind ∧
      ∀ n ∈ ns, n.type = .paragraph := by
  have hsource := Document.source_replaceNul hbreak
  obtain ⟨hread, hprose⟩ := h
  have hroot := hread
  obtain ⟨es, hes, -⟩ := Except.bind_eq_ok.mp hroot
  obtain ⟨o, ho, hfill⟩ := Except.bind_eq_ok.mp hes
  obtain ⟨hplain, ns, hwalk, -⟩ := readSource_spec ho
  obtain ⟨ns', hwalk', hkinds, -, -⟩ := hwalk.fill hplain hfill
  cases hread.symm.trans (Document.read_eq hes hwalk')
  rw [hsource] at ho hfill
  refine ⟨o, es, ns, ho, hfill, hwalk, hkinds.symm, fun n hn => ?_⟩
  obtain ⟨n', hn', hkind⟩ := List.mem_map.mp (hkinds ▸ List.mem_map_of_mem hn)
  rw [← hprose n' hn', Node.type, Node.type, hkind]

/-- **Prose without indentation is read inside the element**, as nodes of the same kinds. -/
theorem exists_readInside {o : Outcome} {es : List Event} {ns : List Node} (hflush : IsFlush w)
    (ho : readSource w.toArray = .ok o)
    (hes : o.events.mapM (Document.fill (Anchor.lines w.toArray) o.definitions) = .ok es)
    (hwalk : Walk o.events ns) (hprose : ∀ n ∈ ns, n.type = .paragraph) (n : Word) :
    ∃ o' es' ns', readInside (read 19) (region n w) 1 (last w) = .ok o' ∧
      o'.events.mapM (Document.fill (Anchor.lines (source n w)) o'.definitions) = .ok es' ∧
      Walk o'.events ns' ∧ ns'.map Node.kind = ns.map Node.kind := by
  obtain ⟨next, hinside⟩ := readInside_moved hflush ho hwalk hprose n
  obtain ⟨ns', hwalk', hkinds⟩ := hwalk.moved 1
  obtain ⟨es', hes'⟩ : ∃ es', (o.events.map (Event.moved 1)).mapM
      (Document.fill (Anchor.lines (source n w)) o.definitions) = .ok es' := by
    refine exists_mapM_ok.mpr fun e he => ?_
    obtain ⟨e₀, he₀, rfl⟩ := List.mem_map.mp he
    obtain ⟨e₁, he₁⟩ := exists_mapM_ok.mp ⟨es, hes⟩ e₀ he₀
    exact Document.exists_fill_moved he₁ 1
  exact ⟨_, es', ns', hinside, hes', hwalk', hkinds⟩

theorem cover_opener (n : Word) (w : List Char) :
    (source n w).cover (opener n).span = String.ofList (Sign.opening (some n)).spell := by
  have hat := (shows_first n w).hasAt
  rw [Source.cover, Source.slice]
  exact congrArg String.ofList hat.window_eq

end Block.Wrapping

open Block Block.Wrapping

/-- **Prose between two lines of tags is the content of one element**, where the document is read at
all.  It is read if and only if the search for the closing tag comes to the last line with nothing
open, and the text can be read with its least indentation taken away; if the search does not come
there, the opening tag is reported.  It comes there if no line looks like the mark of fenced code.
A text that is not indented as a whole is read then, and the element holds as many paragraphs as
the text by itself. -/
theorem wrapped_prose_read_iff (n : Word) (w : List Char) (hbreak : '\r' ∉ w) (hfresh : n.Fresh w)
    {root : Node} (hprose : IsProse w root) :
    (∀ tree, (document n w).read = .ok tree → ∃ cs, tree = elementTree n (replaceNul w) cs) ∧
    ((∃ tree, (document n w).read = .ok tree) ↔
      Closes n (replaceNul w) ∧ ReadsInside n (replaceNul w)) ∧
    (¬ Closes n (replaceNul w) → (document n w).read =
      .error ⟨.unclosedTag (String.ofList (Sign.opening (some n)).spell), some 1⟩) ∧
    ((∀ line ∈ Text.splitOn '\n' (replaceNul w),
      Fence.mark? (line.dropWhile Text.isSpace) = none) → Closes n (replaceNul w)) ∧
    (IsFlush (replaceNul w) → Closes n (replaceNul w) → ∃ cs,
      (document n w).read = .ok (elementTree n (replaceNul w) cs) ∧
        cs.map Node.kind = root.children.map Node.kind) := by
  have hsource := source_document (n := n) hbreak
  have hfresh := hfresh.replaceNul
  have hunclosed (hno : ¬ Closes n (replaceNul w)) : (document n w).read =
      .error ⟨.unclosedTag (String.ofList (Sign.opening (some n)).spell), some 1⟩ := by
    have hread := readSource_unclosed (closingRun?_eq_none hfresh hno)
    rw [cover_opener] at hread
    rw [Document.read, Document.events, hsource, hread]
    rfl
  have hcloses {tree : Node} (hread : (document n w).read = .ok tree) :
      Closes n (replaceNul w) := by
    refine Classical.not_not.mp fun hno => ?_
    cases (hunclosed hno).symm.trans hread
  refine ⟨fun tree hread => ?_, ⟨?_, ?_⟩, hunclosed, closes_of_marks hfresh, ?_⟩
  · have hc := hcloses hread
    obtain ⟨o, es, ho, hes⟩ := (isOk_read_iff hsource hc).mp ⟨tree, hread⟩
    obtain ⟨-, ns, hwalk⟩ := readInside_walk ho
    obtain ⟨cs, htree, -⟩ := read_closed hsource hc ho hes hwalk
    exact ⟨cs, Except.ok.inj (hread.symm.trans htree)⟩
  · rintro ⟨tree, hread⟩
    have hc := hcloses hread
    exact ⟨hc, (isOk_read_iff hsource hc).mp ⟨tree, hread⟩⟩
  · rintro ⟨hc, hinside⟩
    exact (isOk_read_iff hsource hc).mpr hinside
  · intro hflush hc
    obtain ⟨o, es, ns, ho, hes, hwalk, hkinds, hparagraphs⟩ := exists_prose hbreak hprose
    obtain ⟨o', es', ns', ho', hes', hwalk', hkinds'⟩ :=
      exists_readInside hflush ho hes hwalk hparagraphs n
    obtain ⟨cs, hread, hcs⟩ := read_closed hsource hc ho' hes' hwalk'
    exact ⟨cs, hread, hcs.trans (hkinds'.trans hkinds)⟩

/-- An element inside a line, a definition that only continues a paragraph, and a closing tag in
code. -/
theorem wrapped_prose_read_iff_lines : ∃ (n : Word) (w : List Char) (root : Node),
    IsProse w root ∧ n.wrap w = "<N>\na <b>c</b>\n[x]: y\n\n  d `</M>`\n</N>".toList ∧
      ∃ cs, (document n w).read = .ok (elementTree n w cs) ∧
        cs.map Node.kind = root.children.map Node.kind := by
  let n : Word := ⟨['N'], List.cons_ne_nil _ _, List.forall_mem_singleton.mpr rfl⟩
  let w : List Char := "a <b>c</b>\n[x]: y\n\n  d `</M>`".toList
  obtain ⟨root, hprose⟩ : ∃ root, IsProse w root := exists_isProse (by decide +kernel)
  obtain ⟨-, -, -, hcloses, hread⟩ := wrapped_prose_read_iff n w (by decide +kernel)
    ⟨by decide +kernel, by decide +kernel⟩ hprose
  exact ⟨n, w, root, hprose, rfl, hread (by decide +kernel) (hcloses (by decide +kernel))⟩

/-- A line that looks like the mark of fenced code keeps the closing tag from being found, and a
line that is less indented inside the element than in the text is read in another way. -/
theorem wrapped_prose_not_read : ∃ (n : Word) (w v : List Char),
    ('\r' ∉ w ∧ n.Fresh w ∧ ∃ root, IsProse w root) ∧
    ('\r' ∉ v ∧ n.Fresh v ∧ ∃ root, IsProse v root) ∧
    n.wrap w = "<N>\n```x```\n</N>".toList ∧
    (document n w).read = .error ⟨.unclosedTag "<N>", some 1⟩ ∧
    n.wrap v = "<N>\n  `a\n    </M>\n  b`\n</N>".toList ∧
    (document n v).read = .error ⟨.strayClosingTag "</M>", some 3⟩ := by
  let n : Word := ⟨['N'], List.cons_ne_nil _ _, List.forall_mem_singleton.mpr rfl⟩
  let w : List Char := "```x```".toList
  let v : List Char := "  `a\n    </M>\n  b`".toList
  refine ⟨n, w, v, ⟨by decide +kernel, ⟨by decide +kernel, by decide +kernel⟩,
    exists_isProse (by decide +kernel)⟩, ⟨by decide +kernel, ⟨by decide +kernel, by decide +kernel⟩,
    exists_isProse (by decide +kernel)⟩, rfl, ?_, rfl, ?_⟩
  · exact Document.read_of_error? (by decide +kernel)
  · exact Document.read_of_error? (by decide +kernel)

end MdxProse
