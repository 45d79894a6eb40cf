import Mathlib.Data.List.TakeWhile
import MdxProse.Proofs.ClosingLine
import MdxProse.Proofs.HiddenText
import MdxProse.Proofs.TextElements

/-!
# Deeply nested elements

Elements around a word, each tag on a line of its own, are read one level at a time.  Below the
level at which reading ends nothing is read any more: the last element that is read has no children,
so it does not count as prose, and its source is shown as code.

* `Text.nested`: the text of such a document.  `Region.Rows.closingRun?_nest`: the search for a
  closing tag passes over its rows.
* `Block.Nests`: the stream of the elements that are read with some levels left.
  `Nests.readBlock_element`: one step takes an element with what is inside it, and
  `Nests.of_readSource`: **the whole text is read as such a stream.**
* `Nests.shown`: **such a stream is shown as containers inside each other**, around the word if the
  levels suffice and around the source of the last element if they do not.
* `nested_elements_shown`: so are documents converted; **the word is prose if and only if the
  elements are fewer than the levels.**
-/

namespace MdxProse

/-! ### Words as text -/

namespace Word

variable (w : Word)

theorem exists_letters : ∃ c r, w.letters = c :: r ∧ c.isAlpha = true := by
  obtain ⟨c, r, hr⟩ := List.exists_cons_of_ne_nil w.ne_nil
  exact ⟨c, r, hr, w.isAlpha c (hr ▸ List.mem_cons_self)⟩

theorem trim_letters : Text.trim Text.isPadding w.letters = w.letters := by
  have hpadding {c : Char} (hc : c ∈ w.letters) : Text.isPadding c = false := by
    simpa using @Text.of_isAlpha (!Text.isPadding ·) (by decide +kernel) c (w.isAlpha c hc)
  have hfront : w.letters.dropWhile Text.isPadding = w.letters := by
    obtain ⟨c, r, hr⟩ := List.exists_cons_of_ne_nil w.ne_nil
    rw [hr, List.dropWhile_cons_of_neg (by simp [hpadding (hr ▸ List.mem_cons_self)])]
  obtain ⟨u, c, hu⟩ := (List.eq_nil_or_concat' w.letters).resolve_left w.ne_nil
  rw [Text.trim, hfront, hu]
  exact Text.trimEnd_of_last (hpadding (by rw [hu]; simp)) u

end Word

namespace Inline

theorem Progress.finish_addText {w : List Char} (memo : Memo) (h : w ≠ []) :
    ((start memo).addText w).finish = ([.atom (.text (String.ofList w))], memo) := by
  have hresolve (es : Array Event) : Delimiter.resolve [] es = es := by
    simp [Delimiter.resolve, Delimiter.pairs, Delimiter.roles]
  have hflush : ((start memo).addText w).flush =
      ⟨[], #[.atom (.text (String.ofList w))], [], memo⟩ := by
    simp [flush, addText, start, h]
  rw [finish, hflush, hresolve]

/-- **Characters that mean themselves are read as a text.** -/
theorem events_plain {src : Source} (h : ∀ c ∈ src.toList, isSpecial c = false) (hne : src ≠ #[])
    (definitions : List Block.Definition) :
    events definitions src = .ok [.atom (.text src.toString)] := by
  have hsize : src.size ≠ 0 := fun h0 => hne (Array.eq_empty_of_size_eq_zero h0)
  have hlt : 0 < src.size := Nat.pos_of_ne_zero hsize
  have hwindow : src.window 0 src.size = src.toList := by simp [Source.window]
  have hplain : plain? src 0 src.size = some ⟨.plain, src.size⟩ := by
    have hskip : src.skipWhile (!isSpecial ·) 0 src.size = src.size := by
      rw [Source.skipWhile, hwindow, List.takeWhile_eq_self_iff.mpr fun c hc => by simp [h c hc],
        Nat.zero_add, Array.length_toList]
    rw [plain?, hskip, if_neg hsize, if_neg (Nat.lt_irrefl _)]
  have hfirst : isSpecial src[0] = false := h _ (Array.getElem_mem_toList hlt)
  have hread (search : LabelSearch) (inner : Reader)
      (label : Source → Except SyntaxError (List Event)) (memo : Memo) :
      readFrom ⟨src, definitions⟩ search inner label src.size 0 (.start memo) =
        .ok ((Progress.start memo).addText src.toList) := by
    rw [readFrom, if_pos hlt, recognize_char (Array.getElem?_eq_getElem hlt) hfirst, hplain]
    simp only [pure_bind, hwindow]
    rw [readFrom, if_neg (by omega)]
    rfl
  rw [events]
  generalize (fun content : Source => if _h : content.size < src.size then
    Inline.events definitions content else .ok []) = label
  rw [maxDepth, read]
  dsimp only
  rw [hread]
  show Except.ok (joinTexts ((Progress.start (Memo.empty src)).addText src.toList).finish.1) = _
  rw [Progress.finish_addText _ (by simpa using hne)]
  rfl

/-- **A word is read as a text.** -/
theorem events_word (w : Word) (definitions : List Block.Definition) :
    events definitions (Source.ofString (String.ofList w.letters)) =
      .ok [.atom (.text (String.ofList w.letters))] := by
  have hsrc : (Source.ofString (String.ofList w.letters)).toList = w.letters := by
    simp [Source.ofString]
  have hne : Source.ofString (String.ofList w.letters) ≠ #[] := by
    intro hnil
    rw [hnil] at hsrc
    exact w.ne_nil hsrc.symm
  rw [events_plain (fun c hc => ?_) hne, Source.toString, hsrc]
  rw [hsrc] at hc
  exact Piece.isSpecial_eq_false (.inl (w.isAlpha c hc))

end Inline

/-! ### Nested rows -/

/-- A text inside `k` elements of one name, each tag on a line of its own. -/
def Text.nested (name w : List Char) (k : Nat) : List Char :=
  unlines (List.replicate k ('<' :: (name ++ ['>'])) ++
    w :: List.replicate k ('<' :: '/' :: (name ++ ['>'])))

theorem Text.unlines_concat {rows : List (List Char)} (h : rows ≠ []) (row : List Char) :
    unlines (rows ++ [row]) = unlines rows ++ '\n' :: row := by
  induction rows with
  | nil => exact absurd rfl h
  | cons first rows ih =>
    cases rows with
    | nil => rfl
    | cons second rows =>
      have hmore := ih (List.cons_ne_nil _ _)
      rw [List.cons_append, unlines_cons _ (by simp), hmore, unlines_cons _ (List.cons_ne_nil _ _),
        List.append_assoc, List.cons_append]

theorem Word.nested_succ (n : Word) (w : List Char) (k : Nat) :
    Text.nested n.letters w (k + 1) = n.wrap (Text.nested n.letters w k) := by
  have hrows (first last : List Char) : List.replicate (k + 1) first ++
      w :: List.replicate (k + 1) last =
        first :: ((List.replicate k first ++ w :: List.replicate k last) ++ [last]) := by
    rw [List.replicate_succ, List.replicate_succ']
    simp
  rw [Text.nested, hrows, Text.unlines_cons _ (by simp), Text.unlines_concat (by simp)]
  rfl

theorem Word.hasAt_of_wrap {n : Word} {w : List Char} {src : Source} {pos : Nat}
    (h : src.HasAt pos (n.wrap w)) :
    src.HasAt (pos + (Sign.opening (some n)).spell.length + 1) w := by
  rw [wrap, Source.hasAt_append, ← List.singleton_append, Source.hasAt_append] at h
  exact (Source.hasAt_append.mp h.2.2).1

theorem Word.length_wrap (n : Word) (w : List Char) : (n.wrap w).length =
    (Sign.opening (some n)).spell.length + 1 + w.length + 1 +
      (Sign.closing (some n)).spell.length := by
  simp only [wrap, List.length_append, List.length_cons]
  omega

namespace Block

variable {n : Word} {p : Prose} {r : Region} {i pos past k : Nat}

/-- A word as a line of text. -/
def Prose.ofWord (w : Word) (h : w.letters ∉ ["import".toList, "export".toList]) : Prose where
  chars := w.letters
  letters c hc := .inl (w.isAlpha c hc)
  first := by
    obtain ⟨c, r, hr, hc⟩ := w.exists_letters
    exact ⟨c, by rw [hr]; rfl, hc⟩
  word := by rwa [List.takeWhile_eq_self_iff.mpr w.isAlpha]

namespace Row

theorem width_eq {rows : List Row} (h : rows ≠ []) :
    width rows = (Text.unlines (rows.map spell)).length + 1 := by
  induction rows with
  | nil => exact absurd rfl h
  | cons row rows ih =>
    cases rows with
    | nil => rfl
    | cons row' rows =>
      have hmore : Text.unlines ((row :: row' :: rows).map spell) =
          row.spell ++ '\n' :: Text.unlines ((row' :: rows).map spell) := rfl
      rw [width, ih (List.cons_ne_nil _ _), hmore, List.length_append, List.length_cons]
      omega

/-- Opening tags, a line of text, and as many closing tags. -/
def nest (n : Word) (p : Prose) (k : Nat) : List Row :=
  List.replicate k (.tag (.opening (some n))) ++
    .text p :: List.replicate k (.tag (.closing (some n)))

theorem nest_succ (n : Word) (p : Prose) (k : Nat) : nest n p (k + 1) =
    .tag (.opening (some n)) :: (nest n p k ++ [.tag (.closing (some n))]) := by
  rw [nest, List.replicate_succ, List.replicate_succ']
  simp [nest]

theorem length_nest (n : Word) (p : Prose) (k : Nat) : (nest n p k).length = 2 * k + 1 := by
  simp only [nest, List.length_append, List.length_replicate, List.length_cons]
  omega

theorem unlines_nest (n : Word) (p : Prose) (k : Nat) :
    Text.unlines ((nest n p k).map spell) = Text.nested n.letters p.chars k := by
  simp only [nest, List.map_append, List.map_cons, List.map_replicate]
  rfl

theorem width_nest (n : Word) (p : Prose) (k : Nat) :
    width (nest n p k) = (Text.nested n.letters p.chars k).length + 1 := by
  rw [width_eq (by simp [nest]), unlines_nest]

theorem isBlank_nest {row : Row} (h : row ∈ nest n p k) : row.isBlank = false := by
  simp only [nest, List.mem_append, List.mem_replicate, List.mem_cons] at h
  rcases h with ⟨-, rfl⟩ | rfl | ⟨-, rfl⟩ <;> rfl

theorem nest_eq_cons (n : Word) (p : Prose) (k : Nat) :
    ∃ row rows, nest n p k = row :: rows ∧ row.isBlank = false := by
  cases k with
  | zero => exact ⟨_, _, rfl, rfl⟩
  | succ k => exact ⟨_, _, nest_succ n p k, rfl⟩

end Row

section Search

theorem findIn_opening (n : Word) (pos inner : Nat) :
    Element.findIn (Sign.opening (some n)).name? inner [(Sign.opening (some n)).tagAt pos] =
      .inr (inner + 1) := by
  simp [Element.findIn, Sign.tagAt, Sign.form]

theorem findIn_closing (n : Word) (pos inner : Nat) :
    Element.findIn (Sign.opening (some n)).name? (inner + 1) [(Sign.closing (some n)).tagAt pos] =
      .inr inner := by
  simp [Element.findIn, Sign.tagAt, Sign.form, Sign.name?]

theorem findIn_closing_zero (n : Word) (pos : Nat) :
    Element.findIn (Sign.opening (some n)).name? 0 [(Sign.closing (some n)).tagAt pos] =
      .inl ([], (Sign.closing (some n)).tagAt pos, []) := by
  simp [Element.findIn, Sign.tagAt, Sign.form, Sign.name?]

variable {rest : List Row} {s : Sign} {name : Option String} {inner inner' : Nat}

theorem Region.Rows.closingRun?_pass (h : r.Rows i pos (.tag s :: rest))
    (hpast : i + (Row.tag s :: rest).length = past)
    (hfind : Element.findIn name inner [s.tagAt pos] = .inr inner') :
    Element.closingRun? r name past inner none i =
      Element.closingRun? r name past inner' none (i + 1) := by
  obtain ⟨hle, hsize⟩ := h.limit_spec
  rw [hpast] at hle hsize
  rw [List.length_cons] at hpast
  exact h.1.closingRun?_pass (by omega) hle hsize hfind

theorem Region.Rows.closingRun?_found (h : r.Rows i pos (.tag s :: rest))
    (hpast : i + (Row.tag s :: rest).length = past)
    (hfind : Element.findIn name inner [s.tagAt pos] = .inl ([], s.tagAt pos, [])) :
    Element.closingRun? r name past inner none i =
      some ⟨i, [], s.tagAt pos, [], pos + s.spell.length⟩ := by
  obtain ⟨hle, hsize⟩ := h.limit_spec
  rw [hpast] at hle hsize
  rw [List.length_cons] at hpast
  exact h.1.closingRun?_found (by omega) hle hsize hfind

/-- **The search for a closing tag passes over nested rows.** -/
theorem Region.Rows.closingRun?_nest (h : r.Rows i pos (Row.nest n p k ++ rest))
    (hpast : i + (Row.nest n p k ++ rest).length = past) (inner : Nat) :
    Element.closingRun? r (Sign.opening (some n)).name? past inner none i =
      Element.closingRun? r (Sign.opening (some n)).name? past inner none (i + (2 * k + 1)) := by
  induction k generalizing i pos inner rest with
  | zero =>
    exact h.1.closingRun?_text (by simp [Row.nest] at hpast; omega) _ inner
  | succ k ih =>
    rw [Row.nest_succ, List.cons_append, List.append_assoc, List.singleton_append] at h hpast
    have hbelow := h.2.split.2
    have hlen := hpast
    simp only [List.length_cons, List.length_append, Row.length_nest] at hlen hbelow
    rw [h.closingRun?_pass hpast (findIn_opening n pos inner),
      ih h.2 (by simp [Row.length_nest]; omega),
      hbelow.closingRun?_pass (by rw [List.length_cons]; omega) (findIn_closing n _ inner)]
    congr 1
    omega

/-- **Rows between an opening tag and its partner on the last row are the inside of an element.** -/
theorem Region.Plain.readBlock_pair {rows : List Row}
    (h : r.Plain i pos past (.tag (.opening (some n)) :: (rows ++ [.tag (.closing (some n))])))
    (hsearch : Element.closingRun? r (Sign.opening (some n)).name? past 0 none (i + 1) =
      Element.closingRun? r (Sign.opening (some n)).name? past 0 none (i + 1 + rows.length))
    (one two : Reader) : readBlock one two r i past =
      (readInside one r (i + 1) (i + 1 + rows.length)).bind fun o => .ok ⟨Event.around
        (.flowElement (some (String.ofList n.letters)) ⟨pos, pos +
          ((Sign.opening (some n)).spell.length + 1 + Row.width rows +
            (Sign.closing (some n)).spell.length)⟩) (some ⟨i, past⟩) o.events,
        o.definitions, past⟩ := by
  have hlast := h.tail.split
  have hpast : i + 1 + rows.length + 1 = past := hlast.past_eq
  rw [hlast.shown.closingRun?_found hlast.past_eq (findIn_closing_zero n _)] at hsearch
  have hend := hlast.shown.1.line_stop
  have hreach : r.lineReaching (pos + (Sign.opening (some n)).spell.length) i = i :=
    Region.lineReaching_self (Nat.le_of_eq h.shown.1.line_stop.symm)
  have hread : readBlock one two r i past = Element.read one r i past
      (.open_ ((Sign.opening (some n)).tagAt pos) (pos + (Sign.opening (some n)).spell.length)) :=
    h.readBlock_tag (by simp [Element.Shape.ofRun?, Sign.tagAt, Sign.form]) _ _
  rw [Element.read, hreach] at hread
  rw [show ((Sign.opening (some n)).tagAt pos).name = (Sign.opening (some n)).name? from rfl,
    hsearch] at hread
  refine hread.trans ((readClosed_eq _ _ _ (hend ▸ Nat.le_add_right _ _)
    (Nat.le_of_eq hend.symm) _).trans ?_)
  rw [hpast]
  simp only [List.append_nil, Sign.tagAt, Row.spell, Nat.add_assoc]
  rfl

end Search

/-! ### Nested streams -/

/-- The stream tells of `k` elements around a text, or of those that are read with `room` levels
left. -/
inductive Nests (src : Source) (n : Word) (w : List Char) : (room k : Nat) → List Event → Prop
  | dropped {k : Nat} : Nests src n w 0 k []
  | text {room i : Nat} : Nests src n w (room + 1) 0 (Event.around (.paragraph false)
      (some ⟨i, i + 1⟩) [.running (String.ofList w) ⟨i, i + 1⟩])
  | element {room k pos : Nat} {l : Option LineRange} {es : List Event} :
      src.HasAt pos (Text.nested n.letters w (k + 1)) → Nests src n w room k es →
      Nests src n w (room + 1) (k + 1) (Event.around (.flowElement (some (String.ofList n.letters))
        ⟨pos, pos + (Text.nested n.letters w (k + 1)).length⟩) l es)

section Reading

variable {w : Word} {hw : w.letters ∉ ["import".toList, "export".toList]}

/-- What is read inside an element, with some levels left, is such a stream. -/
def Nests.Inside (n w : Word) (hw : w.letters ∉ ["import".toList, "export".toList])
    (room : Nat) : Prop :=
  ∀ {r : Region} {i pos past k : Nat}, r.Rows i pos (Row.nest n (.ofWord w hw) k) →
    i + (Row.nest n (.ofWord w hw) k).length = past → r.src.has '-' 0 = false →
    r.src.HasAt pos (Text.nested n.letters w.letters k) →
    ∃ o, readInside (read room) r i past = .ok o ∧ o.definitions = [] ∧
      Nests r.src n w.letters room k o.events

theorem Nests.readBlock_text (h : r.Plain i pos past (Row.nest n (.ofWord w hw) 0)) (room : Nat)
    (one two : Reader) : ∃ o, readBlock one two r i past = .ok o ∧ o.next = past ∧
      o.definitions = [] ∧ Nests r.src n w.letters (room + 1) 0 o.events := by
  obtain ⟨texts, below, -, -, -, hblock, -⟩ := Region.Plain.paragraph h one two
  obtain ⟨c, u, hu, -, -, hholds⟩ := h.shown.1.text_holds
  have hpast := h.past_eq
  rw [Row.length_nest] at hpast
  have hchars : w.letters = c :: u := hu
  have hparagraph := hholds.paragraph h.indent (h.height.trans hpast.symm)
  rw [← hchars, w.trim_letters] at hparagraph
  rw [hparagraph] at hblock
  exact ⟨_, hblock, hpast, rfl, .text⟩

/-- **An element is read with what is inside it.** -/
theorem Nests.readBlock_element {room : Nat} (hinside : Nests.Inside n w hw room)
    (h : r.Plain i pos past (Row.nest n (.ofWord w hw) (k + 1)))
    (hat : r.src.HasAt pos (Text.nested n.letters w.letters (k + 1))) (two : Reader) :
    ∃ o, readBlock (read room) two r i past = .ok o ∧ o.next = past ∧ o.definitions = [] ∧
      Nests r.src n w.letters (room + 1) (k + 1) o.events := by
  rw [Row.nest_succ] at h
  have hsearch := h.tail.shown.closingRun?_nest h.tail.past_eq 0
  rw [← Row.length_nest n (.ofWord w hw) k] at hsearch
  have hread := h.readBlock_pair hsearch (read room) two
  obtain ⟨o, ho, hdefinitions, hnests⟩ := hinside h.tail.shown.split.1 rfl h.dash
    (Word.hasAt_of_wrap (n.nested_succ _ k ▸ hat))
  rw [ho] at hread
  refine ⟨_, hread, rfl, hdefinitions, ?_⟩
  have hlength : (Sign.opening (some n)).spell.length + 1 +
      Row.width (Row.nest n (.ofWord w hw) k) + (Sign.closing (some n)).spell.length =
        (Text.nested n.letters w.letters (k + 1)).length := by
    rw [n.nested_succ, n.length_wrap, Row.width_nest]
    rfl
  rw [hlength]
  exact .element hat hnests

/-- **Nested rows are read as such a stream**, if what is inside an element is. -/
theorem Nests.of_readBlocks {room : Nat} (hinside : Nests.Inside n w hw room)
    (h : r.Plain i pos past (Row.nest n (.ofWord w hw) k))
    (hat : r.src.HasAt pos (Text.nested n.letters w.letters k)) (two : Reader)
    (blank tight : Bool) :
    ∃ o tight', readBlocks (readBlock (read room) two) r past blank tight i = .ok ⟨o, tight'⟩ ∧
      o.definitions = [] ∧ Nests r.src n w.letters (room + 1) k o.events := by
  have hblock : ∃ o, readBlock (read room) two r i past = .ok o ∧ o.next = past ∧
      o.definitions = [] ∧ Nests r.src n w.letters (room + 1) k o.events := by
    cases k with
    | zero => exact readBlock_text h room _ _
    | succ k => exact readBlock_element hinside h hat two
  obtain ⟨o, ho, hnext, hdefinitions, hnests⟩ := hblock
  obtain ⟨row, rows, hrows, hrow⟩ := Row.nest_eq_cons n (.ofWord w hw) k
  have hskip := h.shown.skipEmpty (h.past_eq.trans h.height.symm)
  rw [hrows] at h hskip
  rw [List.takeWhile_cons_of_neg (by simp [hrow])] at hskip
  change r.skipEmpty i = i at hskip
  obtain ⟨c, u, hholds, -⟩ := h.shown.1.exists_holds hrow
  have hindent : r.indent = (r.line i).indent := h.indent.trans hholds.indent.symm
  have hread := @readBlocks_only (readBlock (read room) two) r past i
  rw [hskip] at hread
  obtain ⟨tight', hread⟩ := hread h.lt (Int.le_of_eq hindent) ho hnext blank tight
  exact ⟨o, tight', hread, hdefinitions, hnests⟩

/-- **What is inside an element is read as such a stream**, with each number of levels left. -/
theorem Nests.inside (n w : Word) (hw : w.letters ∉ ["import".toList, "export".toList])
    (room : Nat) : Nests.Inside n w hw room := by
  induction room with
  | zero =>
    intro r i pos past k h hpast hdash hat
    rw [readInside, read]
    cases Element.leastIndent? r i past with
    | none => exact ⟨_, rfl, rfl, .dropped⟩
    | some indent => exact ⟨_, rfl, rfl, .dropped⟩
  | succ room ih =>
    intro r i pos past k h hpast hdash hat
    obtain ⟨two, hread⟩ := read_succ room
    have hplain : Region.Plain { r with height := past, indent := 0, isTop := false } i pos past
        (Row.nest n (.ofWord w hw) k) := ⟨h.of_eq rfl rfl, hpast, rfl, rfl, hdash⟩
    obtain ⟨o, tight, ho, hdefinitions, hnests⟩ :=
      Nests.of_readBlocks ih hplain hat two false true
    have hsome : Element.leastIndent? r i past = some 0 := by
      obtain ⟨row, rows, hrows, hrow⟩ := Row.nest_eq_cons n (.ofWord w hw) k
      rw [h.leastIndent? hpast, hrows, Row.isEmpty_items hrow]
      rfl
    refine ⟨o, ?_, hdefinitions, hnests⟩
    rw [readInside, hsome, hread]
    dsimp only
    rw [ho]
    rfl

/-- **The blocks of nested rows are read as such a stream.** -/
theorem Nests.of_readSource {src : Source} (hsrc : src.toList = Text.nested n.letters w.letters k)
    (hw : w.letters ∉ ["import".toList, "export".toList]) : ∃ o, readSource src = .ok o ∧
      o.definitions = [] ∧ Nests src n w.letters maxDepth k o.events := by
  have hrows : src.toList = Text.unlines ((Row.nest n (.ofWord w hw) k).map Row.spell) :=
    hsrc.trans (Row.unlines_nest n (.ofWord w hw) k).symm
  obtain ⟨rows, blanks, hsplit, hblanks, hplain⟩ := Row.exists_plain hrows
  obtain rfl : blanks = [] := by
    apply List.eq_nil_iff_forall_not_mem.mpr
    intro row hrow
    have hmem : row ∈ Row.nest n (.ofWord w hw) k := by
      rw [hsplit]
      exact List.mem_append_right rows hrow
    have hblank := Row.isBlank_nest hmem
    rw [hblanks row hrow] at hblank
    cases hblank
  rw [List.append_nil] at hsplit
  subst hsplit
  have hat : src.HasAt 0 (Text.nested n.letters w.letters k) := Source.hasAt_of_toList_eq hsrc
  obtain ⟨o, tight, ho, hdefinitions, hnests⟩ :=
    Nests.of_readBlocks (Nests.inside n w hw 19) hplain hat (read 18) false true
  refine ⟨o, ?_, hdefinitions, hnests⟩
  have hread : readSource src = (readBlocks (readBlock (read 19) (read 18)) (Region.ofSource src)
      (Region.ofSource src).height false true 0).bind fun c => .ok c.toOutcome := rfl
  rw [hread, ho]
  rfl

end Reading

end Block

/-! ### Nested containers -/

namespace Embedded

variable {d : Document} {names : List String} {name : String} {s : Span} {l : Option LineRange}

theorem sourceOf_of_le {n : Node} (hs : n.kind.span? = some s) (hle : s.start ≤ s.stop) :
    sourceOf d n = .ok (d.source.cover s) := by
  have hsource : sourceOf d n = sourceBetween d n.type.name (some (s.start : Int))
      (some (s.stop : Int)) := by
    rw [sourceOf, hs]
    rfl
  rw [hsource, sourceBetween, Span.ofInts, if_neg (Int.not_lt.mpr (Int.natCast_nonneg _)),
    if_neg (by omega)]
  rfl

theorem render_unwrapped {cs : List Node} {x : Rendered} (hle : s.start ≤ s.stop)
    (hname : name ∈ names) (hcs : cs ≠ [])
    (hx : Rendering.join (Node.renderEach (handlers d (some names)) cs) = .ok x) :
    Node.render (handlers d (some names)) (.mk (.flowElement (some name) s) l cs) =
      .ok ⟨[.element "div" [("class", flowElement.cssClass), ("data-component", name)] x.nodes],
        .unwrapped name flowElement.marker :: x.decisions⟩ := by
  have hprose : unwrapped? (some names) (.mk (.flowElement (some name) s) l cs) = some name :=
    unwrapped?_eq_some_iff.mpr ⟨names, rfl, rfl, hname, hcs⟩
  have hrender : Node.render (handlers d (some names)) (.mk (.flowElement (some name) s) l cs) =
      handleElement d (some names) flowElement (.mk (.flowElement (some name) s) l cs)
        (Rendering.join (Node.renderEach (handlers d (some names)) cs)) := by
    rw [Node.render]
    rfl
  rw [hrender, handleElement, sourceOf_of_le rfl hle, hprose, hx]
  rfl

theorem render_childless {components : Option (List String)} (hle : s.start ≤ s.stop) :
    Node.render (handlers d components) (.mk (.flowElement (some name) s) l []) =
      .ok ⟨escapeAsCode (d.source.cover s) flowElement, [.escaped name flowElement.marker]⟩ := by
  have hprose : unwrapped? components (.mk (.flowElement (some name) s) l []) = none := by
    cases components <;> rfl
  have hrender : Node.render (handlers d components) (.mk (.flowElement (some name) s) l []) =
      handleElement d components flowElement (.mk (.flowElement (some name) s) l [])
        (Rendering.join (Node.renderEach (handlers d components) [])) := by
    rw [Node.render]
    rfl
  rw [hrender, handleElement, sourceOf_of_le rfl hle, hprose]
  rfl

end Embedded

namespace Html

/-- The containers of elements that hold prose, inside each other, around a node. -/
def contain (name : String) (x : Html) : Nat → Html
  | 0 => x
  | k + 1 => .element "div"
      [("class", Embedded.flowElement.cssClass), ("data-component", name)] [contain name x k]

/-- What is shown of a word in `k` elements that hold no prose: the source of the elements, or the
word if there are none. -/
def innermost (name w : List Char) (k : Nat) : Html :=
  if k = 0 then .element "p" [] [.text (String.ofList w)]
  else Rendering.codeBlock [("class", Embedded.flowElement.cssClass)]
    (String.ofList (Text.nested name w k))

end Html

theorem Node.join_single {hs : Handlers} {n : Node} {x : Rendered} (h : n.render hs = .ok x) :
    Rendering.join (renderEach hs [n]) = .ok x := by
  rw [renderEach, Rendering.join, h]
  show Except.ok (x.append (.plain [])) = _
  simp [Rendered.append, Rendered.plain]

namespace Block.Nests

variable {n w : Word} {d : Document} {names : List String} {k : Nat} {es : List Event}

/-- What such a stream is rendered to. -/
def Shown (d : Document) (names : List String) (es : List Event) (x : Html) : Prop :=
  ∃ es' ns decisions, es.mapM (Document.fill (Anchor.lines d.source) []) = .ok es' ∧
    Walk es' ns ∧ ns ≠ [] ∧
    Rendering.join (Node.renderEach (Embedded.handlers d (some names)) ns) = .ok ⟨[x], decisions⟩

theorem shown_text (n w : Word) (d : Document) (names : List String) (i : Nat) :
    Shown d names (Event.around (.paragraph false) (some ⟨i, i + 1⟩)
      [.running (String.ofList w.letters) ⟨i, i + 1⟩]) (Html.innermost n.letters w.letters 0) := by
  have hfill : [Event.running (String.ofList w.letters) ⟨i, i + 1⟩].mapM
      (Document.fill (Anchor.lines d.source) []) = .ok [.leaf (.inline (String.ofList w.letters))
        (some ⟨i, i + 1⟩) [.atom (.text (String.ofList w.letters))]] := by
    rw [List.mapM_cons, Event.running, Document.fill, Inline.events_word]
    rfl
  have hwalk : Walk [.leaf (.inline (String.ofList w.letters)) (some ⟨i, i + 1⟩)
      [.atom (.text (String.ofList w.letters))]] [.mk (.inline (String.ofList w.letters))
        (some ⟨i, i + 1⟩) [.mk (.text (String.ofList w.letters)) none []]] :=
    .leaf (Walk.atom _ _).ofEvents? .nil
  exact ⟨_, _, [], Traces.fill_single hfill, hwalk.single, List.cons_ne_nil _ _, rfl⟩

/-- An element of which nothing more is read is shown by its source. -/
theorem shown_childless {pos : Nat}
    (hat : d.source.HasAt pos (Text.nested n.letters w.letters (k + 1)))
    (l : Option LineRange) : Shown d names
      (Event.around (.flowElement (some (String.ofList n.letters))
        ⟨pos, pos + (Text.nested n.letters w.letters (k + 1)).length⟩) l [])
      (Html.innermost n.letters w.letters (k + 1)) := by
  have hcover : d.source.cover ⟨pos, pos + (Text.nested n.letters w.letters (k + 1)).length⟩ =
      String.ofList (Text.nested n.letters w.letters (k + 1)) := by
    rw [Source.cover, Source.slice, hat.window_eq]
  have hbreak : '\n' ∈ Text.nested n.letters w.letters (k + 1) := by
    simp [Word.nested_succ, Word.wrap]
  have hrender := @Embedded.render_childless d (String.ofList n.letters)
    ⟨pos, pos + (Text.nested n.letters w.letters (k + 1)).length⟩ l (some names)
    (Nat.le_add_right _ _)
  rw [hcover, Embedded.escapeAsCode, if_pos (by simpa using hbreak)] at hrender
  exact ⟨_, _, _, Traces.fill_single rfl, Walk.nil.single, List.cons_ne_nil _ _,
    Node.join_single hrender⟩

theorem Shown.element {x : Html} (h : Shown d names es x)
    (hname : String.ofList n.letters ∈ names) {s : Span} (hle : s.start ≤ s.stop)
    (l : Option LineRange) :
    Shown d names (Event.around (.flowElement (some (String.ofList n.letters)) s) l es)
      (.contain (String.ofList n.letters) x 1) := by
  obtain ⟨es', ns, decisions, hes, hwalk, hne, hx⟩ := h
  exact ⟨_, _, _, Traces.fill_single hes, hwalk.single, List.cons_ne_nil _ _,
    Node.join_single (Embedded.render_unwrapped hle hname hne hx)⟩

/-- **Nested elements are shown as containers inside each other**, one for each element that has
something read inside it. -/
theorem shown {room : Nat} (hname : String.ofList n.letters ∈ names)
    (h : Nests d.source n w.letters (room + 1) k es) :
    Shown d names es (Html.contain (String.ofList n.letters)
      (Html.innermost n.letters w.letters (k - room)) (min k room)) := by
  induction room generalizing k es with
  | zero =>
    cases h with
    | text => exact shown_text n w d names _
    | element hat h =>
      cases h
      exact shown_childless hat _
  | succ room ih =>
    cases h with
    | text =>
      rw [Nat.zero_sub, Nat.zero_min]
      exact shown_text n w d names _
    | @element _ k _ _ _ hat h =>
      rw [Nat.succ_sub_succ, Nat.succ_min_succ]
      exact (ih h).element hname (Nat.le_add_right _ _) _

end Block.Nests

/-! ### The conversion -/

namespace Framework

theorem governing?_name (f : Framework) (text : List Char) :
    governing? text (some f.name) = some f := by
  have hname : f.name.isEmpty = false ∧ ofName? f.name = some f := by
    cases f <;> decide +kernel
  rw [governing?, choices]
  simp only [hname.1, hname.2]
  rfl

theorem exists_word (f : Framework) {name : String} (h : name ∈ f.components) :
    ∃ n : Word, n.letters = name.toList := by
  have hall : f.components.all (fun s => !s.toList.isEmpty && s.toList.all Char.isAlpha) =
      true := by
    cases f <;> decide +kernel
  have hname := List.all_eq_true.mp hall name h
  rw [Bool.and_eq_true, Bool.not_eq_true', List.isEmpty_eq_false_iff] at hname
  exact ⟨⟨name.toList, hname.1, List.all_eq_true.mp hname.2⟩, rfl⟩

end Framework

namespace Html

theorem contain_add (name : String) (x : Html) (j k : Nat) :
    contain name x (j + k) = contain name (contain name x j) k := by
  induction k with
  | zero => rfl
  | succ k ih => rw [Nat.add_succ, contain, ih, contain]

theorem write_contain_succ (name : String) : ∃ u v : List Char, ∀ (x : Html) (k : Nat),
    (write (contain name x (k + 1))).toList =
      "<div".toList ++ (u ++ ((write (contain name x k)).toList ++ v)) := by
  refine ⟨(writeAttributes [("class", Embedded.flowElement.cssClass),
    ("data-component", name)]).toList ++ ['>'], "</div>".toList, fun x k => ?_⟩
  rw [contain, write]
  simp [isVoid, writeAll]

theorem write_contain_inj {name : String} {x y : Html} {k : Nat}
    (h : write (contain name x k) = write (contain name y k)) : write x = write y := by
  obtain ⟨u, v, hwrite⟩ := write_contain_succ name
  induction k with
  | zero => exact h
  | succ k ih =>
    have hlist := congrArg String.toList h
    rw [hwrite, hwrite] at hlist
    have hinside := List.append_cancel_left (List.append_cancel_left hlist)
    exact ih (String.toList_inj.mp (List.append_cancel_right hinside))

theorem write_contain_ne (name : String) (x : Html) (k : Nat)
    (attributes : List (String × String)) (content : String) :
    write (contain name x (k + 1)) ≠ write (Rendering.codeBlock attributes content) := by
  obtain ⟨u, v, hwrite⟩ := write_contain_succ name
  intro h
  have hlist := congrArg String.toList h
  rw [hwrite, Rendering.codeBlock, write] at hlist
  simp [isVoid, writeAttributes] at hlist

/-- What nested elements are shown as is the word in all their containers if and only if they are
fewer than the levels. -/
theorem write_contain_eq_iff (name : String) (w : List Char) (k : Nat) :
    write (contain name (innermost name.toList w (k - (maxDepth - 1))) (min k (maxDepth - 1))) =
      write (contain name (.element "p" [] [.text (String.ofList w)]) k) ↔ k < maxDepth := by
  constructor
  · intro h
    -- otherwise code is written where another container should be
    by_contra hlt
    obtain ⟨j, rfl⟩ := Nat.exists_eq_add_of_le (Nat.not_lt.mp hlt)
    have hdepth : maxDepth + j = (j + 1) + (maxDepth - 1) := by
      rw [maxDepth]
      omega
    rw [hdepth, Nat.add_sub_cancel, Nat.min_eq_right (Nat.le_add_left _ _), contain_add] at h
    exact write_contain_ne _ _ _ _ _ (write_contain_inj h).symm
  · intro h
    have hle : k ≤ maxDepth - 1 := Nat.le_pred_of_lt h
    rw [Nat.sub_eq_zero_of_le hle, Nat.min_eq_left hle]
    rfl

end Html

/-- **The tree of nested elements is rendered as their stream is.** -/
theorem Document.render_nested (n w : Word)
    (hw : w.letters ∉ ["import".toList, "export".toList]) {d : Document} {k : Nat}
    (hd : d.source.toList = Text.nested n.letters w.letters k) {names : List String}
    (hname : String.ofList n.letters ∈ names) :
    ∃ decisions, d.render (some names) = .ok ⟨[Html.contain (String.ofList n.letters)
      (Html.innermost n.letters w.letters (k - (maxDepth - 1))) (min k (maxDepth - 1))],
        decisions⟩ := by
  obtain ⟨o, ho, hdefinitions, hnests⟩ := Block.Nests.of_readSource hd hw
  obtain ⟨es, ns, decisions, hes, hwalk, -, hrender⟩ := Block.Nests.shown hname hnests
  have hread : d.read = .ok (.mk .root none ns) := by
    have hevents : d.events = .ok es := by
      rw [events, ho]
      show o.events.mapM (fill (Anchor.lines d.source) o.definitions) = _
      rw [hdefinitions, hes]
    rw [read, hevents]
    show Except.ok (Node.mk .root none ((Node.ofEvents? es).getD [])) = _
    rw [hwalk.ofEvents?]
    rfl
  refine ⟨decisions, ?_⟩
  rw [render, hread]
  show ((Node.mk .root none ns).renderRoot _).mapError ConversionError.unrenderable = _
  rw [Node.renderRoot]
  show ((Rendering.join (Node.renderEach _ ns)) >>= _).mapError ConversionError.unrenderable = _
  rw [hrender]
  rfl

/-- Nested elements are converted to containers, one less than there are levels. -/
theorem convert_nested (f : Framework) {name : String} (hname : name ∈ f.components) (w : Word)
    (hw : w.letters ∉ ["import".toList, "export".toList]) (k : Nat) (settings : Settings) :
    (convert (String.ofList (Text.nested name.toList w.letters k)) (some f.name) settings).html =
      .ok (Html.write (Html.contain name
        (Html.innermost name.toList w.letters (k - (maxDepth - 1))) (min k (maxDepth - 1)))) := by
  obtain ⟨n, hn⟩ := f.exists_word hname
  have hname' : String.ofList n.letters = name := by
    rw [hn, String.ofList_toList]
  rw [← hn]
  have hsource := Block.Row.source_document (Block.Row.nest n (.ofWord w hw) k)
  rw [Block.Row.document, Block.Row.unlines_nest] at hsource
  obtain ⟨decisions, hrender⟩ :=
    Document.render_nested n w hw hsource (hname'.symm ▸ hname)
  have hcomponents : (Document.ofString (String.ofList
      (Text.nested n.letters w.letters k))).components?
        ((some f.name).or settings.framework) = some f.components := by
    rw [Document.components?, Option.some_or, Framework.governing?_name]
    rfl
  rw [convert, Document.convert]
  dsimp only
  rw [hcomponents]
  have hrender : (Document.ofString (String.ofList (Text.nested n.letters w.letters k))).render
      (some f.components) = _ := hrender
  rw [hrender, hname']
  dsimp only
  rw [Html.writeAll, Html.writeAll, String.append_empty]

/-- **Elements around a word are shown as containers inside each other, but one less than there are
levels.**  The containers are around the word if they are all; otherwise they are around the source
of the elements inside them, so that the word is not prose. -/
theorem nested_elements_shown (f : Framework) {name : String} (hname : name ∈ f.components)
    (w : Word) (hw : w.letters ∉ ["import".toList, "export".toList]) (k : Nat)
    (settings : Settings) :
    (convert (String.ofList (Text.nested name.toList w.letters k)) (some f.name) settings).html =
      .ok (Html.write (Html.contain name
        (Html.innermost name.toList w.letters (k - (maxDepth - 1))) (min k (maxDepth - 1)))) ∧
    ((convert (String.ofList (Text.nested name.toList w.letters k)) (some f.name) settings).html =
      .ok (Html.write (Html.contain name (.element "p" [] [.text (String.ofList w.letters)]) k)) ↔
        k < maxDepth) := by
  have hhtml := convert_nested f hname w hw k settings
  refine ⟨hhtml, ?_⟩
  rw [hhtml, Except.ok.injEq]
  exact Html.write_contain_eq_iff name w.letters k

/-- Two elements around a word. -/
theorem nested_elements_shown_twice : "Aside" ∈ Framework.starlight.components ∧
    ['w'] ∉ ["import".toList, "export".toList] ∧
    (convert "<Aside>\n<Aside>\nw\n</Aside>\n</Aside>" (some "starlight")
      ⟨none, "WARNING"⟩).html = .ok (Html.write (Html.contain "Aside"
        (.element "p" [] [.text "w"]) 2)) := by
  have hname : "Aside" ∈ Framework.starlight.components := by decide
  let w : Word := ⟨['w'], List.cons_ne_nil _ _, List.forall_mem_singleton.mpr rfl⟩
  have hw : w.letters ∉ ["import".toList, "export".toList] := by decide
  exact ⟨hname, hw, (nested_elements_shown .starlight hname w hw 2 ⟨none, "WARNING"⟩).2.mpr
    (by decide)⟩

/-- Twenty elements around a word: the last one is shown as code. -/
theorem nested_elements_dropped : ∃ html : String,
    (convert (String.ofList (Text.nested "Aside".toList ['w'] 20)) (some "starlight")
      ⟨none, "WARNING"⟩).html = .ok html ∧
    html = Html.write (Html.contain "Aside" (Rendering.codeBlock
      [("class", "mdxNode mdxJsxFlowElement")] "<Aside>\nw\n</Aside>") 19) ∧
    html ≠ Html.write (Html.contain "Aside" (.element "p" [] [.text "w"]) 20) := by
  let w : Word := ⟨['w'], List.cons_ne_nil _ _, List.forall_mem_singleton.mpr rfl⟩
  have hhtml := convert_nested .starlight (by decide : "Aside" ∈ Framework.starlight.components) w
    (by decide) 20 ⟨none, "WARNING"⟩
  refine ⟨_, hhtml, rfl, fun h => ?_⟩
  exact absurd ((Html.write_contain_eq_iff "Aside" w.letters 20).mp h) (by decide)

end MdxProse
