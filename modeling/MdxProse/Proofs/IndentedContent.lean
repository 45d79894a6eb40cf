import MdxProse.Proofs.AlikeBlocks
import MdxProse.Proofs.MarkedLines
import MdxProse.Proofs.Unplaced
import MdxProse.Proofs.WrappedProse

/-!
# Indentation inside an element

What stands between two lines of tags is read relative to its least indented line.  So the text may
be indented by any number of spaces, where it holds no tags, expressions, quotes and mathematics.

* `Wrapping.carrying`: how the lines of the text stand in the indented text.
* `Wrapping.inside_alike`: the regions inside the two elements are alike.
* `Wrapping.closes_indented`: the closing tag is found in both documents or in none.
* `Wrapping.readInside_indented`: **the same is read inside both elements.**
* `indentation_irrelevant`: **the trees are the same, but for where the element ends**, or the same
  error is raised.
-/

namespace MdxProse

/-- The text holds nothing that keeps track of columns or starts embedded code. -/
def Text.IsFree (w : List Char) : Prop :=
  ∀ c ∈ ['\t', '\r', '\x7b', '<', '>', '$'], c ∉ w

theorem Text.IsFree.replaceNul {w : List Char} (h : IsFree w) : IsFree (replaceNul w) := by
  intro c hc
  refine notMem_replaceNul ?_ (h c hc)
  rintro rfl
  exact absurd hc (by decide)

theorem Text.IsFree.fresh {w : List Char} (h : IsFree w) (n : Word) : n.Fresh w := by
  have hno : '<' ∉ w := h '<' (by decide)
  exact ⟨fun hin => hno (hin.subset List.mem_cons_self),
    fun hin => hno (hin.subset List.mem_cons_self)⟩

namespace Block.Wrapping

variable {n : Word} {w : List Char}

/-- A text with spaces in front of each line. -/
def indented (k : Nat) (w : List Char) : List Char :=
  Text.markLines (List.replicate k ' ') w

theorem isFree_indented (h : Text.IsFree w) (k : Nat) : Text.IsFree (indented k w) := by
  intro c hc hmem
  rcases Text.mem_markLines hmem with hmem | hmem
  · obtain rfl := List.eq_of_mem_replicate hmem
    exact absurd hc (by decide)
  · exact h c hc hmem

theorem replaceNul_indented (k : Nat) (w : List Char) :
    replaceNul (indented k w) = indented k (replaceNul w) := by
  refine Text.replaceNul_markLines (fun hmem => ?_) w
  cases List.eq_of_mem_replicate hmem

theorem length_indented (k : Nat) (w : List Char) :
    (indented k w).length = Text.carry k w w.length + k := by
  have hall := Text.length_markLines (List.replicate k ' ') w
  rwa [List.length_replicate] at hall

theorem getElem?_indented (k : Nat) {q : Nat} (hq : q ≤ w.length) :
    (indented k w)[Text.carry k w q + k]? = w[q]? := by
  have hmark := Text.getElem?_markLines (List.replicate k ' ') hq
  rwa [List.length_replicate] at hmark

theorem wrap_eq (n : Word) (w : List Char) : n.wrap w =
    ((Sign.opening (some n)).spell ++ ['\n']) ++ (w ++ '\n' :: (Sign.closing (some n)).spell) := by
  rw [Word.wrap, List.append_assoc]
  rfl

theorem length_opening (n : Word) :
    ((Sign.opening (some n)).spell ++ ['\n']).length = textStart n := by
  rw [List.length_append, textStart]
  rfl

theorem getElem?_source (n : Word) (w : List Char) (p : Nat) :
    (source n w)[p]? = (n.wrap w)[p]? := by
  rw [source, List.getElem?_toArray]

/-- An offset of the text is moved on by the spaces of its line and of all lines before. -/
theorem carry_wrap (k : Nat) {q : Nat} (hq : q ≤ w.length) :
    Text.carry k (n.wrap w) (textStart n + q) = textStart n + (Text.carry k w q + k) := by
  have hone : ((Sign.opening (some n)).spell ++ ['\n']).count '\n' = 1 := by
    have hno : '\n' ∉ (Sign.opening (some n)).spell := Row.noBreak (.tag (.opening (some n)))
    rw [List.count_append, List.count_eq_zero_of_not_mem hno]
    rfl
  rw [wrap_eq, ← length_opening n, Text.carry_append, Text.carry_append_left hq, hone]
  omega

theorem getElem?_source_indented (k : Nat) {p : Nat} (hp : textStart n ≤ p)
    (hle : p ≤ textStart n + w.length) :
    (source n (indented k w))[Text.carry k (n.wrap w) p]? = (source n w)[p]? := by
  obtain ⟨q, rfl⟩ := Nat.exists_eq_add_of_le hp
  have hq : q ≤ w.length := by omega
  have hall := length_indented k w
  rw [getElem?_source, getElem?_source, carry_wrap k hq, wrap_eq, wrap_eq, ← length_opening n,
    List.getElem?_append_right (Nat.le_add_right _ _), Nat.add_sub_cancel_left,
    List.getElem?_append_right (Nat.le_add_right _ _), Nat.add_sub_cancel_left]
  rcases Nat.lt_or_eq_of_le hq with hlt | rfl
  · have hlt' := Text.carry_strictMono k w hlt
    rw [List.getElem?_append_left (by omega), getElem?_indented k hq, List.getElem?_append_left hlt]
  · rw [← hall, List.getElem?_append_right (Nat.le_refl _), Nat.sub_self,
      List.getElem?_append_right (Nat.le_refl _), Nat.sub_self]

theorem mem_wrap {c : Char} (h : c ∈ n.wrap w) :
    c.isAlpha = true ∨ c ∈ ['<', '/', '>', '\n'] ∨ c ∈ w := by
  have hspell {s : Sign} (h : c ∈ s.spell) : c.isAlpha = true ∨ c ∈ ['<', '/', '>', '\n'] := by
    rcases Sign.of_mem_spell h with h | rfl | rfl | rfl
    · exact .inl h
    · exact .inr (by decide)
    · exact .inr (by decide)
    · exact .inr (by decide)
  rw [Word.wrap, List.mem_append, List.mem_cons, List.mem_append, List.mem_cons] at h
  rcases h with h | rfl | h | rfl | h
  · exact (hspell h).imp id .inl
  · exact .inr (.inl (by decide))
  · exact .inr (.inr h)
  · exact .inr (.inl (by decide))
  · exact (hspell h).imp id .inl

theorem noTab_wrap (h : '\t' ∉ w) (n : Word) (p : Nat) : (source n w)[p]? ≠ some '\t' := by
  intro hc
  rw [getElem?_source] at hc
  rcases mem_wrap (List.mem_of_getElem? hc) with ha | hmem | hw
  · exact absurd ha (by decide)
  · exact absurd hmem (by decide)
  · exact h hw

theorem noDash_wrap (n : Word) (w : List Char) : (source n w).has '-' 0 = false := by
  rw [Source.has, Source.test, getElem?_source, Word.wrap]
  rfl

theorem mem_of_getElem?_source {p : Nat} {c : Char} (h : (source n w)[p]? = some c)
    (hp : textStart n ≤ p) (hlt : p < textStart n + w.length) : c ∈ w := by
  obtain ⟨q, rfl⟩ := Nat.exists_eq_add_of_le hp
  rw [getElem?_source, wrap_eq, ← length_opening n,
    List.getElem?_append_right (Nat.le_add_right _ _), Nat.add_sub_cancel_left,
    List.getElem?_append_left (by omega)] at h
  exact List.mem_of_getElem? h

theorem textEnd_le (n : Word) (w : List Char) : textStart n + w.length ≤ (source n w).size := by
  rw [size_source, lastStart]
  omega

theorem carry_textEnd_le (n : Word) (k : Nat) (w : List Char) :
    Text.carry k (n.wrap w) (textStart n + w.length) ≤ (source n (indented k w)).size := by
  rw [carry_wrap k (Nat.le_refl _), size_source, lastStart, length_indented]
  omega

/-- **How the text stands in the indented one**: each line is indented by `k` columns more. -/
def carrying (n : Word) (k : Nat) (h : Text.IsFree w) : Carrying where
  src := source n w
  dst := source n (indented k w)
  carry := Text.carry k (n.wrap w)
  lo := textStart n
  hi := textStart n + w.length
  first := 1
  columns := k
  code _ := False
  le_size := textEnd_le n w
  carry_le := carry_textEnd_le n k w
  char p hp hle := getElem?_source_indented k hp hle
  step p hp hlt hne := by
    rw [getElem?_source] at hne
    exact Text.carry_succ_of_ne hne
  mono := Text.carry_strictMono k _
  noTab p := by
    have htab : '\t' ∉ w := h '\t' (by decide)
    refine ⟨noTab_wrap htab n p, noTab_wrap (fun hmem => ?_) n p⟩
    rcases Text.mem_markLines hmem with hmem | hmem
    · cases List.eq_of_mem_replicate hmem
    · exact htab hmem
  noDash := ⟨noDash_wrap n w, noDash_wrap n _⟩
  flush := .inr fun p hp hlt => by
    refine ⟨fun hc => ?_, fun hc => ?_⟩
    · exact h '>' (by decide) (mem_of_getElem?_source hc hp hlt)
    · exact h '$' (by decide) (mem_of_getElem?_source hc hp hlt)
  code_of_marked p hp hlt _ hc := by
    rcases hc with hc | hc
    · exact h '<' (by decide) (mem_of_getElem?_source hc hp hlt)
    · exact h '\x7b' (by decide) (mem_of_getElem?_source hc hp hlt)
  code_after _ _ _ h := h.elim
  le_of_code _ h := h.elim
  scan_size _ h := h.elim
  expression_size _ h := h.elim

theorem last_indented (k : Nat) (w : List Char) : last (indented k w) = last w := by
  have hno : '\n' ∉ List.replicate k ' ' := fun hmem => by
    cases List.eq_of_mem_replicate hmem
  rw [last, last, indented, Text.count_markLines hno]

theorem takeWhile_replicate (k : Nat) (body : List Char) :
    ((List.replicate k ' ' ++ body).takeWhile Text.isSpace).length =
      (body.takeWhile Text.isSpace).length + k := by
  rw [List.takeWhile_append_of_pos, List.length_append, List.length_replicate, Nat.add_comm]
  intro c hc
  rw [List.eq_of_mem_replicate hc]
  rfl

theorem line_alike (n : Word) (k : Nat) (h : Text.IsFree w) {i : Nat} (h₁ : 1 ≤ i)
    (h₂ : i < last w) : ((region n w).line i).Alike (carrying n k h)
      ((region n (indented k w)).line i) := by
  have hno : '\n' ∉ List.replicate k ' ' := fun hmem => by
    cases List.eq_of_mem_replicate hmem
  obtain ⟨s, body, hget, hline, hisLine⟩ := exists_line (n := n) h₁ h₂
  obtain ⟨hle, hlen, hget'⟩ := Anchor.linesFrom_markLines hno hget (textStart n)
  have hnext := getElem?_succ hget'
  rw [Nat.sub_add_cancel h₁, List.length_replicate] at hnext
  have hline' : (region n (indented k w)).line i = Line.ofBody _ _ := line_eq hnext
  have hstop := stop_le (n := n) h₂
  rw [hline] at hstop ⊢
  rw [hline']
  have hstop : s + body.length ≤ textStart n + w.length := hstop
  have hcarry :
      Text.carry k (n.wrap w) s = textStart n + (Text.carry k w (s - textStart n) + k) := by
    have := carry_wrap (n := n) k hlen
    rwa [Nat.add_sub_cancel' hle] at this
  have hend : Text.carry k (n.wrap w) (s + body.length) =
      Text.carry k (n.wrap w) s + body.length := by
    refine Carrying.carry_add (m := carrying n k h) hle hstop fun p hp hps hb => ?_
    obtain ⟨q, rfl⟩ := Nat.exists_eq_add_of_le hp
    have hb : (source n w)[s + q]? = some '\n' := hb
    rw [hisLine.hasAt.getElem? (by omega)] at hb
    exact hisLine.noBreak (List.mem_of_getElem? hb)
  refine Line.alike_ofBody hisLine hle hstop ?_ ?_ (takeWhile_replicate k body) ?_
  · show textStart n + _ + k = Text.carry k (n.wrap w) s
    omega
  · show textStart n + _ + (List.replicate k ' ' ++ body).length =
      Text.carry k (n.wrap w) (s + body.length)
    rw [List.length_append, List.length_replicate]
    omega
  · have hlead := List.takeWhile_prefix Text.isSpace (l := List.replicate k ' ' ++ body)
    have hno' : '\t' ∉ (List.replicate k ' ' ++ body).takeWhile Text.isSpace := fun hmem => by
      rcases List.mem_append.mp (hlead.subset hmem) with hmem | hmem
      · cases List.eq_of_mem_replicate hmem
      · obtain ⟨q, hq⟩ := List.getElem?_of_mem hmem
        have hlt := (List.getElem?_eq_some_iff.mp hq).1
        rw [← hisLine.hasAt.getElem? hlt] at hq
        exact ((carrying n k h).noTab _).1 hq
    have hcolumns := Line.columns_eq 0 0 hno'
    rw [Int.zero_add, takeWhile_replicate] at hcolumns
    exact hcolumns.trans (Int.natCast_add _ _)

/-- The region inside the indented text, up to the same line. -/
def insideIndented (n : Word) (k : Nat) (w : List Char) : Region :=
  { region n (indented k w) with height := last w, indent := k, isTop := false }

theorem isEmpty_first (n : Word) (w : List Char) : (region n w).isEmpty 0 = false :=
  (shows_first n w).isEmpty

theorem isEmpty_below (n : Word) (w : List Char) {i : Nat} (hi : last w ≤ i) :
    (region n w).isEmpty i = decide (last w < i) := by
  rcases Nat.eq_or_lt_of_le hi with rfl | hlt
  · rw [decide_eq_false (Nat.lt_irrefl _)]
    exact (shows_last n w).isEmpty
  · have hnone : (region n w).lines[i]? = none :=
      Array.getElem?_eq_none_iff.mpr (by rw [size_lines]; exact hlt)
    rw [decide_eq_true hlt, Region.isEmpty, Region.line, hnone]
    exact decide_eq_true (Nat.le_refl _)

/-- **The regions inside the two elements are alike.** -/
theorem inside_alike (n : Word) (k : Nat) (h : Text.IsFree w) :
    (inside n w).Alike (carrying n k h) (insideIndented n k w) where
  sound := sound_inside n w
  src := rfl
  height := Nat.le_refl _
  size := by
    show last w ≤ (region n (indented k w)).lines.size
    rw [size_lines, last_indented]
    exact Nat.le_succ _
  line i hi hlt := line_alike n k h hi hlt
  indent := ⟨(Int.zero_add _).symm, .inr (Int.le_refl 0)⟩
  listIndent := .inr ⟨rfl, rfl⟩
  isEmpty_off i hi := by
    show (region n (indented k w)).isEmpty i = (region n w).isEmpty i
    have hi : i < 1 ∨ last w ≤ i := hi
    rcases hi with hi | hi
    · obtain rfl : i = 0 := by omega
      rw [isEmpty_first, isEmpty_first]
    · rw [isEmpty_below n w hi, isEmpty_below n _ (by rwa [last_indented]), last_indented]

/-! ### The search for the closing tag -/

theorem run?_eq_none (h : Text.IsFree w) {i : Nat} (h₁ : 1 ≤ i) (h₂ : i < last w)
    (hempty : (region n w).isEmpty i = false) (limit : Nat) :
    Tag.run? (region n w).src ((region n w).line i).start limit = none := by
  have hstart : ((region n w).line i).start < textStart n + w.length := by
    have hlt : ((region n w).line i).start < ((region n w).line i).stop := by
      simpa [Region.isEmpty, Line.isEmpty] using hempty
    exact Nat.lt_of_lt_of_le hlt (stop_le h₂)
  rw [Tag.run?_eq]
  cases hscan : Tag.scan? (region n w).src ((region n w).line i).start limit with
  | none => rfl
  | some t =>
    have hc := Tag.has_lt_of_scan? hscan
    exact absurd (mem_of_getElem?_source hc (le_start h₁ h₂) hstart) (h '<' (by decide))

/-- **The closing tag is found in both documents or in none.** -/
theorem isSome_closingRun?_indented (n : Word) (k : Nat) (h : Text.IsFree w) {i : Nat}
    (h₁ : 1 ≤ i) (hle : i ≤ last w) (fence : Option (Char × Nat)) :
    (Element.closingRun? (region n (indented k w)) (opener n).name (last w + 1) 0 fence i).isSome =
      (Element.closingRun? (region n w) (opener n).name (last w + 1) 0 fence i).isSome := by
  induction hle using Nat.decreasingInduction generalizing fence with
  | self =>
    cases fence with
    | none =>
      have hlast := closingRun?_last n (indented k w)
      rw [last_indented] at hlast
      rw [hlast, closingRun?_last n w]
      rfl
    | some mark =>
      -- the last line is inside fenced code
      have hnone (v : List Char) (hv : last v = last w) : Element.closingRun? (region n v)
          (opener n).name (last w + 1) 0 (some mark) (last w) = none := by
        have hempty := isEmpty_below n v (Nat.le_of_eq hv)
        rw [hv, decide_eq_false (Nat.lt_irrefl _)] at hempty
        rw [Element.closingRun?, if_pos (Nat.lt_succ_self _), hempty, if_neg Bool.false_ne_true]
        dsimp only
        rw [Element.closingRun?, if_neg (Nat.lt_irrefl _)]
      rw [hnone w rfl, hnone _ (last_indented k w)]
  | of_succ i hlt ih =>
    have halike := inside_alike n k h
    have hempty : (region n (indented k w)).isEmpty i = (region n w).isEmpty i :=
      halike.isEmpty_all i
    have htext : (region n (indented k w)).lineText i = (region n w).lineText i :=
      halike.lineText h₁ hlt
    have ih := ih (Nat.le_succ_of_le h₁)
    rw [Element.closingRun?.eq_def (region n (indented k w)),
      Element.closingRun?.eq_def (region n w), if_pos (Nat.lt_succ_of_lt hlt),
      if_pos (Nat.lt_succ_of_lt hlt), hempty]
    cases he : (region n w).isEmpty i with
    | true => exact ih fence
    | false =>
      have hrun := run?_eq_none h h₁ hlt he
      have hrun' := run?_eq_none (isFree_indented h k) h₁ (by rwa [last_indented]) (hempty.trans he)
      rw [if_neg Bool.false_ne_true, if_neg Bool.false_ne_true]
      dsimp only
      rw [htext, hrun, hrun']
      cases fence with
      | some mark => exact ih _
      | none =>
        cases Fence.mark? ((region n w).lineText i) with
        | some mark => exact ih _
        | none => exact ih _

theorem closes_iff_isSome (h : n.Fresh w) : Closes n w ↔
    (Element.closingRun? (region n w) (opener n).name (last w + 1) 0 none 1).isSome = true := by
  refine ⟨fun hc => by rw [hc]; rfl, fun hsome => Classical.not_not.mp fun hno => ?_⟩
  rw [closingRun?_eq_none h hno] at hsome
  cases hsome

/-- **The element is closed in both documents or in none.** -/
theorem closes_indented (n : Word) (k : Nat) (h : Text.IsFree w) :
    Closes n (indented k w) ↔ Closes n w := by
  have hsome := isSome_closingRun?_indented n k h (Nat.le_refl 1)
    (Nat.succ_le_succ (Nat.zero_le _)) none
  rw [closes_iff_isSome (h.fresh n), closes_iff_isSome ((isFree_indented h k).fresh n),
    last_indented, hsome]

/-! ### The text inside -/

/-- **The same is read inside both elements.** -/
theorem readInside_indented (n : Word) (k : Nat) (h : Text.IsFree w) (room : Nat) :
    readInside (read room) (region n (indented k w)) 1 (last w) =
      readInside (read room) (region n w) 1 (last w) := by
  have halike := inside_alike n k h
  have hcode : ¬ (carrying n k h).HasCode := fun ⟨_, hp⟩ => hp
  have hheight : last w ≤ (region n w).height :=
    Nat.le_of_lt (Nat.lt_of_lt_of_eq (Nat.lt_succ_self _) (height n w).symm)
  have hle : last w ≤ (inside n w).height := Nat.le_refl _
  obtain ⟨hleast, hdeep⟩ := Element.leastIndent?_alike halike (Nat.le_refl 1) hle
  have hline (i : Nat) : (inside n w).line i = (region n w).line i := rfl
  have hline' (i : Nat) :
      (insideIndented n k w).line i = (region n (indented k w)).line i := rfl
  have hinside : Element.leastIndent? (inside n w) 1 (last w) =
      Element.leastIndent? (region n w) 1 (last w) := Element.leastIndent?_congr hline
  have hindented : Element.leastIndent? (insideIndented n k w) 1 (last w) =
      Element.leastIndent? (region n (indented k w)) 1 (last w) :=
    Element.leastIndent?_congr hline'
  rw [hindented, hinside] at hleast
  rw [hinside] at hdeep
  rw [readInside, readInside, hleast]
  cases ha : Element.leastIndent? (region n w) 1 (last w) with
  | none => rfl
  | some a =>
    obtain ⟨hge, hquote⟩ :=
      Element.leastIndent?_spec (Region.sound_ofSource (source n w)) hheight ha
    have hsound : Region.Sound (source n w)
        { inside n w with height := last w, indent := a, isTop := false } :=
      (sound_inside n w).narrow (Nat.le_refl _) hge hquote
    have hnarrow : Region.Alike (carrying n k h)
        { inside n w with height := last w, indent := a, isTop := false }
        { insideIndented n k w with height := last w, indent := a + k, isTop := false } :=
      halike.narrow (Nat.le_refl _) rfl hsound (hdeep a ha) halike.listIndent
    have hread := read_keeps (carrying n k h) room _ _ 1 (last w) ⟨hnarrow, rfl, rfl, rfl⟩
      (Nat.le_refl 1) (Nat.le_refl _)
    exact congrArg (Except.bind · fun c => .ok c.toOutcome) (Content.Alike.eq hcode hread)

end Block.Wrapping

open Block Block.Wrapping

/-- **Indentation inside an element does not matter.**  A text between two lines of tags may be
indented by any number of spaces, if it holds no tabs, no carriage returns and nothing that starts
embedded code, a quote or mathematics: the two documents have the same tree but for the places of
embedded code, or fail with the same error. -/
theorem indentation_irrelevant (n : Word) (k : Nat) (w : List Char)
    (h : ∀ c ∈ ['\t', '\r', '\x7b', '<', '>', '$'], c ∉ w) :
    (document n (Text.markLines (List.replicate k ' ') w)).read.map Node.unplaced =
      (document n w).read.map Node.unplaced := by
  have hfree : Text.IsFree (replaceNul w) := Text.IsFree.replaceNul h
  have hsource := source_document (n := n) (h '\r' (by decide))
  have hbreak : '\r' ∉ indented k w := isFree_indented h k '\r' (by decide)
  have hsource' := source_document (n := n) hbreak
  rw [replaceNul_indented] at hsource'
  refine Document.read_unplaced ?_
  show (readSource (document n (indented k w)).source).map _ = _
  rw [hsource, hsource']
  by_cases hc : Closes n (replaceNul w)
  · have hread := readSource_eq ((closes_indented n k hfree).mpr hc)
    rw [last_indented, readInside_indented n k hfree] at hread
    rw [hread, readSource_eq hc]
    cases readInside (read 19) (region n (replaceNul w)) 1 (last (replaceNul w)) with
    | error e => rfl
    | ok o =>
      show Except.ok (Event.mapKindsEach _ (Event.around _ _ o.events), o.definitions) =
        .ok (Event.mapKindsEach _ (Event.around _ _ o.events), o.definitions)
      rw [Event.mapKindsEach_around, Event.mapKindsEach_around]
      rfl
  · have hc' := mt (closes_indented n k hfree).mp hc
    rw [readSource_unclosed (closingRun?_eq_none (hfree.fresh n) hc),
      readSource_unclosed (closingRun?_eq_none ((isFree_indented hfree k).fresh n) hc'),
      cover_opener, cover_opener]

/-- A loose list with a lazy line, fenced code and an underlined heading. -/
theorem indentation_irrelevant_list : ∃ (n : Word) (w : List Char),
    n.wrap (Text.markLines (List.replicate 3 ' ') w) =
      "<N>\n   - a\n   b\n   \n     ~~~\n       c\n     ~~~\n   d\n   ---\n</N>".toList ∧
    (document n w).read.toOption.isSome = true ∧
    (∀ c ∈ ['\t', '\r', '\x7b', '<', '>', '$'], c ∉ w) ∧
    (document n (Text.markLines (List.replicate 3 ' ') w)).read.map Node.unplaced =
      (document n w).read.map Node.unplaced := by
  let n : Word := ⟨['N'], List.cons_ne_nil _ _, List.forall_mem_singleton.mpr rfl⟩
  let w : List Char := "- a\nb\n\n  ~~~\n    c\n  ~~~\nd\n---".toList
  have hall : (['\t', '\r', '\x7b', '<', '>', '$'].all fun c => !w.contains c) = true := by
    decide +kernel
  have hfree : ∀ c ∈ ['\t', '\r', '\x7b', '<', '>', '$'], c ∉ w := fun c hc => by
    simpa using List.all_eq_true.mp hall c hc
  exact ⟨n, w, by decide +kernel, by decide +kernel, hfree, indentation_irrelevant n 3 w hfree⟩

end MdxProse
