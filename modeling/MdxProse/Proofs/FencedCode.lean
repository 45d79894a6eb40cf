import MdxProse.Proofs.OpaqueComments
import MdxProse.Proofs.WrappedText

/-!
# Fenced code inside an element

The search for the closing tag of an element keeps track of fenced code by itself, next to the
reader that will read the code later.  Both go by the same marks: a line that begins with the mark
opens the code, and the next one that begins with the mark closes it.

* `Fence.Mark`: a mark of fenced code.  `Region.Fenced`: lines that are code between two marks.
* `Region.Fenced.closingRun?_eq`: **the search goes over all of them**, and goes on below as it
  came.
* `Region.Fenced.closing_eq`: **the reader closes the code on the same line.**
* `fenced_code_opaque`: so fenced code is all that an element holds, whatever tags, other fences or
  braces are in it.
-/

namespace MdxProse

namespace Block

/-! ### Marks -/

namespace Fence

/-- A mark of fenced code. -/
structure Mark where
  char : Char
  length : Nat
  isMark : char = '\x60' ∨ char = '~'
  three_le : 3 ≤ length

namespace Mark

variable {m : Mark} {c : Char} {text : List Char}

/-- The mark as it is written. -/
def spell (m : Mark) : List Char :=
  List.replicate m.length m.char

theorem spell_eq (m : Mark) : m.spell = m.char :: List.replicate (m.length - 1) m.char := by
  have := m.three_le
  rw [spell, ← List.replicate_succ, Nat.sub_add_cancel (by omega)]

theorem length_spell (m : Mark) : m.spell.length = m.length :=
  List.length_replicate

theorem eq_of_mem (h : c ∈ m.spell) : c = m.char :=
  List.eq_of_mem_replicate h

theorem char_ne (m : Mark) (h : c ≠ '\x60') (h' : c ≠ '~') : m.char ≠ c := by
  rintro rfl
  exact m.isMark.elim h h'

theorem not_isSpace (m : Mark) : Text.isSpace m.char = false := by
  simp [Text.isSpace, m.char_ne (c := ' ') (by decide) (by decide),
    m.char_ne (c := '\t') (by decide) (by decide)]

theorem isPrefix_iff : m.spell <+: text ↔ m.length ≤ (text.takeWhile (· == m.char)).length := by
  constructor
  · rintro ⟨rest, rfl⟩
    have hall : ∀ c ∈ m.spell, (c == m.char) = true := fun c hc => beq_iff_eq.mpr (eq_of_mem hc)
    rw [List.takeWhile_append_of_pos hall, List.length_append, length_spell]
    exact Nat.le_add_right _ _
  · intro h
    have hrun : text.takeWhile (· == m.char) =
        List.replicate (text.takeWhile (· == m.char)).length m.char :=
      List.eq_replicate_of_mem fun c hc =>
        beq_iff_eq.mp (List.all_eq_true.mp List.all_takeWhile c hc)
    obtain ⟨k, hk⟩ := Nat.exists_eq_add_of_le h
    refine List.IsPrefix.trans ?_ (List.takeWhile_prefix (· == m.char))
    rw [hrun, hk, ← List.replicate_append_replicate]
    exact List.prefix_append _ _

theorem takeWhile_spell (m : Mark) : m.spell.takeWhile (· == m.char) = m.spell :=
  (Line.takeWhile_of_all fun _ hc => beq_iff_eq.mpr (eq_of_mem hc)).1

end Mark

variable {m : Mark} {text : List Char}

theorem mark?_eq_some {c : Char} {n : Nat} (h : mark? text = some (c, n)) :
    n = (text.takeWhile (· == c)).length := by
  cases text with
  | nil => cases h
  | cons d u =>
    simp only [mark?, Option.ite_none_right_eq_some, Option.some.injEq, Prod.mk.injEq] at h
    obtain ⟨-, -, rfl, rfl⟩ := h
    rw [List.takeWhile_cons_of_pos (p := (· == d)) (beq_self_eq_true d), List.length_cons]

theorem mark?_spell (m : Mark) : mark? m.spell = some (m.char, m.length) := by
  have hlength := congrArg List.length m.takeWhile_spell
  rw [m.length_spell, m.spell_eq, List.takeWhile_cons_of_pos (p := (· == m.char))
    (beq_self_eq_true m.char), List.length_cons] at hlength
  have hchar : (m.char == '\x60' || m.char == '~') = true := by simp [m.isMark]
  rw [m.spell_eq, mark?, if_pos hchar]
  dsimp only
  rw [hlength, if_pos m.three_le]

end Fence

namespace Element

open Fence

variable {m : Mark} {text : List Char}

theorem isPrefix_of_closesFence (h : closesFence m.char m.length text = true) :
    m.spell <+: text := by
  unfold closesFence at h
  split at h
  · next d k hmark =>
    simp only [Bool.and_eq_true, beq_iff_eq, decide_eq_true_eq] at h
    obtain ⟨⟨rfl, hle⟩, -⟩ := h
    rw [Mark.isPrefix_iff, ← mark?_eq_some hmark]
    exact hle
  · cases h

theorem closesFence_spell (m : Mark) : closesFence m.char m.length m.spell = true := by
  simp [closesFence, mark?_spell, List.drop_of_length_le (Nat.le_of_eq m.length_spell)]

end Element

/-! ### Lines of the source in a region -/

/-- Line `i` of the region is a whole line of the source. -/
structure Region.HasLine (r : Region) (i s : Nat) (body : List Char) : Prop where
  line : r.line i = .ofBody s body
  isLine : r.src.IsLine s body

namespace Region

variable {r : Region} {i j last past s : Nat} {body : List Char} {m : Fence.Mark}

namespace HasLine

theorem first (h : r.HasLine i s body) : (r.line i).first = s := by
  rw [h.line]
  rfl

theorem stop (h : r.HasLine i s body) : (r.line i).stop = s + body.length := by
  rw [h.line]
  rfl

theorem lineText (h : r.HasLine i s body) : r.lineText i = body.dropWhile Text.isSpace :=
  Wrapping.lineText_ofBody h.line h.isLine.hasAt

theorem indent_nonneg (h : r.HasLine i s body) : 0 ≤ (r.line i).indent := by
  rw [h.line]
  exact Line.le_columns 0 0 _

theorem start_le (h : r.HasLine i s body) : (r.line i).start ≤ (r.line i).stop := by
  have hin := Line.inside_ofBody h.isLine
  rw [← h.line] at hin
  exact hin.start

theorem skipWhile (h : r.HasLine i s body) {p : Char → Bool} (hp : p '\n' = false) :
    r.src.skipWhile p (r.line i).start r.src.size =
      (r.line i).start + ((r.lineText i).takeWhile p).length := by
  have htest : r.src.test p (r.line i).stop = false := by
    rw [h.stop, Source.test]
    rcases h.isLine.stop with hbreak | hsize
    · rw [hbreak]
      exact hp
    · rw [hsize]
      simp
  have hsize : (r.line i).stop ≤ r.src.size := by
    rw [h.stop]
    exact h.isLine.le_size
  rw [Source.skipWhile_of_limit h.start_le hsize htest]
  rfl

theorem holds (h : r.HasLine i s m.spell) : r.Holds i s m.spell := by
  refine ⟨?_, h.isLine.hasAt⟩
  rw [h.line, m.spell_eq]
  exact Line.ofBody_of_head m.not_isSpace _ _

end HasLine

/-- The lines from `i` to `last` are code between two marks. -/
structure Fenced (r : Region) (m : Fence.Mark) (i last : Nat) : Prop where
  opening : ∃ s, r.HasLine i s m.spell
  closing : ∃ s, r.HasLine last s m.spell
  code : ∀ j, i < j → j < last →
    ∃ s body, r.HasLine j s body ∧ ¬ m.spell <+: body.dropWhile Text.isSpace
  next : ∀ j, i ≤ j → j < last → (r.line (j + 1)).first = (r.line j).stop + 1
  lt : i < last

/-- What does not change from a line to the next one does not change from the first to the last. -/
theorem eq_of_steps {α : Type} {f : Nat → α} (h : ∀ j, i ≤ j → j < last → f j = f (j + 1))
    (hle : i ≤ last) : f i = f last := by
  obtain ⟨k, rfl⟩ := Nat.exists_eq_add_of_le hle
  induction k with
  | zero => rfl
  | succ k ih =>
    rw [ih (fun j hij hj => h j hij (Nat.lt_succ_of_lt hj)) (Nat.le_add_right i k)]
    exact h (i + k) (Nat.le_add_right i k) (Nat.lt_succ_self _)

namespace Fenced

/-! ### The search for the closing tag -/

/-- **The search goes over fenced code**, and goes on below it as it came there. -/
theorem closingRun?_eq (h : r.Fenced m i last) (hpast : last < past) (name : Option String)
    (inner : Nat) : Element.closingRun? r name past inner none i =
      Element.closingRun? r name past inner none (last + 1) := by
  have hlt := h.lt
  obtain ⟨s, hopen⟩ := h.opening
  obtain ⟨t, hclose⟩ := h.closing
  have hempty {j s : Nat} (h : r.HasLine j s m.spell) : r.isEmpty j = false := by
    have hholds := h.holds
    rw [m.spell_eq] at hholds
    exact hholds.isEmpty
  -- the code is passed line by line, and the mark stays open
  have hpass : Element.closingRun? r name past inner (some (m.char, m.length)) (i + 1) =
      Element.closingRun? r name past inner (some (m.char, m.length)) last := by
    refine eq_of_steps (f := Element.closingRun? r name past inner (some (m.char, m.length))) ?_ hlt
    intro j hij hj
    obtain ⟨u, body, hline, hno⟩ := h.code j hij hj
    rw [Element.closingRun?, if_pos (by omega)]
    split
    · rfl
    · have hstays : ¬ Element.closesFence m.char m.length (r.lineText j) = true := by
        rw [hline.lineText]
        exact fun hcloses => hno (Element.isPrefix_of_closesFence hcloses)
      dsimp only
      rw [if_neg hstays]
  calc Element.closingRun? r name past inner none i
      = Element.closingRun? r name past inner (some (m.char, m.length)) (i + 1) := by
        rw [Element.closingRun?, if_pos (by omega), hempty hopen, if_neg Bool.false_ne_true]
        dsimp only
        rw [hopen.holds.lineText, Fence.mark?_spell]
    _ = Element.closingRun? r name past inner (some (m.char, m.length)) last := hpass
    _ = Element.closingRun? r name past inner none (last + 1) := by
        rw [Element.closingRun?, if_pos hpast, hempty hclose, if_neg Bool.false_ne_true]
        dsimp only
        rw [hclose.holds.lineText, Element.closesFence_spell, if_pos rfl]

/-! ### The reader -/

theorem stop_lt (h : r.Fenced m i last) (hij : i < j) (hj : j < last) :
    (r.line j).stop < (r.line last).first := by
  induction hk : last - j generalizing j with
  | zero => omega
  | succ k ih =>
    have hnext := h.next j (Nat.le_of_lt hij) hj
    rcases Nat.eq_or_lt_of_le (Nat.succ_le_of_lt hj) with heq | hj'
    · have heq : j + 1 = last := heq
      rw [← heq, hnext]
      exact Nat.lt_succ_self _
    · obtain ⟨s, body, hline, -⟩ := h.code (j + 1) (Nat.lt_succ_of_lt hij) hj'
      have hbelow := ih (Nat.lt_succ_of_lt hij) hj' (by omega)
      rw [hline.stop] at hbelow
      rw [hline.first] at hnext
      omega

theorem start_lt (h : r.Fenced m i last) (hij : i < j) (hj : j ≤ last) :
    (r.line j).start < r.src.size := by
  obtain ⟨t, hclose⟩ := h.closing
  have hsize := hclose.isLine.le_size
  have := m.three_le
  rw [m.length_spell] at hsize
  rcases Nat.eq_or_lt_of_le hj with rfl | hj
  · rw [hclose.holds.start]
    omega
  · obtain ⟨s, body, hline, -⟩ := h.code j hij hj
    have hstart := hline.start_le
    have hstop := h.stop_lt hij hj
    rw [hclose.first] at hstop
    omega

/-- **The reader closes the code on the last line.** -/
theorem closing_eq (h : r.Fenced m i last) (hpast : last < past) (hindent : r.indent ≤ 0) :
    Fence.closing r m.char m.length past (i + 1) = (last, true) := by
  have hbreak : ('\n' == m.char) = false :=
    beq_false_of_ne (m.char_ne (by decide) (by decide)).symm
  have hgoes {j s : Nat} {body : List Char} (hline : r.HasLine j s body) :
      ¬ (!(r.line j).isEmpty && (r.line j).indent < r.indent) = true := by
    have := hline.indent_nonneg
    simp only [Bool.and_eq_true, decide_eq_true_eq, not_and]
    omega
  have hpass : Fence.closing r m.char m.length past (i + 1) =
      Fence.closing r m.char m.length past last := by
    refine eq_of_steps (f := Fence.closing r m.char m.length past) ?_ h.lt
    intro j hij hj
    obtain ⟨s, body, hline, hno⟩ := h.code j hij hj
    have hsize := h.start_lt hij (Nat.le_of_lt hj)
    have hshort : ¬ m.length ≤ ((r.lineText j).takeWhile (· == m.char)).length := by
      rwa [hline.lineText, ← Fence.Mark.isPrefix_iff]
    rw [Fence.closing, if_pos (by omega)]
    dsimp only
    rw [if_neg (hgoes hline), if_neg (Nat.not_le.mpr hsize), hline.skipWhile hbreak,
      Nat.add_sub_cancel_left, if_neg]
    simp [hshort]
  obtain ⟨t, hclose⟩ := h.closing
  have hsize := h.start_lt h.lt (Nat.le_refl last)
  have hrun : r.src.skipWhile (· == m.char) (r.line last).start r.src.size =
      (r.line last).start + m.length := by
    rw [hclose.skipWhile hbreak, hclose.holds.lineText, m.takeWhile_spell, m.length_spell]
  have hstop : (r.line last).stop = (r.line last).start + m.length := by
    rw [hclose.holds.start, hclose.holds.stop, m.length_spell]
  have hskip := r.src.le_skipWhile Text.isSpace ((r.line last).start + m.length) r.src.size
  rw [hpass, Fence.closing, if_pos hpast]
  dsimp only
  rw [if_neg (hgoes hclose), if_neg (Nat.not_le.mpr hsize), hrun, hstop, Nat.add_sub_cancel_left,
    if_pos]
  simp [hskip]

theorem text_eq (h : r.Fenced m i last) : r.text (i + 1) last 0 true =
    r.src.window (r.line (i + 1)).first (r.line last).first := by
  suffices ∀ k j, last - j = k → i < j → j ≤ last → r.text j last 0 true =
      r.src.window (r.line j).first (r.line last).first from
    this _ (i + 1) rfl (Nat.lt_succ_self i) h.lt
  intro k
  induction k with
  | zero =>
    intro j hk hij hj
    obtain rfl : j = last := by omega
    rw [Region.text, if_neg (Nat.lt_irrefl _), Source.window_eq_nil_of_le _ (Nat.le_refl _)]
  | succ k ih =>
    intro j hk hij hj
    have hlt : j < last := by omega
    obtain ⟨s, body, hline, -⟩ := h.code j hij hlt
    have hnext := h.next j (Nat.le_of_lt hij) hlt
    have hfirst : (r.line j).first ≤ (r.line j).stop + 1 := by
      rw [hline.first, hline.stop]
      omega
    have hle : (r.line j).stop + 1 ≤ (r.line last).first := h.stop_lt hij hlt
    rw [Region.text, if_pos hlt]
    simp only [Bool.or_true, if_true]
    rw [ih (j + 1) (by omega) (by omega) hlt, Line.cut_zero, hnext]
    exact Source.window_append hfirst hle

/-- **Fenced code is one block.** -/
theorem read? (h : r.Fenced m i last) (hpast : last < past) (hindent : r.indent ≤ 0) :
    Fence.read? r i past = some (.leaf (.fence "" (String.ofList
      (r.src.window (r.line (i + 1)).first (r.line last).first))) i (last + 1)) := by
  obtain ⟨s, hopen⟩ := h.opening
  have hdrop : m.spell.drop m.length = [] :=
    List.drop_of_length_le (Nat.le_of_eq m.length_spell)
  have hopening : Fence.opening? r i = some (m.char, m.length) := by
    rw [Fence.opening?, hopen.holds.lineText, Fence.mark?_spell]
    simp [hdrop]
  rw [Fence.read?, hopening, Option.map_some]
  dsimp only
  rw [h.closing_eq hpast hindent, hopen.holds.lineText, hopen.holds.indent, hdrop]
  dsimp only
  rw [h.text_eq]
  rfl

theorem of_lines {r' : Region} (h : r.Fenced m i last) (hsrc : r'.src = r.src)
    (hlines : r'.lines = r.lines) : r'.Fenced m i last := by
  have hline (j : Nat) : r'.line j = r.line j := by rw [Region.line, Region.line, hsrc, hlines]
  have hmove {j s : Nat} {body : List Char} (h : r.HasLine j s body) : r'.HasLine j s body :=
    ⟨(hline j).trans h.line, hsrc ▸ h.isLine⟩
  refine ⟨h.opening.imp fun _ => hmove, h.closing.imp fun _ => hmove, ?_, ?_, h.lt⟩
  · intro j hij hj
    obtain ⟨s, body, hbody, hno⟩ := h.code j hij hj
    exact ⟨s, body, hmove hbody, hno⟩
  · intro j hij hj
    rw [hline, hline]
    exact h.next j hij hj

end Fenced

end Region

/-! ### The document -/

namespace Wrapping

variable {n : Word} {w : List Char} {m : Fence.Mark} {code : List Char}

theorem hasLine_succ {k s : Nat} {body : List Char}
    (h : (Anchor.linesFrom (textStart n) (Text.splitOn '\n' w))[k]? = some (s, body)) :
    (region n w).HasLine (k + 1) s body :=
  ⟨line_eq (getElem?_succ h), Anchor.lines_isLine (getElem?_succ h)⟩

theorem first_succ {j : Nat} (h₁ : 1 ≤ j) (h₂ : j + 1 < last w) :
    ((region n w).line (j + 1)).first = ((region n w).line j).stop + 1 := by
  obtain ⟨s, body, hget, hline, -⟩ := exists_line (n := n) h₁ (Nat.lt_of_succ_lt h₂)
  obtain ⟨t, body', hget', hline', -⟩ := exists_line (n := n) (Nat.le_add_left 1 j) h₂
  have hget := getElem?_succ hget
  have hget' := getElem?_succ hget'
  rw [Nat.sub_add_cancel h₁] at hget
  rw [hline, hline']
  exact Anchor.lines_succ hget hget'

/-- Code between two marks, each with its line to itself. -/
def fenced (m : Fence.Mark) (code : List Char) : List Char :=
  m.spell ++ '\n' :: (code ++ '\n' :: m.spell)

/-- No line of the code begins with the mark, spaces aside. -/
def Uncut (m : Fence.Mark) (code : List Char) : Prop :=
  ∀ line ∈ Text.splitOn '\n' code, ¬ m.spell <+: line.dropWhile Text.isSpace

instance (m : Fence.Mark) (code : List Char) : Decidable (Uncut m code) :=
  inferInstanceAs (Decidable (∀ line ∈ _, _))

theorem not_mem_spell {c : Char} (m : Fence.Mark) (h : c ≠ '\x60') (h' : c ≠ '~') :
    c ∉ m.spell :=
  fun hc => m.char_ne h h' (Fence.Mark.eq_of_mem hc).symm

theorem last_fenced (m : Fence.Mark) (code : List Char) :
    last (fenced m code) = code.count '\n' + 4 := by
  have hno : m.spell.count '\n' = 0 :=
    List.count_eq_zero_of_not_mem (not_mem_spell m (by decide) (by decide))
  simp [last, fenced, hno]

/-- The lines of fenced code: the mark, those of the code, and the mark again. -/
theorem linesFrom_fenced (m : Fence.Mark) (code : List Char) (pos : Nat) :
    Anchor.linesFrom pos (Text.splitOn '\n' (fenced m code)) = (pos, m.spell) ::
      (Anchor.linesFrom (pos + m.length + 1) (Text.splitOn '\n' code) ++
        [(pos + m.length + 1 + code.length + 1, m.spell)]) := by
  have hno : '\n' ∉ m.spell := not_mem_spell m (by decide) (by decide)
  rw [fenced, Anchor.linesFrom_first hno, Anchor.linesFrom_append, Anchor.linesFrom_single hno,
    m.length_spell]

theorem hasLine_opening (n : Word) (m : Fence.Mark) (code : List Char) :
    (region n (fenced m code)).HasLine 1 (textStart n) m.spell :=
  hasLine_succ (by rw [linesFrom_fenced]; rfl)

theorem hasLine_closing (n : Word) (m : Fence.Mark) (code : List Char) :
    (region n (fenced m code)).HasLine (last (fenced m code) - 1)
      (textStart n + m.length + 1 + code.length + 1) m.spell := by
  have hlength : (Anchor.linesFrom (textStart n + m.length + 1)
      (Text.splitOn '\n' code)).length = code.count '\n' + 1 := by
    rw [Anchor.length_linesFrom, Text.length_splitOn]
  have hlast : last (fenced m code) - 1 = code.count '\n' + 2 + 1 := by rw [last_fenced]; rfl
  rw [hlast]
  refine hasLine_succ ?_
  rw [linesFrom_fenced, List.getElem?_cons_succ,
    List.getElem?_append_right (Nat.le_of_eq hlength), hlength, Nat.sub_self]
  rfl

/-- **The text is fenced code**, from its first line to its last one. -/
theorem fenced_region (n : Word) (h : Uncut m code) :
    (region n (fenced m code)).Fenced m 1 (last (fenced m code) - 1) := by
  have hlast := last_fenced m code
  refine ⟨⟨_, hasLine_opening n m code⟩, ⟨_, hasLine_closing n m code⟩, ?_,
    fun j hj hlt => first_succ hj (by omega), by omega⟩
  intro j hj hlt
  obtain ⟨k, rfl⟩ : ∃ k, j = k + 2 := Nat.exists_eq_add_of_le' hj
  have hlength : k < (Anchor.linesFrom (textStart n + m.length + 1)
      (Text.splitOn '\n' code)).length := by
    rw [Anchor.length_linesFrom, Text.length_splitOn]
    omega
  obtain ⟨⟨s, body⟩, hbody⟩ : ∃ l, (Anchor.linesFrom (textStart n + m.length + 1)
      (Text.splitOn '\n' code))[k]? = some l := ⟨_, List.getElem?_eq_getElem hlength⟩
  have hmem : body ∈ Text.splitOn '\n' code :=
    List.mem_of_getElem? (Anchor.getElem?_of_linesFrom hbody)
  refine ⟨s, body, hasLine_succ ?_, h body hmem⟩
  rw [linesFrom_fenced, List.getElem?_cons_succ, List.getElem?_append_left hlength, hbody]

theorem closes_fenced (n : Word) (h : Uncut m code) : Closes n (fenced m code) := by
  have hpast : last (fenced m code) - 1 < last (fenced m code) + 1 :=
    Nat.lt_succ_of_lt (Nat.lt_succ_self _)
  exact ((fenced_region n h).closingRun?_eq hpast (opener n).name 0).trans (closingRun?_last n _)

/-- Fenced code as a node. -/
def codeBlock (code : List Char) : Kind :=
  .fence "" (String.ofList (code ++ ['\n']))

theorem hasAt_code (n : Word) (m : Fence.Mark) (code : List Char) :
    (source n (fenced m code)).HasAt (textStart n + m.length + 1) (code ++ ['\n']) := by
  have hat := hasAt_text n (fenced m code)
  have hsplit : fenced m code = (m.spell ++ ['\n']) ++ ((code ++ ['\n']) ++ m.spell) := by
    simp [fenced]
  rw [hsplit] at hat ⊢
  have hafter := (Source.hasAt_append.mp hat).2
  rw [List.length_append, m.length_spell] at hafter
  exact hafter.of_isPrefix (List.prefix_append _ _)

theorem hasLine_inside (n : Word) (m : Fence.Mark) (code : List Char) :
    (inside n (fenced m code)).HasLine 1 (textStart n) m.spell :=
  ⟨(hasLine_opening n m code).line, (hasLine_opening n m code).isLine⟩

theorem read?_fenced (n : Word) (h : Uncut m code) :
    Fence.read? (inside n (fenced m code)) 1 (last (fenced m code)) =
      some (.leaf (codeBlock code) 1 (last (fenced m code))) := by
  have hlines : (inside n (fenced m code)).Fenced m 1 (last (fenced m code) - 1) :=
    (fenced_region n h).of_lines rfl rfl
  have hfirst : ((inside n (fenced m code)).line (1 + 1)).first = textStart n + m.length + 1 := by
    rw [hlines.next 1 (Nat.le_refl 1) hlines.lt, (hasLine_inside n m code).stop, m.length_spell]
  have hlast : ((inside n (fenced m code)).line (last (fenced m code) - 1)).first =
      textStart n + m.length + 1 + (code ++ ['\n']).length := by
    rw [List.length_append]
    exact (hasLine_closing n m code).first
  have hwindow : (inside n (fenced m code)).src.window (textStart n + m.length + 1)
      (textStart n + m.length + 1 + (code ++ ['\n']).length) = code ++ ['\n'] :=
    (hasAt_code n m code).window_eq
  have hpast : last (fenced m code) - 1 < last (fenced m code) := Nat.lt_succ_self _
  rw [hlines.read? hpast (Int.le_refl 0), hfirst, hlast, hwindow]
  rfl

/-- **The element holds just the code.** -/
theorem readInside_fenced (n : Word) (h : Uncut m code) :
    readInside (read 19) (region n (fenced m code)) 1 (last (fenced m code)) =
      .ok (.leaf (codeBlock code) 1 (last (fenced m code))) := by
  have hholds := (hasLine_inside n m code).holds
  rw [m.spell_eq] at hholds
  have hne {c : Char} (h : c ≠ '\x60') (h' : c ≠ '~') : m.char ≠ c := m.char_ne h h'
  have hesm : Esm.starts (inside n (fenced m code)) 1 = false := rfl
  refine readInside_block hholds ?_ rfl
  -- no other kind of block begins with the character of a mark
  simp [readBlock, FrontMatter.read?, hholds.mathBlock (hne (by decide) (by decide)), Esm.read?,
    hesm, FlowExpression.read?, hholds.flowExpression (hne (by decide) (by decide)),
    hholds.shape? (hne (by decide) (by decide)), read?_fenced n h]

end Wrapping

end Block

open Block Block.Wrapping

/-- **Fenced code inside an element is opaque**, whatever tags, other fences, braces or blank lines
are in it, if none of its lines begins with the mark. -/
theorem fenced_code_opaque (n : Word) (m : Fence.Mark) (code : List Char) (hbreak : '\r' ∉ code)
    (hnul : '\x00' ∉ code) (hcode : Uncut m code) : (document n (fenced m code)).read =
      .ok (elementTree n (fenced m code)
        [.mk (codeBlock code) (some ⟨1, last (fenced m code)⟩) []]) := by
  have hno {c : Char} (hc : c ∉ code) (h : c ≠ '\x60') (h' : c ≠ '~') (h'' : c ≠ '\n') :
      c ∉ fenced m code := by
    simp [fenced, hc, h'', not_mem_spell m h h']
  have hsource : (document n (fenced m code)).source = source n (fenced m code) := by
    rw [source_document (hno hbreak (by decide) (by decide) (by decide)),
      replaceNul_eq (hno hnul (by decide) (by decide) (by decide))]
  exact read_of_inside hsource (closes_fenced n hcode) (readInside_fenced n hcode) rfl
    (Walk.atom _ _)

/-- Closing tags, other fences, an open brace and a blank line in the code. -/
theorem fenced_code_opaque_markup : ∃ (n : Word) (m : Fence.Mark) (code : List Char),
    n.wrap (fenced m code) = "<N>\n```\n</N>\n`` <N>\n\n\t~~~~\n\x7b a ```\n```\n</N>".toList ∧
      (document n (fenced m code)).read = .ok (elementTree n (fenced m code)
        [.mk (codeBlock code) (some ⟨1, last (fenced m code)⟩) []]) := by
  let n : Word := ⟨['N'], List.cons_ne_nil _ _, List.forall_mem_singleton.mpr rfl⟩
  let m : Fence.Mark := ⟨'\x60', 3, .inl rfl, Nat.le_refl 3⟩
  let code : List Char := "</N>\n`` <N>\n\n\t~~~~\n\x7b a ```".toList
  exact ⟨n, m, code, rfl, fenced_code_opaque n m code (by decide +kernel) (by decide +kernel)
    (by decide +kernel)⟩

end MdxProse
