import MdxProse.Proofs.AlikeContainers
import MdxProse.Proofs.ExpressionGrammar
import MdxProse.Proofs.MarkedLines

/-!
# Quoted texts

A text is quoted by putting a quote mark and a space in front of each of its lines.  Scanners read
the quoted source across line ends, where the marks stand in their way.

* `Text.inQuote`: the quoted text.  `Text.drop_inQuote`: what stands there from an offset of a line
  on.
* `Expression.rest?_quotedRest`: **expressions do not mind the marks**, for these are neither braces
  nor quotes nor comments.
* `Text.KeepsTags`: tags do.  This says that none of the tags that may be a block minds them.
  `Text.keepsTags_of_oneLine`: **a tag that stands on one line does not.**
* `quoting`: the text is then carried to the quoted one.
-/

namespace MdxProse

namespace Text

variable {w u v : List Char} {c : Char} {p : Nat}

/-- The mark of a quoted line. -/
def quoteMark : List Char := ['>', ' ']

/-- The text with a quote mark in front of each line. -/
def inQuote (w : List Char) : List Char :=
  markLines quoteMark w

/-- The text with a quote mark in front of each line but the first. -/
def quotedRest (w : List Char) : List Char :=
  w.flatMap fun c => if c = '\n' then '\n' :: quoteMark else [c]

theorem quotedRest_cons (h : c ≠ '\n') (w : List Char) :
    quotedRest (c :: w) = c :: quotedRest w := by
  rw [quotedRest, List.flatMap_cons, if_neg h]
  rfl

theorem quotedRest_break (w : List Char) :
    quotedRest ('\n' :: w) = '\n' :: '>' :: ' ' :: quotedRest w :=
  rfl

theorem quotedRest_append (u v : List Char) :
    quotedRest (u ++ v) = quotedRest u ++ quotedRest v :=
  List.flatMap_append

theorem quotedRest_of_notMem (h : '\n' ∉ w) : quotedRest w = w := by
  induction w with
  | nil => rfl
  | cons c w ih =>
    rw [List.mem_cons, not_or] at h
    rw [quotedRest_cons (Ne.symm h.1), ih h.2]

theorem length_quotedRest (w : List Char) :
    (quotedRest w).length = w.length + 2 * w.count '\n' := by
  induction w with
  | nil => rfl
  | cons c w ih =>
    by_cases hc : c = '\n'
    · subst hc
      simp only [quotedRest_break, List.length_cons, List.count_cons_self, ih]
      omega
    · rw [quotedRest_cons hc, List.length_cons, List.length_cons, ih,
        List.count_cons_of_ne hc]
      omega

theorem quotedRest_ne (h : ∀ r, w ≠ c :: r) : ∀ r, quotedRest w ≠ c :: r := by
  intro r hr
  cases w with
  | nil => cases hr
  | cons d w =>
    by_cases hd : d = '\n'
    · subst hd
      exact h w (congrArg (· :: w) (List.cons.inj hr).1)
    · rw [quotedRest_cons hd] at hr
      exact h w (congrArg (· :: w) (List.cons.inj hr).1)

theorem inQuote_eq (w : List Char) : inQuote w = quoteMark ++ quotedRest w := by
  induction w using split_induction '\n' with
  | single w h => rw [inQuote, markLines_single h, quotedRest_of_notMem h]
  | first u v h ih =>
    rw [inQuote, markLines_first h, ← inQuote, ih, quotedRest_append, quotedRest_of_notMem h]
    rfl

/-- Where an offset of the text stands in the quoted text. -/
def quotedAt (w : List Char) (p : Nat) : Nat :=
  carry 2 w p + 2

theorem length_inQuote (w : List Char) : (inQuote w).length = quotedAt w w.length :=
  length_markLines quoteMark w

theorem getElem?_inQuote (hp : p ≤ w.length) : (inQuote w)[quotedAt w p]? = w[p]? :=
  getElem?_markLines quoteMark hp

theorem notMem_inQuote (hc : c ∉ quoteMark) (h : c ∉ w) : c ∉ inQuote w := fun hmem =>
  (mem_markLines hmem).elim hc h

theorem quotedAt_strictMono (w : List Char) : StrictMono (quotedAt w) :=
  fun _ _ h => Nat.add_lt_add_right (carry_strictMono 2 w h) 2

theorem quotedAt_succ (h : w[p]? ≠ some '\n') : quotedAt w (p + 1) = quotedAt w p + 1 := by
  rw [quotedAt, carry_succ_of_ne h, quotedAt]

theorem quotedAt_add (w : List Char) (p k : Nat) (hk : k ≤ (w.drop p).length) :
    quotedAt w (p + k) = quotedAt w p + (quotedRest ((w.drop p).take k)).length := by
  rw [length_quotedRest, List.length_take_of_le hk, quotedAt, quotedAt, carry, carry, List.take_add,
    List.count_append]
  omega

theorem quotedAt_add_of_notMem {k : Nat} (hk : k ≤ (w.drop p).length)
    (h : '\n' ∉ (w.drop p).take k) : quotedAt w (p + k) = quotedAt w p + k := by
  rw [quotedAt_add w p k hk, quotedRest_of_notMem h, List.length_take_of_le hk]

/-- **From an offset on**, the quoted text is the text with marks in front of all further lines. -/
theorem drop_inQuote (hp : p ≤ w.length) :
    (inQuote w).drop (quotedAt w p) = quotedRest (w.drop p) := by
  have hlen : (quoteMark ++ quotedRest (w.take p)).length = quotedAt w p := by
    rw [List.length_append, length_quotedRest, List.length_take_of_le hp]
    exact Nat.add_comm _ _
  have hsplit : inQuote w = (quoteMark ++ quotedRest (w.take p)) ++ quotedRest (w.drop p) := by
    rw [inQuote_eq, List.append_assoc, ← quotedRest_append, List.take_append_drop]
  rw [hsplit, ← hlen, List.drop_left]

end Text

/-! ### Expressions -/

open Text in
/-- A string literal goes on past the mark. -/
theorem Literal.rest?_quotedRest {q : Char} (hq : Expression.isQuote q = true) (w : List Char) :
    rest? q (quotedRest w) = (rest? q w).map quotedRest := by
  have hne {c : Char} (hc : Expression.isQuote c = false) : c ≠ q := by
    rintro rfl
    rw [hq] at hc
    cases hc
  -- the mark neither ends the literal nor protects what follows
  have hmark (w : List Char) : rest? q ('>' :: ' ' :: w) = rest? q w := by
    have hgt : '>' ≠ q := hne rfl
    have hspace : ' ' ≠ q := hne rfl
    rw [rest?_cons (by decide), rest?_cons (by decide)]
    simp [hgt, hspace]
  have hbreak : '\n' ≠ q := hne rfl
  fun_induction rest? q w with
  | case1 => rfl
  | case2 => rfl
  | case3 c w ih =>
    by_cases hc : c = '\n'
    · subst hc
      rw [quotedRest_cons (by decide), quotedRest_break, rest?, hmark]
      exact ih
    · rw [quotedRest_cons (by decide), quotedRest_cons hc, rest?]
      exact ih
  | case4 c w _ _ hc =>
    rw [beq_iff_eq] at hc
    subst hc
    have hslash : c ≠ '\\' := by
      rintro rfl
      cases hq
    rw [quotedRest_cons (Ne.symm hbreak), rest?_cons hslash, if_pos (beq_self_eq_true c)]
    rfl
  | case5 c w h₁ h₂ hc hcond =>
    rw [Bool.and_eq_true, beq_iff_eq] at hcond
    obtain ⟨rfl, hgrave⟩ := hcond
    rw [quotedRest_break, rest?_cons (by decide), if_neg hc, if_pos (by simpa using hgrave)]
    rfl
  | case6 c w h₁ h₂ hc hcond ih =>
    have hslash : c ≠ '\\' := by
      rintro rfl
      cases w with
      | nil => exact h₁ rfl rfl
      | cons d w => exact h₂ d w rfl rfl
    by_cases hn : c = '\n'
    · subst hn
      rw [quotedRest_break, rest?_cons hslash, if_neg hc, if_neg hcond, hmark]
      exact ih
    · rw [quotedRest_cons hn, rest?_cons hslash, if_neg hc, if_neg hcond]
      exact ih

open Text in
theorem Comment.rest?_quotedRest (w : List Char) :
    rest? (quotedRest w) = (rest? w).map quotedRest := by
  fun_induction rest? w with
  | case1 => rfl
  | case2 w => rfl
  | case3 c w hc ih =>
    by_cases hn : c = '\n'
    · subst hn
      exact ih
    · rw [quotedRest_cons hn, rest?]
      · exact ih
      · intro r hstar
        exact quotedRest_ne (fun r => hc r hstar) r

open Text in
theorem Text.dropWhile_quotedRest (w : List Char) :
    (quotedRest w).dropWhile (· != '\n') = quotedRest (w.dropWhile (· != '\n')) := by
  induction w with
  | nil => rfl
  | cons c w ih =>
    by_cases hc : c = '\n'
    · subst hc
      rfl
    · rw [quotedRest_cons hc, List.dropWhile_cons_of_pos (by simpa using hc),
        List.dropWhile_cons_of_pos (by simpa using hc), ih]

open Text in
/-- **Expressions do not mind the marks.** -/
theorem Expression.rest?_quotedRest (d : Int) (w : List Char) :
    rest? d (quotedRest w) = (rest? d w).map quotedRest := by
  have hmark (d : Int) (w : List Char) : rest? d ('\n' :: '>' :: ' ' :: w) = rest? d w := by
    rw [rest?_cons _ (by decide) (by simp) (by simp), if_neg (by decide), if_neg (by decide),
      rest?_cons _ (by decide) (by simp) (by simp), if_neg (by decide), if_neg (by decide),
      rest?_cons _ (by decide) (by simp) (by simp), if_neg (by decide), if_neg (by decide)]
  have hquote {c : Char} (hq : isQuote c = true) : c ≠ '\n' := by
    rintro rfl
    cases hq
  fun_induction rest? d w with
  | case1 => rw [quotedRest, List.flatMap_nil, rest?, Option.map_none]
  | case2 d w w' hc ih =>
    rw [quotedRest_cons (by decide), quotedRest_cons (by decide), rest?_blockComment,
      Comment.rest?_quotedRest, hc]
    exact ih
  | case3 d w hc =>
    rw [quotedRest_cons (by decide), quotedRest_cons (by decide), rest?_blockComment,
      Comment.rest?_quotedRest, hc]
    rfl
  | case4 d w ih =>
    rw [quotedRest_cons (by decide), quotedRest_cons (by decide), rest?, dropWhile_quotedRest]
    exact ih
  | case5 d c w _ _ hq w' hl ih =>
    rw [quotedRest_cons (hquote hq), rest?_quote _ _ hq, Literal.rest?_quotedRest hq, hl]
    exact ih
  | case6 d c w _ _ hq hl =>
    rw [quotedRest_cons (hquote hq), rest?_quote _ _ hq, Literal.rest?_quotedRest hq, hl]
    rfl
  | case7 d c w hb hl hq hopen ih =>
    rw [beq_iff_eq] at hopen
    subst hopen
    rw [quotedRest_cons (by decide), rest?_open]
    exact ih
  | case8 d c w hb hl hq hopen hclose hd =>
    rw [beq_iff_eq] at hclose
    subst hclose
    rw [quotedRest_cons (by decide), rest?_close, if_pos hd]
    rfl
  | case9 d c w hb hl hq hopen hclose hd ih =>
    rw [beq_iff_eq] at hclose
    subst hclose
    rw [quotedRest_cons (by decide), rest?_close, if_neg hd]
    exact ih
  | case10 d c w hb hl hq hopen hclose ih =>
    by_cases hn : c = '\n'
    · subst hn
      rw [quotedRest_break, hmark]
      exact ih
    · have hb' (r) (hc : c = '/') := quotedRest_ne (fun r => hb r hc) r
      have hl' (r) (hc : c = '/') := quotedRest_ne (fun r => hl r hc) r
      rw [quotedRest_cons hn, rest?_cons _ (Bool.eq_false_iff.mpr hq) hb' hl', if_neg hopen,
        if_neg hclose]
      exact ih

/-! ### What scanners find in the quoted text -/

open Text

variable {w : List Char} {p : Nat}

theorem Source.window_toArray (w : List Char) (p : Nat) :
    Source.window w.toArray p w.length = w.drop p := by
  rw [window_eq_take, List.take_of_length_le (by simp)]

theorem Source.window_inQuote (hp : p ≤ w.length) :
    Source.window (inQuote w).toArray (quotedAt w p) (inQuote w).length = quotedRest (w.drop p) :=
  (window_toArray _ _).trans (drop_inQuote hp)

/-- **An expression is found in the quoted text** where it stands in the text. -/
theorem Expression.stop?_inQuote (hp : p ≤ w.length) :
    stop? (inQuote w).toArray (quotedAt w p) (inQuote w).length =
      (stop? w.toArray p w.length).map (quotedAt w) := by
  rw [stop?, stop?, Source.window_inQuote hp, Source.window_toArray, rest?_quotedRest]
  cases h : rest? 0 (w.drop p) with
  | none => rfl
  | some r =>
    obtain ⟨u, hu, -, -⟩ := rest?_local 0 _ _ h
    have hlen : u.length ≤ (w.drop p).length := by
      rw [hu, List.length_append]
      exact Nat.le_add_right _ _
    have hadd := quotedAt_add w p u.length hlen
    rw [hu, List.take_left] at hadd
    simp only [Option.map_some, hu, quotedRest_append, List.length_append, Nat.add_sub_cancel, hadd]

/-- A tag that may be a block starts there: only marks of containers stand before it on its line, or
such a tag and spaces. -/
inductive Source.TagStart (src : Source) : Nat → Prop
  | marked {p : Nat} : src.Marked p → src[p]? = some '<' → TagStart src p
  | after {p q : Nat} {t : Tag} : TagStart src p → Tag.scan? src p src.size = some t →
    t.span.stop ≤ q → (∀ i, t.span.stop ≤ i → i < q → src.test Text.isSpace i = true) →
    src[q]? = some '<' → TagStart src q

theorem Source.TagStart.getElem? {src : Source} (h : src.TagStart p) : src[p]? = some '<' := by
  cases h with
  | marked _ hc => exact hc
  | after _ _ _ _ hc => exact hc

/-- **The quoted text has the tags of the text**, where one may be a block. -/
def Text.KeepsTags (w : List Char) : Prop :=
  ∀ p, Source.TagStart w.toArray p →
    Tag.scan? (inQuote w).toArray (quotedAt w p) (inQuote w).length =
      (Tag.scan? w.toArray p w.length).map (Tag.carried (quotedAt w))

theorem Tag.scan?_eq_none {src : Source} {limit : Nat} (h : src[p]? ≠ some '<') :
    scan? src p limit = none :=
  Option.eq_none_iff_forall_ne_some.mpr fun _ ht => h (has_lt_of_scan? ht)

theorem Text.keepsTags_of_forall (h : ∀ p < w.length, w[p]? = some '<' →
    Tag.scan? (inQuote w).toArray (quotedAt w p) (inQuote w).length =
      (Tag.scan? w.toArray p w.length).map (Tag.carried (quotedAt w))) : KeepsTags w := by
  intro p hp
  have hc := hp.getElem?
  rw [List.getElem?_toArray] at hc
  exact h p (List.getElem?_eq_some_iff.mp hc).1 hc

/-- **A tag on one line is found in the quoted text.** -/
theorem Tag.scan?_inQuote_of_oneLine {t : Tag} (h : scan? w.toArray p w.length = some t)
    (hline : ∀ i, p ≤ i → i < t.span.stop → w[i]? ≠ some '\n') :
    scan? (inQuote w).toArray (quotedAt w p) (inQuote w).length =
      some (t.carried (quotedAt w)) := by
  obtain ⟨u, hu, hat, hle, hspan⟩ := scan?_eq_some_iff.mp h
  have hp : p ≤ w.length := by omega
  rw [hspan] at hline
  obtain ⟨x, hx⟩ := hat
  have hx : u ++ x = w.drop p := hx
  have hno : '\n' ∉ u := fun hmem => by
    obtain ⟨k, hk⟩ := List.getElem?_of_mem hmem
    have hlt := (List.getElem?_eq_some_iff.mp hk).1
    refine hline (p + k) (Nat.le_add_right p k) (Nat.add_lt_add_left hlt p) ?_
    rw [← List.getElem?_drop, ← hx, List.getElem?_append_left hlt, hk]
  have hadd : quotedAt w (p + u.length) = quotedAt w p + u.length := by
    refine quotedAt_add_of_notMem ?_ ?_
    · rw [← hx, List.length_append]
      exact Nat.le_add_right _ _
    · rwa [← hx, List.take_left]
  refine scan?_eq_some_iff.mpr ⟨u, hu, ⟨quotedRest x, ?_⟩, ?_, ?_⟩
  · show u ++ quotedRest x = (inQuote w).drop (quotedAt w p)
    rw [drop_inQuote hp, ← hx, quotedRest_append, quotedRest_of_notMem hno]
  · rw [← hadd, length_inQuote]
    exact (quotedAt_strictMono w).monotone hle
  · rw [carried, hspan, ← hadd]

/-- **Where all tags that may be a block stand on one line, they are kept.** -/
theorem Text.keepsTags_of_oneLine (h : ∀ p, Source.TagStart w.toArray p →
    ∃ t, Tag.scan? w.toArray p w.length = some t ∧
      ∀ i, p ≤ i → i < t.span.stop → w[i]? ≠ some '\n') : KeepsTags w := by
  intro p hp
  obtain ⟨t, ht, hline⟩ := h p hp
  rw [Tag.scan?_inQuote_of_oneLine ht hline, ht]
  rfl

/-! ### The text in the quoted text -/

/-- **How the text stands in the quoted text.** -/
def quoting (w : List Char) (htab : '\t' ∉ w) (hdash : w.head? ≠ some '-') (hkeeps : KeepsTags w) :
    Carrying where
  src := w.toArray
  dst := (inQuote w).toArray
  carry := quotedAt w
  lo := 0
  hi := w.length
  first := 0
  columns := 0
  code p := Source.TagStart w.toArray p ∨ w[p]? = some '\x7b'
  le_size := Nat.le_refl _
  carry_le := Nat.le_of_eq (length_inQuote w).symm
  char p _ hp := by
    rw [List.getElem?_toArray, List.getElem?_toArray, getElem?_inQuote hp]
  step p _ _ h := quotedAt_succ (by rwa [List.getElem?_toArray] at h)
  mono := quotedAt_strictMono w
  noTab p := by
    rw [List.getElem?_toArray, List.getElem?_toArray]
    exact ⟨fun h => htab (List.mem_of_getElem? h),
      fun h => notMem_inQuote (by decide) htab (List.mem_of_getElem? h)⟩
  noDash := by
    constructor
    · rw [Source.has, Source.test, List.getElem?_toArray, ← List.head?_eq_getElem?]
      cases hc : w.head? with
      | none => rfl
      | some c =>
        rw [hc] at hdash
        simpa using hdash
    · rw [Source.has, Source.test, List.getElem?_toArray, inQuote_eq]
      rfl
  flush := .inl rfl
  code_of_marked p _ _ hmarked hc := by
    rcases hc with hc | hc
    · exact .inl (.marked hmarked hc)
    · exact .inr (by rwa [List.getElem?_toArray] at hc)
  code_after p t q hp ht hle hspaces hc := by
    rcases hp with hp | hp
    · exact .inl (.after hp ht hle hspaces hc)
    · have hlt := Tag.has_lt_of_scan? ht
      rw [List.getElem?_toArray, hp] at hlt
      cases hlt
  le_of_code p _ := Nat.zero_le p
  scan_size p hp := by
    rcases hp with hp | hp
    · exact hkeeps p hp
    · -- no tag starts with a brace
      have hle := (List.getElem?_eq_some_iff.mp hp).1
      have hchar := getElem?_inQuote (Nat.le_of_lt hle)
      rw [Tag.scan?_eq_none, Tag.scan?_eq_none]
      · rfl
      · rw [List.getElem?_toArray, hp]
        decide
      · rw [List.getElem?_toArray, hchar, hp]
        decide
  expression_size p hp := by
    refine Expression.stop?_inQuote (w := w) ?_
    rcases hp with hp | hp
    · have hc := hp.getElem?
      rw [List.getElem?_toArray] at hc
      exact Nat.le_of_lt (List.getElem?_eq_some_iff.mp hc).1
    · exact Nat.le_of_lt (List.getElem?_eq_some_iff.mp hp).1

end MdxProse
