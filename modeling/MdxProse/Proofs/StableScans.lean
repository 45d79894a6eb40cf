import MdxProse.Proofs.ExpressionGrammar
import MdxProse.Proofs.TagLocality

/-!
# Scans that look past their limit

Scanning in place, one compares the characters at an offset with the two that open a comment, and
does not ask whether the second of them is still below the limit.  What is found does not depend on
it: a comment that opens at the limit is not closed below it.  So scanning in place finds what
reading a window finds, and that depends on nothing but the characters it takes.

* `Source.search?`: the first place of a text below a limit.
* `Literal.endFrom?`, `Expression.endFrom?`: the scanners of literals and expressions in place.
  `Literal.endFrom?_eq`, `Expression.endFrom?_eq`: **they stop where what the readers of windows
  leave starts**.
* `Expression.stop?_congr`, `Tag.scan?_congr`: **what is found in one source is found in every other
  one that has the same characters there**, under any limit that leaves it whole.
* `scans_stable`: both, of the scanners in place too.
-/

namespace MdxProse

variable {src src' : Source} {pos limit limit' stop : Nat}

/-! ### In place -/

/-- The first offset, from `pos` on, at which the text stands below `limit`. -/
def Source.search? (src : Source) (u : List Char) (pos limit : Nat) : Option Nat :=
  if pos + u.length ≤ limit then
    if src.window pos (pos + u.length) = u then some pos else search? src u (pos + 1) limit
  else none
termination_by limit + 1 - pos

theorem Source.search?_spec {u : List Char} {p : Nat} (h : src.search? u pos limit = some p) :
    pos ≤ p ∧ p + u.length ≤ limit ∧ src.HasAt p u := by
  fun_induction Source.search? src u pos limit with
  | case1 pos hle hat =>
    cases h
    exact ⟨Nat.le_refl _, hle, Source.hasAt_iff_window_eq.mpr hat⟩
  | case2 pos hle hat ih =>
    obtain ⟨hp, hrest⟩ := ih h
    exact ⟨by omega, hrest⟩
  | case3 => cases h

theorem Source.search?_le {u : List Char} {p i : Nat} (h : src.search? u pos limit = some p)
    (hi : pos ≤ i) (hat : src.HasAt i u) : p ≤ i := by
  fun_induction Source.search? src u pos limit with
  | case1 pos =>
    cases h
    exact hi
  | case2 pos _ hno ih =>
    have hne : pos ≠ i := by
      rintro rfl
      exact hno hat.window_eq
    exact ih h (by omega)
  | case3 => cases h

theorem Source.not_hasAt_of_search? {u : List Char} {i : Nat}
    (h : src.search? u pos limit = none) (hi : pos ≤ i) (hle : i + u.length ≤ limit) :
    ¬ src.HasAt i u := by
  fun_induction Source.search? src u pos limit with
  | case1 => cases h
  | case2 pos _ hno ih =>
    by_cases heq : pos = i
    · rwa [← heq, Source.hasAt_iff_window_eq]
    · exact ih h (by omega)
  | case3 => omega

/-- The end of a string literal that is open at `pos`, below `limit`.  A backslash makes the scanner
step over the next character, wherever that is. -/
def Literal.endFrom? (src : Source) (quote : Char) (limit pos : Nat) : Option Nat :=
  if pos < limit then
    match src[pos]? with
    | none => none
    | some c =>
      if c == '\\' then endFrom? src quote limit (pos + 2)
      else if c == quote then some (pos + 1)
      else if c == '\n' && quote != '\x60' then none
      else endFrom? src quote limit (pos + 1)
  else none
termination_by limit - pos

theorem Literal.lt_of_endFrom? {q : Char} (h : endFrom? src q limit pos = some stop) :
    pos < stop := by
  fun_induction Literal.endFrom? src q limit pos with
  | case1 | case4 | case6 => cases h
  | case2 pos _ c _ _ ih =>
    have := ih h
    omega
  | case3 pos =>
    cases h
    exact Nat.lt_succ_self pos
  | case5 pos _ c _ _ _ _ ih =>
    have := ih h
    omega

/-- The offset just past the brace that brings `depth` to zero, from `pos` on and below `limit`.
The two characters that open a comment are looked for wherever they are. -/
def Expression.endFrom? (src : Source) (limit : Nat) (depth : Int) (pos : Nat) : Option Nat :=
  if pos < limit then
    match _hc : src[pos]? with
    | none => none
    | some c =>
      if isQuote c then
        match _h : Literal.endFrom? src c limit (pos + 1) with
        | some p => endFrom? src limit depth p
        | none => none
      else if c == '/' && src.has '*' (pos + 1) then
        match _h : src.search? ['*', '/'] (pos + 2) limit with
        | some p => endFrom? src limit depth (p + 2)
        | none => none
      else if _hl : c == '/' && src.has '/' (pos + 1) then
        match _h : src.search? ['\n'] pos limit with
        | some p => endFrom? src limit depth p
        | none => none
      else if c == '{' then endFrom? src limit (depth + 1) (pos + 1)
      else if c == '}' then
        if depth - 1 = 0 then some (pos + 1) else endFrom? src limit (depth - 1) (pos + 1)
      else endFrom? src limit depth (pos + 1)
  else none
termination_by limit - pos
decreasing_by
  · have := Literal.lt_of_endFrom? _h
    omega
  · have := Source.search?_spec _h
    omega
  · obtain ⟨hle, -, hat⟩ := Source.search?_spec _h
    have hne : p ≠ pos := by
      rintro rfl
      rw [Source.hasAt_singleton, _hc] at hat
      cases hat
      cases _hl
    omega
  all_goals omega

/-! ### What a window leaves -/

namespace Source

/-- The offset at which the rest of a window below `limit` starts. -/
def restAt (src : Source) (limit : Nat) (r : List Char) : Nat :=
  min limit src.size - r.length

theorem window_restAt {u r : List Char} (h : src.window pos limit = u ++ r) (hu : u ≠ []) :
    src.restAt limit r = pos + u.length ∧ src.window (src.restAt limit r) limit = r := by
  have hlen := src.length_window pos limit
  rw [h, List.length_append] at hlen
  have hpos := List.length_pos_iff.mpr hu
  have hat : src.restAt limit r = pos + u.length := by
    rw [restAt]
    omega
  refine ⟨hat, ?_⟩
  rw [hat, ← drop_window, h, List.drop_left]

theorem window_restAt_of_local {f : List Char → Option (List Char)} {r : List Char} (hf : Local f)
    (h : f (src.window pos limit) = some r) : src.window (src.restAt limit r) limit = r := by
  obtain ⟨u, hu, hne, -⟩ := hf _ r h
  exact (window_restAt hu hne).2

theorem restAt_window (hlimit : pos ≤ limit) (hsize : pos ≤ src.size) :
    src.restAt limit (src.window pos limit) = pos := by
  rw [restAt, length_window]
  omega

theorem has_of_window {c : Char} {w : List Char} (h : src.window pos limit = c :: w) :
    src.has c pos = true := by
  have hat : src.HasAt pos [c] := (hasAt_window src pos limit).of_isPrefix (h ▸ ⟨w, rfl⟩)
  exact test_iff.mpr ⟨c, hasAt_singleton.mp hat, beq_self_eq_true c⟩

/-- What opens a comment in place opens one in a window, or only its slash is below the limit. -/
theorem window_of_mark {c e : Char} (hmark : (c == '/' && src.has e (pos + 1)) = true)
    (hc : src[pos]? = some c) (hlt : pos < limit) : c = '/' ∧
      (src.window pos limit = '/' :: e :: src.window (pos + 2) limit ∨
        limit = pos + 1 ∧ src.window pos limit = ['/']) := by
  rw [Bool.and_eq_true, beq_iff_eq] at hmark
  obtain ⟨rfl, hnext⟩ := hmark
  refine ⟨rfl, ?_⟩
  rw [window_cons src hc hlt]
  by_cases hlt' : pos + 1 < limit
  · obtain ⟨e', he', heq⟩ := test_iff.mp hnext
    rw [beq_iff_eq] at heq
    rw [window_cons src he' hlt', heq]
    exact .inl rfl
  · have hlimit : limit = pos + 1 := by omega
    rw [window_eq_nil_of_le src (Nat.le_of_eq hlimit)]
    exact .inr ⟨hlimit, rfl⟩

theorem lt_size_of_getElem? {c : Char} (h : src[pos]? = some c) : pos < src.size :=
  (Array.getElem?_eq_some_iff.mp h).1

theorem search?_singleton (c : Char) : src.search? [c] pos limit =
    ((src.window pos limit).dropWhile (· != c)).head?.map fun _ =>
      src.restAt limit ((src.window pos limit).dropWhile (· != c)) := by
  fun_induction Source.search? src [c] pos limit with
  | case1 pos hlt hat =>
    have hc := hasAt_singleton.mp (hasAt_iff_window_eq.mpr hat)
    have hcons := window_cons src hc hlt
    have hsize := lt_size_of_getElem? hc
    have hstop : (src.window pos limit).dropWhile (· != c) = src.window pos limit := by
      rw [hcons, List.dropWhile_cons_of_neg (by simp)]
    rw [hstop, restAt_window (Nat.le_of_lt hlt) (Nat.le_of_lt hsize), hcons]
    rfl
  | case2 pos hlt hat ih =>
    rw [ih]
    cases hd : src[pos]? with
    | none =>
      rw [← drop_window, window_eq_nil_of_none hd]
      rfl
    | some d =>
      have hdc : d ≠ c := by
        rintro rfl
        exact hat (hasAt_iff_window_eq.mp (hasAt_singleton.mpr hd))
      rw [window_cons src hd hlt, List.dropWhile_cons_of_pos (by simpa using hdc)]
  | case3 pos hlt =>
    rw [window_eq_nil_of_le src (Nat.le_of_not_lt hlt)]
    rfl

end Source

/-- **A literal ends in place where it ends in a window.** -/
theorem Literal.endFrom?_eq (q : Char) : endFrom? src q limit pos =
    (rest? q (src.window pos limit)).map (src.restAt limit) := by
  fun_induction Literal.endFrom? src q limit pos with
  | case1 pos hlt hc =>
    rw [Source.window_eq_nil_of_none hc]
    rfl
  | case2 pos hlt c hc hb ih =>
    obtain rfl := beq_iff_eq.mp hb
    rw [ih, Source.window_cons src hc hlt, ← Source.drop_window src (pos + 1) limit 1]
    cases src.window (pos + 1) limit with
    | nil => rfl
    | cons d w => rw [rest?, List.drop_one, List.tail_cons]
  | case3 pos hlt c hc hb hq =>
    rw [Source.window_cons src hc hlt, rest?_cons (by simpa using hb), if_pos hq, Option.map_some,
      Source.restAt_window hlt (Source.lt_size_of_getElem? hc)]
  | case4 pos hlt c hc hb hq hn =>
    rw [Source.window_cons src hc hlt, rest?_cons (by simpa using hb), if_neg hq, if_pos hn,
      Option.map_none]
  | case5 pos hlt c hc hb hq hn ih =>
    rw [Source.window_cons src hc hlt, rest?_cons (by simpa using hb), if_neg hq, if_neg hn, ih]
  | case6 pos hlt =>
    rw [Source.window_eq_nil_of_le src (Nat.le_of_not_lt hlt)]
    rfl

theorem Comment.search?_eq (src : Source) (pos limit : Nat) :
    (src.search? ['*', '/'] pos limit).map (· + 2) =
    (rest? (src.window pos limit)).map (src.restAt limit) := by
  fun_induction Source.search? src ['*', '/'] pos limit with
  | case1 pos hle hat =>
    have hat := Source.hasAt_iff_window_eq.mpr hat
    obtain ⟨r, hr⟩ := Source.prefix_window_iff.mpr ⟨hat, Nat.le_sub_of_add_le' hle⟩
    have hrest := (Source.window_restAt hr.symm (List.cons_ne_nil _ _)).1
    rw [← hr]
    show some (pos + 2) = (rest? ('*' :: '/' :: r)).map _
    rw [rest?, Option.map_some, hrest]
    rfl
  | case2 pos hle hat ih =>
    rw [ih]
    cases hd : src[pos]? with
    | none => rw [← Source.drop_window, Source.window_eq_nil_of_none hd, List.drop_nil]
    | some d =>
      rw [Source.window_cons src hd (Nat.lt_of_lt_of_le (Nat.lt_add_of_pos_right Nat.two_pos) hle),
        rest?]
      rintro r rfl hr
      have hslash : src.HasAt (pos + 1) ['/'] :=
        (Source.hasAt_window src (pos + 1) limit).of_isPrefix (hr ▸ ⟨r, rfl⟩)
      exact hat (Source.hasAt_iff_window_eq.mp
        (Source.hasAt_append.mpr ⟨Source.hasAt_singleton.mpr hd, hslash⟩))
  | case3 pos hle =>
    have hlen := src.length_window_le pos limit
    rcases hw : src.window pos limit with _ | ⟨d, _ | ⟨e, w⟩⟩
    · rfl
    · simp [rest?]
    · rw [hw] at hlen
      simp at hlen hle
      omega

theorem Expression.ne_cons_of_has {c e : Char} (h : ¬(c == '/' && src.has e (pos + 1)) = true)
    (limit : Nat) : ∀ r, c = '/' → src.window (pos + 1) limit ≠ e :: r := by
  rintro r rfl hw
  exact h (by rw [Source.has_of_window hw]; rfl)

/-- Where no literal and no comment opens, the reader goes on after one character. -/
theorem Expression.rest?_window (d : Int) {c : Char} (hc : src[pos]? = some c) (hlt : pos < limit)
    (hq : ¬isQuote c = true) (hblock : ¬(c == '/' && src.has '*' (pos + 1)) = true)
    (hline : ¬(c == '/' && src.has '/' (pos + 1)) = true) :
    rest? d (src.window pos limit) =
      if c == '{' then rest? (d + 1) (src.window (pos + 1) limit)
      else if c == '}' then
        if d - 1 = 0 then some (src.window (pos + 1) limit)
        else rest? (d - 1) (src.window (pos + 1) limit)
      else rest? d (src.window (pos + 1) limit) := by
  rw [Source.window_cons src hc hlt]
  exact rest?_cons d (Bool.eq_false_iff.mpr hq) (ne_cons_of_has hblock limit)
    (ne_cons_of_has hline limit)

theorem Expression.rest?_slash (d : Int) : rest? d ['/'] = none := by
  rw [rest?_cons d rfl (fun r _ => (List.cons_ne_nil _ r).symm)
    (fun r _ => (List.cons_ne_nil _ r).symm)]
  simp [rest?]

/-- **The scanner in place stops where what a window leaves starts.** -/
theorem Expression.endFrom?_eq (d : Int) : endFrom? src limit d pos =
    (rest? d (src.window pos limit)).map (src.restAt limit) := by
  fun_induction Expression.endFrom? src limit d pos with
  | case1 d pos hlt hc =>
    rw [Source.window_eq_nil_of_none hc, rest?, Option.map_none]
  | case2 d pos hlt c hc hq p hp ih =>
    rw [Literal.endFrom?_eq, Option.map_eq_some_iff] at hp
    obtain ⟨r, hr, rfl⟩ := hp
    rw [ih, Source.window_cons src hc hlt, rest?_quote d _ hq, hr, Option.bind_some,
      Source.window_restAt_of_local (Literal.rest?_local c) hr]
  | case3 d pos hlt c hc hq hp =>
    rw [Literal.endFrom?_eq, Option.map_eq_none_iff] at hp
    rw [Source.window_cons src hc hlt, rest?_quote d _ hq, hp]
    rfl
  | case4 d pos hlt c hc hq hcomment p hp ih =>
    obtain ⟨rfl, hw | ⟨rfl, -⟩⟩ := Source.window_of_mark hcomment hc hlt
    · have hfound := Comment.search?_eq src (pos + 2) limit
      rw [hp, Option.map_some] at hfound
      obtain ⟨r, hr, hat⟩ := Option.map_eq_some_iff.mp hfound.symm
      rw [ih, hw, rest?_blockComment, hr, Option.bind_some, ← hat,
        Source.window_restAt_of_local Comment.rest?_local hr]
    · have := Source.search?_spec hp
      omega
  | case5 d pos hlt c hc hq hcomment hp =>
    obtain ⟨rfl, hw | ⟨-, hw⟩⟩ := Source.window_of_mark hcomment hc hlt
    · have hfound := Comment.search?_eq src (pos + 2) limit
      rw [hp, Option.map_none] at hfound
      rw [hw, rest?_blockComment, Option.map_eq_none_iff.mp hfound.symm]
      rfl
    · rw [hw, rest?_slash, Option.map_none]
  | case6 d pos hlt c hc hq hblock hcomment p hp ih =>
    rw [Source.search?_singleton, Option.map_eq_some_iff] at hp
    obtain ⟨e, he, rfl⟩ := hp
    obtain ⟨rfl, hw | ⟨-, hw⟩⟩ := Source.window_of_mark hcomment hc hlt
    · have hskip : (src.window pos limit).dropWhile (· != '\n') =
          (src.window (pos + 2) limit).dropWhile (· != '\n') := by
        rw [hw]
        rfl
      have hsplit : (src.window pos limit).takeWhile (· != '\n') ++
          (src.window pos limit).dropWhile (· != '\n') = src.window pos limit :=
        List.takeWhile_append_dropWhile
      have hne : (src.window pos limit).takeWhile (· != '\n') ≠ [] := by
        rw [hw]
        exact List.cons_ne_nil _ _
      rw [ih, (Source.window_restAt hsplit.symm hne).2, hskip, hw, rest?]
    · rw [hw] at he
      cases he
  | case7 d pos hlt c hc hq hblock hcomment hp =>
    rw [Source.search?_singleton, Option.map_eq_none_iff, List.head?_eq_none_iff] at hp
    obtain ⟨rfl, hw | ⟨-, hw⟩⟩ := Source.window_of_mark hcomment hc hlt
    · rw [hw] at hp ⊢
      have hnone : (src.window (pos + 2) limit).dropWhile (· != '\n') = [] := hp
      rw [rest?, hnone, rest?]
      rfl
    · rw [hw, rest?_slash, Option.map_none]
  | case8 d pos hlt c hc hq hblock hline ho ih =>
    rw [ih, rest?_window d hc hlt hq hblock hline, if_pos ho]
  | case9 d pos hlt c hc hq hblock hline ho hclose hd =>
    rw [rest?_window d hc hlt hq hblock hline, if_neg ho, if_pos hclose, if_pos hd,
      Option.map_some, Source.restAt_window hlt (Source.lt_size_of_getElem? hc)]
  | case10 d pos hlt c hc hq hblock hline ho hclose hd ih =>
    rw [ih, rest?_window d hc hlt hq hblock hline, if_neg ho, if_pos hclose, if_neg hd]
  | case11 d pos hlt c hc hq hblock hline ho hclose ih =>
    rw [ih, rest?_window d hc hlt hq hblock hline, if_neg ho, if_neg hclose]
  | case12 d pos hlt =>
    rw [Source.window_eq_nil_of_le src (Nat.le_of_not_lt hlt), rest?, Option.map_none]

theorem Expression.endFrom?_eq_stop? : endFrom? src limit 0 pos = stop? src pos limit := by
  rw [endFrom?_eq, stop?]
  apply Option.map_congr
  intro r hr
  have hlt := length_rest?_lt hr
  have hlen := src.length_window pos limit
  rw [Source.restAt]
  omega

/-! ### In another source -/

theorem Source.HasAt.congr {u : List Char} (h : src.HasAt pos u)
    (heq : src'.window pos (pos + u.length) = src.window pos (pos + u.length)) :
    src'.HasAt pos u := by
  rw [hasAt_iff_window_eq, heq]
  exact h.window_eq

/-- **An expression is one in every source that has the same characters there.** -/
theorem Expression.stop?_congr (h : stop? src pos limit = some stop)
    (heq : src'.window pos stop = src.window pos stop) (hl : stop ≤ limit') :
    stop? src' pos limit' = some stop := by
  obtain ⟨u, hu, hat, -, rfl⟩ := stop?_eq_some_iff.mp h
  exact stop?_eq_some_iff.mpr ⟨u, hu, hat.congr heq, hl, rfl⟩

/-- **A tag is one in every source that has the same characters there.** -/
theorem Tag.scan?_congr {t : Tag} (h : scan? src pos limit = some t)
    (heq : src'.window pos t.span.stop = src.window pos t.span.stop)
    (hl : t.span.stop ≤ limit') : scan? src' pos limit' = some t := by
  obtain ⟨u, hu, hat, -, hspan⟩ := scan?_eq_some_iff.mp h
  rw [hspan] at heq hl
  exact scan?_eq_some_iff.mpr ⟨u, hu, hat.congr heq, hl, hspan⟩

/-- **Scans are stable.**  What is recognised under one limit is recognised, with the same end, in
every source that has the same characters up to there, under every limit that leaves it whole.  The
expressions are those that a scanner in place finds, which compares characters past the limit. -/
theorem scans_stable (src src' : Source) (pos limit limit' : Nat) :
    (∀ stop, Expression.stop? src pos limit = some stop →
      src'.window pos stop = src.window pos stop → stop ≤ limit' →
      Expression.stop? src' pos limit' = some stop) ∧
    (∀ t, Tag.scan? src pos limit = some t →
      src'.window pos t.span.stop = src.window pos t.span.stop → t.span.stop ≤ limit' →
      Tag.scan? src' pos limit' = some t) ∧
    Expression.stop? src pos limit = Expression.endFrom? src limit 0 pos := by
  refine ⟨?_, ?_, Expression.endFrom?_eq_stop?.symm⟩
  · intro stop h heq hl
    exact Expression.stop?_congr h heq hl
  · intro t h heq hl
    exact Tag.scan?_congr h heq hl

/-- The expression and the tag of `<A b=\x7b/*\x7d*/1\x7d>` are found before other text, too. -/
theorem scans_stable_shortened : ∃ (src src' : Source) (t : Tag),
    src = Source.ofString "<A b=\x7b/*\x7d*/1\x7d>/" ∧
    src' = Source.ofString "<A b=\x7b/*\x7d*/1\x7d>*\x7d</A>" ∧ t.span = ⟨0, 14⟩ ∧
    Expression.stop? src 5 15 = some 13 ∧ Expression.stop? src' 5 13 = some 13 ∧
    Expression.endFrom? src' 13 0 5 = some 13 ∧
    Tag.scan? src 0 15 = some t ∧ Tag.scan? src' 0 20 = some t := by
  let src := Source.ofString "<A b=\x7b/*\x7d*/1\x7d>/"
  let src' := Source.ofString "<A b=\x7b/*\x7d*/1\x7d>*\x7d</A>"
  have hstop : Expression.stop? src 5 15 = some 13 := by decide +kernel
  have hscan : Tag.scan? src 0 15 = some ⟨some "A", ⟨0, 14⟩, .opening⟩ := by decide +kernel
  have hstop' : Expression.stop? src' 5 13 = some 13 :=
    (scans_stable src src' 5 15 13).1 13 hstop (by decide +kernel) (by decide)
  have hscan' := (scans_stable src src' 0 15 20).2.1 _ hscan (by decide +kernel) (by decide)
  refine ⟨src, src', _, rfl, rfl, rfl, hstop, hstop', ?_, hscan, hscan'⟩
  rw [← (scans_stable src' src 5 13 13).2.2]
  exact hstop'

end MdxProse
