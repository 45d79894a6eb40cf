import MdxProse.Proofs.Locality

/-!
# The grammar of expressions

An expression is a brace, items and the brace that balances it; an item is an expression, a string
literal, a comment or another character.  The scanner has no stack but a depth.

* `Literal.Inner`, `Comment.Inner`: what stands inside a literal and inside a block comment.
  `Literal.rest?_eq_some_iff`, `Comment.rest?_eq_some_iff`: the scanners of these read just that.
* `Expression.Items`, `Expression.Braced`: the grammar.
* `Expression.Items.rest?_append`: **the scanner passes over items**, at any depth.
* `Expression.Closes`: items up to the brace that balances one of several open ones.
  `Expression.closes_of_rest?`: **what the scanner passes over, at some depth, closes as many braces
  as that.**
* `expression_found_iff`: **the scanner finds exactly the expressions of the grammar.**
-/

namespace MdxProse

/-! ### Literals -/

namespace Literal

/-- What stands between the quotes `q`: characters, of which a quote and a backslash have to be
protected by a backslash.  A line break need not be, but only in grave accents may it stand
unprotected. -/
inductive Inner (q : Char) : List Char → Prop
  | nil : Inner q []
  | escaped (c : Char) {v : List Char} : Inner q v → Inner q ('\\' :: c :: v)
  | plain {c : Char} {v : List Char} :
    c ≠ q → c ≠ '\\' → (c = '\n' → q = '\x60') → Inner q v → Inner q (c :: v)

variable {q : Char} {w r : List Char}

theorem rest?_cons {c : Char} (hc : c ≠ '\\') (w : List Char) : rest? q (c :: w) =
    if c == q then some w else if c == '\n' && q != '\x60' then none else rest? q w :=
  rest?.eq_4 _ _ _ (fun h => absurd h hc) fun _ _ h => absurd h hc

theorem Inner.rest?_append (hq : q ≠ '\\') {v : List Char} (h : Inner q v) :
    rest? q (v ++ q :: r) = some r := by
  induction h with
  | nil => rw [List.nil_append, rest?_cons hq, if_pos (beq_self_eq_true q)]
  | escaped c _ ih => rw [List.cons_append, List.cons_append, rest?, ih]
  | plain hne hc hbreak _ ih =>
    rw [List.cons_append, rest?_cons hc, if_neg (by simpa using hne), ih, if_neg]
    simpa using hbreak

/-- **A literal is read up to its closing quote.** -/
theorem rest?_eq_some_iff (hq : q ≠ '\\') :
    rest? q w = some r ↔ ∃ v, Inner q v ∧ w = v ++ q :: r := by
  constructor
  · intro h
    fun_induction rest? q w with
    | case1 | case2 | case5 => cases h
    | case3 c w ih =>
      obtain ⟨v, hv, rfl⟩ := ih h
      exact ⟨'\\' :: c :: v, .escaped c hv, rfl⟩
    | case4 c w _ _ hc =>
      cases h
      rw [beq_iff_eq] at hc
      exact ⟨[], .nil, by rw [hc, List.nil_append]⟩
    | case6 c w h₁ h₂ hc hbreak ih =>
      obtain ⟨v, hv, rfl⟩ := ih h
      refine ⟨c :: v, .plain (by simpa using hc) ?_ (by simpa using hbreak) hv, rfl⟩
      rintro rfl
      cases hu : v ++ q :: r with
      | nil => exact h₁ rfl hu
      | cons d u => exact h₂ d u rfl hu
  · rintro ⟨v, hv, rfl⟩
    exact hv.rest?_append hq

end Literal

/-! ### Comments -/

namespace Comment

/-- What stands between the marks of a block comment: anything but the mark that ends it. -/
def Inner (v : List Char) : Prop :=
  ¬ ['*', '/'] <:+: v

instance (v : List Char) : Decidable (Inner v) :=
  inferInstanceAs (Decidable (¬ _))

variable {w r : List Char}

theorem Inner.rest?_append {v : List Char} (h : Inner v) :
    rest? (v ++ '*' :: '/' :: r) = some r := by
  induction v with
  | nil => rfl
  | cons c v ih =>
    rw [Inner, List.infix_cons_iff, not_or] at h
    rw [List.cons_append, rest?, ih h.2]
    -- the mark would start with the last character before its own mark
    rintro u rfl hu
    cases v with
    | nil => cases hu
    | cons d v =>
      rw [(List.cons.inj hu).1] at h
      exact h.1 (List.prefix_append ['*', '/'] v)

/-- **A block comment is read up to the first mark that ends it.** -/
theorem rest?_eq_some_iff : rest? w = some r ↔ ∃ v, Inner v ∧ w = v ++ '*' :: '/' :: r := by
  constructor
  · intro h
    fun_induction rest? w with
    | case1 => cases h
    | case2 w =>
      cases h
      exact ⟨[], by simp [Inner], rfl⟩
    | case3 c w hc ih =>
      obtain ⟨v, hv, rfl⟩ := ih h
      refine ⟨c :: v, ?_, rfl⟩
      rw [Inner, List.infix_cons_iff, not_or]
      refine ⟨?_, hv⟩
      rintro ⟨u, hu⟩
      obtain ⟨rfl, rfl⟩ := List.cons.inj hu
      exact hc (u ++ '*' :: '/' :: r) rfl rfl
  · rintro ⟨v, hv, rfl⟩
    exact hv.rest?_append

end Comment

/-! ### The grammar -/

namespace Expression

/-- A row of items, each as it stands in an expression: a braced expression, a string literal, a
block comment, a line comment, which a line break follows, or a character that opens none of
these. -/
inductive Items : List Char → Prop
  | nil : Items []
  | braced {u v : List Char} : Items u → Items v → Items ('\x7b' :: (u ++ '\x7d' :: v))
  | literal {q : Char} {u v : List Char} :
    isQuote q = true → Literal.Inner q u → Items v → Items (q :: (u ++ q :: v))
  | blockComment {u v : List Char} :
    Comment.Inner u → Items v → Items ('/' :: '*' :: (u ++ '*' :: '/' :: v))
  | lineComment {u v : List Char} :
    '\n' ∉ u → Items ('\n' :: v) → Items ('/' :: '/' :: (u ++ '\n' :: v))
  | other {c : Char} {v : List Char} :
    isQuote c = false → c ≠ '\x7b' → c ≠ '\x7d' →
    (c = '/' → v.head? ≠ some '/' ∧ v.head? ≠ some '*') → Items v → Items (c :: v)

/-- A braced expression. -/
def Braced (w : List Char) : Prop :=
  ∃ u, Items u ∧ w = '\x7b' :: (u ++ ['\x7d'])

variable {d : Int} {w r : List Char}

theorem rest?_open (d : Int) (w : List Char) : rest? d ('\x7b' :: w) = rest? (d + 1) w := by
  rw [rest?_cons _ (by decide) (by simp) (by simp), if_pos (by decide)]

theorem rest?_close (d : Int) (w : List Char) :
    rest? d ('\x7d' :: w) = if d - 1 = 0 then some w else rest? (d - 1) w := by
  rw [rest?_cons _ (by decide) (by simp) (by simp), if_neg (by decide), if_pos (by decide)]

/-- **The scanner passes over items** that stand before a closing brace. -/
theorem Items.rest?_append {u : List Char} (h : Items u) (hd : 0 < d) (r : List Char) :
    rest? d (u ++ '\x7d' :: r) = rest? d ('\x7d' :: r) := by
  induction h generalizing d r with
  | nil => rfl
  | @braced u v _ _ ihu ihv =>
    rw [List.cons_append, List.append_assoc, List.cons_append, rest?_open, ihu (by omega),
      rest?_close, if_neg (by omega), Int.add_sub_cancel, ihv hd]
  | @literal q u v hq hu _ ih =>
    have hne : q ≠ '\\' := by
      rintro rfl
      cases hq
    rw [List.cons_append, List.append_assoc, List.cons_append, rest?_quote _ _ hq,
      hu.rest?_append hne, Option.bind_some, ih hd]
  | @blockComment u v hu _ ih =>
    rw [List.cons_append, List.cons_append, List.append_assoc, List.cons_append, List.cons_append,
      rest?_blockComment, hu.rest?_append, Option.bind_some, ih hd]
  | @lineComment u v hu _ ih =>
    have hskip : (u ++ '\n' :: (v ++ '\x7d' :: r)).dropWhile (· != '\n') =
        '\n' :: (v ++ '\x7d' :: r) := by
      rw [List.dropWhile_append_of_pos fun c hc => by
        simpa using fun h : c = '\n' => hu (h ▸ hc)]
      rfl
    rw [List.cons_append, List.cons_append, List.append_assoc, List.cons_append, rest?, hskip]
    exact ih hd r
  | @other c v hq hopen hclose hslash _ ih =>
    have hhead {e : Char} (he : c = '/' → v.head? ≠ some e) (hne : e ≠ '\x7d') :
        ∀ r', c = '/' → v ++ '\x7d' :: r ≠ e :: r' := by
      rintro r' hc hv
      cases v with
      | nil => exact hne (List.cons.inj hv).1.symm
      | cons d v => exact he hc (congrArg some (List.cons.inj hv).1)
    rw [List.cons_append, rest?_cons _ hq (hhead (fun hc => (hslash hc).2) (by decide))
      (hhead (fun hc => (hslash hc).1) (by decide)), if_neg (by simpa using hopen),
      if_neg (by simpa using hclose), ih hd]

/-- The text closes `n` open braces: items and a closing brace for each of them. -/
def Closes : Nat → List Char → Prop
  | 0, w => w = []
  | n + 1, w => ∃ u v, Items u ∧ Closes n v ∧ w = u ++ '\x7d' :: v

theorem Closes.cons {n : Nat} (h : Closes (n + 1) w) (item : List Char)
    (hitem : ∀ u v, Items u → w = u ++ '\x7d' :: v → Items (item ++ u)) :
    Closes (n + 1) (item ++ w) := by
  obtain ⟨u, v, hu, hv, rfl⟩ := h
  exact ⟨item ++ u, v, hitem u v hu rfl, hv, (List.append_assoc _ _ _).symm⟩

/-- A character that opens no comment before the rest of the text opens none before the items. -/
theorem head?_ne {c e : Char} {u v r : List Char}
    (h : ∀ r', c = '/' → u ++ '\x7d' :: v ++ r = e :: r' → False) (hc : c = '/') :
    u.head? ≠ some e := by
  intro hu
  cases u with
  | nil => cases hu
  | cons x u =>
    cases hu
    exact h _ hc rfl

/-- **What the scanner passes over at some depth closes as many braces.** -/
theorem closes_of_rest? {n : Nat} (hd : d = n + 1) (h : rest? d w = some r) :
    ∃ u, Closes (n + 1) u ∧ w = u ++ r := by
  fun_induction rest? d w generalizing n with
  | case1 | case3 | case6 => cases h
  | case2 d w w' hc ih =>
    obtain ⟨u, hu, rfl⟩ := ih hd h
    obtain ⟨v, hv, rfl⟩ := Comment.rest?_eq_some_iff.mp hc
    refine ⟨_, hu.cons ('/' :: '*' :: (v ++ ['*', '/'])) fun x y hx _ => ?_, by simp⟩
    simpa using Items.blockComment hv hx
  | case4 d w ih =>
    obtain ⟨u, hu, hskip⟩ := ih hd h
    have hw := takeWhile_append_of_dropWhile hskip
    have hline : '\n' ∉ w.takeWhile (· != '\n') := fun hmem => by
      simpa using List.all_eq_true.mp List.all_takeWhile _ hmem
    refine ⟨_, hu.cons ('/' :: '/' :: w.takeWhile (· != '\n')) fun x y hx hy => ?_, ?_⟩
    · -- the skipping stops at a line break, so this starts what follows the comment
      have hhead := List.head?_dropWhile_not (· != '\n') w
      rw [hskip, hy] at hhead
      cases x with
      | nil => simp at hhead
      | cons c x =>
        obtain rfl : c = '\n' := by simpa using hhead
        exact .lineComment hline hx
    · rw [List.cons_append, List.cons_append, List.cons_append, List.cons_append,
        List.append_assoc, ← hw]
  | case5 d c w _ _ hq w' hl ih =>
    obtain ⟨u, hu, rfl⟩ := ih hd h
    have hne : c ≠ '\\' := by
      rintro rfl
      cases hq
    obtain ⟨v, hv, rfl⟩ := (Literal.rest?_eq_some_iff hne).mp hl
    refine ⟨_, hu.cons (c :: (v ++ [c])) fun x y hx _ => ?_, by simp⟩
    simpa using Items.literal hq hv hx
  | case7 d c w _ _ _ hopen ih =>
    obtain ⟨u, hu, rfl⟩ := ih (n := n + 1) (by omega) h
    obtain rfl := beq_iff_eq.mp hopen
    obtain ⟨x, y, hx, ⟨x', y', hx', hy', rfl⟩, rfl⟩ := hu
    exact ⟨'\x7b' :: (x ++ '\x7d' :: (x' ++ '\x7d' :: y')),
      ⟨_, y', .braced hx hx', hy', by simp⟩, by simp⟩
  | case8 d c w _ _ _ _ hclose h0 =>
    cases h
    obtain rfl := beq_iff_eq.mp hclose
    obtain rfl : n = 0 := by omega
    exact ⟨['\x7d'], ⟨[], [], .nil, rfl, rfl⟩, rfl⟩
  | case9 d c w _ _ _ _ hclose h0 ih =>
    obtain rfl := beq_iff_eq.mp hclose
    obtain ⟨n, rfl⟩ : ∃ m, n = m + 1 := Nat.exists_eq_succ_of_ne_zero (by omega)
    obtain ⟨u, hu, rfl⟩ := ih (n := n) (by omega) h
    exact ⟨'\x7d' :: u, ⟨[], u, .nil, hu, rfl⟩, rfl⟩
  | case10 d c w hblock hline hq hopen hclose ih =>
    obtain ⟨u, hu, rfl⟩ := ih hd h
    refine ⟨_, hu.cons [c] fun x y hx hy => ?_, rfl⟩
    subst hy
    exact .other (by simpa using hq) (by simpa using hopen) (by simpa using hclose)
      (fun hc => ⟨head?_ne hline hc, head?_ne hblock hc⟩) hx

/-- **The expressions of the grammar are the texts that the scanner passes over**, from their
opening brace on. -/
theorem braced_iff : Braced w ↔ w.head? = some '\x7b' ∧ Complete w := by
  constructor
  · rintro ⟨u, hu, rfl⟩
    refine ⟨rfl, fun x => ?_⟩
    rw [List.cons_append, List.append_assoc, List.singleton_append, rest?_open,
      hu.rest?_append (by decide), rest?_close, if_pos (by decide)]
  · rintro ⟨hhead, hw⟩
    cases w with
    | nil => cases hhead
    | cons c w =>
      cases hhead
      have hrest := hw []
      rw [List.append_nil, rest?_open] at hrest
      obtain ⟨u, ⟨x, y, hx, rfl, rfl⟩, hu⟩ := closes_of_rest? (n := 0) (by decide) hrest
      exact ⟨x, hx, by rw [hu, List.append_nil]⟩

end Expression

open Expression

/-- **An expression is found exactly where one of the grammar stands.**  From an opening brace on,
the scanner answers with an offset if and only if what is before it is an expression of the grammar
and stays below the limit.  There is at most one such offset, and where there is none, it answers
with nothing. -/
theorem expression_found_iff {src : Source} {pos limit : Nat} (hlimit : limit ≤ src.size)
    (hbrace : src[pos]? = some '\x7b') :
    (∀ stop, stop? src pos limit = some stop ↔ stop ≤ limit ∧ Braced (src.window pos stop)) ∧
    (∀ stop stop', stop ≤ limit → stop' ≤ limit → Braced (src.window pos stop) →
      Braced (src.window pos stop') → stop = stop') ∧
    (stop? src pos limit = none ↔ ∀ stop, stop ≤ limit → ¬ Braced (src.window pos stop)) := by
  have hfound (stop : Nat) : stop? src pos limit = some stop ↔
      stop ≤ limit ∧ Braced (src.window pos stop) := by
    rw [stop?_eq_some_iff]
    constructor
    · rintro ⟨u, hu, hat, hle, rfl⟩
      refine ⟨hle, ?_⟩
      rw [hat.window_eq]
      have hhead : src[pos]? = u[0]? := hat.getElem? (List.length_pos_iff.mpr hu.ne_nil)
      exact braced_iff.mpr ⟨by rw [List.head?_eq_getElem?, ← hhead, hbrace], hu⟩
    · rintro ⟨hle, hbraced⟩
      have hcomplete := (braced_iff.mp hbraced).2
      have hlen := src.length_window pos stop
      have hne := List.length_pos_iff.mpr hcomplete.ne_nil
      exact ⟨_, hcomplete, src.hasAt_window pos stop, by omega, by omega⟩
  refine ⟨hfound, fun stop stop' hle hle' h h' => ?_, ?_⟩
  · have := (hfound stop).mpr ⟨hle, h⟩
    exact Option.some.inj (this.symm.trans ((hfound stop').mpr ⟨hle', h'⟩))
  · rw [Option.eq_none_iff_forall_ne_some]
    exact forall_congr' fun stop => by rw [Ne, hfound, not_and]

/-- Braces in a literal, in comments and in another expression, and a limit that cuts the expression
off. -/
theorem expression_found_iff_nested : ∃ src : Source,
    src.window 2 27 = "\x7b'\x7d\\'' /* \x7d */ \x7ba // \x7d\n\x7d\x7d".toList ∧
      Expression.stop? src 2 src.size = some 27 ∧ Expression.stop? src 2 26 = none := by
  let src := Source.ofString "a \x7b'\x7d\\'' /* \x7d */ \x7ba // \x7d\n\x7d\x7d b"
  have hwindow : src.window 2 27 = "\x7b'\x7d\\'' /* \x7d */ \x7ba // \x7d\n\x7d\x7d".toList := by
    decide +kernel
  have hplain {c : Char} {v : List Char} (hv : Items v) (hc : (!isQuote c && c != '\x7b' &&
      c != '\x7d' && c != '/') = true) : Items (c :: v) := by
    simp only [Bool.and_eq_true, Bool.not_eq_true', bne_iff_ne] at hc
    exact .other hc.1.1.1 hc.1.1.2 hc.1.2 (fun h => absurd h hc.2) hv
  have hinner : Items "a // \x7d\n".toList :=
    hplain (hplain (.lineComment (u := " \x7d".toList) (v := []) (by decide) (hplain .nil rfl)) rfl)
      rfl
  have hbraced : Braced (src.window 2 27) := by
    rw [hwindow]
    refine ⟨"'\x7d\\'' /* \x7d */ \x7ba // \x7d\n\x7d".toList, ?_, rfl⟩
    exact .literal (u := "\x7d\\'".toList) rfl
      (.plain (by decide) (by decide) (by decide) (.escaped _ .nil)) (hplain
        (.blockComment (u := " \x7d ".toList) (by decide +kernel)
          (hplain (.braced hinner .nil) rfl)) rfl)
  obtain ⟨hfound, hunique, -⟩ := @expression_found_iff src 2 src.size
    (Nat.le_refl _) (by decide +kernel)
  obtain ⟨-, -, hnone⟩ := @expression_found_iff src 2 26
    (by decide +kernel) (by decide +kernel)
  refine ⟨src, hwindow, (hfound 27).mpr ⟨by decide +kernel, hbraced⟩, hnone.mpr fun s hs h => ?_⟩
  have hsize : 27 ≤ src.size := by decide +kernel
  have := hunique s 27 (by omega) hsize h hbraced
  omega

end MdxProse
