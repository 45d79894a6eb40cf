import MdxProse.Expression
import MdxProse.Proofs.Window

/-!
# Scanners look no further than what they accept

A scanner that accepts the beginning `u` of a text accepts it whatever comes after `u`: this is
`Local`.  Literals, comments and expressions are local.

`Expression.stop?_eq_some_iff` turns this into offsets: an expression is found exactly where a text
stands that is one.  So it is found, with the same end, under every limit that leaves it whole
(`Expression.stop?_of_stop_le`).
-/

namespace MdxProse

/-- A reader that takes a beginning of its text, at least one character, and never looks at what
comes after it. -/
def Local (f : List Char → Option (List Char)) : Prop :=
  ∀ w r, f w = some r → ∃ u, w = u ++ r ∧ u ≠ [] ∧ ∀ x, f (u ++ x) = some x

theorem dropWhile_resume {p : Char → Bool} {w x : List Char}
    (hx : x.head? = (w.dropWhile p).head?) : (w.takeWhile p ++ x).dropWhile p = x := by
  have hall : ∀ a ∈ w.takeWhile p, p a = true := List.all_eq_true.mp List.all_takeWhile
  rw [List.dropWhile_append_of_pos hall]
  cases x with
  | nil => rfl
  | cons c x =>
    have hc : p c = false := by
      have := List.head?_dropWhile_not p w
      rw [← hx] at this
      simpa using this
    rw [List.dropWhile_cons_of_neg (by simp [hc])]

theorem head?_append_congr {u : List Char} (hu : u ≠ []) (x y : List Char) :
    (u ++ x).head? = (u ++ y).head? := by
  obtain ⟨c, v, rfl⟩ := List.exists_cons_of_ne_nil hu
  rfl

theorem takeWhile_append_of_dropWhile {p : Char → Bool} {w v : List Char}
    (h : w.dropWhile p = v) : w = w.takeWhile p ++ v := by
  rw [← h, List.takeWhile_append_dropWhile]

/-! ### Literals and comments -/

theorem Literal.rest?_local (q : Char) : Local (Literal.rest? q) := by
  intro w r h
  fun_induction Literal.rest? q w with
  | case1 | case2 | case5 => simp at h
  | case3 c w ih =>
    obtain ⟨u, rfl, -, hu⟩ := ih h
    exact ⟨'\\' :: c :: u, rfl, by simp, fun x => by simpa [Literal.rest?] using hu x⟩
  | case4 c w h₁ h₂ hq =>
    simp only [Option.some.injEq] at h
    subst h
    have hc : c ≠ '\\' := by
      rintro rfl
      cases w with
      | nil => exact h₁ rfl rfl
      | cons d w => exact h₂ d w rfl rfl
    refine ⟨[c], rfl, by simp, fun x => ?_⟩
    rw [List.singleton_append, Literal.rest?.eq_4 _ _ _ (by simp [hc]) (by simp [hc]), if_pos hq]
  | case6 c w h₁ h₂ hq hn ih =>
    obtain ⟨u, rfl, hne, hu⟩ := ih h
    have hc : c ≠ '\\' := by
      rintro rfl
      cases hw : u ++ r with
      | nil => exact h₁ rfl hw
      | cons d w => exact h₂ d w rfl hw
    refine ⟨c :: u, rfl, by simp, fun x => ?_⟩
    rw [List.cons_append, Literal.rest?.eq_4 _ _ _ (by simp [hc]) (by simp [hc]), if_neg hq,
      if_neg hn, hu x]

theorem Comment.rest?_local : Local Comment.rest? := by
  intro w r h
  fun_induction Comment.rest? w with
  | case1 => simp at h
  | case2 w =>
    simp only [Option.some.injEq] at h
    subst h
    exact ⟨['*', '/'], rfl, by simp, fun x => rfl⟩
  | case3 c w hc ih =>
    obtain ⟨u, rfl, hne, hu⟩ := ih h
    obtain ⟨d, v, rfl⟩ := List.exists_cons_of_ne_nil hne
    refine ⟨c :: d :: v, rfl, by simp, fun x => ?_⟩
    have hcd : ¬(c = '*' ∧ d = '/') := fun h => hc (v ++ r) h.1 (by rw [h.2]; rfl)
    rw [List.cons_append, Comment.rest?.eq_3 _ _ (by simpa using hcd), hu x]

/-! ### Expressions -/

namespace Expression

theorem rest?_blockComment (d : Int) (r : List Char) :
    rest? d ('/' :: '*' :: r) = (Comment.rest? r).bind (rest? d) := by
  rw [rest?]
  split <;> simp_all

theorem rest?_quote (d : Int) {c : Char} (r : List Char) (hq : isQuote c = true) :
    rest? d (c :: r) = (Literal.rest? c r).bind (rest? d) := by
  have hc : c ≠ '/' := by rintro rfl; simp [isQuote] at hq
  rw [rest?.eq_4 _ _ _ (by simp [hc]) (by simp [hc]), if_pos hq]
  split <;> simp_all

theorem rest?_cons (d : Int) {c : Char} {r : List Char} (hq : isQuote c = false)
    (hb : ∀ r', c = '/' → r ≠ '*' :: r') (hl : ∀ r', c = '/' → r ≠ '/' :: r') :
    rest? d (c :: r) = if c == '{' then rest? (d + 1) r
      else if c == '}' then (if d - 1 = 0 then some r else rest? (d - 1) r)
      else rest? d r := by
  rw [rest?.eq_4 _ _ _ hb hl, if_neg (by simp [hq])]

/-- A character that opens no comment opens none before another end of the text either. -/
theorem ne_cons_append {c e : Char} {u r : List Char} (hu : u ≠ [])
    (h : ∀ r', c = '/' → u ++ r = e :: r' → False) (x : List Char) :
    ∀ r', c = '/' → u ++ x ≠ e :: r' := by
  obtain ⟨d, v, rfl⟩ := List.exists_cons_of_ne_nil hu
  rintro r' hc he
  simp only [List.cons_append, List.cons.injEq] at he
  exact h (v ++ r) hc (by rw [he.1]; rfl)

theorem rest?_local (d : Int) : Local (rest? d) := by
  intro w r h
  fun_induction rest? d w with
  | case1 | case3 | case6 => simp at h
  | case2 d w w' hc ih =>
    obtain ⟨u, rfl, -, hu⟩ := ih h
    obtain ⟨v, rfl, -, hv⟩ := Comment.rest?_local _ _ hc
    refine ⟨'/' :: '*' :: (v ++ u), by simp, by simp, fun x => ?_⟩
    rw [List.cons_append, List.cons_append, List.append_assoc, rest?_blockComment, hv,
      Option.bind_some, hu]
  | case4 d w ih =>
    obtain ⟨u, hd, hne, hu⟩ := ih h
    refine ⟨'/' :: '/' :: (w.takeWhile (· != '\n') ++ u), ?_, by simp, fun x => ?_⟩
    · rw [List.cons_append, List.cons_append, List.append_assoc,
        ← takeWhile_append_of_dropWhile hd]
    · rw [List.cons_append, List.cons_append, List.append_assoc, rest?,
        dropWhile_resume (hd ▸ head?_append_congr hne _ _), hu]
  | case5 d c w h₁ h₂ hq w' hl ih =>
    obtain ⟨u, rfl, -, hu⟩ := ih h
    obtain ⟨v, rfl, -, hv⟩ := Literal.rest?_local _ _ _ hl
    refine ⟨c :: (v ++ u), by simp, by simp, fun x => ?_⟩
    rw [List.cons_append, List.append_assoc, rest?_quote _ _ hq, hv, Option.bind_some, hu]
  | case8 d c w h₁ h₂ hq ho hc hd =>
    simp only [Option.some.injEq] at h
    subst h
    simp only [beq_iff_eq] at hc
    subst hc
    exact ⟨['}'], rfl, by simp, fun x => by
      rw [List.singleton_append, rest?_cons _ (by decide) (by simp) (by simp)]; simp [hd]⟩
  | case7 d c w h₁ h₂ hq ho ih =>
    obtain ⟨u, rfl, hne, hu⟩ := ih h
    refine ⟨c :: u, rfl, by simp, fun x => ?_⟩
    rw [List.cons_append, rest?_cons _ (by simpa using hq) (ne_cons_append hne h₁ x)
      (ne_cons_append hne h₂ x), if_pos ho, hu]
  | case9 d c w h₁ h₂ hq ho hc hd ih =>
    obtain ⟨u, rfl, hne, hu⟩ := ih h
    refine ⟨c :: u, rfl, by simp, fun x => ?_⟩
    rw [List.cons_append, rest?_cons _ (by simpa using hq) (ne_cons_append hne h₁ x)
      (ne_cons_append hne h₂ x), if_neg ho, if_pos hc, if_neg hd, hu]
  | case10 d c w h₁ h₂ hq ho hc ih =>
    obtain ⟨u, rfl, hne, hu⟩ := ih h
    refine ⟨c :: u, rfl, by simp, fun x => ?_⟩
    rw [List.cons_append, rest?_cons _ (by simpa using hq) (ne_cons_append hne h₁ x)
      (ne_cons_append hne h₂ x), if_neg ho, if_neg hc, hu]

/-- The text is an expression, whatever comes after it. -/
def Complete (u : List Char) : Prop :=
  ∀ x, rest? 0 (u ++ x) = some x

theorem Complete.ne_nil {u : List Char} (h : Complete u) : u ≠ [] := by
  rintro rfl
  have := h []
  rw [List.append_nil, rest?] at this
  cases this

variable {src : Source} {pos limit stop : Nat}

/-- **The scanner finds an expression exactly where a text stands that is one.** -/
theorem stop?_eq_some_iff :
    stop? src pos limit = some stop ↔ ∃ u, Complete u ∧ src.HasAt pos u ∧
      pos + u.length ≤ limit ∧ stop = pos + u.length := by
  simp only [stop?, Option.map_eq_some_iff]
  constructor
  · rintro ⟨r, hr, rfl⟩
    obtain ⟨u, hu, hne, hux⟩ := rest?_local 0 _ _ hr
    have hpre : u <+: src.window pos limit := ⟨r, hu.symm⟩
    have hat := Source.prefix_window_iff.mp hpre
    have hpos := List.length_pos_iff.mpr hne
    refine ⟨u, hux, hat.1, by omega, ?_⟩
    rw [hu, List.length_append, Nat.add_sub_cancel]
  · rintro ⟨u, hu, hat, hle, rfl⟩
    have hpre : u <+: src.window pos limit := Source.prefix_window_iff.mpr ⟨hat, by omega⟩
    obtain ⟨r, hr⟩ := hpre
    refine ⟨r, hr ▸ hu r, ?_⟩
    rw [← hr, List.length_append, Nat.add_sub_cancel]

/-- **An expression is found under every limit that leaves it whole.** -/
theorem stop?_of_stop_le {limit' : Nat} (h : stop? src pos limit = some stop)
    (hl : stop ≤ limit') : stop? src pos limit' = some stop := by
  obtain ⟨u, hu, hat, hle, rfl⟩ := stop?_eq_some_iff.mp h
  exact stop?_eq_some_iff.mpr ⟨u, hu, hat, hl, rfl⟩

theorem stop_le_limit (h : stop? src pos limit = some stop) : stop ≤ limit := by
  obtain ⟨u, hu, hat, hle, rfl⟩ := stop?_eq_some_iff.mp h
  exact hle

theorem stop_le_size (h : stop? src pos limit = some stop) : stop ≤ src.size := by
  obtain ⟨u, hu, hat, hle, rfl⟩ := stop?_eq_some_iff.mp h
  exact hat.le_size hu.ne_nil

theorem stop?_size (h : stop? src pos limit = some stop) :
    stop? src pos src.size = some stop :=
  stop?_of_stop_le h (stop_le_size h)

end Expression

end MdxProse
