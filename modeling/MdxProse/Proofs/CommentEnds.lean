import Mathlib.Data.List.Infix
import MdxProse.Html

/-!
# Where comments end

A comment is written with its text as it is, so it ends at the first mark that ends comments, even
if that mark is part of the text.  The mark that is written is `-->`.  HTML knows three others:
`--!>`, wherever it stands, and `>` and `->` at the very start of a comment.

* `Html.before?`: what stands before the first of some marks.  `Html.before?_own_iff`: **this is the
  text of a comment if and only if that holds none of them.**
* `Html.endsItself_iff`: **the first `-->` is the comment's own if and only if its text holds
  none.**
* `Html.readsWhole_iff`: **HTML takes all of the text for the comment if and only if no mark of HTML
  cuts it short.**
-/

namespace MdxProse.Html

/-- The mark that is written at the end of a comment. -/
def commentEnd : List Char :=
  "-->".toList

/-- The marks at which HTML ends a comment, wherever they stand in it. -/
def endMarks : List (List Char) :=
  [commentEnd, "--!>".toList]

/-- The marks at which HTML ends a comment that has just started. -/
def startMarks : List (List Char) :=
  [">".toList, "->".toList]

/-- How many characters stand before the first of the marks. -/
def before? (marks : List (List Char)) (w : List Char) : Option Nat :=
  w.tails.findIdx? fun r => marks.any (·.isPrefixOf r)

/-- How many characters HTML takes for the text of a comment, from right after `<!--` on. -/
def commentLength? (w : List Char) : Option Nat :=
  if startMarks.any (·.isPrefixOf w) then some 0 else before? endMarks w

/-- The text holds the mark that is written at the end of a comment. -/
def Leaks (value : String) : Prop :=
  commentEnd <:+: value.toList

instance (value : String) : Decidable (Leaks value) :=
  inferInstanceAs (Decidable (commentEnd <:+: value.toList))

/-- The text holds a mark at which HTML ends a comment. -/
def HoldsEnd (value : String) : Prop :=
  ∃ m ∈ endMarks, m <:+: value.toList

instance (value : String) : Decidable (HoldsEnd value) :=
  inferInstanceAs (Decidable (∃ m ∈ endMarks, m <:+: value.toList))

/-- A comment with this text is cut short by HTML: the text holds a mark that ends comments, or
starts with one that does so there. -/
def CutShort (value : String) : Prop :=
  HoldsEnd value ∨ ∃ m ∈ startMarks, m <+: value.toList

instance (value : String) : Decidable (CutShort value) :=
  inferInstanceAs (Decidable (HoldsEnd value ∨ ∃ m ∈ startMarks, m <+: value.toList))

/-- Whatever is written after the comment, the first `-->` in it is its own, right after its text.
HTML may end it before that: see `ReadsWhole`. -/
def EndsItself (value : String) : Prop :=
  ∀ rest, Text.indexOf? commentEnd ((write (.comment value)).toList.drop 4 ++ rest) =
    some value.toList.length

/-- Whatever is written after the comment, HTML takes the whole text for the text of the comment,
and so ends the comment at its own mark. -/
def ReadsWhole (value : String) : Prop :=
  ∀ rest, commentLength? ((write (.comment value)).toList.drop 4 ++ rest) =
    some value.toList.length

/-! ### The first mark -/

variable {marks : List (List Char)} {m v : List Char}

theorem indexOf?_eq_before? (m w : List Char) : Text.indexOf? m w = before? [m] w := by
  induction w with
  | nil => cases m <;> rfl
  | cons c w ih =>
    rw [Text.indexOf?, before?, List.tails_cons, List.findIdx?_cons, ih, before?, List.any_cons,
      List.any_nil, Bool.or_false]

theorem before?_eq_none_iff : before? marks v = none ↔ ∀ m ∈ marks, ¬ m <:+: v := by
  simp only [before?, List.findIdx?_eq_none_iff, List.mem_tails, Bool.eq_false_iff, ne_eq,
    List.any_eq_true, List.isPrefixOf_iff_prefix, List.infix_iff_prefix_suffix, not_exists, not_and]
  exact ⟨fun h m hm r hr hv => h r hv m hm hr, fun h r hv m hm hr => h m hm r hr hv⟩

theorem before?_lt (hne : [] ∉ marks) {i : Nat} (h : before? marks v = some i) : i < v.length := by
  obtain ⟨hi, hmark, -⟩ := List.findIdx?_eq_some_iff_getElem.mp h
  refine Nat.lt_of_le_of_ne (by simpa [Nat.lt_succ_iff] using hi) ?_
  rintro rfl
  obtain ⟨m, hm, hp⟩ := List.any_eq_true.mp hmark
  rw [List.getElem_tails, List.drop_length, List.isPrefixOf_iff_prefix, List.prefix_nil] at hp
  exact hne (hp ▸ hm)

/-- No end of a mark starts like what ends a comment, but for that mark itself. -/
theorem eq_of_suffix : ∀ m ∈ startMarks ++ endMarks, ∀ s ∈ m.tails, s.take 3 <+: commentEnd →
    s = [] ∨ s = m ∧ m = commentEnd := by
  decide

/-- A text makes no mark together with what ends its comment. -/
theorem prefix_of_prefix_own (hm : m ∈ startMarks ++ endMarks) {rest : List Char}
    (h : m <+: v ++ (commentEnd ++ rest)) : m <+: v ∨ v = [] ∧ m = commentEnd := by
  obtain ⟨x, hx⟩ := h
  rcases List.append_eq_append_iff.mp hx with ⟨u, rfl, -⟩ | ⟨s, rfl, hs⟩
  · exact .inl (List.prefix_append m u)
  · have htake : s.take 3 <+: commentEnd := List.IsPrefix.take ⟨x, hs.symm⟩ 3
    rcases eq_of_suffix _ hm s ((List.mem_tails _ _).mpr (List.suffix_append v s)) htake with
      rfl | ⟨hself, hown⟩
    · exact .inl (by rw [List.append_nil])
    · exact .inr ⟨List.self_eq_append_left.mp hself, hown⟩

theorem any_prefix_own (hsub : marks ⊆ startMarks ++ endMarks) (hne : v ≠ [] ∨ commentEnd ∉ marks)
    (rest : List Char) :
    marks.any (·.isPrefixOf (v ++ (commentEnd ++ rest))) = marks.any (·.isPrefixOf v) := by
  rw [Bool.eq_iff_iff, List.any_eq_true, List.any_eq_true]
  simp only [List.isPrefixOf_iff_prefix]
  refine exists_congr fun m => and_congr_right fun hm => ⟨fun h => ?_, fun h => ?_⟩
  · refine (prefix_of_prefix_own (hsub hm) h).resolve_right fun hown => ?_
    exact hne.elim (fun hv => hv hown.1) fun hmark => hmark (hown.2 ▸ hm)
  · exact h.trans (List.prefix_append v _)

/-- **Before the mark that ends a comment stands what stands before the first mark of its text**, or
all of the text. -/
theorem before?_own (hsub : marks ⊆ endMarks) (hown : commentEnd ∈ marks) (v rest : List Char) :
    before? marks (v ++ (commentEnd ++ rest)) = some ((before? marks v).getD v.length) := by
  induction v with
  | nil =>
    have hmark : marks.any (·.isPrefixOf (commentEnd ++ rest)) = true :=
      List.any_eq_true.mpr ⟨_, hown, List.isPrefixOf_iff_prefix.mpr (List.prefix_append _ _)⟩
    have hnone : before? marks [] = none := before?_eq_none_iff.mpr fun m hm h =>
      absurd (List.infix_nil.mp h ▸ hsub hm) (by decide)
    rw [hnone, List.nil_append]
    exact (List.findIdx?_cons ..).trans (if_pos hmark)
  | cons c v ih =>
    have hmark := any_prefix_own (List.Subset.trans hsub (List.subset_append_right startMarks _))
      (.inl (List.cons_ne_nil c v)) rest
    rw [List.cons_append] at hmark
    simp only [before?, List.cons_append, List.tails_cons, List.findIdx?_cons, hmark] at ih ⊢
    rw [ih]
    split
    · rfl
    · cases List.findIdx? _ v.tails <;> rfl

/-- **The text of a comment stands before the first of the marks** if and only if it holds none. -/
theorem before?_own_iff (hsub : marks ⊆ endMarks) (hown : commentEnd ∈ marks)
    (v rest : List Char) :
    before? marks (v ++ (commentEnd ++ rest)) = some v.length ↔ ∀ m ∈ marks, ¬ m <:+: v := by
  rw [before?_own hsub hown, ← before?_eq_none_iff, Option.some.injEq]
  cases h : before? marks v with
  | none => exact iff_of_true rfl rfl
  | some i =>
    have hlt := before?_lt (fun hnil => absurd (hsub hnil) (by decide)) h
    exact iff_of_false (Nat.ne_of_lt hlt) nofun

/-! ### Comments -/

theorem drop_write_comment (value : String) (rest : List Char) :
    (write (.comment value)).toList.drop 4 ++ rest = value.toList ++ (commentEnd ++ rest) := by
  rw [write, String.toList_append, String.toList_append, ← List.append_assoc]
  rfl

theorem indexOf?_commentEnd (h : ¬ commentEnd <:+: v) (rest : List Char) :
    Text.indexOf? commentEnd (v ++ commentEnd ++ rest) = some v.length := by
  rw [indexOf?_eq_before?, List.append_assoc, before?_own_iff (by decide) (by decide)]
  exact List.forall_mem_singleton.mpr h

/-- **The first `-->` is the comment's own if and only if its text holds none.** -/
theorem endsItself_iff (value : String) : EndsItself value ↔ ¬ Leaks value := by
  simp only [EndsItself, drop_write_comment, indexOf?_eq_before?]
  have hsub : [commentEnd] ⊆ endMarks := by decide
  simp only [before?_own_iff hsub List.mem_cons_self, Leaks, List.forall_mem_singleton,
    forall_const]

/-- **HTML takes the whole text for the comment if and only if nothing cuts it short.** -/
theorem readsWhole_iff (value : String) : ReadsWhole value ↔ ¬ CutShort value := by
  have hstart (rest : List Char) :
      startMarks.any (·.isPrefixOf (value.toList ++ (commentEnd ++ rest))) = true ↔
        ∃ m ∈ startMarks, m <+: value.toList := by
    rw [any_prefix_own (by decide) (.inr (by decide)), List.any_eq_true]
    simp only [List.isPrefixOf_iff_prefix]
  simp only [ReadsWhole, drop_write_comment, commentLength?, hstart]
  by_cases h : ∃ m ∈ startMarks, m <+: value.toList
  · -- HTML takes nothing, but the text holds the mark
    have hlen : value.toList.length ≠ 0 := by
      obtain ⟨m, hm, hp⟩ := h
      have hpos : 0 < m.length := (by decide : ∀ m ∈ startMarks, 0 < m.length) m hm
      exact Nat.ne_of_gt (Nat.lt_of_lt_of_le hpos hp.length_le)
    simp [CutShort, h, hlen.symm]
  · have hown : commentEnd ∈ endMarks := List.mem_cons_self
    simp [CutShort, HoldsEnd, h, before?_own_iff (List.Subset.refl endMarks) hown]

/-- An angle bracket at the start of a comment ends it, though the comment holds no arrow. -/
example : EndsItself "> leaked" ∧ ¬ ReadsWhole "> leaked" := by
  rw [endsItself_iff, readsWhole_iff, not_not]
  decide

end MdxProse.Html
