import MdxProse.Proofs.TagRun

/-!
# Matching tags with a stack

Tags match like brackets: with a stack of the tags that are open, each closing tag must have the
name of the innermost one.  A reader may also look for the partner of an opening tag ahead, as the
first closing tag of its name that is not used up by opening tags of that name before it, and then
read what is between the two by itself.

* `Outline`: which elements enclose what.  `Item.match?`: the outline that a stack finds.
* `Item.Matched`: the items have an outline.  `Item.Matched.match?_eq`: the stack finds it.
* `Item.balanced_iff`: **there is an outline if and only if the tags are balanced.**
* `Item.partner?`: the partner of an opening tag by its name alone.  `Item.Matched.partner?_eq`:
  **it is the one that the stack finds**, if there is an outline.
* `Tag.Within`: how many more tags are opened than closed up to any place.
-/

namespace MdxProse

namespace Tag

variable {ts us : List Tag} {o c t : Tag} {n : Nat}

theorem Matched.balancedFrom_append (h : Matched ts) (open_ : List (Option String))
    (rest : List Tag) : balancedFrom open_ (ts ++ rest) = balancedFrom open_ rest := by
  induction h generalizing open_ rest with
  | nil => rfl
  | single hf _ ih => simp [balancedFrom, hf, ih]
  | pair ho hc hn _ _ ihi ih => simp [balancedFrom, ho, hc, hn, ihi, ih]

/-! ### How deep tags nest -/

/-- Up to any place in the run, at most `n` more tags are opened than closed. -/
def Within (n : Nat) (ts : List Tag) : Prop :=
  ∀ us, us <+: ts → us.countP isOpening ≤ us.countP isClosing + n

theorem Within.of_length_le (h : ts.length ≤ n) : Within n ts := by
  intro us hus
  have := List.countP_le_length (p := isOpening) (l := us)
  have := hus.length_le
  omega

theorem Within.left (h : Within n (ts ++ us)) : Within n ts :=
  fun vs hvs => h vs (hvs.trans (List.prefix_append ts us))

theorem Within.right (h : Within n (ts ++ us)) (hts : ts.countP isOpening = ts.countP isClosing) :
    Within n us := by
  intro vs hvs
  have := h (ts ++ vs) ((List.prefix_append_right_inj ts).mpr hvs)
  rw [List.countP_append, List.countP_append] at this
  omega

theorem Within.tail (h : Within n (t :: ts)) (hf : t.form = .selfClosing) : Within n ts := by
  have h : Within n ([t] ++ ts) := h
  exact h.right (by simp [isOpening, isClosing, hf])

theorem Within.opener (h : Within n (o :: ts)) (ho : o.form = .opening) :
    ∃ m, n = m + 1 ∧ Within m ts := by
  have hcount (us : List Tag) (hus : us <+: ts) :
      us.countP isOpening + 1 ≤ us.countP isClosing + n := by
    have := h (o :: us) ((List.prefix_cons_inj o).mpr hus)
    simpa [isOpening, isClosing, ho] using this
  have hn := hcount [] List.nil_prefix
  obtain ⟨m, rfl⟩ := Nat.exists_eq_add_one.mpr (Nat.lt_of_lt_of_le Nat.zero_lt_one
    (by simpa using hn))
  refine ⟨m, rfl, fun us hus => ?_⟩
  have := hcount us hus
  omega

theorem Matched.countP_eq (h : Matched ts) : ts.countP isOpening = ts.countP isClosing := by
  induction h with
  | nil => rfl
  | single hf _ ih => simp [isOpening, isClosing, hf, ih]
  | @pair o c inside ts ho hc _ _ _ ihi ih =>
    have ho₁ : o.isOpening = true := by rw [isOpening, ho]; rfl
    have ho₂ : o.isClosing = false := by rw [isClosing, ho]; rfl
    have hc₁ : c.isOpening = false := by rw [isOpening, hc]; rfl
    have hc₂ : c.isClosing = true := by rw [isClosing, hc]; rfl
    simp only [List.countP_cons, List.countP_append, ho₁, ho₂, hc₁, hc₂, ihi, ih]
    simp only [if_true, Bool.false_eq_true, if_false]
    omega

end Tag

/-- What encloses what in a text: an element what is inside it.  Besides elements there are lines of
text. -/
inductive Outline
  | element (name : Option String) (span : Span) (inside : List Outline)
  | line (number : Nat)

/-- What tags are matched among: a tag, or a line of text. -/
inductive Item
  | tag (t : Tag)
  | line (number : Nat)

namespace Item

/-- The tag that the item is. -/
def tag? : Item → Option Tag
  | tag t => some t
  | line _ => none

/-- The tags among the items. -/
def tags (is : List Item) : List Tag :=
  is.filterMap tag?

/-! ### The stack -/

/-- An opening tag that waits for its closing tag, and what stands before it at its level, last
first. -/
structure Waiting where
  opener : Tag
  before : List Outline

/-- Matches tags with a stack.  `waiting` are the tags that are open, innermost first, and `done` is
what stands after the innermost one, last first. -/
def matchFrom : List Waiting → List Outline → List Item → Option (List Outline)
  | [], done, [] => some done.reverse
  | _ :: _, _, [] => none
  | waiting, done, .line i :: is => matchFrom waiting (.line i :: done) is
  | waiting, done, .tag t :: is =>
    match t.form, waiting with
    | .opening, _ => matchFrom (⟨t, done⟩ :: waiting) [] is
    | .selfClosing, _ => matchFrom waiting (.element t.name t.span [] :: done) is
    | .closing, [] => none
    | .closing, w :: waiting =>
      if w.opener.name = t.name then
        matchFrom waiting
          (.element t.name ⟨w.opener.span.start, t.span.stop⟩ done.reverse :: w.before) is
      else none

/-- The outline of the items, if each closing tag has the name of the innermost open one and none
stays open. -/
def match? (is : List Item) : Option (List Outline) :=
  matchFrom [] [] is

/-- **The outline of items** whose tags match like brackets. -/
inductive Matched : List Item → List Outline → Prop
  | nil : Matched [] []
  | line {i : Nat} {is : List Item} {os : List Outline} : Matched is os →
      Matched (.line i :: is) (.line i :: os)
  | single {t : Tag} {is : List Item} {os : List Outline} : t.form = .selfClosing →
      Matched is os → Matched (.tag t :: is) (.element t.name t.span [] :: os)
  | pair {o c : Tag} {inside is : List Item} {os₁ os : List Outline} : o.form = .opening →
      c.form = .closing → c.name = o.name → Matched inside os₁ → Matched is os →
      Matched (.tag o :: (inside ++ .tag c :: is))
        (.element o.name ⟨o.span.start, c.span.stop⟩ os₁ :: os)

variable {is inside after : List Item} {os os' : List Outline} {o c t : Tag} {name : Option String}

theorem Matched.matchFrom_append (h : Matched is os) (waiting : List Waiting)
    (done : List Outline) (rest : List Item) :
    matchFrom waiting done (is ++ rest) = matchFrom waiting (os.reverse ++ done) rest := by
  induction h generalizing waiting done rest with
  | nil => rfl
  | line _ ih => simp [matchFrom, ih]
  | single hf _ ih => simp [matchFrom, hf, ih]
  | pair ho hc hn _ _ ihi ih => simp [matchFrom, ho, hc, hn, ihi, ih]

/-- **The stack finds the outline.** -/
theorem Matched.match?_eq (h : Matched is os) : match? is = some os := by
  have := h.matchFrom_append [] [] []
  rw [List.append_nil] at this
  rw [match?, this]
  simp [matchFrom]

/-! ### Balanced tags -/

theorem tags_append (is is' : List Item) : tags (is ++ is') = tags is ++ tags is' :=
  List.filterMap_append

theorem tags_pair (o c : Tag) (inside is : List Item) :
    tags (.tag o :: (inside ++ .tag c :: is)) = o :: (tags inside ++ c :: tags is) := by
  show o :: tags (inside ++ .tag c :: is) = _
  rw [tags_append]
  rfl

theorem tags_lines (i k : Nat) (is : List Item) :
    tags ((List.range' i k).map .line ++ is) = tags is := by
  have hnil : tags ((List.range' i k).map .line) = [] := by
    simp [tags, List.filterMap_map, Function.comp_def, tag?]
  rw [tags_append, hnil, List.nil_append]

theorem Matched.tagMatched (h : Matched is os) : Tag.Matched (tags is) := by
  induction h with
  | nil => exact .nil
  | line _ ih => exact ih
  | single hf _ ih => exact .single hf ih
  | pair ho hc hn _ _ ihi ih =>
    rw [tags_pair]
    exact .pair ho hc hn ihi ih

theorem Matched.exists_prepend {ls : List Item} (h : Matched is os)
    (hls : ∀ x ∈ ls, x.tag? = none) : ∃ os, Matched (ls ++ is) os := by
  induction ls with
  | nil => exact ⟨os, h⟩
  | cons x ls ih =>
    obtain ⟨hx, hls⟩ := List.forall_mem_cons.mp hls
    obtain ⟨os', hos'⟩ := ih hls
    cases x with
    | tag t => cases hx
    | line i => exact ⟨_, .line hos'⟩

theorem split_of_tags {ts : List Tag} (h : tags is = t :: ts) :
    ∃ ls is', is = ls ++ .tag t :: is' ∧ (∀ x ∈ ls, x.tag? = none) ∧ tags is' = ts := by
  obtain ⟨ls, x, is', rfl, hls, hx, hts⟩ := List.filterMap_eq_cons_iff.mp h
  cases x with
  | tag u =>
    cases hx
    exact ⟨ls, is', rfl, hls, hts⟩
  | line i => cases hx

theorem exists_matched_of_tags {ts : List Tag} (h : Tag.Matched ts) {is : List Item}
    (hts : tags is = ts) : ∃ os, Matched is os := by
  induction h generalizing is with
  | nil =>
    obtain ⟨os, hos⟩ := Matched.nil.exists_prepend (List.filterMap_eq_nil_iff.mp hts)
    exact ⟨os, by rwa [List.append_nil] at hos⟩
  | single hf _ ih =>
    obtain ⟨ls, is', rfl, hls, hts⟩ := split_of_tags hts
    obtain ⟨os, hos⟩ := ih hts
    exact (Matched.single hf hos).exists_prepend hls
  | pair ho hc hn _ _ ihi ih =>
    obtain ⟨ls, is', rfl, hls, hts⟩ := split_of_tags hts
    obtain ⟨a, b, rfl, ha, hb⟩ := List.filterMap_eq_append_iff.mp hts
    obtain ⟨ls', is', rfl, hls', hts⟩ := split_of_tags hb
    have hinside : tags (a ++ ls') = tags a := by
      rw [tags_append, show tags ls' = [] from List.filterMap_eq_nil_iff.mpr hls', List.append_nil]
    obtain ⟨os₁, hos₁⟩ := ihi (hinside.trans ha)
    obtain ⟨os, hos⟩ := ih hts
    rw [← List.append_assoc a]
    exact (Matched.pair ho hc hn hos₁ hos).exists_prepend hls

/-- **There is an outline if and only if the tags are balanced.** -/
theorem balanced_iff : Tag.balanced (tags is) = true ↔ ∃ os, Matched is os := by
  constructor
  · intro h
    exact exists_matched_of_tags (Tag.matched_of_balanced h) rfl
  · rintro ⟨os, h⟩
    have := h.tagMatched.balancedFrom_append [] []
    rw [List.append_nil] at this
    rw [Tag.balanced, this]
    rfl

/-! ### Partners by name -/

/-- The first closing tag named `name` that is not used up by `inner` opening tags of that name
before the items and those among them: what stands before it, the tag, and what stands after it. -/
def partner? (name : Option String) (inner : Nat) : List Item → Option (List Item × Tag × List Item)
  | [] => none
  | i :: is =>
    let keep (found : Option (List Item × Tag × List Item)) :=
      found.map fun (before, c, after) => (i :: before, c, after)
    match i with
    | .line _ => keep (partner? name inner is)
    | .tag t =>
      if t.name = name then
        match t.form, inner with
        | .opening, _ => keep (partner? name (inner + 1) is)
        | .selfClosing, _ => keep (partner? name inner is)
        | .closing, 0 => some ([], t, is)
        | .closing, n + 1 => keep (partner? name n is)
      else keep (partner? name inner is)

theorem Matched.partner?_append (h : Matched is os) (name : Option String) (inner : Nat)
    (rest : List Item) : partner? name inner (is ++ rest) =
      (partner? name inner rest).map fun (before, c, after) => (is ++ before, c, after) := by
  induction h generalizing inner rest with
  | nil => simp
  | line _ ih => simp [partner?, ih, Function.comp_def]
  | @single t is os hf _ ih =>
    by_cases hn : t.name = name <;> simp [partner?, hn, hf, ih, Function.comp_def]
  | @pair o c inside is os₁ os ho hc hn _ _ ihi ih =>
    by_cases hname : o.name = name <;>
      simp [partner?, hname, ho, hc, hn, ihi, ih, Function.comp_def]

/-- **The partner by name is the one that the stack finds.** -/
theorem Matched.partner?_eq (h : Matched inside os) (hc : c.form = .closing) (after : List Item) :
    partner? c.name 0 (inside ++ .tag c :: after) = some (inside, c, after) := by
  rw [h.partner?_append]
  simp [partner?, hc]

theorem of_partner? {inner : Nat} (h : partner? name inner is = some (inside, c, after)) :
    is = inside ++ .tag c :: after ∧ c.form = .closing ∧ c.name = name := by
  induction is generalizing inner inside with
  | nil => cases h
  | cons i is ih =>
    have hkeep {inner : Nat} (h : (partner? name inner is).map
        (fun (before, c, after) => (i :: before, c, after)) = some (inside, c, after)) :
        i :: is = inside ++ .tag c :: after ∧ c.form = .closing ∧ c.name = name := by
      obtain ⟨⟨before, c', after'⟩, hfound, heq⟩ := Option.map_eq_some_iff.mp h
      cases heq
      obtain ⟨rfl, hc⟩ := ih hfound
      exact ⟨rfl, hc⟩
    cases i with
    | line j => exact hkeep h
    | tag t =>
      simp only [partner?] at h
      split at h
      · next hname =>
        split at h
        · exact hkeep h
        · exact hkeep h
        · next hf =>
          cases h
          exact ⟨rfl, hf, hname⟩
        · exact hkeep h
      · exact hkeep h

/-- Matching items that start with an opening tag go on with what is inside it, its partner by name
and what is after that. -/
theorem Matched.opener_inv {is : List Item} (h : Matched (.tag o :: is) os)
    (ho : o.form = .opening) : ∃ inside c after os₁ os₂,
      partner? o.name 0 is = some (inside, c, after) ∧ c.form = .closing ∧ Matched inside os₁ ∧
        Matched after os₂ := by
  cases h with
  | single hf => exact absurd (ho.symm.trans hf) (by decide)
  | @pair _ c inside after os₁ os₂ _ hc hn hi ha =>
    exact ⟨inside, c, after, os₁, os₂, hn ▸ hi.partner?_eq hc after, hc, hi, ha⟩

/-! ### Readers that answer as the stack does -/

/-- **A reader answers as the stack does**: it succeeds if the items have an outline, with what `Q`
says of the result and the outline, and fails if they have none. -/
def Answered {ε α : Type} (is : List Item) (x : Except ε α) (Q : α → List Outline → Prop) : Prop :=
  (∃ os a, Matched is os ∧ x = .ok a ∧ Q a os) ∨ ((∀ os, ¬ Matched is os) ∧ ∃ e, x = .error e)

namespace Answered

variable {ε ε' α β : Type} {x : Except ε α} {y : Except ε' β} {P : α → List Outline → Prop}
  {Q : β → List Outline → Prop} {b : β}

theorem nil (hy : y = .ok b) (hq : Q b []) : Answered [] y Q :=
  .inl ⟨[], b, .nil, hy, hq⟩

theorem line {i : Nat} (h : Answered is y fun b os => Q b (.line i :: os)) :
    Answered (.line i :: is) y Q := by
  rcases h with ⟨os, b, hos, hy, hq⟩ | ⟨hno, he⟩
  · exact .inl ⟨_, b, .line hos, hy, hq⟩
  · refine .inr ⟨fun os h => ?_, he⟩
    cases h with
    | line h => exact hno _ h

theorem lines {i k : Nat}
    (h : Answered is y fun b os => Q b ((List.range' i k).map .line ++ os)) :
    Answered ((List.range' i k).map .line ++ is) y Q := by
  induction k generalizing i Q with
  | zero => exact h
  | succ k ih =>
    rw [List.range'_succ] at h ⊢
    exact .line (ih h)

theorem single (hf : t.form = .selfClosing)
    (h : Answered is y fun b os => Q b (.element t.name t.span [] :: os)) :
    Answered (.tag t :: is) y Q := by
  rcases h with ⟨os, b, hos, hy, hq⟩ | ⟨hno, he⟩
  · exact .inl ⟨_, b, .single hf hos, hy, hq⟩
  · refine .inr ⟨fun os h => ?_, he⟩
    cases h with
    | single _ h => exact hno _ h
    | pair ho => exact absurd (ho.symm.trans hf) (by decide)

theorem stray (hf : t.form = .closing) (he : ∃ e, y = .error e) : Answered (.tag t :: is) y Q := by
  refine .inr ⟨fun os h => ?_, he⟩
  cases h with
  | single hs => exact absurd (hs.symm.trans hf) (by decide)
  | pair ho => exact absurd (ho.symm.trans hf) (by decide)

theorem unclosed (hf : o.form = .opening) (hp : partner? o.name 0 is = none)
    (he : ∃ e, y = .error e) : Answered (.tag o :: is) y Q := by
  refine .inr ⟨fun os h => ?_, he⟩
  obtain ⟨_, _, _, _, _, hsome, -⟩ := h.opener_inv hf
  rw [hp] at hsome
  cases hsome

/-- **An opening tag with a partner**: what is inside is read by itself, and then what is after. -/
theorem pair (hf : o.form = .opening) (hp : partner? o.name 0 is = some (inside, c, after))
    (hx : Answered inside x P) (herror : ∀ e, x = .error e → ∃ e, y = .error e)
    (hok : ∀ a os₁, Matched inside os₁ → x = .ok a → P a os₁ → Answered after y fun b os =>
      Q b (.element o.name ⟨o.span.start, c.span.stop⟩ os₁ :: os)) :
    Answered (.tag o :: is) y Q := by
  obtain ⟨rfl, hc, hn⟩ := of_partner? hp
  have hinv {os : List Outline} (h : Matched (.tag o :: (inside ++ .tag c :: after)) os) :
      (∃ os₁, Matched inside os₁) ∧ ∃ os₂, Matched after os₂ := by
    obtain ⟨_, _, _, os₁, os₂, hp', -, hi, ha⟩ := h.opener_inv hf
    cases hp.symm.trans hp'
    exact ⟨⟨os₁, hi⟩, os₂, ha⟩
  rcases hx with ⟨os₁, a, hi, hx, hpa⟩ | ⟨hno, e, hx⟩
  · rcases hok a os₁ hi hx hpa with ⟨os, b, ha, hy, hq⟩ | ⟨hno, he⟩
    · exact .inl ⟨_, b, .pair hf hc hn hi ha, hy, hq⟩
    · refine .inr ⟨fun os h => ?_, he⟩
      obtain ⟨-, os₂, ha⟩ := hinv h
      exact hno os₂ ha
  · refine .inr ⟨fun os h => ?_, herror e hx⟩
    obtain ⟨⟨os₁, hi⟩, -⟩ := hinv h
    exact hno os₁ hi

/-- What is known of the result may refer to the reader. -/
theorem result (h : Answered is x P) : Answered is x fun a os => x = .ok a ∧ P a os := by
  rcases h with ⟨os, a, hos, hx, hp⟩ | h
  · exact .inl ⟨os, a, hos, hx, hx, hp⟩
  · exact .inr h

theorem exists_ok (h : Answered is x P) (hos : Matched is os) : ∃ a, x = .ok a := by
  rcases h with ⟨_, a, -, hx, -⟩ | ⟨hno, -⟩
  · exact ⟨a, hx⟩
  · exact absurd hos (hno os)

/-- A reader may go on from a result in a way that cannot fail. -/
theorem andThen (h : Answered is x P) {f : Except ε α → Except ε' β}
    (herror : ∀ e, ∃ e', f (.error e) = .error e')
    (hok : ∀ a os, P a os → ∃ b, f (.ok a) = .ok b ∧ Q b os) : Answered is (f x) Q := by
  rcases h with ⟨os, a, hos, rfl, hp⟩ | ⟨hno, e, rfl⟩
  · obtain ⟨b, hb, hq⟩ := hok a os hp
    exact .inl ⟨os, b, hos, hb, hq⟩
  · exact .inr ⟨hno, herror e⟩

/-- **A reader that answers succeeds if and only if the tags are balanced**, and what it reads is as
the stack has it. -/
theorem of_balanced (h : Answered is x P) :
    (Tag.balanced (tags is) = true → ∃ os a, match? is = some os ∧ x = .ok a ∧ P a os) ∧
      (Tag.balanced (tags is) = false → ∃ e, x = .error e) := by
  rcases h with ⟨os, a, hos, hx, hp⟩ | ⟨hno, he⟩
  · have hbalanced := balanced_iff.mpr ⟨os, hos⟩
    exact ⟨fun _ => ⟨os, a, hos.match?_eq, hx, hp⟩, fun hb => by simp [hbalanced] at hb⟩
  · refine ⟨fun hb => ?_, fun _ => he⟩
    obtain ⟨os, hos⟩ := balanced_iff.mp hb
    exact absurd hos (hno os)

end Answered

/-! ### Room for what is inside and after an element -/

variable {n : Nat}

theorem within_inside (h : Tag.Within n (tags (.tag o :: (inside ++ .tag c :: after))))
    (ho : o.form = .opening) : ∃ m, n = m + 1 ∧ Tag.Within m (tags inside) := by
  rw [tags_pair] at h
  obtain ⟨m, hm, h⟩ := h.opener ho
  exact ⟨m, hm, h.left⟩

theorem Matched.within_after (h : Matched inside os)
    (hw : Tag.Within n (tags (.tag o :: (inside ++ .tag c :: after)))) (ho : o.form = .opening)
    (hc : c.form = .closing) (hn : c.name = o.name) : Tag.Within n (tags after) := by
  have hpair : Tag.Matched (o :: (tags inside ++ [c])) := .pair ho hc hn h.tagMatched .nil
  have hsplit : tags (.tag o :: (inside ++ .tag c :: after)) =
      (o :: (tags inside ++ [c])) ++ tags after := by
    simp [tags_pair]
  rw [hsplit] at hw
  exact hw.right hpair.countP_eq

end Item

end MdxProse
