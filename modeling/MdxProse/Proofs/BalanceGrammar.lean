import MdxProse.Proofs.FirstPartner
import MdxProse.Proofs.Matching

/-!
# Balance as a grammar, and its completion

Tags without the self-closing ones are brackets, of one kind for each name and one for fragments.
What it means that they match is said by a grammar, which knows of no stack and of no counting.  The
two checks of a run read the same grammar: the one asks for a word of it, the other for a word of it
but for closing tags in between that nothing in the run opens.

* `Tag.brackets`: the run without its self-closing tags.  `Tag.Derived`: the words of the grammar.
* `Tag.LeftOver`: the closing tags that stand between words of the grammar.
  `Tag.LeftOver.eq_unopened`: **which ones these are is told by the run**, as they are the ones that
  come when nothing is open.
* `Tag.balancedFrom_iff`: **a run closes exactly the elements that its left-over tags name.**
* `Tag.balance_is_completion`: **a run leaves nothing open exactly if opening tags before it make it
  balanced, and these are then the left-over ones in reverse.**
-/

namespace MdxProse.Tag

variable {ts us cs cs' : List Tag} {c o t : Tag} {n : Nat}

/-! ### The grammar -/

/-- The run without its self-closing tags. -/
def brackets (ts : List Tag) : List Tag :=
  ts.filter fun t => t.form != .selfClosing

/-- The words in which brackets match: the empty one, and an opening tag, a word, a closing tag of
the same name and a word. -/
inductive Derived : List Tag → Prop
  | empty : Derived []
  | pair {o c : Tag} {inside after : List Tag} : o.form = .opening → c.form = .closing →
      c.name = o.name → Derived inside → Derived after → Derived (o :: (inside ++ c :: after))

/-- The second list has the closing tags that stand between words of the grammar in the first. -/
inductive LeftOver : List Tag → List Tag → Prop
  | none {ts : List Tag} : Derived ts → LeftOver ts []
  | cons {c : Tag} {ts us cs : List Tag} : Derived ts → c.form = .closing → LeftOver us cs →
      LeftOver (ts ++ c :: us) (c :: cs)

theorem brackets_append (ts us : List Tag) : brackets (ts ++ us) = brackets ts ++ brackets us :=
  List.filter_append ts us

theorem brackets_cons (h : t.form ≠ .selfClosing) : brackets (t :: ts) = t :: brackets ts :=
  List.filter_cons_of_pos (bne_iff_ne.mpr h)

theorem brackets_selfClosing (h : t.form = .selfClosing) : brackets (t :: ts) = brackets ts := by
  apply List.filter_cons_of_neg
  intro hne
  exact bne_iff_ne.mp hne h

theorem balancedFrom_brackets (open_ : List (Option String)) (ts : List Tag) :
    balancedFrom open_ (brackets ts) = balancedFrom open_ ts := by
  induction ts generalizing open_ with
  | nil => rfl
  | cons t ts ih =>
    cases hform : t.form with
    | opening =>
      rw [brackets_cons (by simp [hform])]
      simp only [balancedFrom, hform, ih]
    | selfClosing =>
      rw [brackets_selfClosing hform, ih]
      simp only [balancedFrom, hform]
    | closing =>
      rw [brackets_cons (by simp [hform])]
      cases open_ with
      | nil => simp only [balancedFrom, hform]
      | cons name open_ => simp only [balancedFrom, hform, ih]

theorem Matched.derived (h : Matched ts) : Derived (brackets ts) := by
  induction h with
  | nil => exact .empty
  | single hform _ ih =>
    rw [brackets_selfClosing hform]
    exact ih
  | pair ho hc hname _ _ ihi ih =>
    rw [brackets_cons (by simp [ho]), brackets_append, brackets_cons (by simp [hc])]
    exact .pair ho hc hname ihi ih

theorem Derived.matched (h : Derived ts) : Matched ts := by
  induction h with
  | empty => exact .nil
  | pair ho hc hname _ _ ihi ih => exact .pair ho hc hname ihi ih

/-! ### Which tags are left over -/

/-- The closing tags that come when nothing is open, `n` elements being open before. -/
def unopened : Nat → List Tag → List Tag
  | _, [] => []
  | n, t :: ts =>
    match t.form, n with
    | .opening, n => unopened (n + 1) ts
    | .selfClosing, n => unopened n ts
    | .closing, n + 1 => unopened n ts
    | .closing, 0 => t :: unopened 0 ts

theorem Derived.unopened_append (h : Derived ts) (n : Nat) (us : List Tag) :
    unopened n (ts ++ us) = unopened n us := by
  induction h generalizing n us with
  | empty => rfl
  | pair ho hc _ _ _ ihi ih =>
    simp [unopened, ho, hc, ihi, ih]

/-- **Which tags are left over is told by the run.** -/
theorem LeftOver.eq_unopened (h : LeftOver ts cs) : cs = unopened 0 ts := by
  induction h with
  | @none ts hts =>
    have hword := hts.unopened_append 0 []
    rw [List.append_nil] at hword
    exact hword.symm
  | cons hts hc _ ih =>
    rw [hts.unopened_append]
    simp [unopened, hc, ← ih]

theorem LeftOver.unique (h : LeftOver ts cs) (h' : LeftOver ts cs') : cs' = cs :=
  h'.eq_unopened.trans h.eq_unopened.symm

theorem LeftOver.balancedFrom (h : LeftOver ts cs) :
    Tag.balancedFrom (cs.map (·.name)) ts = true := by
  induction h with
  | @none ts hts =>
    have hword := hts.matched.balancedFrom_append [] []
    rw [List.append_nil] at hword
    exact hword
  | cons hts hc _ ih =>
    rw [hts.matched.balancedFrom_append, List.map_cons]
    simp [Tag.balancedFrom, hc, ih]

theorem Closes.leftOver {names : List (Option String)} (h : Closes names ts) :
    ∃ cs, LeftOver (brackets ts) cs ∧ cs.map (·.name) = names := by
  induction h with
  | nil hts => exact ⟨[], .none hts.derived, rfl⟩
  | @cons c names inside ts hinside hc _ ih =>
    obtain ⟨cs, hleft, rfl⟩ := ih
    refine ⟨c :: cs, ?_, rfl⟩
    rw [brackets_append, brackets_cons (by simp [hc])]
    exact .cons hinside.derived hc hleft

/-- **A run closes exactly the elements that its left-over tags name.** -/
theorem balancedFrom_iff {names : List (Option String)} : Tag.balancedFrom names ts = true ↔
    ∃ cs, LeftOver (brackets ts) cs ∧ cs.map (·.name) = names := by
  constructor
  · intro h
    exact (closes_of_balancedFrom h).leftOver
  · rintro ⟨cs, hleft, rfl⟩
    rw [← balancedFrom_brackets]
    exact hleft.balancedFrom

/-! ### Both checks -/

theorem balanced_iff_derived : balanced ts = true ↔ Derived (brackets ts) := by
  constructor
  · intro h
    exact (matched_of_balanced h).derived
  · intro h
    exact balancedFrom_iff.mpr ⟨[], .none h, rfl⟩

/-- Opening tags before a run make it balanced if they have the names of those left over in it. -/
theorem balanced_openers_iff (h : LeftOver (brackets ts) cs) {outer : List Tag}
    (houter : ∀ t ∈ outer, t.form = .opening) :
    balanced (outer ++ ts) = true ↔ outer.map (·.name) = (cs.map (·.name)).reverse := by
  rw [balanced, balancedFrom_openers houter, List.append_nil, balancedFrom_iff]
  constructor
  · rintro ⟨cs', hleft, hnames⟩
    rw [← h.unique hleft, hnames, List.reverse_reverse]
  · intro hnames
    exact ⟨cs, h, by rw [hnames, List.reverse_reverse]⟩

theorem leavesNothingOpen_iff_leftOver :
    leavesNothingOpen ts = true ↔ ∃ cs, LeftOver (brackets ts) cs := by
  constructor
  · intro h
    obtain ⟨names, hnames⟩ := exists_of_closesFrom h
    obtain ⟨cs, hleft, -⟩ := balancedFrom_iff.mp hnames
    exact ⟨cs, hleft⟩
  · rintro ⟨cs, hleft⟩
    exact closesFrom_of_balancedFrom (balancedFrom_iff.mpr ⟨cs, hleft, rfl⟩)

/-- **The two checks of a run are related by completion.**  A run is balanced exactly if it is a
word of the grammar.  It leaves nothing open exactly if some opening tags before it make it
balanced; the ones that do are then those with the names of the left-over closing tags, last
first. -/
theorem balance_is_completion (ts : List Tag) :
    (balanced ts = true ↔ Derived (brackets ts)) ∧
    (leavesNothingOpen ts = true ↔
      ∃ outer, (∀ t ∈ outer, t.form = .opening) ∧ balanced (outer ++ ts) = true) ∧
    (leavesNothingOpen ts = true → ∃ cs, LeftOver (brackets ts) cs ∧
      (∀ cs', LeftOver (brackets ts) cs' → cs' = cs) ∧
      ∀ outer, (∀ t ∈ outer, t.form = .opening) →
        (balanced (outer ++ ts) = true ↔
          outer.map (·.name) = (cs.map (·.name)).reverse)) := by
  refine ⟨balanced_iff_derived, leavesNothingOpen_iff, ?_⟩
  intro h
  obtain ⟨cs, hleft⟩ := leavesNothingOpen_iff_leftOver.mp h
  refine ⟨cs, hleft, ?_, ?_⟩
  · intro cs' hleft'
    exact hleft.unique hleft'
  · intro outer houter
    exact balanced_openers_iff hleft houter

/-- `</B><A><C/></A></>` is not balanced, but `<>` and `<B>` complete it, and nothing else does. -/
theorem balance_is_completion_run : ∃ ts : List Tag,
    ts.map (fun t => (t.form, t.name)) = [(.closing, some "B"), (.opening, some "A"),
      (.selfClosing, some "C"), (.closing, some "A"), (.closing, none)] ∧
    balanced ts = false ∧ leavesNothingOpen ts = true ∧
    ∀ outer, (∀ t ∈ outer, t.form = .opening) →
      (balanced (outer ++ ts) = true ↔ outer.map (·.name) = [none, some "B"]) := by
  let b : Tag := ⟨some "B", ⟨0, 4⟩, .closing⟩
  let o : Tag := ⟨some "A", ⟨4, 7⟩, .opening⟩
  let s : Tag := ⟨some "C", ⟨7, 11⟩, .selfClosing⟩
  let c : Tag := ⟨some "A", ⟨11, 15⟩, .closing⟩
  let f : Tag := ⟨none, ⟨15, 18⟩, .closing⟩
  refine ⟨[b, o, s, c, f], rfl, rfl, rfl, ?_⟩
  obtain ⟨cs, -, hunique, houter⟩ := (balance_is_completion [b, o, s, c, f]).2.2 rfl
  have hpair : Derived (o :: ([] ++ c :: [])) := .pair rfl rfl rfl .empty .empty
  have hleft : LeftOver [b, o, c, f] [b, f] := .cons .empty rfl (.cons hpair rfl (.none .empty))
  obtain rfl := hunique [b, f] hleft
  exact houter

end MdxProse.Tag
