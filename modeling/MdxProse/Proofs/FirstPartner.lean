import MdxProse.Block.Element

/-!
# The first closing tag that is left over

The closing tag of an element is looked for by counting tags of its name.  An opening tag adds one
to the elements that have to be closed first, a closing tag takes one away, and the closing tag that
finds none left is the one.

* `Tag.Settles`: as many tags of the name have been closed as opened when the closing tag comes.
* `Tag.Partner`: the first closing tag of which that holds.  `Tag.Partner.pending`: **until it
  comes, more elements of the name are open than closed.**
* `Element.findIn_eq_inl_iff`, `Element.findIn_eq_inr_iff`: **the search in a run finds exactly
  that tag.**
* `Tag.Partner.balanced`: the tags of the name that come before it are balanced.
* `Tag.leavesNothingOpen_iff`: **a run leaves nothing open exactly if some opening tags before it
  make it balanced.**
-/

namespace MdxProse

variable {name : Option String} {inner n : Nat} {ts us before after : List Tag} {t u : Tag}

namespace Tag

/-- Does the tag open an element of that name? -/
def opens (name : Option String) (t : Tag) : Bool :=
  t.isOpening && t.name == name

/-- Does the tag close an element of that name? -/
def closes (name : Option String) (t : Tag) : Bool :=
  t.isClosing && t.name == name

/-- The closing tag `t` comes when, of the tags `before` it that have its name, as many have closed
an element as have opened one or had been opened before, which `inner` have. -/
structure Settles (name : Option String) (inner : Nat) (before : List Tag) (t : Tag) : Prop where
  closing : t.form = .closing
  name_eq : t.name = name
  count : before.countP (closes name) = before.countP (opens name) + inner

/-- The closing tag `t` is the first one of its name that is left over after the tags `before` it,
`inner` further elements of the name being open. -/
structure Partner (name : Option String) (inner : Nat) (before : List Tag) (t : Tag) : Prop extends
    Settles name inner before t where
  first : ∀ pre u post, before = pre ++ u :: post → ¬ Settles name inner pre u

/-! ### One tag -/

/-- How many further elements of the name are open after the tag, if `inner` were before it; `none`
if it is the closing tag that is left over. -/
def pass? (name : Option String) (inner : Nat) (t : Tag) : Option Nat :=
  if t.name = name then
    match t.form, inner with
    | .opening, n => some (n + 1)
    | .selfClosing, n => some n
    | .closing, 0 => none
    | .closing, n + 1 => some n
  else some inner

theorem pass?_eq_none_iff : pass? name inner t = none ↔ Settles name inner [] t := by
  constructor
  · intro h
    unfold pass? at h
    split at h
    · next hname =>
      split at h
      · cases h
      · cases h
      · next hform => exact ⟨hform, hname, rfl⟩
      · cases h
    · cases h
  · rintro ⟨hform, hname, hcount⟩
    have hzero : 0 = 0 + inner := hcount
    obtain rfl : inner = 0 := by omega
    simp [pass?, hname, hform]

/-- A tag that is passed counts for the elements that are open after it. -/
theorem count_of_pass? (h : pass? name inner t = some n) :
    [t].countP (closes name) + n = [t].countP (opens name) + inner := by
  unfold pass? at h
  by_cases hname : t.name = name
  · rw [if_pos hname] at h
    cases hform : t.form with
    | opening =>
      simp only [hform] at h
      cases h
      simp [opens, closes, isOpening, isClosing, hform, hname]
      omega
    | selfClosing =>
      simp only [hform] at h
      cases h
      simp [opens, closes, isOpening, isClosing, hform]
    | closing =>
      cases inner with
      | zero => simp [hform] at h
      | succ m =>
        simp only [hform] at h
        cases h
        simp [opens, closes, isOpening, isClosing, hform, hname]
        omega
  · rw [if_neg hname] at h
    cases h
    simp [opens, closes, hname]

theorem settles_cons_iff (h : pass? name inner u = some n) :
    Settles name inner (u :: before) t ↔ Settles name n before t := by
  have hcount := count_of_pass? h
  have hsplit : u :: before = [u] ++ before := rfl
  constructor
  · rintro ⟨hform, hname, hc⟩
    rw [hsplit, List.countP_append, List.countP_append] at hc
    exact ⟨hform, hname, by omega⟩
  · rintro ⟨hform, hname, hc⟩
    refine ⟨hform, hname, ?_⟩
    rw [hsplit, List.countP_append, List.countP_append]
    omega

namespace Partner

theorem nil_iff : Partner name inner [] t ↔ pass? name inner t = none := by
  rw [pass?_eq_none_iff]
  constructor
  · intro h
    exact h.toSettles
  · intro h
    refine ⟨h, ?_⟩
    intro pre u post hnil
    exact absurd hnil (by simp)

theorem cons_iff : Partner name inner (u :: before) t ↔
    ∃ n, pass? name inner u = some n ∧ Partner name n before t := by
  constructor
  · intro h
    cases hpass : pass? name inner u with
    | none => exact absurd (pass?_eq_none_iff.mp hpass) (h.first [] u before rfl)
    | some n =>
      refine ⟨n, rfl, (settles_cons_iff hpass).mp h.toSettles, ?_⟩
      intro pre v post hbefore hsettles
      refine h.first (u :: pre) v post ?_ ((settles_cons_iff hpass).mpr hsettles)
      rw [hbefore, List.cons_append]
  · rintro ⟨n, hpass, h⟩
    refine ⟨(settles_cons_iff hpass).mpr h.toSettles, ?_⟩
    intro pre v post hbefore hsettles
    cases pre with
    | nil =>
      obtain ⟨rfl, -⟩ := List.cons.inj hbefore
      rw [pass?_eq_none_iff.mpr hsettles] at hpass
      cases hpass
    | cons w pre =>
      obtain ⟨rfl, hrest⟩ := List.cons.inj hbefore
      exact h.first pre v post hrest ((settles_cons_iff hpass).mp hsettles)

theorem settled (h : Partner name inner before t) :
    (before ++ [t]).countP (closes name) = (before ++ [t]).countP (opens name) + inner + 1 := by
  have hcount := h.count
  simp only [List.countP_append, List.countP_singleton, opens, closes, isOpening, isClosing,
    h.closing, h.name_eq]
  simp
  omega

/-- **The tags of the name that come before it are balanced**, but for the elements that were open
before. -/
theorem balancedFrom (h : Partner name inner before t) :
    Tag.balancedFrom (List.replicate inner name) (before.filter (·.name == name)) = true := by
  induction before generalizing inner with
  | nil =>
    have hcount := h.count
    obtain rfl : inner = 0 := by simpa using hcount.symm
    rfl
  | cons u before ih =>
    obtain ⟨n, hpass, h⟩ := cons_iff.mp h
    have ih := ih h
    unfold pass? at hpass
    by_cases hname : u.name = name
    · rw [List.filter_cons_of_pos (by simp [hname])]
      rw [if_pos hname] at hpass
      cases hform : u.form with
      | opening =>
        simp only [hform, Option.some.injEq] at hpass
        rw [← hpass, List.replicate_succ] at ih
        simpa [Tag.balancedFrom, hform, hname] using ih
      | selfClosing =>
        simp only [hform, Option.some.injEq] at hpass
        rw [← hpass] at ih
        simpa [Tag.balancedFrom, hform] using ih
      | closing =>
        cases inner with
        | zero => simp [hform] at hpass
        | succ m =>
          simp only [hform, Option.some.injEq] at hpass
          rw [← hpass] at ih
          simpa [Tag.balancedFrom, hform, hname, List.replicate_succ] using ih
    · rw [if_neg hname, Option.some.injEq] at hpass
      rw [List.filter_cons_of_neg (by simp [hname])]
      rwa [← hpass] at ih

theorem balanced (h : Partner name 0 before t) :
    Tag.balanced (before.filter (·.name == name)) = true :=
  h.balancedFrom

end Partner

/-! ### Completion by opening tags -/

theorem balancedFrom_openers {outer : List Tag} (h : ∀ t ∈ outer, t.form = .opening)
    (open_ : List (Option String)) (ts : List Tag) :
    balancedFrom open_ (outer ++ ts) =
      balancedFrom ((outer.map (·.name)).reverse ++ open_) ts := by
  induction outer generalizing open_ with
  | nil => rfl
  | cons o outer ih =>
    obtain ⟨ho, houter⟩ := List.forall_mem_cons.mp h
    simp [balancedFrom, ho, ih houter]

/-- What leaves nothing open closes what is open, and then some elements opened before. -/
theorem exists_of_closesFrom {open_ : List (Option String)} (h : closesFrom open_ ts = true) :
    ∃ names, balancedFrom (open_ ++ names) ts = true := by
  induction ts generalizing open_ with
  | nil =>
    refine ⟨[], ?_⟩
    rw [List.append_nil]
    exact h
  | cons t ts ih =>
    cases hform : t.form with
    | opening =>
      simp only [closesFrom, hform] at h
      obtain ⟨names, hnames⟩ := ih h
      exact ⟨names, by simpa [balancedFrom, hform] using hnames⟩
    | selfClosing =>
      simp only [closesFrom, hform] at h
      obtain ⟨names, hnames⟩ := ih h
      exact ⟨names, by simpa [balancedFrom, hform] using hnames⟩
    | closing =>
      cases open_ with
      | nil =>
        simp only [closesFrom, hform] at h
        obtain ⟨names, hnames⟩ := ih h
        exact ⟨t.name :: names, by simpa [balancedFrom, hform] using hnames⟩
      | cons o open_ =>
        simp only [closesFrom, hform, Bool.and_eq_true] at h
        obtain ⟨names, hnames⟩ := ih h.2
        exact ⟨names, by simpa [balancedFrom, hform, h.1] using hnames⟩

theorem closesFrom_of_balancedFrom {open_ names : List (Option String)}
    (h : balancedFrom (open_ ++ names) ts = true) : closesFrom open_ ts = true := by
  induction ts generalizing open_ names with
  | nil =>
    rw [balancedFrom, List.isEmpty_iff, List.append_eq_nil_iff] at h
    rw [h.1]
    rfl
  | cons t ts ih =>
    cases hform : t.form with
    | opening =>
      simp only [balancedFrom, hform, ← List.cons_append] at h
      simpa [closesFrom, hform] using ih h
    | selfClosing =>
      simp only [balancedFrom, hform] at h
      simpa [closesFrom, hform] using ih h
    | closing =>
      cases open_ with
      | nil =>
        cases names with
        | nil => simp [balancedFrom, hform] at h
        | cons o names =>
          simp only [balancedFrom, hform, List.nil_append, Bool.and_eq_true] at h
          have hrest : closesFrom [] ts = true := ih h.2
          simpa [closesFrom, hform] using hrest
      | cons o open_ =>
        simp only [balancedFrom, hform, List.cons_append, Bool.and_eq_true] at h
        simp [closesFrom, hform, h.1, ih h.2]

/-- Opening tags of the names given. -/
def openers (names : List (Option String)) : List Tag :=
  names.map fun name => ⟨name, ⟨0, 0⟩, .opening⟩

/-- **A run leaves nothing open exactly if some opening tags before it make it balanced.** -/
theorem leavesNothingOpen_iff : leavesNothingOpen ts = true ↔
    ∃ outer, (∀ t ∈ outer, t.form = .opening) ∧ balanced (outer ++ ts) = true := by
  constructor
  · intro h
    obtain ⟨names, hnames⟩ := exists_of_closesFrom h
    have hopening : ∀ t ∈ openers names.reverse, t.form = .opening := by
      intro t ht
      obtain ⟨name, -, rfl⟩ := List.mem_map.mp ht
      rfl
    refine ⟨openers names.reverse, hopening, ?_⟩
    rw [balanced, balancedFrom_openers hopening]
    simpa [openers, Function.comp_def] using hnames
  · rintro ⟨outer, hopening, h⟩
    rw [balanced, balancedFrom_openers hopening, List.append_nil] at h
    have hcloses : closesFrom [] ts = true := closesFrom_of_balancedFrom h
    exact hcloses

end Tag

/-! ### The search in a run -/

namespace Block.Element

open Tag (Settles Partner)

theorem findIn_cons (name : Option String) (inner : Nat) (t : Tag) (ts : List Tag) :
    findIn name inner (t :: ts) =
      match Tag.pass? name inner t with
      | none => .inl ([], t, ts)
      | some n =>
        match findIn name n ts with
        | .inl (before, closer, after) => .inl (t :: before, closer, after)
        | .inr m => .inr m := by
  obtain ⟨m, span, form⟩ := t
  by_cases hname : m = name
  · simp only [findIn, Tag.pass?, if_pos hname]
    cases form with
    | opening | selfClosing => rfl
    | closing => cases inner <;> rfl
  · have hpass : Tag.pass? name inner ⟨m, span, form⟩ = some inner := if_neg hname
    rw [hpass]
    exact if_neg hname

/-- **The search in a run finds the first closing tag that is left over.** -/
theorem findIn_eq_inl_iff : findIn name inner ts = .inl (before, t, after) ↔
    ts = before ++ t :: after ∧ Partner name inner before t := by
  induction ts generalizing inner before with
  | nil =>
    constructor
    · intro h
      cases h
    · rintro ⟨hnil, -⟩
      exact absurd hnil (by simp)
  | cons u ts ih =>
    rw [findIn_cons]
    cases hpass : Tag.pass? name inner u with
    | none =>
      constructor
      · intro h
        cases h
        exact ⟨rfl, Partner.nil_iff.mpr hpass⟩
      · rintro ⟨hts, hpartner⟩
        cases before with
        | nil =>
          obtain ⟨rfl, rfl⟩ := List.cons.inj hts
          rfl
        | cons v before =>
          obtain ⟨rfl, -⟩ := List.cons.inj hts
          obtain ⟨n, hn, -⟩ := Partner.cons_iff.mp hpartner
          rw [hpass] at hn
          cases hn
    | some n =>
      dsimp only
      constructor
      · intro h
        cases hfind : findIn name n ts with
        | inl found =>
          obtain ⟨b, c, a⟩ := found
          rw [hfind] at h
          cases h
          obtain ⟨rfl, hpartner⟩ := ih.mp hfind
          exact ⟨rfl, Partner.cons_iff.mpr ⟨n, hpass, hpartner⟩⟩
        | inr m =>
          rw [hfind] at h
          cases h
      · rintro ⟨hts, hpartner⟩
        cases before with
        | nil =>
          obtain ⟨rfl, -⟩ := List.cons.inj hts
          rw [Partner.nil_iff.mp hpartner] at hpass
          cases hpass
        | cons v before =>
          obtain ⟨rfl, hrest⟩ := List.cons.inj hts
          obtain ⟨m, hm, hpartner'⟩ := Partner.cons_iff.mp hpartner
          rw [hpass, Option.some.injEq] at hm
          subst hm
          rw [ih.mpr ⟨hrest, hpartner'⟩]

/-- **The search in a run finds nothing exactly if no closing tag is left over.** It then knows how
many elements are open. -/
theorem findIn_eq_inr_iff : findIn name inner ts = .inr n ↔
    (∀ before t after, ts = before ++ t :: after → ¬ Settles name inner before t) ∧
      ts.countP (Tag.closes name) + n = ts.countP (Tag.opens name) + inner := by
  induction ts generalizing inner with
  | nil => simp [findIn, eq_comm]
  | cons u ts ih =>
    rw [findIn_cons]
    cases hpass : Tag.pass? name inner u with
    | none =>
      constructor
      · intro h
        cases h
      · rintro ⟨hno, -⟩
        exact absurd (Tag.pass?_eq_none_iff.mp hpass) (hno [] u ts rfl)
    | some m =>
      have hcount := Tag.count_of_pass? hpass
      have hsplit : u :: ts = [u] ++ ts := rfl
      have hkeep : (match findIn name m ts with
          | .inl (before, closer, after) => .inl (u :: before, closer, after)
          | .inr k => .inr k : (List Tag × Tag × List Tag) ⊕ Nat) = .inr n ↔
          findIn name m ts = .inr n := by
        cases findIn name m ts <;> simp
      refine hkeep.trans (ih.trans (and_congr ?_ ?_))
      · constructor
        · intro hno pre v post hts hsettles
          cases pre with
          | nil =>
            obtain ⟨rfl, -⟩ := List.cons.inj hts
            rw [Tag.pass?_eq_none_iff.mpr hsettles] at hpass
            cases hpass
          | cons w pre =>
            obtain ⟨rfl, hrest⟩ := List.cons.inj hts
            exact hno pre v post hrest ((Tag.settles_cons_iff hpass).mp hsettles)
        · intro hno pre v post hts hsettles
          refine hno (u :: pre) v post ?_ ((Tag.settles_cons_iff hpass).mpr hsettles)
          rw [hts, List.cons_append]
      · rw [hsplit, List.countP_append, List.countP_append]
        omega

theorem findIn_append (h : findIn name inner ts = .inr n) (us : List Tag) :
    findIn name inner (ts ++ us) =
      match findIn name n us with
      | .inl (before, closer, after) => .inl (ts ++ before, closer, after)
      | .inr m => .inr m := by
  induction ts generalizing inner with
  | nil =>
    cases h
    rw [List.nil_append]
    cases findIn name n us <;> rfl
  | cons t ts ih =>
    rw [findIn_cons] at h
    rw [List.cons_append, findIn_cons]
    cases hpass : Tag.pass? name inner t with
    | none =>
      rw [hpass] at h
      cases h
    | some m =>
      rw [hpass] at h
      dsimp only at h ⊢
      cases hfind : findIn name m ts with
      | inl found =>
        rw [hfind] at h
        cases h
      | inr k =>
        rw [hfind] at h
        cases h
        rw [ih hfind]
        cases findIn name n us <;> rfl

/-- **As long as nothing is found, more elements of the name are open than closed**, the one that is
to be closed counted. -/
theorem pending_of_findIn (h : findIn name inner ts = .inr n) (hus : us <+: ts) :
    us.countP (Tag.closes name) < us.countP (Tag.opens name) + inner + 1 := by
  obtain ⟨vs, rfl⟩ := hus
  cases hfind : findIn name inner us with
  | inl found =>
    obtain ⟨before, t, after⟩ := found
    obtain ⟨rfl, hpartner⟩ := findIn_eq_inl_iff.mp hfind
    refine absurd hpartner.toSettles ((findIn_eq_inr_iff.mp h).1 before t (after ++ vs) ?_)
    rw [List.append_assoc, List.cons_append]
  | inr m =>
    have hcount := (findIn_eq_inr_iff.mp hfind).2
    omega

end Block.Element

namespace Tag.Partner

open Block.Element (findIn findIn_append findIn_eq_inl_iff findIn_eq_inr_iff pending_of_findIn)

theorem findIn_eq (h : Partner name inner before t) : findIn name inner before = .inr 0 :=
  findIn_eq_inr_iff.mpr ⟨h.first, h.count⟩

/-- **Until it comes, more elements of the name are open than closed**, the one that it closes
counted. -/
theorem pending (h : Partner name inner before t) (hus : us <+: before) :
    us.countP (closes name) < us.countP (opens name) + inner + 1 :=
  pending_of_findIn h.findIn_eq hus

theorem prepend (hts : findIn name inner ts = .inr n) (h : Partner name n before t) :
    Partner name inner (ts ++ before) t := by
  have hfind : findIn name n (before ++ [t]) = .inl (before, t, []) :=
    findIn_eq_inl_iff.mpr ⟨rfl, h⟩
  have happend := findIn_append hts (before ++ [t])
  rw [hfind] at happend
  exact (findIn_eq_inl_iff.mp happend).2

end Tag.Partner

end MdxProse
