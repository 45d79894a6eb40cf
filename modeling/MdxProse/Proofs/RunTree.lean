import MdxProse.Proofs.InPlaceBlocks
import MdxProse.Proofs.Matching

/-!
# The tree of a run

Reading in place, the events of a run are added one after the other, and the end of an element is
set when its closing tag comes.  Which element that is is told by a stack that knows only of the
numbers of the tags.  That the ends are right rests on the check of the names made before.

* `Tag.stackFrom`: the stack of numbers.  `Tag.Pairs`: which tags it brings together.
* `Tag.PairIn`: a pair of tags with what is before, between and after them.
  `Tag.Matched.placed`: **every tag of a matching run is self-closing or in a pair.**
  `Tag.PairIn.pairs`, `Tag.Matched.pairIn_of_pairs`: the stack brings together just these pairs.
* `Element.runParts`: the events of a run, tag by tag.
* `Element.IsTree`: what is asked of them.  `Element.isTree_runParts`: **those of a matching run are
  a tree.**
* `run_read_as_tree`: a balanced run that is read in place adds the events of a tree, and nothing
  else.
-/

namespace MdxProse

variable {ts us vs pre pre' inside inside' rest rest' : List Tag} {o c t : Tag} {k k' m m' : Nat}
  {lines : LineRange}

namespace Tag

/-! ### The stack of numbers -/

/-- The numbers of the tags that are open after a run, innermost first, if its first tag has the
number `k` and `open_` are open before it.  A closing tag takes away the innermost one, whatever its
name. -/
def stackFrom (open_ : List Nat) (k : Nat) : List Tag → List Nat
  | [] => open_
  | t :: ts =>
    match t.form with
    | .opening => stackFrom (k :: open_) (k + 1) ts
    | .selfClosing => stackFrom open_ (k + 1) ts
    | .closing => stackFrom open_.tail (k + 1) ts

/-- The tag with the number `m` closes, and the innermost one that is open when it comes has the
number `k`. -/
def Pairs (ts : List Tag) (k m : Nat) : Prop :=
  (∃ c, ts[m]? = some c ∧ c.form = .closing) ∧ (stackFrom [] 0 (ts.take m)).head? = some k

theorem stackFrom_append (open_ : List Nat) (k : Nat) (ts us : List Tag) :
    stackFrom open_ k (ts ++ us) = stackFrom (stackFrom open_ k ts) (k + ts.length) us := by
  induction ts generalizing open_ k with
  | nil => rfl
  | cons t ts ih =>
    cases hform : t.form <;>
      simp only [List.cons_append, stackFrom, hform, ih, List.length_cons, Nat.add_right_comm k,
        Nat.add_assoc]

theorem Matched.stackFrom_eq (h : Matched ts) (open_ : List Nat) (k : Nat) :
    stackFrom open_ k ts = open_ := by
  induction h generalizing open_ k with
  | nil => rfl
  | single hform _ ih => simp only [stackFrom, hform, ih]
  | pair ho hc _ _ _ ihi ih =>
    simp only [stackFrom, ho, stackFrom_append, ihi, hc, List.tail_cons, ih]

/-! ### Pairs -/

/-- The run has the opening tag `o` and the closing tag `c`, which have one name, and what stands
between them matches. -/
structure PairIn (ts pre : List Tag) (o : Tag) (inside : List Tag) (c : Tag) (rest : List Tag) :
    Prop where
  eq : ts = pre ++ o :: (inside ++ c :: rest)
  opening : o.form = .opening
  closing : c.form = .closing
  name : c.name = o.name
  matched : Matched inside

theorem PairIn.within (h : PairIn ts pre o inside c rest) (us vs : List Tag) :
    PairIn (us ++ (ts ++ vs)) (us ++ pre) o inside c (rest ++ vs) := by
  refine ⟨?_, h.opening, h.closing, h.name, h.matched⟩
  rw [h.eq]
  simp only [List.append_assoc, List.cons_append]

theorem PairIn.eq_closing (h : PairIn ts pre o inside c rest) :
    ts = (pre ++ o :: inside) ++ c :: rest := by
  rw [h.eq, List.append_assoc, List.cons_append]

theorem length_opened (pre : List Tag) (o : Tag) (inside : List Tag) :
    (pre ++ o :: inside).length = pre.length + 1 + inside.length := by
  rw [List.length_append, List.length_cons]
  omega

theorem PairIn.getElem?_opening (h : PairIn ts pre o inside c rest) :
    ts[pre.length]? = some o := by
  rw [h.eq, List.getElem?_append_right (Nat.le_refl _), Nat.sub_self]
  rfl

theorem PairIn.getElem?_closing (h : PairIn ts pre o inside c rest) :
    ts[pre.length + 1 + inside.length]? = some c := by
  rw [h.eq_closing, ← length_opened pre o inside, List.getElem?_append_right (Nat.le_refl _),
    Nat.sub_self]
  rfl

/-- The stack when the closing tag of a pair comes. -/
theorem PairIn.stackFrom_take (h : PairIn ts pre o inside c rest) :
    stackFrom [] 0 (ts.take (pre.length + 1 + inside.length)) =
      pre.length :: stackFrom [] 0 pre := by
  rw [h.eq_closing, ← length_opened pre o inside, List.take_left, stackFrom_append]
  simp only [stackFrom, h.opening, h.matched.stackFrom_eq, Nat.zero_add]

/-- **The stack brings the tags of a pair together.** -/
theorem PairIn.pairs (h : PairIn ts pre o inside c rest) :
    Pairs ts pre.length (pre.length + 1 + inside.length) := by
  refine ⟨⟨c, h.getElem?_closing, h.closing⟩, ?_⟩
  rw [h.stackFrom_take]
  rfl

/-- No closing tag comes between what matches and the rest of it. -/
theorem Matched.not_closing (h : Matched (inside ++ c :: rest)) (hinside : Matched inside)
    (hc : c.form = .closing) : False := by
  have hbalanced := h.balancedFrom_append [] []
  rw [List.append_nil, hinside.balancedFrom_append] at hbalanced
  simp [balancedFrom, hc] at hbalanced

theorem PairIn.unique (h : PairIn ts pre o inside c rest)
    (h' : PairIn ts pre' t inside' u rest') (hlen : pre.length = pre'.length) :
    inside = inside' := by
  have heq := h.eq.symm.trans h'.eq
  obtain ⟨rfl, hrest⟩ := List.append_inj heq hlen
  rcases List.append_eq_append_iff.mp (List.cons.inj hrest).2 with ⟨z, hz, hzc⟩ | ⟨z, hz, hzc⟩
  · cases z with
    | nil => rw [hz, List.append_nil]
    | cons d z =>
      obtain ⟨rfl, -⟩ := List.cons.inj hzc
      rw [hz] at h'
      exact (h'.matched.not_closing h.matched h.closing).elim
  · cases z with
    | nil => rw [hz, List.append_nil]
    | cons d z =>
      obtain ⟨rfl, -⟩ := List.cons.inj hzc
      rw [hz] at h
      exact (h.matched.not_closing h'.matched h'.closing).elim

/-- What a tag of a run is: it is self-closing, opens a pair or closes one. -/
inductive Placed (ts : List Tag) : Nat → Tag → Prop
  | selfClosing {k : Nat} {t : Tag} : t.form = .selfClosing → Placed ts k t
  | opening {pre : List Tag} {o : Tag} {inside : List Tag} {c : Tag} {rest : List Tag} :
      PairIn ts pre o inside c rest → Placed ts pre.length o
  | closing {pre : List Tag} {o : Tag} {inside : List Tag} {c : Tag} {rest : List Tag} :
      PairIn ts pre o inside c rest → Placed ts (pre.length + 1 + inside.length) c

theorem Placed.within (h : Placed ts k t) (us vs : List Tag) :
    Placed (us ++ (ts ++ vs)) (us.length + k) t := by
  cases h with
  | selfClosing hform => exact .selfClosing hform
  | opening hpair =>
    rw [← List.length_append]
    exact .opening (hpair.within us vs)
  | closing hpair =>
    rw [← Nat.add_assoc, ← Nat.add_assoc, ← List.length_append]
    exact .closing (hpair.within us vs)

/-- **Every tag of a matching run is self-closing or in a pair.** -/
theorem Matched.placed (h : Matched ts) (ht : ts[k]? = some t) : Placed ts k t := by
  induction h generalizing k with
  | nil => cases ht
  | @single u ts hform _ ih =>
    cases k with
    | zero =>
      cases ht
      exact .selfClosing hform
    | succ k =>
      have hplaced := (ih ht).within [u] []
      rwa [List.append_nil, List.length_singleton, Nat.add_comm] at hplaced
  | @pair o c inside ts ho hc hname hinside _ ihi ih =>
    have hpair : PairIn (o :: (inside ++ c :: ts)) [] o inside c ts :=
      ⟨rfl, ho, hc, hname, hinside⟩
    cases k with
    | zero =>
      cases ht
      exact .opening hpair
    | succ k =>
      rw [List.getElem?_cons_succ] at ht
      rcases Nat.lt_trichotomy k inside.length with hlt | rfl | hgt
      · rw [List.getElem?_append_left hlt] at ht
        have hplaced := (ihi ht).within [o] (c :: ts)
        rwa [List.length_singleton, Nat.add_comm] at hplaced
      · rw [List.getElem?_append_right (Nat.le_refl _), Nat.sub_self] at ht
        cases ht
        have hplaced := Placed.closing hpair
        rwa [List.length_nil, Nat.zero_add, Nat.add_comm] at hplaced
      · obtain ⟨j, rfl⟩ := Nat.exists_eq_add_of_lt hgt
        rw [List.getElem?_append_right (by omega),
          show inside.length + j + 1 - inside.length = j + 1 by omega] at ht
        have hplaced := (ih ht).within (o :: (inside ++ [c])) []
        simp only [List.append_nil, List.cons_append, List.append_assoc, List.length_cons,
          List.length_append, List.length_nil] at hplaced
        rwa [show inside.length + j + 1 + 1 = inside.length + (0 + 1) + 1 + j by omega]

/-- **The pairs of the stack are those of the run.** -/
theorem Matched.pairIn_of_pairs (h : Matched ts) (hp : Pairs ts k m) :
    ∃ pre o inside c rest, PairIn ts pre o inside c rest ∧ k = pre.length ∧
      m = pre.length + 1 + inside.length := by
  obtain ⟨⟨c, hc, hform⟩, htop⟩ := hp
  cases h.placed hc with
  | selfClosing hform' => cases hform.symm.trans hform'
  | opening hpair => cases hform.symm.trans hpair.opening
  | closing hpair =>
    rw [hpair.stackFrom_take] at htop
    cases htop
    exact ⟨_, _, _, _, _, hpair, rfl, rfl⟩

end Tag

/-! ### The events, tag by tag -/

namespace Block.Element

/-- The events of a tag that stands before the tags `after`. -/
def runPart (lines : LineRange) (t : Tag) (after : List Tag) : List Event :=
  match t.form with
  | .opening =>
    [.enter (.flowElement t.name ⟨t.span.start, closeStop t.span.stop 0 after⟩) (some lines)]
  | .selfClosing => [.enter (.flowElement t.name t.span) (some lines), .leave .flowElement t.name]
  | .closing => [.leave .flowElement t.name]

/-- The events of a run, tag by tag. -/
def runParts (lines : LineRange) : List Tag → List (List Event)
  | [] => []
  | t :: ts => runPart lines t ts :: runParts lines ts

theorem flatten_runParts (lines : LineRange) (ts : List Tag) :
    (runParts lines ts).flatten = runEvents lines ts := by
  induction ts with
  | nil => rfl
  | cons t ts ih =>
    cases hform : t.form <;>
      simp only [runParts, runPart, runEvents, hform, List.flatten_cons, ih, List.cons_append,
        List.nil_append]

theorem length_runParts (lines : LineRange) (ts : List Tag) :
    (runParts lines ts).length = ts.length := by
  induction ts with
  | nil => rfl
  | cons t ts ih => rw [runParts, List.length_cons, List.length_cons, ih]

theorem drop_runParts (lines : LineRange) (ts : List Tag) (k : Nat) :
    (runParts lines ts).drop k = runParts lines (ts.drop k) := by
  induction ts generalizing k with
  | nil => rw [runParts, List.drop_nil, List.drop_nil, runParts]
  | cons t ts ih =>
    cases k with
    | zero => rfl
    | succ k => exact ih k

theorem getElem?_runParts (ht : ts[k]? = some t) :
    (runParts lines ts)[k]? = some (runPart lines t (ts.drop (k + 1))) := by
  obtain ⟨hlt, rfl⟩ := List.getElem?_eq_some_iff.mp ht
  have hfirst : (runParts lines ts)[k]? = ((runParts lines ts).drop k)[0]? := by
    rw [List.getElem?_drop, Nat.add_zero]
  rw [hfirst, drop_runParts, List.drop_eq_getElem_cons hlt]
  rfl

theorem runParts_append (h : Tag.Matched ts) (lines : LineRange) (rest : List Tag) :
    runParts lines (ts ++ rest) = runParts lines ts ++ runParts lines rest := by
  induction h generalizing rest with
  | nil => rfl
  | single hform _ ih => simp only [List.cons_append, runParts, runPart, hform, ih]
  | pair ho hc _ hinside _ ihi ih =>
    simp only [List.cons_append, List.append_assoc, runParts, runPart, ho, hc, ihi, ih,
      hinside.closeStop, closeStop]

theorem exists_walk (h : Tag.Matched ts) (lines : LineRange) :
    ∃ ns, Walk (runEvents lines ts) ns := by
  induction h with
  | nil => exact ⟨[], .nil⟩
  | @single t ts hform _ ih =>
    obtain ⟨ns, hwalk⟩ := ih
    simp only [runEvents, hform]
    exact ⟨_, Walk.around (k := .flowElement t.name t.span) (l := some lines) .nil hwalk⟩
  | @pair o c inside ts ho hc hname hinside _ ihi ih =>
    obtain ⟨cs, hwalkc⟩ := ihi
    obtain ⟨ns, hwalk⟩ := ih
    have haround := Walk.around (k := .flowElement o.name ⟨o.span.start, c.span.stop⟩)
      (l := some lines) hwalkc hwalk
    rw [hinside.runEvents_pair ho hc, hinside.runEvents_append]
    simp only [runEvents, hc, hname]
    rw [Event.around, List.cons_append, List.cons_append, List.append_assoc] at haround
    exact ⟨_, haround⟩

theorem isSome_ofEvents? (h : Tag.Matched ts) (lines : LineRange) :
    (Node.ofEvents? (runParts lines ts).flatten).isSome = true := by
  obtain ⟨ns, hwalk⟩ := exists_walk h lines
  rw [flatten_runParts, hwalk.ofEvents?]
  rfl

/-! ### The tree -/

/-- The events of a run, one part for each tag and in the order of the tags, are those of a tree.  A
self-closing tag enters an element and leaves it at once.  An opening tag enters one that ends with
the closing tag that the stack brings together with it; that leaves the element, and what comes
between is nested in it. -/
structure IsTree (lines : LineRange) (ts : List Tag) (parts : List (List Event)) : Prop where
  length : parts.length = ts.length
  nested : (Node.ofEvents? parts.flatten).isSome = true
  selfClosing : ∀ (k : Nat) (t : Tag), ts[k]? = some t → t.form = .selfClosing →
    parts[k]? = some [Event.enter (.flowElement t.name t.span) (some lines),
      Event.leave .flowElement t.name]
  opening : ∀ (k : Nat) (o : Tag), ts[k]? = some o → o.form = .opening →
    ∃ m, k < m ∧ Tag.Pairs ts k m ∧ ∀ m', Tag.Pairs ts k m' → m' = m
  closing : ∀ (m : Nat) (c : Tag), ts[m]? = some c → c.form = .closing →
    ∃ k, k < m ∧ Tag.Pairs ts k m ∧ ∀ k', Tag.Pairs ts k' m → k' = k
  pair : ∀ k m, Tag.Pairs ts k m → ∃ o c : Tag, ts[k]? = some o ∧ o.form = .opening ∧
    ts[m]? = some c ∧ c.form = .closing ∧ c.name = o.name ∧
    parts[k]? =
      some [Event.enter (.flowElement o.name ⟨o.span.start, c.span.stop⟩) (some lines)] ∧
    parts[m]? = some [Event.leave .flowElement c.name] ∧
    (Node.ofEvents? ((parts.take m).drop (k + 1)).flatten).isSome = true

theorem runParts_pairIn (h : Tag.PairIn ts pre o inside c rest) (lines : LineRange) :
    (runParts lines ts)[pre.length]? =
        some [.enter (.flowElement o.name ⟨o.span.start, c.span.stop⟩) (some lines)] ∧
      (runParts lines ts)[pre.length + 1 + inside.length]? = some [.leave .flowElement c.name] ∧
      ((runParts lines ts).take (pre.length + 1 + inside.length)).drop (pre.length + 1) =
        runParts lines inside := by
  have hdrop : ts.drop (pre.length + 1) = inside ++ c :: rest := by
    rw [h.eq, ← List.drop_drop, List.drop_left, List.drop_one, List.tail_cons]
  refine ⟨?_, ?_, ?_⟩
  · rw [getElem?_runParts h.getElem?_opening, hdrop]
    simp only [runPart, h.opening, h.matched.closeStop, closeStop, h.closing]
  · rw [getElem?_runParts h.getElem?_closing]
    simp only [runPart, h.closing]
  · rw [List.drop_take, Nat.add_sub_cancel_left, drop_runParts, hdrop, runParts_append h.matched,
      ← length_runParts lines inside, List.take_left]

/-- **The events of a matching run are a tree.** -/
theorem isTree_runParts (h : Tag.Matched ts) (lines : LineRange) :
    IsTree lines ts (runParts lines ts) := by
  refine ⟨length_runParts lines ts, isSome_ofEvents? h lines, ?_, ?_, ?_, ?_⟩
  · intro k t ht hform
    rw [getElem?_runParts ht]
    simp only [runPart, hform]
  · intro k o ho hform
    cases h.placed ho with
    | selfClosing hform' => cases hform.symm.trans hform'
    | closing hpair => cases hform.symm.trans hpair.closing
    | opening hpair =>
      refine ⟨_, by omega, hpair.pairs, ?_⟩
      intro m' hpairs
      obtain ⟨_, _, _, _, _, hpair', hk, rfl⟩ := h.pairIn_of_pairs hpairs
      rw [hpair.unique hpair' hk, hk]
  · intro m c hc hform
    cases h.placed hc with
    | selfClosing hform' => cases hform.symm.trans hform'
    | opening hpair => cases hform.symm.trans hpair.opening
    | closing hpair =>
      refine ⟨_, by omega, hpair.pairs, ?_⟩
      intro k' hpairs
      exact Option.some.inj (hpairs.2.symm.trans hpair.pairs.2)
  · intro k m hpairs
    obtain ⟨pre, o, inside, c, rest, hpair, rfl, rfl⟩ := h.pairIn_of_pairs hpairs
    obtain ⟨henter, hleave, hbetween⟩ := runParts_pairIn hpair lines
    refine ⟨o, c, hpair.getElem?_opening, hpair.opening, hpair.getElem?_closing, hpair.closing,
      hpair.name, henter, hleave, ?_⟩
    rw [hbetween]
    exact isSome_ofEvents? hpair.matched lines

end Block.Element

open Block (State)

/-- **A balanced run that is read in place adds a tree to what has been read.**  No tag closes where
nothing is open, the number of open nodes is what it was, and nothing else in the state changes. -/
theorem run_read_as_tree (lines : LineRange) (ts : List Tag) (st : State)
    (h : Tag.balanced ts = true) : ∃ parts, Block.Element.IsTree lines ts parts ∧
      State.pushRun lines [] ts st = .ok { st with events := st.events ++ parts.flatten } := by
  have hmatched := Tag.matched_of_balanced h
  refine ⟨Block.Element.runParts lines ts, Block.Element.isTree_runParts hmatched lines, ?_⟩
  rw [State.pushRun_matched hmatched, Block.Element.flatten_runParts, State.pushAll,
    Block.Element.rises_runEvents hmatched, Int.add_zero]

/-- Of `<A><B/></A><A></A>`, the first element ends with the first closing tag, and the last one
with the other. -/
theorem run_read_as_tree_siblings : ∃ (src : Source) (ts : List Tag) (parts : List (List Event)),
    src = Source.ofString "<A><B/></A><A></A>" ∧ Tag.run? src 0 18 = some (ts, 18) ∧
    Tag.balanced ts = true ∧ Block.Element.IsTree ⟨0, 1⟩ ts parts ∧
    State.pushRun ⟨0, 1⟩ [] ts (.ofSource src) =
      .ok { State.ofSource src with events := [] ++ parts.flatten } ∧
    parts[0]? = some [.enter (.flowElement (some "A") ⟨0, 11⟩) (some ⟨0, 1⟩)] ∧
    parts[3]? = some [.enter (.flowElement (some "A") ⟨11, 18⟩) (some ⟨0, 1⟩)] := by
  let src := Source.ofString "<A><B/></A><A></A>"
  let ts : List Tag := [⟨some "A", ⟨0, 3⟩, .opening⟩, ⟨some "B", ⟨3, 7⟩, .selfClosing⟩,
    ⟨some "A", ⟨7, 11⟩, .closing⟩, ⟨some "A", ⟨11, 14⟩, .opening⟩, ⟨some "A", ⟨14, 18⟩, .closing⟩]
  have hrun : Tag.run? src 0 18 = some (ts, 18) := by decide +kernel
  have hbalanced : Tag.balanced ts = true := by decide
  obtain ⟨parts, htree, hpush⟩ := run_read_as_tree ⟨0, 1⟩ ts (.ofSource src) hbalanced
  have hfirst : Tag.Pairs ts 0 2 := ⟨⟨_, rfl, rfl⟩, rfl⟩
  have hlast : Tag.Pairs ts 3 4 := ⟨⟨_, rfl, rfl⟩, rfl⟩
  refine ⟨src, ts, parts, rfl, hrun, hbalanced, htree, hpush, ?_, ?_⟩
  · obtain ⟨o, c, ho, -, hc, -, -, henter, -⟩ := htree.pair 0 2 hfirst
    cases ho
    cases hc
    exact henter
  · obtain ⟨o, c, ho, -, hc, -, -, henter, -⟩ := htree.pair 3 4 hlast
    cases ho
    cases hc
    exact henter

end MdxProse
