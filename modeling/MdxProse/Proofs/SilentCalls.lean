import MdxProse.Proofs.RestoredState
import MdxProse.Proofs.TextInPlace

/-!
# Silent calls

A rule for embedded code is called in two ways.  A silent call only tells whether something of its
kind starts at a place; paragraphs, quotes and labels rely on that where they look for their end.
The other call reads it, and may come upon a fault.

* `Block.code_rule_silent`: **a block starts exactly if reading it succeeds or comes upon a fault.**
* `Inline.TextRule.agrees`: **so it is in running text**, but there nothing starts where the fault
  is not in the content of an element.
* `Inline.TextRule.Agrees.skip_eq`: the search for the end of a label passes over what silent calls
  tell.
* `silent_calls_agree`: all five rules.
-/

namespace MdxProse

namespace Block

variable {src : Source} {st : State} {i past : Nat}

theorem CodeRule.starts_eq (content : Reader) (rule : CodeRule) (r : Region) (i past : Nat) :
    rule.starts r i past = (rule.read? content r i past).isSome := by
  cases rule with
  | statement =>
    rw [starts, read?, Esm.read?]
    cases Esm.starts r i <;> rfl
  | expression =>
    rw [starts, read?, FlowExpression.read?, FlowExpression.starts, Option.isSome_map,
      Option.isSome_map]
  | element => rw [starts, read?, Element.starts, Option.isSome_map]

/-- **A silent call tells whether a block starts**, and leaves the state as it is. One starts
exactly if the call that reads it reads one or comes upon a fault. -/
theorem code_rule_silent (hst : st.region.Reached src) (hlevel : 0 ≤ st.level) (hi : i < past)
    (hpast : past ≤ st.height) (room : Nat) (rule : CodeRule) :
    rule.call (State.tokenize room) st i past true = .ok (rule.starts st.region i past, st) ∧
    (rule.starts st.region i past = true ↔
      (∃ st', rule.call (State.tokenize room) st i past false = .ok (true, st')) ∨
      ∃ e, rule.call (State.tokenize room) st i past false = .error (.fault e)) := by
  have hcall := CodeRule.call_eq (State.tokenize_agrees src room) hst.sound hi hpast hlevel rule
  rw [hcall true, hcall false, rule.starts_eq (read room)]
  cases rule.read? (read room) st.region i past with
  | none =>
    refine ⟨rfl, nofun, ?_⟩
    rintro (⟨st', h⟩ | ⟨e, h⟩) <;> cases h
  | some x =>
    refine ⟨rfl, fun _ => ?_, fun _ => rfl⟩
    cases x with
    | ok o => exact .inl ⟨st.take o, rfl⟩
    | error e => exact .inr ⟨e, rfl⟩

end Block

namespace Inline

namespace TextRule

/-- What the two ways to call a rule have to do with each other, if the silent call answers `done`
and goes on to `stop`. -/
structure Agrees (src : Source) (nested : InPlace) (rule : TextRule) (st : State) (done : Bool)
    (stop : Nat) : Prop where
  /-- The silent call changes nothing but the position. -/
  silent : rule.call src nested st true = .ok (done, st.goTo stop)
  /-- Where it finds nothing it stays, and the other call finds nothing or a fault. -/
  absent : done = false → stop = st.pos ∧
    (rule.call src nested st false = .ok (false, st) ∨
      ∃ e, rule.call src nested st false = .error e)
  /-- Where it finds something the other call comes to the same place, or upon a fault in the
  content. -/
  present : done = true → st.pos < stop ∧
    ((∃ st', rule.call src nested st false = .ok (true, st') ∧ st'.pos = stop) ∨
      ∃ c l e, rule.found? src st.pos st.limit = some ⟨c, stop⟩ ∧ c.content? = some l ∧
        nested (st.inside c stop l.start l.stop) = .error e ∧
        rule.call src nested st false = .error e)

theorem agrees (src : Source) (nested : InPlace) (rule : TextRule) (st : State) :
    ∃ done stop, Agrees src nested rule st done stop := by
  have hexit := rule.exit src nested st
  generalize hsilent : rule.call src nested st true = silent at hexit
  generalize hread : rule.call src nested st false = read at hexit
  cases hexit with
  | absent =>
    exact ⟨false, st.pos, hsilent, fun _ => ⟨rfl, .inl hread⟩, nofun⟩
  | fault =>
    exact ⟨false, st.pos, hsilent, fun _ => ⟨rfl, .inr ⟨_, hread⟩⟩, nofun⟩
  | @pass c stop es hfound _ hcontent hlt _ =>
    exact ⟨true, stop, hsilent, nofun, fun _ => ⟨hlt, .inl ⟨_, hread, rfl⟩⟩⟩
  | @nest c stop k l hfound _ hcontent hlt _ =>
    refine ⟨true, stop, hsilent, nofun, fun _ => ⟨hlt, ?_⟩⟩
    rw [State.nest] at hread
    cases hnested : nested (st.inside c stop l.start l.stop) with
    | error e =>
      rw [hnested] at hread
      exact .inr ⟨c, l, e, hfound, hcontent, hnested, hread⟩
    | ok inside =>
      rw [hnested] at hread
      exact .inl ⟨_, hread, rfl⟩

/-- **The search for the end of a label passes over what the silent call tells**, where it comes to
a mark of the rule for the first time: to where the call goes on, or, where that finds nothing, over
one character. -/
theorem Agrees.skip_eq {s : Setting} {nested : InPlace} {rule : TextRule} {st : State} {done : Bool}
    {stop : Nat} (h : Agrees s.src nested rule st done stop)
    (hmark : s.src.has rule.mark st.pos = true)
    (hfresh : (st.progress.memo.ends[st.pos]?).join = none) (room : Nat) :
    (skip s st.limit (room + 1) st.pos st.progress.memo).1 =
      if done = true then stop else st.pos + 1 := by
  have hskip : (skip s st.limit (room + 1) st.pos st.progress.memo).1 =
      foundStop st.pos (rule.found? s.src st.pos st.limit) := by
    rw [skip.eq_def]
    simp only [hfresh, recognize_of_mark hmark, found?, if_pos hmark]
  have hsilent := h.silent
  have hexit := rule.exit s.src nested st
  rw [hskip]
  rw [hsilent] at hexit
  generalize rule.call s.src nested st false = read at hexit
  cases done with
  | false =>
    obtain ⟨rfl, -⟩ := h.absent rfl
    generalize hst : st.goTo st.pos = st' at hexit
    cases hexit with
    | absent hfound => rw [hfound]; rfl
    | fault hfound => rw [hfound]; rfl
  | true =>
    generalize hst : st.goTo stop = st' at hexit
    cases hexit with
    | @pass c stop' _ hfound hcode | @nest c stop' _ _ hfound hcode =>
      obtain rfl : stop = stop' := congrArg State.pos hst
      rw [hfound]
      cases c <;> first | rfl | cases hcode

end TextRule

end Inline

/-- **Silent calls and those that read agree**, for every rule. A silent call never fails. One for
a block tells whether the other would read one or come upon a fault, and leaves the state as it is;
the readers of paragraphs and quotes ask the same. In running text, a silent call tells where the
other goes on if the content has no fault, and stays where the other finds nothing or a fault; the
search for the end of a label asks the same. -/
theorem silent_calls_agree :
    (∀ (src : Source) (st : Block.State) (i past room : Nat) (rule : Block.CodeRule),
      st.region.Reached src → 0 ≤ st.level → i < past → past ≤ st.height →
      rule.call (Block.State.tokenize room) st i past true =
        .ok (rule.starts st.region i past, st) ∧
      (rule.starts st.region i past = true ↔
        (∃ st', rule.call (Block.State.tokenize room) st i past false = .ok (true, st')) ∨
        ∃ e, rule.call (Block.State.tokenize room) st i past false = .error (.fault e))) ∧
    ∀ (s : Inline.Setting) (nested : Inline.InPlace) (st : Inline.State) (rule : Inline.TextRule),
      ∃ done stop, Inline.TextRule.Agrees s.src nested rule st done stop ∧
        (s.src.has rule.mark st.pos = true → (st.progress.memo.ends[st.pos]?).join = none →
          ∀ room, (Inline.skip s st.limit (room + 1) st.pos st.progress.memo).1 =
            if done = true then stop else st.pos + 1) := by
  constructor
  · intro src st i past room rule hst hlevel hi hpast
    exact Block.code_rule_silent hst hlevel hi hpast room rule
  · intro s nested st rule
    obtain ⟨done, stop, hagrees⟩ := rule.agrees s.src nested st
    exact ⟨done, stop, hagrees, fun hmark hfresh room => hagrees.skip_eq hmark hfresh room⟩

/-- What the two ways to call differ in: an element in a quote that is not closed, and an element in
a text that holds an expression without an end. -/
theorem silent_calls_agree_at_faults :
    (∃ (src : Source) (st : Block.State), st.region.Reached src ∧ 0 ≤ st.level ∧ 0 < 2 ∧
      2 ≤ st.height ∧
      Block.CodeRule.call (Block.State.tokenize 5) .element st 0 2 true = .ok (true, st) ∧
      ∃ e, Block.CodeRule.call (Block.State.tokenize 5) .element st 0 2 false =
        .error (.fault e)) ∧
    ∃ (s : Inline.Setting) (nested : Inline.InPlace) (st : Inline.State) (stop : Nat),
      Inline.TextRule.Agrees s.src nested .element st true stop ∧ stop = 9 ∧
      ∃ e, Inline.TextRule.call s.src nested .element st false = .error e := by
  constructor
  · let src := Source.ofString "> <A>\n> x\n"
    let r : Block.Region := .ofSource src
    let first := Block.Quote.inner r (r.line 0)
    let inner := (Block.Quote.gather (r.setLine 0 first) 2 first.isEmpty 1).1
    let st : Block.State :=
      ⟨inner.src, inner.lines, inner.height, 0, inner.listIndent, 1, 0, [], []⟩
    have hsource : r.Reached src := .source
    have hreached : st.region.Reached src :=
      hsource.quote (by decide : 0 < 2) (by decide +kernel) (by decide +kernel)
    have hheight : 2 ≤ st.height := by decide +kernel
    obtain ⟨hsilent, hiff⟩ := silent_calls_agree.1 src st 0 2 5 .element hreached (by decide)
      (by decide) hheight
    have hstarts : Block.CodeRule.starts .element st.region 0 2 = true := by decide +kernel
    rw [hstarts] at hsilent
    refine ⟨src, st, hreached, by decide, by decide, hheight, hsilent, ?_⟩
    rcases hiff.mp hstarts with ⟨st', hread⟩ | hfault
    · have hunread : (match Block.CodeRule.call (Block.State.tokenize 5) .element st 0 2 false with
          | .ok _ => false
          | .error _ => true) = true := by
        decide +kernel
      rw [hread] at hunread
      cases hunread
    · exact hfault
  · let s : Inline.Setting := ⟨Source.ofString "<A>\x7bx</A>", []⟩
    let nested := Inline.State.tokenize s (fun _ => .ok []) 5
    let st : Inline.State := ⟨0, 9, .start (.empty s.src), []⟩
    obtain ⟨done, stop, hagrees, -⟩ := silent_calls_agree.2 s nested st .element
    have hpresent : (match Inline.TextRule.call s.src nested .element st true with
        | .ok (done, st') => done && st'.pos == 9
        | .error _ => false) = true := by
      decide +kernel
    rw [hagrees.silent] at hpresent
    obtain ⟨rfl, hstop⟩ := Bool.and_eq_true_iff.mp hpresent
    refine ⟨s, nested, st, stop, hagrees, beq_iff_eq.mp hstop, ?_⟩
    rcases (hagrees.present rfl).2 with ⟨st', hread, -⟩ | ⟨-, -, e, -, -, -, hread⟩
    · have hunread : (match Inline.TextRule.call s.src nested .element st false with
          | .ok _ => false
          | .error _ => true) = true := by
        decide +kernel
      rw [hread] at hunread
      cases hunread
    · exact ⟨e, hread⟩

end MdxProse
