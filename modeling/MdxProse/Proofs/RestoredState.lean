import MdxProse.Proofs.InPlaceBlocks

/-!
# States that are put back

The regions in which blocks are read are those of the source, and what containers make of them.
Wherever the rules for embedded code are called in such a region, they come back with the state as
it was, but for what they have read.

* `Region.Reached`: the regions in which blocks are read.  `Region.Reached.sound`: they are sound.
* `Region.Reached.quote`: the region of a quote is one of them, and so are all that are gone
  through while it takes in its lines.
* `CodeRule.next_spec`: **a block ends below the line on which it starts**, and within the lines it
  may look at.
* `code_rule_restores`: **a call of a rule fails only for a fault of the document**, goes on to a
  later line if it reads a block, and changes nothing but what has been read.
-/

namespace MdxProse.Block

variable {src : Source} {r : Region} {i past : Nat}

/-! ### The regions in which blocks are read -/

/-- The regions in which blocks are read: that of the source, and what containers make of them. -/
inductive Region.Reached (src : Source) : Region → Prop
  | source : Reached src (.ofSource src)
  /-- A quote takes its mark off a line. -/
  | marked {r : Region} {i : Nat} : Reached src r → i < r.height → Quote.starts r i = true →
      Reached src (r.setLine i (Quote.inner r (r.line i)))
  /-- A quote takes in a line that continues a paragraph. -/
  | continued {r : Region} {i : Nat} : Reached src r → i < r.height → HasQuote src →
      Reached src (r.setLine i { r.line i with indent := -1 })
  /-- A quote ends before a line that interrupts it. -/
  | interrupted {r : Region} {i : Nat} : Reached src r → i ≤ r.height →
      Reached src { r with height := i }
  /-- The content of a quote. -/
  | quoted {r : Region} : Reached src r → Reached src { r with indent := 0, isTop := false }
  /-- The content of a list item. -/
  | item {r : Region} {i : Nat} {m : Marker} : Reached src r → i < r.height →
      Marker.read? (r.lineText i) = some m → Reached src (Items.inside r m i).1
  /-- The content of an element. -/
  | element {r : Region} {i past stop line : Nat} {name : Option String}
      {run : Element.ClosingRun} {indent : Int} : Reached src r → past ≤ r.height →
      Element.closingRun? r name past 0 none i = some run →
      r.lineReaching run.closer.span.start run.line = line →
      (if run.before.isEmpty then run.line else line + 1) = stop →
      Element.leastIndent? r i stop = some indent →
      Reached src (Element.inside r line stop indent run)

namespace Region.Reached

/-- **All regions in which blocks are read are sound.** -/
theorem sound (h : r.Reached src) : r.Sound src := by
  induction h with
  | source => exact Region.sound_ofSource src
  | marked _ hi hstarts ih => exact (Quote.within_mark ih hi hstarts).sound
  | continued _ hi hq ih => exact (Quote.within_lazy ih hi hq).sound
  | interrupted _ hi ih => exact ih.narrow hi ih.indent ih.quoted
  | quoted _ ih => exact ih.narrow (Nat.le_refl _) (by decide) nofun
  | item _ hi hm ih => exact Items.sound_inside ih hi hm
  | element _ hpast hclosing hline hstop hindent ih =>
    subst hline hstop
    have hclosed := Element.closed_of_closingRun? ih hpast hclosing
    have hlt := hclosed.run_lt
    have hlt' := hclosed.lt_past
    obtain ⟨hm, hq⟩ := Element.leastIndent?_spec ih (by split <;> omega) hindent
    exact (Element.ready_inside ih hpast hclosed hm hq).sound

theorem gather (h : r.Reached src) (hpast : past ≤ r.height) (hq : HasQuote src)
    (afterEmpty : Bool) (i : Nat) : (Quote.gather r past afterEmpty i).1.Reached src := by
  fun_induction Quote.gather r past afterEmpty i with
  | case1 | case3 | case6 => exact h
  | case2 r _ i hi _ _ hstarts _ ih =>
    exact ih (h.marked (Nat.lt_of_lt_of_le hi hpast) (Bool.and_eq_true_iff.mp hstarts).1) hpast
  | case4 => exact h.interrupted (by omega)
  | case5 r _ i hi _ _ _ _ _ ih => exact ih (h.continued (Nat.lt_of_lt_of_le hi hpast) hq) hpast

theorem quote (h : r.Reached src) (hi : i < past) (hpast : past ≤ r.height)
    (hstarts : Quote.starts r i = true) :
    let first := Quote.inner r (r.line i)
    Reached src { (Quote.gather (r.setLine i first) past first.isEmpty (i + 1)).1 with
      indent := 0, isTop := false } := by
  intro first
  have hheight := Nat.lt_of_lt_of_le hi hpast
  obtain ⟨-, -, hq⟩ := Quote.mark_of_starts h.sound hheight hstarts
  exact ((h.marked hheight hstarts).gather hpast hq _ _).quoted

end Region.Reached

/-! ### Where a block ends -/

/-- **A block of embedded code ends below the line on which it starts**, and within the lines that
its rule may look at. -/
theorem CodeRule.next_spec {content : Reader} (hr : r.Sound src) (hi : i < past)
    (hpast : past ≤ r.height) {rule : CodeRule} {o : Outcome}
    (h : rule.read? content r i past = some (.ok o)) : i < o.next ∧ o.next ≤ past := by
  have hreach {stop : Nat} (hstop : stop ≤ (r.line (past - 1)).stop) :
      i ≤ r.lineReaching stop i ∧ r.lineReaching stop i < past := by
    obtain ⟨hge, hle, -⟩ := r.lineReaching_spec (i := i) (j := past - 1) (by omega)
      (Nat.lt_of_lt_of_le (by omega) hr.height) hstop
    exact ⟨hge, by omega⟩
  cases rule with
  | statement =>
    obtain ⟨o', ho, he⟩ := Option.map_eq_some_iff.mp h
    cases he
    rw [Esm.read?] at ho
    split at ho
    · cases ho
      obtain ⟨hge, hle, -⟩ := Esm.stop_spec r past (i + 1) hi
      exact ⟨hge, hle⟩
    · cases ho
  | expression =>
    obtain ⟨o', ho, he⟩ := Option.map_eq_some_iff.mp h
    cases he
    obtain ⟨stop, hstop, rfl⟩ := Option.map_eq_some_iff.mp ho
    obtain ⟨-, -, hscan⟩ := FlowExpression.stop?_spec hstop
    obtain ⟨hge, hlt⟩ := hreach (Expression.stop_le_limit hscan)
    exact ⟨Nat.lt_succ_of_le hge, hlt⟩
  | element =>
    obtain ⟨shape, hshape, hread⟩ := Option.map_eq_some_iff.mp h
    obtain ⟨ts, stop, hrun, hof⟩ := Element.shape?_spec hshape
    obtain ⟨hge, hlt⟩ := hreach (Tag.run?_spec hrun).2.2.1
    cases shape with
    | stray t => cases hread
    | run ts' lineStop =>
      obtain ⟨rfl, rfl, -⟩ := Element.ofRun?_run hof
      cases hread
      exact ⟨Nat.lt_succ_of_le hge, hlt⟩
    | open_ t lineStop =>
      obtain ⟨-, rfl, -⟩ := Element.ofRun?_open hof
      simp only [Element.read] at hread
      split at hread
      · cases hread
      · next run hclosing =>
        have hclosed := Element.closed_of_closingRun? hr hpast hclosing
        have hstart := (Element.closingRun?_spec hclosing).1
        have hle := hclosed.run_le
        have hlt' := hclosed.lt_past
        obtain ⟨-, -, -, hnext⟩ := Element.readClosed_inv hread
        obtain ⟨hge', hle', -⟩ := r.lineReaching_spec (j := past - 1)
          (i := r.lineReaching run.closer.span.start run.line) (by omega)
          (Nat.lt_of_lt_of_le (by omega) hr.height) hclosed.stop_le
        rw [hnext]
        omega

/-! ### Calls of the rules -/

/-- **A call of a rule for embedded code stops only for a fault of the document.** If it reads a
block, it goes on to a later line, no further than it may, and nothing else in the state has changed
but that events and definitions have been added; these are what the reader finds that hands regions
on. If it reads none, nothing has changed. -/
theorem code_rule_restores {st : State} (hst : st.region.Reached src) (hlevel : 0 ≤ st.level)
    (hi : i < past) (hpast : past ≤ st.height) (room : Nat) (rule : CodeRule) :
    rule.call (State.tokenize room) st i past false ≠ .error .outOfRange ∧
    (∀ st', rule.call (State.tokenize room) st i past false = .ok (true, st') →
      i < st'.line ∧ st'.line ≤ past ∧ ∃ es ds, st' = { st with
        events := st.events ++ es
        definitions := st.definitions ++ ds
        line := st'.line }) ∧
    (∀ st', rule.call (State.tokenize room) st i past false = .ok (false, st') → st' = st) ∧
    rule.call (State.tokenize room) st i past false =
      match rule.read? (read room) st.region i past with
      | none => .ok (false, st)
      | some (.ok o) => .ok (true, st.take o)
      | some (.error e) => .error (.fault e) := by
  have hr := hst.sound
  have hcall := CodeRule.call_eq (State.tokenize_agrees src room) hr hi hpast hlevel rule false
  rw [hcall]
  cases hread : rule.read? (read room) st.region i past with
  | none => exact ⟨nofun, nofun, fun st' h => by cases h; rfl, rfl⟩
  | some x =>
    cases x with
    | error e => exact ⟨nofun, nofun, nofun, rfl⟩
    | ok o =>
      refine ⟨nofun, ?_, nofun, rfl⟩
      intro st' h
      cases h
      obtain ⟨hlt, hle⟩ := CodeRule.next_spec hr hi hpast hread
      have hrises := CodeRule.read_level (read_level room) hread
      refine ⟨hlt, hle, o.events, o.definitions, ?_⟩
      rw [State.take, State.pushAll, hrises, Int.add_zero]

/-- Two elements in a quote that are closed on one line, read where two nodes are open already. -/
theorem code_rule_restores_shared_line : ∃ (src : Source) (st st' : State),
    st.region.Reached src ∧ 0 ≤ st.level ∧ 0 < 4 ∧ 4 ≤ st.height ∧
      CodeRule.call (State.tokenize 5) .element st 0 4 false = .ok (true, st') ∧
      st'.line = 4 ∧ st'.events.length = 7 ∧ st'.lines = st.lines := by
  let src := Source.ofString "> <A>\n> <B>\n> x\n> </B></A>\n"
  let r : Region := .ofSource src
  let first := Quote.inner r (r.line 0)
  let inner := (Quote.gather (r.setLine 0 first) 4 first.isEmpty 1).1
  let st : State := ⟨inner.src, inner.lines, inner.height, 0, inner.listIndent, 1, 0, [], []⟩
  have hsource : r.Reached src := .source
  have hreached : st.region.Reached src :=
    hsource.quote (by decide : 0 < 4) (by decide +kernel) (by decide +kernel)
  have hheight : 4 ≤ st.height := by decide +kernel
  obtain ⟨-, hread, -, hcall⟩ := code_rule_restores hreached (by decide : (0 : Int) ≤ 1)
    (by decide : 0 < 4) hheight 5 .element
  have hblock : (CodeRule.read? (read 5) .element st.region 0 4).any (fun x =>
      x.toOption.any fun o => o.next == 4 && o.events.length == 7) = true := by
    decide +kernel
  rcases hx : CodeRule.read? (read 5) .element st.region 0 4 with _ | _ | o
  · rw [hx] at hblock
    cases hblock
  · rw [hx] at hblock
    cases hblock
  · rw [hx] at hblock hcall
    obtain ⟨hnext, hlength⟩ := Bool.and_eq_true_iff.mp hblock
    obtain ⟨-, -, es, ds, hst⟩ := hread _ hcall
    refine ⟨src, st, st.take o, hreached, by decide, by decide, hheight, hcall, ?_, ?_, ?_⟩
    · exact beq_iff_eq.mp hnext
    · exact beq_iff_eq.mp hlength
    · rw [hst]

end MdxProse.Block
