import MdxProse.Proofs.FirstPartner
import MdxProse.Proofs.RestoredState

/-!
# The runs of tags on the lines of an element

The search for the closing tag of an element that stands alone goes over lines.  It comes across
runs of tags, and passes over empty lines, fenced code and all other text; among the tags of these
runs it picks the first closing tag that is left over.

* `tagRuns`: the runs that the search comes across, whatever it is looking for.
* `ClosingRun.pick`, `closingRun?_eq_pick`: **the search picks one of them.**
* `of_pick_eq_some`, `of_pick_eq_none`: which one, and why there is none.
* `closing_run_closes`: **the closing tag that is found closes the element**, and where none is
  found, there is none or its run holds more than it may.
-/

namespace MdxProse.Block

variable {src : Source} {r : Region} {i past : Nat}

/-- A run of tags that fills its lines. -/
structure TagRun where
  /-- The line on which it starts. -/
  line : Nat
  tags : List Tag
  /-- The end of the line on which it ends. -/
  stop : Nat

namespace Element

/-- The tags of all the runs. -/
def allTags (us : List TagRun) : List Tag :=
  us.flatMap (·.tags)

/-! ### The runs -/

/-- What the search makes of line `i`: whether it is inside fenced code after it, and the run of
tags that starts there. A line of fenced code is not looked at, nor one that opens it. -/
def scanLine (r : Region) (past : Nat) (fence : Option (Char × Nat)) (i : Nat) :
    Option (Char × Nat) × Option TagRun :=
  if r.isEmpty i then (fence, none)
  else
    match fence with
    | some (c, n) => (if closesFence c n (r.lineText i) then none else some (c, n), none)
    | none =>
      match Fence.mark? (r.lineText i) with
      | some mark => (some mark, none)
      | none =>
        (none, (Tag.run? r.src (r.line i).start (r.limit past)).map fun (tags, stop) =>
          ⟨i, tags, stop⟩)

/-- The runs of tags on the lines from `i` on. A run that reaches over several lines is looked at
once. -/
def tagRuns (r : Region) (past : Nat) (fence : Option (Char × Nat)) (i : Nat) : List TagRun :=
  if i < past then
    match scanLine r past fence i with
    | (fence, none) => tagRuns r past fence (i + 1)
    | (fence, some u) => u :: tagRuns r past fence (max i (r.lineReaching u.stop i) + 1)
  else []
termination_by past - i

section

variable {fence fence' : Option (Char × Nat)} {u : TagRun}

theorem tagRuns_pass (hlt : i < past) (h : scanLine r past fence i = (fence', none)) :
    tagRuns r past fence i = tagRuns r past fence' (i + 1) := by
  rw [tagRuns, if_pos hlt, h]

theorem tagRuns_cons (hlt : i < past) (h : scanLine r past fence i = (fence', some u)) :
    tagRuns r past fence i =
      u :: tagRuns r past fence' (max i (r.lineReaching u.stop i) + 1) := by
  rw [tagRuns, if_pos hlt, h]

theorem tagRuns_of_le (hle : past ≤ i) : tagRuns r past fence i = [] := by
  rw [tagRuns, if_neg (Nat.not_lt_of_le hle)]

/-- On a line that is neither empty nor a mark of fenced code, a run of tags may start. -/
theorem scanLine_of_mark? (hempty : ¬ r.isEmpty i = true)
    (hmark : Fence.mark? (r.lineText i) = none) : scanLine r past none i =
      (none, (Tag.run? r.src (r.line i).start (r.limit past)).map fun (tags, stop) =>
        ⟨i, tags, stop⟩) := by
  rw [scanLine.eq_def, if_neg hempty]
  dsimp only
  rw [hmark]

end

/-! ### The run that is picked -/

/-- The run that holds the closing tag of an element `name`, `inner` further elements of that name
being open. The tags before the closing one must leave nothing open, and those after it must be
balanced. -/
def ClosingRun.pick (name : Option String) : Nat → List TagRun → Option ClosingRun
  | _, [] => none
  | inner, u :: us =>
    match findIn name inner u.tags with
    | .inl (before, closer, after) =>
      if Tag.leavesNothingOpen before && Tag.balanced after then
        some ⟨u.line, before, closer, after, u.stop⟩
      else none
    | .inr n => pick name n us

/-- **The search picks one of the runs that it comes across.** -/
theorem closingRun?_eq_pick (r : Region) (name : Option String) (past inner : Nat)
    (fence : Option (Char × Nat)) (i : Nat) :
    closingRun? r name past inner fence i =
      ClosingRun.pick name inner (tagRuns r past fence i) := by
  fun_induction closingRun? r name past inner fence i with
  | case1 =>
    rename_i hlt hempty ih
    rw [tagRuns_pass hlt (by rw [scanLine.eq_def, if_pos hempty])]
    exact ih
  | case2 =>
    rename_i hlt hempty text c n ih
    rw [tagRuns_pass hlt (by rw [scanLine.eq_def, if_neg hempty])]
    exact ih
  | case3 =>
    rename_i i hlt hempty text mark hmark ih
    have hmark : Fence.mark? (r.lineText i) = some mark := hmark
    rw [tagRuns_pass hlt (by rw [scanLine.eq_def, if_neg hempty]; dsimp only; rw [hmark])]
    exact ih
  | case4 =>
    rename_i hlt hempty text hmark hrun ih
    rw [tagRuns_pass hlt (by rw [scanLine_of_mark? hempty hmark, hrun, Option.map_none])]
    exact ih
  | case5 =>
    rename_i hlt hempty text hmark tags stop hrun before closer after hfind hcond
    rw [tagRuns_cons hlt (by rw [scanLine_of_mark? hempty hmark, hrun, Option.map_some]),
      ClosingRun.pick]
    simp only [hfind, if_pos hcond]
  | case6 =>
    rename_i hlt hempty text hmark tags stop hrun before closer after hfind hcond
    rw [tagRuns_cons hlt (by rw [scanLine_of_mark? hempty hmark, hrun, Option.map_some]),
      ClosingRun.pick]
    simp only [hfind, if_neg hcond]
  | case7 =>
    rename_i hlt hempty text hmark tags stop hrun n hfind ih
    rw [tagRuns_cons hlt (by rw [scanLine_of_mark? hempty hmark, hrun, Option.map_some]),
      ClosingRun.pick]
    simp only [hfind]
    exact ih
  | case8 =>
    rename_i hlt
    rw [tagRuns_of_le (Nat.le_of_not_lt hlt)]
    rfl

section Pick

variable {name : Option String} {inner : Nat} {us : List TagRun}

theorem allTags_cons (u : TagRun) (us : List TagRun) : allTags (u :: us) = u.tags ++ allTags us :=
  List.flatMap_cons

/-- **The run that is picked holds the first closing tag that is left over** among the tags of all
runs. -/
theorem of_pick_eq_some {run : ClosingRun} (h : ClosingRun.pick name inner us = some run) :
    (∃ us₁ us₂,
      us = us₁ ++ ⟨run.line, run.before ++ run.closer :: run.after, run.stop⟩ :: us₂ ∧
        Tag.Partner name inner (allTags us₁ ++ run.before) run.closer) ∧
      Tag.leavesNothingOpen run.before = true ∧ Tag.balanced run.after = true := by
  induction us generalizing inner with
  | nil => cases h
  | cons u us ih =>
    rw [ClosingRun.pick] at h
    cases hfind : findIn name inner u.tags with
    | inl found =>
      obtain ⟨before, closer, after⟩ := found
      simp only [hfind] at h
      split at h
      · next hcond =>
        cases h
        obtain ⟨htags, hpartner⟩ := findIn_eq_inl_iff.mp hfind
        refine ⟨⟨[], us, ?_, hpartner⟩, Bool.and_eq_true_iff.mp hcond⟩
        rw [List.nil_append, ← htags]
      · cases h
    | inr n =>
      simp only [hfind] at h
      obtain ⟨⟨us₁, us₂, rfl, hpartner⟩, hrun⟩ := ih h
      refine ⟨⟨u :: us₁, us₂, rfl, ?_⟩, hrun⟩
      rw [allTags_cons, List.append_assoc]
      exact hpartner.prepend hfind

/-- **Where no run is picked**, no closing tag is left over, or the first one that is stands in a
run that holds more than it may. -/
theorem of_pick_eq_none (h : ClosingRun.pick name inner us = none) :
    (∃ n, findIn name inner (allTags us) = .inr n) ∨
      ∃ us₁ u us₂ before closer after, us = us₁ ++ u :: us₂ ∧ u.tags = before ++ closer :: after ∧
        Tag.Partner name inner (allTags us₁ ++ before) closer ∧
        ¬ (Tag.leavesNothingOpen before = true ∧ Tag.balanced after = true) := by
  induction us generalizing inner with
  | nil => exact .inl ⟨inner, rfl⟩
  | cons u us ih =>
    rw [ClosingRun.pick] at h
    cases hfind : findIn name inner u.tags with
    | inl found =>
      obtain ⟨before, closer, after⟩ := found
      simp only [hfind] at h
      split at h
      · cases h
      · next hcond =>
        obtain ⟨htags, hpartner⟩ := findIn_eq_inl_iff.mp hfind
        refine .inr ⟨[], u, us, before, closer, after, rfl, htags, hpartner, ?_⟩
        rwa [Bool.and_eq_true_iff] at hcond
    | inr n =>
      simp only [hfind] at h
      rcases ih h with ⟨m, hm⟩ | ⟨us₁, v, us₂, before, closer, after, rfl, htags, hpartner, hno⟩
      · refine .inl ⟨m, ?_⟩
        rw [allTags_cons, findIn_append hfind, hm]
      · refine .inr ⟨u :: us₁, v, us₂, before, closer, after, rfl, htags, ?_, hno⟩
        rw [allTags_cons, List.append_assoc]
        exact hpartner.prepend hfind

end Pick

/-! ### Where the run stands -/

theorem Closed.start_lt (hr : r.Sound src) (hpast : past ≤ r.height) {name : Option String}
    {run : ClosingRun} {line : Nat} (h : Closed src r past name run line) :
    run.closer.span.start < (r.line line).stop := by
  have hle := h.le_stop
  have hlt := h.lt_past
  have htag := (Tag.stop_of_scan? h.scan).1
  refine Nat.lt_of_le_of_ne hle fun heq => ?_
  by_cases hlast : line + 1 < past
  · -- a line that is not cut off ends at a line break or at the end of the text
    obtain ⟨s, body, hline, -, hstop⟩ := hr.line line (by omega)
    have hisLine := Anchor.lines_isLine hline
    have hbracket := Tag.has_lt_of_scan? h.scan
    rw [heq, hstop (by omega)] at hbracket
    rcases hisLine.stop with hbreak | hsize
    · rw [hbreak] at hbracket
      exact absurd hbracket (by decide)
    · rw [hsize] at hbracket
      simp at hbracket
  · -- the tag ends on the last line
    have hstop := h.stop_le
    have hafter := h.after.le
    have hlast : line = past - 1 := by omega
    rw [hlast] at heq
    omega

theorem stop_of_break {p : Nat} (hr : r.Sound src) (hpast : past ≤ r.height) (hi : i < past)
    (hbreak : src.has '\n' p = true) (hstart : (r.line i).first ≤ p)
    (hstop : p ≤ (r.line (past - 1)).stop) :
    ∃ j, i ≤ j ∧ j < past ∧ p = (r.line j).stop := by
  obtain ⟨hge, hle, hreach, hbefore⟩ := r.lineReaching_spec (i := i) (j := past - 1) (by omega)
    (Nat.lt_of_lt_of_le (by omega) hr.height) hstop
  generalize r.lineReaching p i = j at *
  refine ⟨j, hge, by omega, Nat.le_antisymm hreach (Nat.le_of_not_lt fun hlt => ?_)⟩
  obtain ⟨s, body, hline, hin, -⟩ := hr.line j (by omega)
  have hs : s ≤ p := by
    rcases Nat.eq_or_lt_of_le hge with rfl | hij
    · exact Nat.le_trans hin.first hstart
    · obtain ⟨t, body', hprev, -, hend⟩ := hr.line (j - 1) (by omega)
      have hlast := hbefore (j - 1) (by omega) (by omega)
      rw [hend (by omega)] at hlast
      have hnext := Anchor.lines_succ hprev (by rw [Nat.sub_add_cancel (by omega)]; exact hline)
      omega
  -- the break would stand inside a line of the source
  obtain ⟨c, hc, hcb⟩ := Source.test_iff.mp hbreak
  rw [beq_iff_eq] at hcb
  subst hcb
  have hend := hin.stop
  obtain ⟨q, rfl⟩ := Nat.exists_eq_add_of_le hs
  have hisLine := Anchor.lines_isLine hline
  rw [hisLine.hasAt.getElem? (by omega)] at hc
  exact hisLine.noBreak (List.mem_of_getElem? hc)

theorem exists_stop_eq (hr : r.Sound src) (hpast : past ≤ r.height) {name : Option String}
    {run : ClosingRun} (h : closingRun? r name past 0 none i = some run) :
    ∃ j, i ≤ j ∧ j < past ∧ run.stop = (r.line j).stop := by
  have hclosed := closed_of_closingRun? hr hpast h
  obtain ⟨hi, hlt, hscan, -⟩ := closingRun?_spec h
  obtain ⟨-, htags, -, hend⟩ := Tag.run?_spec hscan
  rcases hend with hlimit | hbreak
  · exact ⟨past - 1, by omega, by omega, hlimit⟩
  · rw [hr.src_eq] at hbreak
    have hfirst : (r.line run.line).first ≤ (r.line run.line).start := Nat.le_add_right _ _
    obtain ⟨j, hj, hjlt, hstop⟩ := stop_of_break hr hpast hlt hbreak
      (Nat.le_trans hfirst htags.le) hclosed.stop_le
    exact ⟨j, Nat.le_trans hi hj, hjlt, hstop⟩

/-- **The closing tag that is found closes the element.**  It is a closing tag of the name of the
opening one, starts in the text of a line of the range, and is the first tag in the runs from the
first line on with which as many tags of its name have closed an element as have opened one, the
opening tag counted.  The tags before it in its run are balanced if some opening tags are put before
them, those after it are balanced, and the run ends where a line of the range ends.  Where no
closing tag is found, no tag does that, or the first one that does stands in a run of which the
other tags are not so. -/
theorem closing_run_closes (hr : r.Reached src) (hpast : past ≤ r.height) (opener : Tag) (i : Nat) :
    (∀ run, closingRun? r opener.name past 0 none i = some run →
      run.closer.form = .closing ∧ run.closer.name = opener.name ∧
      (∃ j, i ≤ j ∧ j < past ∧ (r.line j).start ≤ run.closer.span.start ∧
        run.closer.span.start < (r.line j).stop) ∧
      (∃ us₁ us₂, tagRuns r past none i =
          us₁ ++ ⟨run.line, run.before ++ run.closer :: run.after, run.stop⟩ :: us₂ ∧
        (∀ ts, ts <+: allTags us₁ ++ run.before →
          ts.countP (Tag.closes opener.name) < ts.countP (Tag.opens opener.name) + 1) ∧
        (allTags us₁ ++ run.before ++ [run.closer]).countP (Tag.closes opener.name) =
          (allTags us₁ ++ run.before ++ [run.closer]).countP (Tag.opens opener.name) + 1) ∧
      (∃ outer, (∀ t ∈ outer, t.form = .opening) ∧ Tag.balanced (outer ++ run.before) = true) ∧
      Tag.balanced run.after = true ∧
      ∃ j, i ≤ j ∧ j < past ∧ run.stop = (r.line j).stop) ∧
    (closingRun? r opener.name past 0 none i = none →
      (∀ ts, ts <+: allTags (tagRuns r past none i) →
        ts.countP (Tag.closes opener.name) < ts.countP (Tag.opens opener.name) + 1) ∨
      ∃ us₁ u us₂ before closer after, tagRuns r past none i = us₁ ++ u :: us₂ ∧
        u.tags = before ++ closer :: after ∧
        Tag.Partner opener.name 0 (allTags us₁ ++ before) closer ∧
        ¬ ((∃ outer, (∀ t ∈ outer, t.form = .opening) ∧ Tag.balanced (outer ++ before) = true) ∧
          Tag.balanced after = true)) := by
  have hsound := hr.sound
  constructor
  · intro run hsearch
    have hclosed := closed_of_closingRun? hsound hpast hsearch
    have hspec := closingRun?_spec hsearch
    have hpick := hsearch
    rw [closingRun?_eq_pick] at hpick
    obtain ⟨⟨us₁, us₂, hruns, hpartner⟩, hbefore, hafter⟩ := of_pick_eq_some hpick
    refine ⟨hclosed.form, hclosed.name_eq, ?_, ?_, Tag.leavesNothingOpen_iff.mp hbefore, hafter,
      exists_stop_eq hsound hpast hsearch⟩
    · exact ⟨_, Nat.le_trans hspec.1 hclosed.run_le, hclosed.lt_past, hclosed.start_le,
        hclosed.start_lt hsound hpast⟩
    · exact ⟨us₁, us₂, hruns, fun ts hts => hpartner.pending hts, hpartner.settled⟩
  · intro hsearch
    rw [closingRun?_eq_pick] at hsearch
    rcases of_pick_eq_none hsearch with ⟨n, hfind⟩ | hpicked
    · left
      intro ts hts
      exact pending_of_findIn hfind hts
    · right
      obtain ⟨us₁, u, us₂, before, closer, after, hruns, htags, hpartner, hno⟩ := hpicked
      refine ⟨us₁, u, us₂, before, closer, after, hruns, htags, hpartner, ?_⟩
      rwa [← Tag.leavesNothingOpen_iff]

/-- A closing tag that shares its line with closing tags of inner elements and a whole element. -/
theorem closing_run_closes_shared_line : ∃ (src : Source) (r : Region) (run : ClosingRun),
    r.Reached src ∧ 4 ≤ r.height ∧ closingRun? r (some "A") 4 0 none 1 = some run ∧
      run.before.length = 2 ∧ run.after.length = 1 ∧ run.closer.name = some "A" ∧
      (∃ outer, (∀ t ∈ outer, t.form = .opening) ∧ Tag.balanced (outer ++ run.before) = true) ∧
      Tag.balanced run.after = true := by
  let src := Source.ofString "<A>\n<B>\n<A>\n</A></B></A> <C/>"
  let r : Region := .ofSource src
  have hrun : (closingRun? r (some "A") 4 0 none 1).any (fun run =>
      run.before.length == 2 && run.after.length == 1) = true := by
    decide +kernel
  obtain ⟨run, hsearch, hlength⟩ := (Option.any_eq_true _ _).mp hrun
  rw [Bool.and_eq_true, beq_iff_eq, beq_iff_eq] at hlength
  have hreached : r.Reached src := .source
  have hheight : 4 ≤ r.height := by decide +kernel
  obtain ⟨hcloses, -⟩ := closing_run_closes hreached hheight ⟨some "A", ⟨0, 3⟩, .opening⟩ 1
  obtain ⟨-, hname, -, -, hbefore, hafter, -⟩ := hcloses run hsearch
  exact ⟨src, r, run, hreached, hheight, hsearch, hlength.1, hlength.2, hname, hbefore, hafter⟩

end Element

end MdxProse.Block
