import MdxProse.Proofs.LeafBlocks
import MdxProse.Proofs.TagRun

/-!
# Elements that stand alone

A line of tags is read as elements whose tags stand where the tags of the line do; a single opening
tag is closed on a later line, and its content is read from the lines between.

* `Element.closingRun?_spec`: the run that holds the closing tag.
* `Element.sound_inside`: the region inside an element is sound.
* `Element.between_inside`: **the lines inside an element are between its two tags.**
* `Element.reads`: what the reader of elements reports.
-/

namespace MdxProse.Block

variable {src : Source} {r : Region} {i past : Nat}

/-- The region is sound up to the line at which reading ends; at the top, that is the whole
document. -/
structure Region.Ready (src : Source) (r : Region) (past : Nat) : Prop where
  sound : r.Sound src
  past_le : past ≤ r.height
  top : r.isTop = true → r = Region.ofSource src ∧ past = r.height

/-- **A reader of content keeps to what readers report**, in every region that is ready. -/
def Reader.Correct (src : Source) (content : Reader) : Prop :=
  ∀ r i past c, r.Ready src past → content r i past = .ok c → Reads src r i c.events c.next

namespace Element

/-! ### Lines of tags -/

theorem shape?_spec {shape : Shape} (h : shape? r i past = some shape) :
    ∃ ts stop, Tag.run? r.src (r.line i).start (r.limit past) = some (ts, stop) ∧
      Shape.ofRun? (ts, stop) = some shape := by
  rw [shape?] at h
  split at h
  · cases h
  · rw [Option.bind_eq_some_iff] at h
    obtain ⟨⟨ts, stop⟩, hrun, hshape⟩ := h
    exact ⟨ts, stop, hrun, hshape⟩

theorem ofRun?_open {ts : List Tag} {stop lineStop : Nat} {t : Tag}
    (h : Shape.ofRun? (ts, stop) = some (.open_ t lineStop)) :
    ts = [t] ∧ stop = lineStop ∧ t.form = .opening := by
  rw [Shape.ofRun?.eq_def] at h
  split at h
  · next t' stop' he =>
    obtain ⟨rfl, rfl⟩ := Prod.mk.inj he
    split at h
    · cases h
    · next hf =>
      cases h
      exact ⟨rfl, rfl, hf⟩
    · cases h
  · split at h <;> cases h

theorem ofRun?_run {ts ts' : List Tag} {stop lineStop : Nat}
    (h : Shape.ofRun? (ts, stop) = some (.run ts' lineStop)) :
    ts' = ts ∧ lineStop = stop ∧ Tag.Matched ts := by
  rw [Shape.ofRun?.eq_def] at h
  split at h
  · next t' stop' he =>
    obtain ⟨rfl, rfl⟩ := Prod.mk.inj he
    split at h
    · cases h
    · cases h
    · next hf =>
      cases h
      exact ⟨rfl, rfl, .single hf .nil⟩
  · next ts'' stop' hne he =>
    obtain ⟨rfl, rfl⟩ := Prod.mk.inj he
    split at h
    · next hb =>
      cases h
      exact ⟨rfl, rfl, Tag.matched_of_balanced hb⟩
    · cases h

/-! ### The closing tag -/

theorem closingRun?_spec {name : Option String} {inner : Nat} {fence : Option (Char × Nat)}
    {run : ClosingRun} (h : closingRun? r name past inner fence i = some run) :
    i ≤ run.line ∧ run.line < past ∧
      Tag.run? r.src (r.line run.line).start (r.limit past) =
        some (run.before ++ run.closer :: run.after, run.stop) ∧
      run.closer.form = .closing ∧ run.closer.name = name ∧ Tag.Matched run.after := by
  fun_induction closingRun? r name past inner fence i with
  | case1 | case2 | case3 | case4 =>
    rename_i ih
    exact ⟨Nat.le_of_succ_le (ih h).1, (ih h).2⟩
  | case5 =>
    rename_i hlt _ _ _ tags stop hrun before closer after hfind hcond
    cases h
    obtain ⟨rfl, hform, hname⟩ := findIn_inl hfind
    have hbal := (Bool.and_eq_true_iff.mp hcond).2
    exact ⟨Nat.le_refl _, hlt, hrun, hform, hname, Tag.matched_of_balanced hbal⟩
  | case6 => cases h
  | case7 =>
    rename_i ih
    have hle := (ih h).1
    exact ⟨by omega, (ih h).2⟩
  | case8 => cases h

/-! ### The inside of an element -/

/-- The indentation of an element is that of a line, which is negative in quotes only. -/
theorem leastIndent?_spec (hr : r.Sound src) (hp : past ≤ r.height) {m : Int}
    (h : leastIndent? r i past = some m) : -1 ≤ m ∧ (m < 0 → HasQuote src) := by
  fun_induction leastIndent? r i past generalizing m with
  | case1 =>
    rename_i ih
    exact ih h
  | case2 =>
    rename_i k hk _ he m' hm' ih
    cases h
    obtain ⟨hge, hq⟩ := ih hm'
    obtain ⟨_, _, _, hin⟩ := hr.inside (Nat.lt_of_lt_of_le hk hp)
    have := hin.indent
    refine ⟨by omega, fun hneg => ?_⟩
    by_cases hm : m' < 0
    · exact hq hm
    · exact hin.quoted (by omega)
  | case3 =>
    rename_i k hk _ _ _ _
    cases h
    obtain ⟨_, _, _, hin⟩ := hr.inside (Nat.lt_of_lt_of_le hk hp)
    exact ⟨hin.indent, hin.quoted⟩
  | case4 => cases h

theorem leastIndent?_congr {r' : Region} (h : ∀ k, r'.line k = r.line k) :
    leastIndent? r' i past = leastIndent? r i past := by
  have hempty (k : Nat) : r'.isEmpty k = r.isEmpty k := by rw [Region.isEmpty, h, Region.isEmpty]
  fun_induction leastIndent? r i past with
  | case1 i hi rest he ih => rw [leastIndent?, if_pos hi, hempty, if_pos he, ih]
  | case2 i hi rest he m hm ih =>
    simp only [rest] at hm
    rw [leastIndent?, if_pos hi, hempty, if_neg he, ih, hm, h]
  | case3 i hi rest he hm ih =>
    simp only [rest] at hm
    rw [leastIndent?, if_pos hi, hempty, if_neg he, ih, hm, h]
  | case4 i hi => rw [leastIndent?, if_neg hi]

/-- A run holds a closing tag of an element `name`, and `line` is the line on which that tag
starts. -/
structure Closed (src : Source) (r : Region) (past : Nat) (name : Option String)
    (run : ClosingRun) (line : Nat) : Prop where
  form : run.closer.form = .closing
  name_eq : run.closer.name = name
  scan : Tag.scan? src run.closer.span.start src.size = some run.closer
  /-- The tags after the closing one match, and end with the run. -/
  matched : Tag.Matched run.after
  after : Tag.InRow src run.closer.span.stop run.stop run.after
  stop_le : run.stop ≤ (r.line (past - 1)).stop
  run_lt : run.line < past
  run_le : run.line ≤ line
  lt_past : line < past
  first_lt : (r.line run.line).first ≤ run.closer.span.start
  /-- The closing tag starts in the text of its line. -/
  start_le : (r.line line).start ≤ run.closer.span.start
  le_stop : run.closer.span.start ≤ (r.line line).stop
  /-- The lines before end before the tag. -/
  lt_start : ∀ k, k < line → (r.line k).stop < run.closer.span.start

theorem closed_of_closingRun? (hr : r.Sound src) (hheight : past ≤ r.height) {name : Option String}
    {run : ClosingRun} (h : closingRun? r name past 0 none i = some run) :
    Closed src r past name run (r.lineReaching run.closer.span.start run.line) := by
  obtain ⟨_, hlt, hrun, hform, hname, hmatched⟩ := closingRun?_spec h
  have hsrc := hr.src_eq
  subst hsrc
  obtain ⟨_, hrow, hstop, _⟩ := Tag.run?_spec hrun
  obtain ⟨mid, hbefore, hmid, hscan, hafter⟩ := hrow.split
  have hclt := (Tag.stop_of_scan? hscan).1
  have hale := hafter.le
  have hble := hbefore.le
  have hfirst : (r.line run.line).first ≤ (r.line run.line).start := Nat.le_add_right _ _
  have hle : run.closer.span.start ≤ (r.line (past - 1)).stop := by
    have : run.stop ≤ (r.line (past - 1)).stop := hstop
    omega
  obtain ⟨hge, hlast, hreach, hprev⟩ := r.lineReaching_spec (i := run.line) (j := past - 1)
    (by omega) (Nat.lt_of_lt_of_le (by omega) hr.height) hle
  refine ⟨hform, hname, hscan, hmatched, hafter, hstop, hlt, hge, by omega, by omega, ?_, hreach,
    fun k hk => ?_⟩
  · exact hr.start_le_of_lineReaching (j := past - 1) (by omega) (by omega) (by omega) hle
      (Tag.has_lt_of_scan? hscan)
  · by_cases hkr : run.line ≤ k
    · exact hprev k hkr hk
    · have := hr.line_lt (j := k) (k := run.line) (by omega) (by omega)
      omega

/-- **The region inside an element is sound.** -/
theorem ready_inside (hr : r.Sound src) (hheight : past ≤ r.height) {name : Option String}
    {run : ClosingRun} {line : Nat} (hc : Closed src r past name run line) {m : Int} (hm : -1 ≤ m)
    (hq : m < 0 → HasQuote src) :
    (inside r line (if run.before.isEmpty then run.line else line + 1) m run).Ready src
      (if run.before.isEmpty then run.line else line + 1) := by
  have hlt := hc.run_lt
  have hlt' := hc.lt_past
  unfold inside
  split
  · exact ⟨hr.narrow (by omega) hm hq, Nat.le_refl _, nofun⟩
  · refine ⟨(hr.narrow (by omega) hm hq).setLine fun s body hin => ⟨?_, fun hlt => ?_⟩,
      Nat.le_refl _, nofun⟩
    · exact hin.cutAt hc.start_le hc.le_stop (Tag.has_lt_of_scan? hc.scan)
    · exact absurd hlt (Nat.lt_irrefl _)

/-- **The lines inside an element are between its two tags.** -/
theorem between_inside (hr : r.Ready src past) {name : Option String} {run : ClosingRun}
    {line start offset j : Nat} (hc : Closed src r past name run line) {m : Int}
    (hstart : start ≤ run.line)
    (hlo : ∀ k, start ≤ k → k < r.height → offset ≤ (r.line k).first) :
    (inside r line (if run.before.isEmpty then run.line else line + 1) m run).Between start j
      offset run.closer.span.start := by
  have hheight := hr.past_le
  have hlt := hc.run_lt
  have hlt' := hc.lt_past
  have hle := hc.run_le
  have hfirst := hc.first_lt
  refine ⟨Nat.le_trans (hlo run.line hstart (by omega)) hfirst, fun k hk _ hkh => ?_⟩
  unfold inside at hkh ⊢
  split at hkh
  · next he =>
    rw [if_pos he]
    have hkh : k < run.line := hkh
    exact ⟨hlo k hk (by omega), Nat.le_of_lt (hc.lt_start k (by omega))⟩
  · next he =>
    rw [if_neg he]
    have hkh : k < line + 1 := hkh
    have hsize : k < r.lines.size :=
      Nat.lt_of_lt_of_le (show k < r.height by omega) hr.sound.height
    rw [Region.line_setLine]
    by_cases hline : line = k
    · rw [if_pos ⟨hline, hsize⟩]
      subst hline
      exact ⟨hlo line hk (by omega), Nat.le_refl _⟩
    · rw [if_neg fun h => hline h.1]
      exact ⟨hlo k hk (by omega), Nat.le_of_lt (hc.lt_start k (by omega))⟩

/-! ### Reading elements -/

theorem runEvents_plain (lines : LineRange) (ts : List Tag) :
    ∀ e ∈ runEvents lines ts, IsPlain src e := by
  induction ts with
  | nil => nofun
  | cons t ts ih =>
    intro e he
    cases hf : t.form with
    | opening | selfClosing | closing =>
      simp only [runEvents, hf, List.mem_cons] at he
      rcases he with rfl | he <;> grind [IsPlain, Kind.layer, Kind.holdsNodes]

/-- What an element consists of: its content, read from the lines between its tags unless they are
all empty, and the run of tags after its closing tag. -/
theorem readClosed_inv {content : Reader} {opener : Tag} {start : Nat} {run : ClosingRun}
    {o : Outcome} (h : readClosed content r opener i start run = .ok o) :
    let line := r.lineReaching run.closer.span.start run.line
    let last := r.lineReaching run.stop line
    let past := if run.before.isEmpty then run.line else line + 1
    ∃ children : List Event,
      (children = [] ∨ ∃ m c, leastIndent? r start past = some m ∧
        content (inside r line past m run) start past = .ok c ∧ children = c.events) ∧
      o.events = Event.around
          (.flowElement opener.name ⟨opener.span.start, run.closer.span.stop⟩) (some ⟨i, last + 1⟩)
          children ++ runEvents ⟨line, last + 1⟩ run.after ∧
      o.next = last + 1 := by
  intro line last past
  rw [readClosed] at h
  cases hm : leastIndent? r start past with
  | none =>
    simp only [past, line] at hm
    rw [hm] at h
    cases h
    exact ⟨[], .inl rfl, rfl, rfl⟩
  | some m =>
    simp only [past, line] at hm
    rw [hm] at h
    cases hc : content (inside r line past m run) start past with
    | error e =>
      simp only [past, line] at hc
      simp only [hc] at h
      cases h
    | ok c =>
      simp only [past, line] at hc
      simp only [hc] at h
      cases h
      exact ⟨c.events, .inr ⟨m, c, rfl, hc, rfl⟩, rfl, rfl⟩

/-- **An element stands where its tags do**, and its content between them. -/
theorem readClosed_reads {content : Reader} (hcontent : content.Correct src)
    (hr : r.Ready src past) {opener : Tag} {start : Nat} {run : ClosingRun}
    (hopener : Tag.scan? src opener.span.start src.size = some opener)
    (hform : opener.form = .opening)
    (hc : Closed src r past opener.name run (r.lineReaching run.closer.span.start run.line))
    (hi : i < start) (hfirst : (r.line i).first ≤ opener.span.start) (hstart : start ≤ run.line)
    (hlo : ∀ k, start ≤ k → k < r.height → opener.span.stop ≤ (r.line k).first) {o : Outcome}
    (h : readClosed content r opener i start run = .ok o) : Reads src r i o.events o.next := by
  obtain ⟨children, hchildren, hevents, hnext⟩ := readClosed_inv h
  generalize r.lineReaching run.closer.span.start run.line = line at *
  have hsize := hr.sound.height
  have hheight := hr.past_le
  have hlt := hc.run_lt
  have hlt' := hc.lt_past
  have hle := hc.run_le
  obtain ⟨hge, hlast, hreach, -⟩ := r.lineReaching_spec (i := line) (j := past - 1) (by omega)
    (by omega) hc.stop_le
  -- the content stands between the two tags
  have hinside : (∀ e ∈ children, IsPlain src e) ∧ ∃ ns, Walk children ns ∧
      Laid src false opener.span.stop run.closer.span.start ns := by
    rcases hchildren with rfl | ⟨m, c, hm, hread, rfl⟩
    · exact ⟨nofun, [], .nil, .nil (Nat.le_trans (hlo _ hstart (by omega)) hc.first_lt)⟩
    · obtain ⟨hm, hq⟩ := leastIndent?_spec hr.sound (by split <;> omega) hm
      have hreads := hcontent _ _ _ c (ready_inside hr.sound hr.past_le hc hm hq) hread
      obtain ⟨ns, hwalk, hlaid⟩ := hreads.walk
      have htop : (inside r line (if run.before.isEmpty = true then run.line else line + 1) m
          run).isTop = false := by
        unfold inside
        split <;> rfl
      have := hlaid _ _ (between_inside hr hc hstart hlo)
      rw [htop] at this
      exact ⟨hreads.plain, ns, hwalk, this⟩
  obtain ⟨hplain, cs, hwalk, hlaid⟩ := hinside
  obtain ⟨ns, hwalk', hlaid'⟩ := hc.matched.laid hc.after ⟨line, r.lineReaching run.stop line + 1⟩
  rw [hevents, hnext]
  refine ⟨by omega, fun e he => ?_, _, .around hwalk hwalk', fun lo hi' hb => ?_⟩
  · simp only [Event.around, List.mem_cons, List.mem_append, List.not_mem_nil, or_false] at he
    rcases he with ((rfl | he) | rfl) | he
    · exact ⟨rfl, rfl⟩
    · exact hplain e he
    · trivial
    · exact runEvents_plain _ _ e he
  · have hlo' := (hb.2 i (Nat.le_refl i) (by omega) (by omega)).1
    have hhi := (hb.2 (r.lineReaching run.stop line) (by omega) (Nat.lt_succ_self _) (by omega)).2
    have hpair : IsPair src opener run.closer :=
      ⟨hopener, hform, hc.scan, hc.form, hc.name_eq, hlaid.le⟩
    exact .pair (Nat.le_trans hlo' hfirst) hpair hlaid
      ((hlaid' _).widen (Nat.le_refl _) (Nat.le_trans hreach hhi))

/-- **What the reader of elements reports.** -/
theorem reads {content : Reader} (hcontent : content.Correct src) (hr : r.Ready src past)
    (hi : i < past) {shape : Shape} (hshape : shape? r i past = some shape) {o : Outcome}
    (h : read content r i past shape = .ok o) : Reads src r i o.events o.next := by
  obtain ⟨ts, stop, hrun, hof⟩ := shape?_spec hshape
  have hsrc := hr.sound.src_eq
  subst hsrc
  have hheight := hr.past_le
  obtain ⟨⟨t₀, ts₀, hts, hfirst⟩, hrow, hstop, _⟩ := Tag.run?_spec hrun
  obtain ⟨hge, hlast, hreach, _⟩ := r.lineReaching_spec (i := i) (j := past - 1)
    (by omega) (Nat.lt_of_lt_of_le (by omega) hr.sound.height) hstop
  cases shape with
  | stray t => cases h
  | run ts' lineStop =>
    obtain ⟨rfl, rfl, hm⟩ := ofRun?_run hof
    cases h
    obtain ⟨ns, hwalk, hlaid⟩ := hm.laid hrow ⟨i, r.lineReaching lineStop i + 1⟩
    refine ⟨Nat.le_succ_of_le hge, runEvents_plain _ _, ns, hwalk, fun lo hi' hb => ?_⟩
    have hlo := (hb.2 i (Nat.le_refl i) (Nat.lt_succ_of_le hge) (by omega)).1
    have hhi := (hb.2 _ hge (Nat.lt_succ_self _) (by omega)).2
    exact (hlaid _).widen (Nat.le_trans hlo (Nat.le_add_right _ _)) (Nat.le_trans hreach hhi)
  | open_ t lineStop =>
    obtain ⟨rfl, rfl, hform⟩ := ofRun?_open hof
    simp only [read] at h
    split at h
    · cases h
    · next run hclosing =>
      obtain ⟨rfl, rfl⟩ := List.cons.inj hts
      obtain ⟨_, hscan, hend⟩ := hrow
      have hend : t.span.stop ≤ stop := hend
      refine readClosed_reads hcontent hr hscan hform
        (closed_of_closingRun? hr.sound hr.past_le hclosing) (Nat.lt_succ_of_le hge) ?_
        (closingRun?_spec hclosing).1 (fun k hk hkh => ?_) h
      · rw [hfirst]
        exact Nat.le_add_right _ _
      · have := hr.sound.line_lt (j := r.lineReaching stop i) (k := k) (by omega) hkh
        omega

end Element

end MdxProse.Block
