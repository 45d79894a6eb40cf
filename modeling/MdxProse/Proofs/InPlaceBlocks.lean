import MdxProse.Proofs.InPlace

/-!
# Reading in place reads the same

* `read_level`: **whatever is read closes what it opens**, and nothing else.
* `State.pushRun_matched`: the ends of elements that are set later are those that are known before.
* `State.pushRegion_eq`: **the state is put back after the content of an element.**
* `CodeRule.call_eq`: what a call of a rule does to the state.
* `State.tokenize_agrees`: **reading in place reads the same** as handing regions on, and never
  comes to a place outside the tables.  `State.tokenize_ofSource`: so does reading a whole source.
-/

namespace MdxProse.Block

variable {src : Source} {r : Region} {i past room : Nat}

open Event (rises)

/-! ### Levels -/

theorem Element.rises_runEvents {ts : List Tag} (h : Tag.Matched ts) (lines : LineRange) :
    rises (runEvents lines ts) = 0 := by
  induction h with
  | nil => rfl
  | single hf _ ih =>
    simp only [runEvents, hf, Event.rises_cons, Event.rise, ih]
    rfl
  | pair ho hc _ hm _ ihi ih =>
    rw [hm.runEvents_pair ho hc, hm.runEvents_append]
    simp only [runEvents, hc, Event.rises_cons, Event.rises_append, Event.rise, ihi, ih]
    rfl

theorem Items.rises_tighten (depth : Nat) (es : List Event) :
    rises (tighten depth es) = rises es := by
  induction es generalizing depth with
  | nil => rfl
  | cons e es ih =>
    cases e with
    | enter k l =>
      rw [tighten_enter, Event.rises_cons, Event.rises_cons, ih]
      rfl
    | leave t n => rw [tighten, Event.rises_cons, Event.rises_cons, ih]
    | leaf k l inner => rw [tighten, Event.rises_cons, Event.rises_cons, ih]

/-- What the reader reports closes what it opens, and nothing else. -/
def Reader.Level (content : Reader) : Prop :=
  ∀ r i past c, content r i past = .ok c → rises c.events = 0

variable {content one two : Reader}

theorem Quote.read_level (hone : one.Level) {o : Outcome} (h : read one r i past = .ok o) :
    rises o.events = 0 := by
  obtain ⟨c, hc, ho⟩ := Except.bind_eq_ok.mp h
  cases ho
  rw [Event.rises_around]
  exact hone _ _ _ _ hc

theorem Items.readContent_level (htwo : two.Level) {m : Marker} {c : Content}
    (h : readContent two r m i past = .ok c) : rises c.events = 0 := by
  simp only [readContent] at h
  split at h
  · cases h
    rfl
  · exact htwo _ _ _ _ h

theorem Items.readFrom_level (htwo : two.Level) {m : Marker} {afterEmpty : Bool} {i : Nat}
    {o : Series} (h : readFrom two r m past afterEmpty i = .ok o) : rises o.events = 0 := by
  rw [readFrom, Except.bind_eq_ok] at h
  obtain ⟨c, hc, h⟩ := h
  have hitem : rises (Event.around .listItem (some ⟨i, c.next⟩) c.events) = 0 := by
    rw [Event.rises_around]
    exact readContent_level htwo hc
  dsimp only at h
  split at h
  · split at h
    · cases h
      exact hitem
    · split at h
      · cases h
        exact hitem
      · split at h
        · rw [Except.bind_eq_ok] at h
          obtain ⟨rest, hrest, h⟩ := h
          cases h
          rw [Event.rises_append, hitem, readFrom_level htwo hrest]
          rfl
        · cases h
          exact hitem
  · cases h
    exact hitem
termination_by past - i

theorem Items.read_level (htwo : two.Level) {m : Marker} {o : Outcome}
    (h : read two r m i past = .ok o) : rises o.events = 0 := by
  rw [read, Except.bind_eq_ok] at h
  obtain ⟨items, hitems, h⟩ := h
  cases h
  rw [Event.rises_around]
  split
  · rw [rises_tighten]
    exact readFrom_level htwo hitems
  · exact readFrom_level htwo hitems

theorem Element.read_level (hone : one.Level) {shape : Shape}
    (hshape : shape? r i past = some shape)
    {o : Outcome} (h : read one r i past shape = .ok o) : rises o.events = 0 := by
  obtain ⟨ts, stop, -, hof⟩ := shape?_spec hshape
  cases shape with
  | stray t => cases h
  | run ts' lineStop =>
    obtain ⟨rfl, rfl, hmatched⟩ := ofRun?_run hof
    cases h
    exact rises_runEvents hmatched _
  | open_ t lineStop =>
    simp only [read] at h
    split at h
    · cases h
    · next run hclosing =>
      have hmatched := (closingRun?_spec hclosing).2.2.2.2.2
      obtain ⟨children, hchildren, hevents, -⟩ := readClosed_inv h
      have hlevel : rises children = 0 := by
        rcases hchildren with rfl | ⟨m, c, -, hread, rfl⟩
        · rfl
        · exact hone _ _ _ c hread
      rw [hevents, Event.rises_append, Event.rises_around, hlevel, rises_runEvents hmatched]
      rfl

theorem FrontMatter.read_level {o : Outcome} (h : read? r i past = some o) :
    rises o.events = 0 := by
  simp only [read?] at h
  split at h
  · split at h
    · obtain ⟨_, -, rfl⟩ := Option.map_eq_some_iff.mp h
      rfl
    · cases h
  · cases h

theorem MathBlock.read_level {o : Outcome} (h : read? r i past = some o) : rises o.events = 0 := by
  simp only [read?] at h
  split at h
  · obtain ⟨_, -, rfl⟩ := Option.map_eq_some_iff.mp h
    rfl
  · cases h

theorem Esm.read_level {o : Outcome} (h : read? r i past = some o) : rises o.events = 0 := by
  simp only [read?] at h
  split at h
  · cases h
    rfl
  · cases h

theorem readBlock_level (hone : one.Level) (htwo : two.Level) {o : Outcome}
    (h : readBlock one two r i past = .ok o) : rises o.events = 0 := by
  have hmap {α : Type} {x : Option α} {f : α → Outcome} {o : Outcome}
      (hf : ∀ a, rises (f a).events = 0) (h : x.map f = some o) : rises o.events = 0 := by
    obtain ⟨a, -, rfl⟩ := Option.map_eq_some_iff.mp h
    exact hf a
  rw [readBlock] at h
  split at h
  · next o' ho =>
    cases h
    simp only [Option.orElse_eq_orElse, Option.orElse_eq_or, Option.or_eq_some_iff] at ho
    rcases ho with ho | ⟨_, ho | ⟨_, ho | ⟨_, ho⟩⟩⟩
    · exact FrontMatter.read_level ho
    · exact MathBlock.read_level ho
    · exact Esm.read_level ho
    · exact hmap (fun _ => rfl) ho
  · split at h
    · next shape hshape => exact Element.read_level hone hshape h
    · split at h
      · next o' ho =>
        cases h
        exact hmap (fun _ => rfl) ho
      · split at h
        · exact Quote.read_level hone h
        · split at h
          · next o' ho =>
            cases h
            rw [ThematicBreak.read?] at ho
            split at ho
            · cases ho
              rfl
            · cases ho
          · split at h
            · exact Items.read_level htwo h
            · cases h
              generalize ho : (Definition.ofLine? r i <|> Heading.read? r i <|>
                Underline.read? r i past) = o'
              cases o' with
              | none => rfl
              | some o' =>
                simp only [Option.orElse_eq_orElse, Option.orElse_eq_or,
                  Option.or_eq_some_iff] at ho
                rcases ho with ho | ⟨_, ho | ⟨_, ho⟩⟩
                · exact hmap (fun _ => rfl) ho
                · exact hmap (fun _ => rfl) ho
                · exact hmap (fun _ => rfl) ho

theorem readBlocks_level (hone : one.Level) (htwo : two.Level) {blank tight : Bool} {i : Nat}
    {c : Content} (h : readBlocks (readBlock one two) r past blank tight i = .ok c) :
    rises c.events = 0 := by
  rw [readBlocks] at h
  split at h
  · dsimp only at h
    split at h
    · cases h
      rfl
    · rw [Except.bind_eq_ok] at h
      obtain ⟨o, ho, h⟩ := h
      have hblock := readBlock_level hone htwo ho
      split at h
      · rw [Except.bind_eq_ok] at h
        obtain ⟨c', hc', h⟩ := h
        cases h
        rw [Event.rises_append, hblock, readBlocks_level hone htwo hc']
        rfl
      · cases h
        exact hblock
  · cases h
    rfl
termination_by past - i

/-- **Whatever is read closes what it opens**, and nothing else. -/
theorem read_level : ∀ room, (read room).Level
  | 0 => by
    intro r i past c h
    cases h
    rfl
  | 1 => fun _ _ _ _ h => readBlocks_level (read_level 0) (read_level 0) h
  | n + 2 => fun _ _ _ _ h => readBlocks_level (read_level (n + 1)) (read_level n) h

/-! ### The state -/

namespace State

variable {st : State}

@[simp]
theorem pushAll_nil (st : State) : st.pushAll [] = st := by
  simp [pushAll]

theorem push_eq (st : State) (e : Event) : st.push e = st.pushAll [e] := by
  simp [push, pushAll]

theorem pushAll_pushAll (st : State) (es es' : List Event) :
    (st.pushAll es).pushAll es' = st.pushAll (es ++ es') := by
  simp [pushAll, Int.add_assoc]

theorem take_take (st : State) (o o' : Outcome) : (st.take o).take o' =
    st.take ⟨o.events ++ o'.events, o.definitions ++ o'.definitions, o'.next⟩ := by
  simp [take, pushAll, Int.add_assoc]

theorem push_take_push (st : State) (k : Kind) (l : Option LineRange) (o : Outcome) :
    ((st.push (.enter k l)).take o).push (.leaving k) =
      st.take { o with events := Event.around k l o.events } := by
  have hlevel : st.level + 1 + rises o.events + -1 = st.level + rises o.events := by omega
  have hrises := Event.rises_around k l o.events
  simp only [push, take, pushAll, hrises, Event.leaving, Event.rise, hlevel]
  simp [Event.around, Event.leaving]

theorem pushAll_take (st : State) (o : Outcome) (es : List Event) :
    (st.take o).pushAll es = st.take { o with events := o.events ++ es } := by
  simp [take, pushAll, Int.add_assoc]

theorem goTo_push_leaf (st : State) (k : Kind) (i past : Nat) :
    (st.push (.leaf k (some ⟨i, past⟩) [])).goTo past = st.take (.leaf k i past) := by
  simp [goTo, push, take, pushAll, Outcome.leaf]

theorem goTo_pushAll (st : State) (es : List Event) (n : Nat) :
    (st.pushAll es).goTo n = st.take ⟨es, [], n⟩ := by
  simp [goTo, take, pushAll]

theorem region_take {o : Outcome} (h : rises o.events = 0) : (st.take o).region = st.region := by
  simp [take, pushAll, region, h]

/-! ### Lines and runs of tags -/

/-- **The line that an offset is on** is found before `past`, if one is there. -/
theorem lineAt_eq {offset j : Nat} (hij : i ≤ j) (hj : j < past) (hp : past ≤ st.lines.size)
    (hs : offset ≤ (st.region.line j).stop) :
    st.lineAt past offset i = .ok (st.region.lineReaching offset i) := by
  fun_induction lineAt st past offset i with
  | case1 i hi hlt ih =>
    have hne : i ≠ j := by
      rintro rfl
      omega
    have hsize : i < st.region.lines.size := Nat.lt_of_lt_of_le hi hp
    rw [ih (by omega)]
    conv => rhs; rw [Region.lineReaching, if_pos hsize, if_pos hlt]
  | case2 i hi hlt =>
    have hsize : i < st.region.lines.size := Nat.lt_of_lt_of_le hi hp
    rw [Region.lineReaching, if_pos hsize, if_neg hlt]
  | case3 i hi => omega

theorem lineAt_limit {offset : Nat} (hi : i < past) (hp : past ≤ st.lines.size)
    (hs : offset ≤ (st.region.line (past - 1)).stop) :
    st.lineAt past offset i = .ok (st.region.lineReaching offset i) :=
  lineAt_eq (Nat.le_sub_one_of_lt hi) (Nat.sub_one_lt_of_lt hi) hp hs

theorem modify_append (es : List Event) (e : Event) (es' : List Event) (f : Event → Event) :
    (es ++ e :: es').modify es.length f = es ++ f e :: es' := by
  induction es with
  | nil => rfl
  | cons x es ih => simp [ih]

/-- **The ends of elements that are set later are those that are known before.** No other event is
changed. -/
theorem pushRun_append {ts : List Tag} (h : Tag.Matched ts) (lines : LineRange)
    (openers : List Nat) (rest : List Tag) (st : State) :
    pushRun lines openers (ts ++ rest) st =
      pushRun lines openers rest (st.pushAll (Element.runEvents lines ts)) := by
  induction h generalizing openers rest st with
  | nil => simp [Element.runEvents]
  | @single t ts hf _ ih =>
    rw [List.cons_append, pushRun.eq_def]
    simp only [hf]
    rw [ih, push_eq, push_eq, pushAll_pushAll, pushAll_pushAll]
    simp only [Element.runEvents, hf]
    rfl
  | @pair o c inside ts ho hc _ hm _ ihi ih =>
    rw [List.cons_append, List.append_assoc, pushRun.eq_def]
    simp only [ho]
    rw [ihi, List.cons_append, pushRun.eq_def]
    simp only [hc]
    rw [ih, hm.runEvents_pair ho hc, hm.runEvents_append]
    -- the event of the opening tag stands where it was added
    have hend : (((st.push (.enter (.flowElement o.name o.span) (some lines))).pushAll
        (Element.runEvents lines inside)).setEnd st.events.length c.span.stop) =
        (st.push (.enter (.flowElement o.name ⟨o.span.start, c.span.stop⟩) (some lines))).pushAll
          (Element.runEvents lines inside) := by
      simp only [push, pushAll, setEnd, List.append_assoc, List.singleton_append, modify_append]
      rfl
    rw [hend, push_eq, push_eq, pushAll_pushAll, pushAll_pushAll, pushAll_pushAll]
    simp [Element.runEvents, hc]

theorem pushRun_matched {ts : List Tag} (h : Tag.Matched ts) (lines : LineRange) (st : State) :
    pushRun lines [] ts st = .ok (st.pushAll (Element.runEvents lines ts)) := by
  have := pushRun_append h lines [] [] st
  rwa [List.append_nil] at this

/-- **The search for a closing tag stays in the table**, and finds what is found in the region. -/
theorem closingRun_eq {name : Option String} {inner : Nat} {fence : Option (Char × Nat)}
    (hp : past ≤ st.lines.size) : st.closingRun name past inner fence i =
      .ok (Element.closingRun? st.region name past inner fence i) := by
  have hsrc : st.region.src = st.src := rfl
  fun_induction Element.closingRun? st.region name past inner fence i with
  | case1 inner fence i hi he ih => rw [closingRun, if_pos hi, if_pos he, ih]
  | case2 inner i hi he text c n ih =>
    rw [closingRun, if_pos hi, if_neg he]
    exact ih
  | case3 inner i hi he text mark hmark ih =>
    simp only [text] at hmark
    rw [closingRun, if_pos hi, if_neg he]
    simp only [hmark, ih]
  | case4 inner i hi he text hmark hrun ih =>
    simp only [text] at hmark
    rw [closingRun, if_pos hi, if_neg he]
    simp only [hmark, ← hsrc, hrun, ih]
  | case5 inner i hi he text hmark tags stop hrun before closer after hfind hcond =>
    simp only [text] at hmark
    rw [closingRun, if_pos hi, if_neg he]
    simp only [hmark, ← hsrc, hrun, hfind, if_pos hcond]
  | case6 inner i hi he text hmark tags stop hrun before closer after hfind hcond =>
    simp only [text] at hmark
    rw [closingRun, if_pos hi, if_neg he]
    simp only [hmark, ← hsrc, hrun, hfind, if_neg hcond]
  | case7 inner i hi he text hmark tags stop hrun n hfind ih =>
    simp only [text] at hmark
    have hstop : stop ≤ (st.region.line (past - 1)).stop := (Tag.run?_spec hrun).2.2.1
    have hline := lineAt_limit hi hp hstop
    rw [closingRun, if_pos hi, if_neg he]
    simp only [hmark, ← hsrc, hrun, hfind, hline]
    exact ih
  | case8 inner fence i hi => rw [closingRun, if_neg hi]

/-! ### The content of an element -/

theorem region_inside (h : 0 < st.level) (line past : Nat) (indent : Int)
    (run : Element.ClosingRun) :
    (st.inside line past indent run).region = Element.inside st.region line past indent run := by
  have htop : (st.level == 0) = false := by
    rw [beq_eq_false_iff_ne]
    omega
  unfold inside Element.inside
  split
  · simp [region, htop]
  · simp [region, htop, setStop, Region.setLine, Region.line]

theorem height_inside (st : State) (line past : Nat) (indent : Int) (run : Element.ClosingRun) :
    (st.inside line past indent run).height = past := by
  unfold inside
  split <;> rfl

theorem level_inside (st : State) (line past : Nat) (indent : Int) (run : Element.ClosingRun) :
    (st.inside line past indent run).level = st.level := by
  unfold inside
  split <;> rfl

theorem setStop_self {k : Nat} (hk : k < st.lines.size) :
    st.setStop k (st.region.line k).stop = st := by
  have hself : st.region.line k = st.lines[k] := by
    rw [Region.line, region, Array.getElem?_eq_getElem hk, Option.getD_some]
  have hset : st.lines.setIfInBounds k st.lines[k] = st.lines := by
    rw [Array.setIfInBounds_def, dif_pos hk, Array.set_getElem_self]
  rw [setStop, hself]
  show ({ st with lines := st.lines.setIfInBounds k st.lines[k] } : State) = st
  rw [hset]

theorem setStop_setStop {k : Nat} (hk : k < st.lines.size) (stop stop' : Nat) :
    (st.setStop k stop).setStop k stop' = st.setStop k stop' := by
  have hline : (st.setStop k stop).region.line k = { st.region.line k with stop } := by
    show (st.region.setLine k _).line k = _
    rw [Region.line_setLine, if_pos ⟨rfl, hk⟩]
  rw [setStop, hline, setStop, setStop]
  simp only [Array.setIfInBounds_setIfInBounds]

/-- **The state is put back** after the content of an element has been read. -/
theorem putBack_take_inside {line : Nat} (hline : line < st.lines.size) (indent : Int)
    (run : Element.ClosingRun) (o : Outcome) :
    ((st.inside line past indent run).take o).putBack st line = st.take o := by
  have hself := setStop_self hline
  unfold inside
  split
  · show (st.setStop line (st.region.line line).stop).take o = _
    rw [hself]
  · show ((st.setStop line run.closer.span.start).setStop line
      (st.region.line line).stop).take o = _
    rw [setStop_setStop hline, hself]

end State

/-- **The reader in place agrees with the other one** wherever the region is sound. -/
def InPlace.Agrees (src : Source) (tokenize : InPlace) (content : Reader) : Prop :=
  ∀ st i past, st.region.Sound src → past ≤ st.height → 0 ≤ st.level →
    tokenize st i past = st.after ((content st.region i past).map Content.toOutcome)

variable {tokenize : InPlace} {st : State}

theorem State.content_eq (hcontent : tokenize.Agrees src content) (hlevel : 0 < st.level)
    {line start stop : Nat} {indent : Int} {run : Element.ClosingRun}
    (hsound : (Element.inside st.region line stop indent run).Sound src) :
    tokenize (st.inside line stop indent run) start stop =
      (st.inside line stop indent run).after
        ((content (Element.inside st.region line stop indent run) start stop).map
          Content.toOutcome) := by
  have hregion := State.region_inside hlevel line stop indent run
  have hinside : 0 ≤ (st.inside line stop indent run).level := by
    rw [State.level_inside]
    exact Int.le_of_lt hlevel
  have hread := hcontent _ start stop (hregion ▸ hsound)
    (Nat.le_of_eq (State.height_inside ..).symm) hinside
  rwa [hregion] at hread

theorem State.pushRegion_eq (hcontent : tokenize.Agrees src content) (hr : st.region.Sound src)
    (hheight : past ≤ st.height) (hlevel : 0 ≤ st.level) {opener : Tag} {start : Nat}
    {run : Element.ClosingRun}
    (hclosing : Element.closingRun? st.region opener.name past 0 none start = some run) :
    st.pushRegion tokenize opener i start past run =
      st.after (Element.readClosed content st.region opener i start run) := by
  have hclosed := Element.closed_of_closingRun? hr hheight hclosing
  have hready {m : Int} (hm : -1 ≤ m) (hq : m < 0 → HasQuote src) :=
    Element.ready_inside hr hheight hclosed hm hq
  have hlt := hclosed.lt_past
  have hsize : past ≤ st.lines.size := Nat.le_trans hheight hr.height
  have hline := State.lineAt_eq hclosed.run_le hlt hsize hclosed.le_stop
  simp only [State.pushRegion, Element.readClosed, hline, bind, Except.bind]
  generalize st.region.lineReaching run.closer.span.start run.line = line at *
  have hlast := State.lineAt_limit hlt hsize hclosed.stop_le
  simp only [hlast, State.pushRun_matched hclosed.matched]
  generalize st.region.lineReaching run.stop line = last at *
  generalize hkind : Kind.flowElement opener.name ⟨opener.span.start, run.closer.span.stop⟩ = kind
  generalize hstop : (if run.before.isEmpty = true then run.line else line + 1) = stop at *
  have hstop_le : stop ≤ past := by
    have := hclosed.run_lt
    split at hstop <;> omega
  have hleast (e : Event) : Element.leastIndent? (st.push e).region start stop =
      Element.leastIndent? st.region start stop := Element.leastIndent?_congr fun _ => rfl
  rw [hleast]
  -- what comes after the content
  have hrest (o : Outcome) : ((((st.push (.enter kind (some ⟨i, last + 1⟩))).take o).push
      (.leave .flowElement opener.name)).pushAll (Element.runEvents ⟨line, last + 1⟩ run.after)) =
      st.take { o with events := Event.around kind (some ⟨i, last + 1⟩) o.events ++
        Element.runEvents ⟨line, last + 1⟩ run.after } := by
    have hleave : Event.leave .flowElement opener.name = .leaving kind := by
      rw [← hkind]
      rfl
    rw [hleave, State.push_take_push, State.pushAll_take]
  cases hindent : Element.leastIndent? st.region start stop with
  | none =>
    show Except.ok _ = Except.ok (st.take _)
    have hempty := hrest ⟨[], [], last + 1⟩
    rw [← hempty]
    simp [State.take, State.push, State.pushAll, State.goTo]
  | some indent =>
    obtain ⟨hm, hq⟩ := Element.leastIndent?_spec hr (Nat.le_trans hstop_le hheight) hindent
    have hpushed : 0 < (st.push (.enter kind (some ⟨i, last + 1⟩))).level :=
      Int.lt_add_one_iff.mpr hlevel
    have hsound : (Element.inside (st.push (.enter kind (some ⟨i, last + 1⟩))).region line stop
      indent run).Sound src := (hready hm hq).sound
    dsimp only
    rw [State.content_eq hcontent hpushed hsound, show Element.inside (st.push _).region line stop
      indent run = Element.inside st.region line stop indent run from rfl]
    cases content (Element.inside st.region line stop indent run) start stop with
    | error e => rfl
    | ok c =>
      have hsize_pushed : line < (st.push (.enter kind (some ⟨i, last + 1⟩))).lines.size :=
        Nat.lt_of_lt_of_le hlt hsize
      show Except.ok (State.goTo _ _) = Except.ok (st.take _)
      rw [State.putBack_take_inside hsize_pushed, hrest]
      rfl

theorem CodeRule.call_element (hcontent : tokenize.Agrees src content) (hr : st.region.Sound src)
    (hi : i < past) (hheight : past ≤ st.height) (hlevel : 0 ≤ st.level) {shape : Element.Shape}
    (hshape : Element.shape? st.region i past = some shape) :
    call tokenize .element st i past false =
      (st.after (Element.read content st.region i past shape)).map (true, ·) := by
  have hsize : past ≤ st.lines.size := Nat.le_trans hheight hr.height
  have hensure : st.ensure i past = .ok () := if_pos ⟨hi, hsize⟩
  obtain ⟨ts, stop, hrun, hof⟩ := Element.shape?_spec hshape
  have hlast := State.lineAt_limit hi hsize (Tag.run?_spec hrun).2.2.1
  rw [call.eq_def, hensure]
  simp only [bind, Except.bind, hshape]
  cases shape with
  | stray t => rfl
  | open_ t stop =>
    obtain ⟨-, rfl, -⟩ := Element.ofRun?_open hof
    simp only [hlast, State.closingRun_eq hsize, Element.read]
    cases hclosing : Element.closingRun? st.region t.name past 0 none
        (st.region.lineReaching stop i + 1) with
    | none => rfl
    | some run =>
      have hregion := State.pushRegion_eq (i := i) hcontent hr hheight hlevel hclosing
      dsimp only
      rw [hregion]
      cases Element.readClosed content st.region t i _ run <;> rfl
  | run ts stop =>
    obtain ⟨rfl, rfl, hmatched⟩ := Element.ofRun?_run hof
    simp only [hlast, State.pushRun_matched hmatched]
    show Except.ok (true, State.goTo (st.pushAll _) _) = Except.ok (true, st.take _)
    rw [State.goTo_pushAll]

/-- **What a call of a rule does to the state**: nothing where the block of the rule does not start,
or if it is silent; else the state goes on after the block. -/
theorem CodeRule.call_eq (hcontent : tokenize.Agrees src content) (hr : st.region.Sound src)
    (hi : i < past) (hheight : past ≤ st.height) (hlevel : 0 ≤ st.level) (rule : CodeRule)
    (silent : Bool) : rule.call tokenize st i past silent =
      match rule.read? content st.region i past with
      | none => .ok (false, st)
      | some x => if silent then .ok (true, st) else (st.after x).map (true, ·) := by
  have hsize : past ≤ st.lines.size := Nat.le_trans hheight hr.height
  have hensure : st.ensure i past = .ok () := if_pos ⟨hi, hsize⟩
  cases rule with
  | statement =>
    rw [call.eq_def, hensure]
    simp only [read?, Esm.read?]
    cases hstarts : Esm.starts st.region i with
    | false => rfl
    | true =>
      cases silent with
      | true => rfl
      | false =>
        show Except.ok (true, State.goTo (st.push _) _) = Except.ok (true, st.take _)
        rw [State.goTo_push_leaf]
        rfl
  | expression =>
    rw [call.eq_def, hensure]
    simp only [read?, FlowExpression.read?]
    cases hstop : FlowExpression.stop? st.region i past with
    | none => rfl
    | some stop =>
      cases silent with
      | true => rfl
      | false =>
        obtain ⟨-, -, hscan⟩ := FlowExpression.stop?_spec hstop
        have hlast := State.lineAt_limit hi hsize (Expression.stop_le_limit hscan)
        simp only [bind, Except.bind, hlast]
        show Except.ok (true, State.goTo (st.push _) _) = Except.ok (true, st.take _)
        rw [State.goTo_push_leaf]
        rfl
  | element =>
    simp only [read?]
    cases hshape : Element.shape? st.region i past with
    | none =>
      rw [call.eq_def, hensure]
      simp only [hshape]
      rfl
    | some shape =>
      cases silent with
      | true =>
        rw [call.eq_def, hensure]
        simp only [hshape]
        rfl
      | false => exact call_element hcontent hr hi hheight hlevel hshape

theorem CodeRule.read_level (hcontent : content.Level) {rule : CodeRule} {o : Outcome}
    (h : rule.read? content r i past = some (.ok o)) : rises o.events = 0 := by
  cases rule with
  | statement =>
    obtain ⟨o', ho, he⟩ := Option.map_eq_some_iff.mp h
    cases he
    exact Esm.read_level ho
  | expression =>
    obtain ⟨o', ho, he⟩ := Option.map_eq_some_iff.mp h
    cases he
    obtain ⟨stop, -, rfl⟩ := Option.map_eq_some_iff.mp ho
    rfl
  | element =>
    obtain ⟨shape, hshape, hread⟩ := Option.map_eq_some_iff.mp h
    exact Element.read_level hcontent hshape hread

/-- The rules one after the other: the first whose block starts on the line reads it. -/
theorem CodeRule.firstOf_eq (hcontent : tokenize.Agrees src content) (hr : st.region.Sound src)
    (hi : i < past) (hheight : past ≤ st.height) (hlevel : 0 ≤ st.level) (rules : List CodeRule) :
    firstOf tokenize rules st i past =
      match rules.findSome? (·.read? content st.region i past) with
      | none => .ok (false, st)
      | some x => (st.after x).map (true, ·) := by
  induction rules with
  | nil => rfl
  | cons rule rules ih =>
    rw [firstOf, call_eq hcontent hr hi hheight hlevel, List.findSome?_cons]
    cases rule.read? content st.region i past with
    | none => exact ih
    | some x => cases x <;> rfl

/-- Where the block of a rule starts, that is the block that is read, unless front matter or
mathematics comes first. -/
theorem readBlock_of_codeRule {x : Except SyntaxError Outcome}
    (hfirst : (FrontMatter.read? r i past <|> MathBlock.read? r i past) = none)
    (h : [CodeRule.statement, .expression, .element].findSome? (·.read? one r i past) = some x) :
    readBlock one two r i past = x := by
  simp only [Option.orElse_eq_orElse, Option.orElse_eq_or, Option.or_eq_none_iff] at hfirst
  rw [readBlock, hfirst.1, hfirst.2]
  simp only [List.findSome?_cons, CodeRule.read?, List.findSome?_nil] at h
  cases hesm : Esm.read? r i past with
  | some o =>
    rw [hesm] at h
    cases h
    rfl
  | none =>
    rw [hesm] at h
    cases hflow : FlowExpression.read? r i past with
    | some o =>
      rw [hflow] at h
      cases h
      rfl
    | none =>
      rw [hflow] at h
      cases hshape : Element.shape? r i past with
      | some shape =>
        rw [hshape] at h
        cases h
        rfl
      | none =>
        rw [hshape] at h
        cases h

/-! ### Rows of blocks -/

theorem State.block_eq (hcontent : tokenize.Agrees src one) (hr : st.region.Sound src)
    (hi : i < past) (hheight : past ≤ st.height) (hlevel : 0 ≤ st.level) :
    State.block tokenize one two st i past = st.after (readBlock one two st.region i past) := by
  rw [State.block, CodeRule.firstOf_eq hcontent hr hi hheight hlevel]
  cases hfirst : FrontMatter.read? st.region i past <|> MathBlock.read? st.region i past with
  | some o =>
    have hread : readBlock one two st.region i past = .ok o := by
      simp only [Option.orElse_eq_orElse, Option.orElse_eq_or, Option.or_eq_some_iff] at hfirst
      rw [readBlock]
      rcases hfirst with hfront | ⟨hfront, hmath⟩
      · rw [hfront]
        rfl
      · rw [hfront, hmath]
        rfl
    rw [hread]
    rfl
  | none =>
    cases hrules : [CodeRule.statement, .expression, .element].findSome?
        (·.read? one st.region i past) with
    | none => rfl
    | some x =>
      rw [readBlock_of_codeRule hfirst hrules]
      cases x <;> rfl

theorem State.blocks_eq (hcontent : tokenize.Agrees src one) (hone : one.Level) (htwo : two.Level)
    {st : State} (hheight : past ≤ st.height) (hlevel : 0 ≤ st.level) (hr : st.region.Sound src)
    (blank tight : Bool) (i : Nat) :
    st.blocks (State.block tokenize one two) past i = st.after
      ((readBlocks (readBlock one two) st.region past blank tight i).map Content.toOutcome) := by
  have hindent : st.region.indent = st.indent := rfl
  rw [State.blocks, readBlocks, hindent]
  by_cases hi : i < past
  · rw [if_pos hi, if_pos hi]
    dsimp only
    by_cases hend : (decide (past ≤ st.region.skipEmpty i) ||
        decide ((st.region.line (st.region.skipEmpty i)).indent < st.indent)) = true
    · rw [if_pos hend, if_pos hend]
      show Except.ok (st.goTo _) = Except.ok (st.take ⟨[], [], _⟩)
      rw [← State.goTo_pushAll, State.pushAll_nil]
    · rw [if_neg hend, if_neg hend]
      have hlt : st.region.skipEmpty i < past := by
        rw [Bool.or_eq_true, decide_eq_true_iff, not_or] at hend
        omega
      rw [State.block_eq hcontent hr hlt hheight hlevel]
      cases hread : readBlock one two st.region (st.region.skipEmpty i) past with
      | error e => rfl
      | ok o =>
        have hrises := readBlock_level hone htwo hread
        have hregion : (st.take o).region = st.region := State.region_take hrises
        simp only [State.after, bind, Except.bind]
        rw [hregion]
        show (if _ : i < passEmpty st.region past o.next then _ else _) = _
        by_cases hnext : i < passEmpty st.region past o.next
        · rw [dif_pos hnext, dif_pos hnext]
          have hlevel' : 0 ≤ (st.take o).level := by
            show 0 ≤ st.level + rises o.events
            omega
          have hheight' : past ≤ (st.take o).height := hheight
          have hrest := State.blocks_eq hcontent hone htwo hheight' hlevel' (hregion ▸ hr)
            (blank || (decide (o.next - 1 < past) && st.region.isEmpty (o.next - 1)) ||
              decide (o.next < passEmpty st.region past o.next)) (!blank)
            (passEmpty st.region past o.next)
          rw [hregion] at hrest
          refine hrest.trans ?_
          cases readBlocks (readBlock one two) st.region past _ (!blank)
              (passEmpty st.region past o.next) with
          | error e => rfl
          | ok c =>
            show Except.ok ((st.take o).take c.toOutcome) = Except.ok (st.take _)
            rw [State.take_take]
        · rw [dif_neg hnext, dif_neg hnext]
          rfl
  · rw [if_neg hi, if_neg hi]
    show Except.ok (st.goTo i) = Except.ok (st.take ⟨[], [], i⟩)
    rw [← State.goTo_pushAll, State.pushAll_nil]
termination_by past - i

/-- **Reading in place reads the same** as handing regions on, and never comes to a place outside
the tables. -/
theorem State.tokenize_agrees (src : Source) : ∀ room, InPlace.Agrees src (State.tokenize room)
    (read room)
  | 0 => by
    intro st i past _ _ _
    show Except.ok (st.goTo _) = Except.ok (st.take ⟨[], [], _⟩)
    rw [← State.goTo_pushAll, State.pushAll_nil]
    rfl
  | 1 => fun st i past hr hheight hlevel =>
    State.blocks_eq (tokenize_agrees src 0) (read_level 0) (read_level 0) hheight hlevel hr _ _ i
  | n + 2 => fun st i past hr hheight hlevel =>
    State.blocks_eq (tokenize_agrees src (n + 1)) (read_level (n + 1)) (read_level n) hheight hlevel
      hr _ _ i

/-- **A whole source is read in place as it is in its region.** -/
theorem State.tokenize_ofSource (src : Source) :
    State.tokenize maxDepth (.ofSource src) 0 (Line.table src).size =
      (State.ofSource src).after (readSource src) := by
  have hsound : (State.ofSource src).region.Sound src := Region.sound_ofSource src
  have hagrees := State.tokenize_agrees src maxDepth (.ofSource src) 0 (Line.table src).size hsound
    (Nat.le_refl _) (Int.le_refl 0)
  have hread : readSource src =
      (read maxDepth (Region.ofSource src) 0 (Line.table src).size).map Content.toOutcome := by
    show (read maxDepth (Region.ofSource src) 0 (Line.table src).size >>= fun c => _) = _
    cases read maxDepth (Region.ofSource src) 0 (Line.table src).size <;> rfl
  rw [hread]
  exact hagrees

end MdxProse.Block
