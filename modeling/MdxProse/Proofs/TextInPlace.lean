import MdxProse.Proofs.TextBounds

/-!
# Reading running text in place

The reader of running text answers with events. It can also be seen as changing a state: the
position, the limit up to which the text is read, and what has been read so far. The content of
elements and links is then read with the same state, the limit set to where the content ends.

* `State`: the state, with a record of what has been read as what (`Passage`).
* `TextRule.call`: a rule for embedded code.  A *silent* call only tells whether something of its
  kind starts at the position, and where that ends.
* `State.tokenize`: the reader in place.
* `State.tokenize_erases`: **reading in place reads the same.**
-/

namespace MdxProse.Inline

/-- Is the construct embedded code without a fault? -/
def Construct.isCode : Construct → Bool
  | .expression | .element _ | .pair .. => true
  | _ => false

/-- A piece of text and what it has been read as. -/
structure Passage where
  construct : Construct
  span : Span

/-- What the rules for running text share. -/
structure State where
  pos : Nat
  limit : Nat
  progress : Progress
  /-- What has been read as what, at this level and further in. -/
  passages : List Passage

/-- A reader that changes the state. -/
abbrev InPlace := State → Except SyntaxError State

namespace State

/-- Goes on from another position. -/
def goTo (st : State) (pos : Nat) : State :=
  { st with pos }

/-- Records what the text from the position up to `stop` is read as. -/
def note (st : State) (c : Construct) (stop : Nat) : State :=
  { st with passages := st.passages ++ [⟨c, ⟨st.pos, stop⟩⟩] }

/-- Goes on after the text up to `stop`, which has been read as `c`. -/
def pass (st : State) (c : Construct) (stop : Nat) (progress : Progress) : State :=
  { st.note c stop with pos := stop, progress }

/-- The state in which the content of a construct is read, the text from `start` up to `limit`. -/
def inside (st : State) (c : Construct) (stop start limit : Nat) : State :=
  { st.note c stop with pos := start, limit, progress := .start st.progress.memo }

/-- Goes on after the text up to `stop`, which is read as a node of kind `k`. The content of the
node is read with the limit set to where it ends, and the limit is set back after it. -/
def nest (st : State) (nested : InPlace) (c : Construct) (stop : Nat) (k : Kind)
    (start limit : Nat) : Except SyntaxError State := do
  let st' ← nested (st.inside c stop start limit)
  let (es, memo) := st'.progress.finish
  pure { st' with
    pos := stop
    limit := st.limit
    progress := { st.progress.add (Event.around k none es) with memo } }

end State

/-! ### The rules for embedded code -/

/-- The rules for embedded code in running text. -/
inductive TextRule
  | element
  | expression
  deriving DecidableEq, Repr

/-- Calls the rule at the position, and tells whether it has read something. -/
def TextRule.call (src : Source) (nested : InPlace) (rule : TextRule) (st : State) (silent : Bool) :
    Except SyntaxError (Bool × State) :=
  match rule with
  | .element =>
    if src.has '<' st.pos then
      match Tag.scan? src st.pos st.limit with
      | none => .ok (false, st)
      | some t =>
        match t.form with
        | .closing =>
          if silent then .ok (false, st)
          else .error ⟨.strayClosingTag (src.cover t.span), none⟩
        | .selfClosing =>
          if silent then .ok (true, st.goTo t.span.stop)
          else
            let es := Event.around (.textElement t.name t.span) none []
            .ok (true, st.pass (.element t) t.span.stop (st.progress.add es))
        | .opening =>
          match Tag.partner? src t st.limit with
          | none =>
            if silent then .ok (false, st) else .error ⟨.unclosedTag (src.cover t.span), none⟩
          | some closer =>
            if silent then .ok (true, st.goTo closer.span.stop)
            else do
              let kind := Kind.textElement t.name ⟨t.span.start, closer.span.stop⟩
              let st ← st.nest nested (.pair t closer) closer.span.stop kind t.span.stop
                closer.span.start
              pure (true, st)
    else .ok (false, st)
  | .expression =>
    if src.has '{' st.pos then
      match Expression.stop? src st.pos st.limit with
      | none => if silent then .ok (false, st) else .error ⟨.unclosedExpression, none⟩
      | some stop =>
        if silent then .ok (true, st.goTo stop)
        else
          let span : Span := ⟨st.pos, stop⟩
          let es := [Event.atom (.textExpression (src.cover span) span)]
          .ok (true, st.pass .expression stop (st.progress.add es))
    else .ok (false, st)

/-! ### Reading in place -/

/-- The reader that a reader in place amounts to. -/
def InPlace.erase (nested : InPlace) : Reader := fun limit pos memo =>
  (nested ⟨pos, limit, .start memo, []⟩).map (·.progress.finish)

namespace State

section

variable (s : Setting) (search : LabelSearch) (nested : InPlace)
  (label : Source → Except SyntaxError (List Event))

/-- Reads what starts at the position, if that is no embedded code. -/
def other (st : State) : Except SyntaxError State :=
  let (found, memo) := recognize s search st.limit st.pos st.progress.memo
  let p := { st.progress with memo }
  match found with
  | none =>
    .ok (st.pass .plain (st.pos + 1) (p.addText (s.src.window st.pos (st.pos + 1))))
  | some f =>
    let next := max f.stop (st.pos + 1)
    match f.construct with
    | .plain => .ok (st.pass .plain next (p.addText (s.src.window st.pos f.stop)))
    | .lineBreak => .ok (st.pass .lineBreak next p.addBreak)
    | .delimiters => .ok (st.pass .delimiters next (p.addDelimiters s.src st.pos st.limit))
    | .link l href title =>
      { st with progress := p }.nest nested f.construct next (.link href title) l.start l.stop
    | c => do
      let (es, memo) ← constructEvents s.src nested.erase label st.pos f.stop memo c
      pure (st.pass c next { p.add es with memo })

/-- Reads what starts at the position. -/
def step (st : State) : Except SyntaxError State := do
  let (done, st) ← TextRule.element.call s.src nested st false
  if done then return st
  let (done, st) ← TextRule.expression.call s.src nested st false
  if done then return st
  other s search nested label st

/-- Reads on up to the limit. -/
def run (limit : Nat) (st : State) : Except SyntaxError State :=
  if st.pos < limit then do
    let st' ← step s search nested label st
    if _h : st.pos < st'.pos then run limit st' else pure st'
  else pure st
termination_by limit - st.pos

end

/-- Reads up to the limit with `room` levels left. -/
def tokenize (s : Setting) (label : Source → Except SyntaxError (List Event)) : Nat → InPlace
  | 0 => fun st =>
    .ok (st.pass .plain (max st.pos st.limit)
      (st.progress.addText (s.src.window st.pos st.limit)))
  | n + 1 => fun st =>
    run s (labelSearch s st.limit (n + 1)) (tokenize s label n) label st.limit st

end State

/-! ### Reading in place reads the same -/

variable {s : Setting} {search : LabelSearch} {nested : InPlace} {inner : Reader}
  {label : Source → Except SyntaxError (List Event)}

namespace TextRule

/-- The character at which the rule applies. -/
def mark : TextRule → Char
  | element => '<'
  | expression => '{'

/-- What starts at a mark of the rule. -/
def scan (src : Source) (pos limit : Nat) : TextRule → Option Found
  | element => tag? src pos limit
  | expression => some (Inline.expression src pos limit)

/-- What the rule finds at a position. -/
def found? (src : Source) (pos limit : Nat) (rule : TextRule) : Option Found :=
  if src.has rule.mark pos then rule.scan src pos limit else none

theorem recognize_of_mark {rule : TextRule} {pos : Nat} (h : s.src.has rule.mark pos = true)
    (limit : Nat) (memo : Memo) :
    recognize s search limit pos memo = (rule.scan s.src pos limit, memo) := by
  obtain ⟨c, hc, hmark⟩ := Source.test_iff.mp h
  rw [beq_iff_eq] at hmark
  subst hmark
  rw [recognize, hc]
  cases rule <;> rfl

theorem recognize_of_found? {rule : TextRule} {pos limit : Nat} {f : Found}
    (h : rule.found? s.src pos limit = some f) (memo : Memo) :
    recognize s search limit pos memo = (some f, memo) := by
  rw [found?, Option.ite_none_right_eq_some] at h
  rw [recognize_of_mark h.1, h.2]

/-- **The exits of a rule**: what a silent call answers, and what one answers that reads. -/
inductive Exit (src : Source) (nested : InPlace) (rule : TextRule) (st : State) :
    Except SyntaxError (Bool × State) → Except SyntaxError (Bool × State) → Prop
  | absent : rule.found? src st.pos st.limit = none →
      Exit src nested rule st (.ok (false, st)) (.ok (false, st))
  | fault {e : SyntaxFault} {stop : Nat} :
      rule.found? src st.pos st.limit = some ⟨.fault e, stop⟩ →
      Exit src nested rule st (.ok (false, st)) (.error ⟨e, none⟩)
  /-- Code without content: its events are added. -/
  | pass {c : Construct} {stop : Nat} {es : List Event} :
      rule.found? src st.pos st.limit = some ⟨c, stop⟩ → c.isCode = true → c.content? = none →
      st.pos < stop →
      (∀ inner label memo,
        constructEvents src inner label st.pos stop memo c = .ok (es, memo)) →
      Exit src nested rule st (.ok (true, st.goTo stop))
        (.ok (true, st.pass c stop (st.progress.add es)))
  /-- Code with content: the call that reads goes on with that. -/
  | nest {c : Construct} {stop : Nat} {k : Kind} {l : Span} :
      rule.found? src st.pos st.limit = some ⟨c, stop⟩ → c.isCode = true → c.content? = some l →
      st.pos < stop →
      (∀ inner label memo, constructEvents src inner label st.pos stop memo c =
        inner l.stop l.start memo >>= fun (es, memo) => pure (Event.around k none es, memo)) →
      Exit src nested rule st (.ok (true, st.goTo stop))
        (st.nest nested c stop k l.start l.stop >>= fun st' => pure (true, st'))

/-- **Every pair of calls comes to one of the exits.** -/
theorem exit (src : Source) (nested : InPlace) (rule : TextRule) (st : State) :
    Exit src nested rule st (rule.call src nested st true) (rule.call src nested st false) := by
  rw [call.eq_def, call.eq_def]
  cases rule with
  | element =>
    by_cases hlt : src.has '<' st.pos = true
    · have hfound : TextRule.element.found? src st.pos st.limit = tag? src st.pos st.limit :=
        if_pos hlt
      simp only [if_pos hlt]
      rw [tag?] at hfound
      cases hscan : Tag.scan? src st.pos st.limit with
      | none =>
        simp only [hscan, Option.map_none] at hfound ⊢
        exact .absent hfound
      | some t =>
        have hstop := (Tag.stop_of_scan? hscan).1
        simp only [hscan, Option.map_some] at hfound ⊢
        cases hform : t.form with
        | closing =>
          simp only [hform] at hfound ⊢
          exact .fault hfound
        | selfClosing =>
          simp only [hform] at hfound ⊢
          exact .pass hfound rfl rfl hstop fun _ _ _ => rfl
        | opening =>
          cases hpartner : Tag.partner? src t st.limit with
          | none =>
            simp only [hform, hpartner] at hfound ⊢
            exact .fault hfound
          | some closer =>
            obtain ⟨hle, hcloser, -⟩ := Tag.closer?_spec hpartner
            have hcloserStop := (Tag.stop_of_scan? hcloser).1
            simp only [hform, hpartner] at hfound ⊢
            exact .nest hfound rfl rfl (by omega) fun _ _ _ => rfl
    · simp only [if_neg hlt]
      exact .absent (if_neg hlt)
  | expression =>
    by_cases hbrace : src.has '{' st.pos = true
    · have hfound : TextRule.expression.found? src st.pos st.limit =
          some (Inline.expression src st.pos st.limit) := if_pos hbrace
      simp only [if_pos hbrace]
      rw [Inline.expression] at hfound
      cases hstop : Expression.stop? src st.pos st.limit with
      | none =>
        simp only [hstop] at hfound ⊢
        exact .fault hfound
      | some stop =>
        simp only [hstop] at hfound ⊢
        exact .pass hfound rfl rfl (Expression.lt_of_stop? hstop) fun _ _ _ => rfl
    · simp only [if_neg hbrace]
      exact .absent (if_neg hbrace)

theorem call_absent {src : Source} {nested : InPlace} {rule : TextRule} {st : State}
    (h : rule.found? src st.pos st.limit = none) (silent : Bool) :
    rule.call src nested st silent = .ok (false, st) := by
  have hexit := rule.exit src nested st
  generalize hsilent : rule.call src nested st true = x at hexit
  generalize hread : rule.call src nested st false = y at hexit
  cases hexit with
  | absent =>
    cases silent with
    | true => exact hsilent
    | false => exact hread
  | fault hfound | pass hfound | nest hfound =>
    rw [h] at hfound
    cases hfound

end TextRule

/-- The reader in place adds events as the other one does, whatever has been read before. -/
def InPlace.Erases (nested : InPlace) (inner : Reader) : Prop :=
  ∀ st memo, st.progress = .start memo →
    (nested st).map (·.progress.finish) = inner st.limit st.pos memo

namespace State

theorem nest_erases (h : nested.Erases inner) (st : State) (c : Construct) (stop : Nat) (k : Kind)
    (start limit : Nat) (f : Nat → Progress → Except SyntaxError Progress) :
    (st.nest nested c stop k start limit >>= fun st' => f st'.pos st'.progress) =
      inner limit start st.progress.memo >>= fun (es, memo) =>
        f stop { st.progress.add (Event.around k none es) with memo } := by
  have hcontent : (nested (st.inside c stop start limit)).map (·.progress.finish) =
      inner limit start st.progress.memo := h _ _ rfl
  rw [nest, ← hcontent]
  cases nested (st.inside c stop start limit) <;> rfl

theorem readFrom_eq_other (h : nested.Erases inner) (st : State) (hpos : st.pos < st.limit) :
    readFrom s search inner label st.limit st.pos st.progress =
      other s search nested label st >>= fun st' =>
        readFrom s search inner label st.limit st'.pos st'.progress := by
  have herase : nested.erase = inner := by
    funext limit pos memo
    exact h ⟨pos, limit, .start memo, []⟩ memo rfl
  rw [readFrom, if_pos hpos, other]
  obtain ⟨found, memo⟩ := recognize s search st.limit st.pos st.progress.memo
  cases found with
  | none => rfl
  | some f =>
    obtain ⟨c, stop⟩ := f
    cases c with
    | plain | lineBreak | delimiters => rfl
    | link l href title =>
      dsimp only
      refine Eq.trans ?_ (nest_erases h _ _ _ _ _ _ (readFrom s search inner label st.limit)).symm
      rw [constructEvents]
      cases inner l.stop l.start memo <;> rfl
    | _ =>
      dsimp only
      rw [herase]
      cases constructEvents s.src inner label st.pos stop memo _ <;> rfl

theorem add_memo (p : Progress) (es : List Event) :
    ({ p.add es with memo := p.memo }) = p.add es := by
  simp only [Progress.add, Progress.flush]
  split <;> rfl

theorem readFrom_eq_call (h : nested.Erases inner) (st : State) (hpos : st.pos < st.limit)
    {rule : TextRule} {f : Found} (hfound : rule.found? s.src st.pos st.limit = some f)
    (rest : Bool × State → Except SyntaxError State) :
    readFrom s search inner label st.limit st.pos st.progress =
      (rule.call s.src nested st false >>= fun r =>
        if r.1 = true then pure r.2 else rest r) >>= fun st' =>
          readFrom s search inner label st.limit st'.pos st'.progress := by
  have hexit := rule.exit s.src nested st
  rw [readFrom, if_pos hpos, rule.recognize_of_found? hfound]
  generalize rule.call s.src nested st true = silent at hexit
  generalize rule.call s.src nested st false = read at hexit ⊢
  cases hexit with
  | absent hnone =>
    rw [hfound] at hnone
    cases hnone
  | fault hfound' =>
    obtain rfl := Option.some.inj (hfound.symm.trans hfound')
    rfl
  | @pass c stop es hfound' hcode _ hlt hevents =>
    obtain rfl := Option.some.inj (hfound.symm.trans hfound')
    have hmax : max stop (st.pos + 1) = stop := Nat.max_eq_left hlt
    cases c with
    | expression | element | pair =>
      simp only [hevents, bind, Except.bind, hmax, add_memo]
      rfl
    | _ => cases hcode
  | @nest c stop k l hfound' hcode _ hlt hevents =>
    obtain rfl := Option.some.inj (hfound.symm.trans hfound')
    have hmax : max stop (st.pos + 1) = stop := Nat.max_eq_left hlt
    have hread := nest_erases h st c stop k l.start l.stop
      (readFrom s search inner label st.limit)
    cases c with
    | expression | element | pair =>
      simp only [hevents, hmax, bind_assoc, pure_bind, if_true]
      rw [hread]
    | _ => cases hcode

theorem step_eq (st : State) :
    step s search nested label st =
      TextRule.element.call s.src nested st false >>= fun r =>
        if r.1 = true then pure r.2
        else TextRule.expression.call s.src nested r.2 false >>= fun r =>
          if r.1 = true then pure r.2 else other s search nested label r.2 := by
  rfl

/-- **One step reads what the other reader reads.** -/
theorem readFrom_eq_step (h : nested.Erases inner) (st : State) (hpos : st.pos < st.limit) :
    readFrom s search inner label st.limit st.pos st.progress =
      step s search nested label st >>= fun st' =>
        readFrom s search inner label st.limit st'.pos st'.progress := by
  rw [step_eq]
  cases helement : TextRule.element.found? s.src st.pos st.limit with
  | some f => exact readFrom_eq_call h st hpos helement _
  | none =>
    rw [TextRule.call_absent helement]
    change _ = (TextRule.expression.call s.src nested st false >>= _) >>= _
    cases hexpression : TextRule.expression.found? s.src st.pos st.limit with
    | some f => exact readFrom_eq_call h st hpos hexpression _
    | none =>
      rw [TextRule.call_absent hexpression]
      exact readFrom_eq_other h st hpos

/-! ### What a step does -/

/-- What starts at the position. -/
def found (s : Setting) (search : LabelSearch) (st : State) : Found :=
  (recognize s search st.limit st.pos st.progress.memo).1.getD ⟨.plain, st.pos + 1⟩

theorem found_of_recognize {st : State} {f : Found} {memo : Memo}
    (h : recognize s search st.limit st.pos st.progress.memo = (some f, memo)) :
    st.found s search = f := by
  rw [found, h]
  rfl

theorem nest_inv {st st' : State} {c : Construct} {stop start limit : Nat} {k : Kind}
    (h : st.nest nested c stop k start limit = .ok st') :
    ∃ read, nested (st.inside c stop start limit) = .ok read ∧
      st'.pos = stop ∧ st'.limit = st.limit ∧ st'.passages = read.passages := by
  obtain ⟨read, hread, hst⟩ := Except.bind_eq_ok.mp h
  cases hst
  exact ⟨read, hread, rfl, rfl, rfl⟩

/-- A step takes what starts at the position: as it is, or, if it holds content, by reading that. -/
inductive Steps (s : Setting) (search : LabelSearch) (nested : InPlace) (st : State) : State → Prop
  | pass {f : Found} {stop : Nat} {progress : Progress} : st.found s search = f →
      max f.stop (st.pos + 1) = stop → f.construct.content? = none →
      Steps s search nested st (st.pass f.construct stop progress)
  | nest {f : Found} {stop : Nat} {progress : Progress} {k : Kind} {l : Span} {st' : State} :
      st.found s search = f → max f.stop (st.pos + 1) = stop → f.construct.content? = some l →
      { st with progress }.nest nested f.construct stop k l.start l.stop = .ok st' →
      Steps s search nested st st'

theorem steps_of_other {st st' : State} (hpair : ∀ o c, (st.found s search).construct ≠ .pair o c)
    (h : other s search nested label st = .ok st') : Steps s search nested st st' := by
  rw [other] at h
  cases hrec : recognize s search st.limit st.pos st.progress.memo with
  | mk found memo =>
    rw [hrec] at h
    cases found with
    | none =>
      cases h
      have hfound : st.found s search = ⟨.plain, st.pos + 1⟩ := by
        rw [State.found, hrec]
        rfl
      exact .pass hfound (Nat.max_self _) rfl
    | some f =>
      have hfound := found_of_recognize hrec
      rw [hfound] at hpair
      obtain ⟨c, stop⟩ := f
      cases c with
      | plain | lineBreak | delimiters =>
        cases h
        exact .pass hfound rfl rfl
      | link l href title => exact .nest hfound rfl rfl h
      | pair o c => exact absurd rfl (hpair o c)
      | _ =>
        obtain ⟨r, -, hpass⟩ := Except.bind_eq_ok.mp h
        cases hpass
        exact .pass hfound rfl rfl

theorem steps_of_call {st st' : State} {rule : TextRule}
    (h : rule.call s.src nested st false = .ok (true, st')) : Steps s search nested st st' := by
  have hexit := rule.exit s.src nested st
  generalize rule.call s.src nested st true = silent at hexit
  generalize rule.call s.src nested st false = read at hexit h
  cases hexit with
  | absent | fault => cases h
  | pass hfound _ hcontent hlt _ =>
    cases h
    exact .pass (found_of_recognize (rule.recognize_of_found? hfound _)) (Nat.max_eq_left hlt)
      hcontent
  | nest hfound _ hcontent hlt _ =>
    obtain ⟨st₁, hnest, hst⟩ := Except.bind_eq_ok.mp h
    cases hst
    exact .nest (found_of_recognize (rule.recognize_of_found? hfound _)) (Nat.max_eq_left hlt)
      hcontent hnest

theorem of_call_false {st st' : State} {rule : TextRule}
    (h : rule.call s.src nested st false = .ok (false, st')) :
    st' = st ∧ rule.found? s.src st.pos st.limit = none := by
  have hexit := rule.exit s.src nested st
  generalize rule.call s.src nested st true = silent at hexit
  generalize rule.call s.src nested st false = read at hexit h
  cases hexit with
  | absent hfound =>
    cases h
    exact ⟨rfl, hfound⟩
  | fault | pass => cases h
  | nest =>
    obtain ⟨st₁, -, hst⟩ := Except.bind_eq_ok.mp h
    cases hst

/-- **A step takes what starts at the position.** -/
theorem steps_of_step {st st' : State} (hsearch : search.Within s.src st.limit)
    (hpos : st.pos < st.limit) (h : step s search nested label st = .ok st') :
    Steps s search nested st st' := by
  rw [step_eq] at h
  obtain ⟨⟨done, st₁⟩, helement, hrest⟩ := Except.bind_eq_ok.mp h
  cases done with
  | true =>
    cases hrest
    exact steps_of_call helement
  | false =>
    obtain ⟨rfl, hnone⟩ := of_call_false helement
    obtain ⟨⟨done, st₂⟩, hexpression, hother⟩ := Except.bind_eq_ok.mp hrest
    cases done with
    | true =>
      cases hother
      exact steps_of_call hexpression
    | false =>
      obtain ⟨rfl, -⟩ := of_call_false hexpression
      refine steps_of_other ?_ hother
      -- A pair would have been found by the rule for elements.
      intro o c hpair
      cases hrec : (recognize s search st₂.limit st₂.pos st₂.progress.memo).1 with
      | none =>
        rw [found, hrec] at hpair
        cases hpair
      | some f =>
        rw [found, hrec] at hpair
        obtain ⟨hlt, hscan, -⟩ := (recognize_within hsearch hpos hrec).pair o c hpair
        rw [TextRule.found?, TextRule.mark, if_pos hlt, TextRule.scan, tag?, hscan] at hnone
        cases hnone

/-! ### A whole run -/

theorem Steps.limit_pos {st st' : State} (h : Steps s search nested st st') :
    st'.limit = st.limit ∧ st.pos < st'.pos := by
  cases h with
  | pass _ hstop => exact ⟨rfl, by rw [← hstop]; exact Nat.le_max_right _ _⟩
  | nest _ hstop _ hnest =>
    obtain ⟨_, -, hpos, hlimit, -⟩ := nest_inv hnest
    exact ⟨hlimit, by rw [hpos, ← hstop]; exact Nat.le_max_right _ _⟩

/-- **A run reads what the other reader reads.** -/
theorem run_erases (h : nested.Erases inner) {limit : Nat} {st : State} (hlimit : st.limit = limit)
    (hsearch : search.Within s.src limit) :
    (run s search nested label limit st).map (·.progress) =
      readFrom s search inner label limit st.pos st.progress := by
  induction hn : limit - st.pos using Nat.strongRecOn generalizing st with
  | ind n ih =>
    subst hlimit
    rw [run]
    split
    · next hpos =>
      rw [readFrom_eq_step h st hpos]
      cases hstep : step s search nested label st with
      | error e => rfl
      | ok st' =>
        obtain ⟨hlimit, hlt⟩ := (steps_of_step hsearch hpos hstep).limit_pos
        simp only [bind, Except.bind, dif_pos hlt]
        exact ih _ (by omega) hlimit rfl
    · next hpos =>
      rw [readFrom, if_neg hpos]
      rfl

/-- **Reading in place reads the same**, whatever has been read before. -/
theorem tokenize_erases (s : Setting) (label : Source → Except SyntaxError (List Event))
    (room : Nat) : (tokenize s label room).Erases (read s label room) := by
  induction room with
  | zero =>
    rintro ⟨pos, limit, progress, passages⟩ memo rfl
    rfl
  | succ n ih =>
    rintro ⟨pos, limit, progress, passages⟩ memo rfl
    have hrun : Except.map _ (run s _ _ label limit ⟨pos, limit, .start memo, passages⟩) = _ :=
      run_erases ih rfl (labelSearch_within s limit (n + 1))
    simp only [read, tokenize]
    rw [← hrun]
    cases run s (labelSearch s limit (n + 1)) (tokenize s label n) label limit
      ⟨pos, limit, .start memo, passages⟩ <;> rfl

end State

end MdxProse.Inline
