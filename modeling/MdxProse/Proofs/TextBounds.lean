import MdxProse.Proofs.Locality
import MdxProse.Proofs.TextCode

/-!
# Where constructs of running text end

Text is read up to a limit, but not every construct keeps to it: code and mathematics are looked for
in the whole text, and a stretch of plain characters or a character reference only ends before the
limit if what stands there cannot belong to it.

* `IsLimit`: a limit as it occurs: the end of the text, a tag, or the end of a label.
* `Construct.isVerbatim`: code and mathematics.
* `Found.Within`: where a construct and its content end.
* `recognize_within`: **nothing but code and mathematics reaches beyond such a limit**, and if one
  of these does, it ends with one of its marks.
-/

namespace MdxProse

theorem Tag.closer?_stop_le {src : Source} {name : Option String} {inner pos limit : Nat} {t : Tag}
    (h : closer? src name inner pos limit = some t) : t.span.stop ≤ limit := by
  fun_induction closer? src name inner pos limit with
  | case1 inner pos hp hb ih => exact ih h
  | case2 inner pos hp hb hm ih => exact ih h
  | case3 inner pos hp hb hm hbrace stop he ih => exact ih h
  | case4 inner pos hp hb hm hbrace he ih => exact ih h
  | case5 inner pos hp hb hm hbrace ht ih => exact ih h
  | case6 inner pos hp hb hm hbrace u ht hname hf ih => exact ih h
  | case7 inner pos hp hb hm hbrace u ht hname hf ih => exact ih h
  | case8 pos hp hb hm hbrace u ht hname hf =>
    cases h
    exact (stop_of_scan? ht).2
  | case9 pos hp hb hm hbrace u ht hname inner hf ih => exact ih h
  | case10 inner pos hp hb hm hbrace u ht hname ih => exact ih h
  | case11 => cases h

theorem Text.referenceName?_spec {w name rest : List Char}
    (h : referenceName? w = some (name, rest)) :
    w = name ++ ';' :: rest ∧ ∀ c ∈ name, c.isAlphanum = true ∨ c = '#' := by
  cases w with
  | nil => cases h
  | cons c w =>
    simp only [referenceName?] at h
    split at h
    · next hc =>
      have hsplit := List.takeWhile_append_dropWhile (p := Char.isAlphanum) (l := w)
      split at h
      · next rest' hdrop =>
        rw [hdrop] at hsplit
        split at h
        · cases h
          refine ⟨by rw [List.cons_append, hsplit], ?_⟩
          intro d hd
          rcases List.mem_cons.mp hd with rfl | hd
          · rcases Bool.or_eq_true_iff.mp hc with hc | hc
            · exact .inl (by rw [Char.isAlphanum, hc]; rfl)
            · exact .inr (beq_iff_eq.mp hc)
          · exact .inl (List.all_eq_true.mp List.all_takeWhile _ hd)
        · cases h
      · cases h
    · cases h

namespace Inline

/-! ### Limits and constructs -/

/-- A limit up to which text is read: its end, a tag, or the bracket at the end of a label. -/
def IsLimit (src : Source) (limit : Nat) : Prop :=
  limit = src.size ∨ src.has '<' limit = true ∨ src.has ']' limit = true

namespace IsLimit

variable {src : Source} {limit : Nat}

theorem le_size (h : IsLimit src limit) : limit ≤ src.size := by
  have hlt {c : Char} (hc : src.has c limit = true) : limit < src.size := by
    obtain ⟨_, hat, -⟩ := Source.test_iff.mp hc
    exact (Array.getElem?_eq_some_iff.mp hat).1
  rcases h with h | h | h
  · exact Nat.le_of_eq h
  · exact Nat.le_of_lt (hlt h)
  · exact Nat.le_of_lt (hlt h)

theorem at_limit (h : IsLimit src limit) {c : Char} (hc : src[limit]? = some c) :
    c = '<' ∨ c = ']' := by
  rcases h with h | h | h
  · rw [h, Array.getElem?_eq_none (Nat.le_refl _)] at hc
    cases hc
  all_goals
    obtain ⟨d, hd, hd'⟩ := Source.test_iff.mp h
    rw [hc] at hd
    cases hd
    rw [beq_iff_eq] at hd'
    subst hd'
    simp

theorem not_test (h : IsLimit src limit) {p : Char → Bool} (hlt : p '<' = false)
    (hbracket : p ']' = false) : src.test p limit = false := by
  rw [Bool.eq_false_iff]
  intro htest
  obtain ⟨c, hc, hp⟩ := Source.test_iff.mp htest
  rcases h.at_limit hc with rfl | rfl
  · exact Bool.false_ne_true (hlt.symm.trans hp)
  · exact Bool.false_ne_true (hbracket.symm.trans hp)

end IsLimit

/-- Is the construct taken as it stands, whatever is in it? -/
def Construct.isVerbatim : Construct → Bool
  | .code _ | .math _ => true
  | _ => false

/-- The content of a construct that is read one level further in. -/
def Construct.content? : Construct → Option Span
  | .link l _ _ => some l
  | .pair o c => some ⟨o.span.stop, c.span.start⟩
  | _ => none

/-- A construct that keeps to the limit. Code and mathematics may reach beyond it, up to one of
their marks. -/
structure Found.Within (src : Source) (limit pos : Nat) (f : Found) : Prop where
  stop_le : f.construct.isVerbatim = false → IsLimit src limit → f.stop ≤ limit
  mark : f.construct.isVerbatim = true → limit < f.stop →
    src.has '$' (f.stop - 1) = true ∨ src.has '\x60' (f.stop - 1) = true
  content : ∀ l, f.construct.content? = some l →
    pos < l.start ∧ l.start ≤ l.stop ∧ l.stop < limit ∧ IsLimit src l.stop
  pair : ∀ o c, f.construct = .pair o c → src.has '<' pos = true ∧
    Tag.scan? src pos limit = some o ∧ Tag.partner? src o limit = some c

theorem Found.Within.of_stop_le {src : Source} {limit pos stop : Nat} {c : Construct}
    (h : IsLimit src limit → stop ≤ limit) (hc : c.isVerbatim = false) (hnone : c.content? = none) :
    Found.Within src limit pos ⟨c, stop⟩ := by
  refine ⟨fun _ => h, ?_, ?_, ?_⟩
  · intro hverbatim
    rw [hc] at hverbatim
    cases hverbatim
  · intro l hl
    rw [hnone] at hl
    cases hl
  · rintro o c' rfl
    cases hnone

theorem Found.Within.of_mark {src : Source} {limit pos stop : Nat} {c : Construct}
    (h : limit < stop → src.has '$' (stop - 1) = true ∨ src.has '\x60' (stop - 1) = true)
    (hc : c.isVerbatim = true) (hnone : c.content? = none) :
    Found.Within src limit pos ⟨c, stop⟩ := by
  refine ⟨?_, fun _ => h, ?_, ?_⟩
  · intro hverbatim
    rw [hc] at hverbatim
    cases hverbatim
  · intro l hl
    rw [hnone] at hl
    cases hl
  · rintro o c' rfl
    cases hnone

/-- The search for labels finds brackets below the limit. -/
def LabelSearch.Within (src : Source) (limit : Nat) (search : LabelSearch) : Prop :=
  ∀ nested start memo e, (search nested start memo).1 = some e →
    start < e ∧ e < limit ∧ src.has ']' e = true

variable {s : Setting} {search : LabelSearch} {limit pos : Nat} {memo : Memo} {f : Found}

theorem labelStop_within {src : Source} {skip : Nat → Memo → Nat × Memo} {nested : Bool}
    {depth e : Nat} (h : (labelStop src skip limit nested depth pos memo).1 = some e) :
    pos ≤ e ∧ e < limit ∧ src.has ']' e = true := by
  fun_induction labelStop src skip limit nested depth pos memo with
  | case1 depth pos memo hpos hclose =>
    cases h
    exact ⟨Nat.le_refl _, hpos, (Bool.and_eq_true_iff.mp hclose).1⟩
  | case2 depth pos memo hpos _ next memo' _ hlt _ ih
  | case4 depth pos memo hpos _ next memo' _ hlt _ _ _ _ ih
  | case6 depth pos memo hpos _ next memo' _ hlt _ _ ih =>
    obtain ⟨hle, he⟩ := ih h
    exact ⟨by omega, he⟩
  | case3 depth pos memo hpos _ memo' _ _ _ _ ih =>
    obtain ⟨hle, he⟩ := ih h
    exact ⟨by omega, he⟩
  | case5 | case7 | case8 => cases h

/-- **The search for labels finds brackets below the limit.** -/
theorem labelSearch_within (s : Setting) (limit room : Nat) :
    (labelSearch s limit room).Within s.src limit := by
  intro nested start memo e h
  exact labelStop_within h

/-! ### Constructs without a label -/

theorem plain?_within {src : Source} (hpos : pos ≤ limit) (h : plain? src pos limit = some f) :
    f.Within src limit pos := by
  simp only [plain?] at h
  split at h
  · cases h
  · cases h
    refine .of_stop_le ?_ rfl rfl
    intro hlimit
    have hskip := Source.skipWhile_of_limit hpos hlimit.le_size
      (hlimit.not_test (p := (!isSpecial ·)) (by decide) (by decide))
    rw [hskip]
    split
    · exact Source.skipWhile_le hpos
    · exact Nat.le_refl _

theorem escape?_within {src : Source} (h : escape? src pos limit = some f) :
    f.Within src limit pos := by
  rw [escape?] at h
  split at h
  · cases h
  · next hlt =>
    split at h
    · cases h
    · cases h
      exact .of_stop_le (fun _ => Source.skipWhile_le (by omega)) rfl rfl
    · cases h
      exact .of_stop_le (fun _ => by omega) rfl rfl

theorem reference?_within {src : Source} (h : reference? src pos limit = some f) :
    f.Within src limit pos := by
  rw [reference?] at h
  split at h
  · cases h
  · next hlt =>
    simp only [Option.bind_eq_bind, Option.bind_eq_some_iff] at h
    obtain ⟨⟨name, rest⟩, hname, text, -, hf⟩ := h
    cases hf
    refine .of_stop_le ?_ rfl rfl
    intro hlimit
    obtain ⟨hwindow, hchars⟩ := Text.referenceName?_spec hname
    -- At a limit inside the reference stands a character of its name, or its semicolon.
    refine Nat.le_of_not_lt fun hbeyond => ?_
    dsimp only at hbeyond
    obtain ⟨k, rfl⟩ : ∃ k, limit = pos + 1 + k := ⟨limit - (pos + 1), by omega⟩
    have hk : k < (name ++ [';']).length := by
      rw [List.length_append, List.length_singleton]
      omega
    have hat := (Source.hasAt_window src (pos + 1) (pos + 34)).getElem? (i := k) (by
      rw [hwindow]
      simp only [List.length_append, List.length_cons] at hk ⊢
      omega)
    rw [hwindow, List.append_cons, List.getElem?_append_left hk, List.getElem?_eq_getElem hk] at hat
    have hmem := List.getElem_mem hk
    have hchar := hlimit.at_limit hat
    rcases List.mem_append.mp hmem with hmem | hmem
    · have hname := hchars _ hmem
      rcases hchar with hchar | hchar <;> rw [hchar] at hname <;> revert hname <;> decide
    · rw [List.mem_singleton.mp hmem] at hchar
      revert hchar
      decide

theorem dollar?_spec {src : Source} {stop : Nat} (h : dollar? src pos = some stop) :
    src.has '$' stop = true := by
  fun_induction dollar? src pos with
  | case1 pos _ hdollar =>
    cases h
    exact (Bool.and_eq_true_iff.mp hdollar).1
  | case2 pos _ _ ih => exact ih h
  | case3 => cases h

theorem math?_within {src : Source} (h : math? src pos = some f) : f.Within src limit pos := by
  rw [math?] at h
  split at h
  · cases h
  · split at h
    · cases h
    · next stop hdollar =>
      split at h
      · cases h
      · cases h
        exact .of_mark (fun _ => .inl (dollar?_spec hdollar)) rfl rfl

theorem closingRun_spec {src : Source} {n stop past : Nat}
    (h : (closingRun src n limit pos memo).1 = some (stop, past)) :
    src.has '\x60' stop = true ∧
      past = max (stop + 1) (src.skipWhile CodeSpan.isMark stop limit) := by
  fun_induction closingRun src n limit pos memo with
  | case1 pos memo _ hmark =>
    simp only [Option.some.injEq, Prod.mk.injEq] at h
    obtain ⟨rfl, rfl⟩ := h
    exact ⟨hmark, rfl⟩
  | case2 pos memo _ _ _ _ ih => exact ih h
  | case3 pos memo _ _ ih => exact ih h
  | case4 => cases h

theorem code?_within {src : Source} (hpos : pos ≤ limit)
    (h : (code? src pos limit memo).1 = some f) : f.Within src limit pos := by
  have hstart : src.skipWhile CodeSpan.isMark pos limit ≤ limit := Source.skipWhile_le hpos
  simp only [code?] at h
  split at h
  · cases h
    exact .of_stop_le (fun _ => hstart) rfl rfl
  · split at h
    · next stop past memo' hrun =>
      cases h
      refine .of_mark ?_ rfl rfl
      intro hlt
      obtain ⟨hmark, hpast⟩ := closingRun_spec (congrArg Prod.fst hrun)
      -- The closing run ends beyond the limit only if it starts there: it then counts as one mark.
      have hone : past = stop + 1 := by
        by_cases hstop : stop < limit
        · have hrun : src.skipWhile CodeSpan.isMark stop limit ≤ limit :=
            Source.skipWhile_le (Nat.le_of_lt hstop)
          omega
        · have hnil := src.window_eq_nil_of_le (Nat.le_of_not_lt hstop)
          rw [hpast, Source.skipWhile, hnil]
          exact Nat.max_eq_left (Nat.le_succ _)
      rw [hone]
      exact .inr hmark
    · cases h
      exact .of_stop_le (fun _ => hstart) rfl rfl

theorem tag?_within {src : Source} (hlt : src.has '<' pos = true)
    (h : tag? src pos limit = some f) : f.Within src limit pos := by
  rw [tag?, Option.map_eq_some_iff] at h
  obtain ⟨t, ht, rfl⟩ := h
  obtain ⟨hstop, hle⟩ := Tag.stop_of_scan? ht
  cases hf : t.form with
  | selfClosing => exact .of_stop_le (fun _ => hle) rfl rfl
  | closing => exact .of_stop_le (fun _ => hle) rfl rfl
  | opening =>
    dsimp only
    cases hp : Tag.partner? src t limit with
    | none => exact .of_stop_le (fun _ => hle) rfl rfl
    | some c =>
      obtain ⟨hafter, hcloser, -⟩ := Tag.closer?_spec hp
      have hcloserStop := Tag.closer?_stop_le hp
      have hcloserLt := (Tag.stop_of_scan? hcloser).1
      refine ⟨fun _ _ => hcloserStop, ?_, ?_, ?_⟩
      · intro hverbatim
        cases hverbatim
      · intro l hl
        cases hl
        refine ⟨hstop, hafter, Nat.lt_of_lt_of_le hcloserLt hcloserStop, .inr (.inl ?_)⟩
        exact Source.test_iff.mpr ⟨_, Tag.has_lt_of_scan? hcloser, rfl⟩
      · intro o c' hpair
        cases hpair
        exact ⟨hlt, ht, hp⟩

theorem expression_within (src : Source) (hpos : pos < limit) :
    (expression src pos limit).Within src limit pos := by
  rw [expression]
  split
  · next stop h => exact .of_stop_le (fun _ => Expression.stop_le_limit h) rfl rfl
  · exact .of_stop_le (fun _ => hpos) rfl rfl

/-! ### Links and images -/

theorem definition?_within (hsearch : search.Within s.src limit) {label : Span} {from_ stop : Nat}
    {d : Block.Definition} (hlabel : label.stop < limit)
    (h : (definition? s search label from_ limit memo).1 = some (d, stop)) : stop ≤ limit := by
  rw [definition?] at h
  split at h
  · cases h
  · simp only [Option.map_eq_some_iff] at h
    obtain ⟨d', -, hd⟩ := h
    cases hd
    split
    · next second hsecond =>
      split at hsecond
      · exact (hsearch _ _ _ _ hsecond).2.1
      · cases hsecond
    · exact hlabel

theorem link?_within (hsearch : search.Within s.src limit)
    (h : (link? s search pos limit memo).1 = some f) : f.Within s.src limit pos := by
  have hlink {l : Span} {href title : String} {stop : Nat} (hl : l.start = pos + 1)
      (hstart : pos < l.stop) (hlt : l.stop < limit) (hbracket : s.src.has ']' l.stop = true)
      (hstop : stop ≤ limit) : Found.Within s.src limit pos ⟨.link l href title, stop⟩ := by
    refine ⟨fun _ _ => hstop, ?_, ?_, ?_⟩
    · intro hverbatim
      cases hverbatim
    · intro _ hcontent
      cases hcontent
      exact ⟨by omega, by omega, hlt, .inr (.inr hbracket)⟩
    · intro o c hpair
      cases hpair
  rw [link?] at h
  split at h
  · cases h
  · next labelStop memo' hlabel =>
    obtain ⟨hstart, hlt, hbracket⟩ := hsearch _ _ _ _ (congrArg Prod.fst hlabel)
    have hdefined {from_ : Nat} {memo : Memo} (h : ((definition? s search ⟨pos + 1, labelStop⟩ from_
        limit memo).1.map fun x => (⟨.link ⟨pos + 1, labelStop⟩ x.1.href x.1.title, x.2⟩ : Found)) =
          some f) : f.Within s.src limit pos := by
      obtain ⟨⟨d, stop⟩, hd, rfl⟩ := Option.map_eq_some_iff.mp h
      exact hlink rfl hstart hlt hbracket (definition?_within hsearch hlt hd)
    dsimp only at h
    split at h
    · split at h
      · cases h
      · split at h
        · next hclose =>
          cases h
          exact hlink rfl hstart hlt hbracket (of_decide_eq_true (Bool.and_eq_true_iff.mp hclose).1)
        · exact hdefined h
    · exact hdefined h

theorem image?_within (hsearch : search.Within s.src limit)
    (h : (image? s search pos limit memo).1 = some f) : f.Within s.src limit pos := by
  rw [image?] at h
  split at h
  · cases h
  · split at h
    · cases h
    · next labelStop memo' hlabel =>
      obtain ⟨hstart, hlt, hbracket⟩ := hsearch _ _ _ _ (congrArg Prod.fst hlabel)
      dsimp only at h
      split at h
      · split at h
        · cases h
        · split at h
          · next hclose =>
            cases h
            have hle := of_decide_eq_true (Bool.and_eq_true_iff.mp hclose).1
            exact .of_stop_le (fun _ => hle) rfl rfl
          · cases h
      · obtain ⟨⟨d, stop⟩, hd, rfl⟩ := Option.map_eq_some_iff.mp h
        exact .of_stop_le (fun _ => definition?_within hsearch hlt hd) rfl rfl

/-- **Nothing but code and mathematics reaches beyond a limit.** -/
theorem recognize_within (hsearch : search.Within s.src limit) (hpos : pos < limit)
    (h : (recognize s search limit pos memo).1 = some f) : f.Within s.src limit pos := by
  rw [recognize] at h
  split at h
  · cases h
  · next c hc =>
    have hle := Nat.le_of_lt hpos
    split at h
    · cases h
      exact .of_stop_le (fun _ => Source.skipWhile_le hpos) rfl rfl
    · exact math?_within h
    · exact escape?_within h
    · exact code?_within hle h
    · cases h
      exact .of_stop_le (fun _ => Source.skipWhile_le hle) rfl rfl
    · cases h
      exact .of_stop_le (fun _ => Source.skipWhile_le hle) rfl rfl
    · exact link?_within hsearch h
    · exact image?_within hsearch h
    · exact tag?_within (Source.test_iff.mpr ⟨_, hc, rfl⟩) h
    · cases h
      exact expression_within _ hpos
    · exact reference?_within h
    · exact plain?_within hle h

end Inline

end MdxProse
