import MdxProse.CodeSpan
import MdxProse.Proofs.StableScans

/-!
# The rule for code spans

A run of grave accents opens a code span, and the first run after it that is exactly as long closes
it.  No run is taken out of a longer one, but of one that a limit cuts, only what is below the limit
counts.

* `CodeSpan.IsRun`: a longest run of marks between two offsets.  `IsRun.eq_or_apart`: **two of them
  are the same or do not touch.**
* `CodeSpan.FirstRunEnd`: the end of the first run that has a given length, with a fallback.
* `CodeSpan.round`, `CodeSpan.Rounds`: the search in place, which looks for the marks as for any
  other text and goes on behind a run in which it finds them but which is longer.
  `CodeSpan.exists_rounds`: **it ends from wherever it starts.**
  `CodeSpan.Rounds.firstRunEnd`: its answer is the end of the first run.
* `CodeSpan.firstRunEnd_close?`: so is the answer of the reader of windows.
* `code_span_follows_rule`: the whole of it, for the run at an offset.
-/

namespace MdxProse

variable {src : Source} {pos limit lo hi a b a' b' i n stop stop' search found fallback : Nat}

namespace CodeSpan

/-! ### Runs of marks -/

/-- Between `lo` and `hi` there is a run of marks from `a` to `b` that cannot be made longer. -/
structure IsRun (src : Source) (lo hi a b : Nat) : Prop where
  le : lo ≤ a
  lt : a < b
  le_hi : b ≤ hi
  mark : ∀ i, a ≤ i → i < b → src.has '\x60' i = true
  before : a = lo ∨ src.has '\x60' (a - 1) = false
  after : b = hi ∨ src.has '\x60' b = false

theorem IsRun.start_le (h : IsRun src lo hi a b) (hlo : lo ≤ a')
    (hmarks : ∀ i, a' ≤ i → i < a → src.has '\x60' i = true) : a ≤ a' := by
  apply Nat.le_of_not_lt
  intro hlt
  rcases h.before with heq | hno
  · omega
  · rw [hmarks (a - 1) (by omega) (by omega)] at hno
    cases hno

theorem IsRun.le_stop (h : IsRun src lo hi a b) (hhi : b' ≤ hi)
    (hmarks : ∀ i, b ≤ i → i < b' → src.has '\x60' i = true) : b' ≤ b := by
  apply Nat.le_of_not_lt
  intro hlt
  rcases h.after with heq | hno
  · omega
  · rw [hmarks b (Nat.le_refl b) hlt] at hno
    cases hno

/-- **Two runs are the same or do not touch.** -/
theorem IsRun.eq_or_apart (h : IsRun src lo hi a b) (h' : IsRun src lo hi a' b') :
    (a = a' ∧ b = b') ∨ b < a' ∨ b' < a := by
  have hlt := h.lt
  have hlt' := h'.lt
  by_cases hapart : b < a' ∨ b' < a
  · exact .inr hapart
  · left
    rw [not_or, Nat.not_lt, Nat.not_lt] at hapart
    obtain ⟨hle, hle'⟩ := hapart
    have hstart : a ≤ a' := h.start_le h'.le fun i hi hlt => h'.mark i hi (by omega)
    have hstart' : a' ≤ a := h'.start_le h.le fun i hi hlt => h.mark i hi (by omega)
    have hstop : b' ≤ b := h.le_stop h'.le_hi fun i hi hlt => h'.mark i (by omega) hlt
    have hstop' : b ≤ b' := h'.le_stop h.le_hi fun i hi hlt => h.mark i (by omega) hlt
    omega

theorem skipWhile_mark (hmark : src.has '\x60' a = true) (ha : a < hi) :
    src.skipWhile isMark a hi = src.skipWhile isMark (a + 1) hi :=
  Source.skipWhile_of_test hmark ha

theorem IsRun.skipWhile_eq (h : IsRun src lo hi a b) : src.skipWhile isMark a hi = b := by
  have hskip : src.skipWhile isMark a hi = src.skipWhile isMark b hi :=
    Source.skipWhile_of_forall (Nat.le_of_lt h.lt) h.le_hi h.mark
  rcases h.after with rfl | hend
  · apply Nat.le_antisymm (Source.skipWhile_le (Nat.le_of_lt h.lt))
    rw [hskip]
    exact src.le_skipWhile isMark b b
  · rw [hskip]
    exact Source.skipWhile_of_not_test hend hi

theorem isRun_skipWhile (hle : lo ≤ a) (ha : a < hi) (hmark : src.has '\x60' a = true)
    (hbefore : a = lo ∨ src.has '\x60' (a - 1) = false) :
    IsRun src lo hi a (src.skipWhile isMark a hi) := by
  have hstop : src.skipWhile isMark a hi ≤ hi := Source.skipWhile_le (Nat.le_of_lt ha)
  refine ⟨hle, ?_, hstop, ?_, hbefore, ?_⟩
  · rw [skipWhile_mark hmark ha]
    exact src.le_skipWhile isMark (a + 1) hi
  · intro i hi' hlt
    exact Source.test_of_lt_skipWhile hi' hlt
  · exact (Nat.eq_or_lt_of_le hstop).imp_right fun hlt => Source.test_skipWhile hlt

/-! ### The first run of a length -/

/-- The offset just past the first run of exactly `n` marks between `lo` and `hi`, or `fallback` if
there is none. -/
def FirstRunEnd (src : Source) (n lo hi fallback stop : Nat) : Prop :=
  (∃ a, IsRun src lo hi a (a + n) ∧ (∀ a', IsRun src lo hi a' (a' + n) → a ≤ a') ∧
    stop = a + n) ∨
  (∀ a, ¬ IsRun src lo hi a (a + n)) ∧ stop = fallback

theorem FirstRunEnd.unique (h : FirstRunEnd src n lo hi fallback stop)
    (h' : FirstRunEnd src n lo hi fallback stop') : stop = stop' := by
  rcases h with ⟨a, hrun, hfirst, rfl⟩ | ⟨hno, rfl⟩
  · rcases h' with ⟨a', hrun', hfirst', rfl⟩ | ⟨hno', -⟩
    · rw [Nat.le_antisymm (hfirst a' hrun') (hfirst' a hrun)]
    · exact absurd hrun (hno' a)
  · rcases h' with ⟨a', hrun', -⟩ | ⟨-, rfl⟩
    · exact absurd hrun' (hno a')
    · rfl

/-- **A run of another length is passed**, if no run of the right length comes before it. -/
theorem isRun_iff_of_passed (h : IsRun src lo hi a' b') (hne : b' ≠ a' + n)
    (hfirst : ∀ a, IsRun src lo hi a (a + n) → a' ≤ a) :
    IsRun src lo hi a (a + n) ↔ IsRun src b' hi a (a + n) := by
  have hlt' := h.lt
  have hle' := h.le
  constructor
  · intro hrun
    have hlt := hrun.lt
    have hge := hfirst a hrun
    -- it is not the run that is passed, and it does not come before that one
    have hafter : b' < a := by
      rcases hrun.eq_or_apart h with ⟨rfl, hb⟩ | hbefore | hafter
      · exact absurd hb.symm hne
      · omega
      · exact hafter
    refine ⟨Nat.le_of_lt hafter, hlt, hrun.le_hi, hrun.mark, ?_, hrun.after⟩
    exact .inr (hrun.before.resolve_left (by omega))
  · intro hrun
    have hle := hrun.le
    have hlt := hrun.lt
    have hhi := hrun.le_hi
    refine ⟨by omega, hlt, hhi, hrun.mark, ?_, hrun.after⟩
    rcases hrun.before with rfl | hno
    · -- where a run ends, no other one starts
      rcases h.after with hend | hend
      · omega
      · rw [hrun.mark a (Nat.le_refl a) hlt] at hend
        cases hend
    · exact .inr hno

theorem firstRunEnd_iff_of_passed (h : IsRun src lo hi a' b') (hne : b' ≠ a' + n)
    (hfirst : ∀ a, IsRun src lo hi a (a + n) → a' ≤ a) :
    FirstRunEnd src n lo hi fallback stop ↔ FirstRunEnd src n b' hi fallback stop := by
  simp only [FirstRunEnd, isRun_iff_of_passed h hne hfirst]

/-! ### The search in place -/

/-- One round of the search for the run that closes a span.  It looks for the marks that opened it.
If they are nowhere, the answer is the end of the opening run.  If a longer run starts with them,
the next round searches behind that run, and otherwise the answer is where they end. -/
def round (src : Source) (marks : List Char) (limit runStop search : Nat) : Nat ⊕ Nat :=
  match src.search? marks search limit with
  | none => .inl runStop
  | some found =>
    let stop := found + marks.length
    if stop < limit && src.has '\x60' stop then .inr (src.skipWhile isMark stop limit)
    else .inl stop

/-- The rounds from an offset on end with an answer. -/
inductive Rounds (src : Source) (marks : List Char) (limit runStop : Nat) : Nat → Nat → Prop
  | last {search stop : Nat} (h : round src marks limit runStop search = .inl stop) :
      Rounds src marks limit runStop search stop
  | next {search search' stop : Nat} (h : round src marks limit runStop search = .inr search')
      (rest : Rounds src marks limit runStop search' stop) :
      Rounds src marks limit runStop search stop

variable {marks : List Char} {runStop search' : Nat}

theorem round_cases (src : Source) (marks : List Char) (limit runStop search : Nat) :
    (src.search? marks search limit = none ∧
      round src marks limit runStop search = .inl runStop) ∨
    ∃ found, src.search? marks search limit = some found ∧
      ((found + marks.length = limit ∨ src.has '\x60' (found + marks.length) = false) ∧
          round src marks limit runStop search = .inl (found + marks.length) ∨
        found + marks.length < limit ∧ src.has '\x60' (found + marks.length) = true ∧
          round src marks limit runStop search =
            .inr (src.skipWhile isMark (found + marks.length) limit)) := by
  unfold round
  cases hsearch : src.search? marks search limit with
  | none => exact .inl ⟨rfl, rfl⟩
  | some found =>
    have hle := (Source.search?_spec hsearch).2.1
    refine .inr ⟨found, rfl, ?_⟩
    by_cases hlonger :
        (found + marks.length < limit && src.has '\x60' (found + marks.length)) = true
    · dsimp only
      rw [if_pos hlonger]
      rw [Bool.and_eq_true, decide_eq_true_eq] at hlonger
      exact .inr ⟨hlonger.1, hlonger.2, rfl⟩
    · dsimp only
      rw [if_neg hlonger]
      rw [Bool.and_eq_true, decide_eq_true_eq, not_and, Bool.not_eq_true] at hlonger
      refine .inl ⟨?_, rfl⟩
      exact (Nat.eq_or_lt_of_le hle).imp_right hlonger

theorem lt_of_round (h : round src marks limit runStop search = .inr search') :
    search < search' ∧ search' ≤ limit := by
  rcases round_cases src marks limit runStop search with ⟨-, heq⟩ | ⟨found, hsearch, hcase⟩
  · rw [heq] at h
    cases h
  · have hspec := Source.search?_spec hsearch
    rcases hcase with ⟨-, heq⟩ | ⟨hlt, hmark, heq⟩
    · rw [heq] at h
      cases h
    · rw [heq] at h
      cases h
      have hskip := skipWhile_mark hmark hlt
      have hle := src.le_skipWhile isMark (found + marks.length + 1) limit
      refine ⟨by omega, Source.skipWhile_le hspec.2.1⟩

/-- **The search ends**, whatever it looks for and wherever it starts. -/
theorem exists_rounds (src : Source) (marks : List Char) (limit runStop search : Nat) :
    ∃ stop, Rounds src marks limit runStop search stop := by
  induction hn : limit - search using Nat.strongRecOn generalizing search with
  | ind n ih =>
    cases hround : round src marks limit runStop search with
    | inl stop => exact ⟨stop, .last hround⟩
    | inr search' =>
      have hlt := lt_of_round hround
      obtain ⟨stop, hrest⟩ := ih (limit - search') (by omega) search' rfl
      exact ⟨stop, .next hround hrest⟩

/-- Marks found by a search start a run, which is the first one that can have their number. -/
theorem isRun_of_search? (hn : 0 < n)
    (h : src.search? (List.replicate n '\x60') search limit = some found) :
    IsRun src search limit found (src.skipWhile isMark found limit) ∧
      ∀ a, IsRun src search limit a (a + n) → found ≤ a := by
  obtain ⟨hle, hlimit, hat⟩ := Source.search?_spec h
  rw [List.length_replicate] at hlimit
  rw [Source.hasAt_replicate_iff] at hat
  constructor
  · apply isRun_skipWhile hle (by omega) (hat found (Nat.le_refl found) (by omega))
    by_cases heq : found = search
    · exact .inl heq
    · right
      rw [← Bool.not_eq_true]
      intro hmark
      -- with a mark before them, the search would have found the marks one place earlier
      have hearlier : src.HasAt (found - 1) (List.replicate n '\x60') := by
        rw [Source.hasAt_replicate_iff]
        intro i hi hlt
        by_cases hfirst : i = found - 1
        · rwa [hfirst]
        · exact hat i (by omega) (by omega)
      have := Source.search?_le h (by omega) hearlier
      omega
  · intro a hrun
    exact Source.search?_le h hrun.le (Source.hasAt_replicate_iff.mpr hrun.mark)

theorem firstRunEnd_of_round_last (hn : 0 < n)
    (h : round src (List.replicate n '\x60') limit fallback search = .inl stop) :
    FirstRunEnd src n search limit fallback stop := by
  rcases round_cases src (List.replicate n '\x60') limit fallback search with
    ⟨hnone, heq⟩ | ⟨found, hsearch, hcase⟩
  · rw [heq] at h
    cases h
    refine .inr ⟨?_, rfl⟩
    intro a hrun
    have hat := Source.hasAt_replicate_iff.mpr hrun.mark
    apply Source.not_hasAt_of_search? hnone hrun.le _ hat
    rw [List.length_replicate]
    exact hrun.le_hi
  · rw [List.length_replicate] at hcase
    obtain ⟨hrun, hfirst⟩ := isRun_of_search? hn hsearch
    obtain ⟨-, hlimit, hat⟩ := Source.search?_spec hsearch
    rw [List.length_replicate] at hlimit
    rw [Source.hasAt_replicate_iff] at hat
    rcases hcase with ⟨hend, heq⟩ | ⟨-, -, heq⟩
    · rw [heq] at h
      cases h
      refine .inl ⟨found, ?_, hfirst, rfl⟩
      exact ⟨hrun.le, by omega, hlimit, hat, hrun.before, hend⟩
    · rw [heq] at h
      cases h

theorem firstRunEnd_iff_of_round_next (hn : 0 < n)
    (h : round src (List.replicate n '\x60') limit fallback search = .inr search') :
    FirstRunEnd src n search limit fallback stop ↔
      FirstRunEnd src n search' limit fallback stop := by
  rcases round_cases src (List.replicate n '\x60') limit fallback search with
    ⟨-, heq⟩ | ⟨found, hsearch, hcase⟩
  · rw [heq] at h
    cases h
  · rw [List.length_replicate] at hcase
    obtain ⟨hrun, hfirst⟩ := isRun_of_search? hn hsearch
    obtain ⟨-, -, hat⟩ := Source.search?_spec hsearch
    rw [Source.hasAt_replicate_iff] at hat
    rcases hcase with ⟨-, heq⟩ | ⟨hlt, hmark, heq⟩
    · rw [heq] at h
      cases h
    · rw [heq] at h
      cases h
      have hend : src.skipWhile isMark found limit = src.skipWhile isMark (found + n) limit :=
        Source.skipWhile_of_forall (Nat.le_add_right found n) (Nat.le_of_lt hlt) hat
      rw [hend] at hrun
      apply firstRunEnd_iff_of_passed hrun _ hfirst
      -- the run is longer than its first marks, since one more follows them
      have hskip := skipWhile_mark hmark hlt
      have := src.le_skipWhile isMark (found + n + 1) limit
      omega

/-- **The search finds the first run of its length.** -/
theorem Rounds.firstRunEnd (hn : 0 < n)
    (h : Rounds src (List.replicate n '\x60') limit fallback search stop) :
    FirstRunEnd src n search limit fallback stop := by
  induction h with
  | last hround => exact firstRunEnd_of_round_last hn hround
  | next hround _ ih => exact (firstRunEnd_iff_of_round_next hn hround).mpr ih

theorem rounds_iff (hn : 0 < n) (h : FirstRunEnd src n search limit fallback stop) :
    Rounds src (List.replicate n '\x60') limit fallback search stop' ↔ stop' = stop := by
  constructor
  · intro hrounds
    exact (hrounds.firstRunEnd hn).unique h
  · rintro rfl
    obtain ⟨answer, hrounds⟩ :=
      exists_rounds src (List.replicate n '\x60') limit fallback search
    rwa [(hrounds.firstRunEnd hn).unique h] at hrounds

/-! ### The reader of windows -/

theorem has_of_lt_skipWhile (hle : lo ≤ i) (hlt : i < src.skipWhile (!isMark ·) lo hi) :
    src.has '\x60' i = false := by
  obtain ⟨c, hc, hno⟩ := Source.test_iff.mp (Source.test_of_lt_skipWhile hle hlt)
  rw [Bool.not_eq_true'] at hno
  simp only [Source.has, Source.test, hc]
  exact hno

/-- What a window has from its first mark on: a run, and the window behind it. -/
theorem first_run_of_window {c : Char} {r : List Char} (hsize : hi ≤ src.size)
    (h : (src.window lo hi).dropWhile (!isMark ·) = c :: r) : ∃ a b, IsRun src lo hi a b ∧
      (∀ a' b', IsRun src lo hi a' b' → a ≤ a') ∧ r.length + 1 = hi - a ∧
      r.dropWhile isMark = src.window b hi := by
  obtain ⟨a, ha⟩ : ∃ a, a = src.skipWhile (!isMark ·) lo hi := ⟨_, rfl⟩
  have hpass : ∀ i, lo ≤ i → i < a → src.has '\x60' i = false := by
    intro i hi' hlt
    exact has_of_lt_skipWhile hi' (ha ▸ hlt)
  have hlo : lo ≤ a := ha ▸ src.le_skipWhile (!isMark ·) lo hi
  rw [Source.dropWhile_window, ← ha] at h
  have hlen := congrArg List.length h
  rw [Source.length_window, List.length_cons] at hlen
  have hlt : a < hi := by omega
  have hc : src[a]? = some c := Source.has_iff.mp (Source.has_of_window h)
  have hmark : src.has '\x60' a = true := by
    have htest : src.test (!isMark ·) a = false := ha ▸ Source.test_skipWhile (ha ▸ hlt)
    simp only [Source.test, hc, Bool.not_eq_false'] at htest
    simp only [Source.has, Source.test, hc]
    exact htest
  refine ⟨a, src.skipWhile isMark a hi, isRun_skipWhile hlo hlt hmark ?_, ?_, by omega, ?_⟩
  · by_cases heq : a = lo
    · exact .inl heq
    · exact .inr (hpass (a - 1) (by omega) (by omega))
  · intro a' b' hrun
    apply Nat.le_of_not_lt
    intro hlt'
    have hno := hpass a' hrun.le hlt'
    rw [hrun.mark a' (Nat.le_refl a') hrun.lt] at hno
    cases hno
  · rw [Source.window_cons src hc hlt] at h
    rw [← (List.cons.inj h).2, Source.dropWhile_window, skipWhile_mark hmark hlt]

/-- **The reader of windows finds the first run of its length.** -/
theorem firstRunEnd_close? (hle : lo ≤ hi) (hsize : hi ≤ src.size) :
    FirstRunEnd src n lo hi fallback
      (((close? n (src.window lo hi)).map (hi - ·.length)).getD fallback) := by
  generalize hw : src.window lo hi = w
  fun_induction close? n w generalizing lo with
  | case1 w hnone =>
    refine .inr ⟨?_, rfl⟩
    intro a hrun
    -- skipping to a mark goes over the whole window
    rw [← hw, Source.dropWhile_window] at hnone
    have hlen := congrArg List.length hnone
    rw [Source.length_window, List.length_nil] at hlen
    have hlt := hrun.lt
    have hhi := hrun.le_hi
    have hno := has_of_lt_skipWhile hrun.le (show a < src.skipWhile (!isMark ·) lo hi by omega)
    rw [hrun.mark a (Nat.le_refl a) hlt] at hno
    cases hno
  | case2 w c r hd heq =>
    obtain ⟨a, b, hrun, hfirst, hlen, hrest⟩ := first_run_of_window hsize (hw ▸ hd)
    have hlt := hrun.lt
    have hhi := hrun.le_hi
    rw [hrest, Source.length_window] at heq
    have hb : b = a + n := by omega
    subst hb
    refine .inl ⟨a, hrun, ?_, ?_⟩
    · intro a' hrun'
      exact hfirst a' _ hrun'
    · rw [hrest, Option.map_some, Option.getD_some, Source.length_window]
      omega
  | case3 w c r hd hne ih =>
    obtain ⟨a, b, hrun, hfirst, hlen, hrest⟩ := first_run_of_window hsize (hw ▸ hd)
    have hlt := hrun.lt
    have hhi := hrun.le_hi
    rw [hrest, Source.length_window] at hne
    have hpassed : b ≠ a + n := by omega
    rw [firstRunEnd_iff_of_passed hrun hpassed fun a' hrun' => hfirst a' _ hrun']
    exact ih hhi hrest.symm

theorem skip_eq (hrun : IsRun src pos limit pos stop) (hsize : limit ≤ src.size) :
    skip src pos limit = (((close? (stop - pos) (src.window stop limit)).map
      (limit - ·.length)).getD stop) := by
  have hlt := hrun.lt
  have hle := hrun.le_hi
  have hdrop : (src.window pos limit).dropWhile isMark = src.window stop limit := by
    rw [Source.dropWhile_window, hrun.skipWhile_eq]
  have hlen : (src.window pos limit).length = limit - pos := by
    rw [Source.length_window]
    omega
  have hlen' : (src.window stop limit).length = limit - stop := by
    rw [Source.length_window]
    omega
  simp only [skip, rest]
  rw [hdrop, hlen, hlen', if_neg (by omega),
    show limit - pos - (limit - stop) = stop - pos by omega]
  cases hclose : close? (stop - pos) (src.window stop limit) with
  | none =>
    rw [Option.getD_none, Option.map_none, Option.getD_none, hlen']
    omega
  | some r =>
    have := length_close?_le hclose
    rw [Option.getD_some, Option.map_some, Option.getD_some]
    omega

end CodeSpan

/-- **A code span is skipped by the rule.**  Where a grave accent stands, a longest run of, say,
`n` starts.  If one of exactly as many comes after it, the offset just past the first such run is
the answer, and otherwise the end of the run is.  The search in place, which ends from wherever it
starts, has this answer and no other. -/
theorem code_span_follows_rule (src : Source) (pos limit : Nat) :
    (pos < limit → limit ≤ src.size → src.has '\x60' pos = true →
      ∃ n, CodeSpan.IsRun src pos limit pos (pos + n) ∧
        CodeSpan.FirstRunEnd src n (pos + n) limit (pos + n) (CodeSpan.skip src pos limit) ∧
        ∀ stop, CodeSpan.Rounds src (src.window pos (pos + n)) limit (pos + n) (pos + n) stop ↔
          stop = CodeSpan.skip src pos limit) ∧
    ∀ marks runStop search, ∃ stop, CodeSpan.Rounds src marks limit runStop search stop := by
  constructor
  · intro hlt hsize hmark
    have hrun := CodeSpan.isRun_skipWhile (Nat.le_refl pos) hlt hmark (.inl rfl)
    obtain ⟨n, hn⟩ := Nat.exists_eq_add_of_le (Nat.le_of_lt hrun.lt)
    rw [hn] at hrun
    have hpos : 0 < n := Nat.pos_of_lt_add_right hrun.lt
    have hmarks : src.window pos (pos + n) = List.replicate n '\x60' := by
      have hat := Source.hasAt_replicate_iff.mpr hrun.mark
      rwa [Source.hasAt_iff_window_eq, List.length_replicate] at hat
    have hskip : CodeSpan.FirstRunEnd src n (pos + n) limit (pos + n)
        (CodeSpan.skip src pos limit) := by
      rw [CodeSpan.skip_eq hrun hsize, Nat.add_sub_cancel_left]
      exact CodeSpan.firstRunEnd_close? hrun.le_hi hsize
    refine ⟨n, hrun, hskip, ?_⟩
    intro stop
    rw [hmarks]
    exact CodeSpan.rounds_iff hpos hskip
  · intro marks runStop search
    exact CodeSpan.exists_rounds src marks limit runStop search

/-- Two marks, one, three and two again: the first two are closed by the last two, but under a limit
that leaves only two of the three, by these. -/
theorem code_span_follows_rule_cut : ∃ src : Source,
    src = Source.ofString "\x60\x60a\x60b\x60\x60\x60c\x60\x60" ∧
    CodeSpan.skip src 0 11 = 11 ∧ CodeSpan.skip src 0 7 = 7 ∧
    ∃ n, CodeSpan.IsRun src 0 7 0 (0 + n) ∧ CodeSpan.FirstRunEnd src n (0 + n) 7 (0 + n) 7 ∧
      ∀ stop, CodeSpan.Rounds src (src.window 0 (0 + n)) 7 (0 + n) (0 + n) stop ↔ stop = 7 := by
  let src := Source.ofString "\x60\x60a\x60b\x60\x60\x60c\x60\x60"
  have hlong : CodeSpan.skip src 0 11 = 11 := by decide +kernel
  have hcut : CodeSpan.skip src 0 7 = 7 := by decide +kernel
  obtain ⟨n, hrun, hend, hrounds⟩ :=
    (code_span_follows_rule src 0 7).1 (by decide) (by decide +kernel) (by decide +kernel)
  rw [hcut] at hend hrounds
  exact ⟨src, rfl, hlong, hcut, n, hrun, hend, hrounds⟩

end MdxProse
