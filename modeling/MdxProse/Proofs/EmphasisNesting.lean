import MdxProse.Inline.Emphasis
import MdxProse.Proofs.Nesting

/-!
# Matched marks nest

A stream is *neutral* if it leaves open what was open before it, and closes only what it opens.
Marks of emphasis are written down as neutral events; when a pair of them is turned into emphasis,
what stands between them has to be neutral too.

* `Delimiter.pairs_spec`: **matched pairs do not cross.**
* `Neutral.setPair`: what is between two marks stays between them.
* `Delimiter.resolve_neutral`: **turning matched marks into emphasis keeps a stream neutral.**
-/

namespace MdxProse

/-! ### Neutral streams -/

/-- The stream closes what it opens, and nothing else. -/
def Neutral (es : List Event) : Prop :=
  ∀ open_, Event.settle? es open_ = some open_

namespace Neutral

variable {es es' : List Event}

theorem nil : Neutral [] := fun _ => rfl

theorem leaf (k : Kind) (l : Option LineRange) (inner : List Event) :
    Neutral [.leaf k l inner] := fun _ => rfl

theorem append (h : Neutral es) (h' : Neutral es') : Neutral (es ++ es') := by
  intro open_
  rw [Event.settle?_append, h, Option.bind_some, h']

theorem cancel_left (h : Neutral es) (h' : Neutral (es ++ es')) : Neutral es' := by
  intro open_
  have := h' open_
  rwa [Event.settle?_append, h, Option.bind_some] at this

theorem around (h : Neutral es) (k : Kind) (l : Option LineRange) :
    Neutral (Event.around k l es) := by
  intro open_
  show Event.settle? (es ++ [Event.leaving k]) (k.key :: open_) = some open_
  rw [Event.settle?_append, h, Option.bind_some]
  exact if_pos rfl

/-- Marks with something neutral between them may be turned into the two ends of a node. -/
theorem replace {a b c : List Event} {x y : Event} (k : Kind) (ha : Neutral a) (hx : Neutral [x])
    (hy : Neutral [y]) (hb : Neutral (a ++ x :: b)) (h : Neutral (a ++ x :: (b ++ y :: c))) :
    Neutral (a ++ .enter k none :: (b ++ Event.leaving k :: c)) := by
  have hb' : Neutral b := hx.cancel_left (ha.cancel_left hb)
  have hc : Neutral c := hy.cancel_left (hb'.cancel_left (hx.cancel_left (ha.cancel_left h)))
  have := (ha.append (hb'.around k none)).append hc
  simpa [Event.around] using this

end Neutral

/-! ### Marks in a stream -/

/-- A mark stands at the place, and nothing is open before it. -/
def IsMark (es : List Event) (n : Nat) : Prop :=
  Neutral (es.take n) ∧ ∃ e, es[n]? = some e ∧ Neutral [e]

theorem split_of_getElem? {es : List Event} {n : Nat} {x : Event} (h : es[n]? = some x) :
    ∃ a b, es = a ++ x :: b ∧ a = es.take n ∧ a.length = n := by
  obtain ⟨hn, rfl⟩ := List.getElem?_eq_some_iff.mp h
  refine ⟨es.take n, es.drop (n + 1), ?_, rfl, by rw [List.length_take]; omega⟩
  rw [← List.drop_eq_getElem_cons hn, List.take_append_drop]

theorem IsMark.split {es : List Event} {n : Nat} (h : IsMark es n) :
    ∃ a x b, es = a ++ x :: b ∧ a.length = n ∧ Neutral a ∧ Neutral [x] := by
  obtain ⟨ha, x, hx, hx'⟩ := h
  obtain ⟨a, b, hab, rfl, hlen⟩ := split_of_getElem? hx
  exact ⟨_, x, b, hab, hlen, ha, hx'⟩

theorem IsMark.take {es : List Event} {n m : Nat} (h : IsMark es n) (hnm : n < m) :
    IsMark (es.take m) n := by
  obtain ⟨ha, x, hx, hx'⟩ := h
  refine ⟨?_, x, by rw [List.getElem?_take_of_lt hnm, hx], hx'⟩
  rwa [List.take_take, Nat.min_eq_left (Nat.le_of_lt hnm)]

theorem IsMark.append {es : List Event} {n : Nat} (h : IsMark es n) (es' : List Event) :
    IsMark (es ++ es') n := by
  obtain ⟨ha, x, hx, hx'⟩ := h
  obtain ⟨hn, -⟩ := List.getElem?_eq_some_iff.mp hx
  exact ⟨by rwa [List.take_append_of_le_length (Nat.le_of_lt hn)], x,
    by rw [List.getElem?_append_left hn, hx], hx'⟩

theorem IsMark.lt_length {es : List Event} {n : Nat} (h : IsMark es n) : n < es.length := by
  obtain ⟨_, x, hx, _⟩ := h
  exact (List.getElem?_eq_some_iff.mp hx).1

theorem IsMark.set {es : List Event} {n : Nat} {e : Event} (h : IsMark es n) (he : Neutral [e])
    (hes : Neutral es) : Neutral (es.set n e) := by
  obtain ⟨a, x, b, rfl, rfl, ha, hx⟩ := h.split
  rw [List.set_append_right _ _ (Nat.le_refl _), Nat.sub_self, List.set_cons_zero]
  exact ha.append (he.append (hx.cancel_left (ha.cancel_left hes)))

/-- **What is between two marks stays between them** when they are turned into a node. -/
theorem IsMark.setPair {es : List Event} {n m : Nat} (k : Kind) (hn : IsMark es n)
    (hm : IsMark es m) (hnm : n < m) (hes : Neutral es) :
    Neutral ((es.set n (.enter k none)).set m (Event.leaving k)) := by
  obtain ⟨a, x, b, rfl, rfl, ha, hx⟩ := hn.split
  obtain ⟨htake, y, hy, hy'⟩ := hm
  obtain ⟨d, rfl⟩ := Nat.exists_eq_add_of_lt hnm
  have hsub : a.length + d + 1 - a.length = d + 1 := by omega
  rw [List.getElem?_append_right (by omega), hsub, List.getElem?_cons_succ] at hy
  obtain ⟨b, c, rfl, -, hlen⟩ := split_of_getElem? hy
  subst hlen
  have hb : Neutral (a ++ x :: b) := by
    rw [List.take_append, List.take_of_length_le (by omega), hsub, List.take_succ_cons] at htake
    simpa using htake
  have := ha.replace k hx hy' hb hes
  rw [List.set_append_right _ _ (Nat.le_refl _), Nat.sub_self, List.set_cons_zero,
    List.set_append_right _ _ (by omega), hsub, List.set_cons_succ,
    List.set_append_right _ _ (Nat.le_refl _), Nat.sub_self, List.set_cons_zero]
  exact this

/-- Another mark stays a mark when its event stays, and the stream before it stays neutral. -/
theorem IsMark.of_take {es es' : List Event} {n : Nat} (h : IsMark es n)
    (htake : Neutral (es'.take n)) (hget : es'[n]? = es[n]?) : IsMark es' n := by
  obtain ⟨_, e, he, he'⟩ := h
  exact ⟨htake, e, hget.trans he, he'⟩

theorem IsMark.set_other {es : List Event} {n m : Nat} {e : Event} (hm : IsMark es m)
    (hn : IsMark es n) (he : Neutral [e]) (hne : m ≠ n) : IsMark (es.set n e) m := by
  refine hm.of_take ?_ (List.getElem?_set_ne (Ne.symm hne))
  rw [List.take_set]
  rcases Nat.lt_or_gt_of_ne hne with h | h
  · rw [List.set_eq_of_length_le (by rw [List.length_take]; omega)]
    exact hm.1
  · exact (hn.take h).set he hm.1

theorem IsMark.setPair_before {es : List Event} {n m i : Nat} (k : Kind) (hi : IsMark es i)
    (hin : i < n) (hnm : n < m) :
    IsMark ((es.set n (.enter k none)).set m (Event.leaving k)) i := by
  refine hi.of_take ?_ ?_
  · rw [List.take_set, List.take_set, List.set_eq_of_length_le (i := m),
      List.set_eq_of_length_le]
    · exact hi.1
    all_goals simp only [List.length_set, List.length_take]; omega
  · rw [List.getElem?_set_ne (by omega), List.getElem?_set_ne (by omega)]

theorem IsMark.setPair_after {es : List Event} {n m i : Nat} (k : Kind) (hi : IsMark es i)
    (hn : IsMark es n) (hm : IsMark es m) (hnm : n < m) (hmi : m < i) :
    IsMark ((es.set n (.enter k none)).set m (Event.leaving k)) i := by
  refine hi.of_take ?_ ?_
  · rw [List.take_set, List.take_set]
    exact (hn.take (by omega)).setPair k (hm.take hmi) hnm hi.1
  · rw [List.getElem?_set_ne (by omega), List.getElem?_set_ne (by omega)]

/-! ### Pairs do not cross -/

namespace Inline.Delimiter

variable {ds open_ run : List Delimiter}

/-- Two pairs: one comes before the other, or one is around the other. -/
def Apart (p q : Pair) : Prop :=
  p.closer.place < q.opener.place ∨ q.closer.place < p.opener.place ∨
    p.opener.place < q.opener.place ∧ q.closer.place < p.closer.place ∨
    q.opener.place < p.opener.place ∧ p.closer.place < q.closer.place

theorem findOpener?_spec {closer o : Delimiter} {rest : List Delimiter}
    (h : findOpener? closer ds = some (o, rest)) : ∃ skipped, ds = skipped ++ o :: rest := by
  induction ds with
  | nil => cases h
  | cons d ds ih =>
    rw [findOpener?] at h
    split at h
    · cases h
      exact ⟨[], rfl⟩
    · obtain ⟨skipped, rfl⟩ := ih h
      exact ⟨d :: skipped, rfl⟩

/-- What becomes of a mark: it is matched by one of the open marks, and those after that one are
given up, or it is an open mark itself. -/
theorem pairs_cons (open_ run : List Delimiter) (d : Delimiter) (ds : List Delimiter) :
    (∃ skipped o rest, run ++ open_ = skipped ++ o :: rest ∧
      pairs open_ run (d :: ds) = ⟨o, d⟩ :: pairs rest [] ds) ∨
    ∃ open' run', run' ++ open' = run ++ open_ ∧
      pairs open_ run (d :: ds) = pairs open' (d :: run') ds := by
  have hstep (open' run' : List Delimiter) (heq : run' ++ open' = run ++ open_)
      (hsome : ∀ o rest, (if d.closes then findOpener? d open' else none) = some (o, rest) →
        pairs open_ run (d :: ds) = ⟨o, d⟩ :: pairs rest [] ds)
      (hnone : (if d.closes then findOpener? d open' else none) = none →
        pairs open_ run (d :: ds) = pairs open' (d :: run') ds) :
      (∃ skipped o rest, run ++ open_ = skipped ++ o :: rest ∧
        pairs open_ run (d :: ds) = ⟨o, d⟩ :: pairs rest [] ds) ∨
      ∃ open' run', run' ++ open' = run ++ open_ ∧
        pairs open_ run (d :: ds) = pairs open' (d :: run') ds := by
    cases hfound : (if d.closes then findOpener? d open' else none) with
    | none => exact .inr ⟨open', run', heq, hnone hfound⟩
    | some found =>
      obtain ⟨o, rest⟩ := found
      have hfind : findOpener? d open' = some (o, rest) := by
        cases hd : d.closes <;> simp_all
      obtain ⟨skipped, hs⟩ := findOpener?_spec hfind
      refine .inl ⟨run' ++ skipped, o, rest, ?_, hsome o rest hfound⟩
      rw [← heq, hs, List.append_assoc]
  -- only a mark right after the run and of its kind goes on with it
  cases run with
  | nil =>
    exact hstep open_ [] rfl (fun o rest h => by simp [pairs, h]) (fun h => by simp [pairs, h])
  | cons e run =>
    cases hc : (e.mark == d.mark && e.place + 1 == d.place) with
    | true =>
      exact hstep open_ (e :: run) rfl (fun o rest h => by simp [pairs, hc, h])
        (fun h => by simp [pairs, hc, h])
    | false =>
      exact hstep (e :: run ++ open_) [] rfl
        (fun o rest h => by rw [List.cons_append] at h; simp [pairs, hc, h])
        (fun h => by rw [List.cons_append] at h; simp [pairs, hc, h])

/-- **Matched pairs do not cross.** -/
theorem pairs_spec (hopen : (run ++ open_).Pairwise (fun a b => b.place < a.place))
    (hds : ds.Pairwise (fun a b => a.place < b.place))
    (hlt : ∀ o ∈ run ++ open_, ∀ d ∈ ds, o.place < d.place) :
    (∀ p ∈ pairs open_ run ds, (p.opener ∈ run ++ open_ ∨ p.opener ∈ ds) ∧ p.closer ∈ ds ∧
      p.opener.place < p.closer.place) ∧ (pairs open_ run ds).Pairwise Apart := by
  induction ds generalizing open_ run with
  | nil => exact ⟨nofun, .nil⟩
  | cons d ds ih =>
    rw [List.pairwise_cons] at hds
    rcases pairs_cons open_ run d ds with ⟨skipped, o, rest, hs, heq⟩ | ⟨open', run', hs, heq⟩
    · rw [heq]
      rw [hs] at hopen hlt ⊢
      have horest := (List.pairwise_append.mp hopen).2.1
      rw [List.pairwise_cons] at horest
      obtain ⟨hmem, hapart⟩ := @ih rest [] horest.2 hds.2 fun a ha b hb =>
        hlt a (List.mem_append_right _ (List.mem_cons_of_mem _ ha)) b (List.mem_cons_of_mem _ hb)
      have hod := hlt o (by simp) d List.mem_cons_self
      refine ⟨fun p hp => ?_, List.pairwise_cons.mpr ⟨fun p hp => ?_, hapart⟩⟩
      · rcases List.mem_cons.mp hp with rfl | hp
        · exact ⟨.inl (by simp), List.mem_cons_self, hod⟩
        · obtain ⟨h₁, h₂, h₃⟩ := hmem p hp
          refine ⟨?_, List.mem_cons_of_mem _ h₂, h₃⟩
          rcases h₁ with h₁ | h₁
          · exact .inl (by simp at h₁; simp [h₁])
          · exact .inr (List.mem_cons_of_mem _ h₁)
      · obtain ⟨h₁, h₂, h₃⟩ := hmem p hp
        have hdc := hds.1 _ h₂
        rcases h₁ with h₁ | h₁
        · exact .inr (.inr (.inr ⟨horest.1 _ h₁, hdc⟩))
        · exact .inl (hds.1 _ h₁)
    · rw [heq]
      have hsorted : ((d :: run') ++ open').Pairwise (fun a b => b.place < a.place) := by
        rw [List.cons_append, hs, List.pairwise_cons]
        exact ⟨fun a ha => hlt a ha d List.mem_cons_self, hopen⟩
      obtain ⟨hmem, hapart⟩ := ih hsorted hds.2 fun a ha b hb => by
        rw [List.cons_append, hs] at ha
        rcases List.mem_cons.mp ha with rfl | ha
        · exact hds.1 b hb
        · exact hlt a ha b (List.mem_cons_of_mem _ hb)
      refine ⟨fun p hp => ?_, hapart⟩
      obtain ⟨h₁, h₂, h₃⟩ := hmem p hp
      refine ⟨?_, List.mem_cons_of_mem _ h₂, h₃⟩
      rw [List.cons_append, hs] at h₁
      rcases h₁ with h₁ | h₁
      · rcases List.mem_cons.mp h₁ with h₁ | h₁
        · exact .inr (h₁ ▸ List.mem_cons_self)
        · exact .inl h₁
      · exact .inr (List.mem_cons_of_mem _ h₁)

/-! ### Turning marks into emphasis -/

/-- A pair that is entered later is closed before an earlier one is entered, or inside it. -/
def Nests (p q : Pair) : Prop :=
  q.closer.place < p.opener.place ∨
    q.opener.place < p.opener.place ∧ p.closer.place < q.closer.place

theorem sorted_pairs {ps : List Pair} (hlt : ∀ p ∈ ps, p.opener.place < p.closer.place)
    (h : ps.Pairwise Apart) :
    (ps.mergeSort fun p q => q.opener.place ≤ p.opener.place).Pairwise Nests := by
  have hsorted : (ps.mergeSort fun p q => q.opener.place ≤ p.opener.place).Pairwise fun p q =>
      decide (q.opener.place ≤ p.opener.place) = true :=
    List.pairwise_mergeSort (fun a b c => by simp; omega) (fun a b => by simp; omega) ps
  have hperm := List.mergeSort_perm ps fun p q => decide (q.opener.place ≤ p.opener.place)
  have hapart := (hperm.pairwise_iff (R := Apart) (fun {p q} h => by
    unfold Apart at *
    omega)).mpr h
  refine (hsorted.and hapart).imp_of_mem fun {p q} hp hq hpq => ?_
  have := hlt p (hperm.mem_iff.mp hp)
  have := hlt q (hperm.mem_iff.mp hq)
  have hle := of_decide_eq_true hpq.1
  have hap := hpq.2
  unfold Apart at hap
  unfold Nests
  omega

/-- The stream is neutral, and the marks of the pairs are still marks in it. -/
def Unresolved (es : List Event) (ps : List Pair) : Prop :=
  Neutral es ∧ ∀ p ∈ ps, IsMark es p.opener.place ∧ IsMark es p.closer.place

namespace Unresolved

variable {es : List Event} {p : Pair} {ps : List Pair}

theorem set {e : Event} {n : Nat} (h : Unresolved es ps) (hn : IsMark es n) (he : Neutral [e])
    (hne : ∀ p ∈ ps, p.opener.place ≠ n ∧ p.closer.place ≠ n) : Unresolved (es.set n e) ps :=
  ⟨hn.set he h.1, fun p hp =>
    ⟨(h.2 p hp).1.set_other hn he (hne p hp).1, (h.2 p hp).2.set_other hn he (hne p hp).2⟩⟩

/-- **A pair that is turned into a node leaves those it nests with as they were.** -/
theorem setPair (k : Kind) (h : Unresolved es (p :: ps))
    (hlt : p.opener.place < p.closer.place) (hnests : ∀ q ∈ ps, Nests p q)
    (hlts : ∀ q ∈ ps, q.opener.place < q.closer.place) :
    Unresolved ((es.set p.opener.place (.enter k none)).set p.closer.place (Event.leaving k))
      ps := by
  obtain ⟨ho, hc⟩ := h.2 p List.mem_cons_self
  refine ⟨ho.setPair k hc hlt h.1, fun q hq => ?_⟩
  obtain ⟨hqo, hqc⟩ := h.2 q (List.mem_cons_of_mem _ hq)
  have hnest := hnests q hq
  have hqlt := hlts q hq
  unfold Nests at hnest
  refine ⟨hqo.setPair_before k (by omega) hlt, ?_⟩
  rcases hnest with hbefore | ⟨-, hafter⟩
  · exact hqc.setPair_before k hbefore hlt
  · exact hqc.setPair_after k ho hc hlt hafter

theorem tail (h : Unresolved es (p :: ps)) : Unresolved es ps :=
  ⟨h.1, fun q hq => h.2 q (List.mem_cons_of_mem _ hq)⟩

end Unresolved

/-- The stream after marks have taken their roles. -/
def assign (rs : List (Nat × Role)) (es : List Event) : List Event :=
  rs.foldl (fun es (place, role) => es.set place role.event) es

theorem toList_resolve (ds : List Delimiter) (es : Array Event) :
    (resolve ds es).toList =
      assign (roles ((pairs [] [] ds).mergeSort fun p q => q.opener.place ≤ p.opener.place))
        es.toList := by
  rw [resolve]
  generalize roles _ = rs
  induction rs generalizing es with
  | nil => rfl
  | cons r rs ih =>
    rw [List.foldl_cons, ih, Array.toList_setIfInBounds]
    rfl

theorem neutral_text (t : String) : Neutral [.atom (.text t)] :=
  .leaf _ _ _

/-- **Assigning the roles of pairs that nest keeps a stream neutral.** -/
theorem assign_roles_neutral {es : List Event} {ps : List Pair} (h : Unresolved es ps)
    (hlt : ∀ p ∈ ps, p.opener.place < p.closer.place) (hnests : ps.Pairwise Nests) :
    Neutral (assign (roles ps) es) := by
  fun_induction roles ps generalizing es with
  | case1 => exact h.1
  | case2 p => exact (h.setPair .emphasis (hlt p List.mem_cons_self) nofun nofun).1
  | case3 p q ps haround ih =>
    simp only [List.mem_cons, forall_eq_or_imp, List.pairwise_cons] at hlt hnests
    obtain ⟨hp, hq, hlts⟩ := hlt
    obtain ⟨⟨hpq, hpps⟩, hqps, hpairs⟩ := hnests
    have h₁ := h.setPair .strong hp (by simpa using ⟨hpq, hpps⟩) (by simpa using ⟨hq, hlts⟩)
    obtain ⟨ho, hc⟩ := h₁.2 q List.mem_cons_self
    -- the marks around those of strong emphasis become empty texts
    have hne : ∀ r ∈ ps, r.opener.place ≠ q.opener.place ∧ r.closer.place ≠ q.opener.place ∧
        r.opener.place ≠ q.closer.place ∧ r.closer.place ≠ q.closer.place := by
      intro r hr
      have := hqps r hr
      have := hlts r hr
      unfold Nests at *
      omega
    have h₂ := h₁.tail.set ho (neutral_text "") fun r hr => ⟨(hne r hr).1, (hne r hr).2.1⟩
    have hc' := hc.set_other ho (neutral_text "") (Nat.ne_of_gt hq)
    exact ih (h₂.set hc' (neutral_text "") fun r hr => (hne r hr).2.2) hlts hpairs
  | case4 p q ps haround ih =>
    rw [List.pairwise_cons] at hnests
    have hlts := fun r hr => hlt r (List.mem_cons_of_mem p hr)
    exact ih (h.setPair .emphasis (hlt p List.mem_cons_self) hnests.1 hlts) hlts hnests.2

/-- **Turning matched marks into emphasis keeps a stream neutral.** -/
theorem resolve_neutral {ds : List Delimiter} {es : Array Event} (hes : Neutral es.toList)
    (hmarks : ∀ d ∈ ds, IsMark es.toList d.place)
    (hds : ds.Pairwise (fun a b => a.place < b.place)) : Neutral (resolve ds es).toList := by
  obtain ⟨hmem, hapart⟩ := @pairs_spec ds [] [] .nil hds nofun
  have hperm := List.mergeSort_perm (pairs [] [] ds) fun p q => q.opener.place ≤ p.opener.place
  have hmem' := fun p hp => hmem p (hperm.mem_iff.mp hp)
  rw [toList_resolve]
  refine assign_roles_neutral ⟨hes, fun p hp => ?_⟩ (fun p hp => (hmem' p hp).2.2)
    (sorted_pairs (fun p hp => (hmem p hp).2.2) hapart)
  obtain ⟨ho, hc, -⟩ := hmem' p hp
  rcases ho with ho | ho
  · cases ho
  · exact ⟨hmarks _ ho, hmarks _ hc⟩

/-! ### What the marks turn into -/

theorem mem_roles {ps : List Pair} {n : Nat} {role : Role} (h : (n, role) ∈ roles ps) :
    role ∈ [Role.enter .emphasis, .leave .emphasis, .enter .strong, .leave .strong,
      .nothing] := by
  fun_induction roles ps with
  | case1 => cases h
  | case2 p =>
    simp only [roles.single, List.mem_cons, Prod.mk.injEq] at h
    simp
    grind
  | case3 p q ps haround ih =>
    simp only [List.mem_cons, Prod.mk.injEq] at h
    simp at ih ⊢
    grind
  | case4 p q ps haround ih =>
    simp only [roles.single, List.mem_append, List.mem_cons, Prod.mk.injEq] at h
    simp at ih ⊢
    grind

theorem mem_assign {rs : List (Nat × Role)} {es : List Event} {e : Event}
    (h : e ∈ assign rs es) : e ∈ es ∨ ∃ n role, (n, role) ∈ rs ∧ e = role.event := by
  induction rs generalizing es with
  | nil => exact .inl h
  | cons r rs ih =>
    rcases ih h with h | ⟨n, role, hr, he⟩
    · rcases List.mem_or_eq_of_mem_set h with h | h
      · exact .inl h
      · exact .inr ⟨_, _, List.mem_cons_self, h⟩
    · exact .inr ⟨n, role, List.mem_cons_of_mem _ hr, he⟩

theorem mem_resolve {ds : List Delimiter} {es : Array Event} {e : Event}
    (h : e ∈ (resolve ds es).toList) : e ∈ es.toList ∨
      e ∈ [Event.enter .emphasis none, .leaving .emphasis, .enter .strong none, .leaving .strong,
        .atom (.text "")] := by
  rw [toList_resolve] at h
  rcases mem_assign h with h | ⟨n, role, hr, rfl⟩
  · exact .inl h
  · exact .inr (List.mem_map_of_mem (f := Role.event) (mem_roles hr))

end Inline.Delimiter

end MdxProse
