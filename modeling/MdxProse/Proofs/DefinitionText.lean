import MdxProse.Block.Definition
import MdxProse.Proofs.Alignment

/-!
# The last line of a definition

A text that ends without a line break holds the same link definition as the text with the break.
Most readers hand on the break with what they leave over (`Definition.Passes`).  The one that does
not is that of a bare target: a backslash at the end takes the break into the target, where it is
white space and goes away again.

* `Text.unescape_append`, `Link.normalizeUrl_append`: a line break at the end of an address does not
  count.
* `Definition.readTarget_append`: the break is left over, or else the target took it.
* `Definition.read?_append`: **the same definition is read, and the break is left over.**
-/

namespace MdxProse

section Line

variable {p : Char → Bool} {c : Char}

theorem takeWhile_concat (hc : p c = false) (w : List Char) :
    (w ++ [c]).takeWhile p = w.takeWhile p := by
  rw [List.takeWhile_append]
  split
  · next h =>
    rw [List.takeWhile_cons_of_neg (by simp [hc]), List.append_nil]
    exact ((List.takeWhile_prefix p).eq_of_length h).symm
  · rfl

theorem dropWhile_concat (hc : p c = false) (w : List Char) :
    (w ++ [c]).dropWhile p = w.dropWhile p ++ [c] := by
  rw [List.dropWhile_append]
  split
  · next h => rw [List.isEmpty_iff.mp h, List.dropWhile_cons_of_neg (by simp [hc]), List.nil_append]
  · rfl

end Line

theorem Link.before_append (w r u : List Char) : before (w ++ u) (r ++ u) = before w r := by
  rw [before, before, List.length_append, List.length_append, Nat.add_sub_add_right,
    List.take_append_of_le_length (Nat.sub_le _ _)]

/-! ### Addresses -/

theorem Text.referenceName?_append (w : List Char) :
    referenceName? (w ++ ['\n']) = (referenceName? w).map fun (n, r) => (n, r ++ ['\n']) := by
  cases w with
  | nil => rfl
  | cons c w =>
    rw [List.cons_append, referenceName?, referenceName?]
    by_cases hc : (c.isAlpha || c == '#') = true
    · rw [if_pos hc, if_pos hc, takeWhile_concat (by decide), dropWhile_concat (by decide)]
      cases w.dropWhile Char.isAlphanum with
      | nil => rfl
      | cons d r =>
        by_cases hd : d = ';'
        · subst hd
          simp only [List.cons_append]
          split <;> rfl
        · simp [hd]
    · rw [if_neg hc, if_neg hc]
      rfl

theorem Text.unescape_reference (r : List Char) : unescape ('&' :: r) =
    match referenceName? r with
    | some (name, rest) =>
      match targetReference? name with
      | some s => s ++ unescape rest
      | none => '&' :: unescape r
    | none => '&' :: unescape r := by
  rw [unescape]
  split
  · next h =>
    split
    · next hs => simp [h, hs]
    · next hs => simp [h, hs]
  · next h => simp [h]

theorem Text.unescape_append (w : List Char) : unescape (w ++ ['\n']) = unescape w ++ ['\n'] := by
  fun_induction unescape w with
  | case1 => simp [unescape]
  | case2 => simp [unescape, isAsciiPunctuation]
  | case3 c r hc ih => simp [unescape, hc, ih]
  | case4 c r hc ih =>
    rw [List.cons_append, List.cons_append, unescape, if_neg hc]
    exact congrArg _ ih
  | case5 r name rest h s hs ih =>
    simp [unescape_reference, referenceName?_append, h, hs, ih]
  | case6 r name rest h hs ih => simp [unescape_reference, referenceName?_append, h, hs, ih]
  | case7 r h ih => simp [unescape_reference, referenceName?_append, h, ih]
  | case8 c r h₁ h₂ h₃ ih =>
    have hc : c ≠ '\\' := by
      rintro rfl
      cases r with
      | nil => exact h₁ rfl rfl
      | cons d r => exact h₂ d r rfl rfl
    rw [List.cons_append, unescape.eq_5 _ _ (by simp [hc]) (by simp [hc]) h₃, ih, List.cons_append]

theorem Link.normalizeUrl_append (w : List Char) :
    normalizeUrl (w ++ ['\n']) = normalizeUrl w := by
  have htrim : Text.trim Text.isBlank (w ++ ['\n']) = Text.trim Text.isBlank w := by
    have hblank : ∀ c ∈ ['\n'], Text.isBlank c = true := List.forall_mem_singleton.mpr rfl
    rw [Text.trim, Text.trim, List.dropWhile_append]
    split
    · next h => rw [List.isEmpty_iff.mp h]; rfl
    · exact Text.trimEnd_white hblank
  rw [normalizeUrl, normalizeUrl, Url.read, htrim]
  rfl

/-! ### Labels, targets and titles -/

namespace Block.Definition

/-- A reader that leaves over a line break at the end. -/
def Passes (f : List Char → Option (List Char)) : Prop :=
  ∀ w, f (w ++ ['\n']) = (f w).map (· ++ ['\n'])

/-- Readers of labels, titles and targets in brackets step over what is escaped, up to the first
character that ends or bars them. -/
theorem passes_of_steps {f : List Char → Option (List Char)} {ends bars : Char → Bool}
    (hnil : f [] = none) (hlone : f ['\\'] = none) (hescape : ∀ c r, f ('\\' :: c :: r) = f r)
    (hcons : ∀ c r, c ≠ '\\' →
      f (c :: r) = if ends c then some r else if bars c then none else f r)
    (hbreak : ends '\n' = false) : Passes f := by
  have hlast : f ['\n'] = none := by
    rw [hcons _ _ (by decide), hbreak, if_neg Bool.false_ne_true, hnil, ite_self]
  intro w
  induction hk : w.length using Nat.strongRecOn generalizing w with
  | ind k ih =>
  subst hk
  match w with
  | [] => rw [List.nil_append, hlast, hnil, Option.map_none]
  | c :: r =>
    by_cases hc : c = '\\'
    · subst hc
      match r with
      | [] => rw [List.cons_append, List.nil_append, hescape, hnil, hlone, Option.map_none]
      | d :: r =>
        rw [List.cons_append, List.cons_append, hescape, hescape]
        exact ih r.length (by rw [List.length_cons, List.length_cons]; omega) r rfl
    · rw [List.cons_append, hcons _ _ hc, hcons _ _ hc, ih r.length (by simp) r rfl]
      split
      · rfl
      · split <;> rfl

theorem labelRest?_passes : Passes labelRest? :=
  passes_of_steps rfl rfl (fun _ _ => by rw [labelRest?])
    (fun c r hc => labelRest?.eq_3 c r (by simp [hc])) (by decide)

theorem angleRest?_passes : Passes Link.angleRest? :=
  passes_of_steps rfl rfl (fun _ _ => by rw [Link.angleRest?])
    (fun c r hc => Link.angleRest?.eq_3 c r (by simp [hc])) (by decide)

theorem titleRest?_passes {close : Char} (hbreak : close ≠ '\n') (hescape : close ≠ '\\') :
    Passes (Link.titleRest? close) :=
  passes_of_steps rfl (by simp [Link.titleRest?, hescape.symm]) (fun _ _ => by rw [Link.titleRest?])
    (fun c r hc => Link.titleRest?.eq_3 close c r (by simp [hc])) (by simpa using hbreak.symm)

theorem lineRest?_passes : Passes lineRest? := by
  intro w
  rw [lineRest?, lineRest?, dropWhile_concat (by decide)]
  cases w.dropWhile Text.isSpace with
  | nil => rfl
  | cons c r =>
    dsimp only [List.cons_append]
    split <;> rfl

theorem title?_append (w : List Char) :
    Link.title? (w ++ ['\n']) = (Link.title? w).map fun (t, r) => (t, r ++ ['\n']) := by
  cases w with
  | nil => rfl
  | cons c w =>
    rw [List.cons_append, Link.title?, Link.title?]
    by_cases hc : (c == '"' || c == '\'' || c == '(') = true
    · have hmark : c = '"' ∨ c = '\'' ∨ c = '(' := by simpa [or_assoc] using hc
      have hpass : Passes (Link.titleRest? (if c == '(' then ')' else c)) := by
        rcases hmark with rfl | rfl | rfl <;> exact titleRest?_passes (by decide) (by decide)
      rw [if_pos hc, if_pos hc, hpass w, Option.map_map, Option.map_map]
      congr 1
      funext r
      simp only [Function.comp, Link.before_append]
    · rw [if_neg hc, if_neg hc, Option.map_none]

theorem readTitle_append (w : List Char) :
    readTitle (w ++ ['\n']) = (readTitle w).map fun (t, r) => (t, r ++ ['\n']) := by
  have huntitled : (lineRest? (w ++ ['\n'])).map (([] : List Char), ·) =
      ((lineRest? w).map (([] : List Char), ·)).map fun (t, r) => (t, r ++ ['\n']) := by
    rw [lineRest?_passes w, Option.map_map, Option.map_map]
    rfl
  rw [readTitle, readTitle, huntitled]
  by_cases hgap : (w.takeWhile Text.isGap).length = w.length
  · have hw : w.takeWhile Text.isGap = w := (List.takeWhile_prefix _).eq_of_length hgap
    have hall : (w ++ ['\n']).takeWhile Text.isGap = w ++ ['\n'] := by
      rw [List.takeWhile_append, if_pos hgap]
      rfl
    rw [hall, hw, List.drop_length, List.drop_length]
    rfl
  · have hsame : (w ++ ['\n']).takeWhile Text.isGap = w.takeWhile Text.isGap := by
      rw [List.takeWhile_append, if_neg hgap]
    rw [hsame, List.drop_append_of_le_length (List.takeWhile_prefix _).length_le, title?_append]
    cases Link.title? (w.drop (w.takeWhile Text.isGap).length) with
    | none => rfl
    | some found =>
      obtain ⟨t, r⟩ := found
      dsimp only [Option.map_some]
      rw [lineRest?_passes r]
      split
      · rfl
      · cases lineRest? r with
        | some rest => rfl
        | none =>
          dsimp only [Option.map_none]
          split <;> rfl

/-- A bare target ends before a line break, or takes it in after a backslash at the end. -/
theorem bareRest?_append (depth : Nat) (w : List Char) :
    Link.bareRest? depth (w ++ ['\n']) = (Link.bareRest? depth w).map (· ++ ['\n']) ∨
      Link.bareRest? depth w = some [] ∧ Link.bareRest? depth (w ++ ['\n']) = some [] := by
  induction hk : w.length using Nat.strongRecOn generalizing w depth with
  | ind k ih =>
  subst hk
  match w with
  | [] =>
    left
    show (if depth = 0 then some ['\n'] else none) = (if depth = 0 then some [] else none).map _
    split <;> rfl
  | c :: r =>
    have hnext (depth : Nat) := ih r.length (Nat.lt_succ_self _) depth r rfl
    by_cases hc : c = '\\'
    · subst hc
      match r with
      | [] =>
        by_cases hdepth : depth = 0
        · exact .inr (by simp [Link.bareRest?, hdepth])
        · exact .inl (by simp [Link.bareRest?, hdepth])
      | d :: r =>
        rw [List.cons_append, List.cons_append, Link.bareRest?, Link.bareRest?]
        split
        · left
          split <;> rfl
        · exact ih r.length (Nat.lt_succ_of_lt (Nat.lt_succ_self _)) depth r rfl
    · rw [List.cons_append, Link.bareRest?.eq_3 _ _ _ (by simp [hc]),
        Link.bareRest?.eq_3 _ _ _ (by simp [hc])]
      split
      · left
        split <;> rfl
      · split
        · split
          · exact .inl rfl
          · exact hnext _
        · split
          · split
            · exact .inl rfl
            · exact hnext _
          · exact hnext _

/-- A target is read before a line break as at the end, or takes in the break. -/
theorem target?_append (w : List Char) :
    Link.target? (w ++ ['\n']) = (Link.target? w).map (fun (t, r) => (t, r ++ ['\n'])) ∨
      ∃ t, Link.target? w = some (t, []) ∧ Link.target? (w ++ ['\n']) = some (t ++ ['\n'], []) := by
  by_cases hangle : w.head? = some '<'
  · left
    obtain ⟨r, rfl⟩ := List.head?_eq_some_iff.mp hangle
    rw [List.cons_append, Link.target?, Link.target?, angleRest?_passes r, Option.map_map,
      Option.map_map]
    congr 1
    funext rest
    simp only [Function.comp, Link.before_append]
  · have hw (r : List Char) : w ≠ '<' :: r := by
      rintro rfl
      exact hangle rfl
    have hw' (r : List Char) : w ++ ['\n'] ≠ '<' :: r := by
      cases w with
      | nil => simp
      | cons c w => simpa using fun h => absurd (congrArg some h) hangle
    rw [Link.target?.eq_2 _ hw, Link.target?.eq_2 _ hw']
    rcases bareRest?_append 0 w with h | ⟨h, h'⟩
    · left
      rw [h]
      cases Link.bareRest? 0 w with
      | none => rfl
      | some r =>
        simp only [Option.map_some, List.length_append, Nat.add_right_cancel_iff,
          Link.before_append]
        split <;> rfl
    · have hne : w ≠ [] := by
        rintro rfl
        cases h'
      rw [h, h']
      have hlen : w.length ≠ 0 := fun h => hne (List.eq_nil_of_length_eq_zero h)
      refine .inr ⟨w, by simp [Link.before, hlen.symm], ?_⟩
      simp [Link.before, List.take_of_length_le]

/-- **The target of a definition is read before a line break as at the end**, but for the break
itself, which it may take in. -/
theorem readTarget_append (w : List Char) :
    readTarget (w ++ ['\n']) = (readTarget w).map (fun (t, u, r) => (t, u, r ++ ['\n'])) ∨
      ∃ t r, readTarget w = some (t, [], r) ∧
        readTarget (w ++ ['\n']) = some (t ++ ['\n'], [], r ++ ['\n']) := by
  rw [readTarget, readTarget, List.dropWhile_append]
  split
  · next hempty =>
    left
    rw [List.isEmpty_iff.mp hempty]
    rfl
  generalize w.dropWhile Text.isGap = w
  rw [takeWhile_concat (by decide), dropWhile_concat (by decide)]
  cases w.dropWhile (· != '\n') with
  | cons c below =>
    -- the line of the target ends with a break of its own
    left
    simp only [List.cons_append, List.take_succ_cons, List.take_zero, List.drop_one, List.tail_cons]
    cases Link.target? (w.takeWhile (· != '\n') ++ [c]) with
    | none => rfl
    | some found =>
      obtain ⟨t, after⟩ := found
      dsimp only [Option.bind_eq_bind, Option.bind_some]
      split
      · rfl
      · rw [← List.append_assoc, readTitle_append, Option.bind_map, Option.map_bind]
        rfl
  | nil =>
    simp only [List.nil_append, List.take_succ_cons, List.take_nil, List.drop_one, List.tail_cons,
      List.tail_nil, List.append_nil]
    rcases target?_append (w.takeWhile (· != '\n')) with h | ⟨t, h, h'⟩
    · left
      rw [h]
      cases Link.target? (w.takeWhile (· != '\n')) with
      | none => rfl
      | some found =>
        obtain ⟨t, after⟩ := found
        cases after with
        | nil => rfl
        | cons d after =>
          dsimp only [Option.map_some, Option.bind_eq_bind, Option.bind_some, List.cons_append,
            List.isEmpty_cons]
          rw [if_neg Bool.false_ne_true, if_neg Bool.false_ne_true, ← List.cons_append,
            readTitle_append, Option.bind_map, Option.map_bind]
          rfl
    · right
      rw [h, h']
      exact ⟨t, [], rfl, rfl⟩

theorem read?_colon {w r : List Char} (h : labelRest? w = some (':' :: r)) : read? ('[' :: w) =
    (readTarget r).bind fun (target, title, rest) =>
      let href := Link.normalizeUrl (Text.unescape target)
      let label := Link.normalizeLabel ((Link.before w (':' :: r)).dropLast)
      if Link.isSafe href && !label.isEmpty then
        some (⟨label, String.ofList href, String.ofList (Text.unescape title)⟩, rest)
      else none := by
  rw [read?, h]
  rfl

theorem read?_eq_none {w : List Char} (h : ∀ r, labelRest? w ≠ some (':' :: r)) :
    read? ('[' :: w) = none := by
  rw [read?]
  cases hr : labelRest? w with
  | none => rfl
  | some r =>
    dsimp only [Option.bind_eq_bind, Option.bind_some]
    split
    · next r' => exact absurd hr (h r')
    · rfl

/-- **A definition is read before a line break as at the end**: the break is left over. -/
theorem read?_append (w : List Char) :
    read? (w ++ ['\n']) = (read? w).map fun (d, r) => (d, r ++ ['\n']) := by
  by_cases hopen : w.head? ≠ some '['
  · have hnone {u : List Char} (hu : u.head? ≠ some '[') : read? u = none := by
      rw [read?]
      rintro v rfl
      exact hu rfl
    rw [hnone hopen, hnone]
    · rfl
    · cases w with
      | nil => simp
      | cons c w => exact hopen
  obtain ⟨w, rfl⟩ := List.head?_eq_some_iff.mp (Classical.not_not.mp hopen)
  have hlabel := labelRest?_passes w
  have hmap (safe : Bool) (d : Block.Definition) (r : List Char) :
      (if safe then some (d, r ++ ['\n']) else none) =
        (if safe then some (d, r) else none).map fun (d, r) => (d, r ++ ['\n']) := by
    cases safe <;> rfl
  rw [List.cons_append]
  by_cases hcolon : ∃ r, labelRest? w = some (':' :: r)
  · obtain ⟨r, hr⟩ := hcolon
    rw [hr, Option.map_some, List.cons_append] at hlabel
    have hbefore : Link.before (w ++ ['\n']) (':' :: (r ++ ['\n'])) = Link.before w (':' :: r) :=
      Link.before_append w (':' :: r) ['\n']
    rw [read?_colon hr, read?_colon hlabel, hbefore]
    rcases readTarget_append r with h | ⟨t, rest, h, h'⟩
    · rw [h]
      cases readTarget r with
      | none => rfl
      | some found =>
        dsimp only [Option.map_some, Option.bind_some]
        exact hmap _ _ _
    · rw [h, h']
      dsimp only [Option.bind_some]
      rw [Text.unescape_append, Link.normalizeUrl_append]
      exact hmap _ _ _
  · rw [read?_eq_none fun r hr => hcolon ⟨r, hr⟩, read?_eq_none]
    · rfl
    · intro r hr
      rw [hr, eq_comm, Option.map_eq_some_iff] at hlabel
      obtain ⟨v, hv, hr'⟩ := hlabel
      cases v with
      | nil => simp at hr'
      | cons c v =>
        cases (List.cons.inj hr').1
        exact hcolon ⟨v, hv⟩

end Block.Definition

end MdxProse
