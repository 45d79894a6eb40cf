import MdxProse.Proofs.TagLocality

/-!
# Tags without attributes

`Sign` is a tag as it is written when it has no attributes, and its name is a word of letters.

* `Text.of_isAlpha`, `Text.of_isPlain`: what holds of all letters, or of all characters of plain
  text, is checked one by one.
* `Sign.spells`: **a sign is read as the tag that it means**, before every text.
* `Sign.scan?_eq`: so it is found where it stands.
-/

namespace MdxProse

/-! ### Plain characters -/

theorem Text.toNat_lt_of_isAlpha {c : Char} (h : c.isAlpha = true) : c.toNat < 128 := by
  change (decide (c.val ≥ 'A'.val ∧ c.val ≤ 'Z'.val) ||
    decide (c.val ≥ 'a'.val) && decide (c.val ≤ 'z'.val)) = true at h
  simp only [Bool.or_eq_true, Bool.and_eq_true, decide_eq_true_eq, UInt32.le_iff_toNat_le,
    ge_iff_le] at h
  change (65 ≤ c.toNat ∧ c.toNat ≤ 90) ∨ (97 ≤ c.toNat ∧ c.toNat ≤ 122) at h
  omega

/-- What holds of all characters with small codes can be checked one by one. -/
theorem Text.of_toNat_lt {p : Char → Bool} (h : ((List.range 128).map Char.ofNat).all p = true)
    {c : Char} (hc : c.toNat < 128) : p c = true :=
  List.all_eq_true.mp h c
    (List.mem_map.mpr ⟨c.toNat, List.mem_range.mpr hc, Char.ofNat_toNat c⟩)

theorem Text.of_isAlpha {p : Char → Bool}
    (h : ((List.range 128).map Char.ofNat).all (fun c => !c.isAlpha || p c) = true) {c : Char}
    (hc : c.isAlpha = true) : p c = true := by
  simpa [hc] using of_toNat_lt h (toNat_lt_of_isAlpha hc)

/-- Letters, white space, and what tags without attributes are written with. -/
def Text.isPlain (c : Char) : Bool :=
  c.isAlpha || [' ', '\t', '\n', '<', '/', '>'].contains c

theorem Text.of_isPlain {p : Char → Bool}
    (h : ((List.range 128).map Char.ofNat).all (fun c => !isPlain c || p c) = true) {c : Char}
    (hc : isPlain c = true) : p c = true := by
  have hlt : c.toNat < 128 := by
    have hmarks : [' ', '\t', '\n', '<', '/', '>'].all (fun d => d.toNat < 128) = true := rfl
    rw [isPlain, Bool.or_eq_true, List.contains_iff_mem] at hc
    rcases hc with hc | hc
    · exact toNat_lt_of_isAlpha hc
    · exact of_decide_eq_true (List.all_eq_true.mp hmarks c hc)
  simpa [hc] using of_toNat_lt h hlt

theorem Name.isPart_of_isAlpha {c : Char} (h : c.isAlpha = true) : isPart c = true :=
  Text.of_isAlpha (by decide +kernel) h

/-- A word: letters, at least one. -/
structure Word where
  letters : List Char
  ne_nil : letters ≠ []
  isAlpha : ∀ c ∈ letters, c.isAlpha = true

/-- A tag without attributes.  One without a name is half of a fragment. -/
inductive Sign
  | opening (name : Option Word)
  | closing (name : Option Word)
  | single (name : Word)

namespace Sign

/-- The letters of a name. -/
def letters (name : Option Word) : List Char :=
  (name.map (·.letters)).getD []

/-- How the tag is written. -/
def spell : Sign → List Char
  | opening name => '<' :: (letters name ++ ['>'])
  | closing name => '<' :: '/' :: (letters name ++ ['>'])
  | single name => '<' :: (name.letters ++ ['/', '>'])

/-- The name of the tag. -/
def name? : Sign → Option String
  | opening name => name.map fun w => String.ofList w.letters
  | closing name => name.map fun w => String.ofList w.letters
  | single name => some (String.ofList name.letters)

/-- The form of the tag. -/
def form : Sign → TagForm
  | opening _ => .opening
  | closing _ => .closing
  | single _ => .selfClosing

/-- The tag that the sign is when it stands at `pos`. -/
def tagAt (s : Sign) (pos : Nat) : Tag :=
  ⟨s.name?, ⟨pos, pos + s.spell.length⟩, s.form⟩

/-! ### Reading signs -/

theorem rest?_letters (w : Word) {x : List Char} (hx : Name.Ends x) :
    Name.rest? (w.letters ++ x) = some x := by
  obtain ⟨c, r, hw⟩ := List.exists_cons_of_ne_nil w.ne_nil
  have halpha := w.isAlpha
  rw [hw] at halpha ⊢
  obtain ⟨hc, hr⟩ := List.forall_mem_cons.mp halpha
  have hdrop : (r ++ x).dropWhile Name.isPart = x := by
    rw [List.dropWhile_append_of_pos fun d hd => Name.isPart_of_isAlpha (hr d hd)]
    cases x with
    | nil => rfl
    | cons d x => rw [List.dropWhile_cons_of_neg (by simpa using (hx d rfl).1)]
  rw [Name.rest?, List.cons_append, Name.part?, if_pos (by simp [Name.isStart, hc]), hdrop,
    Option.map_some, Name.members_of_ends hx]

/-- After a word, a tag goes on as it does after its name. -/
theorem body?_letters (w : Word) {closing : Bool} {x r : List Char} {f : TagForm}
    (hx : Name.Ends x) (h : Tag.tail? closing false x = some (f, r)) :
    Tag.body? closing (w.letters ++ x) = some (some (String.ofList w.letters), f, r) := by
  unfold Tag.body?
  rw [rest?_letters w hx]
  dsimp only
  rw [h, Option.map_some, List.length_append, Nat.add_sub_cancel, List.take_left]

theorem body?_name (name : Option Word) (closing : Bool) (x : List Char) :
    Tag.body? closing (letters name ++ '>' :: x) =
      some (name.map fun w => String.ofList w.letters,
        if closing then .closing else .opening, x) := by
  cases name with
  | none =>
    have hnone : Name.rest? ('>' :: x) = none := rfl
    have htail : Tag.tail? closing true ('>' :: x) = _ := Tag.tail?_gt rfl
    show Tag.body? closing ('>' :: x) = _
    rw [Tag.body?, hnone]
    dsimp only
    rw [htail]
    rfl
  | some w =>
    refine body?_letters w (fun c hc => ?_) (Tag.tail?_gt rfl)
    cases hc
    exact ⟨by decide, by decide⟩

theorem read?_lt {r : List Char} (h : r.head? ≠ some '/') :
    Tag.read? ('<' :: r) = Tag.body? false r := by
  unfold Tag.read?
  split
  · next heq => exact absurd (by rw [(List.cons.inj heq).2]; rfl) h
  · next heq => rw [(List.cons.inj heq).2]
  · next hne => exact absurd rfl (hne r)

theorem head?_word_ne (w : Word) (x : List Char) : (w.letters ++ x).head? ≠ some '/' := by
  obtain ⟨c, r, hw⟩ := List.exists_cons_of_ne_nil w.ne_nil
  have hc := w.isAlpha c (by rw [hw]; exact List.mem_cons_self)
  rw [hw]
  rintro ⟨⟩
  exact absurd hc (by decide)

theorem head?_letters_ne (name : Option Word) (x : List Char) :
    (letters name ++ '>' :: x).head? ≠ some '/' := by
  cases name with
  | none => simp [letters]
  | some w => exact head?_word_ne w _

/-- **A sign is read as the tag that it means**, before every text. -/
theorem spells (s : Sign) : Tag.Spells s.spell s.name? s.form := by
  refine ⟨?_, fun x => ?_⟩
  · cases s <;> simp [spell, List.getLast?_cons]
  · cases s with
    | opening name =>
      have := body?_name name false x
      rw [← read?_lt (head?_letters_ne name x)] at this
      simpa [spell, name?, form] using this
    | closing name =>
      have := body?_name name true x
      simpa [spell, name?, form, Tag.read?] using this
    | single w =>
      have htail : Tag.tail? false false ('/' :: '>' :: x) = some (.selfClosing, x) := by
        rw [@Tag.tail?_slash _ _ _ ('>' :: x) rfl]
        rfl
      have := body?_letters w (fun c hc => ?_) htail
      · rw [← read?_lt (head?_word_ne w _)] at this
        simpa [spell, name?, form] using this
      · cases hc
        exact ⟨by decide, by decide⟩

theorem of_mem_spell {s : Sign} {c : Char} (h : c ∈ s.spell) :
    c.isAlpha = true ∨ c = '<' ∨ c = '/' ∨ c = '>' := by
  have hname {name : Option Word} (hc : c ∈ letters name) : c.isAlpha = true := by
    cases name with
    | none => cases hc
    | some w => exact w.isAlpha c hc
  cases s with
  | opening name =>
    simp only [spell, List.mem_cons, List.mem_append, List.not_mem_nil, or_false] at h
    rcases h with h | h | h
    · exact .inr (.inl h)
    · exact .inl (hname h)
    · exact .inr (.inr (.inr h))
  | closing name =>
    simp only [spell, List.mem_cons, List.mem_append, List.not_mem_nil, or_false] at h
    rcases h with h | h | h | h
    · exact .inr (.inl h)
    · exact .inr (.inr (.inl h))
    · exact .inl (hname h)
    · exact .inr (.inr (.inr h))
  | single w =>
    simp only [spell, List.mem_cons, List.mem_append, List.not_mem_nil, or_false] at h
    rcases h with h | h | h | h
    · exact .inr (.inl h)
    · exact .inl (w.isAlpha c h)
    · exact .inr (.inr (.inl h))
    · exact .inr (.inr (.inr h))

theorem isPlain_of_mem {s : Sign} {c : Char} (h : c ∈ s.spell) : Text.isPlain c = true := by
  rcases of_mem_spell h with h | rfl | rfl | rfl
  · rw [Text.isPlain, h, Bool.true_or]
  · decide
  · decide
  · decide

theorem exists_spell_eq (s : Sign) : ∃ u, s.spell = u ++ ['>'] := by
  cases s with
  | opening name => exact ⟨'<' :: letters name, rfl⟩
  | closing name => exact ⟨'<' :: '/' :: letters name, rfl⟩
  | single w => exact ⟨'<' :: (w.letters ++ ['/']), by simp [spell]⟩

theorem length_spell_pos (s : Sign) : 0 < s.spell.length := by
  cases s <;> simp [spell]

/-- **A sign is found where it stands.** -/
theorem scan?_eq {src : Source} {pos limit : Nat} {s : Sign} (h : src.HasAt pos s.spell)
    (hle : pos + s.spell.length ≤ limit) : Tag.scan? src pos limit = some (s.tagAt pos) :=
  Tag.scan?_eq_some_iff.mpr ⟨s.spell, s.spells, h, hle, rfl⟩

end Sign

end MdxProse
