import ConstFold.Operator

/-!
# The order and the length of texts

Texts are compared unit by unit. The units of one character are never the beginning of those of
another, so two texts compare as the first characters at which they differ. This is the order of
their scalar values but for one case (`Text.Reordered`): a character written as a pair of surrogates
comes before the characters from U+E000 to U+FFFF, although its scalar value is larger.

The main statement, `Operator.compareTo_texts`, is that comparing texts is a total order with these
properties, that joining texts keeps it, and that the length of a joined text is the exact sum.
-/

set_option autoImplicit false

namespace ConstFold

namespace Text

/-- The scalar values of a text, in order. -/
def scalars (text : String) : List Nat :=
  text.toList.map Char.toNat

/-- The length of a text: a character counts once, and once more if it is beyond the basic plane. -/
def measure (text : String) : Nat :=
  text.length + text.toList.countP fun c => 0x10000 ≤ c.toNat

/-- One character is beyond the basic plane and the other is one of those that its surrogates come
before. -/
def Crossed (x y : Char) : Prop :=
  (0x10000 ≤ x.toNat ∧ 0xE000 ≤ y.toNat ∧ y.toNat < 0x10000) ∨
    (0x10000 ≤ y.toNat ∧ 0xE000 ≤ x.toNat ∧ x.toNat < 0x10000)

instance (x y : Char) : Decidable (Crossed x y) :=
  inferInstanceAs (Decidable ((0x10000 ≤ x.toNat ∧ 0xE000 ≤ y.toNat ∧ y.toNat < 0x10000) ∨
    (0x10000 ≤ y.toNat ∧ 0xE000 ≤ x.toNat ∧ x.toNat < 0x10000)))

/-- Two texts that first differ at the characters `x` and `y`. -/
def FirstDiffer (a b : String) (x y : Char) : Prop :=
  x ≠ y ∧ ∃ shared rest rest', a.toList = shared ++ x :: rest ∧ b.toList = shared ++ y :: rest'

/-- Two texts that the order of units and the order of scalar values arrange differently. -/
def Reordered (a b : String) : Prop :=
  ∃ x y, FirstDiffer a b x y ∧ Crossed x y

/-! ## The units of characters -/

/-- Surrogates are not characters. -/
theorem toNat_valid (c : Char) : c.toNat < 0xD800 ∨ (0xDFFF < c.toNat ∧ c.toNat < 0x110000) :=
  c.valid

/-- Every character has a unit. -/
theorem charUnits_ne_nil (c : Char) : charUnits c ≠ [] := by
  unfold charUnits
  split <;> simp

/-- Lists with a common start compare as what follows. -/
theorem compare_append_left (shared rest rest' : List Nat) :
    compare (shared ++ rest) (shared ++ rest') = compare rest rest' := by
  induction shared with
  | nil => rfl
  | cons unit shared ih => simp [List.compare_cons_cons, ih]

/-- Whether two characters are crossed does not depend on their order. -/
theorem Crossed.symm {x y : Char} (h : Crossed x y) : Crossed y x := Or.symm h

/-- Lists that differ at the start compare as their first entries. -/
theorem compare_cons_of_lt {unit unit' : Nat} (h : unit < unit') (rest rest' : List Nat) :
    compare (unit :: rest) (unit' :: rest') = .lt := by
  rw [List.compare_cons_cons, Nat.compare_eq_lt.2 h]
  rfl

/-- A character comes before another, whatever follows them, if its scalar value is smaller and the
two are not crossed, or larger and they are. -/
theorem compare_charUnits_append_eq_lt {x y : Char}
    (h : (Crossed x y ∧ y.toNat < x.toNat) ∨ (¬ Crossed x y ∧ x.toNat < y.toNat))
    (rest rest' : List Nat) :
    compare (charUnits x ++ rest) (charUnits y ++ rest') = .lt := by
  have hx := toNat_valid x
  have hy := toNat_valid y
  unfold Crossed at h
  by_cases hxPlane : x.toNat < 0x10000
  · by_cases hyPlane : y.toNat < 0x10000
    · simp only [charUnits, hxPlane, hyPlane, if_true, List.singleton_append]
      exact compare_cons_of_lt (by omega) rest rest'
    · simp only [charUnits, hxPlane, hyPlane, if_true, if_false, List.cons_append, List.nil_append]
      exact compare_cons_of_lt (by omega) _ _
  · by_cases hyPlane : y.toNat < 0x10000
    · simp only [charUnits, hxPlane, hyPlane, if_true, if_false, List.cons_append, List.nil_append]
      exact compare_cons_of_lt (by omega) _ _
    · have hlt : x.toNat < y.toNat := by omega
      simp only [charUnits, hxPlane, hyPlane, if_false, List.cons_append, List.nil_append]
      -- The first surrogates may agree, then the second ones decide.
      rcases Nat.lt_or_ge ((x.toNat - 0x10000) / 0x400) ((y.toNat - 0x10000) / 0x400) with
        hhigh | hhigh
      · exact compare_cons_of_lt (by omega) _ _
      · have heq : (x.toNat - 0x10000) / 0x400 = (y.toNat - 0x10000) / 0x400 := by omega
        rw [heq, List.compare_cons_cons, compare_cons_of_lt (by omega) _ _]
        simp

/-- The units of two different characters decide whatever follows them. -/
theorem compare_charUnits_append {x y : Char} (hne : x ≠ y) (rest rest' : List Nat) :
    compare (charUnits x ++ rest) (charUnits y ++ rest') =
      if Crossed x y then (compare x.toNat y.toNat).swap else compare x.toNat y.toNat := by
  have hnat : x.toNat ≠ y.toNat := fun h => hne (Char.toNat_inj.1 h)
  rcases Nat.lt_or_gt_of_ne hnat with hlt | hgt
  · rw [Nat.compare_eq_lt.2 hlt]
    by_cases hswap : Crossed x y
    · rw [if_pos hswap, Std.OrientedOrd.eq_swap,
        compare_charUnits_append_eq_lt (.inl ⟨hswap.symm, hlt⟩)]
    · rw [if_neg hswap, compare_charUnits_append_eq_lt (.inr ⟨hswap, hlt⟩)]
  · rw [Nat.compare_eq_gt.2 hgt]
    by_cases hswap : Crossed x y
    · rw [if_pos hswap, compare_charUnits_append_eq_lt (.inl ⟨hswap, hgt⟩)]
      rfl
    · rw [if_neg hswap, Std.OrientedOrd.eq_swap,
        compare_charUnits_append_eq_lt (.inr ⟨fun h => hswap h.symm, hgt⟩)]
      rfl

/-! ## Texts -/

/-- Of two texts one begins with the other, or they first differ at two characters. -/
theorem exists_append_or_differ (left right : List Char) :
    (∃ rest, right = left ++ rest) ∨ (∃ rest, left = right ++ rest) ∨
      ∃ x y shared rest rest', x ≠ y ∧ left = shared ++ x :: rest ∧
        right = shared ++ y :: rest' := by
  induction left generalizing right with
  | nil => exact .inl ⟨right, rfl⟩
  | cons x left ih =>
    cases right with
    | nil => exact .inr (.inl ⟨x :: left, rfl⟩)
    | cons y right =>
      by_cases hxy : x = y
      · subst hxy
        rcases ih right with ⟨rest, rfl⟩ | ⟨rest, rfl⟩ | ⟨u, v, shared, rest, rest', hne, rfl, rfl⟩
        · exact .inl ⟨rest, rfl⟩
        · exact .inr (.inl ⟨rest, rfl⟩)
        · exact .inr (.inr ⟨u, v, x :: shared, rest, rest', hne, rfl, rfl⟩)
      · exact .inr (.inr ⟨x, y, [], left, right, hxy, rfl, rfl⟩)

/-- Texts that first differ at two characters compare as these do. -/
theorem FirstDiffer.compareUnits_eq {a b : String} {x y : Char} (h : FirstDiffer a b x y) :
    compareUnits a b = if Crossed x y then (compare (scalars a) (scalars b)).swap
      else compare (scalars a) (scalars b) := by
  obtain ⟨hne, shared, rest, rest', ha, hb⟩ := h
  have hnat : x.toNat ≠ y.toNat := fun h => hne (Char.toNat_inj.1 h)
  have hscalars : compare (scalars a) (scalars b) = compare x.toNat y.toNat := by
    simp only [scalars, ha, hb, List.map_append, List.map_cons, compare_append_left,
      List.compare_cons_cons]
    cases hcompare : compare x.toNat y.toNat with
    | eq => exact absurd (Nat.compare_eq_eq.1 hcompare) hnat
    | lt => rfl
    | gt => rfl
  simp only [hscalars, compareUnits, units, ha, hb, List.flatMap_append, List.flatMap_cons,
    compare_append_left]
  exact compare_charUnits_append hne _ _

/-- A text and a beginning of it compare alike in both orders. -/
theorem compareUnits_eq_of_append {a b : String} {rest : List Char}
    (h : b.toList = a.toList ++ rest) :
    compareUnits a b = compare (scalars a) (scalars b) := by
  have hunits : compareUnits a b = compare [] (rest.flatMap charUnits) := by
    have happend := compare_append_left (a.toList.flatMap charUnits) [] (rest.flatMap charUnits)
    simpa only [compareUnits, units, h, List.flatMap_append, List.append_nil] using happend
  have hscalars : compare (scalars a) (scalars b) = compare [] (rest.map Char.toNat) := by
    have happend := compare_append_left (a.toList.map Char.toNat) [] (rest.map Char.toNat)
    simpa only [scalars, h, List.map_append, List.append_nil] using happend
  rw [hunits, hscalars]
  cases rest with
  | nil => rfl
  | cons c rest =>
    obtain ⟨unit, more, hunit⟩ := List.exists_cons_of_ne_nil (charUnits_ne_nil c)
    simp [hunit]

/-- The two orders agree but for texts that are reordered. -/
theorem compareUnits_eq_of_not_reordered {a b : String} (h : ¬ Reordered a b) :
    compareUnits a b = compare (scalars a) (scalars b) := by
  rcases exists_append_or_differ a.toList b.toList with
    ⟨rest, hb⟩ | ⟨rest, ha⟩ | ⟨x, y, shared, rest, rest', hne, ha, hb⟩
  · exact compareUnits_eq_of_append hb
  · rw [compareUnits, Std.OrientedOrd.eq_swap, ← compareUnits, compareUnits_eq_of_append ha]
    exact Std.OrientedOrd.eq_swap.symm
  · have hdiffer : FirstDiffer a b x y := ⟨hne, shared, rest, rest', ha, hb⟩
    rw [hdiffer.compareUnits_eq, if_neg fun hcrossed => h ⟨x, y, hdiffer, hcrossed⟩]

/-- A text is determined by its scalar values. -/
theorem scalars_injective {a b : String} (h : scalars a = scalars b) : a = b := by
  have hlist : a.toList = b.toList :=
    (List.map_inj_right fun _ _ hnat => Char.toNat_inj.1 hnat).1 h
  exact String.toList_injective hlist

/-- Reordered texts are reversed, and they do differ. -/
theorem Reordered.compareUnits_eq {a b : String} (h : Reordered a b) :
    compareUnits a b = (compare (scalars a) (scalars b)).swap ∧ a ≠ b := by
  obtain ⟨x, y, hdiffer, hcrossed⟩ := h
  refine ⟨by rw [hdiffer.compareUnits_eq, if_pos hcrossed], ?_⟩
  rintro rfl
  obtain ⟨hne, shared, rest, rest', ha, hb⟩ := hdiffer
  rw [ha] at hb
  simp only [List.append_cancel_left_eq, List.cons.injEq] at hb
  exact hne hb.1

/-- The units of a text determine it. -/
theorem compareUnits_eq_eq_iff {a b : String} : compareUnits a b = .eq ↔ a = b := by
  constructor
  · intro h
    by_cases hreordered : Reordered a b
    · rw [hreordered.compareUnits_eq.1, Ordering.swap_eq_eq] at h
      exact scalars_injective (Std.LawfulEqOrd.eq_of_compare h)
    · rw [compareUnits_eq_of_not_reordered hreordered] at h
      exact scalars_injective (Std.LawfulEqOrd.eq_of_compare h)
  · rintro rfl
    exact Std.ReflOrd.compare_self

/-- The two orders agree on all other texts, and on no reordered ones. -/
theorem compareUnits_eq_scalars_iff {a b : String} :
    compareUnits a b = compare (scalars a) (scalars b) ↔ ¬ Reordered a b := by
  refine ⟨fun h hreordered => ?_, compareUnits_eq_of_not_reordered⟩
  obtain ⟨hswap, hne⟩ := hreordered.compareUnits_eq
  rw [h] at hswap
  have hscalars : compare (scalars a) (scalars b) = .eq := by
    cases hcompare : compare (scalars a) (scalars b) <;> rw [hcompare] at hswap <;> simp at hswap
  exact hne (compareUnits_eq_eq_iff.1 (h.trans hscalars))

/-- Comparing the other way round gives the opposite. -/
theorem compareUnits_swap (a b : String) : compareUnits b a = (compareUnits a b).swap :=
  Std.OrientedOrd.eq_swap

/-- Texts with a common start compare as what follows. -/
theorem compareUnits_append_left (shared a b : String) :
    compareUnits (shared ++ a) (shared ++ b) = compareUnits a b := by
  simp only [compareUnits, units_append, compare_append_left]

/-- The order is transitive, and strict as soon as one of the two steps is. -/
theorem compareUnits_trans {a b c : String} (hab : (compareUnits a b).isLE = true)
    (hbc : (compareUnits b c).isLE = true) :
    (compareUnits a c).isLE = true ∧
      (compareUnits a c = .eq → compareUnits a b = .eq ∧ compareUnits b c = .eq) := by
  refine ⟨Std.TransOrd.isLE_trans hab hbc, fun hac => ?_⟩
  obtain rfl := compareUnits_eq_eq_iff.1 hac
  -- Both texts come before each other, so neither does so strictly.
  rw [compareUnits_swap a b] at hbc ⊢
  cases hcompare : compareUnits a b <;> simp_all

/-- A character has one unit, and one more if it is beyond the basic plane. -/
theorem length_charUnits (c : Char) :
    (charUnits c).length = 1 + if 0x10000 ≤ c.toNat then 1 else 0 := by
  unfold charUnits
  by_cases hplane : c.toNat < 0x10000
  · simp [hplane]
  · simp [hplane, Nat.le_of_not_lt hplane]

/-- The number of units is the measure of the text. -/
theorem unitCount_eq_measure (text : String) : unitCount text = measure text := by
  have hcount : ∀ characters : List Char, (characters.flatMap charUnits).length =
      characters.length + characters.countP fun c => 0x10000 ≤ c.toNat := by
    intro characters
    induction characters with
    | nil => rfl
    | cons c rest ih =>
      simp only [List.flatMap_cons, List.length_append, length_charUnits, ih, List.length_cons,
        List.countP_cons, decide_eq_true_eq]
      omega
  rw [unitCount, units, hcount, measure, String.length_toList]

end Text

namespace Operator

open Text

/-- Comparing two texts gives this integer. -/
def Compares (a b : String) (sign : Int64) : Prop :=
  compareTo.apply [.str a, .str b] = .ok (.int sign)

/-- The integer that stands for an ordering. -/
def signValue : Ordering → Int64
  | .lt => -1
  | .eq => 0
  | .gt => 1

/-- The constant for an ordering is the integer that stands for it. -/
theorem signOf_eq_int_iff {ordering : Ordering} {sign : Int64} :
    signOf ordering = .int sign ↔ signValue ordering = sign := by
  cases ordering <;> simp [signOf, signValue]

/-- Comparing texts gives the integer for the order of their units. -/
theorem compares_iff {a b : String} {sign : Int64} :
    Compares a b sign ↔ signValue (compareUnits a b) = sign := by
  rw [← signOf_eq_int_iff]
  simp [Compares, apply, row?, onTexts?]

/-- Different orderings have different integers. -/
theorem signValue_inj {left right : Ordering} :
    signValue left = signValue right ↔ left = right := by
  cases left <;> cases right <;> decide

/-- The opposite ordering has the negated integer. -/
theorem signValue_swap (ordering : Ordering) : signValue ordering.swap = -signValue ordering := by
  cases ordering <;> decide

/-- The integer is at most zero for what does not come after. -/
theorem signValue_le_zero_iff {ordering : Ordering} :
    signValue ordering ≤ 0 ↔ ordering.isLE = true := by
  cases ordering <;> decide

/-- The integer is zero for the same only. -/
theorem signValue_eq_zero_iff {ordering : Ordering} : signValue ordering = 0 ↔ ordering = .eq := by
  rw [← signValue_inj]
  rfl

/-- The length of a text, as long as it fits. -/
theorem length_apply {text : String} (h : (measure text : Int) ≤ Int64.maxValue.toInt) :
    ∃ value : Int64, length.apply [.str text] = .ok (.int value) ∧ value.toInt = measure text := by
  have hmax : Int64.maxValue.toInt = 2 ^ 63 - 1 := rfl
  have hmin : Int64.minValue.toInt = -2 ^ 63 := rfl
  refine ⟨Int64.ofInt (measure text), ?_, Int64.toInt_ofInt_of_le (by omega) (by omega)⟩
  have hfits : Int64.minValue.toInt ≤ (measure text : Int) ∧
      (measure text : Int) ≤ Int64.maxValue.toInt := ⟨by omega, h⟩
  simp [apply, row?, checked, unitCount_eq_measure, hfits]

/-- Comparing texts gives minus one, zero or one, and zero for equal texts only, in step with the
operators for equality. Exchanging the texts negates it, it is transitive, and joining the same text
in front of both keeps it. It is the order of the scalar values exactly for texts that are not
reordered, and the reverse of it for those that are. The length of a joined text is the sum of the
lengths. -/
theorem compareTo_texts (a b c : String) :
    (∃ sign, Compares a b sign ∧ (sign = -1 ∨ sign = 0 ∨ sign = 1) ∧ Compares b a (-sign) ∧
      (sign = 0 ↔ a = b) ∧
      (equals.apply [.str a, .str b] = .ok (.bool true) ↔ a = b) ∧
      (notEquals.apply [.str a, .str b] = .ok (.bool false) ↔ a = b) ∧
      (∀ next both, Compares b c next → Compares a c both → sign ≤ 0 → next ≤ 0 →
        both ≤ 0 ∧ (both = 0 → sign = 0 ∧ next = 0)) ∧
      (plus.apply [.str c, .str a] = .ok (.str (c ++ a)) ∧
        plus.apply [.str c, .str b] = .ok (.str (c ++ b)) ∧ Compares (c ++ a) (c ++ b) sign) ∧
      (signOf (compare (scalars a) (scalars b)) = .int sign ↔ ¬ Reordered a b) ∧
      (Reordered a b → signOf (compare (scalars a) (scalars b)) = .int (-sign))) ∧
    ((measure a + measure b : Int) ≤ Int64.maxValue.toInt →
      plus.apply [.str a, .str b] = .ok (.str (a ++ b)) ∧
      ∃ left right sum : Int64, length.apply [.str a] = .ok (.int left) ∧
        length.apply [.str b] = .ok (.int right) ∧
        length.apply [.str (a ++ b)] = .ok (.int sum) ∧
        left.toInt = measure a ∧ right.toInt = measure b ∧
        sum.toInt = left.toInt + right.toInt) := by
  refine ⟨⟨signValue (compareUnits a b), compares_iff.2 rfl, ?_, ?_, ?_, ?_, ?_, ?_, ?_, ?_, ?_⟩,
    ?_⟩
  · cases compareUnits a b <;> decide
  · rw [compares_iff, compareUnits_swap a b, signValue_swap]
  · rw [signValue_eq_zero_iff, compareUnits_eq_eq_iff]
  · simp [apply, row?, onTexts?]
  · simp [apply, row?, onTexts?]
  · intro next both hnext hboth
    rw [compares_iff] at hnext hboth
    subst hnext hboth
    simp only [signValue_le_zero_iff, signValue_eq_zero_iff]
    exact compareUnits_trans
  · refine ⟨rfl, rfl, ?_⟩
    rw [compares_iff, compareUnits_append_left]
  · rw [signOf_eq_int_iff, signValue_inj, eq_comm, compareUnits_eq_scalars_iff]
  · intro hreordered
    rw [signOf_eq_int_iff, ← signValue_swap, hreordered.compareUnits_eq.1, Ordering.swap_swap]
  · intro hfits
    have hsum : measure (a ++ b) = measure a + measure b := by
      simp only [← unitCount_eq_measure, unitCount_append]
    have ha : (measure a : Int) ≤ Int64.maxValue.toInt := by omega
    have hb : (measure b : Int) ≤ Int64.maxValue.toInt := by omega
    have hab : (measure (a ++ b) : Int) ≤ Int64.maxValue.toInt := by omega
    obtain ⟨left, hleft, hleftValue⟩ := length_apply ha
    obtain ⟨right, hright, hrightValue⟩ := length_apply hb
    obtain ⟨sum, hjoined, hsumValue⟩ := length_apply hab
    exact ⟨rfl, left, right, sum, hleft, hright, hjoined, hleftValue, hrightValue, by omega⟩

/-- After the same beginning, a character beyond the basic plane comes before U+FFFD, although its
scalar value is larger. It counts twice. -/
theorem compareTo_texts_surrogates :
    Reordered "a😀" "a\ufffd" ∧
    Compares "a😀" "a\ufffd" (-1) ∧
    signOf (compare (scalars "a😀") (scalars "a\ufffd")) = .int 1 ∧
    measure "a😀" = 3 ∧ measure "a\ufffd" = 2 ∧
    length.apply [.str ("a😀" ++ "a\ufffd")] = .ok (.int 5) := by
  have hreordered : Reordered "a😀" "a\ufffd" :=
    ⟨'😀', '\ufffd', ⟨by decide, ['a'], [], [], by decide, by decide⟩, by decide⟩
  have hcompares : Compares "a😀" "a\ufffd" (-1) := compares_iff.2 (by decide +kernel)
  have hleft : measure "a😀" = 3 := by decide +kernel
  have hright : measure "a\ufffd" = 2 := by decide +kernel
  obtain ⟨⟨sign, hsign, -, -, -, -, -, -, -, -, hreversed⟩, hlength⟩ :=
    compareTo_texts "a😀" "a\ufffd" ""
  obtain rfl : -1 = sign := (compares_iff.1 hcompares).symm.trans (compares_iff.1 hsign)
  obtain ⟨-, left, right, sum, -, -, hjoined, hleftValue, hrightValue, hsum⟩ :=
    hlength (by rw [hleft, hright]; decide)
  have hfive : sum = 5 := by
    rw [← Int64.toInt_inj, hsum, hleftValue, hrightValue, hleft, hright]
    rfl
  exact ⟨hreordered, hcompares, hreversed hreordered, hleft, hright, hfive ▸ hjoined⟩

end Operator

end ConstFold
