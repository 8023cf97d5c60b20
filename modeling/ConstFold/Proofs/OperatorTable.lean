import ConstFold.Proofs.TextOrder
import Mathlib.Algebra.Group.Int.Defs

/-!
# The table of operators

The table lists operators by the type of their operands (`Ty.operators`). An operator takes operands
of one type for which it is listed, as many as its arity. `Operator.Gives` says row by row what it
gives for them, in terms of the integers, the texts and the truth values themselves: arithmetic is
that of the unbounded integers, a quotient is one that leaves a remainder of the sign of the
dividend, and a comparison is the order of its operands. Whatever is not listed is unsupported.

The main statement, `Operator.apply_exact`, is that applying an operator gives what these rows say
and nothing else, for every list of constants.
-/

set_option autoImplicit false

namespace ConstFold

/-- The operators listed for operands of a type. -/
def Ty.operators : Ty → List Operator
  | .int => [.plus, .minus, .times, .div, .compareTo, .greater, .less, .greaterOrEqual,
      .lessOrEqual, .equals, .notEquals]
  | .string => [.plus, .length, .compareTo, .equals, .notEquals]
  | .boolean => [.and, .or, .not, .compareTo, .equals, .notEquals]
  | .unit => []

namespace Operator

/-- How many operands an operator takes. -/
def arity : Operator → Nat
  | .length | .not => 1
  | _ => 2

/-- The types of operands an operator is listed for. -/
def Listed (op : Operator) (types : List Ty) : Prop :=
  ∃ ty : Ty, op ∈ ty.operators ∧ types = List.replicate op.arity ty

/-! ## What the rows say -/

/-- An integer that 64 bits can hold. -/
def Representable (value : Int) : Prop :=
  -2 ^ 63 ≤ value ∧ value ≤ 2 ^ 63 - 1

/-- The constant of an integer, or an overflow that names the operator if 64 bits cannot hold it. -/
inductive Exact (op : Operator) (value : Int) : Except Failure Literal → Prop where
  | fits {constant : Int64} : constant.toInt = value → Exact op value (.ok (.int constant))
  | overflows : ¬ Representable value → Exact op value (.error (.overflow op.name))

/-- The quotient and the remainder of a division toward zero. -/
structure Truncates (dividend divisor quotient remainder : Int) : Prop where
  eq : dividend = quotient * divisor + remainder
  smaller : remainder.natAbs < divisor.natAbs
  sign : remainder = 0 ∨ remainder.sign = dividend.sign

/-- The sign of a comparison: minus one for what comes before, zero for the same, otherwise one. -/
inductive Signs (before same : Prop) : Int64 → Prop where
  | before : before → Signs before same (-1)
  | same : same → Signs before same 0
  | after : ¬ before → ¬ same → Signs before same 1

/-- What the table says an operator gives for its operands. -/
inductive Gives : Operator → List Literal → Except Failure Literal → Prop where
  | sum {a b : Int64} {result : Except Failure Literal} :
      Exact .plus (a.toInt + b.toInt) result → Gives .plus [.int a, .int b] result
  | difference {a b : Int64} {result : Except Failure Literal} :
      Exact .minus (a.toInt - b.toInt) result → Gives .minus [.int a, .int b] result
  | product {a b : Int64} {result : Except Failure Literal} :
      Exact .times (a.toInt * b.toInt) result → Gives .times [.int a, .int b] result
  | undivided {a b : Int64} : b.toInt = 0 →
      Gives .div [.int a, .int b] (.error .divisionByZero)
  | quotient {a b : Int64} {q r : Int} {result : Except Failure Literal} :
      Truncates a.toInt b.toInt q r → Exact .div q result → Gives .div [.int a, .int b] result
  | compareInts {a b sign : Int64} : Signs (a.toInt < b.toInt) (a.toInt = b.toInt) sign →
      Gives .compareTo [.int a, .int b] (.ok (.int sign))
  | greater {a b : Int64} {holds : Bool} : (holds = true ↔ a.toInt > b.toInt) →
      Gives .greater [.int a, .int b] (.ok (.bool holds))
  | less {a b : Int64} {holds : Bool} : (holds = true ↔ a.toInt < b.toInt) →
      Gives .less [.int a, .int b] (.ok (.bool holds))
  | greaterOrEqual {a b : Int64} {holds : Bool} : (holds = true ↔ a.toInt ≥ b.toInt) →
      Gives .greaterOrEqual [.int a, .int b] (.ok (.bool holds))
  | lessOrEqual {a b : Int64} {holds : Bool} : (holds = true ↔ a.toInt ≤ b.toInt) →
      Gives .lessOrEqual [.int a, .int b] (.ok (.bool holds))
  | join {a b : String} : Gives .plus [.str a, .str b] (.ok (.str (a ++ b)))
  | length {a : String} {result : Except Failure Literal} :
      Exact .length (Text.measure a) result → Gives .length [.str a] result
  | compareTexts {a b : String} {sign : Int64} :
      Signs (Text.compareUnits a b = .lt) (a = b) sign →
      Gives .compareTo [.str a, .str b] (.ok (.int sign))
  | and {a b holds : Bool} : (holds = true ↔ a = true ∧ b = true) →
      Gives .and [.bool a, .bool b] (.ok (.bool holds))
  | or {a b holds : Bool} : (holds = true ↔ a = true ∨ b = true) →
      Gives .or [.bool a, .bool b] (.ok (.bool holds))
  | not {a holds : Bool} : (holds = true ↔ ¬ a = true) →
      Gives .not [.bool a] (.ok (.bool holds))
  | compareBools {a b : Bool} {sign : Int64} : Signs (a = false ∧ b = true) (a = b) sign →
      Gives .compareTo [.bool a, .bool b] (.ok (.int sign))
  | equals {left right : Literal} {holds : Bool} : left.ty = right.ty → left.ty ≠ .unit →
      (holds = true ↔ left = right) → Gives .equals [left, right] (.ok (.bool holds))
  | notEquals {left right : Literal} {holds : Bool} : left.ty = right.ty → left.ty ≠ .unit →
      (holds = true ↔ left ≠ right) → Gives .notEquals [left, right] (.ok (.bool holds))
  | unlisted {op : Operator} {operands : List Literal} : ¬ op.Listed (operands.map Literal.ty) →
      Gives op operands (.error (.unsupported op.name (operands.map Literal.ty)))

/-! ## Integers -/

/-- The integer of a constant fits into 64 bits. -/
theorem representable_toInt (constant : Int64) : Representable constant.toInt :=
  ⟨constant.le_toInt, Int.le_sub_one_of_lt constant.toInt_lt⟩

/-- An integer that fits is given as a constant. -/
theorem checked_of_representable {op : Operator} {value : Int} (h : Representable value) :
    op.checked value = .ok (.int (Int64.ofInt value)) :=
  if_pos h

/-- An integer that does not fit is an overflow. -/
theorem checked_of_not_representable {op : Operator} {value : Int} (h : ¬ Representable value) :
    op.checked value = .error (.overflow op.name) :=
  if_neg h

/-- Checked arithmetic is exact. -/
theorem checked_eq_iff {op : Operator} {value : Int} {result : Except Failure Literal} :
    op.checked value = result ↔ Exact op value result := by
  constructor
  · rintro rfl
    by_cases hvalue : Representable value
    · rw [checked_of_representable hvalue]
      exact .fits (Int64.toInt_ofInt_of_le hvalue.1 (Int.lt_of_le_sub_one hvalue.2))
    · rw [checked_of_not_representable hvalue]
      exact .overflows hvalue
  · intro h
    cases h with
    | fits hconstant =>
      subst hconstant
      rw [checked_of_representable (representable_toInt _), Int64.ofInt_toInt]
    | overflows hvalue => exact checked_of_not_representable hvalue

/-- Division that rounds toward zero truncates. -/
theorem truncates_tdiv {dividend divisor : Int} (h : divisor ≠ 0) :
    Truncates dividend divisor (dividend.tdiv divisor) (dividend.tmod divisor) where
  eq := (Int.tdiv_mul_add_tmod dividend divisor).symm
  smaller := by
    rw [Int.natAbs_tmod]
    exact Nat.mod_lt _ (Int.natAbs_pos.2 h)
  sign := by
    have hsign := Int.sign_tmod dividend divisor
    split at hsign
    · exact .inl (Int.sign_eq_zero_iff_zero.1 hsign)
    · exact .inr hsign

/-- There is one quotient toward zero. -/
theorem Truncates.quotient_eq {dividend divisor quotient remainder : Int}
    (h : Truncates dividend divisor quotient remainder) :
    divisor ≠ 0 ∧ quotient = dividend.tdiv divisor := by
  obtain ⟨heq, hsmaller, hsign⟩ := h
  have hdivisor : divisor ≠ 0 := by
    rintro rfl
    exact Nat.not_lt_zero _ hsmaller
  have hsum : remainder + divisor * quotient = dividend := by
    rw [heq, Int.mul_comm, Int.add_comm]
  refine ⟨hdivisor, ?_⟩
  -- The sign of the dividend tells on which side of zero the remainder lies.
  rcases Int.le_total 0 dividend with hpos | hneg
  · have hremainder : 0 ≤ remainder := by
      rcases hsign with rfl | hsign
      · exact Int.le_refl 0
      · rw [← Int.sign_nonneg_iff, hsign, Int.sign_nonneg_iff]
        exact hpos
    exact ((Int.tdiv_tmod_unique hpos hdivisor).2 ⟨hsum, hremainder, by omega⟩).1.symm
  · have hremainder : remainder ≤ 0 := by
      rcases hsign with rfl | hsign
      · exact Int.le_refl 0
      · rw [← Int.sign_nonpos_iff, hsign, Int.sign_nonpos_iff]
        exact hneg
    exact ((Int.tdiv_tmod_unique' hneg hdivisor).2 ⟨hsum, by omega, hremainder⟩).1.symm

/-- Only one quotient of 64-bit integers leaves their range. -/
theorem not_representable_tdiv_iff {a b : Int64} (hb : b.toInt ≠ 0) :
    ¬ Representable (a.toInt.tdiv b.toInt) ↔ a.toInt = -2 ^ 63 ∧ b.toInt = -1 := by
  have hmin := a.le_toInt
  have hmax := a.toInt_lt
  unfold Representable
  constructor
  · intro hquotient
    have hle := Int.natAbs_tdiv_le_natAbs a.toInt b.toInt
    have ha : a.toInt = -2 ^ 63 := by omega
    refine ⟨ha, ?_⟩
    rcases Int.lt_or_gt_of_ne hb with hneg | hpos
    · -- A divisor below minus one halves the quotient at least.
      by_cases hone : b.toInt = -1
      · exact hone
      · have hhalf : (a.toInt.tdiv b.toInt).natAbs ≤ a.toInt.natAbs / 2 := by
          rw [Int.natAbs_tdiv]
          exact Nat.div_le_div_left (by omega) (by decide)
        omega
    · -- A positive divisor keeps the quotient negative.
      have hnonneg : 0 ≤ (-a.toInt).tdiv b.toInt :=
        Int.tdiv_nonneg (by omega) (Int.le_of_lt hpos)
      rw [Int.neg_tdiv] at hnonneg
      omega
  · rintro ⟨ha, hb⟩
    rw [ha, hb]
    decide

/-! ## What is listed -/

/-- An operator is listed for as many types as it takes operands. -/
theorem Listed.length_eq {op : Operator} {types : List Ty} (h : op.Listed types) :
    types.length = op.arity := by
  obtain ⟨ty, -, rfl⟩ := h
  exact List.length_replicate

/-- Every operator takes one operand or two. -/
theorem arity_cases (op : Operator) : op.arity = 1 ∨ op.arity = 2 := by
  cases op <;> decide

/-- Only `length` and `not` take one operand. -/
theorem arity_eq_one_iff {op : Operator} : op.arity = 1 ↔ op = .length ∨ op = .not := by
  cases op <;> decide

/-- An operator is listed for one type if it is an operator of this type that takes one operand. -/
theorem listed_single_iff {op : Operator} {ty : Ty} :
    op.Listed [ty] ↔ op ∈ ty.operators ∧ op.arity = 1 := by
  constructor
  · intro h
    have harity : op.arity = 1 := h.length_eq.symm
    obtain ⟨ty', hmem, heq⟩ := h
    rw [harity] at heq
    cases heq
    exact ⟨hmem, harity⟩
  · rintro ⟨hmem, harity⟩
    exact ⟨ty, hmem, by rw [harity]; rfl⟩

/-- An operator is listed for two types if they are the same and it is an operator of this type that
takes two operands. -/
theorem listed_pair_iff {op : Operator} {left right : Ty} :
    op.Listed [left, right] ↔ left = right ∧ op ∈ left.operators ∧ op.arity = 2 := by
  constructor
  · intro h
    have harity : op.arity = 2 := h.length_eq.symm
    obtain ⟨ty, hmem, heq⟩ := h
    rw [harity] at heq
    cases heq
    exact ⟨rfl, hmem, harity⟩
  · rintro ⟨rfl, hmem, harity⟩
    exact ⟨left, hmem, by rw [harity]; rfl⟩

/-- An operator has a row exactly for the types it is listed for. -/
theorem row?_eq_none_iff {op : Operator} {operands : List Literal} :
    op.row? operands = none ↔ ¬ op.Listed (operands.map Literal.ty) := by
  match operands with
  | [] =>
    have hlisted : ¬ op.Listed [] := fun h => by
      have hlength : 0 = op.arity := h.length_eq
      have harity := op.arity_cases
      omega
    exact iff_of_true rfl hlisted
  | [operand] =>
    simp only [List.map_cons, List.map_nil, listed_single_iff]
    cases operand <;> cases op <;> simp [row?, Literal.ty, Ty.operators, arity]
  | [left, right] =>
    simp only [List.map_cons, List.map_nil, listed_pair_iff]
    cases left <;> cases right <;> cases op <;>
      simp [row?, onInts?, onTexts?, onBools?, Literal.ty, Ty.operators, arity]
  | first :: second :: third :: rest =>
    have hlisted : ¬ op.Listed ((first :: second :: third :: rest).map Literal.ty) := fun h => by
      have hlength : rest.length + 3 = op.arity := by simpa using h.length_eq
      have harity := op.arity_cases
      omega
    exact iff_of_true (by cases first <;> cases second <;> rfl) hlisted

/-- An operator gives what its row of the table says. -/
theorem apply_eq_of_row {op : Operator} {operands : List Literal}
    {result : Except Failure Literal} (h : op.row? operands = some result) :
    op.apply operands = result := by
  rw [apply, h]
  rfl

/-- Operands of types that an operator is not listed for are unsupported. -/
theorem apply_of_unlisted {op : Operator} {operands : List Literal}
    (h : ¬ op.Listed (operands.map Literal.ty)) :
    op.apply operands = .error (.unsupported op.name (operands.map Literal.ty)) := by
  rw [apply, row?_eq_none_iff.2 h]
  rfl

/-! ## Rows -/

/-- The sign of an ordering is that of the comparison it decides. -/
theorem signValue_eq_iff {before same : Prop} {ordering : Ordering}
    (hbefore : ordering = .lt ↔ before) (hsame : ordering = .eq ↔ same) {sign : Int64} :
    signValue ordering = sign ↔ Signs before same sign := by
  constructor
  · rintro rfl
    cases ordering with
    | lt => exact .before (hbefore.1 rfl)
    | eq => exact .same (hsame.1 rfl)
    | gt => exact .after (fun h => nomatch hbefore.2 h) (fun h => nomatch hsame.2 h)
  · intro h
    cases h with
    | before h => rw [hbefore.2 h]; rfl
    | same h => rw [hsame.2 h]; rfl
    | after hnotBefore hnotSame =>
      cases ordering with
      | lt => exact absurd (hbefore.1 rfl) hnotBefore
      | eq => exact absurd (hsame.1 rfl) hnotSame
      | gt => rfl

/-- A comparison gives a sign. -/
theorem exists_sign_of_apply (operands : List Literal) {ordering : Ordering}
    (h : compareTo.apply operands = .ok (signOf ordering)) :
    ∃ sign, compareTo.apply operands = .ok (.int sign) :=
  ⟨signValue ordering, by rw [h, signOf_eq_int_iff.2 rfl]⟩

/-- The sign that a comparison gives is the one of the order it decides. -/
theorem compareTo_apply_iff {operands : List Literal} {ordering : Ordering} {before same : Prop}
    (h : compareTo.apply operands = .ok (signOf ordering)) (hbefore : ordering = .lt ↔ before)
    (hsame : ordering = .eq ↔ same) {sign : Int64} :
    compareTo.apply operands = .ok (.int sign) ↔ Signs before same sign := by
  rw [h, ← signValue_eq_iff hbefore hsame, ← signOf_eq_int_iff, Except.ok.injEq]

/-- Integers are compared by their values. -/
theorem compareTo_ints_iff {a b sign : Int64} :
    compareTo.apply [.int a, .int b] = .ok (.int sign) ↔
      Signs (a.toInt < b.toInt) (a.toInt = b.toInt) sign :=
  compareTo_apply_iff rfl Int.compare_eq_lt Int.compare_eq_eq

/-- Texts are compared by their code units. -/
theorem compareTo_texts_iff {a b : String} {sign : Int64} :
    compareTo.apply [.str a, .str b] = .ok (.int sign) ↔
      Signs (Text.compareUnits a b = .lt) (a = b) sign :=
  compareTo_apply_iff rfl Iff.rfl Text.compareUnits_eq_eq_iff

/-- Truth values are compared with false before true. -/
theorem compareTo_bools_iff {a b : Bool} {sign : Int64} :
    compareTo.apply [.bool a, .bool b] = .ok (.int sign) ↔
      Signs (a = false ∧ b = true) (a = b) sign :=
  compareTo_apply_iff rfl (by cases a <;> cases b <;> decide) (by cases a <;> cases b <;> decide)

/-- Division by zero fails. -/
theorem div_apply_of_eq_zero {a b : Int64} (h : b.toInt = 0) :
    div.apply [.int a, .int b] = .error .divisionByZero :=
  apply_eq_of_row (congrArg some (if_pos h))

/-- Division by another number rounds toward zero, and may overflow. -/
theorem div_apply_of_ne_zero {a b : Int64} (h : b.toInt ≠ 0) :
    div.apply [.int a, .int b] = div.checked (a.toInt.tdiv b.toInt) :=
  apply_eq_of_row (congrArg some (if_neg h))

/-- Constants of one type are compared for equality as they are. -/
theorem equality_apply {left right : Literal} (hty : left.ty = right.ty)
    (hunit : left.ty ≠ .unit) :
    equals.apply [left, right] = .ok (.bool (left = right)) ∧
      notEquals.apply [left, right] = .ok (.bool (left ≠ right)) := by
  match left, right, hty with
  | .int a, .int b, _ => simp [apply, row?, onInts?, Int64.toInt_inj]
  | .str a, .str b, _ => simp [apply, row?, onTexts?]
  | .bool a, .bool b, _ => simp [apply, row?, onBools?]
  | .unit, .unit, _ => exact absurd rfl hunit

/-- The equality operators give what the table says for operands of one type. -/
theorem gives_equality_apply {op : Operator} (hop : op = equals ∨ op = notEquals)
    {left right : Literal} (hty : left.ty = right.ty) (hunit : left.ty ≠ .unit) :
    Gives op [left, right] (op.apply [left, right]) := by
  obtain ⟨hequals, hnotEquals⟩ := equality_apply hty hunit
  rcases hop with rfl | rfl
  · rw [hequals]
    exact .equals hty hunit decide_eq_true_iff
  · rw [hnotEquals]
    exact .notEquals hty hunit decide_eq_true_iff

/-- Two integers are combined as the table says. -/
theorem gives_apply_ints {op : Operator} (h : op ∈ Ty.int.operators) (a b : Int64) :
    Gives op [.int a, .int b] (op.apply [.int a, .int b]) := by
  simp only [Ty.operators, List.mem_cons, List.not_mem_nil, or_false] at h
  rcases h with rfl | rfl | rfl | rfl | rfl | rfl | rfl | rfl | rfl | hequality
  · exact .sum (checked_eq_iff.1 rfl)
  · exact .difference (checked_eq_iff.1 rfl)
  · exact .product (checked_eq_iff.1 rfl)
  · by_cases hb : b.toInt = 0
    · rw [div_apply_of_eq_zero hb]
      exact .undivided hb
    · rw [div_apply_of_ne_zero hb]
      exact .quotient (truncates_tdiv hb) (checked_eq_iff.1 rfl)
  · obtain ⟨sign, hsign⟩ := exists_sign_of_apply [.int a, .int b] rfl
    rw [hsign]
    exact .compareInts (compareTo_ints_iff.1 hsign)
  · exact .greater decide_eq_true_iff
  · exact .less decide_eq_true_iff
  · exact .greaterOrEqual decide_eq_true_iff
  · exact .lessOrEqual decide_eq_true_iff
  · exact gives_equality_apply hequality rfl nofun

/-- Two texts are combined as the table says. -/
theorem gives_apply_texts {op : Operator} (h : op ∈ Ty.string.operators) (harity : op.arity = 2)
    (a b : String) : Gives op [.str a, .str b] (op.apply [.str a, .str b]) := by
  simp only [Ty.operators, List.mem_cons, List.not_mem_nil, or_false] at h
  rcases h with rfl | rfl | rfl | hequality
  · exact .join
  · cases harity
  · obtain ⟨sign, hsign⟩ := exists_sign_of_apply [.str a, .str b] rfl
    rw [hsign]
    exact .compareTexts (compareTo_texts_iff.1 hsign)
  · exact gives_equality_apply hequality rfl nofun

/-- Two truth values are combined as the table says. -/
theorem gives_apply_bools {op : Operator} (h : op ∈ Ty.boolean.operators) (harity : op.arity = 2)
    (a b : Bool) : Gives op [.bool a, .bool b] (op.apply [.bool a, .bool b]) := by
  simp only [Ty.operators, List.mem_cons, List.not_mem_nil, or_false] at h
  rcases h with rfl | rfl | rfl | rfl | hequality
  · exact .and (Bool.and_eq_true_iff)
  · exact .or (Bool.or_eq_true_iff)
  · cases harity
  · obtain ⟨sign, hsign⟩ := exists_sign_of_apply [.bool a, .bool b] rfl
    rw [hsign]
    exact .compareBools (compareTo_bools_iff.1 hsign)
  · exact gives_equality_apply hequality rfl nofun

/-- One operand is taken as the table says. -/
theorem gives_apply_single {op : Operator} {operand : Literal} (h : op.Listed [operand.ty]) :
    Gives op [operand] (op.apply [operand]) := by
  obtain ⟨hmem, harity⟩ := listed_single_iff.1 h
  rcases arity_eq_one_iff.1 harity with rfl | rfl
  · cases operand with
    | str text =>
      refine .length (checked_eq_iff.1 ?_)
      rw [← Text.unitCount_eq_measure]
      rfl
    | int value => simp [Literal.ty, Ty.operators] at hmem
    | bool value => simp [Literal.ty, Ty.operators] at hmem
    | unit => cases hmem
  · cases operand with
    | bool value => exact .not (by cases value <;> decide)
    | int value => simp [Literal.ty, Ty.operators] at hmem
    | str text => simp [Literal.ty, Ty.operators] at hmem
    | unit => cases hmem

/-- An operator listed for two types gives what the table says for operands of these types. -/
theorem gives_apply_pair {op : Operator} {left right : Literal}
    (h : op.Listed [left.ty, right.ty]) : Gives op [left, right] (op.apply [left, right]) := by
  obtain ⟨hty, hmem, harity⟩ := listed_pair_iff.1 h
  match left, right, hty with
  | .int a, .int b, _ => exact gives_apply_ints hmem a b
  | .str a, .str b, _ => exact gives_apply_texts hmem harity a b
  | .bool a, .bool b, _ => exact gives_apply_bools hmem harity a b
  | .unit, .unit, _ => cases hmem

/-- What an operator gives is what the table says. -/
theorem gives_apply (op : Operator) (operands : List Literal) :
    Gives op operands (op.apply operands) := by
  by_cases hlisted : op.Listed (operands.map Literal.ty)
  · have hlength := hlisted.length_eq
    rw [List.length_map] at hlength
    rcases op.arity_cases with harity | harity
    · match operands, hlength.trans harity, hlisted with
      | [_], _, hlisted => exact gives_apply_single hlisted
    · match operands, hlength.trans harity, hlisted with
      | [_, _], _, hlisted => exact gives_apply_pair hlisted
  · rw [apply_of_unlisted hlisted]
    exact .unlisted hlisted

/-- Truth values that decide the same proposition are the same answer. -/
theorem ok_bool_eq {p : Prop} {given holds : Bool} (hgiven : given = true ↔ p)
    (hholds : holds = true ↔ p) :
    (.ok (.bool given) : Except Failure Literal) = .ok (.bool holds) := by
  rw [Bool.eq_iff_iff.2 (hgiven.trans hholds.symm)]

/-- The table says one thing only, and it is what the operator gives. -/
theorem Gives.apply_eq {op : Operator} {operands : List Literal} {result : Except Failure Literal}
    (h : Gives op operands result) : op.apply operands = result := by
  cases h with
  | sum hexact => exact checked_eq_iff.2 hexact
  | difference hexact => exact checked_eq_iff.2 hexact
  | product hexact => exact checked_eq_iff.2 hexact
  | undivided hb => exact div_apply_of_eq_zero hb
  | quotient htruncates hexact =>
    obtain ⟨hb, rfl⟩ := htruncates.quotient_eq
    rw [div_apply_of_ne_zero hb]
    exact checked_eq_iff.2 hexact
  | compareInts hsign => exact compareTo_ints_iff.2 hsign
  | greater hholds => exact ok_bool_eq decide_eq_true_iff hholds
  | less hholds => exact ok_bool_eq decide_eq_true_iff hholds
  | greaterOrEqual hholds => exact ok_bool_eq decide_eq_true_iff hholds
  | lessOrEqual hholds => exact ok_bool_eq decide_eq_true_iff hholds
  | join => rfl
  | length hexact =>
    rw [← Text.unitCount_eq_measure] at hexact
    exact checked_eq_iff.2 hexact
  | compareTexts hsign => exact compareTo_texts_iff.2 hsign
  | and hholds => exact ok_bool_eq Bool.and_eq_true_iff hholds
  | or hholds => exact ok_bool_eq Bool.or_eq_true_iff hholds
  | not hholds => exact ok_bool_eq (by simp) hholds
  | compareBools hsign => exact compareTo_bools_iff.2 hsign
  | equals hty hunit hholds =>
    rw [(equality_apply hty hunit).1]
    exact ok_bool_eq decide_eq_true_iff hholds
  | notEquals hty hunit hholds =>
    rw [(equality_apply hty hunit).2]
    exact ok_bool_eq decide_eq_true_iff hholds
  | unlisted hlisted => exact apply_of_unlisted hlisted

/-! ## The table as a whole -/

/-- The answers of an operator to operands of types it is listed for: a constant other than unit, or
a failure of its arithmetic. -/
inductive Answers (op : Operator) : Except Failure Literal → Prop where
  | constant {value : Literal} : value ≠ .unit → Answers op (.ok value)
  | overflow : Answers op (.error (.overflow op.name))
  | divisionByZero : op = .div → Answers op (.error .divisionByZero)

/-- An exact integer and an overflow are answers of an operator. -/
theorem Exact.answers {op : Operator} {value : Int} {result : Except Failure Literal}
    (h : Exact op value result) : op.Answers result := by
  cases h with
  | fits _ => exact .constant nofun
  | overflows _ => exact .overflow

/-- What the table says for operands of listed types are answers of the operator. -/
theorem Gives.answers {op : Operator} {operands : List Literal} {result : Except Failure Literal}
    (h : Gives op operands result) (hlisted : op.Listed (operands.map Literal.ty)) :
    op.Answers result := by
  cases h with
  | sum hexact | difference hexact | product hexact | length hexact | quotient _ hexact =>
    exact hexact.answers
  | undivided _ => exact .divisionByZero rfl
  | unlisted hnot => exact absurd hlisted hnot
  | compareInts _ | greater _ | less _ | greaterOrEqual _ | lessOrEqual _ | join | compareTexts _
  | and _ | or _ | not _ | compareBools _ | equals _ _ _ | notEquals _ _ _ => exact .constant nofun

/-- An operator answers operands of the types it is listed for, and no others. -/
theorem answers_apply_iff {op : Operator} {operands : List Literal} :
    op.Answers (op.apply operands) ↔ op.Listed (operands.map Literal.ty) := by
  refine ⟨fun h => ?_, (gives_apply op operands).answers⟩
  by_cases hlisted : op.Listed (operands.map Literal.ty)
  · exact hlisted
  · rw [apply_of_unlisted hlisted] at h
    cases h

/-- Operands are unsupported exactly if the operator is not listed for their types. -/
theorem apply_eq_unsupported_iff {op : Operator} {operands : List Literal} :
    op.apply operands = .error (.unsupported op.name (operands.map Literal.ty)) ↔
      ¬ op.Listed (operands.map Literal.ty) := by
  refine ⟨fun h hlisted => ?_, apply_of_unlisted⟩
  rw [← answers_apply_iff, h] at hlisted
  cases hlisted

/-- No constant that an operator gives is unit. -/
theorem apply_ne_unit (op : Operator) (operands : List Literal) : op.apply operands ≠ .ok .unit := by
  intro h
  by_cases hlisted : op.Listed (operands.map Literal.ty)
  · rw [← answers_apply_iff, h] at hlisted
    cases hlisted with
    | constant hunit => exact hunit rfl
  · rw [apply_of_unlisted hlisted] at h
    cases h

/-- The order of two integers can be read off the sign of their comparison. -/
theorem Signs.order_iff {a b : Int} {sign : Int64} (h : Signs (a < b) (a = b) sign) :
    (b < a ↔ 0 < sign) ∧ (a < b ↔ sign < 0) ∧ (b ≤ a ↔ 0 ≤ sign) ∧ (a ≤ b ↔ sign ≤ 0) ∧
      (a = b ↔ sign = 0) ∧ (a ≠ b ↔ sign ≠ 0) := by
  cases h with
  | before hlt =>
    exact ⟨iff_of_false (by omega) (by decide), iff_of_true hlt (by decide),
      iff_of_false (by omega) (by decide), iff_of_true (by omega) (by decide),
      iff_of_false (by omega) (by decide), iff_of_true (by omega) (by decide)⟩
  | same heq =>
    exact ⟨iff_of_false (by omega) (by decide), iff_of_false (by omega) (by decide),
      iff_of_true (by omega) (by decide), iff_of_true (by omega) (by decide),
      iff_of_true heq rfl, iff_of_false (by omega) (by decide)⟩
  | after hlt heq =>
    exact ⟨iff_of_true (by omega) (by decide), iff_of_false hlt (by decide),
      iff_of_true (by omega) (by decide), iff_of_false (by omega) (by decide),
      iff_of_false heq (by decide), iff_of_true heq (by decide)⟩

/-- Dividing 64-bit integers overflows in one case only. -/
theorem div_apply_eq_overflow_iff {a b : Int64} :
    div.apply [.int a, .int b] = .error (.overflow div.name) ↔
      a.toInt = -2 ^ 63 ∧ b.toInt = -1 := by
  by_cases hb : b.toInt = 0
  · rw [div_apply_of_eq_zero hb]
    exact iff_of_false nofun (by omega)
  · rw [div_apply_of_ne_zero hb, ← not_representable_tdiv_iff hb]
    refine ⟨fun h hquotient => ?_, fun h => checked_of_not_representable h⟩
    rw [checked_of_representable hquotient] at h
    cases h

/-- Applying an operator to any constants gives what the table says. It answers the types it is
listed for with a constant other than unit, or with a failure of its arithmetic; all others are
unsupported, with the name of the operator and the types in order. Of all quotients one overflows.
Comparing integers gives the sign of their order, and the operators that compare them agree with
it. -/
theorem apply_exact (op : Operator) (operands : List Literal) (a b : Int64) :
    (∀ result, op.apply operands = result ↔ op.Gives operands result) ∧
    (op.Answers (op.apply operands) ↔ op.Listed (operands.map Literal.ty)) ∧
    (op.apply operands = .error (.unsupported op.name (operands.map Literal.ty)) ↔
      ¬ op.Listed (operands.map Literal.ty)) ∧
    op.apply operands ≠ .ok .unit ∧
    (div.apply [.int a, .int b] = .error (.overflow div.name) ↔
      a.toInt = -2 ^ 63 ∧ b.toInt = -1) ∧
    ∃ sign : Int64, Signs (a.toInt < b.toInt) (a.toInt = b.toInt) sign ∧
      compareTo.apply [.int a, .int b] = .ok (.int sign) ∧
      greater.apply [.int a, .int b] = .ok (.bool (0 < sign)) ∧
      less.apply [.int a, .int b] = .ok (.bool (sign < 0)) ∧
      greaterOrEqual.apply [.int a, .int b] = .ok (.bool (0 ≤ sign)) ∧
      lessOrEqual.apply [.int a, .int b] = .ok (.bool (sign ≤ 0)) ∧
      equals.apply [.int a, .int b] = .ok (.bool (sign = 0)) ∧
      notEquals.apply [.int a, .int b] = .ok (.bool (sign ≠ 0)) := by
  refine ⟨fun result => ⟨fun h => h ▸ gives_apply op operands, Gives.apply_eq⟩, answers_apply_iff,
    apply_eq_unsupported_iff, apply_ne_unit op operands, div_apply_eq_overflow_iff, ?_⟩
  obtain ⟨sign, hsign⟩ := exists_sign_of_apply [.int a, .int b] rfl
  have hsigns := compareTo_ints_iff.1 hsign
  obtain ⟨hgreater, hless, hgreaterOrEqual, hlessOrEqual, hequals, hnotEquals⟩ := hsigns.order_iff
  have hdecide : ∀ {p q : Prop} [Decidable p] [Decidable q], (p ↔ q) →
      (.ok (.bool p) : Except Failure Literal) = .ok (.bool q) :=
    fun hiff => ok_bool_eq decide_eq_true_iff (decide_eq_true_iff.trans hiff.symm)
  exact ⟨sign, hsigns, hsign, hdecide hgreater, hdecide hless, hdecide hgreaterOrEqual,
    hdecide hlessOrEqual, hdecide hequals, hdecide hnotEquals⟩

end Operator

end ConstFold
