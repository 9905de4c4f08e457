import BoxDiagram.Decimal.Written
import BoxDiagram.Proofs.JsonGrammar

/-!
The numbers of a document. The digits of a count have no needless zero in front. The shortest decimal of a
number above zero has a coefficient above zero, as zero lies outside of what reads back as the number, so
the digits of a finite number in a document are the text of a number, in positions or with an exponent.
-/

namespace BoxDiagram

theorem Json.digitRun_toDigits (value : Nat) : DigitRun (Nat.toDigits 10 value) :=
  ⟨Nat.toDigits_ne_nil, fun _ inside => Nat.isDigit_of_mem_toDigits (by omega) (by omega) inside⟩

theorem Json.head?_toDigits {value : Nat} (positive : 0 < value) :
    (Nat.toDigits 10 value).head? ≠ some '0' := by
  induction value using Nat.strong_induction_on with
  | _ value ih =>
    rcases Nat.lt_or_ge value 10 with below | above
    · rw [Nat.toDigits_of_lt_base below]
      have first : ∀ digit < 10, 0 < digit → [digit.digitChar].head? ≠ some '0' := by decide
      exact first value below positive
    · rw [Nat.toDigits_of_base_le (by omega) above, List.head?_append_of_ne_nil _ Nat.toDigits_ne_nil]
      exact ih (value / 10) (by omega) (by omega)

theorem Json.whole_toDigits (value : Nat) : Whole (Nat.toDigits 10 value) := by
  rcases Nat.eq_zero_or_pos value with rfl | positive
  · exact .inl rfl
  · exact .inr ⟨digitRun_toDigits value, head?_toDigits positive⟩

theorem Text.ofDigits_toDigits (value : Nat) : ofDigits 10 (Nat.toDigits 10 value) = value := by
  have digit : ∀ digit < 10, hexValue? digit.digitChar = some digit := by decide
  induction value using Nat.strong_induction_on with
  | _ value ih =>
    rcases Nat.lt_or_ge value 10 with below | above
    · rw [Nat.toDigits_of_lt_base below]
      simp [ofDigits, digit value below]
    · rw [Nat.toDigits_of_base_le (by omega) above, ofDigits_append, ih (value / 10) (by omega),
        digit (value % 10) (by omega), Option.getD_some]
      omega

theorem Json.number_ofNat (value : Nat) : Number (toString value).toList := by
  refine ⟨[], _, .inl rfl, ⟨Nat.toDigits 10 value, [], [], whole_toDigits value, .inl rfl, .inl rfl, rfl⟩, ?_⟩
  simp

namespace Json

variable {text : List Char}

theorem digitRun_zeros {count : Nat} : ∀ char ∈ List.replicate count '0', char.isDigit = true := by
  intro char inside
  rw [List.eq_of_mem_replicate inside]
  rfl

theorem DigitRun.behind_zeros (run : DigitRun text) (count : Nat) :
    DigitRun (List.replicate count '0' ++ text) :=
  ⟨by simp [run.1], List.forall_mem_append.mpr ⟨digitRun_zeros, run.2⟩⟩

theorem DigitRun.whole_append_zeros (run : DigitRun text) (plain : text.head? ≠ some '0') (count : Nat) :
    Whole (text ++ List.replicate count '0') := by
  refine .inr ⟨⟨by simp [run.1], List.forall_mem_append.mpr ⟨run.2, digitRun_zeros⟩⟩, ?_⟩
  rwa [List.head?_append_of_ne_nil _ run.1]

theorem DigitRun.whole_take (run : DigitRun text) (plain : text.head? ≠ some '0') {count : Nat}
    (some : 0 < count) : Whole (text.take count) := by
  refine .inr ⟨⟨?_, fun char listed => run.2 char (List.mem_of_mem_take listed)⟩, ?_⟩
  · simp [run.1, Nat.ne_of_gt some]
  · rwa [List.head?_take, if_neg (Nat.ne_of_gt some)]

theorem DigitRun.drop (run : DigitRun text) {count : Nat} (within : count < text.length) :
    DigitRun (text.drop count) :=
  ⟨by simpa using within, fun char listed => run.2 char (List.mem_of_mem_drop listed)⟩

theorem whole_singleton {digit : Char} (isDigit : digit.isDigit = true) : Whole [digit] := by
  by_cases zero : digit = '0'
  · exact .inl (by rw [zero])
  · exact .inr ⟨⟨by simp, by simpa using isDigit⟩, by simpa using zero⟩

theorem unsigned_fraction {whole digits : List Char} (spelled : Whole whole) (run : DigitRun digits) :
    Unsigned (whole ++ '.' :: digits) :=
  ⟨whole, '.' :: digits, [], spelled, .inr ⟨digits, run, rfl⟩, .inl rfl, by simp⟩

end Json

namespace Decimal

def Digits.Proper (digits : Digits) : Prop := digits = ⟨0, 0⟩ ∨ 0 < digits.coefficient

/-- Zero lies below all that reads back as a number above zero. -/
theorem Binary.readsBack_zero {number : Binary} (positive : 0 < number.significand) (exponent : Int) :
    number.readsBack 0 exponent = false := by
  have numerator : (scaled (4 * 0) (-number.exponent) exponent).1 = 0 := by simp [scaled]
  have denominator : 0 < (scaled (4 * 0) (-number.exponent) exponent).2 :=
    Nat.mul_pos (Nat.pow_pos (by decide)) (Nat.pow_pos (by decide))
  have low : 0 < 4 * number.significand - (if number.isLowerGapHalved then 1 else 2) := by
    split <;> omega
  have above := Nat.mul_pos low denominator
  unfold readsBack
  simp only [numerator, Nat.not_lt_zero, Nat.le_zero, Nat.ne_of_gt above, decide_false, Bool.false_and,
    ite_self]

theorem Binary.readsBack_digitsOfLength? {number : Binary} {tie : Tie} {count : Nat} {digits : Digits}
    (found : number.digitsOfLength? tie count = some digits) :
    number.readsBack digits.coefficient digits.exponent = true := by
  unfold digitsOfLength? at found
  simp only at found
  split at found
  next below above =>
    obtain rfl := Option.some.inj found
    simp only
    split
    · exact above
    · exact below
  next below _ =>
    obtain rfl := Option.some.inj found
    exact below
  next _ above =>
    obtain rfl := Option.some.inj found
    exact above
  next => cases found

theorem Digits.coefficient_strip {coefficient : Nat} (positive : 0 < coefficient) (fuel : Nat)
    (exponent : Int) : 0 < (stripZeros.strip fuel coefficient exponent).coefficient := by
  induction fuel generalizing coefficient exponent with
  | zero => exact positive
  | succ fuel ih =>
    unfold stripZeros.strip
    split
    next zero =>
      simp only [Bool.and_eq_true, decide_eq_true_eq] at zero
      exact ih (by omega) _
    next => exact positive

theorem Binary.proper_shortest {number : Binary} (positive : 0 < number.significand) (tie : Tie) :
    (number.shortest tie).Proper := by
  unfold shortest
  split
  next digits found =>
    obtain ⟨count, -, made⟩ := List.exists_of_findSome?_eq_some found
    have coefficient : 0 < digits.coefficient := by
      apply Nat.pos_of_ne_zero
      intro zero
      have back := readsBack_digitsOfLength? made
      rw [zero, readsBack_zero positive] at back
      cases back
    exact .inr (Digits.coefficient_strip coefficient _ _)
  next => exact .inl rfl

section Texts

open Json

variable {digits : Digits}

theorem toList_zeros (count : Nat) : (zeros count).toList = List.replicate count '0' :=
  String.toList_ofList

theorem Digits.unsigned_positional (proper : digits.Proper) : Unsigned (digits.positional ".0").toList := by
  have run := digitRun_toDigits digits.coefficient
  unfold positional
  simp only
  split
  next whole =>
    have spelled : Whole (Nat.toDigits 10 digits.coefficient ++
        List.replicate digits.exponent.toNat '0') := by
      rcases proper with rfl | positive
      · exact .inl rfl
      · exact run.whole_append_zeros (head?_toDigits positive) _
    have suffix : DigitRun ['0'] := ⟨by simp, by simp⟩
    simpa [toList_zeros] using unsigned_fraction spelled suffix
  next fractional =>
    -- Zero has no digits behind the point, so the whole part cannot start with a needless zero.
    have positive : 0 < digits.coefficient := by
      rcases proper with rfl | positive
      · exact absurd (Int.le_refl 0) fractional
      · exact positive
    split
    next inside =>
      have whole := run.whole_take (head?_toDigits positive)
        (by omega : 0 < (((Nat.toDigits 10 digits.coefficient).length : Int) + digits.exponent).toNat)
      have rest := run.drop
        (by omega : (((Nat.toDigits 10 digits.coefficient).length : Int) + digits.exponent).toNat <
          (Nat.toDigits 10 digits.coefficient).length)
      simpa using unsigned_fraction whole rest
    next before =>
      have zero : Whole ['0'] := .inl rfl
      simpa [toList_zeros] using unsigned_fraction zero (run.behind_zeros _)

theorem exponent_power (power : Int) :
    Exponent (if power < 0 then "e-" ++ toString power.natAbs else "e+" ++ toString power.natAbs).toList := by
  have run : DigitRun (toString power.natAbs).toList := by
    rw [Nat.toString_eq_repr, Nat.toList_repr]
    exact digitRun_toDigits power.natAbs
  split
  next =>
    refine .inr ⟨'e', ['-'], _, .inl rfl, .inr (.inr rfl), run, ?_⟩
    rw [String.toList_append]
    rfl
  next =>
    refine .inr ⟨'e', ['+'], _, .inl rfl, .inr (.inl rfl), run, ?_⟩
    rw [String.toList_append]
    rfl

theorem Digits.unsigned_exponential (digits : Digits) : Unsigned (digits.exponential "e+").toList := by
  have run := digitRun_toDigits digits.coefficient
  have power := exponent_power
    (((Nat.toDigits 10 digits.coefficient).length : Int) - 1 + digits.exponent)
  unfold exponential
  simp only
  split
  next none => exact absurd none run.1
  next first single =>
    rw [single] at run
    refine ⟨[first], [], _, whole_singleton (run.2 first List.mem_cons_self), .inl rfl, power, ?_⟩
    rw [String.toList_append, String.toList_singleton]
    rfl
  next first rest several spelled =>
    rw [spelled] at run
    obtain ⟨digit, others⟩ := List.forall_mem_cons.mp run.2
    refine ⟨[first], '.' :: rest, _, whole_singleton digit, .inr ⟨rest, ⟨?_, others⟩, rfl⟩, power, ?_⟩
    · rintro rfl
      exact several rfl
    · simp

theorem unsigned_digits (proper : digits.Proper) : Unsigned (Style.document.digits digits).toList := by
  unfold Style.digits
  simp only
  split
  · exact Digits.unsigned_positional proper
  · exact Digits.unsigned_exponential digits

theorem unsigned_single {magnitude : Option Binary}
    (above : ∀ number ∈ magnitude, 0 < number.significand) :
    Unsigned (Style.document.single (.finite false magnitude)).toList := by
  cases magnitude with
  | none =>
    have text : Style.document.single (.finite false none) = Style.document.digits ⟨0, 0⟩ := rfl
    rw [text]
    exact unsigned_digits (.inl rfl)
  | some number =>
    have text : Style.document.single (.finite false (some number)) =
        Style.document.digits (number.shortest Style.document.tie) := rfl
    rw [text]
    exact unsigned_digits (Binary.proper_shortest (above number rfl) _)

theorem number_single (isNegative : Bool) {magnitude : Option Binary}
    (above : ∀ number ∈ magnitude, 0 < number.significand) :
    Number (Style.document.single (.finite isNegative magnitude)).toList := by
  have unsigned := unsigned_single above
  cases isNegative with
  | false => exact ⟨[], _, .inl rfl, unsigned, rfl⟩
  | true =>
    have signed : Style.document.single (.finite true magnitude) =
        "-" ++ Style.document.single (.finite false magnitude) := by cases magnitude <;> rfl
    refine ⟨['-'], _, .inr rfl, unsigned, ?_⟩
    rw [signed, String.toList_append]
    rfl

/-- A bit pattern of a finite number has no significand, or one above zero. -/
theorem Single.significand_pos {bits : Nat} {isNegative : Bool} {number : Binary}
    (finite : Single.ofBits bits = .finite isNegative (some number)) : 0 < number.significand := by
  unfold ofBits at finite
  simp only at finite
  split at finite
  · split at finite <;> cases finite
  split at finite
  · split at finite
    · cases finite
    next fraction =>
      cases finite
      exact Nat.pos_of_ne_zero fraction
  · cases finite
    exact Nat.add_pos_left (Nat.pow_pos (by decide)) _

end Texts

end Decimal

end BoxDiagram
