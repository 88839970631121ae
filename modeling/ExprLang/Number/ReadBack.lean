/-
What is written of a number reads back as the same number: the text of a finite
number is a numeral of the language, and it stands for that number and no other.

`read?_chars`: reading undoes writing, for infinities and the NaN too. So numbers
that are written alike are equal (`chars_injective`).
-/
import ExprLang.Number.Text
import ExprLang.Number.Numeral

namespace ExprLang

/-! ## Numerals of digits and at most one point -/

namespace Numeral

theorem digits_of_all {cs : List Char} (h : ∀ c ∈ cs, c.isDigit = true) :
    digits cs = (cs, []) := by
  have ht : (cs ++ []).takeWhile Char.isDigit = cs ++ [] := List.takeWhile_append_of_pos h
  have hd : (cs ++ []).dropWhile Char.isDigit = [] := List.dropWhile_append_of_pos h
  rw [List.append_nil] at ht hd
  rw [digits, ht, hd]

theorem digits_of_point {cs rest : List Char} (h : ∀ c ∈ cs, c.isDigit = true) :
    digits (cs ++ '.' :: rest) = (cs, '.' :: rest) := by
  rw [digits, List.takeWhile_append_of_pos h, List.dropWhile_append_of_pos h]
  simp

theorem decimal?_of_digits {cs : List Char} (hne : cs ≠ []) (h : ∀ c ∈ cs, c.isDigit = true) :
    decimal? cs = some ⟨natural cs, 0⟩ := by
  simp [decimal?, digits_of_all h, exponent?, hne]

theorem decimal?_of_point {whole fraction : List Char} (hne : whole ≠ [])
    (hw : ∀ c ∈ whole, c.isDigit = true) (hf : ∀ c ∈ fraction, c.isDigit = true) :
    decimal? (whole ++ '.' :: fraction) =
      some ⟨natural (whole ++ fraction), -(fraction.length : Int)⟩ := by
  simp [decimal?, digits_of_point hw, digits_of_all hf, exponent?, hne]

/-- Zeros in front change nothing, and digits write the number that they were made of. -/
theorem natural_zeros_toDigits (k n : Nat) :
    natural (List.replicate k '0' ++ Nat.toDigits 10 n) = n := by
  rw [natural, Nat.ofDigitChars_append, Nat.ofDigitChars_replicate_zero, Nat.mul_zero]
  exact Nat.ofDigitChars_toDigits (by decide) (by decide)

/-- Zeros behind multiply by ten. -/
theorem natural_toDigits_zeros (k n : Nat) :
    natural (Nat.toDigits 10 n ++ List.replicate k '0') = n * Nat.pow 10 k := by
  rw [natural, Nat.ofDigitChars_append, Nat.ofDigitChars_replicate_zero,
    Nat.ofDigitChars_toDigits (by decide) (by decide), Nat.mul_comm, Nat.pow_eq]

/-- A text that begins with a digit has no sign. -/
theorem sign_of_isDigit {c : Char} {cs : List Char} (h : c.isDigit = true) :
    sign (c :: cs) = (false, c :: cs) := by
  unfold sign
  split
  · next heq => cases heq; exact absurd h (by decide)
  · next heq => cases heq; exact absurd h (by decide)
  · rfl

end Numeral

/-! ## The positional form of a decimal -/

namespace Decimal

theorem isDigit_of_mem_toDigits {n : Nat} {c : Char} (h : c ∈ Nat.toDigits 10 n) :
    c.isDigit = true :=
  Nat.isDigit_of_mem_toDigits (by decide) (by decide) h

theorem isDigit_of_mem_zeros {n : Nat} {c : Char} (h : c ∈ List.replicate n '0') :
    c.isDigit = true := by
  rw [(List.mem_replicate.1 h).2]; rfl

/-- The positional form: digits, or digits on both sides of a point. -/
theorem digits_shape (d : Decimal) :
    (0 ≤ d.exponent ∧ d.digits ≠ [] ∧ (∀ c ∈ d.digits, c.isDigit = true) ∧
      Numeral.natural d.digits = d.coefficient * Nat.pow 10 d.exponent.toNat) ∨
    (d.exponent < 0 ∧ ∃ whole fraction, d.digits = whole ++ '.' :: fraction ∧ whole ≠ [] ∧
      (∀ c ∈ whole, c.isDigit = true) ∧ (∀ c ∈ fraction, c.isDigit = true) ∧
      Numeral.natural (whole ++ fraction) = d.coefficient ∧
      -(fraction.length : Int) = d.exponent) := by
  by_cases h : 0 ≤ d.exponent
  · refine .inl ⟨h, ?_, ?_, ?_⟩ <;> simp only [digits, h, if_true]
    · simp [Nat.toDigits_ne_nil]
    · intro c hc
      rcases List.mem_append.1 hc with hc | hc
      · exact isDigit_of_mem_toDigits hc
      · exact isDigit_of_mem_zeros hc
    · exact Numeral.natural_toDigits_zeros _ _
  · refine .inr ⟨by omega, ?_⟩
    simp only [digits, h, if_false]
    generalize hp : List.replicate
      ((-d.exponent).toNat + 1 - (Nat.toDigits 10 d.coefficient).length) '0' ++
        Nat.toDigits 10 d.coefficient = padded
    have hall : ∀ c ∈ padded, c.isDigit = true := by
      intro c hc
      rcases List.mem_append.1 (hp ▸ hc) with hc | hc
      · exact isDigit_of_mem_zeros hc
      · exact isDigit_of_mem_toDigits hc
    have hlen : (-d.exponent).toNat < padded.length := by
      rw [← hp]; simp only [List.length_append, List.length_replicate]; omega
    refine ⟨_, _, rfl, ?_, fun c hc => hall c (List.mem_of_mem_take hc),
      fun c hc => hall c (List.mem_of_mem_drop hc), ?_, ?_⟩
    · intro hnil
      have := congrArg List.length hnil
      simp only [List.length_take, List.length_nil] at this
      omega
    · rw [List.take_append_drop, ← hp]; exact Numeral.natural_zeros_toDigits _ _
    · rw [List.length_drop]; omega

/-- The positional form is a numeral of the same magnitude. -/
theorem decimal?_digits (d : Decimal) :
    ∃ e, Numeral.decimal? d.digits = some e ∧ e.magnitude? = d.magnitude? := by
  rcases d.digits_shape with ⟨he, hne, hd, hv⟩ | ⟨_, whole, fraction, hs, hne, hw, hf, hv, he⟩
  · refine ⟨_, Numeral.decimal?_of_digits hne hd, ?_⟩
    have hz : Nat.pow 10 0 = 1 := rfl
    simp only [magnitude?, hv, he, if_true, Int.le_refl, Int.toNat_zero, hz, Nat.mul_one]
  · refine ⟨_, hs ▸ Numeral.decimal?_of_point hne hw hf, ?_⟩
    rw [hv, he]

/-- The positional form begins with a digit. -/
theorem digits_head (d : Decimal) : ∃ c cs, d.digits = c :: cs ∧ c.isDigit = true := by
  rcases d.digits_shape with ⟨_, hne, hd, _⟩ | ⟨_, whole, fraction, hs, hne, hw, _⟩
  · obtain ⟨c, cs, h⟩ := List.exists_cons_of_ne_nil hne
    exact ⟨c, cs, h, hd c (by rw [h]; exact List.mem_cons_self)⟩
  · obtain ⟨c, cs, h⟩ := List.exists_cons_of_ne_nil hne
    exact ⟨c, cs ++ '.' :: fraction, by rw [hs, h]; rfl, hw c (by rw [h]; exact List.mem_cons_self)⟩

end Decimal

/-! ## The text of a number -/

namespace Number

theorem sign_chars (negative : Bool) (m : Magnitude) :
    Numeral.sign (chars (.finite negative m)) = (negative, m.shortestDecimal.digits) := by
  cases negative with
  | true => rfl
  | false =>
    obtain ⟨c, cs, h, hc⟩ := m.shortestDecimal.digits_head
    show Numeral.sign m.shortestDecimal.digits = _
    rw [h, Numeral.sign_of_isDigit hc]

/-- **The text of a number reads back as the number.** -/
theorem read?_chars (x : Number) : Numeral.read? x.chars = some x := by
  cases x with
  | nan => decide +kernel
  | infinite negative => cases negative <;> decide +kernel
  | finite negative m =>
    obtain ⟨e, he, hm⟩ := Decimal.decimal?_digits m.shortestDecimal
    rw [m.shortestDecimal_magnitude?] at hm
    simp only [Numeral.read?, sign_chars, he, Decimal.toNumber, hm]

/-- Numbers that are written alike are equal. -/
theorem chars_injective {x y : Number} (h : x.chars = y.chars) : x = y := by
  have := read?_chars x
  rw [h, read?_chars y] at this
  exact (Option.some.inj this).symm

end Number
end ExprLang
