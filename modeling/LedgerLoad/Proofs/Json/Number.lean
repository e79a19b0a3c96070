import LedgerLoad.Json.Writer
import LedgerLoad.Proofs.Json.Numeral

/-! # JSON numbers: what the writer puts down

An integer is written in letters that make a numeral without decimals and exponent, and of 64 bits
it is read back as itself (`datum_integer`). A finite double is written in letters that make a
numeral with decimals or an exponent (`writeFloat_letters`), so it is read as a double, though
perhaps not the same one. -/

namespace LedgerLoad.Json

open Decimal (Tie Interval)

/-! ### Decimal digits of a natural number -/

theorem digitOf_digitChar : ∀ d < 10, digitOf (Nat.digitChar d) = d := by decide

theorem digitChar_eq_zero : ∀ d < 10, Nat.digitChar d = '0' → d = 0 := by decide

/-- The digits of a number. -/
theorem isDigit_toDigits {n : Nat} : ∀ c ∈ Nat.toDigits 10 n, c.isDigit = true := fun _ hc =>
  Nat.isDigit_of_mem_toDigits (by decide) (by decide) hc

theorem head_toDigits (n : Nat) : ∃ c cs, Nat.toDigits 10 n = c :: cs ∧ (c = '0' → n = 0) := by
  induction n using Nat.strongRecOn with
  | ind n ih =>
    rcases Nat.lt_or_ge n 10 with h | h
    · refine ⟨n.digitChar, [], Nat.toDigits_of_lt_base h, fun hc => digitChar_eq_zero n h hc⟩
    · obtain ⟨c, cs, hcs, hz⟩ := ih (n / 10) (by omega)
      refine ⟨c, cs ++ [(n % 10).digitChar], ?_, fun hc => ?_⟩
      · rw [Nat.toDigits_of_base_le (by decide) h, hcs, List.cons_append]
      · have := hz hc
        omega

/-- The digits of a number have no zero in front, unless the number is zero. -/
theorem whole_toDigits (n : Nat) : Letters.Whole (Nat.toDigits 10 n) where
  ne_nil := Nat.toDigits_ne_nil
  isDigit := isDigit_toDigits
  leading c tail h := by
    obtain ⟨d, ds, hds, hz⟩ := head_toDigits n
    obtain ⟨rfl, rfl⟩ := List.cons.inj (hds.symm.trans h)
    rw [hz rfl, Nat.toDigits_zero] at h
    cases h

theorem ofDigits_append (ds : List Nat) (d : Nat) :
    Numeral.ofDigits (ds ++ [d]) = Numeral.ofDigits ds * 10 + d := by
  simp [Numeral.ofDigits]

theorem ofDigits_toDigits (n : Nat) : Numeral.ofDigits ((Nat.toDigits 10 n).map digitOf) = n := by
  induction n using Nat.strongRecOn with
  | ind n ih =>
    rcases Nat.lt_or_ge n 10 with h | h
    · rw [Nat.toDigits_of_lt_base h]
      simp [Numeral.ofDigits, digitOf_digitChar n h]
    · rw [Nat.toDigits_of_base_le (by decide) h, List.map_append, List.map_singleton,
        ofDigits_append, ih (n / 10) (by omega), digitOf_digitChar _ (Nat.mod_lt n (by decide))]
      omega

/-! ### Integers -/

/-- The letters of an integer. -/
def integerLetters (i : Int) : Letters := ⟨decide (i < 0), Nat.toDigits 10 i.natAbs, none, none⟩

theorem sound_integer (i : Int) : (integerLetters i).Sound :=
  ⟨whole_toDigits _, by simp [integerLetters], by simp [integerLetters]⟩

theorem toList_toString (i : Int) : (toString i).toList = (integerLetters i).toList := by
  cases i with
  | ofNat n =>
    show (Nat.repr n).toList = _
    simp [Letters.toList, integerLetters, Letters.unsigned, Letters.point, Letters.power]
  | negSucc n =>
    have hneg : Int.negSucc n < 0 := Int.negSucc_lt_zero n
    show (String.append "-" (Nat.repr (n + 1))).toList = _
    rw [show String.append "-" (Nat.repr (n + 1)) = "-" ++ Nat.repr (n + 1) from rfl,
      String.toList_append, Nat.toList_repr]
    simp [Letters.toList, integerLetters, hneg, Letters.unsigned, Letters.point, Letters.power]

/-- **An integer of 64 bits** is read back as itself. -/
theorem datum_integer {i : Int} (hlow : -2 ^ 63 ≤ i) (hhigh : i < 2 ^ 64) :
    (integerLetters i).numeral.datum = .int i := by
  have hvalue : Numeral.ofDigits (integerLetters i).numeral.whole = i.natAbs := ofDigits_toDigits _
  have hdecimals : (integerLetters i).numeral.decimals = none := rfl
  have hexponent : (integerLetters i).numeral.exponent = none := rfl
  unfold Numeral.datum
  dsimp only
  rw [hvalue, hdecimals, hexponent]
  rcases Int.lt_or_le i 0 with h | h
  · have hneg : (integerLetters i).numeral.negative = true := decide_eq_true h
    have hpos : 0 < i.natAbs := by omega
    have hle : i.natAbs ≤ 2 ^ 63 := by omega
    have hback : -Int.ofNat i.natAbs = i := by
      rw [Int.ofNat_eq_natCast]
      omega
    rw [hneg, decide_eq_true hpos, decide_eq_true hle, hback]
    rfl
  · have hneg : (integerLetters i).numeral.negative = false := decide_eq_false (by omega)
    have hlt : i.natAbs < 2 ^ 64 := by omega
    have hback : Int.ofNat i.natAbs = i := by
      rw [Int.ofNat_eq_natCast]
      omega
    rw [hneg, decide_eq_true hlt, hback]
    rfl

/-! ### Shortest digits -/

theorem onGrid_ne_zero {i : Interval} {tie : Tie} {power : Int} {n : Nat} (hlow : 0 < i.low)
    (h : i.onGrid tie power = some n) : n ≠ 0 := by
  have hfactor : 0 < (Decimal.scaled 1 i.unit (-power)).1 := by
    simp only [Decimal.scaled]
    exact Nat.mul_pos (Nat.mul_pos Nat.one_pos (Nat.two_pow_pos _)) (Nat.pow_pos (by decide))
  have hzero := Nat.mul_pos hlow hfactor
  unfold Interval.onGrid at h
  generalize (Decimal.scaled 1 i.unit (-power)).1 = factor at h hfactor hzero
  generalize Decimal.scaled i.value i.unit (-power) = num at h
  obtain ⟨num, den⟩ := num
  dsimp only at h
  rintro rfl
  -- zero is no point of the interval, and it is only chosen as the point below
  rcases Nat.eq_zero_or_pos (num / den) with hdown | hdown
  · rw [hdown] at h
    have hout : (if i.closed = true then
        (decide (i.low * factor ≤ 0 * den) && decide (0 * den ≤ i.high * factor))
        else (decide (i.low * factor < 0 * den) && decide (0 * den < i.high * factor))) =
          false := by
      have hup : ¬ i.low * factor ≤ 0 := by omega
      have hbelow : ¬ i.low * factor < 0 := by omega
      simp [hup, hbelow]
    rw [hout] at h
    split at h <;> simp_all
  · split at h
    · cases h
    · have := Option.some.inj h
      omega
    · have := Option.some.inj h
      omega
    · split at h
      · have := Option.some.inj h
        omega
      · split at h
        · have := Option.some.inj h
          omega
        · cases tie <;> have := Option.some.inj h
          · split at this <;> omega
          · omega

theorem search_zero {i : Interval} {tie : Tie} {top : Int} (hlow : 0 < i.low) (more tried : Nat)
    (h : (i.search tie top more tried).digits = 0) :
    (i.search tie top more tried).exponent = 0 := by
  induction more generalizing tried with
  | zero => rfl
  | succ more ih =>
    unfold Interval.search at h ⊢
    dsimp only at h ⊢
    split
    · rename_i n hn
      rw [hn] at h
      exact absurd h (onGrid_ne_zero hlow hn)
    · rename_i hn
      rw [hn] at h
      exact ih (tried + 1) h

theorem trim_zero (fuel : Nat) (d : Decimal.Digits) (h : (d.trim fuel).digits = 0) :
    d.digits = 0 ∧ d.trim fuel = d := by
  induction fuel generalizing d with
  | zero => exact ⟨h, rfl⟩
  | succ fuel ih =>
    unfold Decimal.Digits.trim at h ⊢
    by_cases hd : d.digits ≠ 0 ∧ d.digits % 10 = 0
    · rw [if_pos hd] at h
      have hzero : d.digits / 10 = 0 := (ih _ h).1
      omega
    · rw [if_neg hd] at h ⊢
      exact ⟨h, rfl⟩

/-- Without digits there is no power of ten either. -/
theorem shortest_zero {tie : Tie} {mantissa : Nat} {exponent : Int}
    (h : (Decimal.shortest tie mantissa exponent).digits = 0) :
    (Decimal.shortest tie mantissa exponent).exponent = 0 := by
  unfold Decimal.shortest at h ⊢
  split
  · rfl
  · rename_i hm
    rw [if_neg hm] at h
    dsimp only at h ⊢
    have hlow : 0 < (Interval.of mantissa exponent).low := by
      simp only [Interval.of]
      split <;> omega
    obtain ⟨hzero, htrim⟩ := trim_zero 17 _ h
    rw [htrim]
    exact search_zero hlow 17 0 hzero

/-! ### Doubles -/

theorem digits_zero : Letters.Digits ['0'] := by
  refine ⟨List.cons_ne_nil _ _, fun c hc => ?_⟩
  rw [List.mem_singleton.mp hc]
  rfl

theorem digits_replicate (n : Nat) : ∀ c ∈ List.replicate n '0', c.isDigit = true := by
  intro c hc
  rw [List.eq_of_mem_replicate hc]
  rfl

theorem isDigit_append {cs ds : List Char} (hcs : ∀ c ∈ cs, c.isDigit = true)
    (hds : ∀ c ∈ ds, c.isDigit = true) : ∀ c ∈ cs ++ ds, c.isDigit = true := fun c hc =>
  (List.mem_append.mp hc).elim (hcs c) (hds c)

/-- A text is a numeral with decimals or an exponent, without a sign. -/
def Fractional (cs : List Char) : Prop :=
  ∃ l : Letters, l.Sound ∧ l.negative = false ∧ (l.decimals.isSome ∨ l.exponent.isSome) ∧
    l.toList = cs

/-- Digits with zeros behind them and a point. -/
theorem fractional_whole {n : Nat} {places : Int} (hplaces : places ≤ 0) (hz : n = 0 → places = 0) :
    Fractional (Decimal.pointed n places ++ ".0").toList := by
  refine ⟨⟨false, Nat.toDigits 10 n ++ List.replicate (-places).toNat '0', some ['0'], none⟩,
    ⟨?_, ?_, by simp⟩, rfl, Or.inl rfl, ?_⟩
  · refine ⟨⟨by simp [Nat.toDigits_ne_nil],
      isDigit_append isDigit_toDigits (digits_replicate _)⟩, ?_⟩
    intro c tail h
    obtain ⟨d, ds, hds, hzero⟩ := head_toDigits n
    have hd : d = '0' := by
      rw [hds, List.cons_append] at h
      exact (List.cons.inj h).1
    have hn := hzero hd
    rw [hn, hz hn, Nat.toDigits_zero] at h
    cases h
  · intro ds hds
    obtain rfl := Option.some.inj hds
    exact digits_zero
  · unfold Decimal.pointed
    rw [if_pos hplaces, String.toList_append, String.toList_ofList]
    simp [Letters.toList, Letters.unsigned, Letters.point, Letters.power]

/-- Digits with a point among them. -/
theorem fractional_point {n : Nat} {places : Int} (hplaces : 0 < places) :
    Fractional (Decimal.pointed n places).toList := by
  obtain ⟨k, rfl⟩ : ∃ k : Nat, places = k + 1 := ⟨(places - 1).toNat, by omega⟩
  have htoNat : ((k : Int) + 1).toNat = k + 1 := by omega
  unfold Decimal.pointed
  rw [if_neg (by omega), String.toList_ofList, htoNat]
  generalize hpad :
    List.replicate (k + 1 + 1 - (Nat.toDigits 10 n).length) '0' ++ Nat.toDigits 10 n =
    padded
  have hdigits : ∀ c ∈ padded, c.isDigit = true := by
    rw [← hpad]
    exact isDigit_append (digits_replicate _) isDigit_toDigits
  have hlength : k + 2 ≤ padded.length := by
    rw [← hpad, List.length_append, List.length_replicate]
    omega
  refine ⟨⟨false, padded.take (padded.length - (k + 1)),
    some (padded.drop (padded.length - (k + 1))),
    none⟩, ⟨⟨⟨?_, fun c hc => hdigits c (List.mem_of_mem_take hc)⟩, ?_⟩, ?_, by simp⟩, rfl,
    Or.inl rfl, ?_⟩
  · exact List.ne_nil_of_length_pos (by rw [List.length_take]; omega)
  · intro c tail h
    rcases Nat.lt_or_ge (Nat.toDigits 10 n).length (k + 2) with hshort | hlong
    · -- zeros were put in front, and only one digit stands before the point
      have hlen : padded.length = k + 2 := by
        rw [← hpad, List.length_append, List.length_replicate]
        omega
      have := congrArg List.length h
      rw [List.length_take, hlen] at this
      simp at this
    · have hno : k + 1 + 1 - (Nat.toDigits 10 n).length = 0 := by omega
      rw [hno, List.replicate_zero, List.nil_append] at hpad
      have hsplit := List.take_append_drop (padded.length - (k + 1)) padded
      dsimp only at h
      rw [h, ← hpad] at hsplit
      exact (whole_toDigits n).leading c _ hsplit.symm
  · intro ds hds
    obtain rfl := Option.some.inj hds
    exact ⟨List.ne_nil_of_length_pos (by rw [List.length_drop]; omega),
      fun c hc => hdigits c (List.mem_of_mem_drop hc)⟩
  · simp [Letters.toList, Letters.unsigned, Letters.point, Letters.power]

/-- One digit, perhaps more behind a point, and an exponent. -/
theorem fractional_exponent (n : Nat) (e : Int) :
    Fractional ((match Nat.toDigits 10 n with
      | [] => []
      | [c] => [c]
      | c :: rest => c :: '.' :: rest) ++ 'e' :: (writeExponent e).toList) := by
  obtain ⟨c, cs, hcs, -⟩ := head_toDigits n
  have hdigits := isDigit_toDigits (n := n)
  rw [hcs] at hdigits
  have hpower : (writeExponent e).toList =
      (if decide (e < 0) then '-' else '+') :: Nat.toDigits 10 e.natAbs := by
    have htext := toList_toString e
    unfold writeExponent
    by_cases he : e < 0
    · rw [if_pos he, htext]
      simp [Letters.toList, integerLetters, he, Letters.unsigned, Letters.point, Letters.power]
    · rw [if_neg he, String.toList_append, htext]
      simp [Letters.toList, integerLetters, he, Letters.unsigned, Letters.point, Letters.power]
  have hexponent : Letters.Digits (Nat.toDigits 10 e.natAbs) :=
    ⟨Nat.toDigits_ne_nil, isDigit_toDigits⟩
  refine ⟨⟨false, [c], if cs = [] then none else some cs,
    some (decide (e < 0), Nat.toDigits 10 e.natAbs)⟩, ⟨⟨⟨by simp, ?_⟩, by simp⟩, ?_, ?_⟩, rfl,
    Or.inr rfl, ?_⟩
  · intro d hd
    exact hdigits d (List.mem_cons.mpr (Or.inl (List.mem_singleton.mp hd)))
  · intro ds hds
    by_cases hnil : cs = []
    · simp [hnil] at hds
    · obtain rfl : cs = ds := by simpa [hnil] using hds
      exact ⟨hnil, fun d hd => hdigits d (List.mem_cons_of_mem c hd)⟩
  · intro x hx
    obtain rfl := Option.some.inj hx
    exact hexponent
  · rw [hcs, hpower]
    cases cs <;> simp [Letters.toList, Letters.unsigned, Letters.point, Letters.power]

theorem fractional_writeDigits {d : Decimal.Digits} (hz : d.digits = 0 → d.exponent = 0) :
    Fractional (writeDigits d).toList := by
  unfold writeDigits
  dsimp only
  split
  · rename_i h
    exact fractional_whole (by omega) fun hn => by rw [hz hn]; rfl
  · rename_i h
    split
    · exact fractional_point (by omega)
    · rw [String.toList_ofList]
      exact fractional_exponent _ _

/-- **A finite double is written** as a numeral with decimals or an exponent. -/
theorem writeFloat_letters {x : Float} {negative : Bool} {mantissa : Nat} {exponent : Int}
    (h : Decimal.Parts.of x = .finite negative mantissa exponent) :
    ∃ l : Letters, l.Sound ∧ (l.decimals.isSome ∨ l.exponent.isSome) ∧
      (writeFloat x).toList = l.toList := by
  have habs : Fractional (if mantissa = 0 then "0.0"
      else writeDigits (Decimal.shortest .toEven mantissa exponent)).toList := by
    split
    · exact ⟨⟨false, ['0'], some ['0'], none⟩, ⟨⟨digits_zero, by simp⟩,
        fun ds hds => Option.some.inj hds ▸ digits_zero, by simp⟩, rfl, Or.inl rfl, rfl⟩
    · exact fractional_writeDigits shortest_zero
  obtain ⟨l, hsound, hneg, hsome, hlist⟩ := habs
  refine ⟨{ l with negative := negative }, ⟨hsound.whole, hsound.decimals, hsound.exponent⟩,
    hsome, ?_⟩
  rw [writeFloat, h]
  dsimp only
  unfold Decimal.signed
  rw [Letters.toList, hneg] at hlist
  cases negative
  · simp only [Bool.false_eq_true, if_false]
    rw [← hlist]
    rfl
  · simp only [if_true]
    rw [String.toList_append, ← hlist]
    rfl

end LedgerLoad.Json
