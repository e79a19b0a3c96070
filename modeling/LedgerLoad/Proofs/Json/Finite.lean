import LedgerLoad.Json.Reader
import LedgerLoad.Proofs.Double.Finite

/-! # Numbers that are read are finite

A numeral that is too large is unreadable, so no reader gets an infinite double from a text
(`Json.bounded_read`), whatever the text is. -/

namespace LedgerLoad

/-! ### Numerals -/

namespace Json.Numeral

theorem isInf_scaleDown (steps : Nat) {x : Float} {n : Nat} (hx : x.isInf = false) (hn : 1 ≤ n) :
    (scaleDown steps x n).isInf = false := by
  induction steps generalizing x n with
  | zero => exact hx
  | succ steps ih =>
    rw [scaleDown]
    split_ifs with hlast hzero
    · exact Double.isInf_div hx (Double.le_steps_power hn hlast)
    · exact hx
    · refine ih (Double.isInf_div hx (Double.le_steps_power ?_ ?_)) ?_ <;> omega

theorem isInf_ofNat {n : Nat} (hn : n < 2 ^ 64) : (Float.ofNat n).isInf = false := by
  have hlt := Double.steps_ofNat_lt hn
  have hfar : (20 + -52 + 54 + 1076 : Int).toNat * 2 ^ 52 < Double.farthest := by decide
  rw [Double.isInf_eq_false]
  omega

theorem isInf_scale {word : Nat} {exponent : Int} {x : Float} (hword : word < 2 ^ 64)
    (h : scale word exponent = some x) : x.isInf = false := by
  have hofNat := isInf_ofNat hword
  unfold scale at h
  cases exponent with
  | ofNat n =>
    dsimp only at h
    split_ifs at h with hsmall hinf hzero
    · obtain rfl := Option.some.inj h
      exact Bool.eq_false_iff.mpr hinf
    · obtain rfl := Option.some.inj h
      exact hofNat
  | negSucc n =>
    obtain rfl := Option.some.inj h
    exact isInf_scaleDown 4 hofNat (by omega)

theorem value_push_lt {w : Word} (h : w.value < 2 ^ 64) (digit : Nat) :
    (w.push digit).value < 2 ^ 64 := by
  unfold Word.push
  dsimp only
  split_ifs with hfull
  · exact h
  · simp only [Bool.or_eq_true, decide_eq_true_eq, not_or, Nat.not_le] at hfull
    exact hfull.2

theorem value_append_lt {value : Nat} (h : value < 2 ^ 64) (ds : List Nat) :
    (Word.append value ds).value < 2 ^ 64 := by
  have hfold (w : Word) (hw : w.value < 2 ^ 64) : (ds.foldl Word.push w).value < 2 ^ 64 := by
    induction ds generalizing w with
    | nil => exact hw
    | cons d ds ih => exact ih (w.push d) (value_push_lt hw d)
  exact hfold ⟨value, false, 0, 0⟩ h

/-- The double of a numeral is finite. -/
theorem isInf_toFloat {n : Numeral} {x : Float} (h : n.toFloat = some x) : x.isInf = false := by
  unfold toFloat at h
  dsimp only at h
  have hwhole : (Word.append 0 n.whole).value < 2 ^ 64 := value_append_lt (by decide) n.whole
  have hword := value_append_lt hwhole (n.decimals.getD [])
  generalize Word.append (Word.append 0 n.whole).value (n.decimals.getD []) = word at *
  obtain ⟨y, hy, rfl⟩ := Option.map_eq_some_iff.mp h
  have hfinite : y.isInf = false := by
    split at hy
    · exact isInf_scale hword hy
    · split_ifs at hy
      · exact isInf_scale hword hy
      · exact isInf_scale hword hy
      · obtain rfl := Option.some.inj hy
        decide +kernel
  split_ifs
  · exact Double.isInf_neg hfinite
  · exact hfinite

end Json.Numeral

/-! ### Data -/

mutual

/-- The doubles in a datum are finite, and its integers have 64 bits. -/
def Datum.Bounded : Datum → Prop
  | .int i => i.natAbs < 2 ^ 64
  | .float x => x.isInf = false
  | .list items => items.Bounded
  | .table entries => entries.Bounded
  | _ => True

/-- All items are bounded. -/
def Items.Bounded : Items → Prop
  | .cons head tail => head.Bounded ∧ tail.Bounded
  | _ => True

/-- All values are bounded. -/
def Entries.Bounded : Entries → Prop
  | .cons _ value tail => value.Bounded ∧ tail.Bounded
  | _ => True

end

theorem Datum.Bounded.asFloat {d : Datum} {x : Float} (h : d.Bounded) (hx : d.asFloat = .ok x) :
    x.isInf = false := by
  unfold Datum.asFloat at hx
  split at hx
  · obtain rfl := Except.ok.inj hx
    exact h
  · obtain rfl := Except.ok.inj hx
    rename_i i
    have hfinite := Json.Numeral.isInf_ofNat (n := i.natAbs) h
    unfold Datum.floatOfInt
    split_ifs
    · exact Double.isInf_neg hfinite
    · exact hfinite
  · cases hx

namespace Json

theorem Numeral.bounded_datum (n : Numeral) : n.datum.Bounded := by
  unfold Numeral.datum
  dsimp only
  split_ifs with hplain hminus
  · simp only [Bool.and_eq_true, decide_eq_true_eq] at hplain
    show (Int.ofNat _).natAbs < 2 ^ 64
    exact hplain.2
  · simp only [Bool.and_eq_true, decide_eq_true_eq] at hminus
    show (-Int.ofNat _).natAbs < 2 ^ 64
    rw [Int.natAbs_neg]
    show ofDigits n.whole < 2 ^ 64
    omega
  · split
    · rename_i x hx
      exact Numeral.isInf_toFloat hx
    · trivial

theorem bounded_word (expected : List UInt8) (d : Datum) (h : d.Bounded) (text : Bytes) :
    (word expected d text).1.Bounded := by
  unfold word
  split_ifs
  · exact h
  · trivial

theorem bounded_scalar (text : Bytes) : (scalar text).1.Bounded := by
  unfold scalar
  split
  · trivial
  · split_ifs
    · split <;> trivial
    · exact bounded_word _ .null trivial _
    · exact bounded_word _ (.bool true) trivial _
    · exact bounded_word _ (.bool false) trivial _
    · split
      · exact Numeral.bounded_datum _
      · trivial

mutual

theorem bounded_value (fuel : Nat) (text : Bytes) : (value fuel text).1.Bounded := by
  cases fuel with
  | zero => trivial
  | succ fuel =>
    rw [value]
    split
    · split
      · trivial
      · exact bounded_items fuel _
    · split
      · trivial
      · exact bounded_entries fuel _
    · exact bounded_scalar _

theorem bounded_items (fuel : Nat) (text : Bytes) : (items fuel text).1.Bounded := by
  cases fuel with
  | zero => trivial
  | succ fuel =>
    have hvalue := bounded_value fuel text
    rw [items]
    split
    · rename_i d heq
      rw [heq] at hvalue
      exact ⟨hvalue, trivial⟩
    · rename_i d rest heq
      rw [heq] at hvalue
      split
      · exact ⟨hvalue, bounded_items fuel _⟩
      · exact ⟨hvalue, trivial⟩
      · exact ⟨hvalue, trivial⟩

theorem bounded_entries (fuel : Nat) (text : Bytes) : (entries fuel text).1.Bounded := by
  cases fuel with
  | zero => trivial
  | succ fuel =>
    rw [entries]
    split
    · split
      · trivial
      · split
        · rename_i rest _
          have hvalue := bounded_value fuel rest
          split
          · rename_i d heq
            rw [heq] at hvalue
            exact ⟨hvalue, trivial⟩
          · rename_i d rest heq
            rw [heq] at hvalue
            split
            · exact ⟨hvalue, bounded_entries fuel _⟩
            · exact ⟨hvalue, trivial⟩
            · exact ⟨hvalue, trivial⟩
        · exact ⟨trivial, trivial⟩
    · trivial

end

/-- **What is read from a text is bounded**, whatever the text. -/
theorem bounded_read (text : Bytes) : (read text).datum.Bounded := by
  have hvalue := bounded_value (2 * text.length + 2) text
  unfold read
  split
  · rename_i heq
    rw [heq] at hvalue
    exact hvalue
  · rename_i heq
    rw [heq] at hvalue
    exact hvalue

end Json

end LedgerLoad
