import LedgerLoad.Proofs.Double.Rounding

/-! # Doubles that are alike

Two doubles are alike if they are the same or equal as numbers, which leaves the two zeros. A double
is so up to its place `onLine` (`alike_iff_onLine`), and sums, differences and quotients of doubles
that are alike are alike (`Alike.add`, `Alike.sub`, `Alike.div`). -/

namespace LedgerLoad.Double

open Float.Model (UnpackedFloat Format)
open Float.Model.UnpackedFloat (Sign)

/-- The same double, or an equal number. -/
def Alike (x y : Float) : Prop := x = y ∨ (x == y) = true

/-- The place of a double on the line of all doubles, below which is what is no number. -/
def onLine (x : Float) : WithBot ℤ := if x.isNaN then ⊥ else place x

section Places

variable {x y z : Float}

theorem onLine_of_isNaN (h : x.isNaN = true) : onLine x = ⊥ := if_pos h

theorem onLine_of_number (h : x.isNaN = false) : onLine x = place x := by
  rw [onLine, h]
  rfl

/-- **Doubles are alike** exactly if they have one place. -/
theorem alike_iff_onLine : Alike x y ↔ onLine x = onLine y := by
  constructor
  · rintro (rfl | h)
    · rfl
    · obtain ⟨hx, hy, hplace⟩ := beq_iff.mp h
      rw [onLine_of_number hx, onLine_of_number hy, hplace]
  · intro h
    cases hx : x.isNaN with
    | true =>
      rw [onLine_of_isNaN hx] at h
      cases hy : y.isNaN with
      | true =>
        rw [Float.isNaN_eq_decide_eq_nan, decide_eq_true_eq] at hx hy
        exact Or.inl (hx.trans hy.symm)
      | false =>
        rw [onLine_of_number hy] at h
        exact absurd h.symm WithBot.coe_ne_bot
    | false =>
      cases hy : y.isNaN with
      | true =>
        rw [onLine_of_number hx, onLine_of_isNaN hy] at h
        exact absurd h WithBot.coe_ne_bot
      | false =>
        rw [onLine_of_number hx, onLine_of_number hy] at h
        exact Or.inr (beq_iff.mpr ⟨hx, hy, WithBot.coe_injective h⟩)

theorem Alike.refl (x : Float) : Alike x x := Or.inl rfl

theorem Alike.trans (hxy : Alike x y) (hyz : Alike y z) : Alike x z := by
  rw [alike_iff_onLine] at *
  exact hxy.trans hyz

theorem lt_iff_onLine : x < y ↔ ⊥ < onLine x ∧ onLine x < onLine y := by
  rw [lt_iff]
  cases hx : x.isNaN with
  | true => simp [onLine_of_isNaN hx]
  | false =>
    cases hy : y.isNaN with
    | true => simp [onLine_of_isNaN hy]
    | false => simp [onLine_of_number hx, onLine_of_number hy]

theorem le_iff_onLine : x ≤ y ↔ ⊥ < onLine x ∧ onLine x ≤ onLine y := by
  rw [le_iff]
  cases hx : x.isNaN with
  | true => simp [onLine_of_isNaN hx]
  | false =>
    cases hy : y.isNaN with
    | true => simp [onLine_of_isNaN hy, onLine_of_number hx]
    | false => simp [onLine_of_number hx, onLine_of_number hy]

end Places

/-! ### Parts -/

/-- The same parts, or those of two zeros. -/
def Twins (u v : UnpackedFloat) : Prop := u = v ∨ ∃ s t, u = .zero s ∧ v = .zero t

section Parts

variable {u v w : UnpackedFloat} {x y x' y' : Float}

theorem Twins.trans (huv : Twins u v) (hvw : Twins v w) : Twins u w := by
  rcases huv with rfl | ⟨s, t, rfl, rfl⟩
  · exact hvw
  · rcases hvw with rfl | ⟨s', t', -, rfl⟩
    · exact Or.inr ⟨_, _, rfl, rfl⟩
    · exact Or.inr ⟨_, _, rfl, rfl⟩

/-- What is alike has the parts of one double, or of two zeros. -/
theorem Alike.twins (h : Alike x y) : Twins x.toModel.unpack y.toModel.unpack := by
  rcases h with rfl | h
  · exact Or.inl rfl
  · obtain ⟨-, -, rfl | ⟨rfl, rfl⟩ | ⟨rfl, rfl⟩⟩ := Float.beq_iff_ne_nan_and_eq.mp h
    · exact Or.inl rfl
    · exact Or.inr ⟨_, _, rfl, rfl⟩
    · exact Or.inr ⟨_, _, rfl, rfl⟩

theorem Twins.alike (h : Twins u v) : Alike (ofParts u) (ofParts v) := by
  rcases h with rfl | ⟨s, t, rfl, rfl⟩
  · exact Or.inl rfl
  · exact Or.inr (by cases s <;> cases t <;> decide +kernel)

/-- An operation whose results with the two zeros are twins has twins for twins. -/
theorem Twins.congr (op : UnpackedFloat → UnpackedFloat)
    (hop : ∀ s t, Twins (op (.zero s)) (op (.zero t))) (h : Twins u v) : Twins (op u) (op v) := by
  rcases h with rfl | ⟨s, t, rfl, rfl⟩
  · exact Or.inl rfl
  · exact hop s t

/-- Two zeros add up to a zero, and whatever else is added to a zero does not show its sign. -/
theorem twins_add (s t : Sign) (v : UnpackedFloat) :
    Twins (.add .binary64 (.zero s) v) (.add .binary64 (.zero t) v) ∧
      Twins (.add .binary64 v (.zero s)) (.add .binary64 v (.zero t)) := by
  cases v with
  | zero w =>
    cases s <;> cases t <;> cases w <;> exact ⟨Or.inr ⟨_, _, rfl, rfl⟩, Or.inr ⟨_, _, rfl, rfl⟩⟩
  | _ => exact ⟨Or.inl rfl, Or.inl rfl⟩

theorem twins_sub (s t : Sign) (v : UnpackedFloat) :
    Twins (.sub .binary64 (.zero s) v) (.sub .binary64 (.zero t) v) ∧
      Twins (.sub .binary64 v (.zero s)) (.sub .binary64 v (.zero t)) := by
  cases v with
  | zero w =>
    cases s <;> cases t <;> cases w <;> exact ⟨Or.inr ⟨_, _, rfl, rfl⟩, Or.inr ⟨_, _, rfl, rfl⟩⟩
  | _ => exact ⟨Or.inl rfl, Or.inl rfl⟩

theorem twins_div (s t : Sign) (v : UnpackedFloat) :
    Twins (.div .binary64 (.zero s) v) (.div .binary64 (.zero t) v) := by
  cases v with
  | zero | notANumber => exact Or.inl rfl
  | _ => exact Or.inr ⟨_, _, rfl, rfl⟩

theorem twins_mul (s t : Sign) (v : UnpackedFloat) :
    Twins (.mul .binary64 (.zero s) v) (.mul .binary64 (.zero t) v) := by
  cases v with
  | infinity | notANumber => exact Or.inl rfl
  | _ => exact Or.inr ⟨_, _, rfl, rfl⟩

theorem Alike.add (hx : Alike x x') (hy : Alike y y') : Alike (x + y) (x' + y') :=
  ((hx.twins.congr (.add .binary64 · y.toModel.unpack) fun s t => (twins_add s t _).1).trans
    (hy.twins.congr (.add .binary64 x'.toModel.unpack) fun s t => (twins_add s t _).2)).alike

theorem Alike.sub (hx : Alike x x') (hy : Alike y y') : Alike (x - y) (x' - y') :=
  ((hx.twins.congr (.sub .binary64 · y.toModel.unpack) fun s t => (twins_sub s t _).1).trans
    (hy.twins.congr (.sub .binary64 x'.toModel.unpack) fun s t => (twins_sub s t _).2)).alike

theorem Alike.div (h : Alike x x') (y : Float) : Alike (x / y) (x' / y) :=
  (h.twins.congr (.div .binary64 · y.toModel.unpack) fun s t => twins_div s t _).alike

theorem Alike.mul (h : Alike x x') (y : Float) : Alike (x * y) (x' * y) :=
  (h.twins.congr (.mul .binary64 · y.toModel.unpack) fun s t => twins_mul s t _).alike

/-- What is alike is rounded to one word. -/
theorem Alike.toUInt64 (h : Alike x y) : x.toUInt64 = y.toUInt64 := by
  have hword (z : Float) :
      z.toUInt64 = UInt64.ofNatClamp (z.toModel.unpack.toInt 0 (2 ^ 64 - 1)).toNat := rfl
  rw [hword, hword]
  rcases h.twins with heq | ⟨s, t, hx, hy⟩
  · rw [heq]
  · rw [hx, hy]
    rfl

/-- Above zero, only a double itself is alike. -/
theorem Alike.eq_of_pos (h : Alike x y) (hx : 0 < x) : x = y := by
  rcases h with rfl | h
  · rfl
  · obtain ⟨-, -, rfl | ⟨rfl, -⟩ | ⟨rfl, -⟩⟩ := Float.beq_iff_ne_nan_and_eq.mp h
    · rfl
    · exact absurd hx (by decide +kernel)
    · exact absurd hx (by decide +kernel)

end Parts

end LedgerLoad.Double
