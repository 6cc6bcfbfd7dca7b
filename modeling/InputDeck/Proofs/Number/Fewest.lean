/-
The decimal which the search finds is the shortest one.

On the coarsest grid where anything reads back as a number, the search takes what is nearest to it
(`isCoarsest_found`).  A decimal with fewer digits, or with as many digits on a finer grid, would be
below a power of ten which is not above the found one and so reads back as well.  But that power of
ten is on a coarser grid, unless the found decimal has a single digit.  Then nine tenths of the
power of ten read back as the power itself does, and that happens to one number only, which has
the two of them on one side (`le_of_nine_tenths`).

`isShortest_shortest` is what this file is for, with `IsShortest.unique`: the digits are determined
by the number.
-/
import InputDeck.Proofs.Number.Canonical
import InputDeck.Proofs.Number.Order

namespace InputDeck
namespace Magnitude

variable {m : Magnitude} {c d g d' g' : Nat}

/-! ## Decimals on grids -/

theorem ten_pow_le_ten_pow (h : g ≤ g') : Nat.pow 10 g ≤ Nat.pow 10 g' :=
  Nat.pow_le_pow_right (by decide) h

theorem ofGrid_le_ofGrid (h : d * Nat.pow 10 g ≤ d' * Nat.pow 10 g') :
    ofGrid d g ≤ ofGrid d' g' := by
  obtain ⟨k, -, -, -, hgrid⟩ := exists_grid_exponent
  rw [hgrid, hgrid]
  exact nearest_le_nearest_of_le (five_pow_pos k) h

theorem ofGrid_eq_of_le (h : ofGrid c g = m) (hc : c * Nat.pow 10 g ≤ d * Nat.pow 10 g)
    (hd : d * Nat.pow 10 g ≤ m.finest) : ofGrid d g = m := by
  have hfinest : ofGrid d g ≤ ofGrid m.finest 0 :=
    ofGrid_le_ofGrid (hd.trans_eq (Nat.mul_one _).symm)
  rw [ofGrid_finest] at hfinest
  exact eq_of_le_of_le hfinest (h ▸ ofGrid_le_ofGrid hc)

theorem ofGrid_eq_of_ge (h : ofGrid c g = m) (hc : d * Nat.pow 10 g ≤ c * Nat.pow 10 g)
    (hd : m.finest ≤ d * Nat.pow 10 g) : ofGrid d g = m := by
  have hfinest : ofGrid m.finest 0 ≤ ofGrid d g :=
    ofGrid_le_ofGrid ((Nat.mul_one _).trans_le hd)
  rw [ofGrid_finest] at hfinest
  exact eq_of_le_of_le (h ▸ ofGrid_le_ofGrid hc) hfinest

theorem ofGrid_error_cases (hfinite : m ≠ infinity) (h : ofGrid d g = m) :
    2 * |(m.finest : ℤ) - (d * Nat.pow 10 g : ℕ)| ≤ (Nat.pow 5 1074 : ℕ) ∨
      0x20000000000000 * |(m.finest : ℤ) - (d * Nat.pow 10 g : ℕ)| ≤ (m.finest : ℤ) := by
  obtain ⟨k, hk, -, hfinest, hgrid⟩ := exists_grid_exponent
  rw [← hk]
  rw [hgrid] at h
  subst h
  have herror := nearest_error_cases (five_pow_pos k) hfinite
  rw [← Nat.cast_mul, ← hfinest] at herror
  exact herror

theorem five_pow_le_finest (hzero : m ≠ zero) : Nat.pow 5 1074 ≤ m.finest :=
  Nat.le_mul_of_pos_left _ (units_pos hzero)

theorem ofGrid_error_half (hfinite : m ≠ infinity) (hzero : m ≠ zero) (h : ofGrid d g = m) :
    2 * |(m.finest : ℤ) - (d * Nat.pow 10 g : ℕ)| ≤ m.finest := by
  have hself := five_pow_le_finest hzero
  have herror := ofGrid_error_cases hfinite h
  have hnonneg := abs_nonneg ((m.finest : ℤ) - (d * Nat.pow 10 g : ℕ))
  generalize Nat.pow 5 1074 = unit at hself herror
  generalize |(m.finest : ℤ) - (d * Nat.pow 10 g : ℕ)| = error at herror hnonneg ⊢
  omega

/-! ## What a search finds -/

theorem neighbours_cases (m : Magnitude) (g : Nat) :
    m.neighbours g = [m.finest / Nat.pow 10 g, m.finest / Nat.pow 10 g + 1] ∧
        2 * (m.finest % Nat.pow 10 g) < Nat.pow 10 g ∨
      m.neighbours g = [m.finest / Nat.pow 10 g + 1, m.finest / Nat.pow 10 g] ∧
        Nat.pow 10 g ≤ 2 * (m.finest % Nat.pow 10 g) := by
  unfold neighbours
  dsimp only
  split
  · rename_i hlt
    exact Or.inl ⟨rfl, hlt⟩
  · rename_i hle
    exact Or.inr ⟨rfl, Nat.le_of_not_lt hle⟩

/-- With every decimal on a grid that is read as a number, one of the neighbours on its side is. -/
theorem ofGrid_neighbour (h : ofGrid c g = m) :
    c ≤ m.finest / Nat.pow 10 g ∧ ofGrid (m.finest / Nat.pow 10 g) g = m ∨
      m.finest / Nat.pow 10 g + 1 ≤ c ∧ ofGrid (m.finest / Nat.pow 10 g + 1) g = m := by
  have hstep := ten_pow_pos g
  rcases Nat.lt_or_ge (m.finest / Nat.pow 10 g) c with hlt | hle
  · refine Or.inr ⟨hlt, ofGrid_eq_of_ge h (Nat.mul_le_mul_right _ hlt) ?_⟩
    have hdiv := Nat.div_add_mod' m.finest (Nat.pow 10 g)
    have hmod := Nat.mod_lt m.finest hstep
    rw [Nat.add_mul, Nat.one_mul]
    omega
  · exact Or.inl ⟨hle, ofGrid_eq_of_le h (Nat.mul_le_mul_right _ hle) (Nat.div_mul_le_self _ _)⟩

theorem exists_onGrid?_of_ofGrid (h : ofGrid c g = m) : ∃ d, m.onGrid? g = some d := by
  rw [← Option.isSome_iff_exists, onGrid?, List.find?_isSome]
  rcases ofGrid_neighbour h with ⟨-, hlower⟩ | ⟨-, hupper⟩
  · refine ⟨_, ?_, beq_iff_eq.2 hlower⟩
    rcases neighbours_cases m g with ⟨hneighbours, -⟩ | ⟨hneighbours, -⟩ <;> simp [hneighbours]
  · refine ⟨_, ?_, beq_iff_eq.2 hupper⟩
    rcases neighbours_cases m g with ⟨hneighbours, -⟩ | ⟨hneighbours, -⟩ <;> simp [hneighbours]

theorem find?_pair {p : Nat → Bool} {a b : Nat} (h : [a, b].find? p = some d) :
    d = a ∨ d = b ∧ p a = false := by
  cases ha : p a with
  | true =>
      rw [List.find?_cons_of_pos ha] at h
      exact Or.inl (Option.some.inj h).symm
  | false =>
      rw [List.find?_cons_of_neg (by simp [ha])] at h
      have hmem := List.mem_of_find?_eq_some h
      exact Or.inr ⟨List.mem_singleton.1 hmem, rfl⟩

theorem onGrid?_cases (h : m.onGrid? g = some d) :
    d = m.finest / Nat.pow 10 g ∧ (2 * (m.finest % Nat.pow 10 g) < Nat.pow 10 g ∨
        ofGrid (m.finest / Nat.pow 10 g + 1) g ≠ m) ∨
      d = m.finest / Nat.pow 10 g + 1 ∧ (Nat.pow 10 g ≤ 2 * (m.finest % Nat.pow 10 g) ∨
        ofGrid (m.finest / Nat.pow 10 g) g ≠ m) := by
  unfold onGrid? at h
  rcases neighbours_cases m g with ⟨hneighbours, hrest⟩ | ⟨hneighbours, hrest⟩
  · rw [hneighbours] at h
    rcases find?_pair h with hlower | ⟨hupper, hlower⟩
    · exact Or.inl ⟨hlower, Or.inl hrest⟩
    · exact Or.inr ⟨hupper, Or.inr (beq_eq_false_iff_ne.1 hlower)⟩
  · rw [hneighbours] at h
    rcases find?_pair h with hupper | ⟨hlower, hupper⟩
    · exact Or.inr ⟨hupper, Or.inl hrest⟩
    · exact Or.inl ⟨hlower, Or.inr (beq_eq_false_iff_ne.1 hupper)⟩

/-- What is found on a grid is the nearest of all that read back, the upper one of two. -/
theorem onGrid?_closest (hfound : m.onGrid? g = some d) (h : ofGrid c g = m) :
    |((d * Nat.pow 10 g : ℕ) : ℤ) - m.finest| ≤ |((c * Nat.pow 10 g : ℕ) : ℤ) - m.finest| ∧
      (|((c * Nat.pow 10 g : ℕ) : ℤ) - m.finest| = |((d * Nat.pow 10 g : ℕ) : ℤ) - m.finest| →
        c ≤ d) := by
  have hside := ofGrid_neighbour h
  have hcases := onGrid?_cases hfound
  have hmod := Nat.mod_lt m.finest (ten_pow_pos g)
  have hdiv := Nat.div_add_mod' m.finest (Nat.pow 10 g)
  have hbelow (hc : c ≤ m.finest / Nat.pow 10 g) :
      c * Nat.pow 10 g ≤ m.finest / Nat.pow 10 g * Nat.pow 10 g := Nat.mul_le_mul_right _ hc
  have habove {n : Nat} (hn : n + 1 ≤ c) :
      n * Nat.pow 10 g + Nat.pow 10 g ≤ c * Nat.pow 10 g := by
    have hmul := Nat.mul_le_mul_right (Nat.pow 10 g) hn
    rwa [Nat.add_mul, Nat.one_mul] at hmul
  generalize m.finest / Nat.pow 10 g = lower at hside hcases hdiv hbelow
  generalize m.finest % Nat.pow 10 g = rest at hcases hmod hdiv
  have hc := abs_cases (((c * Nat.pow 10 g : ℕ) : ℤ) - m.finest)
  have hd := abs_cases (((d * Nat.pow 10 g : ℕ) : ℤ) - m.finest)
  generalize |((c * Nat.pow 10 g : ℕ) : ℤ) - m.finest| = far at hc ⊢
  generalize |((d * Nat.pow 10 g : ℕ) : ℤ) - m.finest| = near at hd ⊢
  rcases hcases with ⟨rfl, hchoice⟩ | ⟨rfl, hchoice⟩
  · rcases hside with ⟨hle, -⟩ | ⟨hle, hreads⟩
    · have hmultiple := hbelow hle
      omega
    · have hmultiple := habove hle
      have hrest := hchoice.resolve_right (not_not_intro hreads)
      omega
  · rw [Nat.add_mul, Nat.one_mul] at hd
    rcases hside with ⟨hle, hreads⟩ | ⟨hle, -⟩
    · have hmultiple := hbelow hle
      have hrest := hchoice.resolve_right (not_not_intro hreads)
      omega
    · have hmultiple := habove hle
      refine ⟨by omega, fun htie => ?_⟩
      by_contra hlt
      have hmore := habove (n := lower + 1) (by omega)
      rw [Nat.add_mul, Nat.one_mul] at hmore
      omega

/-- That of all ways of writing what reads back as a number this one has the largest exponent, and
is the nearest of those, the upper one of two. -/
structure IsCoarsest (m : Magnitude) (c : Nat) (e : Int) : Prop where
  ofDecimal_eq : ofDecimal c e = m
  le : ∀ {c' : Nat} {e' : Int}, ofDecimal c' e' = m → e' ≤ e
  closest : ∀ {c' : Nat}, ofDecimal c' e = m → |c * 10 ^ e - m.value| ≤ |c' * 10 ^ e - m.value|
  upper_of_tie : ∀ {c' : Nat}, ofDecimal c' e = m →
    |c' * 10 ^ e - m.value| = |c * 10 ^ e - m.value| → c' ≤ c

theorem grid_eq (d g : Nat) :
    (d : ℚ) * 10 ^ ((g : ℤ) - 1074) = (d * Nat.pow 10 g : ℕ) * 10 ^ (-1074 : ℤ) := by
  have hgrid := mul_ten_pow d g ((g : ℤ) - 1074)
  rw [sub_sub_cancel_left] at hgrid
  exact hgrid.symm

theorem distance_eq (m : Magnitude) (d g : Nat) :
    |(d : ℚ) * 10 ^ ((g : ℤ) - 1074) - m.value| =
      (|((d * Nat.pow 10 g : ℕ) : ℤ) - m.finest| : ℤ) * 10 ^ (-1074 : ℤ) := by
  have hscale : (0 : ℚ) ≤ 10 ^ (-1074 : ℤ) := zpow_nonneg (by norm_num) _
  rw [grid_eq, value_eq_finest]
  generalize (10 : ℚ) ^ (-1074 : ℤ) = scale at hscale ⊢
  rw [← sub_mul, abs_mul, abs_of_nonneg hscale]
  push_cast
  rfl

/-- Nothing reads back on a grid whose step exceeds ten times the number. -/
theorem le_length_of_ofGrid (hfinite : m ≠ infinity) (hzero : m ≠ zero) (h : ofGrid d g = m) :
    g ≤ (Nat.toDigits 10 m.finest).length := by
  have hpos : 0 < d := by
    refine Nat.pos_of_ne_zero fun hd => hzero ?_
    rw [← h, hd, ofGrid_zero]
  have herror := ofGrid_error_half hfinite hzero h
  have hlength : m.finest < Nat.pow 10 (Nat.toDigits 10 m.finest).length :=
    (Nat.length_toDigits_le_iff (by decide) Nat.length_toDigits_pos).1 (Nat.le_refl _)
  by_contra hlt
  generalize (Nat.toDigits 10 m.finest).length = length at hlength hlt
  have hpow : Nat.pow 10 (length + 1) ≤ Nat.pow 10 g := ten_pow_le_ten_pow (Nat.lt_of_not_le hlt)
  have hten : Nat.pow 10 (length + 1) = Nat.pow 10 length * 10 := Nat.pow_succ 10 length
  have hself : Nat.pow 10 g ≤ d * Nat.pow 10 g := Nat.le_mul_of_pos_left _ hpos
  have habs := neg_le_abs ((m.finest : ℤ) - (d * Nat.pow 10 g : ℕ))
  generalize |(m.finest : ℤ) - (d * Nat.pow 10 g : ℕ)| = error at herror habs
  omega

theorem isCoarsest_found (hfinite : m ≠ infinity) (hzero : m ≠ zero) {found : Nat × Nat}
    (hfound : coarsest m.finest m.onGrid? (Nat.toDigits 10 m.finest).length = found) :
    m.IsCoarsest found.1 ((found.2 : Int) - 1074) := by
  have hscale : (0 : ℚ) < 10 ^ (-1074 : ℤ) := zpow_pos (by norm_num) _
  have hcloser {c : Nat} (hc : ofGrid c found.2 = m) :
      |((found.1 * Nat.pow 10 found.2 : ℕ) : ℤ) - m.finest| ≤
          |((c * Nat.pow 10 found.2 : ℕ) : ℤ) - m.finest| ∧
        (|((c * Nat.pow 10 found.2 : ℕ) : ℤ) - m.finest| =
          |((found.1 * Nat.pow 10 found.2 : ℕ) : ℤ) - m.finest| → c ≤ found.1) := by
    subst hfound
    revert c
    apply coarsest_induction fun d g => ∀ c, ofGrid c g = m →
      |((d * Nat.pow 10 g : ℕ) : ℤ) - m.finest| ≤ |((c * Nat.pow 10 g : ℕ) : ℤ) - m.finest| ∧
        (|((c * Nat.pow 10 g : ℕ) : ℤ) - m.finest| = |((d * Nat.pow 10 g : ℕ) : ℤ) - m.finest| →
          c ≤ d)
    · -- On the finest grid the number itself is found.
      intro c _
      have hone (n : Nat) : n * Nat.pow 10 0 = n := Nat.mul_one n
      rw [hone, hone, sub_self, abs_zero, abs_eq_zero]
      exact ⟨abs_nonneg _, fun hc => by omega⟩
    · intro g d hd c hc
      exact onGrid?_closest hd hc
  refine ⟨?_, ?_, ?_, ?_⟩
  · rw [ofDecimal_grid, ← hfound]
    exact ofGrid_coarsest m _
  · intro c e hread
    by_contra hlt
    obtain ⟨g, hg⟩ : ∃ g : Nat, e = (g : Int) - 1074 := ⟨(e + 1074).toNat, by omega⟩
    rw [hg, ofDecimal_grid] at hread
    obtain ⟨d, hd⟩ := exists_onGrid?_of_ofGrid hread
    have hlength := le_length_of_ofGrid hfinite hzero hread
    have hle : g ≤ (coarsest m.finest m.onGrid? _).2 := le_coarsest hd hlength
    rw [hfound] at hle
    omega
  · intro c hread
    rw [ofDecimal_grid] at hread
    rw [distance_eq, distance_eq, mul_le_mul_iff_of_pos_right hscale]
    exact_mod_cast (hcloser hread).1
  · intro c hread htie
    rw [ofDecimal_grid] at hread
    rw [distance_eq, distance_eq, mul_left_inj' hscale.ne'] at htie
    exact (hcloser hread).2 (by exact_mod_cast htie)

/-! ## One digit and a power of ten -/

/-- The last grid where the step is read as zero, and the number that the next step is read as. -/
theorem exists_last_grid : ∃ last, ofGrid 1 last = zero ∧ (ofGrid 1 (last + 1)).units = 2 ∧
    19 * Nat.pow 10 last ≤ 2 * (2 * Nat.pow 5 1074) ∧ Nat.pow 5 1074 < Nat.pow 10 (last + 1) :=
  ⟨750, by decide +kernel, by decide +kernel, by decide +kernel, by decide +kernel⟩

/-- Only 2^-1073 has both a power of ten and nine tenths of it read back. -/
theorem le_of_ofGrid_nine (hfinite : m ≠ infinity) (hzero : m ≠ zero) (hten : ofGrid 1 (g + 1) = m)
    (hnine : ofGrid 9 g = m) : 19 * Nat.pow 10 g ≤ 2 * m.finest := by
  obtain ⟨last, hlast, hnext, hbound, hunit⟩ := exists_last_grid
  have hlow : last ≤ g := by
    by_contra hlt
    have hpow := ten_pow_le_ten_pow (Nat.lt_of_not_le hlt)
    have hle := ofGrid_le_ofGrid (Nat.mul_le_mul_left 1 hpow)
    rw [hten, hlast] at hle
    exact hzero (eq_of_le_of_le hle (Nat.zero_le m.rank))
  rcases Nat.eq_or_lt_of_le hlow with rfl | hlarge
  · have hfinest : m.finest = 2 * Nat.pow 5 1074 := by
      rw [← hten, finest, hnext]
    rw [hfinest]
    exact hbound
  · -- On the coarser grids a step is more than errors can make up for.
    have hpow : Nat.pow 10 (last + 1) ≤ Nat.pow 10 g := ten_pow_le_ten_pow hlarge
    have hstep : Nat.pow 10 (g + 1) = Nat.pow 10 g * 10 := Nat.pow_succ 10 g
    have herror := ofGrid_error_cases hfinite hten
    have herror' := ofGrid_error_cases hfinite hnine
    rw [hstep] at herror
    generalize Nat.pow 5 1074 = unit at *
    generalize Nat.pow 10 g = step at *
    have habs := abs_cases ((m.finest : ℤ) - (1 * (step * 10) : ℕ))
    have habs' := abs_cases ((m.finest : ℤ) - (9 * step : ℕ))
    generalize |(m.finest : ℤ) - (1 * (step * 10) : ℕ)| = error at herror habs
    generalize |(m.finest : ℤ) - (9 * step : ℕ)| = error' at herror' habs'
    omega

theorem le_of_nine_tenths (hfinite : m ≠ infinity) (hzero : m ≠ zero) {e : Int}
    (hten : ofDecimal 1 e = m) (hnine : ofDecimal 9 (e - 1) = m) :
    19 * (10 : ℚ) ^ (e - 1) ≤ 2 * m.value := by
  have hlow : -1073 ≤ e := by
    by_contra hlt
    obtain ⟨last, hlast, -⟩ := exists_last_grid
    have hsmall : ((1 : ℕ) : ℚ) * 10 ^ e ≤ (1 : ℕ) * 10 ^ ((last : ℤ) - 1074) := by
      gcongr
      · norm_num
      · omega
    have hle := ofDecimal_le_ofDecimal hsmall
    rw [hten, ofDecimal_grid, hlast] at hle
    exact hzero (eq_of_le_of_le hle (Nat.zero_le m.rank))
  obtain ⟨g, hg⟩ : ∃ g : Nat, e - 1 = (g : Int) - 1074 := ⟨(e + 1073).toNat, by omega⟩
  have hg' : e = ((g + 1 : ℕ) : Int) - 1074 := by omega
  rw [hg, ofDecimal_grid] at hnine
  rw [hg', ofDecimal_grid] at hten
  have hgrid := grid_eq 1 g
  rw [Nat.cast_one, one_mul, Nat.one_mul] at hgrid
  have hscale : (0 : ℚ) ≤ 10 ^ (-1074 : ℤ) := zpow_nonneg (by norm_num) _
  rw [hg, hgrid, value_eq_finest, ← mul_assoc, ← mul_assoc]
  refine mul_le_mul_of_nonneg_right ?_ hscale
  exact_mod_cast le_of_ofGrid_nine hfinite hzero hten hnine

/-! ## The shortest decimal -/

/-- That a decimal reads back as a number, that none with fewer digits does, and that it is the
nearest of those with as many, the upper one of two. -/
structure IsShortest (m : Magnitude) (d : Decimal) : Prop where
  isNormal : d.IsNormal
  magnitude_eq : d.magnitude = m
  fewest : ∀ {d' : Decimal}, d'.IsNormal → d'.magnitude = m → d.digits.length ≤ d'.digits.length
  closest : ∀ {d' : Decimal}, d'.IsNormal → d'.magnitude = m →
    d'.digits.length = d.digits.length → |d.value - m.value| ≤ |d'.value - m.value|
  upper_of_tie : ∀ {d' : Decimal}, d'.IsNormal → d'.magnitude = m →
    d'.digits.length = d.digits.length → |d'.value - m.value| = |d.value - m.value| →
      d'.value ≤ d.value

theorem IsShortest.unique {d d' : Decimal} (h : m.IsShortest d) (h' : m.IsShortest d') :
    d' = d := by
  have hlength : d'.digits.length = d.digits.length :=
    le_antisymm (h'.fewest h.isNormal h.magnitude_eq) (h.fewest h'.isNormal h'.magnitude_eq)
  have hdistance : |d'.value - m.value| = |d.value - m.value| :=
    le_antisymm (h'.closest h.isNormal h.magnitude_eq hlength.symm)
      (h.closest h'.isNormal h'.magnitude_eq hlength)
  have hvalue : d'.value = d.value :=
    le_antisymm (h.upper_of_tie h'.isNormal h'.magnitude_eq hlength hdistance)
      (h'.upper_of_tie h.isNormal h.magnitude_eq hlength.symm hdistance.symm)
  exact h'.isNormal.eq_of_value_eq h.isNormal hvalue

/-- What is closer than a unit in the last of 54 binary places reads back. -/
theorem ofGrid_eq_of_close (hfinite : m ≠ infinity)
    (hclose : 0x40000000000000 * |(m.finest : ℤ) - (d * Nat.pow 10 g : ℕ)| < m.finest) :
    ofGrid d g = m := by
  obtain ⟨k, -, -, hfinest, hgrid⟩ := exists_grid_exponent
  rw [hgrid]
  apply nearest_eq_of_close (five_pow_pos k) hfinite
  rw [← Nat.cast_mul, ← hfinest]
  exact hclose

section Coarsest

variable {e : Int} (h : m.IsCoarsest c e)
include h

theorem IsCoarsest.ne_zero (hzero : m ≠ zero) : c ≠ 0 := by
  rintro rfl
  exact hzero (h.ofDecimal_eq.symm.trans (if_pos rfl))

/-- No zeros are dropped from the digits of what is found. -/
theorem IsCoarsest.ofScaled_eq :
    (Decimal.ofScaled c e).coefficient = c ∧ (Decimal.ofScaled c e).exponent = e := by
  obtain ⟨n, hcoefficient, hexponent⟩ := Decimal.exists_ofScaled c e
  have hle := h.le ((Decimal.magnitude_ofScaled c e).trans h.ofDecimal_eq)
  obtain rfl : n = 0 := by omega
  have hone : Nat.pow 10 0 = 1 := rfl
  rw [hone, Nat.mul_one] at hcoefficient
  exact ⟨hcoefficient.symm, by omega⟩

/-- A decimal of smaller lead leaves the found one a single digit: the power of ten between them
reads back. -/
theorem IsCoarsest.of_lead_lt (hzero : m ≠ zero) {d' : Decimal} (hnormal : d'.IsNormal)
    (hread : d'.magnitude = m) (hlead : d'.lead < (Decimal.ofScaled c e).lead) :
    ofDecimal 1 e = m ∧ (Decimal.ofScaled c e).digits.length = 1 := by
  have hfound := Decimal.isNormal_ofScaled (h.ne_zero hzero) e
  have hlow : d'.value ≤ (1 : ℕ) * 10 ^ (Decimal.ofScaled c e).lead := by
    rw [Nat.cast_one, one_mul]
    exact hnormal.value_lt.le.trans (zpow_le_zpow_right₀ (by norm_num) (by omega))
  have hhigh : (1 : ℕ) * 10 ^ (Decimal.ofScaled c e).lead ≤ (Decimal.ofScaled c e).value := by
    rw [Nat.cast_one, one_mul]
    exact hfound.le_value
  have hten := ofDecimal_eq_of_between hread ((Decimal.magnitude_ofScaled c e).trans h.ofDecimal_eq)
    hlow hhigh
  have hle := h.le hten
  have hexponent := h.ofScaled_eq.2
  have hpos := hfound.length_pos
  have hone : (Decimal.ofScaled c e).digits.length = 1 := by
    rw [Decimal.exponent] at hexponent
    omega
  have hlead' : (Decimal.ofScaled c e).lead = e := by
    rw [Decimal.exponent, hone] at hexponent
    omega
  exact ⟨hlead' ▸ hten, hone⟩

/-- Of decimals with one digit the found one is nearer than those on finer grids. -/
theorem IsCoarsest.closest_of_finer (hfinite : m ≠ infinity) (hzero : m ≠ zero)
    (hten : ofDecimal 1 e = m) {c' : Nat} {e' : Int} (hc' : c' ≤ 9) (he' : e' ≤ e - 1)
    (hread : ofDecimal c' e' = m) :
    |(c : ℚ) * 10 ^ e - m.value| ≤ |(c' : ℚ) * 10 ^ e' - m.value| := by
  have hclosest := h.closest hten
  rw [Nat.cast_one, one_mul] at hclosest
  have hstep : (10 : ℚ) ^ e = 10 * 10 ^ (e - 1) := by
    rw [← zpow_one_add₀ (by norm_num), add_sub_cancel]
  have hpos : (0 : ℚ) < 10 ^ (e - 1) := zpow_pos (by norm_num) _
  have hbelow : (c' : ℚ) * 10 ^ e' ≤ (9 : ℕ) * 10 ^ (e - 1) := by
    gcongr
    norm_num
  refine hclosest.trans ?_
  have hfar := neg_le_abs ((c' : ℚ) * 10 ^ e' - m.value)
  rcases le_or_gt (10 ^ e) m.value with hle | hlt
  · rw [abs_of_nonpos (by linarith)]
    push_cast at hbelow
    linarith
  · have hnine : ofDecimal 9 (e - 1) = m := by
      refine ofDecimal_eq_of_between hread hten hbelow ?_
      push_cast
      linarith
    have hhalf := le_of_nine_tenths hfinite hzero hten hnine
    rw [abs_of_nonneg (by linarith)]
    push_cast at hbelow
    linarith

/-- What is nearest on the coarsest grid is the shortest decimal. -/
theorem IsCoarsest.isShortest (hfinite : m ≠ infinity) (hzero : m ≠ zero) :
    m.IsShortest (Decimal.ofScaled c e) := by
  have hfound := Decimal.isNormal_ofScaled (h.ne_zero hzero) e
  have hread := (Decimal.magnitude_ofScaled c e).trans h.ofDecimal_eq
  obtain ⟨hcoefficient, hexponent⟩ := h.ofScaled_eq
  have hvalue : (Decimal.ofScaled c e).value = c * 10 ^ e := Decimal.value_ofScaled c e
  have hlead {d' : Decimal} (hread' : d'.magnitude = m)
      (hlength : d'.digits.length ≤ (Decimal.ofScaled c e).digits.length)
      (hne : d'.digits.length < (Decimal.ofScaled c e).digits.length ∨ d'.exponent ≠ e) :
      d'.lead < (Decimal.ofScaled c e).lead := by
    have hle := h.le hread'
    rw [Decimal.exponent] at hexponent hle hne
    omega
  refine ⟨hfound, hread, ?_, ?_, ?_⟩
  · intro d' hnormal hread'
    by_contra hlt
    have hless := Nat.lt_of_not_le hlt
    obtain ⟨-, hone⟩ := h.of_lead_lt hzero hnormal hread' (hlead hread' hless.le (Or.inl hless))
    have hpos := hnormal.length_pos
    omega
  · intro d' hnormal hread' hlength
    rw [hvalue]
    by_cases hsame : d'.exponent = e
    · rw [Decimal.value, hsame]
      exact h.closest (hread'.symm ▸ hsame ▸ rfl)
    · have hless := hlead hread' hlength.le (Or.inr hsame)
      obtain ⟨hten, hone⟩ := h.of_lead_lt hzero hnormal hread' hless
      have hdigit := hnormal.coefficient_lt
      have hle := h.le hread'
      have hten' : Nat.pow 10 1 = 10 := rfl
      rw [hlength, hone, hten'] at hdigit
      exact h.closest_of_finer hfinite hzero hten (by omega) (by omega) hread'
  · intro d' hnormal hread' hlength htie
    by_cases hsame : d'.exponent = e
    · rw [hvalue] at htie ⊢
      rw [Decimal.value, hsame] at htie ⊢
      have hle := h.upper_of_tie (hread'.symm ▸ hsame ▸ rfl) htie
      gcongr
    · exact (hnormal.value_lt_of_lead_lt hfound (hlead hread' hlength.le (Or.inr hsame))).le

/-- The found decimal is next to the number. -/
theorem IsCoarsest.error_le {g : Nat} (hg : e = (g : Int) - 1074) :
    |((c * Nat.pow 10 g : ℕ) : ℤ) - m.finest| ≤ (Nat.pow 10 g : ℕ) := by
  subst hg
  have hscale : (0 : ℚ) < 10 ^ (-1074 : ℤ) := zpow_pos (by norm_num) _
  have hread := h.ofDecimal_eq
  rw [ofDecimal_grid] at hread
  have hnear : ∃ n, ofGrid n g = m ∧
      |((n * Nat.pow 10 g : ℕ) : ℤ) - m.finest| ≤ (Nat.pow 10 g : ℕ) := by
    have hdiv := Nat.div_add_mod' m.finest (Nat.pow 10 g)
    have hmod := Nat.mod_lt m.finest (ten_pow_pos g)
    rcases ofGrid_neighbour hread with ⟨-, hlower⟩ | ⟨-, hupper⟩
    · refine ⟨_, hlower, ?_⟩
      rw [abs_le]
      omega
    · refine ⟨_, hupper, ?_⟩
      rw [abs_le, Nat.add_mul, Nat.one_mul]
      omega
  obtain ⟨n, hn, herror⟩ := hnear
  have hgrid : ofDecimal n ((g : Int) - 1074) = m := by rw [ofDecimal_grid, hn]
  have hclosest := h.closest hgrid
  rw [distance_eq, distance_eq, mul_le_mul_iff_of_pos_right hscale] at hclosest
  exact (by exact_mod_cast hclosest : _ ≤ _).trans herror

/-- If 17 digits were not enough, the nearest decimal on the next grid would read back as well. -/
theorem IsCoarsest.lt_ten_pow (hfinite : m ≠ infinity) : c < 10 ^ 17 := by
  have hlow : -1074 ≤ e := h.le (ofDecimal_finest m)
  obtain ⟨g, hg⟩ : ∃ g : Nat, e = (g : Int) - 1074 := ⟨(e + 1074).toNat, by omega⟩
  by_contra hlarge
  have hpos := ten_pow_pos g
  have herror := h.error_le hg
  have hround := (roundDiv_error (ten_pow_pos (g + 1)) m.finest).1
  have hstep : Nat.pow 10 (g + 1) = Nat.pow 10 g * 10 := Nat.pow_succ 10 g
  have hmany : 10 ^ 17 * Nat.pow 10 g ≤ c * Nat.pow 10 g :=
    Nat.mul_le_mul_right _ (Nat.le_of_not_lt hlarge)
  have hread : ofGrid (roundDiv m.finest (Nat.pow 10 (g + 1))) (g + 1) = m := by
    apply ofGrid_eq_of_close hfinite
    rw [abs_sub_comm, Nat.cast_mul]
    generalize |(roundDiv m.finest (Nat.pow 10 (g + 1)) : ℤ) * (Nat.pow 10 (g + 1) : ℕ) -
      m.finest| = near at hround ⊢
    rw [abs_le] at herror
    rw [hstep] at hround
    generalize Nat.pow 10 g = step at *
    omega
  rw [← ofDecimal_grid] at hread
  have hle := h.le hread
  omega

end Coarsest

theorem isShortest_shortest (hfinite : m ≠ infinity) (hzero : m ≠ zero) :
    m.IsShortest m.shortest :=
  (isCoarsest_found hfinite hzero rfl).isShortest hfinite hzero

/-- Seventeen digits suffice. -/
theorem coefficient_shortest_lt (hfinite : m ≠ infinity) (hzero : m ≠ zero) :
    m.shortest.coefficient < 10 ^ 17 := by
  have hfound := isCoarsest_found hfinite hzero rfl
  have hcoefficient := hfound.ofScaled_eq.1
  exact hcoefficient.trans_lt (hfound.lt_ten_pow hfinite)

end Magnitude
end InputDeck
