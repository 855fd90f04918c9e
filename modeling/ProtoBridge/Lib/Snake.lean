import ProtoBridge.Lib.Grid

/-!
# Snakes

A snake goes through the rows of a grid, every other one backwards. So the rows may be gone through in any
order, and each of them in its own.
-/

namespace ProtoBridge.Lib

/-- A place of a row, which every other one has from the end. -/
def turned (row length k : Nat) : Nat := if row % 2 = 0 then k else length - 1 - k

/-- The rows in another order, and what is in them too. -/
def regrid (g : Nat) (rows : Nat → Nat) (inRow : Nat → Nat → Nat) (p : Nat) : Nat :=
  rows (p / g) * g + inRow (rows (p / g)) (p % g)

/-- The snake, row after row. -/
def snake (g p : Nat) : Nat := regrid g id (fun row => turned row g) p

variable {n g row i j p q : Nat} {rows : Nat → Nat} {inRow : Nat → Nat → Nat}

theorem turned_lt (hi : i < g) : turned row g i < g := by
  unfold turned
  split <;> omega

theorem turned_injective (hi : i < g) (hj : j < g) (h : turned row g i = turned row g j) : i = j := by
  unfold turned at h
  split at h <;> omega

theorem turned_succ (hi : i + 1 < g) :
    turned row g (i + 1) = turned row g i + 1 ∨ turned row g i = turned row g (i + 1) + 1 := by
  unfold turned
  split <;> omega

theorem turned_next (hg : 0 < g) {row' : Nat} (hrow : row' % 2 ≠ row % 2) :
    turned row' g 0 = turned row g (g - 1) := by
  unfold turned
  split <;> split <;> omega

theorem div_lt_rows (hp : p < n * g) : p / g < n := Nat.div_lt_of_lt_mul (by rwa [Nat.mul_comm])

theorem pos_of_lt_grid (hp : p < n * g) : 0 < g := by
  rcases Nat.eq_zero_or_pos g with rfl | hpos
  · rw [Nat.mul_zero] at hp
    exact absurd hp (Nat.not_lt_zero p)
  · exact hpos

theorem regrid_div (hin : ∀ i < g, inRow (rows (p / g)) i < g) (hg : 0 < g) :
    regrid g rows inRow p / g = rows (p / g) :=
  place_div (hin _ (Nat.mod_lt p hg))

theorem regrid_mod (hin : ∀ i < g, inRow (rows (p / g)) i < g) (hg : 0 < g) :
    regrid g rows inRow p % g = inRow (rows (p / g)) (p % g) :=
  place_mod (hin _ (Nat.mod_lt p hg))

theorem regrid_lt (hrows : ∀ m < n, rows m < n) (hin : ∀ row, ∀ i < g, inRow row i < g) (hp : p < n * g) :
    regrid g rows inRow p < n * g :=
  place_lt (hrows _ (div_lt_rows hp)) (hin _ _ (Nat.mod_lt p (pos_of_lt_grid hp)))

theorem regrid_injective (hrows : ∀ m < n, ∀ m' < n, rows m = rows m' → m = m')
    (hin : ∀ row, ∀ i < g, inRow row i < g)
    (hinj : ∀ row, ∀ i < g, ∀ j < g, inRow row i = inRow row j → i = j) (hp : p < n * g) (hq : q < n * g)
    (h : regrid g rows inRow p = regrid g rows inRow q) : p = q := by
  have hg := pos_of_lt_grid hp
  have hrow : rows (p / g) = rows (q / g) := by
    have hdiv := congrArg (· / g) h
    simp only [regrid_div (hin _) hg] at hdiv
    exact hdiv
  have hplace : inRow (rows (p / g)) (p % g) = inRow (rows (p / g)) (q % g) := by
    have hmod := congrArg (· % g) h
    simp only [regrid_mod (hin _) hg] at hmod
    rw [hmod, hrow]
  have hdiv := hrows _ (div_lt_rows hp) _ (div_lt_rows hq) hrow
  have hmod := hinj _ _ (Nat.mod_lt p hg) _ (Nat.mod_lt q hg) hplace
  rw [← Nat.div_add_mod p g, ← Nat.div_add_mod q g, hdiv, hmod]

theorem snake_div (hg : 0 < g) (p : Nat) : snake g p / g = p / g :=
  regrid_div (fun _ => turned_lt) hg

theorem snake_mod (hg : 0 < g) (p : Nat) : snake g p % g = turned (p / g) g (p % g) :=
  regrid_mod (fun _ => turned_lt) hg

theorem snake_lt (hp : p < n * g) : snake g p < n * g :=
  regrid_lt (fun _ hm => hm) (fun _ _ => turned_lt) hp

theorem snake_injective (hp : p < n * g) (hq : q < n * g) (h : snake g p = snake g q) : p = q := by
  refine regrid_injective ?_ ?_ ?_ hp hq h
  · exact fun _ _ _ _ heq => heq
  · exact fun _ _ => turned_lt
  · exact fun _ _ hi _ hj => turned_injective hi hj

theorem snake_succ (hg : 0 < g) (p : Nat) :
    snake g (p + 1) / g = snake g p / g ∧
        (snake g (p + 1) % g = snake g p % g + 1 ∨ snake g p % g = snake g (p + 1) % g + 1) ∨
      snake g (p + 1) / g = snake g p / g + 1 ∧ snake g (p + 1) % g = snake g p % g := by
  rw [snake_div hg, snake_div hg, snake_mod hg, snake_mod hg]
  rcases succ_place hg p with ⟨hin, hdiv, hmod⟩ | ⟨hend, hdiv, hmod⟩
  · left
    rw [hdiv, hmod]
    exact ⟨rfl, turned_succ hin⟩
  · right
    rw [hdiv, hmod, show p % g = g - 1 by omega]
    exact ⟨rfl, turned_next hg (by omega)⟩

end ProtoBridge.Lib
