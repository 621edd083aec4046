/-
  Rows with a version: optimistic locking.

  An update carries a copy of the row, read at some time before.  It succeeds if
  the row still has the version of the copy, and increments the version.

  * `Table`: the row of a key, its version, and which operations update it;
    `Change` is what one operation may do to the row of a key;
  * `Copy`: a copy that was read once; it stays one (`Copy.change`), and is the
    row if its version matches (`Copy.eq`);
  * `Chain`: updates each of which replaces what the one before it left;
    `chain_of_runs` says that the operations of a transaction, made from copies,
    are such a chain: no update is lost.
-/
import Mathlib.Data.List.Basic

namespace Versions

variable {σ ω κ ρ : Type}

/-- Rows with a version in a store `σ` with operations `ω`. -/
structure Table (σ ω κ ρ : Type) where
  row : σ → κ → Option ρ
  version : ρ → ℕ
  /-- the key has been given out: no operation creates its row any more -/
  given : σ → κ → Prop
  /-- the copy that an update of the row was made from, and the row it writes -/
  update : κ → ω → Option (ρ × ρ)

/-- What an operation may do to the row of a key. -/
structure Change (T : Table σ ω κ ρ) (s s' : σ) (k : κ) (w : ω) : Prop where
  given : T.given s' k
  /-- the version is compared and incremented -/
  updated : ∀ {old new}, T.update k w = some (old, new) → ∃ r, T.row s k = some r ∧
    T.version r = T.version old ∧ T.row s' k = some new ∧ T.version new = T.version old + 1
  kept : T.update k w = none → T.row s' k = T.row s k ∨ T.row s' k = none

/-- `copy` was read from the row of key `k`: it is older than the row, or the row. -/
def Copy (T : Table σ ω κ ρ) (s : σ) (k : κ) (copy : ρ) : Prop :=
  ∀ r, T.row s k = some r → T.version copy < T.version r ∨ copy = r

/-- Updates each of which replaces what the one before it left. -/
inductive Chain : ρ → List (ρ × ρ) → ρ → Prop
  | nil {r : ρ} : Chain r [] r
  | cons {old new r : ρ} {us : List (ρ × ρ)} (h : Chain new us r) : Chain old ((old, new) :: us) r

/-- The operations run one after the other. -/
inductive Runs (step : σ → ω → σ → Prop) : σ → List ω → σ → Prop
  | nil {s : σ} : Runs step s [] s
  | cons {s s' s'' : σ} {w : ω} {ws : List ω} (h : step s w s') (hs : Runs step s' ws s'') :
      Runs step s (w :: ws) s''

section
variable {T : Table σ ω κ ρ} {s s' : σ} {k : κ} {w : ω} {ws : List ω} {copy r r' r'' : ρ}
  {us us' : List (ρ × ρ)} {step : σ → ω → σ → Prop}

/-! ## Copies -/

theorem copy_of_row (h : T.row s k = some copy) : Copy T s k copy :=
  fun _ hr => Or.inr (Option.some.inj (h.symm.trans hr))

/-- **A copy whose version matches is the row.** -/
theorem Copy.eq (h : Copy T s k copy) (hr : T.row s k = some r) (hv : T.version r = T.version copy) :
    copy = r :=
  (h r hr).resolve_left fun hlt => absurd hv (Nat.ne_of_gt hlt)

/-- **A copy stays one**: an update increments the version. -/
theorem Copy.change (h : Copy T s k copy) (hc : Change T s s' k w) : Copy T s' k copy := by
  intro r' hr'
  cases hu : T.update k w with
  | none =>
    rcases hc.kept hu with hrow | hrow
    · exact h r' (hrow ▸ hr')
    · rw [hrow] at hr'
      cases hr'
  | some u =>
    obtain ⟨r, hr, hv, hnew, hbump⟩ := hc.updated hu
    obtain rfl : u.2 = r' := Option.some.inj (hnew.symm.trans hr')
    left
    rcases h r hr with hlt | rfl
    · omega
    · omega

/-! ## Chains -/

theorem Chain.append (h : Chain r us r') (h' : Chain r' us' r'') : Chain r (us ++ us') r'' := by
  induction h with
  | nil => exact h'
  | cons _ ih => exact .cons (ih h')

/-- The version counts the updates of a chain. -/
theorem Chain.version {version : ρ → ℕ} (h : Chain r us r')
    (hus : ∀ u ∈ us, version u.2 = version u.1 + 1) : version r' = version r + us.length := by
  induction h with
  | nil => rfl
  | @cons old new r us _ ih =>
    have hnew : version new = version old + 1 := hus _ List.mem_cons_self
    have := ih fun u hu => hus u (List.mem_cons_of_mem _ hu)
    rw [List.length_cons]
    omega

/-- **The updates of a transaction** that are made from copies replace the row one
    after the other. -/
theorem chain_of_runs (hchange : ∀ w ∈ ws, ∀ s s', step s w s' → T.given s k → Change T s s' k w)
    (hcopy : ∀ w ∈ ws, ∀ old new, T.update k w = some (old, new) → Copy T s k old)
    (h : Runs step s ws s') (hgiven : T.given s k) (hr' : T.row s' k = some r') :
    ∃ r, T.row s k = some r ∧ Chain r (ws.filterMap (T.update k)) r' := by
  induction h with
  | nil => exact ⟨r', hr', .nil⟩
  | @cons s s₁ s'' w ws hstep hrest ih =>
    have hc := hchange w List.mem_cons_self s s₁ hstep hgiven
    obtain ⟨r₁, hr₁, hchain⟩ := ih (fun w' hw' => hchange w' (List.mem_cons_of_mem _ hw'))
      (fun w' hw' old new hu => (hcopy w' (List.mem_cons_of_mem _ hw') old new hu).change hc)
      hc.given hr'
    cases hu : T.update k w with
    | none =>
      rw [List.filterMap_cons_none hu]
      rcases hc.kept hu with hrow | hrow
      · exact ⟨r₁, hrow ▸ hr₁, hchain⟩
      · rw [hrow] at hr₁
        cases hr₁
    | some u =>
      rw [List.filterMap_cons_some hu]
      obtain ⟨r, hr, hv, hnew, -⟩ := hc.updated hu
      obtain rfl : u.2 = r₁ := Option.some.inj (hnew.symm.trans hr₁)
      have hold : u.1 = r := (hcopy w List.mem_cons_self _ _ hu).eq hr hv
      exact ⟨r, hr, hold ▸ .cons hchain⟩

/-- Copies stay copies over a transaction. -/
theorem copy_runs (hchange : ∀ w ∈ ws, ∀ s s', step s w s' → T.given s k → Change T s s' k w)
    (h : Runs step s ws s') (hgiven : T.given s k) :
    T.given s' k ∧ ∀ copy, Copy T s k copy → Copy T s' k copy := by
  induction h with
  | nil => exact ⟨hgiven, fun _ => id⟩
  | cons hstep _ ih =>
    have hc := hchange _ List.mem_cons_self _ _ hstep hgiven
    obtain ⟨hgiven', hcopy⟩ := ih (fun w hw => hchange w (List.mem_cons_of_mem _ hw)) hc.given
    exact ⟨hgiven', fun copy h => hcopy copy (h.change hc)⟩

end

end Versions
