/-!
# Search among ascending keys

- `keyIndex? key xs k`: the position in `xs` of the element whose key is `k`, found by halving.
- `keyIndex?_eq_some_iff`: where the keys ascend strictly, the search finds exactly the element
  that carries the key.
-/

namespace ItemNeighbors

variable {α : Type}

/-- Halves the window from `lo` up to but not including `hi` until it holds the key or nothing.
The bound on `hi` keeps every read inside the array. -/
def keyIndexWithin (key : α → UInt64) (xs : Array α) (k : UInt64) (lo hi : Nat)
    (hhi : hi ≤ xs.size) : Option Nat :=
  if h : lo < hi then
    let mid := lo + (hi - lo) / 2
    have : mid < xs.size := by omega
    if key xs[mid] = k then some mid
    else if key xs[mid] < k then keyIndexWithin key xs k (mid + 1) hi hhi
    else keyIndexWithin key xs k lo mid (by omega)
  else none
termination_by hi - lo

/-- Position of the element with key `k`, in an array whose keys ascend. -/
def keyIndex? (key : α → UInt64) (xs : Array α) (k : UInt64) : Option Nat :=
  keyIndexWithin key xs k 0 xs.size (Nat.le_refl _)

/-- A position that the search returns lies in the window and carries the key. -/
theorem keyIndexWithin_sound {key : α → UInt64} {xs : Array α} {k : UInt64} {lo hi : Nat}
    {hhi : hi ≤ xs.size} {p : Nat} (h : keyIndexWithin key xs k lo hi hhi = some p) :
    ∃ hp : p < xs.size, lo ≤ p ∧ p < hi ∧ key xs[p] = k := by
  fun_induction keyIndexWithin key xs k lo hi hhi with
  | case1 lo hi hhi hlt mid hmid heq =>
    obtain rfl : mid = p := by simpa using h
    exact ⟨hmid, by omega, by omega, heq⟩
  | case2 lo hi hhi hlt mid hmid hne hless ih =>
    obtain ⟨hp, h₁, h₂, h₃⟩ := ih h
    exact ⟨hp, by omega, h₂, h₃⟩
  | case3 lo hi hhi hlt mid hmid hne hless ih =>
    obtain ⟨hp, h₁, h₂, h₃⟩ := ih h
    exact ⟨hp, h₁, by omega, h₃⟩
  | case4 => simp at h

/-- A window that holds the key is searched with success. -/
theorem keyIndexWithin_complete {key : α → UInt64} {xs : Array α} {k : UInt64}
    (hs : ∀ (i j : Nat) (_ : i < j) (hj : j < xs.size), key xs[i] < key xs[j])
    {lo hi : Nat} {hhi : hi ≤ xs.size} {p : Nat} (hlo : lo ≤ p) (hp : p < hi)
    (hps : p < xs.size) (hkey : key xs[p] = k) : keyIndexWithin key xs k lo hi hhi = some p := by
  fun_induction keyIndexWithin key xs k lo hi hhi with
  | case1 lo hi hhi hlt mid hmid heq =>
    have hpos : mid = p := by
      rcases Nat.lt_trichotomy mid p with hmp | hmp | hmp
      · exact absurd (heq.trans hkey.symm) (UInt64.ne_of_lt (hs mid p hmp (by omega)))
      · exact hmp
      · exact absurd (hkey.trans heq.symm) (UInt64.ne_of_lt (hs p mid hmp hmid))
    rw [hpos]
  | case2 lo hi hhi hlt mid hmid hne hless ih =>
    -- everything up to `mid` carries a smaller key
    have : mid < p := by
      rcases Nat.lt_trichotomy mid p with hmp | hmp | hmp
      · exact hmp
      · subst hmp; exact absurd hkey hne
      · have := hs p mid hmp hmid
        rw [hkey] at this
        exact absurd (UInt64.lt_trans this hless) (UInt64.lt_irrefl _)
    exact ih this hp
  | case3 lo hi hhi hlt mid hmid hne hless ih =>
    -- everything from `mid` on carries a larger key
    have : p < mid := by
      rcases Nat.lt_trichotomy mid p with hmp | hmp | hmp
      · have := hs mid p hmp (by omega)
        rw [hkey] at this
        exact absurd this hless
      · subst hmp; exact absurd hkey hne
      · exact hmp
    exact ih hlo this
  | case4 => omega

/-- Where the keys ascend strictly, position `p` is found for `k` exactly if its element
carries `k`. -/
theorem keyIndex?_eq_some_iff (key : α → UInt64) {xs : Array α} {k : UInt64}
    (hs : ∀ (i j : Nat) (_ : i < j) (hj : j < xs.size), key xs[i] < key xs[j]) {p : Nat} :
    keyIndex? key xs k = some p ↔ ∃ hp : p < xs.size, key xs[p] = k := by
  constructor
  · intro h
    obtain ⟨hp, -, -, hk⟩ := keyIndexWithin_sound h
    exact ⟨hp, hk⟩
  · rintro ⟨hp, hk⟩
    exact keyIndexWithin_complete hs (Nat.zero_le _) hp hp hk

end ItemNeighbors
