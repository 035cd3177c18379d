import ProcessNetwork.LocalContext

/-!
# Tags of the deadlock detection

A tag is a label, which is a count and the key of a node, and a priority, which is a queue size and the key of a node.  The
order is total: a larger label is larger, and under one label a smaller priority is.
-/

namespace ProcessNetwork.D4R

/-- `uint128_t`. -/
structure UInt128 where
  high : UInt64 := 0
  low : UInt64 := 0
deriving DecidableEq, Repr

namespace UInt128

instance : LT UInt128 where
  lt l r := if l.high = r.high then l.low < r.low else l.high < r.high

instance : LE UInt128 where
  le l r := ¬ r < l

instance (l r : UInt128) : Decidable (l < r) :=
  inferInstanceAs (Decidable (if l.high = r.high then l.low < r.low else l.high < r.high))

instance (l r : UInt128) : Decidable (l ≤ r) := inferInstanceAs (Decidable (¬ r < l))

private theorem lt_def (l r : UInt128) : l < r ↔ if l.high = r.high then l.low < r.low else l.high < r.high := Iff.rfl

def toNat (v : UInt128) : Nat := v.high.toNat * 2 ^ 64 + v.low.toNat

private theorem toNat_injective : Function.Injective toNat := by
  intro l r h
  unfold toNat at h
  have hl := l.low.toNat_lt
  have hr := r.low.toNat_lt
  have hhigh : l.high = r.high := UInt64.toNat_inj.1 (by omega)
  have hlow : l.low = r.low := UInt64.toNat_inj.1 (by omega)
  cases l
  cases r
  cases hhigh
  cases hlow
  rfl

private theorem lt_iff_toNat (l r : UInt128) : l < r ↔ l.toNat < r.toNat := by
  rw [lt_def]
  unfold toNat
  have hl := l.low.toNat_lt
  have hr := r.low.toNat_lt
  split_ifs with h
  · rw [UInt64.lt_iff_toNat_lt, h]
    omega
  · have hne : l.high.toNat ≠ r.high.toNat := fun heq => h (UInt64.toNat_inj.1 heq)
    rw [UInt64.lt_iff_toNat_lt]
    omega

private theorem le_iff_toNat (l r : UInt128) : l ≤ r ↔ l.toNat ≤ r.toNat := by
  have h : l ≤ r ↔ ¬ r < l := Iff.rfl
  rw [h, lt_iff_toNat, not_lt]

instance : LinearOrder UInt128 where
  le_refl v := (le_iff_toNat v v).2 (le_refl _)
  le_trans u v w huv hvw := by
    rw [le_iff_toNat] at huv hvw ⊢
    exact huv.trans hvw
  lt_iff_le_not_ge u v := by
    rw [lt_iff_toNat, le_iff_toNat, le_iff_toNat]
    omega
  le_antisymm u v huv hvu := by
    rw [le_iff_toNat] at huv hvu
    exact toNat_injective (le_antisymm huv hvu)
  le_total u v := by
    rw [le_iff_toNat, le_iff_toNat]
    exact Nat.le_total _ _
  toDecidableLE := inferInstance

theorem lt_of_high_lt {l r : UInt128} (h : l.high < r.high) : l < r := by
  have hne : l.high ≠ r.high := by
    intro heq
    rw [heq] at h
    exact UInt64.lt_irrefl _ h
  rw [lt_def, if_neg hne]
  exact h

end UInt128

structure Tag where
  label : UInt128 := {}
  priority : UInt128 := {}
deriving DecidableEq, Repr

namespace Tag

def ofKey (k : UInt64) : Tag where
  label := { high := 0, low := k }
  priority := { high := -1, low := k }

def count (t : Tag) : UInt64 := t.label.high

def key (t : Tag) : UInt64 := t.label.low

def queueSize (t : Tag) : UInt64 := t.priority.high

def queueKey (t : Tag) : UInt64 := t.priority.low

def setCount (c : UInt64) (t : Tag) : Tag := { t with label := { t.label with high := c } }

def setQueueSize (qs : UInt64) (t : Tag) : Tag := { t with priority := { t.priority with high := qs } }

def setPriority (p : UInt128) (t : Tag) : Tag := { t with priority := p }

instance : LT Tag where
  lt s t := if s.label = t.label then s.priority > t.priority else s.label < t.label

instance : LE Tag where
  le s t := ¬ t < s

instance (s t : Tag) : Decidable (s < t) :=
  inferInstanceAs (Decidable (if s.label = t.label then s.priority > t.priority else s.label < t.label))

instance (s t : Tag) : Decidable (s ≤ t) := inferInstanceAs (Decidable (¬ t < s))

theorem lt_def (s t : Tag) : s < t ↔ if s.label = t.label then s.priority > t.priority else s.label < t.label := Iff.rfl

theorem lt_iff (s t : Tag) : s < t ↔ s.label < t.label ∨ s.label = t.label ∧ t.priority < s.priority := by
  rw [lt_def]
  split_ifs with h
  · simp [h]
  · simp [h]

theorem le_iff (s t : Tag) : s ≤ t ↔ s.label < t.label ∨ s.label = t.label ∧ t.priority ≤ s.priority := by
  have h : s ≤ t ↔ ¬ t < s := Iff.rfl
  rw [h, lt_iff]
  rcases lt_trichotomy s.label t.label with hlt | heq | hgt
  · simp [hlt, hlt.not_gt, hlt.ne']
  · simp [heq]
  · simp [hgt, hgt.not_gt, hgt.ne']

/-- The order is total. -/
instance : LinearOrder Tag where
  le_refl t := (le_iff t t).2 (.inr ⟨rfl, le_refl _⟩)
  le_trans s t u hst htu := by
    rw [le_iff] at hst htu ⊢
    obtain hst | ⟨hst, hp⟩ := hst
    · obtain htu | ⟨htu, -⟩ := htu
      · exact .inl (hst.trans htu)
      · exact .inl (htu ▸ hst)
    · obtain htu | ⟨htu, hq⟩ := htu
      · exact .inl (hst ▸ htu)
      · exact .inr ⟨hst.trans htu, hq.trans hp⟩
  lt_iff_le_not_ge s t := by
    have h : s ≤ t ↔ ¬ t < s := Iff.rfl
    have h' : t ≤ s ↔ ¬ s < t := Iff.rfl
    rw [h, h', not_not, lt_iff, lt_iff]
    constructor
    · intro hlt
      refine ⟨?_, hlt⟩
      rintro (hgt | ⟨heq, hp⟩)
      · obtain hlt | ⟨heq, -⟩ := hlt
        · exact hlt.asymm hgt
        · exact hgt.ne' heq
      · obtain hlt | ⟨-, hq⟩ := hlt
        · exact hlt.ne' heq
        · exact hp.asymm hq
    · exact fun h => h.2
  le_antisymm s t hst hts := by
    rw [le_iff] at hst hts
    have hlabel : s.label = t.label := by
      obtain hst | ⟨hst, -⟩ := hst
      · obtain hts | ⟨hts, -⟩ := hts
        · exact absurd hst hts.asymm
        · exact hts.symm
      · exact hst
    have hpriority : s.priority = t.priority :=
      le_antisymm (hts.resolve_left (by rw [hlabel]; exact lt_irrefl _)).2
        (hst.resolve_left (by rw [hlabel]; exact lt_irrefl _)).2
    cases s
    cases t
    cases hlabel
    cases hpriority
    rfl
  le_total s t := by
    rw [le_iff, le_iff]
    rcases lt_trichotomy s.label t.label with hlt | heq | hgt
    · exact .inl (.inl hlt)
    · obtain hle | hle := le_total t.priority s.priority
      · exact .inl (.inr ⟨heq, hle⟩)
      · exact .inr (.inr ⟨heq.symm, hle⟩)
    · exact .inr (.inl hgt)
  toDecidableLE := inferInstance

variable {s t : Tag}

theorem label_le (h : s ≤ t) : s.label ≤ t.label := by
  rw [le_iff] at h
  obtain h | ⟨h, -⟩ := h
  · exact h.le
  · exact h.le

end Tag

end ProcessNetwork.D4R
