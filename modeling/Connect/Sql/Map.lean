/-
  Connect.Sql.Map — rows under distinct keys as a map from keys to values.

  `Represents` relates the rows to the map; an insert under a new key, an update of the
  rows under a key and a delete of them keep it, with the map changed at that key alone. A
  lookup by the key then finds what the map holds: one row for a value, none for nothing.
-/

import Connect.Sql.Table

namespace Connect.Sql

variable {Row Key Val : Type} [DecidableEq Key]

def setAt (m : Key → Option Val) (k : Key) (v : Option Val) : Key → Option Val := fun k' => if k' = k then v else m k'

@[simp] theorem setAt_self (m : Key → Option Val) (k : Key) (v : Option Val) : setAt m k v k = v := if_pos rfl

theorem setAt_ne (m : Key → Option Val) {k k' : Key} (v : Option Val) (h : k' ≠ k) : setAt m k v k' = m k' := if_neg h

/-- `reads r v`: the row `r` holds the value `v`. -/
structure Represents (key : Row → Key) (reads : Row → Val → Prop) (rows : List Row) (m : Key → Option Val) :
    Prop where
  one : UniqueBy (fun r => some (key r)) rows
  sound : ∀ r ∈ rows, ∃ v, m (key r) = some v ∧ reads r v
  complete : ∀ k v, m k = some v → ∃ r ∈ rows, key r = k

namespace Represents

variable {key : Row → Key} {reads : Row → Val → Prop} {rows : List Row} {m : Key → Option Val}

omit [DecidableEq Key] in
theorem empty (key : Row → Key) (reads : Row → Val → Prop) : Represents key reads [] fun _ => none where
  one := List.nodup_nil
  sound := fun _ hr => absurd hr List.not_mem_nil
  complete := fun _ _ h => absurd h nofun

theorem insert (h : Represents key reads rows m) (row : Row) {v : Val} (hn : m (key row) = none) (hv : reads row v) :
    Represents key reads (rows ++ [row]) (setAt m (key row) (some v)) where
  one := by
    refine h.one.append fun r hr he => ?_
    obtain ⟨v', hm, -⟩ := h.sound r hr
    rw [Option.some.inj he, hn] at hm
    cases hm
  sound := by
    intro r hr
    rcases List.mem_append.mp hr with hr | hr
    · obtain ⟨v', hm, hr'⟩ := h.sound r hr
      have hne : key r ≠ key row := by
        intro he
        rw [he, hn] at hm
        cases hm
      exact ⟨v', by rw [setAt_ne _ _ hne, hm], hr'⟩
    · rw [List.mem_singleton.mp hr]
      exact ⟨v, setAt_self _ _ _, hv⟩
  complete := by
    intro k v' hk
    by_cases he : k = key row
    · exact ⟨row, List.mem_append_right _ List.mem_cons_self, he.symm⟩
    · rw [setAt_ne _ _ he] at hk
      obtain ⟨r, hr, hrk⟩ := h.complete k v' hk
      exact ⟨r, List.mem_append_left _ hr, hrk⟩

theorem update (h : Represents key reads rows m) {k : Key} {v : Val} {f : Row → Row} (hm : (m k).isSome = true)
    (hkey : ∀ r, key (f r) = key r) (hv : ∀ r, key r = k → reads (f r) v) :
    Represents key reads (rows.map fun r => if key r = k then f r else r) (setAt m k (some v)) where
  one := h.one.map fun r => by
    split
    · rw [hkey]
    · rfl
  sound := by
    intro r hr
    obtain ⟨r₀, h₀, rfl⟩ := List.mem_map.mp hr
    split
    · rename_i hk
      exact ⟨v, by rw [hkey, hk, setAt_self], hv r₀ hk⟩
    · rename_i hk
      obtain ⟨v', hm', hr'⟩ := h.sound r₀ h₀
      exact ⟨v', by rw [setAt_ne _ _ hk, hm'], hr'⟩
  complete := by
    intro k' v' hk'
    have hin : ∃ v₀, m k' = some v₀ := by
      by_cases he : k' = k
      · exact he ▸ Option.isSome_iff_exists.mp hm
      · exact ⟨v', by rwa [setAt_ne _ _ he] at hk'⟩
    obtain ⟨v₀, hv₀⟩ := hin
    obtain ⟨r, hr, hrk⟩ := h.complete k' v₀ hv₀
    refine ⟨_, List.mem_map_of_mem hr, ?_⟩
    split
    · rw [hkey, hrk]
    · exact hrk

theorem delete (h : Represents key reads rows m) (k : Key) :
    Represents key reads (rows.filter fun r => !decide (key r = k)) (setAt m k none) where
  one := h.one.sublist List.filter_sublist
  sound := by
    intro r hr
    obtain ⟨hr, hk⟩ := List.mem_filter.mp hr
    obtain ⟨v, hm, hv⟩ := h.sound r hr
    exact ⟨v, by rw [setAt_ne _ _ (by simpa using hk), hm], hv⟩
  complete := by
    intro k' v hk'
    have hne : k' ≠ k := by
      intro h
      subst h
      rw [setAt_self] at hk'
      cases hk'
    rw [setAt_ne _ _ hne] at hk'
    obtain ⟨r, hr, hrk⟩ := h.complete k' v hk'
    exact ⟨r, List.mem_filter.mpr ⟨hr, by simpa [hrk] using hne⟩, hrk⟩

/-- Nothing under the key, no row. -/
theorem lookup_none (h : Represents key reads rows m) {k : Key} (hk : m k = none) :
    (rows.filter fun r => decide (key r = k)) = [] := by
  refine List.filter_eq_nil_iff.mpr fun r hr he => ?_
  obtain ⟨v, hm, -⟩ := h.sound r hr
  rw [of_decide_eq_true he, hk] at hm
  cases hm

theorem lookup_some (h : Represents key reads rows m) {k : Key} {v : Val} (hk : m k = some v) :
    ∃ r, (rows.filter fun r => decide (key r = k)) = [r] ∧ r ∈ rows ∧ key r = k ∧ reads r v := by
  obtain ⟨r, hr, hrk⟩ := h.complete k v hk
  obtain ⟨v', hm, hv⟩ := h.sound r hr
  rw [hrk, hk] at hm
  refine ⟨r, h.one.filter_eq hr hrk, hr, hrk, ?_⟩
  cases hm
  exact hv

end Represents

end Connect.Sql
