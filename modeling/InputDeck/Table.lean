/-
Finite tables kept in the order of their keys.

The entries stand in strictly increasing order of the keys, so two tables with the same contents
are equal as values, whatever the order in which they were filled.  `Table.ext` says so in terms
of look-up.
-/

namespace InputDeck

structure Table (κ α : Type) [Ord κ] where
  entries : List (κ × α)
  sorted : entries.Pairwise fun a b => compare a.1 b.1 = .lt

namespace Table

variable {κ α β ε : Type} [Ord κ]

def empty : Table κ α := ⟨[], .nil⟩

instance : EmptyCollection (Table κ α) := ⟨empty⟩

instance : Inhabited (Table κ α) := ⟨empty⟩

def size (t : Table κ α) : Nat := t.entries.length

def keys (t : Table κ α) : List κ := t.entries.map Prod.fst

def lookup (k : κ) : List (κ × α) → Option α
  | [] => none
  | e :: rest => if compare k e.1 = .eq then some e.2 else lookup k rest

def get? (t : Table κ α) (k : κ) : Option α := lookup k t.entries

/-- Keeps the entries that pass the test. -/
def filter (p : κ → α → Bool) (t : Table κ α) : Table κ α :=
  ⟨t.entries.filter fun e => p e.1 e.2, t.sorted.filter _⟩

def insertEntry (k : κ) (v : α) : List (κ × α) → List (κ × α)
  | [] => [(k, v)]
  | e :: rest =>
      match compare k e.1 with
      | .lt => (k, v) :: e :: rest
      | .eq => (k, v) :: rest
      | .gt => e :: insertEntry k v rest

theorem mem_insertEntry {k : κ} {v : α} {entries : List (κ × α)} {e : κ × α}
    (h : e ∈ insertEntry k v entries) : e = (k, v) ∨ e ∈ entries := by
  induction entries with
  | nil => exact Or.inl (by simpa [insertEntry] using h)
  | cons a rest ih =>
      unfold insertEntry at h
      split at h
      · simpa using h
      · rcases List.mem_cons.1 h with h | h
        · exact Or.inl h
        · exact Or.inr (List.mem_cons_of_mem _ h)
      · rcases List.mem_cons.1 h with h | h
        · exact Or.inr (h ▸ List.mem_cons_self)
        · exact (ih h).imp id (List.mem_cons_of_mem _)

theorem sorted_insertEntry [Std.TransOrd κ] (k : κ) (v : α) {entries : List (κ × α)}
    (h : entries.Pairwise fun a b => compare a.1 b.1 = .lt) :
    (insertEntry k v entries).Pairwise fun a b => compare a.1 b.1 = .lt := by
  induction entries with
  | nil => simp [insertEntry]
  | cons a rest ih =>
      obtain ⟨ha, hrest⟩ := List.pairwise_cons.1 h
      unfold insertEntry
      split
      · rename_i hlt
        refine List.pairwise_cons.2 ⟨?_, h⟩
        intro e he
        rcases List.mem_cons.1 he with rfl | he
        · exact hlt
        · exact Std.TransCmp.lt_trans hlt (ha e he)
      · rename_i heq
        refine List.pairwise_cons.2 ⟨?_, hrest⟩
        intro e he
        exact Std.TransCmp.lt_of_eq_of_lt heq (ha e he)
      · rename_i hgt
        refine List.pairwise_cons.2 ⟨?_, ih hrest⟩
        intro e he
        rcases mem_insertEntry he with rfl | he
        · exact Std.OrientedCmp.lt_of_gt hgt
        · exact ha e he

/-- Binds `k` to `v`, whatever it was bound to before. -/
def insert [Std.TransOrd κ] (t : Table κ α) (k : κ) (v : α) : Table κ α :=
  ⟨insertEntry k v t.entries, sorted_insertEntry k v t.sorted⟩

/-- Of several values given for one key the last stays. -/
def ofList [Std.TransOrd κ] (entries : List (κ × α)) : Table κ α :=
  entries.foldl (fun t e => t.insert e.1 e.2) empty

/-- Applies `f` to the entries in the order of their keys; the first error ends the pass. -/
def mapM [Std.TransOrd κ] (f : κ → α → Except ε β) (t : Table κ α) : Except ε (Table κ β) := do
  let entries ← t.entries.mapM fun e => do return (e.1, ← f e.1 e.2)
  return ofList entries

@[simp]
theorem get?_empty (k : κ) : (empty : Table κ α).get? k = none := rfl

theorem lookup_eq_none_of_lt {k : κ} {entries : List (κ × α)}
    (h : ∀ e ∈ entries, compare k e.1 = .lt) : lookup k entries = none := by
  induction entries with
  | nil => rfl
  | cons a rest ih =>
      simp [lookup, h a List.mem_cons_self,
        ih fun e he => h e (List.mem_cons_of_mem _ he)]

section Lookup

variable [Std.LawfulEqOrd κ]

theorem lookup_insertEntry_self (k : κ) (v : α) (entries : List (κ × α)) :
    lookup k (insertEntry k v entries) = some v := by
  induction entries with
  | nil => simp [insertEntry, lookup]
  | cons a rest ih =>
      unfold insertEntry
      split
      · simp [lookup]
      · simp [lookup]
      · rename_i hgt
        simp [lookup, hgt, ih]

theorem lookup_insertEntry_ne {k k' : κ} (h : k' ≠ k) (v : α) (entries : List (κ × α)) :
    lookup k' (insertEntry k v entries) = lookup k' entries := by
  have hne : compare k' k ≠ .eq := fun he => h (Std.LawfulEqOrd.eq_of_compare he)
  induction entries with
  | nil => simp [insertEntry, lookup, hne]
  | cons a rest ih =>
      unfold insertEntry
      split
      · simp [lookup, hne]
      · rename_i heq
        have hk : k = a.1 := Std.LawfulEqOrd.eq_of_compare heq
        simp [lookup, ← hk, hne]
      · simp [lookup, ih]

variable [Std.TransOrd κ]

@[simp]
theorem get?_insert_self (t : Table κ α) (k : κ) (v : α) : (t.insert k v).get? k = some v :=
  lookup_insertEntry_self k v t.entries

theorem get?_insert_ne {k k' : κ} (h : k' ≠ k) (t : Table κ α) (v : α) :
    (t.insert k v).get? k' = t.get? k' :=
  lookup_insertEntry_ne h v t.entries

theorem entries_eq_of_lookup_eq {s t : List (κ × α)}
    (hs : s.Pairwise fun a b => compare a.1 b.1 = .lt)
    (ht : t.Pairwise fun a b => compare a.1 b.1 = .lt)
    (h : ∀ k, lookup k s = lookup k t) : s = t := by
  induction s generalizing t with
  | nil =>
      cases t with
      | nil => rfl
      | cons b t => simpa [lookup] using h b.1
  | cons a s ih =>
      obtain ⟨ha, hs⟩ := List.pairwise_cons.1 hs
      cases t with
      | nil => simpa [lookup] using h a.1
      | cons b t =>
          obtain ⟨hb, ht⟩ := List.pairwise_cons.1 ht
          have hself : lookup a.1 (a :: s) = some a.2 := by simp [lookup]
          have hself' : lookup b.1 (b :: t) = some b.2 := by simp [lookup]
          match hab : compare a.1 b.1 with
          | .lt =>
              have hnone : lookup a.1 (b :: t) = none := by
                apply lookup_eq_none_of_lt
                intro e he
                rcases List.mem_cons.1 he with rfl | he
                · exact hab
                · exact Std.TransCmp.lt_trans hab (hb e he)
              rw [h, hnone] at hself
              exact absurd hself (by simp)
          | .gt =>
              have hba := Std.OrientedCmp.lt_of_gt hab
              have hnone : lookup b.1 (a :: s) = none := by
                apply lookup_eq_none_of_lt
                intro e he
                rcases List.mem_cons.1 he with rfl | he
                · exact hba
                · exact Std.TransCmp.lt_trans hba (ha e he)
              rw [← h, hnone] at hself'
              exact absurd hself' (by simp)
          | .eq =>
              have hk : a.1 = b.1 := Std.LawfulEqOrd.eq_of_compare hab
              rw [h, hk, hself'] at hself
              have hv : b.2 = a.2 := Option.some.inj hself
              have hrest : s = t := by
                apply ih hs ht
                intro k
                by_cases hka : compare k a.1 = .eq
                · have hkeq : k = a.1 := Std.LawfulEqOrd.eq_of_compare hka
                  rw [lookup_eq_none_of_lt (fun e he => hkeq ▸ ha e he),
                    lookup_eq_none_of_lt (fun e he => (hkeq.trans hk) ▸ hb e he)]
                · simpa [lookup, hka, ← hk] using h k
              rw [hrest, Prod.ext hk hv.symm]

theorem ext {s t : Table κ α} (h : ∀ k, s.get? k = t.get? k) : s = t := by
  obtain ⟨_, hs⟩ := s
  obtain ⟨_, ht⟩ := t
  simpa using entries_eq_of_lookup_eq hs ht h

end Lookup

end Table

end InputDeck
