/-
Tables filled from a list, and functions applied to the entries of a table.

Of several values given for one key a table keeps the last.  A function applied to all entries
gives a table of what it gives for each, or else the error of the smallest key it fails for; either
way nothing is said of the order in which the table was filled.
-/
import InputDeck.Proofs.Result
import InputDeck.Table

namespace InputDeck

namespace Table

/-! ## Entries -/

variable {κ α β ε : Type} {f : κ → α → Except ε β}

/-- That the entries of a list are what `f` gives for those of another. -/
def Images (f : κ → α → Except ε β) (entries : List (κ × α)) (images : List (κ × β)) : Prop :=
  List.Forall₂ (fun e image => (f e.1 e.2).map (e.1, ·) = .ok image) entries images

theorem eq_of_map_pair {k : κ} {x : Except ε β} {image : κ × β}
    (h : x.map (k, ·) = .ok image) : image.1 = k ∧ x = .ok image.2 := by
  obtain ⟨w, hx, rfl⟩ := Result.map_eq_ok_iff.1 h
  exact ⟨rfl, hx⟩

theorem Images.keys_eq {entries : List (κ × α)} {images : List (κ × β)}
    (h : Images f entries images) : images.map Prod.fst = entries.map Prod.fst := by
  induction h with
  | nil => rfl
  | cons hfirst _ ih => rw [List.map_cons, List.map_cons, (eq_of_map_pair hfirst).1, ih]

theorem Images.pairwise_ne {entries : List (κ × α)} {images : List (κ × β)}
    (h : Images f entries images) (hdistinct : entries.Pairwise fun a b => a.1 ≠ b.1) :
    images.Pairwise fun a b => a.1 ≠ b.1 := by
  have hkeys := List.pairwise_map.2 hdistinct
  rw [← h.keys_eq] at hkeys
  exact List.pairwise_map.1 hkeys

variable [Ord κ]

theorem mapM_eq [Std.TransOrd κ] (t : Table κ α) (f : κ → α → Except ε β) :
    t.mapM f = (t.entries.mapM fun e => (f e.1 e.2).map (e.1, ·)).map ofList := by
  have hpair : (fun e : κ × α => (do return (e.1, ← f e.1 e.2) : Except ε (κ × β))) =
      fun e => (f e.1 e.2).map (e.1, ·) := by
    funext e
    cases f e.1 e.2 <;> rfl
  rw [mapM, hpair]
  cases (t.entries.mapM fun e => (f e.1 e.2).map (e.1, ·)) <;> rfl

theorem ok_of_rel {t : Table κ α} {k : κ} {v : α}
    {image : Option β} (hget : t.get? k = some v)
    (hrel : Option.Rel (fun v w => f k v = .ok w) (t.get? k) image) : ∃ w, f k v = .ok w := by
  rw [hget] at hrel
  cases hrel with
  | some hw => exact ⟨_, hw⟩

theorem lookup_append (k : κ) (front back : List (κ × α)) :
    lookup k (front ++ back) = (lookup k front).or (lookup k back) := by
  induction front with
  | nil => rfl
  | cons e rest ih =>
      rw [List.cons_append, lookup, lookup, ih]
      split <;> rfl

section Lookup

variable [Std.LawfulEqOrd κ]

theorem lookup_cons_ne {k k' : κ} (h : k ≠ k') (v : α) (rest : List (κ × α)) :
    lookup k ((k', v) :: rest) = lookup k rest := by
  have hne : compare k k' ≠ .eq := fun he => h (Std.LawfulEqOrd.eq_of_compare he)
  simp [lookup, hne]

theorem lookup_cons_self (k : κ) (v : α) (rest : List (κ × α)) :
    lookup k ((k, v) :: rest) = some v := by
  simp [lookup]

theorem lookup_eq_list_lookup [BEq κ] [LawfulBEq κ] (k : κ) (entries : List (κ × α)) :
    lookup k entries = List.lookup k entries := by
  induction entries with
  | nil => rfl
  | cons e rest ih =>
      obtain ⟨k', v⟩ := e
      by_cases h : k = k'
      · subst h
        rw [lookup_cons_self, List.lookup_cons_self]
      · have hbeq : (k == k') = false := by simpa using h
        rw [lookup_cons_ne h, List.lookup_cons, hbeq, ih]

theorem lookup_eq_some_iff {entries : List (κ × α)}
    (h : entries.Pairwise fun a b => a.1 ≠ b.1) {k : κ} {v : α} :
    lookup k entries = some v ↔ (k, v) ∈ entries := by
  induction entries with
  | nil => simp [lookup]
  | cons e rest ih =>
      obtain ⟨hfirst, hrest⟩ := List.pairwise_cons.1 h
      obtain ⟨k', v'⟩ := e
      rw [List.mem_cons]
      by_cases hk : k = k'
      · subst hk
        have hnot : (k, v) ∉ rest := fun hmem => hfirst _ hmem rfl
        rw [lookup_cons_self]
        simp [hnot, eq_comm]
      · rw [lookup_cons_ne hk, ih hrest]
        simp [hk]

theorem lookup_reverse {entries : List (κ × α)} (h : entries.Pairwise fun a b => a.1 ≠ b.1)
    (k : κ) : lookup k entries.reverse = lookup k entries := by
  have hreverse : entries.reverse.Pairwise fun a b => a.1 ≠ b.1 :=
    List.pairwise_reverse.2 (h.imp Ne.symm)
  apply Option.ext
  intro v
  rw [lookup_eq_some_iff hreverse, lookup_eq_some_iff h, List.mem_reverse]

theorem pairwise_ne_entries (t : Table κ α) : t.entries.Pairwise fun a b => a.1 ≠ b.1 := by
  refine t.sorted.imp ?_
  intro a b hlt he
  simp [he] at hlt

theorem get?_eq_some_iff {t : Table κ α} {k : κ} {v : α} :
    t.get? k = some v ↔ (k, v) ∈ t.entries :=
  lookup_eq_some_iff t.pairwise_ne_entries

theorem Images.lookup {entries : List (κ × α)} {images : List (κ × β)}
    (h : Images f entries images) (k : κ) :
    Option.Rel (fun v w => f k v = .ok w) (lookup k entries) (Table.lookup k images) := by
  induction h with
  | nil => exact .none
  | @cons e image _ _ hfirst _ ih =>
      obtain ⟨_, v⟩ := e
      obtain ⟨key, w⟩ := image
      obtain ⟨rfl, hf⟩ := eq_of_map_pair hfirst
      by_cases hk : k = key
      · subst hk
        rw [lookup_cons_self, lookup_cons_self]
        exact .some hf
      · rw [lookup_cons_ne hk, lookup_cons_ne hk]
        exact ih

end Lookup

/-! ## Tables filled from a list -/

variable [Std.LawfulEqOrd κ] [Std.TransOrd κ]

theorem get?_insert (t : Table κ α) (k k' : κ) (v : α) :
    (t.insert k v).get? k' = (lookup k' [(k, v)]).or (t.get? k') := by
  by_cases h : k' = k
  · subst h
    rw [get?_insert_self, lookup_cons_self, Option.some_or]
  · rw [get?_insert_ne h, lookup_cons_ne h]
    rfl

theorem get?_foldl_insert (entries : List (κ × α)) (t : Table κ α) (k : κ) :
    (entries.foldl (fun t e => t.insert e.1 e.2) t).get? k =
      (lookup k entries.reverse).or (t.get? k) := by
  induction entries generalizing t with
  | nil => rfl
  | cons e rest ih =>
      rw [List.foldl_cons, ih, get?_insert, List.reverse_cons, lookup_append, Option.or_assoc]

theorem get?_ofList (entries : List (κ × α)) (k : κ) :
    (ofList entries).get? k = lookup k entries.reverse := by
  rw [ofList, get?_foldl_insert, get?_empty, Option.or_none]

/-! ## A function applied to all entries -/

variable {t : Table κ α} {t' : Table κ β}

theorem get?_of_mapM (h : t.mapM f = .ok t') (k : κ) :
    Option.Rel (fun v w => f k v = .ok w) (t.get? k) (t'.get? k) := by
  rw [mapM_eq] at h
  obtain ⟨images, hpass, rfl⟩ := Result.map_eq_ok_iff.1 h
  have himages : Images f t.entries images := Result.forall₂_of_mapM hpass
  rw [get?_ofList, lookup_reverse (himages.pairwise_ne t.pairwise_ne_entries)]
  exact himages.lookup k

/-- That `f` fails for a key of the table, and for none before it. -/
structure FirstError (t : Table κ α) (f : κ → α → Except ε β) (k : κ) (fault : ε) : Prop where
  fails : ∃ v, t.get? k = some v ∧ f k v = .error fault
  before : ∀ {k' v'}, compare k' k = .lt → t.get? k' = some v' → ∃ w, f k' v' = .ok w

theorem firstError_of_mapM {fault : ε} (h : t.mapM f = .error fault) :
    ∃ k, FirstError t f k fault := by
  rw [mapM_eq, Result.map_eq_error_iff] at h
  obtain ⟨before, ⟨k, v⟩, after, hsplit, hkv, hbefore⟩ := Result.first_of_mapM h
  have hf : f k v = .error fault := Result.map_eq_error_iff.1 hkv
  refine ⟨k, ⟨v, get?_eq_some_iff.2 (by simp [hsplit]), hf⟩, ?_⟩
  intro k' v' hlt hget
  have hsorted := t.sorted
  rw [get?_eq_some_iff, hsplit] at hget
  rw [hsplit, List.pairwise_append, List.pairwise_cons] at hsorted
  rcases List.mem_append.1 hget with hmem | hmem
  · obtain ⟨image, himage⟩ := hbefore _ hmem
    exact ⟨image.2, (eq_of_map_pair himage).2⟩
  · -- from `k` on no key is smaller than `k`
    exfalso
    rcases List.mem_cons.1 hmem with he | hmem
    · rw [(Prod.mk.inj he).1] at hlt
      simp at hlt
    · have hgt := Std.OrientedCmp.gt_of_lt (hsorted.2.1.1 _ hmem)
      simp [hlt] at hgt

theorem FirstError.unique {k k' : κ} {fault fault' : ε} (h : FirstError t f k fault)
    (h' : FirstError t f k' fault') : fault = fault' := by
  obtain ⟨v, hv, hf⟩ := h.fails
  obtain ⟨v', hv', hf'⟩ := h'.fails
  match hcompare : compare k k' with
  | .lt =>
      obtain ⟨w, hw⟩ := h'.before hcompare hv
      simp [hf] at hw
  | .gt =>
      obtain ⟨w, hw⟩ := h.before (Std.OrientedCmp.lt_of_gt hcompare) hv'
      simp [hf'] at hw
  | .eq =>
      obtain rfl := Std.LawfulEqOrd.eq_of_compare hcompare
      obtain rfl := Option.some.inj (hv.symm.trans hv')
      exact Except.error.inj (hf.symm.trans hf')

theorem mapM_eq_error_iff {fault : ε} :
    t.mapM f = .error fault ↔ ∃ k, FirstError t f k fault := by
  refine ⟨firstError_of_mapM, ?_⟩
  rintro ⟨k, hk⟩
  cases h : t.mapM f with
  | error other =>
      obtain ⟨k', hk'⟩ := firstError_of_mapM h
      rw [hk'.unique hk]
  | ok t' =>
      obtain ⟨v, hv, hf⟩ := hk.fails
      obtain ⟨w, hw⟩ := ok_of_rel hv (get?_of_mapM h k)
      simp [hf] at hw

theorem mapM_eq_ok_iff : t.mapM f = .ok t' ↔
    ∀ k, Option.Rel (fun v w => f k v = .ok w) (t.get? k) (t'.get? k) := by
  refine ⟨get?_of_mapM, ?_⟩
  intro hrel
  cases h : t.mapM f with
  | error fault =>
      obtain ⟨k, ⟨v, hv, hf⟩, -⟩ := firstError_of_mapM h
      obtain ⟨w, hw⟩ := ok_of_rel hv (hrel k)
      simp [hf] at hw
  | ok t'' =>
      have hsame : t'' = t' := by
        apply ext
        intro k
        have hk := hrel k
        have hk' := get?_of_mapM h k
        generalize t.get? k = v at hk hk'
        generalize t'.get? k = w at hk ⊢
        generalize t''.get? k = w' at hk' ⊢
        cases hk with
        | none =>
            cases hk'
            rfl
        | some hw =>
            cases hk' with
            | some hw' => rw [Except.ok.inj (hw.symm.trans hw')]
      rw [hsame]

end Table
end InputDeck
