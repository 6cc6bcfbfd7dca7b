/-
File systems of files and directories only, and what an insertion does to them.

In a plain file system every node below the root has a name a path can spell and stands in a
directory, the working directory is there, and there are no symbolic links.  A file written into a
directory, or a directory made where nothing was, keeps it plain; a file put in a directory's place
would not, since what stood in the directory would be left without one.
-/
import InputDeck.FileSystem.Access
import InputDeck.Proofs.Path.Join

namespace InputDeck

namespace Table

variable {κ α : Type} [Ord κ] [Std.LawfulEqOrd κ]

theorem mem_keys {t : Table κ α} {k : κ} : k ∈ t.keys ↔ ∃ v, t.get? k = some v := by
  obtain ⟨entries, sorted⟩ := t
  unfold keys get?
  induction entries with
  | nil => simp [lookup]
  | cons e rest ih =>
      obtain ⟨_, hrest⟩ := List.pairwise_cons.1 sorted
      rw [List.map_cons, List.mem_cons, ih hrest]
      by_cases h : compare k e.1 = .eq
      · have hk : k = e.1 := Std.LawfulEqOrd.eq_of_compare h
        simp [lookup, hk]
      · have hk : k ≠ e.1 := fun he => h (by simp [he])
        simp [lookup, h, hk]

theorem nodup_keys (t : Table κ α) : t.keys.Nodup := by
  unfold keys
  rw [List.Nodup, List.pairwise_map]
  refine t.sorted.imp ?_
  intro a b hlt he
  rw [he] at hlt
  simp at hlt

end Table

namespace FileSystem

structure Plain (fs : FileSystem) : Prop where
  isName : ∀ {name dir node}, fs.node? (name :: dir) = some node → IsName name
  parent : ∀ {name dir node}, fs.node? (name :: dir) = some node → fs.node? dir = some .directory
  working : fs.node? fs.workingDirectory = some .directory
  noLink : ∀ {location target}, fs.node? location ≠ some (.link target)

/-! ## What stands where -/

variable {fs : FileSystem}

theorem eq_cons_of_named {location dir : Location} {name : FileName}
    (h : (match location with
      | [] => none
      | first :: above => if above = dir then some first else none) = some name) :
    location = name :: dir := by
  cases location with
  | nil => simp at h
  | cons first above =>
      by_cases habove : above = dir
      · simpa [habove] using h
      · simp [habove] at h

theorem mem_children {dir : Location} {name : FileName} :
    name ∈ fs.children dir ↔ ∃ node, fs.node? (name :: dir) = some node := by
  unfold children
  rw [List.mem_filterMap]
  constructor
  · rintro ⟨location, hkey, h⟩
    rw [eq_cons_of_named h] at hkey
    exact Table.mem_keys.1 hkey
  · intro h
    exact ⟨name :: dir, Table.mem_keys.2 h, by simp⟩

theorem nodup_children (dir : Location) : (fs.children dir).Nodup := by
  unfold children
  refine List.Pairwise.filterMap _ ?_ (Table.nodup_keys fs.nodes)
  intro location location' hne name h name' h' he
  apply hne
  rw [eq_cons_of_named h, eq_cons_of_named h', he]

theorem node?_insert_self (name : FileName) (dir : Location) (node : Node) :
    (fs.insert (name :: dir) node).node? (name :: dir) = some node :=
  Table.get?_insert_self _ _ _

theorem node?_insert_ne {location location' : Location} (h : location' ≠ location) (node : Node) :
    (fs.insert location node).node? location' = fs.node? location' := by
  cases location' with
  | nil => rfl
  | cons name dir => exact Table.get?_insert_ne h _ _

@[simp]
theorem workingDirectory_insert (location : Location) (node : Node) :
    (fs.insert location node).workingDirectory = fs.workingDirectory := rfl

theorem Plain.insert (h : fs.Plain) {name : FileName} {dir : Location} {node : Node}
    (hname : IsName name) (hdir : fs.node? dir = some .directory)
    (hfree : fs.node? (name :: dir) ≠ some .directory) (hnode : ∀ target, node ≠ .link target) :
    (fs.insert (name :: dir) node).Plain := by
  have hkeep : ∀ location, fs.node? location = some .directory →
      (fs.insert (name :: dir) node).node? location = some .directory := by
    intro location hlocation
    have hne : location ≠ name :: dir := fun e => hfree (e ▸ hlocation)
    rw [node?_insert_ne hne, hlocation]
  refine ⟨?_, ?_, hkeep _ h.working, ?_⟩
  · intro name' dir' node' hnode'
    by_cases he : name' :: dir' = name :: dir
    · obtain ⟨rfl, rfl⟩ := List.cons.inj he
      exact hname
    · rw [node?_insert_ne he] at hnode'
      exact h.isName hnode'
  · intro name' dir' node' hnode'
    by_cases he : name' :: dir' = name :: dir
    · obtain ⟨rfl, rfl⟩ := List.cons.inj he
      exact hkeep _ hdir
    · rw [node?_insert_ne he] at hnode'
      exact hkeep _ (h.parent hnode')
  · intro location target hlink
    by_cases he : location = name :: dir
    · rw [he, node?_insert_self] at hlink
      exact hnode target (Option.some.inj hlink)
    · rw [node?_insert_ne he] at hlink
      exact h.noLink hlink

theorem Plain.insert_free (h : fs.Plain) {name : FileName} {dir : Location} {node : Node}
    (hname : IsName name) (hdir : fs.node? dir = some .directory)
    (hfree : fs.node? (name :: dir) = none) (hnode : ∀ target, node ≠ .link target) :
    (fs.insert (name :: dir) node).Plain :=
  h.insert hname hdir (by simp [hfree]) hnode

def root : FileSystem := ⟨∅, []⟩

theorem plain_root : root.Plain where
  isName h := nomatch h
  parent h := nomatch h
  working := rfl
  noLink := by
    intro location target h
    cases location <;> exact nomatch h

/-! ## Growth

Directories that are there stay while decks are written, so a path that leads to one goes on
leading to it. -/

structure Keeps (fs fs' : FileSystem) : Prop where
  workingDirectory_eq : fs'.workingDirectory = fs.workingDirectory
  directory : ∀ {location}, fs.node? location = some .directory →
    fs'.node? location = some .directory

theorem Keeps.refl (fs : FileSystem) : fs.Keeps fs := ⟨rfl, fun h => h⟩

theorem Keeps.trans {fs fs' fs'' : FileSystem} (h : fs.Keeps fs') (h' : fs'.Keeps fs'') :
    fs.Keeps fs'' where
  workingDirectory_eq := h'.workingDirectory_eq.trans h.workingDirectory_eq
  directory hd := h'.directory (h.directory hd)

theorem keeps_insert {location : Location} {node : Node}
    (hfree : fs.node? location ≠ some .directory) : fs.Keeps (fs.insert location node) where
  workingDirectory_eq := rfl
  directory := by
    intro location' h
    have hne : location' ≠ location := fun e => hfree (e ▸ h)
    rw [node?_insert_ne hne, h]

end FileSystem

end InputDeck
