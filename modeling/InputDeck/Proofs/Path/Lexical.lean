/-
Where a path leads by its text alone.

The components of a path are worked through one by one: a `.` stays, a `..` goes back by the name
before it, and every other component goes on.  What is left is the path `resolved`.  A path descends
if it is relative and nothing but names is left of it, and such a path is one that continues any
other to something inside it (`descends_iff`): by a longer way perhaps, but never out of it.
-/
import InputDeck.Proofs.Path.FileName

namespace InputDeck
namespace Path

/-- What is left of a path, the last component first, when it goes on by one more.  Above the root
there is nothing, and a `..` without a name before it has to stay. -/
def settle : List Component → Component → List Component
  | left, .current => left
  | .name _ :: left, .parent => left
  | .root :: left, .parent => .root :: left
  | left, c => c :: left

/-- What is left of the components of a path, the last one first. -/
def settled (p : Path) : List Component := p.components.foldl settle []

/-- The components of a path without `.`, and without `..` where there is a name to go back by. -/
def resolved (p : Path) : List Component := p.settled.reverse

/-- That a path leads to the place where another one does, or to a place below it. -/
def Inside (base p : Path) : Prop := ∃ names : List FileName,
  p.resolved = base.resolved ++ names.map .name

/-- That a path is relative and leads down from wherever it starts. -/
def Descends (p : Path) : Prop := p.isAbsolute = false ∧ ∃ names : List FileName,
  p.resolved = names.map .name

/-! ## Components one by one -/

variable {left : List Component} {names : List FileName} {p : Path}

theorem settle_name (left : List Component) (n : FileName) :
    settle left (.name n) = .name n :: left := by
  unfold settle
  split <;> simp_all

theorem settle_current (left : List Component) : settle left .current = left := by
  cases left <;> rfl

/-- Only names are gone back by. -/
theorem mem_settle {c : Component} (hc : ∀ n, c ≠ .name n) (h : c ∈ left) (d : Component) :
    c ∈ settle left d := by
  unfold settle
  split
  · exact h
  · rcases List.mem_cons.1 h with rfl | h
    · exact absurd rfl (hc _)
    · exact h
  · exact h
  · exact List.mem_cons_of_mem _ h

theorem mem_foldl_settle {c : Component} (hc : ∀ n, c ≠ .name n) (h : c ∈ left)
    (cs : List Component) : c ∈ cs.foldl settle left := by
  induction cs generalizing left with
  | nil => exact h
  | cons d rest ih => exact ih (mem_settle hc h d)

theorem not_mem_of_foldl_settle {c : Component} (hc : ∀ n, c ≠ .name n) {cs : List Component}
    (h : cs.foldl settle left = names.map .name) : c ∉ left := by
  intro hmem
  have hmem' := mem_foldl_settle hc hmem cs
  rw [h] at hmem'
  obtain ⟨n, -, rfl⟩ := List.mem_map.1 hmem'
  exact hc n rfl

/-- Components that leave nothing but names never go back below where they start, so they leave the
same names on top of anything. -/
theorem foldl_settle_append {cs : List Component} {names' : List FileName}
    (h : cs.foldl settle (names.map .name) = names'.map .name) (below : List Component) :
    cs.foldl settle (names.map .name ++ below) = names'.map .name ++ below := by
  induction cs generalizing names with
  | nil => exact congrArg (· ++ below) h
  | cons c rest ih =>
      rw [List.foldl_cons] at h ⊢
      cases c with
      | name n =>
          rw [settle_name] at h ⊢
          exact @ih (n :: names) h
      | current =>
          rw [settle_current] at h ⊢
          exact ih h
      | parent =>
          cases names with
          | cons n names => exact ih h
          | nil =>
              have hstays : Component.parent ∈ settle [] .parent := List.mem_singleton_self _
              exact absurd hstays (not_mem_of_foldl_settle (by simp) h)
      | root =>
          have hstays : Component.root ∈ settle (names.map .name) .root := by
            cases names <;> exact List.mem_cons_self
          exact absurd hstays (not_mem_of_foldl_settle (by simp) h)

/-! ## Joined paths -/

/-- A path starts at the root or, without a root, at nothing. -/
theorem settled_eq (p : Path) : p.settled =
    p.partComponents.foldl settle (if p.isAbsolute then [.root] else []) := by
  rw [settled, components_eq_leader, List.foldl_append]
  rcases leader_cases p with ⟨habsolute, hleader⟩ | ⟨habsolute, hleader | hleader⟩ <;>
    rw [hleader, habsolute] <;> rfl

theorem partComponents_join {q : Path} (hq : q.isAbsolute = false) (p : Path) :
    (p.join q).partComponents = p.partComponents ++ q.partComponents := by
  rw [partComponents, solidParts_join hq, List.filterMap_append]
  rfl

theorem resolved_eq_names_iff : p.resolved = names.map .name ↔
    p.settled = names.reverse.map .name := by
  rw [resolved, List.reverse_eq_iff, List.map_reverse]

/-- Behind another path a path that descends leads on by the names that are left of it. -/
theorem resolved_join {q : Path} (hq : q.isAbsolute = false) (hnames : q.resolved = names.map .name)
    (p : Path) : (p.join q).resolved = p.resolved ++ names.map .name := by
  have hleft : q.partComponents.foldl settle [] = names.reverse.map .name := by
    have hsettled := resolved_eq_names_iff.1 hnames
    rwa [settled_eq, hq] at hsettled
  have hjoin : (p.join q).settled = names.reverse.map .name ++ p.settled := by
    rw [settled_eq, isAbsolute_join hq, partComponents_join hq, List.foldl_append, ← settled_eq]
    exact @foldl_settle_append [] _ _ hleft p.settled
  rw [resolved, hjoin, List.reverse_append, List.map_reverse, List.reverse_reverse, resolved]

theorem Descends.inside {q : Path} (h : q.Descends) (p : Path) : p.Inside (p.join q) := by
  obtain ⟨hq, names, hnames⟩ := h
  exact ⟨names, resolved_join hq hnames p⟩

/-- The paths that descend are those which never lead out of the path that they continue. -/
theorem descends_iff {q : Path} : q.Descends ↔ ∀ p : Path, p.Inside (p.join q) := by
  refine ⟨Descends.inside, ?_⟩
  intro h
  have hempty : (⟨[]⟩ : Path).join q = q := by
    unfold join
    split
    · rfl
    · simp
  obtain ⟨names, hnames⟩ := h ⟨[]⟩
  have hnone : resolved ⟨[]⟩ = [] := by decide
  rw [hempty, hnone, List.nil_append] at hnames
  refine ⟨?_, names, hnames⟩
  cases habsolute : q.isAbsolute with
  | false => rfl
  | true =>
      have hsettled := resolved_eq_names_iff.1 hnames
      rw [settled_eq, habsolute] at hsettled
      exact absurd (List.mem_singleton_self _) (not_mem_of_foldl_settle (by simp) hsettled)

theorem descends_name {n : FileName} (hn : IsName n) : Descends ⟨n⟩ := by
  refine ⟨isAbsolute_name hn, [n], ?_⟩
  rw [resolved, settled_eq, isAbsolute_name hn, partComponents, solidParts_name hn,
    List.filterMap_cons_some (componentOfPart_name hn)]
  rfl

theorem Inside.join {base : Path} (h : base.Inside p) {q : Path} (hq : q.Descends) :
    base.Inside (p.join q) := by
  obtain ⟨names, hnames⟩ := h
  obtain ⟨more, hmore⟩ := hq.inside p
  exact ⟨names ++ more, by rw [hmore, hnames, List.map_append, List.append_assoc]⟩

theorem inside_self (p : Path) : p.Inside p := ⟨[], by simp⟩

/-- Ways round are no ways out. -/
example : (ofString "x/.././o/").Descends := ⟨rfl, [Text.utf8 "o"], by decide⟩

end Path
end InputDeck
