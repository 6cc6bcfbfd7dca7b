/-
The parents of a path that leads straight down.

The components of such a path are names, behind a root or a `.` perhaps, and each of its parents is
put together from fewer of them.  No parent is longer than the path, since its parts are some of the
parts of the path, and each leads one name less far down than the one before it.  `Climbs` says so
of a list of paths, and the statement this file exists for is `climbs_ancestors`.
-/
import Mathlib.Data.List.Basic
import Mathlib.Data.List.Induction
import InputDeck.Proofs.Path.Join

namespace InputDeck

open FileSystem (start pathLimit)

theorem IsName.not_blank {n : FileName} (hn : IsName n) : ¬(n = [] ∨ n = Path.here) :=
  not_or.2 ⟨hn.ne_nil, hn.ne_here⟩

namespace Path

/-- The parts that lead somewhere: neither empty nor `.`. -/
def namesOf (parts : List FileName) : List FileName :=
  parts.filter fun part => part ≠ [] ∧ part ≠ here

/-- Where parts lead from a location if none of them is `..`. -/
def below (location : Location) (parts : List FileName) : Location :=
  (namesOf parts).reverse ++ location

/-- That a path leads straight down, by names that nodes can have. -/
structure Straight (p : Path) : Prop where
  ne_nil : p.bytes ≠ []
  zero_not_mem : 0 ∉ p.bytes
  length_le : p.bytes.length ≤ pathLimit
  isName : ∀ n ∈ namesOf p.parts, IsName n

/-- That the paths of a list lead from the given location down to another, to the directory of that
one, and so on upwards. -/
inductive Climbs (dir origin : Location) : List Path → Location → Prop
  | top : Climbs dir origin [] origin
  | here {q : Path} {chain : List Path} (hq : q.Straight) (hstart : start dir q = origin)
      (hnames : namesOf q.parts = []) (hchain : Climbs dir origin chain origin) :
      Climbs dir origin (q :: chain) origin
  | down {q : Path} {chain : List Path} {before : List FileName} {n : FileName}
      (hq : q.Straight) (hstart : start dir q = origin) (hparts : q.solidParts = before ++ [n])
      (hn : IsName n) (hchain : Climbs dir origin chain (below origin before)) :
      Climbs dir origin (q :: chain) (n :: below origin before)

/-! ## Names among parts -/

variable {p : Path} {parts more : List FileName} {n : FileName}

theorem mem_namesOf : n ∈ namesOf parts ↔ n ∈ parts ∧ n ≠ [] ∧ n ≠ here := by
  simp [namesOf]

theorem namesOf_append (parts more : List FileName) :
    namesOf (parts ++ more) = namesOf parts ++ namesOf more :=
  List.filter_append ..

theorem namesOf_cons_of_blank {part : FileName} (h : part = [] ∨ part = here)
    (parts : List FileName) : namesOf (part :: parts) = namesOf parts := by
  rcases h with rfl | rfl <;> simp [namesOf]

theorem namesOf_cons {part : FileName} (h : ¬(part = [] ∨ part = here)) (parts : List FileName) :
    namesOf (part :: parts) = part :: namesOf parts := by
  simp [namesOf, not_or.1 h]

theorem namesOf_eq_self (h : ∀ n ∈ parts, IsName n) : namesOf parts = parts := by
  rw [namesOf, List.filter_eq_self]
  intro n hn
  simp [(h n hn).ne_nil, (h n hn).ne_here]

theorem namesOf_solidParts (p : Path) : namesOf p.solidParts = namesOf p.parts := by
  unfold namesOf solidParts
  rw [List.filter_filter]
  congr 1
  funext part
  by_cases h : part = [] <;> simp [h]

theorem below_cons_of_blank {part : FileName} (h : part = [] ∨ part = here) (location : Location)
    (parts : List FileName) : below location (part :: parts) = below location parts := by
  rw [below, namesOf_cons_of_blank h, below]

theorem below_cons {part : FileName} (h : ¬(part = [] ∨ part = here)) (location : Location)
    (parts : List FileName) : below location (part :: parts) = below (part :: location) parts := by
  rw [below, namesOf_cons h, List.reverse_cons, List.append_assoc, below, List.singleton_append]

theorem below_append_name (hn : IsName n) (location : Location) (parts : List FileName) :
    below location (parts ++ [n]) = n :: below location parts := by
  rw [below, namesOf_append, namesOf_cons hn.not_blank, List.reverse_append]
  rfl

theorem suffix_below (location : Location) (parts : List FileName) :
    location <:+ below location parts :=
  List.suffix_append ..

theorem Climbs.mem {dir origin location : Location} {chain : List Path}
    (h : Climbs dir origin chain location) {q : Path} (hq : q ∈ chain) :
    q.Straight ∧ start dir q = origin ∧ Path.below origin q.solidParts <:+ location := by
  induction h with
  | top => simp at hq
  | @here q' chain hq' hstart hnames hchain ih =>
      rcases List.mem_cons.1 hq with rfl | hq
      · refine ⟨hq', hstart, ?_⟩
        rw [Path.below, namesOf_solidParts, hnames]
        exact List.suffix_refl origin
      · exact ih hq
  | @down q' chain before n hq' hstart hparts hn hchain ih =>
      rcases List.mem_cons.1 hq with rfl | hq
      · have hbelow : Path.below origin q.solidParts = n :: Path.below origin before := by
          rw [hparts, below_append_name hn]
        exact ⟨hq', hstart, hbelow ▸ List.suffix_refl _⟩
      · obtain ⟨hstraight, hstart', hsuffix⟩ := ih hq
        exact ⟨hstraight, hstart', hsuffix.trans (List.suffix_cons n _)⟩

/-! ## Components of a straight path -/

/-- The component that stands before the names, if there is one. -/
def leader (p : Path) : List Component :=
  if p.isAbsolute then [.root] else if p.parts.head? = some here then [.current] else []

theorem leader_cases (p : Path) : p.isAbsolute = true ∧ p.leader = [.root] ∨
    p.isAbsolute = false ∧ (p.leader = [.current] ∨ p.leader = []) := by
  unfold leader
  cases p.isAbsolute with
  | true => exact Or.inl ⟨rfl, rfl⟩
  | false =>
      refine Or.inr ⟨rfl, ?_⟩
      by_cases hhead : p.parts.head? = some here <;> simp [hhead]

theorem filterMap_componentOfPart_eq (h : ∀ n ∈ namesOf parts, IsName n) :
    parts.filterMap componentOfPart = (namesOf parts).map .name := by
  induction parts with
  | nil => rfl
  | cons part rest ih =>
      by_cases hpart : part = [] ∨ part = here
      · rw [namesOf_cons_of_blank hpart] at h ⊢
        have hnone : componentOfPart part = none := by simp [componentOfPart, hpart]
        rw [List.filterMap_cons_none hnone, ih h]
      · have hmem : part ∈ namesOf (part :: rest) :=
          mem_namesOf.2 ⟨List.mem_cons_self, not_or.1 hpart⟩
        have hname := h part hmem
        rw [namesOf_cons hpart] at h ⊢
        rw [List.filterMap_cons_some (componentOfPart_name hname),
          ih fun n hn => h n (List.mem_cons_of_mem _ hn), List.map_cons]

theorem components_eq (h : ∀ n ∈ namesOf p.parts, IsName n) :
    p.components = p.leader ++ (namesOf p.parts).map .name := by
  rw [← filterMap_componentOfPart_eq h]
  rfl

theorem map_componentPart_name (names : List FileName) :
    (names.map Component.name).map componentPart = names := by
  rw [List.map_map]
  exact List.map_id names

theorem leader_sublist (p : Path) :
    (p.leader.map componentPart ++ namesOf p.parts).Sublist p.parts := by
  unfold leader
  split
  · rename_i habsolute
    obtain ⟨bytes⟩ := p
    obtain ⟨rest, rfl⟩ : ∃ rest, bytes = slash :: rest := by
      cases bytes with
      | nil => simp [isAbsolute] at habsolute
      | cons c rest => exact ⟨rest, by simpa [isAbsolute] using habsolute⟩
    have hparts : parts ⟨slash :: rest⟩ = [] :: parts ⟨rest⟩ := by
      rw [parts, List.splitOn_cons_eq_if_modifyHead, if_pos (beq_self_eq_true slash)]
      rfl
    rw [hparts, namesOf_cons_of_blank (Or.inl rfl)]
    exact List.filter_sublist.cons_cons []
  · split
    · rename_i hhead
      obtain ⟨more, hparts⟩ := List.head?_eq_some_iff.1 hhead
      rw [hparts, namesOf_cons_of_blank (Or.inr rfl)]
      exact List.filter_sublist.cons_cons here
    · exact List.filter_sublist

/-! ## Paths put together from parts -/

theorem length_intercalate_le {pieces all : List FileName} (h : pieces.Sublist all)
    (hne : pieces ≠ []) :
    ([slash].intercalate pieces).length ≤ ([slash].intercalate all).length := by
  have hlength : ∀ {l : List FileName}, l ≠ [] →
      ([slash].intercalate l).length + 1 = (l.map fun piece => piece.length + 1).sum := by
    intro l hl
    induction l with
    | nil => exact absurd rfl hl
    | cons piece rest ih =>
        cases rest with
        | nil => simp
        | cons next rest =>
            have hrest := ih (List.cons_ne_nil next rest)
            rw [List.intercalate_cons_cons, List.map_cons, List.sum_cons, ← hrest]
            simp
            omega
  have hall : all ≠ [] := fun he => hne (List.sublist_nil.1 (he ▸ h))
  have hsum : (pieces.map fun piece => piece.length + 1).sum ≤
      (all.map fun piece => piece.length + 1).sum := by
    clear hne hall
    induction h with
    | slnil => exact Nat.le_refl _
    | cons piece h ih =>
        rw [List.map_cons, List.sum_cons]
        omega
    | cons_cons piece h ih =>
        rw [List.map_cons, List.map_cons, List.sum_cons, List.sum_cons]
        omega
  have hpieces := hlength hne
  have hwhole := hlength hall
  omega

/-- The path with the leader of another one and the given names. -/
def led (p : Path) (names : List FileName) : Path :=
  .ofComponents (p.leader ++ names.map .name)

section Led

variable {names : List FileName}

theorem bytes_led (hne : names ≠ []) :
    (p.led names).bytes = [slash].intercalate (p.leader.map componentPart ++ names) := by
  have hroot : p.leader ++ names.map .name ≠ [.root] := by
    intro he
    rcases List.append_eq_singleton_iff.1 he with ⟨-, he⟩ | ⟨-, he⟩
    · cases names with
      | nil => exact hne rfl
      | cons n rest => simp at he
    · exact hne (List.map_eq_nil_iff.1 he)
  rw [led, ofComponents, if_neg hroot, List.map_append, map_componentPart_name]

theorem parts_led (hne : names ≠ []) (hnames : ∀ n ∈ names, IsName n) :
    (p.led names).parts = p.leader.map componentPart ++ names := by
  rw [parts, bytes_led hne, List.splitOn_intercalate]
  · intro part hpart
    rcases List.mem_append.1 hpart with hpart | hpart
    · rcases p.leader_cases with ⟨-, hleader⟩ | ⟨-, hleader | hleader⟩
      · rw [hleader] at hpart
        obtain rfl := List.mem_singleton.1 hpart
        simp [componentPart]
      · rw [hleader] at hpart
        obtain rfl := List.mem_singleton.1 hpart
        decide
      · simp [hleader] at hpart
    · exact (hnames part hpart).slash_not_mem
  · exact List.append_ne_nil_of_right_ne_nil _ hne

theorem namesOf_leader (p : Path) : namesOf (p.leader.map componentPart) = [] := by
  rcases p.leader_cases with ⟨-, hleader⟩ | ⟨-, hleader | hleader⟩ <;> rw [hleader] <;> rfl

theorem namesOf_parts_led (hne : names ≠ []) (hnames : ∀ n ∈ names, IsName n) :
    namesOf (p.led names).parts = names := by
  rw [parts_led hne hnames, namesOf_append, namesOf_leader, List.nil_append,
    namesOf_eq_self hnames]

theorem isAbsolute_led (hne : names ≠ []) (hnames : ∀ n ∈ names, IsName n) :
    (p.led names).isAbsolute = p.isAbsolute := by
  rw [isAbsolute, bytes_led hne]
  obtain ⟨n, rest, rfl⟩ := List.exists_cons_of_ne_nil hne
  obtain ⟨c, tail, hn⟩ := List.exists_cons_of_ne_nil (hnames n List.mem_cons_self).ne_nil
  have hc : c ≠ slash := fun e =>
    (hnames n List.mem_cons_self).slash_not_mem (by rw [hn, e]; exact List.mem_cons_self)
  rcases p.leader_cases with ⟨habsolute, hleader⟩ | ⟨habsolute, hleader | hleader⟩
  · rw [habsolute, hleader]
    rfl
  · rw [habsolute, hleader]
    rfl
  · rw [habsolute, hleader, List.map_nil, List.nil_append, hn]
    cases rest with
    | nil => simp [hc]
    | cons next rest => simp [List.intercalate_cons_cons, hc]

variable (hp : p.Straight) (hne : names ≠ []) (hsub : names.Sublist (namesOf p.parts))
include hp hsub

theorem Straight.isName_of_sublist : ∀ n ∈ names, IsName n :=
  fun n hn => hp.isName n (hsub.subset hn)

include hne

theorem Straight.led : (p.led names).Straight := by
  have hnames := hp.isName_of_sublist hsub
  have hparts : (p.leader.map componentPart ++ names).Sublist p.parts :=
    (hsub.append_left _).trans p.leader_sublist
  have hbytes : p.bytes = [slash].intercalate p.parts := (List.intercalate_splitOn slash).symm
  refine ⟨?_, ?_, ?_, ?_⟩
  · rw [bytes_led hne]
    obtain ⟨n, hn⟩ := List.exists_mem_of_ne_nil names hne
    obtain ⟨c, hc⟩ := List.exists_mem_of_ne_nil n (hnames n hn).ne_nil
    exact List.ne_nil_of_mem (Text.mem_intercalate_of_mem (List.mem_append_right _ hn) hc)
  · rw [bytes_led hne]
    intro hzero
    rcases Text.mem_intercalate hzero with he | ⟨part, hpart, hzero⟩
    · exact absurd he (by decide)
    · exact hp.zero_not_mem (Text.mem_of_mem_splitOn (hparts.subset hpart) hzero)
  · rw [bytes_led hne]
    refine Nat.le_trans (length_intercalate_le hparts ?_) (hbytes ▸ hp.length_le)
    exact List.append_ne_nil_of_right_ne_nil _ hne
  · rw [namesOf_parts_led hne hnames]
    exact hnames

theorem Straight.start_led (dir : Location) : start dir (p.led names) = start dir p := by
  unfold start
  rw [isAbsolute_led hne (hp.isName_of_sublist hsub)]

end Led

/-! ## Parents -/

/-- The parents of a path with the given components. -/
def above (components : List Component) : List Path :=
  ((List.range components.length).reverse.map fun n => ofComponents (components.take n)).filter
    fun q => q.components ≠ [] ∧ q.components ≠ [.root]

theorem ancestors_empty : ancestors ⟨[]⟩ = [] := by
  decide

theorem above_append (components : List Component) (c : Component) :
    above (components ++ [c]) =
      [ofComponents components].filter (fun q => q.components ≠ [] ∧ q.components ≠ [.root]) ++
        above components := by
  have htake : ∀ n ∈ (List.range components.length).reverse,
      ofComponents ((components ++ [c]).take n) = ofComponents (components.take n) := by
    intro n hn
    have hlt : n < components.length := List.mem_range.1 (List.mem_reverse.1 hn)
    rw [List.take_append_of_le_length (Nat.le_of_lt hlt)]
  unfold above
  rw [List.length_append, List.length_singleton, List.range_succ, List.reverse_append,
    List.reverse_singleton, List.map_append, List.map_congr_left htake, List.map_singleton,
    List.take_append_of_le_length (Nat.le_refl _), List.take_length, List.filter_append]

theorem above_leader (p : Path) : above p.leader = [] := by
  rcases p.leader_cases with ⟨-, hleader⟩ | ⟨-, hleader | hleader⟩ <;> rw [hleader] <;> decide

theorem climbs_leader (dir : Location) (p : Path) :
    Climbs dir (start dir p) ([ofComponents p.leader].filter fun q =>
      q.components ≠ [] ∧ q.components ≠ [.root]) (start dir p) := by
  rcases p.leader_cases with ⟨-, hleader⟩ | ⟨habsolute, hleader | hleader⟩
  · have hnone : ([ofComponents [.root]].filter fun q =>
        q.components ≠ [] ∧ q.components ≠ [.root]) = [] := by decide
    rw [hleader, hnone]
    exact .top
  · have hone : ([ofComponents [.current]].filter fun q =>
        q.components ≠ [] ∧ q.components ≠ [.root]) = [⟨here⟩] := by decide
    have hstart : start dir ⟨here⟩ = start dir p := by
      unfold start
      rw [habsolute]
      rfl
    have hnames : namesOf (parts ⟨here⟩) = [] := by decide
    rw [hleader, hone]
    refine .here ⟨by decide, by decide, by decide, ?_⟩ hstart hnames .top
    rw [hnames]
    simp
  · have hnone : ([ofComponents []].filter fun q =>
        q.components ≠ [] ∧ q.components ≠ [.root]) = [] := by decide
    rw [hleader, hnone]
    exact .top

theorem filter_led {names : List FileName} (hne : names ≠ []) (hnames : ∀ n ∈ names, IsName n) :
    ([p.led names].filter fun q => q.components ≠ [] ∧ q.components ≠ [.root]) =
      [p.led names] := by
  have hcomponents := components_eq (p := p.led names)
    (by rw [namesOf_parts_led hne hnames]; exact hnames)
  rw [namesOf_parts_led hne hnames] at hcomponents
  obtain ⟨n, rest, rfl⟩ := List.exists_cons_of_ne_nil hne
  have hmem : Component.name n ∈ (p.led (n :: rest)).components := by simp [hcomponents]
  have hnil : (p.led (n :: rest)).components ≠ [] := List.ne_nil_of_mem hmem
  have hroot : (p.led (n :: rest)).components ≠ [.root] := by
    intro he
    rw [he] at hmem
    simp at hmem
  simp [hnil, hroot]

/-- By induction on the names, the last one taken off in each step. -/
theorem climbs_above (hp : p.Straight) (dir : Location) (names : List FileName) (n : FileName)
    (hsub : names.Sublist (namesOf p.parts)) :
    Climbs dir (start dir p) (above (p.leader ++ (names ++ [n]).map .name))
      (names.reverse ++ start dir p) := by
  induction names using List.reverseRecOn generalizing n with
  | nil =>
      rw [List.nil_append, List.map_singleton, above_append, above_leader, List.append_nil]
      exact climbs_leader dir p
  | append_singleton names m ih =>
      have hne : names ++ [m] ≠ [] := by simp
      have hnames := hp.isName_of_sublist hsub
      have hm : IsName m := hnames m (by simp)
      have hbefore : names.Sublist (namesOf p.parts) :=
        (List.sublist_append_left names [m]).trans hsub
      have hsolid : (p.led (names ++ [m])).solidParts =
          (p.leader.map componentPart).filter (· ≠ []) ++ names ++ [m] := by
        have hfilter : (names ++ [m]).filter (· ≠ []) = names ++ [m] := by
          rw [List.filter_eq_self]
          intro n hn
          simp [(hnames n hn).ne_nil]
        rw [solidParts, parts_led hne hnames, List.filter_append, hfilter, List.append_assoc]
      have hbelow : below (start dir p) ((p.leader.map componentPart).filter (· ≠ []) ++ names) =
          names.reverse ++ start dir p := by
        have hleader : namesOf ((p.leader.map componentPart).filter (· ≠ [])) = [] := by
          rcases p.leader_cases with ⟨-, h⟩ | ⟨-, h | h⟩ <;> rw [h] <;> decide
        rw [below, namesOf_append, hleader, List.nil_append,
          namesOf_eq_self fun n hn => hnames n (List.mem_append_left _ hn)]
      have hchain := ih m hbefore
      rw [← hbelow] at hchain
      have hclimbs := Climbs.down (hp.led hne hsub) (hp.start_led hne hsub dir) hsolid hm hchain
      rw [hbelow] at hclimbs
      rw [List.map_append, List.map_singleton, ← List.append_assoc, above_append,
        List.reverse_append]
      have hkept := filter_led (p := p) hne hnames
      rw [led] at hkept
      rw [hkept]
      exact hclimbs

theorem climbs_ancestors (hp : p.Straight) (dir : Location) :
    Climbs dir (start dir p) p.ancestors ((namesOf p.parts).dropLast.reverse ++ start dir p) := by
  have habove : p.ancestors = above (p.leader ++ (namesOf p.parts).map .name) := by
    rw [← components_eq hp.isName]
    rfl
  rw [habove]
  rcases List.eq_nil_or_concat' (namesOf p.parts) with hnil | ⟨names, n, hnames⟩
  · rw [hnil, List.map_nil, List.append_nil, above_leader]
    exact .top
  · have hsub : names.Sublist (namesOf p.parts) := hnames ▸ List.sublist_append_left names [n]
    rw [hnames, List.dropLast_concat]
    exact climbs_above hp dir names n hsub

end Path

end InputDeck
