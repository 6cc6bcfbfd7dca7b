/-
Paths continued by others, and paths whose slashes at the end are left out.

A path continued by a relative one has the parts of both and the same start, whether the path ends
in a slash, in a name, or is empty.  A name that stands in a directory is a part of a path as it is:
it is not empty, not `.` and not `..`, and it holds neither a slash nor a zero byte.  A path
continued by such a name has one part more, and its file name is that name.
-/
import InputDeck.FileSystem.Basic
import InputDeck.Proofs.Text.Pieces
import InputDeck.Selection

namespace InputDeck

/-- What a node of a file system can be called. -/
structure IsName (n : FileName) : Prop where
  ne_nil : n ≠ []
  ne_here : n ≠ Path.here
  ne_up : n ≠ Path.up
  slash_not_mem : Path.slash ∉ n
  zero_not_mem : 0 ∉ n
  length_le : n.length ≤ FileSystem.nameLimit

namespace Path

/-- The parts between the slashes that name something. -/
def solidParts (p : Path) : List FileName := p.parts.filter (· ≠ [])

theorem steps_eq (p : Path) : p.steps = p.solidParts ++ if p.endsInSlash then [[]] else [] := rfl

theorem ne_nil_of_mem_solidParts {p : Path} {part : FileName} (h : part ∈ p.solidParts) :
    part ≠ [] := by
  have hsolid := (List.mem_filter.1 h).2
  simpa using hsolid

theorem slash_not_mem_of_mem_solidParts {p : Path} {part : FileName} (h : part ∈ p.solidParts) :
    slash ∉ part :=
  Text.not_mem_of_mem_splitOn (List.mem_filter.1 h).1

theorem mem_bytes_of_mem_solidParts {p : Path} {part : FileName} (h : part ∈ p.solidParts)
    {c : UInt8} (hc : c ∈ part) : c ∈ p.bytes :=
  Text.mem_of_mem_splitOn (List.mem_filter.1 h).1 hc

/-! ## Cuts at the last slash -/

theorem solidParts_append_slash (front back : List UInt8) :
    solidParts ⟨front ++ slash :: back⟩ = solidParts ⟨front⟩ ++ solidParts ⟨back⟩ := by
  simp only [solidParts, parts]
  rw [List.splitOn_append_cons_self, List.filter_append]

theorem solidParts_empty : solidParts ⟨[]⟩ = [] := by
  simp [solidParts, parts]

theorem endsInSlash_iff (p : Path) :
    p.endsInSlash = true ↔ ∃ front, p.bytes = front ++ [slash] := by
  unfold endsInSlash
  rw [beq_iff_eq, List.getLast?_eq_some_iff]

theorem solidParts_slash_end (front : List UInt8) :
    solidParts ⟨front ++ [slash]⟩ = solidParts ⟨front⟩ := by
  rw [solidParts_append_slash, solidParts_empty, List.append_nil]

/-! ## A relative path behind a path -/

section Relative

variable {q : Path} (hq : q.isAbsolute = false)
include hq

theorem bytes_join (p : Path) : (p.join q).bytes =
    if p.bytes = [] ∨ p.endsInSlash then p.bytes ++ q.bytes else p.bytes ++ slash :: q.bytes := by
  unfold join
  rw [hq]
  by_cases h : p.bytes = [] ∨ p.endsInSlash <;> simp [h]

theorem isAbsolute_join (p : Path) : (p.join q).isAbsolute = p.isAbsolute := by
  unfold isAbsolute at hq ⊢
  rw [bytes_join hq]
  cases hp : p.bytes with
  | nil => simpa using hq
  | cons c rest => split <;> simp

theorem solidParts_join (p : Path) : (p.join q).solidParts = p.solidParts ++ q.solidParts := by
  have hjoin : p.join q = ⟨(p.join q).bytes⟩ := rfl
  rw [hjoin, bytes_join hq]
  split
  · rename_i h
    rcases h with h | h
    · obtain ⟨bytes⟩ := p
      subst h
      rw [List.nil_append, solidParts_empty, List.nil_append]
    · obtain ⟨front, hfront⟩ := (endsInSlash_iff p).1 h
      obtain ⟨bytes⟩ := p
      subst hfront
      rw [List.append_assoc, List.singleton_append, solidParts_append_slash, solidParts_slash_end]
  · rw [solidParts_append_slash]

end Relative

/-! ## A name behind a path -/

section Name

variable {n : FileName} (hn : IsName n)
include hn

theorem solidParts_name : solidParts ⟨n⟩ = [n] := by
  simp only [solidParts, parts]
  rw [List.splitOn_eq_singleton hn.slash_not_mem]
  simp [hn.ne_nil]

theorem isAbsolute_name : isAbsolute ⟨n⟩ = false := by
  obtain ⟨c, rest, rfl⟩ := List.exists_cons_of_ne_nil hn.ne_nil
  have hc : c ≠ slash := fun e => hn.slash_not_mem (by simp [e])
  simp [isAbsolute, hc]

theorem exists_bytes_join (p : Path) : ∃ front, (p.join ⟨n⟩).bytes = front ++ n := by
  rw [bytes_join (isAbsolute_name hn)]
  split
  · exact ⟨p.bytes, rfl⟩
  · exact ⟨p.bytes ++ [slash], by simp⟩

theorem length_join (p : Path) : p.bytes.length + n.length ≤ (p.join ⟨n⟩).bytes.length := by
  rw [bytes_join (isAbsolute_name hn)]
  split
  · exact Nat.le_of_eq List.length_append.symm
  · rw [List.length_append, List.length_cons]
    dsimp only
    omega

theorem bytes_join_ne_nil (p : Path) : (p.join ⟨n⟩).bytes ≠ [] := by
  obtain ⟨front, h⟩ := exists_bytes_join hn p
  rw [h]
  exact List.append_ne_nil_of_right_ne_nil front hn.ne_nil

theorem zero_not_mem_join {p : Path} (hp : 0 ∉ p.bytes) : 0 ∉ (p.join ⟨n⟩).bytes := by
  have hslash : (0 : UInt8) ≠ slash := by decide
  rw [bytes_join (isAbsolute_name hn)]
  split <;> simp [hp, hn.zero_not_mem, hslash]

theorem endsInSlash_join (p : Path) : (p.join ⟨n⟩).endsInSlash = false := by
  obtain ⟨front, h⟩ := exists_bytes_join hn p
  have hlast : n.getLast hn.ne_nil ≠ slash := fun e =>
    hn.slash_not_mem (e ▸ List.getLast_mem hn.ne_nil)
  rw [endsInSlash, h, List.getLast?_append, List.getLast?_eq_some_getLast hn.ne_nil]
  simpa using hlast

theorem solidParts_join_name (p : Path) : (p.join ⟨n⟩).solidParts = p.solidParts ++ [n] := by
  rw [solidParts_join (isAbsolute_name hn), solidParts_name hn]

theorem steps_join (p : Path) : (p.join ⟨n⟩).steps = p.solidParts ++ [n] := by
  rw [steps_eq, solidParts_join_name hn, endsInSlash_join hn]
  simp

/-! Components are read off the parts, and parts with nothing in them count for nothing. -/

omit hn in
theorem filterMap_componentOfPart_parts (p : Path) :
    p.parts.filterMap componentOfPart = p.solidParts.filterMap componentOfPart := by
  unfold solidParts
  rw [List.filterMap_filter]
  congr 1
  funext part
  by_cases h : part = [] <;> simp [h, componentOfPart]

theorem componentOfPart_name : componentOfPart n = some (.name n) := by
  simp [componentOfPart, hn.ne_nil, hn.ne_here, hn.ne_up]

theorem fileName_join (p : Path) : (p.join ⟨n⟩).fileName = some n := by
  unfold fileName components
  rw [filterMap_componentOfPart_parts, solidParts_join_name hn, List.filterMap_append,
    List.filterMap_cons, componentOfPart_name hn]
  simp

theorem extension_join (p : Path) : (p.join ⟨n⟩).extension = extension ⟨n⟩ := by
  have hempty : (⟨[]⟩ : Path).join ⟨n⟩ = ⟨n⟩ := by
    simp [join, isAbsolute_name hn]
  have hname : fileName ⟨n⟩ = some n := by
    rw [← hempty, fileName_join hn]
  unfold extension
  rw [fileName_join hn, hname]

/-- Which names belong to templates does not depend on where they stand. -/
theorem admits_join (s : Selection) (p : Path) : s.admits (p.join ⟨n⟩) = s.admits ⟨n⟩ := by
  unfold Selection.admits
  rw [extension_join hn]

end Name

/-! ## Detours

A part `.` leads nowhere and makes a path longer. -/

/-- A path with parts `.` in front. -/
def detour (count : Nat) (p : Path) : Path :=
  ⟨(List.replicate count [dot, slash]).flatten ++ p.bytes⟩

theorem length_detour (count : Nat) (p : Path) :
    (detour count p).bytes.length = 2 * count + p.bytes.length := by
  simp [detour, Nat.mul_comm]

theorem detour_succ (count : Nat) (p : Path) :
    detour (count + 1) p = ⟨[dot] ++ slash :: (detour count p).bytes⟩ := by
  simp [detour, List.replicate_succ]

theorem solidParts_detour (count : Nat) (p : Path) :
    (detour count p).solidParts = List.replicate count here ++ p.solidParts := by
  induction count with
  | zero => simp [detour]
  | succ count ih =>
      have hdot : solidParts ⟨[dot]⟩ = [here] := by decide
      rw [detour_succ, solidParts_append_slash, hdot, ih, List.replicate_succ]
      rfl

theorem zero_not_mem_detour {p : Path} (h : 0 ∉ p.bytes) (count : Nat) :
    0 ∉ (detour count p).bytes := by
  have hdot : (0 : UInt8) ≠ dot := by decide
  have hslash : (0 : UInt8) ≠ slash := by decide
  simp [detour, h, hdot, hslash]

theorem isAbsolute_detour {p : Path} (h : p.isAbsolute = false) (count : Nat) :
    (detour count p).isAbsolute = false := by
  cases count with
  | zero => simpa [detour] using h
  | succ count =>
      have hne : dot ≠ slash := by decide
      simp [detour_succ, isAbsolute, hne]

/-! ## Slashes at the end -/

theorem exists_slashes (p : Path) :
    ∃ count, p.bytes = p.withoutFinalSlashes.bytes ++ List.replicate count slash := by
  refine ⟨(p.bytes.reverse.takeWhile (· == slash)).length, ?_⟩
  have hall : p.bytes.reverse.takeWhile (· == slash) =
      List.replicate (p.bytes.reverse.takeWhile (· == slash)).length slash := by
    apply List.eq_replicate_of_mem
    intro c hc
    have hslash := List.all_eq_true.1 (List.all_takeWhile (p := (· == slash))) c hc
    simpa using hslash
  have hcut := List.takeWhile_append_dropWhile (p := (· == slash)) (l := p.bytes.reverse)
  rw [withoutFinalSlashes, ← List.reverse_replicate, ← hall, ← List.reverse_append, hcut,
    List.reverse_reverse]

theorem endsInSlash_withoutFinalSlashes (p : Path) : p.withoutFinalSlashes.endsInSlash = false := by
  cases hrest : p.bytes.reverse.dropWhile (· == slash) with
  | nil => simp [endsInSlash, withoutFinalSlashes, hrest]
  | cons c rest =>
      have hc : (c == slash) = false := by
        have hhead := List.head?_dropWhile_not (p := (· == slash)) (l := p.bytes.reverse)
        rw [hrest] at hhead
        simpa using hhead
      simpa [endsInSlash, withoutFinalSlashes, hrest] using hc

theorem solidParts_slashes (bytes : List UInt8) (count : Nat) :
    solidParts ⟨bytes ++ List.replicate count slash⟩ = solidParts ⟨bytes⟩ := by
  induction count with
  | zero => simp
  | succ count ih =>
      rw [List.replicate_succ', ← List.append_assoc, solidParts_slash_end, ih]

theorem steps_withoutFinalSlashes (p : Path) : p.withoutFinalSlashes.steps = p.solidParts := by
  obtain ⟨count, h⟩ := exists_slashes p
  have hsame : p.solidParts = p.withoutFinalSlashes.solidParts := by
    calc p.solidParts
        = solidParts ⟨p.withoutFinalSlashes.bytes ++ List.replicate count slash⟩ := by rw [← h]
      _ = p.withoutFinalSlashes.solidParts := solidParts_slashes _ count
  rw [steps_eq, endsInSlash_withoutFinalSlashes, hsame]
  simp

end Path

end InputDeck
