/-
What is written to a path is read from it.

A file takes the place of a file or of nothing, and the way to it goes through directories and
links.  So the file changes nothing on its own way, links included, and the path leads to it
afterwards: `read_of_write`, which holds of any file system.
-/
import InputDeck.FileStore
import InputDeck.Proofs.FileSystem.Walk
import InputDeck.Proofs.Generation.Jobs

namespace InputDeck
namespace FileSystem

/-- The place of the file that is written where a path arrives. -/
def Arrival.slot : Arrival → Option Location
  | .file location _ => some location
  | .directory _ => none
  | .absent dir n => some (n :: dir)

/-- The stretch when there is a file in the place where it arrives. -/
def Stretch.fill (slot : Location) (contents : Contents) : Stretch → Stretch
  | .arrived _ => .arrived (.file slot contents)
  | .link dir target rest => .link dir target rest

/-- That a walk arrives somewhere, by way of at most a number of links. -/
inductive Follows (fs : FileSystem) (purpose : Purpose) (arrival : Arrival) :
    Nat → Location → List FileName → Prop
  | arrived {links : Nat} {location : Location} {steps : List FileName}
      (h : fs.Advances purpose location steps (.arrived arrival)) :
      Follows fs purpose arrival links location steps
  | link {links : Nat} {location dir : Location} {steps rest : List FileName} {target : Path}
      (h : fs.Advances purpose location steps (.link dir target rest))
      (hrest : Follows fs purpose arrival links (start dir target) (target.steps ++ rest)) :
      Follows fs purpose arrival (links + 1) location steps

/-- That a file can be put at a location and nothing that leads through it is lost. -/
structure Fillable (fs : FileSystem) (slot : Location) : Prop where
  ne_nil : slot ≠ []
  file : ∀ node, fs.node? slot = some node → ∃ old, node = .file old

variable {fs fs' : FileSystem} {slot : Location} {contents : Contents}

/-! ## One stretch -/

theorem fillable_of_node? {location : Location} {old : Contents}
    (h : fs.node? location = some (.file old)) : fs.Fillable location where
  ne_nil := by
    rintro rfl
    simp [node?] at h
  file _ hnode := ⟨old, Option.some.inj (hnode.symm.trans h)⟩

theorem Advances.fillable {purpose : Purpose} {location : Location} {steps : List FileName}
    {arrival : Arrival} (h : fs.Advances purpose location steps (.arrived arrival))
    (harrival : arrival.slot = some slot) : fs.Fillable slot := by
  generalize hstretch : Stretch.arrived arrival = stretch at h
  induction h with
  | file h =>
      obtain rfl := Stretch.arrived.inj hstretch
      obtain rfl := Option.some.inj harrival
      exact fillable_of_node? h
  | directory _ =>
      obtain rfl := Stretch.arrived.inj hstretch
      simp [Arrival.slot] at harrival
  | link _ => simp at hstretch
  | absent _ _ _ _ hfree =>
      obtain rfl := Stretch.arrived.inj hstretch
      obtain rfl := Option.some.inj harrival
      exact ⟨by simp, fun node hnode => by simp [hfree] at hnode⟩
  | stay _ _ _ ih => exact ih hstretch
  | up _ _ ih => exact ih hstretch
  | down _ _ _ _ _ _ ih => exact ih hstretch

section Fill

variable (hslot : fs.Fillable slot)
include hslot

theorem node?_fill (contents : Contents) :
    (fs.insert slot (.file contents)).node? slot = some (.file contents) := by
  obtain ⟨name, dir, rfl⟩ := List.exists_cons_of_ne_nil hslot.ne_nil
  exact node?_insert_self name dir _

theorem node?_fill_other {location : Location} {node : Node}
    (hnode : fs.node? location = some node) (hfile : ∀ old, node ≠ .file old)
    (contents : Contents) : (fs.insert slot (.file contents)).node? location = some node := by
  rw [node?_insert_ne, hnode]
  rintro rfl
  obtain ⟨old, he⟩ := hslot.file node hnode
  exact hfile old he

/-- The directories and the link that a walk meets stay, and its last step finds the file. -/
theorem Advances.fill {location : Location} {steps : List FileName} {stretch : Stretch}
    (h : fs.Advances .write location steps stretch)
    (hstretch : ∀ arrival, stretch = .arrived arrival → arrival.slot = some slot)
    (contents : Contents) :
    (fs.insert slot (.file contents)).Advances .visit location steps
      (stretch.fill slot contents) := by
  induction h with
  | @file location old h =>
      obtain rfl : location = slot := Option.some.inj (hstretch _ rfl)
      exact .file (node?_fill hslot contents)
  | directory _ => exact absurd (hstretch _ rfl) (by simp [Arrival.slot])
  | link h => exact .link (node?_fill_other hslot h (by simp) contents)
  | stay h hstep _ ih =>
      exact .stay (node?_fill_other hslot h (by simp) contents) hstep (ih hstretch)
  | up h _ ih => exact .up (node?_fill_other hslot h (by simp) contents) (ih hstretch)
  | @absent location step h hstep hup hlength hfree =>
      obtain rfl : step :: location = slot := Option.some.inj (hstretch _ rfl)
      exact .down (node?_fill_other hslot h (by simp) contents) hstep hup (by simp) hlength
        (.file (node?_fill hslot contents))
  | down h hstep hup _ hlength _ ih =>
      exact .down (node?_fill_other hslot h (by simp) contents) hstep hup (by simp) hlength
        (ih hstretch)

/-- By induction on the links, none of which the file takes the place of. -/
theorem Follows.fill {links : Nat} {location : Location} {steps : List FileName}
    {arrival : Arrival} (h : fs.Follows .write arrival links location steps)
    (harrival : arrival.slot = some slot) (contents : Contents) :
    (fs.insert slot (.file contents)).Follows .visit (.file slot contents) links location
      steps := by
  induction h with
  | arrived h =>
      refine .arrived (h.fill hslot ?_ contents)
      rintro _ ⟨⟩
      exact harrival
  | link h _ ih => exact .link (h.fill hslot (by simp) contents) ih

end Fill

/-! ## Whole paths -/

theorem follows_iff {purpose : Purpose} {arrival : Arrival} {links : Nat} {location : Location}
    {steps : List FileName} : fs.Follows purpose arrival links location steps ↔
      fs.follow purpose links location steps = .ok arrival := by
  constructor
  · intro h
    induction h with
    | arrived h => rw [follow, h.advance]
    | link h _ ih =>
        rw [follow, h.advance]
        exact ih
  · intro h
    induction links generalizing location steps with
    | zero =>
        rw [follow] at h
        split at h
        · simp at h
        · rename_i hadvance
          exact Except.ok.inj h ▸ .arrived (advances_of_advance hadvance)
        · simp at h
    | succ links ih =>
        rw [follow] at h
        split at h
        · simp at h
        · rename_i hadvance
          exact Except.ok.inj h ▸ .arrived (advances_of_advance hadvance)
        · rename_i hadvance
          exact .link (advances_of_advance hadvance) (ih h)

theorem Follows.fillable {purpose : Purpose} {arrival : Arrival} {links : Nat}
    {location : Location} {steps : List FileName}
    (h : fs.Follows purpose arrival links location steps) (harrival : arrival.slot = some slot) :
    fs.Fillable slot := by
  induction h with
  | arrived h => exact h.fillable harrival
  | link _ _ ih => exact ih

/-- What a write changes is the file where the path arrives. -/
theorem write_eq_ok {p : Path} (h : fs.write p contents = .ok fs') :
    ∃ arrival slot, fs.resolve .write p = .ok arrival ∧ arrival.slot = some slot ∧
      fs' = fs.insert slot (.file contents) := by
  unfold write at h
  split at h
  · simp at h
  · rename_i dir name hr
    exact ⟨_, _, hr, rfl, (Except.ok.inj h).symm⟩
  · simp at h
  · rename_i location old hr
    exact ⟨_, _, hr, rfl, (Except.ok.inj h).symm⟩

theorem read_of_write {p : Path} (h : fs.write p contents = .ok fs') :
    fs'.read p = .ok contents := by
  obtain ⟨arrival, slot, hr, harrival, rfl⟩ := write_eq_ok h
  have hrefusal := refusal_eq_none_of_resolve hr
  rw [resolve_eq p .write hrefusal] at hr
  have hfollows := follows_iff.2 hr
  have hfollow := hfollows.fill (hfollows.fillable harrival) harrival contents
  rw [read, resolve_eq p .visit hrefusal, workingDirectory_insert, follows_iff.1 hfollow]

end FileSystem

/-! ## Text files -/

theorem text_of_writeText {p : Path} {text : List Char} {fs fs' : FileSystem}
    (h : Job.on (Job.writeText p text) fs = (.ok (), fs')) : fs'.text p = .ok text := by
  rw [Job.on_writeText] at h
  split at h
  · rename_i written hwrite
    obtain rfl := (Prod.mk.inj h).2
    exact FileSystem.text_of_read (FileSystem.read_of_write hwrite)
  · exact absurd (Prod.mk.inj h).1 (by simp)

end InputDeck
