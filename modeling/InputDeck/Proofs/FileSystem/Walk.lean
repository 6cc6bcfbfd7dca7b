/-
What a path leads to in a plain file system.

`Advances` tells how a walk goes that ends without a fault, in any file system.  Without links a
path is followed in one stretch.  `Leads` are the stretches that arrive at a directory; they can be
continued there (`Leads.advance_append`), and they arrive there still when the file system has grown
(`Leads.keeps`).  So a path that opens a directory, continued by a name, leads to what has that name
in the directory: `resolve_join`.  The one thing in the way is the greatest length of a path.
-/
import InputDeck.Proofs.FileSystem.Plain

namespace InputDeck
namespace FileSystem

variable {fs fs' : FileSystem}

/-! ## Stretches that arrive at a directory -/

/-- Steps from one directory to another, through directories only. -/
inductive Leads (fs : FileSystem) : Location → List FileName → Location → Prop
  | arrived {dir : Location} (h : fs.node? dir = some .directory) : fs.Leads dir [] dir
  | stay {location dir : Location} {step : FileName} {rest : List FileName}
      (h : step = [] ∨ step = Path.here) (hrest : fs.Leads location rest dir) :
      fs.Leads location (step :: rest) dir
  | up {location dir : Location} {rest : List FileName} (h : fs.node? location = some .directory)
      (hrest : fs.Leads location.tail rest dir) : fs.Leads location (Path.up :: rest) dir
  | down {location dir : Location} {step : FileName} {rest : List FileName}
      (h : fs.node? location = some .directory) (hstep : ¬(step = [] ∨ step = Path.here))
      (hup : step ≠ Path.up) (hlength : ¬nameLimit < step.length)
      (hrest : fs.Leads (step :: location) rest dir) : fs.Leads location (step :: rest) dir

theorem Leads.start_directory {location dir : Location} {steps : List FileName}
    (h : fs.Leads location steps dir) : fs.node? location = some .directory := by
  induction h with
  | arrived h => exact h
  | stay h hrest ih => exact ih
  | up h hrest ih => exact h
  | down h hstep hup hlength hrest ih => exact h

theorem Leads.end_directory {location dir : Location} {steps : List FileName}
    (h : fs.Leads location steps dir) : fs.node? dir = some .directory := by
  induction h with
  | arrived h => exact h
  | stay h hrest ih => exact ih
  | up h hrest ih => exact ih
  | down h hstep hup hlength hrest ih => exact ih

theorem Leads.keeps (hk : fs.Keeps fs') {location dir : Location} {steps : List FileName}
    (h : fs.Leads location steps dir) : fs'.Leads location steps dir := by
  induction h with
  | arrived h => exact .arrived (hk.directory h)
  | stay h hrest ih => exact .stay h ih
  | up h hrest ih => exact .up (hk.directory h) ih
  | down h hstep hup hlength hrest ih => exact .down (hk.directory h) hstep hup hlength ih

theorem Leads.trans {a b c : Location} {steps more : List FileName} (h : fs.Leads a steps b)
    (h' : fs.Leads b more c) : fs.Leads a (steps ++ more) c := by
  induction h with
  | arrived h => exact h'
  | stay h hrest ih => exact .stay h (ih h')
  | up h hrest ih => exact .up h (ih h')
  | down h hstep hup hlength hrest ih => exact .down h hstep hup hlength (ih h')

/-- Steps come through every directory on the way. -/
theorem Leads.split {location dir : Location} {before after : List FileName}
    (h : fs.Leads location (before ++ after) dir) :
    ∃ mid, fs.Leads location before mid ∧ fs.Leads mid after dir := by
  induction before generalizing location with
  | nil => exact ⟨location, .arrived h.start_directory, h⟩
  | cons step rest ih =>
      rw [List.cons_append] at h
      cases h with
      | stay hstep hrest =>
          obtain ⟨mid, hbefore, hafter⟩ := ih hrest
          exact ⟨mid, .stay hstep hbefore, hafter⟩
      | up hdir hrest =>
          obtain ⟨mid, hbefore, hafter⟩ := ih hrest
          exact ⟨mid, .up hdir hbefore, hafter⟩
      | down hdir hstep hup hlength hrest =>
          obtain ⟨mid, hbefore, hafter⟩ := ih hrest
          exact ⟨mid, .down hdir hstep hup hlength hbefore, hafter⟩

/-- A slash at the end of a path to a directory leads nowhere else. -/
theorem leads_append_slash {location dir : Location} {steps : List FileName} :
    fs.Leads location (steps ++ [[]]) dir ↔ fs.Leads location steps dir := by
  constructor
  · intro h
    generalize hsteps : steps ++ [[]] = all at h
    induction h generalizing steps with
    | arrived h => simp at hsteps
    | stay h hrest ih =>
        cases steps with
        | nil =>
            obtain ⟨-, rfl⟩ := List.cons.inj hsteps
            exact hrest
        | cons first more =>
            obtain ⟨rfl, hmore⟩ := List.cons.inj hsteps
            exact .stay h (ih hmore)
    | up h hrest ih =>
        cases steps with
        | nil => exact absurd (List.cons.inj hsteps).1 (by decide)
        | cons first more =>
            obtain ⟨rfl, hmore⟩ := List.cons.inj hsteps
            exact .up h (ih hmore)
    | down h hstep hup hlength hrest ih =>
        cases steps with
        | nil => exact absurd (Or.inl (List.cons.inj hsteps).1.symm) hstep
        | cons first more =>
            obtain ⟨rfl, hmore⟩ := List.cons.inj hsteps
            exact .down h hstep hup hlength (ih hmore)
  · intro h
    induction h with
    | arrived h => exact .stay (Or.inl rfl) (.arrived h)
    | stay h hrest ih => exact .stay h ih
    | up h hrest ih => exact .up h ih
    | down h hstep hup hlength hrest ih => exact .down h hstep hup hlength ih

theorem advance_step {purpose : Purpose} {location : Location} {step : FileName}
    {rest : List FileName} (hdir : fs.node? location = some .directory) :
    fs.advance purpose location (step :: rest) =
      if step = [] ∨ step = Path.here then fs.advance purpose location rest
      else if step = Path.up then fs.advance purpose location.tail rest
      else if purpose = .write ∧ rest = [[]] then .error .isADirectory
      else if nameLimit < step.length then .error .nameTooLong
      else if rest.isEmpty && (fs.node? (step :: location)).isNone then
        .ok (.arrived (.absent location step))
      else fs.advance purpose (step :: location) rest := by
  rw [advance, hdir]

/-- How a walk without faults goes: which steps it takes, and what it ends at. -/
inductive Advances (fs : FileSystem) (purpose : Purpose) :
    Location → List FileName → Stretch → Prop
  | file {location : Location} {contents : Contents}
      (h : fs.node? location = some (.file contents)) :
      Advances fs purpose location [] (.arrived (.file location contents))
  | directory {location : Location} (h : fs.node? location = some .directory) :
      Advances fs purpose location [] (.arrived (.directory location))
  | link {location : Location} {steps : List FileName} {target : Path}
      (h : fs.node? location = some (.link target)) :
      Advances fs purpose location steps (.link location.tail target steps)
  | stay {location : Location} {step : FileName} {rest : List FileName} {stretch : Stretch}
      (h : fs.node? location = some .directory) (hstep : step = [] ∨ step = Path.here)
      (hrest : Advances fs purpose location rest stretch) :
      Advances fs purpose location (step :: rest) stretch
  | up {location : Location} {rest : List FileName} {stretch : Stretch}
      (h : fs.node? location = some .directory)
      (hrest : Advances fs purpose location.tail rest stretch) :
      Advances fs purpose location (Path.up :: rest) stretch
  | absent {location : Location} {step : FileName} (h : fs.node? location = some .directory)
      (hstep : ¬(step = [] ∨ step = Path.here)) (hup : step ≠ Path.up)
      (hlength : ¬nameLimit < step.length) (hfree : fs.node? (step :: location) = none) :
      Advances fs purpose location [step] (.arrived (.absent location step))
  | down {location : Location} {step : FileName} {rest : List FileName} {stretch : Stretch}
      (h : fs.node? location = some .directory) (hstep : ¬(step = [] ∨ step = Path.here))
      (hup : step ≠ Path.up) (hslash : ¬(purpose = .write ∧ rest = [[]]))
      (hlength : ¬nameLimit < step.length)
      (hrest : Advances fs purpose (step :: location) rest stretch) :
      Advances fs purpose location (step :: rest) stretch

theorem Advances.exists_node {purpose : Purpose} {location : Location} {steps : List FileName}
    {stretch : Stretch} (h : fs.Advances purpose location steps stretch) :
    ∃ node, fs.node? location = some node := by
  cases h <;> exact ⟨_, by assumption⟩

theorem advances_of_advance {purpose : Purpose} {location : Location} {steps : List FileName}
    {stretch : Stretch} (h : fs.advance purpose location steps = .ok stretch) :
    fs.Advances purpose location steps stretch := by
  induction steps generalizing location with
  | nil =>
      rw [advance] at h
      split at h
      · simp at h
      · rename_i hnode
        exact Except.ok.inj h ▸ .file hnode
      · rename_i hnode
        exact Except.ok.inj h ▸ .directory hnode
      · rename_i hnode
        exact Except.ok.inj h ▸ .link hnode
  | cons step rest ih =>
      cases hnode : fs.node? location with
      | none => simp [advance, hnode] at h
      | some node =>
          cases node with
          | file contents => simp [advance, hnode] at h
          | link target =>
              rw [advance, hnode] at h
              exact Except.ok.inj h ▸ .link hnode
          | directory =>
              rw [advance_step hnode] at h
              by_cases hstep : step = [] ∨ step = Path.here
              · rw [if_pos hstep] at h
                exact .stay hnode hstep (ih h)
              rw [if_neg hstep] at h
              by_cases hup : step = Path.up
              · rw [if_pos hup] at h
                exact hup ▸ .up hnode (ih h)
              rw [if_neg hup] at h
              by_cases hslash : purpose = .write ∧ rest = [[]]
              · simp [hslash] at h
              rw [if_neg hslash] at h
              by_cases hlength : nameLimit < step.length
              · simp [hlength] at h
              rw [if_neg hlength] at h
              split at h
              · rename_i hfree
                rw [Bool.and_eq_true, List.isEmpty_iff, Option.isNone_iff_eq_none] at hfree
                obtain ⟨rfl, hfree⟩ := hfree
                exact Except.ok.inj h ▸ .absent hnode hstep hup hlength hfree
              · exact .down hnode hstep hup hslash hlength (ih h)

theorem Advances.advance {purpose : Purpose} {location : Location} {steps : List FileName}
    {stretch : Stretch} (h : fs.Advances purpose location steps stretch) :
    fs.advance purpose location steps = .ok stretch := by
  induction h with
  | file h => rw [FileSystem.advance, h]
  | directory h => rw [FileSystem.advance, h]
  | @link location steps target h => cases steps <;> rw [FileSystem.advance, h]
  | stay h hstep _ ih => rw [advance_step h, if_pos hstep, ih]
  | up h _ ih => rw [advance_step h, if_neg (by decide), if_pos rfl, ih]
  | absent h hstep hup hlength hfree =>
      rw [advance_step h, if_neg hstep, if_neg hup, if_neg (by simp), if_neg hlength, hfree]
      rfl
  | down h hstep hup hslash hlength hrest ih =>
      obtain ⟨node, hnode⟩ := hrest.exists_node
      rw [advance_step h, if_neg hstep, if_neg hup, if_neg hslash, if_neg hlength, hnode,
        Option.isNone_some, Bool.and_false, if_neg Bool.false_ne_true, ih]

theorem Leads.advance_append {location dir : Location} {steps : List FileName}
    (h : fs.Leads location steps dir) {n : FileName} (hn : n ≠ []) (purpose : Purpose) :
    fs.advance purpose location (steps ++ [n]) = fs.advance purpose dir [n] := by
  induction h with
  | arrived h => rfl
  | stay h hrest ih => rw [List.cons_append, advance_step hrest.start_directory, if_pos h, ih]
  | up h hrest ih =>
      rw [List.cons_append, advance_step h, if_neg (by decide), if_pos rfl, ih]
  | @down location dir step rest h hstep hup hlength hrest ih =>
      have hlast : rest ++ [n] ≠ [[]] := by
        cases rest <;> simp [hn]
      have hmore : (rest ++ [n]).isEmpty = false := by simp
      rw [List.cons_append, advance_step h, if_neg hstep, if_neg hup,
        if_neg (fun hw => hlast hw.2), if_neg hlength, hmore, Bool.false_and,
        if_neg Bool.false_ne_true, ih]

theorem Leads.advance {location dir : Location} {steps : List FileName}
    (h : fs.Leads location steps dir) :
    fs.advance .visit location steps = .ok (.arrived (.directory dir)) := by
  apply Advances.advance
  induction h with
  | arrived h => exact .directory h
  | stay h hrest ih => exact .stay hrest.start_directory h ih
  | up h _ ih => exact .up h ih
  | down h hstep hup hlength _ ih => exact .down h hstep hup (by simp) hlength ih

theorem leads_of_advance {purpose : Purpose} {location dir : Location} {steps : List FileName}
    (h : fs.advance purpose location steps = .ok (.arrived (.directory dir))) :
    fs.Leads location steps dir := by
  have hadvances := advances_of_advance h
  clear h
  generalize hdir : Stretch.arrived (.directory dir) = stretch at hadvances
  induction hadvances with
  | directory h =>
      obtain rfl := Arrival.directory.inj (Stretch.arrived.inj hdir)
      exact .arrived h
  | file _ => simp at hdir
  | link _ => simp at hdir
  | absent _ _ _ _ _ => simp at hdir
  | stay _ hstep _ ih => exact .stay hstep (ih hdir)
  | up h _ ih => exact .up h (ih hdir)
  | down h hstep hup _ hlength _ ih => exact .down h hstep hup hlength (ih hdir)

theorem advance_ne_link (hp : fs.Plain) {purpose : Purpose} {location dir : Location}
    {steps rest : List FileName} {target : Path} :
    fs.advance purpose location steps ≠ .ok (.link dir target rest) := by
  intro h
  have hadvances := advances_of_advance h
  clear h
  generalize hlink : Stretch.link dir target rest = stretch at hadvances
  induction hadvances with
  | link h => exact hp.noLink h
  | file _ => simp at hlink
  | directory _ => simp at hlink
  | absent _ _ _ _ _ => simp at hlink
  | stay _ _ _ ih => exact ih hlink
  | up _ _ ih => exact ih hlink
  | down _ _ _ _ _ _ ih => exact ih hlink

theorem follow_eq_ok (hp : fs.Plain) {purpose : Purpose} {links : Nat} {location : Location}
    {steps : List FileName} {arrival : Arrival} :
    fs.follow purpose links location steps = .ok arrival ↔
      fs.advance purpose location steps = .ok (.arrived arrival) := by
  unfold follow
  cases h : fs.advance purpose location steps with
  | error fault => simp
  | ok stretch =>
      cases stretch with
      | arrived other => simp
      | link dir target rest => exact absurd h (advance_ne_link hp)

theorem follow_directory (hp : fs.Plain) {links : Nat} {location dir : Location}
    {steps : List FileName} :
    fs.follow .visit links location steps = .ok (.directory dir) ↔ fs.Leads location steps dir := by
  rw [follow_eq_ok hp]
  exact ⟨leads_of_advance, Leads.advance⟩

/-! ## Paths that open a directory -/

theorem resolve_eq (p : Path) (purpose : Purpose) (h : refusal p = none) :
    fs.resolve purpose p = fs.follow purpose linkLimit (start fs.workingDirectory p) p.steps := by
  unfold resolve
  rw [h]

theorem refusal_eq_none {p : Path} :
    refusal p = none ↔ 0 ∉ p.bytes ∧ p.bytes ≠ [] ∧ p.bytes.length ≤ pathLimit := by
  unfold refusal
  by_cases hzero : 0 ∈ p.bytes
  · simp [hzero]
  · by_cases hnil : p.bytes = []
    · simp [hnil]
    · by_cases hlength : pathLimit < p.bytes.length
      · simp [hzero, hnil, hlength]
      · simp [hzero, hnil, hlength, Nat.le_of_not_lt hlength]

theorem refusal_eq_nameTooLong {p : Path} (hzero : 0 ∉ p.bytes)
    (hlength : pathLimit < p.bytes.length) : refusal p = some .nameTooLong := by
  have hnil : p.bytes ≠ [] := by
    intro he
    simp [he] at hlength
  simp [refusal, hzero, hnil, hlength]

theorem resolve_of_refusal {p : Path} {fault : FileFault} (h : refusal p = some fault)
    (purpose : Purpose) : fs.resolve purpose p = .error fault := by
  unfold resolve
  rw [h]

theorem refusal_eq_none_of_resolve {p : Path} {purpose : Purpose} {arrival : Arrival}
    (h : fs.resolve purpose p = .ok arrival) : refusal p = none := by
  cases hr : refusal p with
  | none => rfl
  | some fault => simp [resolve, hr] at h

theorem resolve_directory (hp : fs.Plain) {p : Path} {dir : Location} :
    fs.resolve .visit p = .ok (.directory dir) ↔
      refusal p = none ∧ fs.Leads (start fs.workingDirectory p) p.solidParts dir := by
  have hsteps : fs.Leads (start fs.workingDirectory p) p.steps dir ↔
      fs.Leads (start fs.workingDirectory p) p.solidParts dir := by
    rw [Path.steps_eq]
    split
    · exact leads_append_slash
    · rw [List.append_nil]
  constructor
  · intro h
    have hr := refusal_eq_none_of_resolve h
    rw [resolve_eq p .visit hr, follow_directory hp, hsteps] at h
    exact ⟨hr, h⟩
  · rintro ⟨hr, h⟩
    rw [resolve_eq p .visit hr, follow_directory hp, hsteps]
    exact h

theorem resolve_of_keeps (hp : fs.Plain) (hp' : fs'.Plain) (hk : fs.Keeps fs') {p : Path}
    {dir : Location} (h : fs.resolve .visit p = .ok (.directory dir)) :
    fs'.resolve .visit p = .ok (.directory dir) := by
  obtain ⟨hr, hleads⟩ := (resolve_directory hp).1 h
  rw [resolve_directory hp', hk.workingDirectory_eq]
  exact ⟨hr, hleads.keeps hk⟩

/-- That what is joined to a path stands in the directory.  To join something to the empty path
leaves it in the working directory. -/
def Opens (fs : FileSystem) (p : Path) (dir : Location) : Prop :=
  if p.bytes = [] then dir = fs.workingDirectory else fs.resolve .visit p = .ok (.directory dir)

theorem opens_of_resolve {p : Path} {dir : Location}
    (h : fs.resolve .visit p = .ok (.directory dir)) : fs.Opens p dir := by
  have hr := refusal_eq_none.1 (refusal_eq_none_of_resolve h)
  rw [Opens, if_neg hr.2.1]
  exact h

theorem Opens.eq {p : Path} {dir dir' : Location} (h : fs.Opens p dir) (h' : fs.Opens p dir') :
    dir' = dir := by
  unfold Opens at h h'
  split at h
  · rename_i hnil
    rw [if_pos hnil] at h'
    rw [h, h']
  · rename_i hnil
    rw [if_neg hnil, h] at h'
    exact (Arrival.directory.inj (Except.ok.inj h')).symm

theorem Opens.leads (hp : fs.Plain) {p : Path} {dir : Location} (h : fs.Opens p dir) :
    0 ∉ p.bytes ∧ fs.Leads (start fs.workingDirectory p) p.solidParts dir := by
  unfold Opens at h
  split at h
  · rename_i hnil
    obtain ⟨bytes⟩ := p
    obtain rfl : bytes = [] := hnil
    rw [h, Path.solidParts_empty]
    exact ⟨by simp, .arrived hp.working⟩
  · obtain ⟨hr, hleads⟩ := (resolve_directory hp).1 h
    exact ⟨(refusal_eq_none.1 hr).1, hleads⟩

theorem Opens.keeps (hp : fs.Plain) (hp' : fs'.Plain) (hk : fs.Keeps fs') {p : Path}
    {dir : Location} (h : fs.Opens p dir) : fs'.Opens p dir := by
  unfold Opens at h ⊢
  split
  · rename_i hnil
    rw [if_pos hnil] at h
    rw [h, hk.workingDirectory_eq]
  · rename_i hnil
    rw [if_neg hnil] at h
    exact resolve_of_keeps hp hp' hk h

/-- Where a name leads in a directory. -/
def arrival (fs : FileSystem) (dir : Location) (n : FileName) : Arrival :=
  match fs.node? (n :: dir) with
  | some (.file contents) => .file (n :: dir) contents
  | some .directory => .directory (n :: dir)
  | _ => .absent dir n

theorem advance_name (hp : fs.Plain) {dir : Location} (hdir : fs.node? dir = some .directory)
    {n : FileName} (hn : IsName n) (purpose : Purpose) :
    fs.advance purpose dir [n] = .ok (.arrived (fs.arrival dir n)) := by
  have hstep : ¬(n = [] ∨ n = Path.here) := fun h => h.elim hn.ne_nil hn.ne_here
  have hlength : ¬nameLimit < n.length := Nat.not_lt.2 hn.length_le
  rw [advance_step hdir, if_neg hstep, if_neg hn.ne_up, if_neg (by simp), if_neg hlength]
  unfold arrival
  cases hnode : fs.node? (n :: dir) with
  | none => rfl
  | some node =>
      cases node with
      | file contents => simp [FileSystem.advance, hnode]
      | directory => simp [FileSystem.advance, hnode]
      | link target => exact absurd hnode hp.noLink

theorem resolve_join (hp : fs.Plain) {p : Path} {dir : Location} (ho : fs.Opens p dir)
    {n : FileName} (hn : IsName n) (purpose : Purpose) :
    fs.resolve purpose (p.join ⟨n⟩) =
      if pathLimit < (p.join ⟨n⟩).bytes.length then .error .nameTooLong
      else .ok (fs.arrival dir n) := by
  obtain ⟨hzero, hleads⟩ := ho.leads hp
  have hzero := Path.zero_not_mem_join hn hzero
  have hnil := Path.bytes_join_ne_nil hn p
  by_cases hlength : pathLimit < (p.join ⟨n⟩).bytes.length
  · rw [if_pos hlength, resolve_of_refusal (refusal_eq_nameTooLong hzero hlength)]
  · have hr := refusal_eq_none.2 ⟨hzero, hnil, Nat.le_of_not_lt hlength⟩
    have hstart : start fs.workingDirectory (p.join ⟨n⟩) = start fs.workingDirectory p := by
      unfold start
      rw [Path.isAbsolute_join (Path.isAbsolute_name hn)]
    rw [if_neg hlength, resolve_eq _ purpose hr, Path.steps_join hn, hstart, follow_eq_ok hp,
      hleads.advance_append hn.ne_nil, advance_name hp hleads.end_directory hn]

theorem resolve_join_congr (hp : fs.Plain) (hp' : fs'.Plain) {p : Path} {dir : Location}
    (ho : fs.Opens p dir) (ho' : fs'.Opens p dir) {n : FileName} (hn : IsName n)
    (hnode : fs'.node? (n :: dir) = fs.node? (n :: dir)) {purpose : Purpose} :
    fs'.resolve purpose (p.join ⟨n⟩) = fs.resolve purpose (p.join ⟨n⟩) := by
  rw [resolve_join hp ho hn, resolve_join hp' ho' hn, arrival, arrival, hnode]

theorem leads_here {location : Location} (h : fs.node? location = some .directory) (count : Nat) :
    fs.Leads location (List.replicate count Path.here) location := by
  induction count with
  | zero => exact .arrived h
  | succ count ih => exact .stay (Or.inr rfl) ih

theorem resolve_detour (hp : fs.Plain) {p : Path} {dir : Location}
    (h : fs.resolve .visit p = .ok (.directory dir)) (hrelative : p.isAbsolute = false)
    {count : Nat} (hlength : (p.detour count).bytes.length ≤ pathLimit) :
    fs.resolve .visit (p.detour count) = .ok (.directory dir) := by
  obtain ⟨hr, hleads⟩ := (resolve_directory hp).1 h
  obtain ⟨hzero, hnil, -⟩ := refusal_eq_none.1 hr
  have hnil' : (p.detour count).bytes ≠ [] := fun he => hnil (List.append_eq_nil_iff.1 he).2
  have hstart : start fs.workingDirectory (p.detour count) = start fs.workingDirectory p := by
    unfold start
    rw [Path.isAbsolute_detour hrelative, hrelative]
  rw [resolve_directory hp, hstart, Path.solidParts_detour]
  exact ⟨refusal_eq_none.2 ⟨Path.zero_not_mem_detour hzero count, hnil', hlength⟩,
    (leads_here hleads.start_directory count).trans hleads⟩

/-! ## Files of a directory, by their paths -/

section Joined

variable {p : Path} {dir : Location} {n : FileName}

theorem isFile_join (hp : fs.Plain) (ho : fs.Opens p dir) (hn : IsName n) :
    fs.isFile (p.join ⟨n⟩) = true ↔ (p.join ⟨n⟩).bytes.length ≤ pathLimit ∧
      ∃ contents, fs.node? (n :: dir) = some (.file contents) := by
  unfold isFile
  rw [resolve_join hp ho hn]
  by_cases hlength : pathLimit < (p.join ⟨n⟩).bytes.length
  · have hnot : ¬(p.join ⟨n⟩).bytes.length ≤ pathLimit := Nat.not_le.2 hlength
    simp [hlength, hnot]
  · have hle := Nat.le_of_not_lt hlength
    rw [if_neg hlength]
    unfold arrival
    cases hnode : fs.node? (n :: dir) with
    | none => simp
    | some node => cases node <;> simp [hle]

theorem read_join (hp : fs.Plain) (ho : fs.Opens p dir) (hn : IsName n)
    (hlength : (p.join ⟨n⟩).bytes.length ≤ pathLimit) {contents : Contents}
    (hnode : fs.node? (n :: dir) = some (.file contents)) :
    fs.read (p.join ⟨n⟩) = .ok contents := by
  unfold read
  rw [resolve_join hp ho hn, if_neg (Nat.not_lt.2 hlength), arrival, hnode]

theorem isDirectory_join (hp : fs.Plain) (ho : fs.Opens p dir) (hn : IsName n) :
    fs.isDirectory (p.join ⟨n⟩) = true ↔ (p.join ⟨n⟩).bytes.length ≤ pathLimit ∧
      fs.node? (n :: dir) = some .directory := by
  unfold isDirectory
  rw [resolve_join hp ho hn]
  by_cases hlength : pathLimit < (p.join ⟨n⟩).bytes.length
  · have hnot : ¬(p.join ⟨n⟩).bytes.length ≤ pathLimit := Nat.not_le.2 hlength
    simp [hlength, hnot]
  · have hle := Nat.le_of_not_lt hlength
    rw [if_neg hlength]
    unfold arrival
    cases hnode : fs.node? (n :: dir) with
    | none => simp
    | some node => cases node <;> simp [hle]

theorem write_join (hp : fs.Plain) (ho : fs.Opens p dir) (hn : IsName n) (contents : Contents) :
    fs.write (p.join ⟨n⟩) contents =
      if pathLimit < (p.join ⟨n⟩).bytes.length then .error .nameTooLong
      else if fs.isDirectory (p.join ⟨n⟩) then .error .isADirectory
      else .ok (fs.insert (n :: dir) (.file contents)) := by
  have hiff := isDirectory_join hp ho hn
  unfold write
  rw [resolve_join hp ho hn]
  by_cases hlength : pathLimit < (p.join ⟨n⟩).bytes.length
  · simp [hlength]
  · rw [if_neg hlength, if_neg hlength]
    by_cases hdirectory : fs.node? (n :: dir) = some .directory
    · rw [if_pos (hiff.2 ⟨Nat.le_of_not_lt hlength, hdirectory⟩)]
      simp [arrival, hdirectory]
    · rw [if_neg fun h => hdirectory (hiff.1 h).2]
      unfold arrival
      cases hnode : fs.node? (n :: dir) with
      | none => rfl
      | some node =>
          cases node with
          | file old => rfl
          | directory => exact absurd hnode hdirectory
          | link target => rfl

end Joined

end FileSystem
end InputDeck
