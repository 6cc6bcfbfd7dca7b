/-
The tokens of a line, and what their values have to do with its substitution.

In a balanced line every marker has its counterpart, so it is text without markers or a first token
with such text before it and a balanced line behind it.  Substitution takes two balanced lines one
after the other (`substitute_append`).  It asks for the values of the tokens and of nothing else
(`substitute_congr`), and where it fails, the first token without a value is the cause
(`fails_of_substitute`).

The line number of a place goes into faults and has no other use (`substitute_onLine`).
-/
import InputDeck.Proofs.Result
import InputDeck.Proofs.Template.Settling

namespace InputDeck
namespace Template

/-- Every second one of some pieces, if another one follows. -/
def tokensOf : List (List Char) → List (List Char)
  | _ :: token :: next :: rest => token :: tokensOf (next :: rest)
  | _ => []

/-- The texts between the markers of a line, of which two at a time belong together. -/
def tokens (line : List Char) : List (List Char) := tokensOf (line.splitOn marker)

/-- A line of which all markers belong to tokens. -/
inductive Balanced : List Char → Prop
  | plain {text : List Char} (h : marker ∉ text) : Balanced text
  | token {before token rest : List Char} (hbefore : marker ∉ before) (htoken : marker ∉ token)
      (hrest : Balanced rest) : Balanced (before ++ marker :: (token ++ marker :: rest))

variable {vars vars' : Variables} {place : Place} {line a b before token rest text : List Char}

/-! ## Pieces and tokens -/

theorem splitOn_token (hbefore : marker ∉ before) (htoken : marker ∉ token) (rest : List Char) :
    (before ++ marker :: (token ++ marker :: rest)).splitOn marker =
      before :: token :: rest.splitOn marker := by
  rw [List.splitOn_append_cons_self_of_not_mem hbefore,
    List.splitOn_append_cons_self_of_not_mem htoken]

theorem splitOn_plain_append (ha : marker ∉ a) (b : List Char) :
    ∃ first more, b.splitOn marker = first :: more ∧
      (a ++ b).splitOn marker = (a ++ first) :: more := by
  obtain ⟨first, more, hsplit⟩ := List.exists_cons_of_ne_nil (List.splitOn_ne_nil marker b)
  refine ⟨first, more, hsplit, ?_⟩
  have hpieces : ∀ piece ∈ (a ++ first) :: more, marker ∉ piece := by
    intro piece hpiece
    rcases List.mem_cons.1 hpiece with rfl | hpiece
    · have hfirst : marker ∉ first := Text.not_mem_of_mem_splitOn (by rw [hsplit]; simp)
      simp [ha, hfirst]
    · exact Text.not_mem_of_mem_splitOn (hsplit ▸ List.mem_cons_of_mem _ hpiece)
  calc (a ++ b).splitOn marker
      = (a ++ [marker].intercalate (first :: more)).splitOn marker := by
        rw [← hsplit, List.intercalate_splitOn]
    _ = ([marker].intercalate ((a ++ first) :: more)).splitOn marker := by
        rw [Text.append_intercalate]
    _ = (a ++ first) :: more := List.splitOn_intercalate marker hpieces (by simp)

theorem count_token (hbefore : marker ∉ before) (htoken : marker ∉ token) (rest : List Char) :
    (before ++ marker :: (token ++ marker :: rest)).count marker = rest.count marker + 2 := by
  simp [List.count_append, List.count_eq_zero.2 hbefore, List.count_eq_zero.2 htoken]

theorem tokens_plain (h : marker ∉ text) : tokens text = [] := by
  rw [tokens, List.splitOn_eq_singleton h]
  rfl

theorem tokens_token (hbefore : marker ∉ before) (htoken : marker ∉ token) (rest : List Char) :
    tokens (before ++ marker :: (token ++ marker :: rest)) = token :: tokens rest := by
  obtain ⟨first, more, hsplit⟩ := List.exists_cons_of_ne_nil (List.splitOn_ne_nil marker rest)
  rw [tokens, splitOn_token hbefore htoken, tokens, hsplit, tokensOf]

theorem Balanced.tokens_append (ha : Balanced a) (b : List Char) :
    tokens (a ++ b) = tokens a ++ tokens b := by
  induction ha with
  | plain h =>
      obtain ⟨first, more, hb, hab⟩ := splitOn_plain_append h b
      rw [tokens_plain h, tokens, hab, tokens, hb]
      cases more with
      | nil => rfl
      | cons token more => cases more <;> rfl
  | @token before token rest hbefore htoken hrest ih =>
      have hcut : before ++ marker :: (token ++ marker :: rest) ++ b =
          before ++ marker :: (token ++ marker :: (rest ++ b)) := by simp
      rw [hcut, tokens_token hbefore htoken, tokens_token hbefore htoken, ih, List.cons_append]

theorem mem_of_mem_tokensOf {pieces : List (List Char)} (h : token ∈ tokensOf pieces) :
    token ∈ pieces := by
  fun_induction tokensOf pieces with
  | case1 before first next rest ih =>
      rcases List.mem_cons.1 h with rfl | h
      · simp
      · exact List.mem_cons_of_mem _ (List.mem_cons_of_mem _ (ih h))
  | case2 => simp at h

theorem marker_not_mem_of_mem_tokens (h : token ∈ tokens line) : marker ∉ token :=
  Text.not_mem_of_mem_splitOn (mem_of_mem_tokensOf h)

/-! ## Balanced lines -/

theorem Balanced.count_even (h : Balanced line) : line.count marker % 2 = 0 := by
  induction h with
  | plain h => rw [List.count_eq_zero.2 h]
  | token hbefore htoken hrest ih =>
      rw [count_token hbefore htoken]
      omega

/-- By induction on the number of tokens. -/
theorem balanced_of_count (count : Nat) (h : line.count marker = 2 * count) : Balanced line := by
  induction count generalizing line with
  | zero => exact .plain (List.count_eq_zero.1 h)
  | succ count ih =>
      have hopens : marker ∈ line := List.count_pos_iff.1 (by omega)
      obtain ⟨before, behind, rfl, hbefore⟩ := List.eq_append_cons_of_mem hopens
      have hbehind : behind.count marker = 2 * count + 1 := by
        rw [List.count_append, List.count_eq_zero.2 hbefore, List.count_cons_self] at h
        omega
      have hcloses : marker ∈ behind := List.count_pos_iff.1 (by omega)
      obtain ⟨token, rest, rfl, htoken⟩ := List.eq_append_cons_of_mem hcloses
      refine .token hbefore htoken (ih ?_)
      rw [List.count_append, List.count_eq_zero.2 htoken, List.count_cons_self] at hbehind
      omega

theorem balanced_iff : Balanced line ↔ line.count marker % 2 = 0 := by
  refine ⟨Balanced.count_even, ?_⟩
  intro h
  exact balanced_of_count (line.count marker / 2) (by omega)

theorem Balanced.append (ha : Balanced a) (hb : Balanced b) : Balanced (a ++ b) := by
  have hcount : (a ++ b).count marker = a.count marker + b.count marker := List.count_append
  have ha' := ha.count_even
  have hb' := hb.count_even
  exact balanced_iff.2 (by omega)

/-! ## Substitution, token by token -/

theorem substitute_plain (h : marker ∉ text) : substitute vars place text = .ok text := by
  rw [substitute, takeSteps, step_single h]

theorem substitute_balanced_absent (h : Balanced line) :
    substitute .absent place line = .ok line := by
  have hcount := h.count_even
  have hlength := Text.length_splitOn marker line
  exact substitute_of_absent place line (by omega)

theorem substitute_of_not_balanced (h : ¬Balanced line) :
    substitute vars place line = .error (.unbalanced place) := by
  have hlength := Text.length_splitOn marker line
  rw [balanced_iff] at h
  exact substitute_of_unbalanced vars place line (by omega)

/-- What a lookup gives for the first token stands in its place, and the rest is substituted. -/
theorem substitute_token {lookUp : List Char → Except Fault (List Char)}
    (hlookUp : Resolves vars place lookUp) (hbefore : marker ∉ before) (htoken : marker ∉ token)
    (hrest : Balanced rest) :
    substitute vars place (before ++ marker :: (token ++ marker :: rest)) =
      (lookUp token).bind fun value =>
        (substitute vars place rest).map (before ++ value ++ ·) := by
  have hline := (Balanced.token hbefore htoken hrest).count_even
  have hcount := hrest.count_even
  have hlength := Text.length_splitOn marker rest
  have hlength' := Text.length_splitOn marker (before ++ marker :: (token ++ marker :: rest))
  rw [substitute_eq_fill hlookUp _ (by omega), substitute_eq_fill hlookUp _ (by omega),
    splitOn_token hbefore htoken, fill]
  cases lookUp token with
  | error fault => rfl
  | ok value => cases fill lookUp (rest.splitOn marker) <;> rfl

/-- By induction on the tokens of the first line. -/
theorem substitute_append (ha : Balanced a) (hb : Balanced b) :
    substitute vars place (a ++ b) =
      (substitute vars place a).bind fun out => (substitute vars place b).map (out ++ ·) := by
  by_cases hvars : vars = .absent
  · subst hvars
    rw [substitute_balanced_absent ha, substitute_balanced_absent hb,
      substitute_balanced_absent (ha.append hb)]
    rfl
  obtain ⟨lookUp, hlookUp⟩ := exists_resolves hvars place
  induction ha with
  | @plain text h =>
      rw [substitute_plain h]
      show _ = (substitute vars place b).map (text ++ ·)
      cases hb with
      | plain hmore =>
          have hboth : marker ∉ text ++ b := by simp [h, hmore]
          rw [substitute_plain hboth, substitute_plain hmore]
          rfl
      | @token before token rest hbefore htoken hrest =>
          have hboth : marker ∉ text ++ before := by simp [h, hbefore]
          rw [← List.append_assoc, substitute_token hlookUp hboth htoken hrest,
            substitute_token hlookUp hbefore htoken hrest]
          cases lookUp token with
          | error fault => rfl
          | ok value => cases substitute vars place rest <;> simp [Except.bind, Except.map]
  | @token before token rest hbefore htoken hrest ih =>
      have hcut : before ++ marker :: (token ++ marker :: rest) ++ b =
          before ++ marker :: (token ++ marker :: (rest ++ b)) := by simp
      rw [hcut, substitute_token hlookUp hbefore htoken (hrest.append hb),
        substitute_token hlookUp hbefore htoken hrest, ih]
      cases lookUp token with
      | error fault => rfl
      | ok value =>
          cases substitute vars place rest with
          | error fault => rfl
          | ok out => cases substitute vars place b <;> simp [Except.bind, Except.map]

/-- Two sources give the same if they agree on the tokens. -/
theorem substitute_congr {lookUp lookUp' : List Char → Except Fault (List Char)}
    (hlookUp : Resolves vars place lookUp) (hlookUp' : Resolves vars' place lookUp')
    (h : Balanced line) (hsame : ∀ token ∈ tokens line, lookUp token = lookUp' token) :
    substitute vars place line = substitute vars' place line := by
  induction h with
  | plain h => rw [substitute_plain h, substitute_plain h]
  | @token before token rest hbefore htoken hrest ih =>
      rw [tokens_token hbefore htoken] at hsame
      rw [substitute_token hlookUp hbefore htoken hrest,
        substitute_token hlookUp' hbefore htoken hrest, hsame token List.mem_cons_self,
        ih fun t ht => hsame t (List.mem_cons_of_mem _ ht)]

/-- The same of named sources, for a line of any markers. -/
theorem substitute_named_congr {values values' : Table String Value}
    (hsame : ∀ token ∈ tokens line,
      values.get? (String.ofList token) = values'.get? (String.ofList token)) :
    substitute (.named values) place line = substitute (.named values') place line := by
  by_cases h : Balanced line
  · refine substitute_congr (resolves_namedText values place)
      (resolves_namedText values' place) h ?_
    intro token htoken
    rw [namedText, namedText, hsame token htoken]
  · rw [substitute_of_not_balanced h, substitute_of_not_balanced h]

theorem substituteLines_congr {file : String} {number : Nat} {lines : List (List Char)}
    (hsame : ∀ line ∈ lines, ∀ place, substitute vars place line = substitute vars' place line) :
    substituteLines vars file number lines = substituteLines vars' file number lines := by
  induction lines generalizing number with
  | nil => rfl
  | cons line rest ih =>
      have hline : substituteIfMarked vars ⟨file, number⟩ line =
          substituteIfMarked vars' ⟨file, number⟩ line := by
        unfold substituteIfMarked
        rw [hsame line List.mem_cons_self]
      rw [substituteLines_cons, substituteLines_cons, hline,
        ih fun l hl => hsame l (List.mem_cons_of_mem _ hl)]

theorem substituteLines_named_congr {values values' : Table String Value} {file : String}
    {number : Nat} {lines : List (List Char)}
    (hsame : ∀ line ∈ lines, ∀ token ∈ tokens line,
      values.get? (String.ofList token) = values'.get? (String.ofList token)) :
    substituteLines (.named values) file number lines =
      substituteLines (.named values') file number lines :=
  substituteLines_congr fun line hline _ => substitute_named_congr (hsame line hline)

/-! ## The token that is to blame -/

theorem resolve_of_substitute {out : List Char} (h : Balanced line)
    (hout : substitute vars place line = .ok out) :
    ∀ token ∈ tokens line, ∃ value, resolve vars place token = .ok value := by
  by_cases hvars : vars = .absent
  · subst hvars
    exact fun token _ => ⟨none, rfl⟩
  obtain ⟨lookUp, hlookUp⟩ := exists_resolves hvars place
  induction h generalizing out with
  | plain h => simp [tokens_plain h]
  | @token before token rest hbefore htoken hrest ih =>
      rw [substitute_token hlookUp hbefore htoken hrest] at hout
      obtain ⟨value, hvalue, hmore⟩ := Result.bind_eq_ok_iff.1 hout
      obtain ⟨after, hafter, -⟩ := Result.map_eq_ok_iff.1 hmore
      rw [tokens_token hbefore htoken]
      intro t ht
      rcases List.mem_cons.1 ht with rfl | ht
      · rw [hlookUp.resolve_eq, hvalue]
        exact ⟨some value, rfl⟩
      · exact ih hafter t ht

theorem substitute_of_lookUp {lookUp : List Char → Except Fault (List Char)}
    (hlookUp : Resolves vars place lookUp) (h : Balanced line)
    (hvalue : ∀ token ∈ tokens line, ∃ value, lookUp token = .ok value) :
    ∃ out, substitute vars place line = .ok out := by
  induction h with
  | @plain text h => exact ⟨text, substitute_plain h⟩
  | @token before token rest hbefore htoken hrest ih =>
      rw [tokens_token hbefore htoken] at hvalue
      obtain ⟨value, hfirst⟩ := hvalue token List.mem_cons_self
      obtain ⟨out, hout⟩ := ih fun t ht => hvalue t (List.mem_cons_of_mem _ ht)
      refine ⟨before ++ value ++ out, ?_⟩
      rw [substitute_token hlookUp hbefore htoken hrest, hfirst, hout]
      rfl

/-- That a token of a line has no value, and all those before it have. -/
structure Fails (vars : Variables) (place : Place) (front token : List Char) (fault : Fault) :
    Prop where
  balanced : Balanced front
  marker_not_mem : marker ∉ token
  resolved : ∀ t ∈ tokens front, ∃ value, resolve vars place t = .ok value
  fails : resolve vars place token = .error fault

theorem fails_of_substitute {fault : Fault} (h : Balanced line)
    (hfault : substitute vars place line = .error fault) :
    ∃ front token back, line = front ++ marker :: (token ++ marker :: back) ∧
      Fails vars place front token fault := by
  by_cases hvars : vars = .absent
  · subst hvars
    rw [substitute_balanced_absent h] at hfault
    simp at hfault
  obtain ⟨lookUp, hlookUp⟩ := exists_resolves hvars place
  induction h with
  | plain h => simp [substitute_plain h] at hfault
  | @token before token rest hbefore htoken hrest ih =>
      rw [substitute_token hlookUp hbefore htoken hrest] at hfault
      rcases Result.bind_eq_error_iff.1 hfault with hvalue | ⟨value, hvalue, hmore⟩
      · refine ⟨before, token, rest, rfl, .plain hbefore, htoken, ?_, ?_⟩
        · simp [tokens_plain hbefore]
        · rw [hlookUp.resolve_eq, hvalue]
          rfl
      · obtain ⟨front, later, back, rfl, hfails⟩ := ih (Result.map_eq_error_iff.1 hmore)
        refine ⟨before ++ marker :: (token ++ marker :: front), later, back, by simp,
          .token hbefore htoken hfails.balanced, hfails.marker_not_mem, ?_, hfails.fails⟩
        rw [tokens_token hbefore htoken]
        intro t ht
        rcases List.mem_cons.1 ht with rfl | ht
        · rw [hlookUp.resolve_eq, hvalue]
          exact ⟨some value, rfl⟩
        · exact hfails.resolved t ht

end Template

/-! ## Line numbers -/

/-- The fault with another line number. -/
def Fault.onLine (number : Nat) : Fault → Fault
  | .unbalanced place => .unbalanced ⟨place.file, number⟩
  | .missingKey key place => .missingKey key ⟨place.file, number⟩
  | .indexOutOfRange index size place => .indexOutOfRange index size ⟨place.file, number⟩
  | .notAnIndex token place => .notAnIndex token ⟨place.file, number⟩
  | fault => fault

namespace Template

variable (vars : Variables) (file : String) (number number' : Nat)

theorem resolve_onLine (token : List Char) :
    resolve vars ⟨file, number'⟩ token =
      (resolve vars ⟨file, number⟩ token).mapError (Fault.onLine number') := by
  cases vars with
  | absent => rfl
  | positional values =>
      simp only [resolve, resolveIndex]
      cases Number.readInt64 (Text.trim token) with
      | none => rfl
      | some n =>
          dsimp only
          cases (if 1 ≤ n.toInt then values[(n.toInt - 1).toNat]? else none) <;> rfl
  | named values =>
      simp only [resolve, resolveKey]
      cases values.get? (String.ofList token) <;> rfl

theorem step_onLine (line : List Char) :
    step vars ⟨file, number'⟩ line =
      (step vars ⟨file, number⟩ line).mapError (Fault.onLine number') := by
  unfold step
  split
  · split
    · rfl
    · rw [resolve_onLine vars file number number']
      cases resolve vars ⟨file, number⟩ _ <;> rfl
  · rfl

theorem substitute_onLine (line : List Char) :
    substitute vars ⟨file, number'⟩ line =
      (substitute vars ⟨file, number⟩ line).mapError (Fault.onLine number') := by
  unfold substitute
  generalize line.count marker / 2 + 1 = count
  induction count generalizing line with
  | zero => rfl
  | succ count ih =>
      rw [takeSteps, takeSteps, step_onLine vars file number number']
      cases step vars ⟨file, number⟩ line with
      | error fault => rfl
      | ok replaced =>
          cases replaced with
          | none => rfl
          | some next => exact ih next

end Template
end InputDeck
