import RelMapper.Proofs.Sql.Truth
namespace RelMapper.Precedence

open Predicate (operands fold)

/-- What a reader of conditions takes for one token: a whole comparison, a truth value, a keyword or
a parenthesis. -/
inductive Token
  | comparison (op : Comparison) (lhs rhs : Expr)
  | truth (t : Truth)
  | connective (op : Connective)
  | negation
  | opening
  | closing

abbrev Rest (ts : List Token) := { rest : List Token // rest.length < ts.length }

def rank : Connective → Nat
  | .and => 0
  | .or => 2

mutual

/-- A comparison, a truth value, the negation of a unary condition, or a condition in
parentheses. -/
def unary (ts : List Token) : Option (Predicate × Rest ts) :=
  match ts with
  | .comparison op lhs rhs :: us => some (.compare op lhs rhs, ⟨us, by simp⟩)
  | .truth t :: us => some (.truth t, ⟨us, by simp⟩)
  | .negation :: us =>
    match unary us with
    | some (p, ⟨rest, h⟩) => some (.negate p, ⟨rest, by simp; omega⟩)
    | none => none
  | .opening :: us =>
    match chain .or us with
    | some (p, ⟨.closing :: rest, h⟩) => some (p, ⟨rest, by simp at h ⊢; omega⟩)
    | _ => none
  | _ => none
termination_by (ts.length, 0)

def operand (op : Connective) (ts : List Token) : Option (Predicate × Rest ts) :=
  match op with
  | .and => unary ts
  | .or => chain .and ts
termination_by (ts.length, rank op + 1)
decreasing_by all_goals simp [Prod.lex_def, rank]

/-- One operand or several with `op` between them, combined from the left. -/
def chain (op : Connective) (ts : List Token) : Option (Predicate × Rest ts) :=
  match operand op ts with
  | some (p, ⟨rest, h⟩) =>
    match more op p rest with
    | some (q, ⟨rest', h'⟩) => some (q, ⟨rest', by omega⟩)
    | none => none
  | none => none
termination_by (ts.length, rank op + 2)
decreasing_by all_goals simp [Prod.lex_def]; try omega

def more (op : Connective) (p : Predicate) (ts : List Token) :
    Option (Predicate × { rest : List Token // rest.length ≤ ts.length }) :=
  match ts with
  | .connective op' :: us =>
    if op' = op then
      match operand op us with
      | some (q, ⟨rest, h⟩) =>
        match more op (.combine op p q) rest with
        | some (r, ⟨rest', h'⟩) => some (r, ⟨rest', by simp; omega⟩)
        | none => none
      | none => none
    else some (p, ⟨.connective op' :: us, Nat.le_refl _⟩)
  | us => some (p, ⟨us, Nat.le_refl _⟩)
termination_by (ts.length, 0)
decreasing_by all_goals simp [Prod.lex_def]; try omega

end

def parse (ts : List Token) : Option Predicate :=
  match chain .or ts with
  | some (p, ⟨[], _⟩) => some p
  | _ => none

def Reads {P : List Token → Prop} (x : Option (Predicate × Subtype P)) (p : Predicate)
    (rest : List Token) : Prop :=
  ∃ h, x = some (p, ⟨rest, h⟩)

theorem unary_comparison (op : Comparison) (lhs rhs : Expr) (us : List Token) :
    Reads (unary (.comparison op lhs rhs :: us)) (.compare op lhs rhs) us := by
  rw [unary]
  exact ⟨_, rfl⟩

theorem unary_truth (t : Truth) (us : List Token) :
    Reads (unary (.truth t :: us)) (.truth t) us := by
  rw [unary]
  exact ⟨_, rfl⟩

theorem unary_negation {us rest : List Token} {p : Predicate} (h : Reads (unary us) p rest) :
    Reads (unary (.negation :: us)) (.negate p) rest := by
  obtain ⟨_, h⟩ := h
  rw [unary, h]
  exact ⟨_, rfl⟩

theorem unary_opening {us rest : List Token} {p : Predicate}
    (h : Reads (chain .or us) p (.closing :: rest)) : Reads (unary (.opening :: us)) p rest := by
  obtain ⟨_, h⟩ := h
  rw [unary, h]
  exact ⟨_, rfl⟩

theorem chain_intro {op : Connective} {ts rest rest' : List Token} {p q : Predicate}
    (h : Reads (operand op ts) p rest) (h' : Reads (more op p rest) q rest') :
    Reads (chain op ts) q rest' := by
  obtain ⟨_, h⟩ := h
  obtain ⟨_, h'⟩ := h'
  rw [chain, h]
  simp only [h']
  exact ⟨_, rfl⟩

theorem more_connective {op : Connective} {us rest rest' : List Token} {p q r : Predicate}
    (h : Reads (operand op us) q rest) (h' : Reads (more op (.combine op p q) rest) r rest') :
    Reads (more op p (.connective op :: us)) r rest' := by
  obtain ⟨_, h⟩ := h
  obtain ⟨_, h'⟩ := h'
  rw [more]
  simp only [if_true, h, h']
  exact ⟨_, rfl⟩

def Stops (op : Connective) (ts : List Token) : Prop :=
  ∀ us, ts ≠ .connective op :: us

theorem more_stop {op : Connective} {ts : List Token} (h : Stops op ts) (p : Predicate) :
    Reads (more op p ts) p ts := by
  rw [more.eq_def]
  split
  · next op' us =>
    have ho : op' ≠ op := fun ho ↦ h us (by rw [ho])
    rw [if_neg ho]
    exact ⟨_, rfl⟩
  · exact ⟨_, rfl⟩

def enclosed (parentheses : Bool) (ts : List Token) : List Token :=
  if parentheses then .opening :: ts ++ [.closing] else ts

def tokens : Predicate → List Token
  | .compare op lhs rhs => [.comparison op lhs rhs]
  | .combine op lhs rhs =>
    enclosed (lhs.needsParentheses op) (tokens lhs) ++
      .connective op :: enclosed (rhs.needsParentheses op) (tokens rhs)
  | .negate p => .negation :: enclosed p.isCombination (tokens p)
  | .truth t => [.truth t]

def closedTokens (p : Predicate) : List Token :=
  enclosed p.isCombination (tokens p)

def joinedTokens (op : Connective) (ps : List Predicate) : List Token :=
  ps.flatMap fun p ↦ .connective op :: closedTokens p

theorem connective_enclosed (op : Connective) (p : Predicate) :
    .connective op :: enclosed (p.needsParentheses op) (tokens p) =
      joinedTokens op (operands op p) := by
  induction p with
  | combine op' lhs rhs ihl ihr =>
    rw [operands]
    by_cases ho : op' = op
    · subst ho
      rw [if_pos rfl, joinedTokens, List.flatMap_append, ← joinedTokens, ← joinedTokens, ← ihl,
        ← ihr]
      simp [Predicate.needsParentheses, enclosed, tokens]
    · have hp : (op' != op) = true := by simpa using ho
      rw [if_neg ho]
      simp [joinedTokens, closedTokens, Predicate.needsParentheses, Predicate.isCombination, hp]
  | compare op lhs rhs => rfl
  | negate p ih => exact (List.append_nil _).symm
  | truth t => rfl

theorem tokens_combine {op : Connective} {lhs rhs q : Predicate} {qs : List Predicate}
    (h : operands op (.combine op lhs rhs) = q :: qs) :
    tokens (.combine op lhs rhs) = closedTokens q ++ joinedTokens op qs := by
  have hc := connective_enclosed op (.combine op lhs rhs)
  rw [h] at hc
  simpa [joinedTokens, Predicate.needsParentheses, enclosed] using hc

def Equivalent (p q : Predicate) : Prop :=
  ∀ v, p.value v = q.value v

/-- The tokens of `p` as an operand are read as a predicate with the value of `p`. -/
def Readable (p : Predicate) : Prop :=
  ∀ rest, ∃ q, Reads (unary (closedTokens p ++ rest)) q rest ∧ Equivalent q p

variable {op : Connective} {p : Predicate} {rest : List Token}

theorem operand_closedTokens (h : Readable p) (hr : op = .or → Stops .and rest) :
    ∃ q, Reads (operand op (closedTokens p ++ rest)) q rest ∧ Equivalent q p := by
  obtain ⟨q, hq, he⟩ := h rest
  cases op with
  | and =>
    rw [operand]
    exact ⟨q, hq, he⟩
  | or =>
    have ha : Reads (operand .and (closedTokens p ++ rest)) q rest := by
      rw [operand]
      exact hq
    rw [operand]
    exact ⟨q, chain_intro ha (more_stop (hr rfl) q), he⟩

theorem stops_joinedTokens (hr : Stops .and rest) (ps : List Predicate) :
    Stops .and (joinedTokens .or ps ++ rest) := by
  cases ps with
  | nil => exact hr
  | cons p ps => exact fun us h ↦ by simp [joinedTokens] at h

theorem more_joinedTokens {ps : List Predicate} (h : ∀ q ∈ ps, Readable q)
    (ho : Stops op rest) (hr : op = .or → Stops .and rest) (p : Predicate) :
    ∃ q, Reads (more op p (joinedTokens op ps ++ rest)) q rest ∧
      ∀ v, q.value v = fold v op (p.value v) ps := by
  induction ps generalizing p with
  | nil => exact ⟨p, more_stop ho p, fun _ ↦ rfl⟩
  | cons q qs ih =>
    have hs : op = .or → Stops .and (joinedTokens op qs ++ rest) := by
      rintro rfl
      exact stops_joinedTokens (hr rfl) qs
    obtain ⟨r, hread, he⟩ := operand_closedTokens (h q (by simp)) hs
    obtain ⟨s, hmore, hv⟩ := ih (fun q' hq ↦ h q' (by simp [hq])) (.combine op p r)
    refine ⟨s, ?_, fun v ↦ ?_⟩
    · have hj : joinedTokens op (q :: qs) ++ rest =
          .connective op :: (closedTokens q ++ (joinedTokens op qs ++ rest)) := by
        simp [joinedTokens]
      rw [hj]
      exact more_connective hread hmore
    · rw [hv, Predicate.value, he v]
      rfl

theorem chain_combine {lhs rhs : Predicate}
    (h : ∀ q ∈ operands op (.combine op lhs rhs), Readable q) (ho : Stops op rest)
    (hr : op = .or → Stops .and rest) :
    ∃ q, Reads (chain op (tokens (.combine op lhs rhs) ++ rest)) q rest ∧
      Equivalent q (.combine op lhs rhs) := by
  obtain ⟨p, ps, hp⟩ := List.exists_cons_of_ne_nil
    (Predicate.operands_ne_nil op (.combine op lhs rhs))
  rw [hp] at h
  have hs : op = .or → Stops .and (joinedTokens op ps ++ rest) := by
    rintro rfl
    exact stops_joinedTokens (hr rfl) ps
  obtain ⟨q, hq, he⟩ := operand_closedTokens (h p (by simp)) hs
  have hps : ∀ q' ∈ ps, Readable q' := fun q' hq ↦ h q' (by simp [hq])
  obtain ⟨r, hmore, hv⟩ := more_joinedTokens hps ho hr q
  rw [tokens_combine hp, List.append_assoc]
  refine ⟨r, chain_intro hq hmore, fun v ↦ ?_⟩
  rw [hv v, he v, Predicate.fold_tail_operands v hp]

theorem chain_or_of_chain_and {ts : List Token} {q : Predicate}
    (h : Reads (chain .and ts) q rest) (ho : Stops .or rest) : Reads (chain .or ts) q rest := by
  refine chain_intro ?_ (more_stop ho q)
  rw [operand]
  exact h

/-- Every predicate can be read back, as an operand and as an operand's operand. The second part
carries the induction through chains, whose operands need not be subterms at the same depth. -/
theorem readable (p : Predicate) : Readable p ∧ ∀ op, ∀ q ∈ operands op p, Readable q := by
  induction p with
  | compare op lhs rhs =>
    have h : Readable (.compare op lhs rhs) := fun rest ↦
      ⟨_, unary_comparison op lhs rhs rest, fun _ ↦ rfl⟩
    exact ⟨h, fun op' q hq ↦ List.mem_singleton.mp hq ▸ h⟩
  | truth t =>
    have h : Readable (.truth t) := fun rest ↦ ⟨_, unary_truth t rest, fun _ ↦ rfl⟩
    exact ⟨h, fun op' q hq ↦ List.mem_singleton.mp hq ▸ h⟩
  | negate p ih =>
    have h : Readable (.negate p) := by
      intro rest
      obtain ⟨q, hq, he⟩ := ih.1 rest
      exact ⟨.negate q, unary_negation hq, fun v ↦ congrArg Truth.not (he v)⟩
    exact ⟨h, fun op' q hq ↦ List.mem_singleton.mp hq ▸ h⟩
  | combine op lhs rhs ihl ihr =>
    have hop : ∀ q ∈ operands op (.combine op lhs rhs), Readable q := by
      intro q hq
      rw [operands, if_pos rfl] at hq
      exact (List.mem_append.mp hq).elim (ihl.2 op q) (ihr.2 op q)
    have h : Readable (.combine op lhs rhs) := by
      intro rest
      have hs : ∀ op', Stops op' (.closing :: rest) := fun _ _ hc ↦ by cases hc
      obtain ⟨q, hq, he⟩ := chain_combine hop (hs op) fun _ ↦ hs .and
      have hor : Reads (chain .or (tokens (.combine op lhs rhs) ++ .closing :: rest)) q
          (.closing :: rest) := by
        cases op with
        | or => exact hq
        | and => exact chain_or_of_chain_and hq (hs .or)
      refine ⟨q, ?_, he⟩
      have ht : closedTokens (.combine op lhs rhs) ++ rest =
          .opening :: (tokens (.combine op lhs rhs) ++ .closing :: rest) := by
        simp [closedTokens, Predicate.isCombination, enclosed]
      rw [ht]
      exact unary_opening hor
    refine ⟨h, fun op' q hq ↦ ?_⟩
    by_cases ho : op = op'
    · subst ho
      exact hop q hq
    · rw [operands, if_neg ho] at hq
      exact List.mem_singleton.mp hq ▸ h

theorem chain_tokens (p : Predicate) :
    ∃ q, Reads (chain .or (tokens p)) q [] ∧ Equivalent q p := by
  have hs : ∀ op, Stops op [] := fun _ _ h ↦ by cases h
  have hclosed : p.isCombination = false → ∃ q, Reads (chain .or (tokens p)) q [] ∧
      Equivalent q p := by
    intro hp
    have hor : Connective.or = .or → Stops .and [] := fun _ ↦ hs .and
    obtain ⟨q, hq, he⟩ := operand_closedTokens (readable p).1 hor
    rw [closedTokens, hp, List.append_nil] at hq
    exact ⟨q, chain_intro hq (more_stop (hs .or) q), he⟩
  cases p with
  | combine op lhs rhs =>
    obtain ⟨q, hq, he⟩ := chain_combine ((readable (.combine op lhs rhs)).2 op) (hs op)
      fun _ ↦ hs .and
    rw [List.append_nil] at hq
    cases op with
    | or => exact ⟨q, hq, he⟩
    | and => exact ⟨q, chain_or_of_chain_and hq (hs .or), he⟩
  | compare op lhs rhs => exact hclosed rfl
  | negate p => exact hclosed rfl
  | truth t => exact hclosed rfl

theorem parse_tokens (p : Predicate) : ∃ q, parse (tokens p) = some q ∧ Equivalent q p := by
  obtain ⟨q, ⟨_, hq⟩, he⟩ := chain_tokens p
  refine ⟨q, ?_, he⟩
  rw [parse, hq]

def Token.fragment : Token → Fragment
  | .comparison op lhs rhs => (Predicate.compare op lhs rhs).fragment
  | .truth t => .ofText t.sql
  | .connective op => .ofText op.keyword
  | .negation => .ofText "NOT"
  | .opening => .ofText "("
  | .closing => .ofText ")"

def Token.spaced : Token → Bool
  | .closing => false
  | _ => true

def Token.spacing : Token → Bool
  | .opening => false
  | _ => true

def blank (b : Bool) : String :=
  if b then " " else ""

def spellAfter : Bool → List Token → Fragment
  | _, [] => []
  | b, t :: ts => .text (blank (b && t.spaced)) :: t.fragment ++ spellAfter t.spacing ts

def spell (ts : List Token) : Fragment :=
  spellAfter false ts

def SpelledAs (ts : List Token) (f : Fragment) : Prop :=
  ∀ b rest, (spellAfter b (ts ++ rest)).sql = blank b ++ f.sql ++ (spellAfter true rest).sql ∧
    (spellAfter b (ts ++ rest)).binds = f.binds ++ (spellAfter true rest).binds

theorem SpelledAs.enclosed {ts : List Token} {f : Fragment} (h : SpelledAs ts f)
    (parentheses : Bool) :
    SpelledAs (enclosed parentheses ts) (Predicate.enclosed parentheses f) := by
  cases parentheses with
  | false => exact h
  | true =>
    intro b rest
    obtain ⟨hsql, hbinds⟩ := h false (.closing :: rest)
    have ht : Precedence.enclosed true ts ++ rest = .opening :: (ts ++ .closing :: rest) := by
      simp [Precedence.enclosed]
    rw [ht]
    constructor
    · simp [spellAfter, hsql, Token.spaced, Token.spacing, Token.fragment, blank,
        Predicate.enclosed, String.append_assoc]
    · simp [spellAfter, hbinds, Token.fragment, Token.spacing, Predicate.enclosed]

theorem spelledAs_tokens (p : Predicate) : SpelledAs (tokens p) p.fragment := by
  induction p with
  | compare op lhs rhs =>
    intro b rest
    simp [tokens, spellAfter, Token.spaced, Token.spacing, Token.fragment, String.append_assoc]
  | truth t =>
    intro b rest
    simp [tokens, spellAfter, Token.spaced, Token.spacing, Token.fragment, Predicate.fragment,
      String.append_assoc]
  | negate p ih =>
    intro b rest
    obtain ⟨hsql, hbinds⟩ := ih.enclosed p.isCombination true rest
    have ht : tokens (.negate p) ++ rest =
        .negation :: (enclosed p.isCombination (tokens p) ++ rest) := rfl
    have hf : (Predicate.negate p).fragment.sql =
        "NOT" ++ (blank true ++ (Predicate.enclosed p.isCombination p.fragment).sql) := by
      rw [← String.append_assoc]
      exact Fragment.sql_text _ _
    rw [ht, hf]
    constructor
    · simp [spellAfter, hsql, Token.spaced, Token.spacing, Token.fragment, String.append_assoc]
    · simp [spellAfter, hbinds, Token.spacing, Token.fragment, Predicate.fragment]
  | combine op lhs rhs ihl ihr =>
    intro b rest
    have ht : tokens (.combine op lhs rhs) ++ rest =
        enclosed (lhs.needsParentheses op) (tokens lhs) ++
          .connective op :: (enclosed (rhs.needsParentheses op) (tokens rhs) ++ rest) := by
      simp [tokens]
    obtain ⟨hsql, hbinds⟩ := ihl.enclosed (lhs.needsParentheses op) b
      (.connective op :: (enclosed (rhs.needsParentheses op) (tokens rhs) ++ rest))
    obtain ⟨hsql', hbinds'⟩ := ihr.enclosed (rhs.needsParentheses op) true rest
    rw [ht, hsql, hbinds]
    constructor
    · simp [spellAfter, hsql', Token.spaced, Token.spacing, Token.fragment, Predicate.fragment,
        blank, String.append_assoc]
    · simp [spellAfter, hbinds', Token.spacing, Token.fragment, Predicate.fragment]

theorem writes_spell (p : Predicate) : p.render.Writes (spell (tokens p)) := by
  obtain ⟨hsql, hbinds⟩ := spelledAs_tokens p false []
  intro binds
  rw [List.append_nil] at hsql hbinds
  rw [spell, hsql, hbinds, p.writes_render binds]
  simp [blank, spellAfter]

/-- Read with the usual precedence, the text of every predicate has the value of the predicate. A
list that is combined has the value of its members from left to right. -/
theorem rendered_meaning :
    (∀ p : Predicate, p.render.Writes (spell (tokens p)) ∧
      ∃ q, parse (tokens p) = some q ∧ ∀ v, q.value v = p.value v) ∧
    ∀ op p ps, ∃ q, Predicate.concat op (p :: ps) = .ok q ∧
      ∀ v, q.value v = fold v op (p.value v) ps := by
  constructor
  · intro p
    exact ⟨writes_spell p, parse_tokens p⟩
  · intro op p ps
    exact ⟨_, rfl, fun v ↦ Predicate.value_foldl_combine v op p ps⟩

end RelMapper.Precedence
