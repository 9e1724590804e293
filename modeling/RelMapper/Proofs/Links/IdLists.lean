import RelMapper.Proofs.Links.IdTokens
import RelMapper.Proofs.Text.Numerals
namespace RelMapper.IdList

open Text

variable {t u : List Char} {v : Value} {ids : List Value}

/-- How an id is written: an integer in decimal, and text between two quotes of one kind. -/
inductive IsWritten : Value → List Char → Prop
  | integer (n : Int64) : IsWritten (.bigInt n) (toString n.toInt).toList
  | quoted {s : String} {q : Char} (hq : isQuote q = true)
    (hs : ∀ c ∈ s.toList, isQuote c = false) : IsWritten (.text s) (q :: s.toList ++ [q])

structure IsSeparator (t : List Char) : Prop where
  ne_nil : t ≠ []
  isSeparating : ∀ c ∈ t, isBlank c = true ∨ c = ','

/-- Ids as they are written one after the other, each in a way of its own and each with a separator
of its own before the next one. -/
inductive AreWritten : List Value → List Char → Prop
  | nil : AreWritten [] []
  | singleton {v : Value} {t : List Char} (h : IsWritten v t) : AreWritten [v] t
  | cons {v w : Value} {ids : List Value} {t separator u : List Char} (h : IsWritten v t)
    (hseparator : IsSeparator separator) (hs : AreWritten (w :: ids) u) :
    AreWritten (v :: w :: ids) (t ++ separator ++ u)

def IsWritable : Value → Prop
  | .bigInt _ => True
  | .text s => ∀ c ∈ s.toList, isQuote c = false
  | _ => False

theorem isWritable_of_isWritten (h : IsWritten v t) : IsWritable v := by
  cases h with
  | integer n => trivial
  | quoted hq hs => exact hs

theorem exists_isWritten (h : IsWritable v) : ∃ t, IsWritten v t := by
  cases v with
  | bigInt n => exact ⟨_, .integer n⟩
  | text s => exact ⟨_, .quoted (q := '"') (by decide) h⟩
  | _ => cases h

theorem exists_areWritten_iff : (∃ t, AreWritten ids t) ↔ ∀ id ∈ ids, IsWritable id := by
  constructor
  · rintro ⟨t, h⟩
    induction h with
    | nil => exact nofun
    | singleton h => exact List.forall_mem_singleton.mpr (isWritable_of_isWritten h)
    | cons h _ _ ih => exact List.forall_mem_cons.mpr ⟨isWritable_of_isWritten h, ih⟩
  · intro h
    induction ids with
    | nil => exact ⟨[], .nil⟩
    | cons v ids ih =>
      obtain ⟨hv, hids⟩ := List.forall_mem_cons.mp h
      obtain ⟨t, ht⟩ := exists_isWritten hv
      obtain ⟨u, hu⟩ := ih hids
      cases ids with
      | nil => exact ⟨t, .singleton ht⟩
      | cons w ids =>
        have hcomma : IsSeparator [','] := ⟨by simp, by simp⟩
        exact ⟨_, .cons ht hcomma hu⟩

theorem isNumber_toString (n : Int) : IsNumber (toString n).toList := by
  have hdigits (k : Nat) : ∀ c ∈ Nat.toDigits 10 k, isDecimalDigit c = true :=
    fun c hc ↦ isDecimalDigit_of_isDigit (isDigit_of_mem_toDigits k c hc)
  rw [toList_toString_int]
  split
  · exact ⟨_, Nat.toDigits_ne_nil, hdigits _, .inl rfl⟩
  · exact ⟨_, Nat.toDigits_ne_nil, hdigits _, .inr rfl⟩

theorem isQuote_iff {c : Char} : isQuote c = true ↔ c = '\'' ∨ c = '"' := by
  simp [isQuote]

/-- Quoted text goes to the next quote of its kind, whatever it contains. -/
theorem tokens_append_of_quoted {q : Char} {cs : List Char} (hq : isQuote q = true) (hcs : q ∉ cs)
    (u : List Char) : tokens (q :: cs ++ [q] ++ u) = (q :: cs ++ [q]) :: tokens u := by
  refine tokens_of_length (List.cons_ne_nil _ _) ?_
  have hbare : isBare q = false := Bool.eq_false_iff.mpr fun h ↦ by
    rw [isQuote_of_isBare h] at hq
    cases hq
  have hstart : ¬ (isDecimalDigit q = true ∨
      q = '-' ∧ (cs ++ [q] ++ u).head?.any isDecimalDigit = true) := by
    rintro (hdigit | ⟨rfl, -⟩)
    · exact Bool.eq_false_iff.mp hbare (isBare_of_isDecimalDigit hdigit)
    · cases hq
  have hclosed : (cs ++ [q] ++ u).contains q = true := by simp
  have hcontent : (cs ++ [q] ++ u).takeWhile (· != q) = cs := by
    rw [List.append_assoc, takeWhile_append_of_stops cs (by simp), List.takeWhile_eq_self_iff]
    intro c hc
    have hne : c ≠ q := fun h ↦ hcs (h ▸ hc)
    simpa using hne
  rw [List.cons_append, List.cons_append, tokenLength, if_neg hstart, if_pos hq, if_pos hclosed,
    hcontent]
  simp only [List.length_cons, List.length_append, List.length_nil]
  omega

theorem tokens_append_of_isWritten (h : IsWritten v t) (hu : Stops u) :
    tokens (t ++ u) = t :: tokens u := by
  cases h with
  | integer n => exact tokens_append_of_number (isNumber_toString n.toInt) hu.not_digit
  | quoted hq hs =>
    refine tokens_append_of_quoted hq (fun hmem ↦ ?_) u
    rw [hs _ hmem] at hq
    cases hq

theorem strip_quoted {p : Char → Bool} {q : Char} {cs : List Char} (hq : p q = true)
    (hcs : ∀ c ∈ cs, p c = false) : strip p (q :: cs ++ [q]) = cs := by
  have hreverse : ∀ c ∈ cs.reverse, p c = false := fun c hc ↦ hcs c (List.mem_reverse.mp hc)
  rw [strip, List.cons_append, List.dropWhile_cons, if_pos hq]
  cases cs with
  | nil => simp [hq]
  | cons c cs =>
    rw [List.cons_append, List.dropWhile_cons, hcs c List.mem_cons_self, if_neg Bool.false_ne_true,
      ← List.cons_append, List.reverse_append, List.reverse_singleton, List.singleton_append,
      List.dropWhile_cons, if_pos hq, dropWhile_of_forall_not hreverse, List.reverse_reverse]

theorem readInt64_of_isQuote {q : Char} (hq : isQuote q = true) (cs : List Char) :
    readInt64 (String.ofList (q :: cs)) = none := by
  have hnone : readInt (q :: cs) = none := by
    obtain rfl | rfl := isQuote_iff.mp hq <;> simp [readInt, splitSign, readNat]
  rw [readInt64, String.toList_ofList, hnone, Option.bind_none]

theorem ofToken_of_isWritten (h : IsWritten v t) : ofToken t = v := by
  cases h with
  | integer n => rw [ofToken, String.ofList_toList, readInt64_toString]
  | quoted hq hs =>
    rw [ofToken, List.cons_append, readInt64_of_isQuote hq, ← List.cons_append, strip_quoted hq hs,
      String.ofList_toList]

theorem IsSeparator.not_bare (h : IsSeparator t) : ∀ c ∈ t, isBare c = false := by
  intro c hc
  obtain hblank | rfl := h.isSeparating c hc
  · simp [isBare, hblank]
  · rfl

theorem IsSeparator.not_quote (h : IsSeparator t) : ∀ c ∈ t, isQuote c = false := by
  intro c hc
  obtain hblank | rfl := h.isSeparating c hc
  · refine Bool.eq_false_iff.mpr fun hq ↦ ?_
    obtain rfl | rfl := isQuote_iff.mp hq <;> cases hblank
  · rfl

theorem IsSeparator.stops (h : IsSeparator t) (u : List Char) : Stops (t ++ u) := by
  obtain ⟨c, cs, rfl⟩ := List.exists_cons_of_ne_nil h.ne_nil
  intro d hd
  exact h.not_bare d (Option.some.inj hd ▸ List.mem_cons_self)

theorem tokens_append_of_not_bare (hbare : ∀ c ∈ t, isBare c = false)
    (hquote : ∀ c ∈ t, isQuote c = false) (u : List Char) : tokens (t ++ u) = tokens u := by
  induction t with
  | nil => rfl
  | cons c t ih =>
    obtain ⟨hc, ht⟩ := List.forall_mem_cons.mp hbare
    obtain ⟨hcq, htq⟩ := List.forall_mem_cons.mp hquote
    rw [List.cons_append, tokens_of_not_bare hc hcq, ih ht htq]

theorem ids_of_areWritten (h : AreWritten ids t) (hu : Stops u) :
    (tokens (t ++ u)).map ofToken = ids ++ (tokens u).map ofToken := by
  induction h with
  | nil => rfl
  | singleton h =>
    rw [tokens_append_of_isWritten h hu, List.map_cons, ofToken_of_isWritten h]
    rfl
  | @cons v w ids t separator rest h hs _ ih =>
    rw [List.append_assoc, List.append_assoc, tokens_append_of_isWritten h (hs.stops _),
      tokens_append_of_not_bare hs.not_bare hs.not_quote, List.map_cons, ofToken_of_isWritten h, ih]
    rfl

/-- Integers, and text in quotes of either kind, are read back from a list as they were written,
however they are separated and with brackets around them or without. This concerns all integers of
64 bits and all text without quotes. -/
theorem written_ids_read_back :
    (∀ ids text, AreWritten ids text.toList →
      read (.text text) = .ok ids ∧ read (.text ("[" ++ text ++ "]")) = .ok ids) ∧
    ∀ ids, (∃ t, AreWritten ids t) ↔ ∀ id ∈ ids, IsWritable id := by
  refine ⟨fun ids text h ↦ ⟨?_, ?_⟩, fun ids ↦ exists_areWritten_iff⟩
  · have hids := ids_of_areWritten (u := []) h nofun
    rw [List.append_nil] at hids
    rw [read, hids]
    exact congrArg Except.ok (List.append_nil ids)
  · have hclose : Stops [']'] := fun c hc ↦ Option.some.inj hc ▸ rfl
    have htext : ("[" ++ text ++ "]").toList = '[' :: (text.toList ++ [']']) := by simp
    rw [read, htext, tokens_of_not_bare rfl rfl, ids_of_areWritten h hclose]
    exact congrArg Except.ok (List.append_nil ids)

/-- The least integer, text that looks like a list, and a quoted numeral before a plain one. -/
theorem written_ids_read_back_mixed :
    let ids : List Value :=
      [.bigInt (-9223372036854775808), .text "1, [2]\n", .text "12", .bigInt 12]
    let text := "-9223372036854775808,'1, [2]\n' \t\"12\", 12"
    AreWritten ids text.toList ∧ read (.text text) = .ok ids ∧
      read (.text ("[" ++ text ++ "]")) = .ok ids := by
  intro ids text
  have hcomma : IsSeparator [','] := ⟨by simp, by simp⟩
  have hblanks : IsSeparator [' ', '\t'] := ⟨by simp, by simp [isBlank]⟩
  have hboth : IsSeparator [',', ' '] := ⟨by simp, by simp [isBlank]⟩
  have hlist : IsWritten (.text "1, [2]\n") _ := .quoted (q := '\'') rfl (by simp [isQuote])
  have htwelve : IsWritten (.text "12") _ := .quoted (q := '"') rfl (by simp [isQuote])
  have htext : text.toList = (toString (-9223372036854775808 : Int64).toInt).toList ++ [','] ++
      ('\'' :: "1, [2]\n".toList ++ ['\''] ++ [' ', '\t'] ++
        ('"' :: "12".toList ++ ['"'] ++ [',', ' '] ++ (toString (12 : Int64).toInt).toList)) := by
    decide +kernel
  have hwritten : AreWritten ids _ :=
    .cons (.integer _) hcomma (.cons hlist hblanks (.cons htwelve hboth (.singleton (.integer 12))))
  rw [← htext] at hwritten
  obtain ⟨hplain, hbrackets⟩ := written_ids_read_back.1 ids text hwritten
  exact ⟨hwritten, hplain, hbrackets⟩

end RelMapper.IdList
