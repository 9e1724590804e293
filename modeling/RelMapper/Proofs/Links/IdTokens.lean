import Mathlib.Data.List.Basic
import Mathlib.Data.List.TakeWhile
import RelMapper.Links.IdList
namespace RelMapper.IdList

open Text

variable {c : Char} {cs n t u : List Char}

/-- Where the digits of all scripts lie among the code points; no separator lies there. -/
theorem zero_bounds : ∀ z ∈ decimalZeros, z = 0x30 ∨ 0x660 ≤ z ∧ z ≤ 0x1090 ∨
    0x17E0 ≤ z ∧ z ≤ 0x1C50 ∨ 0xA620 ≤ z := by decide

theorem isBare_of_isDecimalDigit (h : isDecimalDigit c = true) : isBare c = true := by
  have hcode : (0x30 ≤ c.toNat ∧ c.toNat < 0x3A) ∨ (0x660 ≤ c.toNat ∧ c.toNat < 0x109A) ∨
      (0x17E0 ≤ c.toNat ∧ c.toNat < 0x1C5A) ∨ 0xA620 ≤ c.toNat := by
    rcases Bool.or_eq_true_iff.mp h with hdigit | hany
    · left
      simpa [Char.isDigit, UInt32.le_iff_toNat_le, Nat.lt_succ_iff] using hdigit
    · obtain ⟨z, hz, hrange⟩ := List.any_eq_true.mp hany
      have hbounds := zero_bounds z hz
      simp only [Bool.and_eq_true, decide_eq_true_eq] at hrange
      omega
  have hne (d : Char) (hd : d.toNat < 0x30 ∨ 0x3A ≤ d.toNat ∧ d.toNat < 0x660) : c ≠ d := by
    rintro rfl
    omega
  have hblank : isBlank c = false := by
    simp only [isBlank, Bool.or_eq_false_iff, Bool.and_eq_false_iff, decide_eq_false_iff_not,
      beq_eq_false_iff_ne]
    omega
  simp [isBare, isQuote, hblank, hne ',' (by decide), hne '[' (by decide), hne ']' (by decide),
    hne '\'' (by decide), hne '"' (by decide)]

theorem isQuote_of_isBare (h : isBare c = true) : isQuote c = false := by
  simp only [isBare, Bool.and_eq_true, Bool.not_eq_true'] at h
  exact h.1.1.1.2

def IsNumber (n : List Char) : Prop :=
  ∃ ds, ds ≠ [] ∧ (∀ d ∈ ds, isDecimalDigit d = true) ∧ (n = ds ∨ n = '-' :: ds)

theorem IsNumber.ne_nil (hn : IsNumber n) : n ≠ [] := by
  obtain ⟨ds, hne, -, rfl | rfl⟩ := hn
  · exact hne
  · exact List.cons_ne_nil _ _

def RunsOn (t : List Char) : Prop :=
  ∃ n c rest, IsNumber n ∧ isDecimalDigit c = false ∧ t = n ++ c :: rest

def Stops (u : List Char) : Prop :=
  ∀ c ∈ u.head?, isBare c = false

theorem Stops.not_digit (hu : Stops u) : ∀ c ∈ u.head?, isDecimalDigit c = false :=
  fun c hc ↦ Bool.eq_false_iff.mpr fun h ↦
    Bool.eq_false_iff.mp (hu c hc) (isBare_of_isDecimalDigit h)

theorem takeWhile_append_of_stops {p : Char → Bool} (t : List Char)
    (hu : ∀ c ∈ u.head?, p c = false) : (t ++ u).takeWhile p = t.takeWhile p := by
  induction t with
  | nil =>
    cases u with
    | nil => rfl
    | cons c u =>
      rw [List.nil_append, List.takeWhile_cons, hu c rfl]
      rfl
  | cons d t ih => rw [List.cons_append, List.takeWhile_cons, List.takeWhile_cons, ih]

theorem tokenLength_append (ht : ∀ c ∈ t, isBare c = true) (hne : t ≠ []) (hu : Stops u) :
    tokenLength (t ++ u) = tokenLength t := by
  obtain ⟨c, cs, rfl⟩ := List.exists_cons_of_ne_nil hne
  have hquote := isQuote_of_isBare (ht c List.mem_cons_self)
  have hhead : (cs ++ u).head?.any isDecimalDigit = cs.head?.any isDecimalDigit := by
    cases cs with
    | nil =>
      cases u with
      | nil => rfl
      | cons d u => exact hu.not_digit d rfl
    | cons d cs => rfl
  have hdigits := takeWhile_append_of_stops cs hu.not_digit
  have hbare := takeWhile_append_of_stops (c :: cs) hu
  rw [List.cons_append] at hbare
  simp only [List.cons_append, tokenLength, hhead, hdigits, hbare, hquote, Bool.false_eq_true,
    if_false]

theorem tokenLength_number (hn : IsNumber n) (hu : ∀ c ∈ u.head?, isDecimalDigit c = false) :
    tokenLength (n ++ u) = n.length := by
  have hall {ds : List Char} (hds : ∀ d ∈ ds, isDecimalDigit d = true) :
      (ds ++ u).takeWhile isDecimalDigit = ds := by
    rw [takeWhile_append_of_stops ds hu, List.takeWhile_eq_self_iff.mpr hds]
  obtain ⟨ds, hne, hds, rfl | rfl⟩ := hn
  · obtain ⟨d, ds, rfl⟩ := List.exists_cons_of_ne_nil hne
    obtain ⟨hd, hds⟩ := List.forall_mem_cons.mp hds
    rw [List.cons_append, tokenLength, if_pos (.inl hd), hall hds, List.length_cons, Nat.add_comm]
  · have hhead : (ds ++ u).head?.any isDecimalDigit = true := by
      obtain ⟨d, ds, rfl⟩ := List.exists_cons_of_ne_nil hne
      exact hds d List.mem_cons_self
    rw [List.cons_append, tokenLength, if_pos (.inr ⟨rfl, hhead⟩), hall hds, List.length_cons,
      Nat.add_comm]

theorem exists_digits (t : List Char) : ∃ ds u, t = ds ++ u ∧
    (∀ d ∈ ds, isDecimalDigit d = true) ∧ (∀ c ∈ u.head?, isDecimalDigit c = false) ∧
      (t.head?.any isDecimalDigit = true → ds ≠ []) := by
  refine ⟨t.takeWhile isDecimalDigit, t.dropWhile isDecimalDigit,
    List.takeWhile_append_dropWhile.symm, fun d hd ↦ List.mem_takeWhile_imp hd, ?_, ?_⟩
  · intro c hc
    rw [← List.find?_not_eq_head?_dropWhile] at hc
    simpa using List.find?_some hc
  · cases t with
    | nil => exact nofun
    | cons d t =>
      intro (hd : isDecimalDigit d = true)
      rw [List.takeWhile_cons, if_pos hd]
      exact List.cons_ne_nil _ _

theorem tokenLength_of_not_runsOn (ht : ∀ c ∈ t, isBare c = true) (hne : t ≠ [])
    (h : ¬ RunsOn t) : tokenLength t = t.length := by
  have hnumber {n u : List Char} (hn : IsNumber n) (hu : ∀ c ∈ u.head?, isDecimalDigit c = false)
      (heq : t = n ++ u) : tokenLength t = t.length := by
    cases u with
    | nil => rw [heq, tokenLength_number hn hu, List.append_nil]
    | cons c u => exact absurd ⟨n, c, u, hn, hu c rfl, heq⟩ h
  obtain ⟨c, cs, rfl⟩ := List.exists_cons_of_ne_nil hne
  by_cases hstart : isDecimalDigit c = true ∨ c = '-' ∧ cs.head?.any isDecimalDigit = true
  · rcases hstart with hc | ⟨rfl, hcs⟩
    · obtain ⟨ds, u, heq, hds, hu, hsome⟩ := exists_digits (c :: cs)
      exact hnumber ⟨ds, hsome hc, hds, .inl rfl⟩ hu heq
    · obtain ⟨ds, u, rfl, hds, hu, hsome⟩ := exists_digits cs
      exact hnumber ⟨ds, hsome hcs, hds, .inr rfl⟩ hu rfl
  · rw [tokenLength, if_neg hstart, isQuote_of_isBare (ht c List.mem_cons_self),
      if_neg Bool.false_ne_true, List.takeWhile_eq_self_iff.mpr ht]

theorem tokensFrom_eq (k : Nat) (t : List Char) : tokensFrom k t = tokens (t.drop k) := by
  induction t generalizing k with
  | nil => cases k <;> rfl
  | cons c t ih =>
    cases k with
    | zero => rfl
    | succ k => exact ih k

theorem tokens_of_tokenLength {k : Nat} (hk : tokenLength t = k + 1) :
    tokens t = t.take (k + 1) :: tokens (t.drop (k + 1)) := by
  cases t with
  | nil => cases hk
  | cons c t => rw [tokens, tokensFrom, hk, List.drop_succ_cons, ← tokensFrom_eq]

theorem tokens_of_length (hne : t ≠ []) (h : tokenLength (t ++ u) = t.length) :
    tokens (t ++ u) = t :: tokens u := by
  obtain ⟨c, cs, rfl⟩ := List.exists_cons_of_ne_nil hne
  rw [tokens_of_tokenLength h, ← List.length_cons, List.take_left, List.drop_left]

theorem tokens_of_not_bare (hc : isBare c = false) (hquote : isQuote c = false) (cs : List Char) :
    tokens (c :: cs) = tokens cs := by
  have hdigit : isDecimalDigit c = false :=
    Bool.eq_false_iff.mpr fun h ↦ Bool.eq_false_iff.mp hc (isBare_of_isDecimalDigit h)
  have hminus : c ≠ '-' := by
    rintro rfl
    exact absurd hc (by decide)
  have hlength : tokenLength (c :: cs) = 0 := by
    simp [tokenLength, hdigit, hminus, hquote, hc]
  rw [tokens, tokensFrom, hlength]
  rfl

theorem tokens_append_of_number (hn : IsNumber n) (hu : ∀ c ∈ u.head?, isDecimalDigit c = false) :
    tokens (n ++ u) = n :: tokens u :=
  tokens_of_length hn.ne_nil (tokenLength_number hn hu)

theorem tokens_number (hn : IsNumber n) (hc : isDecimalDigit c = false) (cs : List Char) :
    tokens (n ++ c :: cs) = n :: tokens (c :: cs) :=
  tokens_append_of_number hn fun _ hd ↦ Option.some.inj hd ▸ hc

theorem tokens_whole (ht : ∀ c ∈ t, isBare c = true) (hne : t ≠ []) (hu : Stops u)
    (h : ¬ RunsOn t) : tokens (t ++ u) = t :: tokens u :=
  tokens_of_length hne ((tokenLength_append ht hne hu).trans (tokenLength_of_not_runsOn ht hne h))

/-- Where an unquoted id ends, whatever is behind it is read as if it stood alone. -/
theorem tokens_append (ht : ∀ c ∈ t, isBare c = true) (hu : Stops u) :
    tokens (t ++ u) = tokens t ++ tokens u := by
  -- The induction is on the length, since a number at the start is cut off as a whole.
  induction hk : t.length using Nat.strong_induction_on generalizing t with
  | _ k ih =>
    by_cases hne : t = []
    · rw [hne]
      rfl
    by_cases h : RunsOn t
    · obtain ⟨n, c, rest, hn, hc, rfl⟩ := h
      have hpos := List.length_pos_iff.mpr hn.ne_nil
      have hshort : (c :: rest).length < k := by
        rw [← hk, List.length_append]
        omega
      have hrest := ih _ hshort (fun d hd ↦ ht d (List.mem_append_right n hd)) rfl
      rw [List.append_assoc, List.cons_append, tokens_number hn hc, ← List.cons_append, hrest,
        tokens_number hn hc, List.cons_append]
    · have halone := tokens_whole (u := []) ht hne nofun h
      rw [List.append_nil] at halone
      rw [tokens_whole ht hne hu h, halone]
      rfl

theorem tokens_eq_singleton (ht : ∀ c ∈ t, isBare c = true) (hne : t ≠ []) (h : ¬ RunsOn t) :
    tokens t = [t] := by
  have halone := tokens_whole (u := []) ht hne nofun h
  rwa [List.append_nil] at halone

theorem tokens_ne_nil (ht : ∀ c ∈ t, isBare c = true) (hne : t ≠ []) : tokens t ≠ [] := by
  by_cases h : RunsOn t
  · obtain ⟨n, c, rest, hn, hc, rfl⟩ := h
    rw [tokens_number hn hc]
    exact List.cons_ne_nil _ _
  · rw [tokens_eq_singleton ht hne h]
    exact List.cons_ne_nil _ _

theorem length_tokens_eq_one_iff (ht : ∀ c ∈ t, isBare c = true) (hne : t ≠ []) :
    (tokens t).length = 1 ↔ ¬ RunsOn t := by
  constructor
  · rintro hone ⟨n, c, rest, hn, hc, rfl⟩
    rw [tokens_number hn hc, List.length_cons] at hone
    refine tokens_ne_nil (t := c :: rest) (fun d hd ↦ ht d (List.mem_append_right n hd))
      (List.cons_ne_nil _ _) ?_
    exact List.length_eq_zero_iff.mp (Nat.succ.inj hone)
  · intro h
    rw [tokens_eq_singleton ht hne h]
    rfl

/-- An id as it can be written without quotes. -/
structure IsUnquoted (t : String) : Prop where
  ne_empty : t ≠ ""
  isBare : ∀ c ∈ t.toList, IdList.isBare c = true

theorem IsUnquoted.toList_ne_nil {t : String} (ht : IsUnquoted t) : t.toList ≠ [] :=
  fun h ↦ ht.ne_empty (String.toList_eq_nil_iff.mp h)

/-- A token as one id: an integer where all of it reads as one, and text otherwise. -/
def wholeId (t : String) : Value :=
  (readInt64 t).elim (.text t) .bigInt

theorem dropWhile_of_forall_not {p : Char → Bool} (h : ∀ c ∈ cs, p c = false) :
    cs.dropWhile p = cs := by
  cases cs with
  | nil => rfl
  | cons c cs => rw [List.dropWhile_cons, h c List.mem_cons_self, if_neg Bool.false_ne_true]

theorem strip_of_forall_not {p : Char → Bool} (h : ∀ c ∈ cs, p c = false) : strip p cs = cs := by
  rw [strip, dropWhile_of_forall_not h,
    dropWhile_of_forall_not fun c hc ↦ h c (List.mem_reverse.mp hc), List.reverse_reverse]

theorem ofToken_eq_wholeId {t : String} (ht : IsUnquoted t) : ofToken t.toList = wholeId t := by
  have hstrip : strip isQuote t.toList = t.toList :=
    strip_of_forall_not fun c hc ↦ isQuote_of_isBare (ht.isBare c hc)
  rw [ofToken, wholeId, hstrip, String.ofList_toList]
  cases readInt64 t <;> rfl

theorem tokens_intercalate {ts : List String} (hts : ∀ t ∈ ts, IsUnquoted t) :
    tokens ((String.intercalate ", " ts).toList ++ [']']) = ts.flatMap fun t ↦ tokens t.toList := by
  have hclose : Stops [']'] := fun c hc ↦ Option.some.inj hc ▸ rfl
  induction ts with
  | nil => rfl
  | cons t ts ih =>
    obtain ⟨ht, hts⟩ := List.forall_mem_cons.mp hts
    cases ts with
    | nil =>
      rw [String.intercalate_singleton, tokens_append ht.isBare hclose, List.flatMap_singleton]
      exact List.append_nil _
    | cons s ts =>
      have hcomma (u : List Char) : Stops (',' :: u) := fun c hc ↦ Option.some.inj hc ▸ rfl
      have hsplit : (String.intercalate ", " (t :: s :: ts)).toList ++ [']'] =
          t.toList ++ ',' :: ' ' :: ((String.intercalate ", " (s :: ts)).toList ++ [']']) := by
        rw [String.intercalate_cons_cons]
        simp
      rw [hsplit, tokens_append ht.isBare (hcomma _), tokens_of_not_bare rfl rfl,
        tokens_of_not_bare rfl rfl, ih hts]
      rfl

theorem read_list {ts : List String} (hts : ∀ t ∈ ts, IsUnquoted t) :
    read (.text ("[" ++ String.intercalate ", " ts ++ "]")) =
      .ok (ts.flatMap fun t ↦ (tokens t.toList).map ofToken) := by
  have htext : ("[" ++ String.intercalate ", " ts ++ "]").toList =
      '[' :: ((String.intercalate ", " ts).toList ++ [']']) := by
    simp
  rw [read, htext, tokens_of_not_bare rfl rfl, tokens_intercalate hts, List.map_flatMap]

theorem length_eq_one_of_flatMap {α β : Type} {g : α → List β} {as : List α}
    (hg : ∀ a ∈ as, g a ≠ []) (h : (as.flatMap g).length = as.length) :
    ∀ a ∈ as, (g a).length = 1 := by
  have hle {bs : List α} (hbs : ∀ b ∈ bs, g b ≠ []) : bs.length ≤ (bs.flatMap g).length := by
    induction bs with
    | nil => exact Nat.le_refl 0
    | cons b bs ih =>
      obtain ⟨hb, hbs⟩ := List.forall_mem_cons.mp hbs
      have hpos := List.length_pos_iff.mpr hb
      have hrest := ih hbs
      rw [List.flatMap_cons, List.length_append, List.length_cons]
      omega
  induction as with
  | nil => exact nofun
  | cons a as ih =>
    obtain ⟨ha, has⟩ := List.forall_mem_cons.mp hg
    have hpos := List.length_pos_iff.mpr ha
    have hrest := hle has
    rw [List.flatMap_cons, List.length_append, List.length_cons] at h
    refine List.forall_mem_cons.mpr ⟨by omega, ih has (by omega)⟩

/-- In a written list of unquoted tokens each token is read on its own: as one id, unless it goes on
behind a number at its start, which is then cut off as an id. So the list is read as one id for each
token exactly if no token goes on behind a number at its start. -/
theorem unquoted_list_read_iff {ts : List String} (hts : ∀ t ∈ ts, IsUnquoted t) :
    read (.text ("[" ++ String.intercalate ", " ts ++ "]")) =
        .ok (ts.flatMap fun t ↦ (tokens t.toList).map ofToken) ∧
      (∀ t ∈ ts, ¬ RunsOn t.toList → (tokens t.toList).map ofToken = [wholeId t]) ∧
      (∀ n c cs, IsNumber n → isDecimalDigit c = false →
        tokens (n ++ c :: cs) = n :: tokens (c :: cs)) ∧
      (read (.text ("[" ++ String.intercalate ", " ts ++ "]")) = .ok (ts.map wholeId) ↔
        ∀ t ∈ ts, ¬ RunsOn t.toList) := by
  have hread := read_list hts
  have hwhole : ∀ t ∈ ts, ¬ RunsOn t.toList → (tokens t.toList).map ofToken = [wholeId t] := by
    intro t ht h
    rw [tokens_eq_singleton (hts t ht).isBare (hts t ht).toList_ne_nil h, List.map_singleton,
      ofToken_eq_wholeId (hts t ht)]
  refine ⟨hread, hwhole, fun n c cs hn hc ↦ tokens_number hn hc cs, ?_⟩
  rw [hread, Except.ok.injEq]
  constructor
  · intro heq t ht
    have hlength := congrArg List.length heq
    rw [List.length_map] at hlength
    have hone := length_eq_one_of_flatMap (fun t ht h ↦ tokens_ne_nil (hts t ht).isBare
      (hts t ht).toList_ne_nil (List.map_eq_nil_iff.mp h)) hlength t ht
    rw [List.length_map] at hone
    exact (length_tokens_eq_one_iff (hts t ht).isBare (hts t ht).toList_ne_nil).mp hone
  · intro h
    rw [List.map_eq_flatMap]
    exact List.flatMap_congr fun t ht ↦ hwhole t ht (h t ht)

/-- A list of two unquoted tokens, the first of which is cut into two ids. -/
theorem unquoted_list_read_12ab : (∀ t ∈ ["12ab", "-7"], IsUnquoted t) ∧
    RunsOn "12ab".toList ∧
    read (.text "[12ab, -7]") = .ok [.bigInt 12, .text "ab", .bigInt (-7)] ∧
    read (.text "[12ab, -7]") ≠ .ok [.text "12ab", .bigInt (-7)] := by
  have hts : ∀ t ∈ ["12ab", "-7"], IsUnquoted t :=
    List.forall_mem_cons.mpr ⟨⟨by decide, List.all_eq_true.mp (by decide +kernel)⟩,
      List.forall_mem_singleton.mpr ⟨by decide, List.all_eq_true.mp (by decide +kernel)⟩⟩
  have hnumber : IsNumber ['1', '2'] :=
    ⟨['1', '2'], List.cons_ne_nil _ _, List.all_eq_true.mp (by decide +kernel), .inl rfl⟩
  have hmixed : RunsOn "12ab".toList := ⟨['1', '2'], 'a', ['b'], hnumber, by decide, rfl⟩
  obtain ⟨hread, -, -, hiff⟩ := unquoted_list_read_iff hts
  refine ⟨hts, hmixed, hread.trans rfl, fun h ↦ ?_⟩
  exact hiff.mp (h.trans rfl) "12ab" (by decide) hmixed

end RelMapper.IdList
