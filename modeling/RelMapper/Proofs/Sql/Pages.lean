import Mathlib.Data.List.Nodup
import RelMapper.Proofs.Selection.Restrictions
import RelMapper.Proofs.Sql.Wording
import RelMapper.Proofs.Text.Numerals
namespace RelMapper

/-- What a database reads in a LIMIT clause: how many rows it is to give at most, and how many it is
to pass over before them. -/
structure Limit where
  count : Nat
  skipped : Nat := 0

namespace Limit

def ofWords : List String → Option Limit
  | ["LIMIT", count] => do return { count := ← Text.readNat count.toList }
  | ["LIMIT", count, "OFFSET", skipped] => do
    return ⟨← Text.readNat count.toList, ← Text.readNat skipped.toList⟩
  | _ => none

def ofText? (s : String) : Option Limit :=
  ofWords ((s.split ' ').toList.map (·.copy))

def select {α : Type} (l : Limit) (rows : List α) : List α :=
  (rows.drop l.skipped).take l.count

theorem ofText?_intercalate {words : List String} (hwords : ∀ w ∈ words, ' ' ∉ w.toList)
    (hne : words ≠ []) : ofText? (String.intercalate " " words) = ofWords words := by
  have hsplit := String.toList_split_intercalate hwords
  rw [if_neg hne] at hsplit
  exact congrArg ofWords hsplit

end Limit

namespace Page

theorem limit_sql (p : Page) :
    Limit.ofText? p.sql = some ⟨p.size.toNat, p.offset.elim 0 UInt64.toNat⟩ := by
  have hnumber := Text.blank_notMem_toString
  have hlimit : ' ' ∉ "LIMIT".toList := by decide
  cases h : p.offset with
  | none =>
    have hsql : p.sql = String.intercalate " " ["LIMIT", toString p.size.toNat] := by
      simp [sql, h, String.intercalate_cons_cons]
    have hwords : ∀ w ∈ ["LIMIT", toString p.size.toNat], ' ' ∉ w.toList :=
      List.forall_mem_cons.mpr ⟨hlimit, List.forall_mem_singleton.mpr (hnumber _)⟩
    rw [hsql, Limit.ofText?_intercalate hwords (by simp), Limit.ofWords, Text.readNat_toString]
    rfl
  | some n =>
    have hsql : p.sql =
        String.intercalate " " ["LIMIT", toString p.size.toNat, "OFFSET", toString n.toNat] := by
      have hkeyword : "LIMIT " = "LIMIT" ++ " " ∧ " OFFSET " = " " ++ "OFFSET" ++ " " := by decide
      simp only [sql, h, hkeyword, String.intercalate_cons_cons, String.intercalate_singleton,
        String.append_assoc]
    have hwords : ∀ w ∈ ["LIMIT", toString p.size.toNat, "OFFSET", toString n.toNat],
        ' ' ∉ w.toList :=
      List.forall_mem_cons.mpr ⟨hlimit, List.forall_mem_cons.mpr ⟨hnumber _,
        List.forall_mem_cons.mpr ⟨by decide, List.forall_mem_singleton.mpr (hnumber _)⟩⟩⟩
    rw [hsql, Limit.ofText?_intercalate hwords (by simp), Limit.ofWords, Text.readNat_toString,
      Text.readNat_toString]
    rfl

variable {α : Type} {rows : List α} {size : UInt64}

def cut (p : Page) (rows : List α) : List α :=
  (Limit.ofText? p.sql).elim [] (·.select rows)

theorem cut_eq (p : Page) (rows : List α) :
    p.cut rows = (rows.drop (p.offset.elim 0 UInt64.toNat)).take p.size.toNat := by
  rw [cut, limit_sql]
  rfl

/-- Where the offset stops at the largest number, it passes over all rows as the exact one does. -/
theorem drop_offset (hrows : rows.length < UInt64.size) (size number : UInt64) :
    rows.drop ((Page.mk size (some number)).offset.elim 0 UInt64.toNat) =
      rows.drop ((number.toNat - 1) * size.toNat) := by
  have hoffset : (Page.mk size (some number)).offset.elim 0 UInt64.toNat =
      min ((number.toNat - 1) * size.toNat) (UInt64.size - 1) :=
    UInt64.toNat_ofNat_of_lt (Nat.lt_of_le_of_lt (Nat.min_le_right _ _) (by decide))
  rw [hoffset]
  -- Where the offset stops early it is still behind the last row, and so is the exact one.
  rcases Nat.le_total ((number.toNat - 1) * size.toNat) (UInt64.size - 1) with hle | hle
  · rw [Nat.min_eq_left hle]
  · rw [Nat.min_eq_right hle, List.drop_eq_nil_of_le (by omega), List.drop_eq_nil_of_le (by omega)]

theorem cut_numbered (hrows : rows.length < UInt64.size) (size number : UInt64) :
    (Page.mk size (some number)).cut rows =
      (rows.drop ((number.toNat - 1) * size.toNat)).take size.toNat := by
  rw [cut_eq, drop_offset hrows]

theorem flatMap_cut (hrows : rows.length < UInt64.size) (size : UInt64) {n : Nat}
    (hn : n < UInt64.size) :
    ((List.range n).flatMap fun k ↦ (Page.mk size (some (.ofNat (k + 1)))).cut rows) =
      rows.take (n * size.toNat) := by
  induction n with
  | zero => simp
  | succ n ih =>
    have hnumber : (UInt64.ofNat (n + 1)).toNat = n + 1 := UInt64.toNat_ofNat_of_lt hn
    rw [List.range_succ, List.flatMap_append, List.flatMap_singleton, ih (by omega),
      cut_numbered hrows, hnumber, Nat.add_sub_cancel, Nat.succ_mul, List.take_add]

end Page

/-- What is shown of a list by pages of one size that are counted from one: stretches of the list
that together are the whole of it. -/
structure Tiles {α : Type} (rows : List α) (size : Nat) (page : UInt64 → List α) : Prop where
  window : ∀ number, 1 ≤ number →
    page number = rows.extract ((number.toNat - 1) * size) (number.toNat * size)
  whole : 0 < size → ((List.range (UInt64.size - 1)).flatMap fun n ↦ page (.ofNat (n + 1))) = rows
  disjoint : rows.Nodup → ∀ m n, 1 ≤ m → m < n → (page m).Disjoint (page n)

namespace Page

variable {α : Type} {rows : List α}

theorem tiles (hrows : rows.length < UInt64.size) (size : UInt64) :
    Tiles rows size.toNat fun number ↦ (Page.mk size (some number)).cut rows where
  window number hnumber := by
    have hle : 1 ≤ number.toNat := UInt64.le_iff_toNat_le.mp hnumber
    have hsize : number.toNat * size.toNat - (number.toNat - 1) * size.toNat = size.toNat := by
      obtain ⟨k, hk⟩ := Nat.exists_eq_add_of_le' hle
      rw [hk, Nat.add_sub_cancel, Nat.succ_mul]
      omega
    rw [cut_numbered hrows, List.extract, hsize]
  whole hsize := by
    have hlength : rows.length ≤ (UInt64.size - 1) * size.toNat :=
      Nat.le_trans (by omega) (Nat.le_mul_of_pos_right _ hsize)
    rw [flatMap_cut hrows size (by omega), List.take_of_length_le hlength]
  disjoint hnodup m n hm hmn := by
    have hlt : m.toNat < n.toNat := UInt64.lt_iff_toNat_lt.mp hmn
    have hle : 1 ≤ m.toNat := UInt64.le_iff_toNat_le.mp hm
    have hends : (m.toNat - 1) * size.toNat + size.toNat ≤ (n.toNat - 1) * size.toNat := by
      rw [← Nat.succ_mul]
      exact Nat.mul_le_mul_right _ (by omega)
    have hdisjoint := List.disjoint_take_drop hnodup hends
    rw [cut_numbered hrows, cut_numbered hrows, List.take_drop]
    intro row hfirst hsecond
    exact hdisjoint (List.mem_of_mem_drop hfirst) (List.mem_of_mem_take hsecond)

end Page

theorem Query.sql_of_page {q : Query} {p : Page} (hplain : q.nesting = .plain)
    (hpage : q.page = some p) :
    q.result.1 = { q with page := none }.result.1 ++ Fragment.lineSeparator ++ p.sql := by
  obtain ⟨projection, source, filter, groupBy, having, orderBy, page, nesting⟩ := q
  obtain rfl : nesting = .plain := hplain
  obtain rfl : page = some p := hpage
  have hclauses : clauses filter groupBy having orderBy (some p) =
      clauses filter groupBy having orderBy none ++ [p.fragment] := by
    simp [clauses]
  rw [result_eq, result_eq, fragment_eq, fragment_eq, hclauses, ← List.append_assoc,
    List.flatMap_append, ← List.append_assoc, Fragment.sql_append, List.flatMap_singleton,
    Fragment.sql_text, Page.fragment, Fragment.sql_ofText, ← String.append_assoc]

theorem Selection.sql_of_page {s : Selection} {q : Query} {p : Page} (h : s.query = .ok q)
    (hpage : s.page = some p) :
    q.result.1 = { q with page := none }.result.1 ++ Fragment.lineSeparator ++ p.sql := by
  obtain ⟨table, projection, source, filter, -, -, -, rfl⟩ := query_eq_ok h
  exact Query.sql_of_page rfl hpage

theorem FetchOptions.page_apply (o : FetchOptions) (c : Config) (s : Selection) {p : Page}
    (h : o.page c.defaultPageSize = some p) : (o.apply c s).page = some p := by
  rw [apply, h]
  rfl

theorem Config.defaultPageSize_pos {c : Config} (h : c.check = .ok ()) : 0 < c.defaultPageSize := by
  rw [check] at h
  split at h
  · cases h
  · split at h
    · cases h
    · next hne => exact UInt64.pos_iff_ne_zero.mpr hne

/-- Pages are the stretches of a list that exact numbers give, also where offsets stop at the
largest number, and together the whole list. So are the pages of which only the numbers are asked
for, whose size is the default one of any settings that pass their check. -/
theorem pages_tile {α : Type} (rows : List α) (hrows : rows.length < UInt64.size) :
    (∀ size, Tiles rows size.toNat fun number ↦ (Page.mk size (some number)).cut rows) ∧
    ∀ (c : Config) (o : FetchOptions) (s : Selection), c.check = .ok () → o.pageSize = none →
      0 < c.defaultPageSize ∧ ∃ page : UInt64 → Page,
        Tiles rows c.defaultPageSize.toNat (fun number ↦ (page number).cut rows) ∧
        ∀ number, ({ o with pageNumber := some number }.apply c s).page = some (page number) ∧
          ∀ q, ({ o with pageNumber := some number }.apply c s).query = .ok q →
            q.result.1 =
              { q with page := none }.result.1 ++ Fragment.lineSeparator ++ (page number).sql := by
  refine ⟨Page.tiles hrows, fun c o s hcheck hsize ↦ ⟨Config.defaultPageSize_pos hcheck, ?_⟩⟩
  refine ⟨fun number ↦ ⟨c.defaultPageSize, some number⟩, Page.tiles hrows _, fun number ↦ ?_⟩
  have hpage : ({ o with pageNumber := some number }.apply c s).page =
      some ⟨c.defaultPageSize, some number⟩ := by
    refine FetchOptions.page_apply _ _ _ ?_
    rw [FetchOptions.page, hsize]
  exact ⟨hpage, fun q hq ↦ Selection.sql_of_page hq hpage⟩

/-- A page behind the largest offset, and the second page of the size that the settings give. -/
theorem pages_tile_films :
    let rows := ["Alien", "Brazil", "Clue"]
    let behind : Page := ⟨9223372036854775808, some 3⟩
    let settings : Config := { defaultPageSize := 2 }
    let film : Model := { name := "Film", table := some "film",
                          fields := [{ name := "title", kind := .string }] }
    let second := ({ pageNumber := some 2 } : FetchOptions).apply settings (.ofModel film)
    rows.length < UInt64.size ∧ behind.offset = some 18446744073709551615 ∧
      behind.cut rows = rows.extract (2 * 9223372036854775808) (3 * 9223372036854775808) ∧
      settings.check = .ok () ∧ ∃ page q, second.page = some page ∧ page.cut rows = ["Clue"] ∧
        second.query = .ok q ∧
        q.result.1 = "SELECT film.title\n    FROM film\n    LIMIT 2 OFFSET 2" ∧
        q.result.1 = { q with page := none }.result.1 ++ Fragment.lineSeparator ++ page.sql := by
  intro rows behind settings film second
  have hrows : rows.length < UInt64.size := by decide
  have hcheck : settings.check = .ok () := by
    rw [Config.check, if_neg (by decide +kernel), if_neg (by decide)]
  obtain ⟨hsizes, hdefaults⟩ := pages_tile rows hrows
  obtain ⟨-, page, htiles, hpages⟩ := hdefaults settings {} (.ofModel film) hcheck rfl
  obtain ⟨hpage, hquery⟩ := hpages 2
  have hread : second.query.toOption.any (fun q ↦
      q.result.1 == "SELECT film.title\n    FROM film\n    LIMIT 2 OFFSET 2") = true := by
    decide +kernel
  obtain ⟨q, hq, htext⟩ := exists_eq_ok hread
  exact ⟨hrows, rfl, (hsizes 9223372036854775808).window 3 (by decide), hcheck, page 2, q, hpage,
    htiles.window 2 (by decide), hq, beq_iff_eq.mp htext, hquery q hq⟩

end RelMapper
