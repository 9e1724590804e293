import RelMapper.Sql.Fragment
import RelMapper.Sql.Literal
namespace RelMapper.Placeholders

/-- The positions of the question marks outside quoted text, when the first character stands at
position `n` and, as the flag says, in quoted text or not. Two quotes in quoted text are one
character of it. -/
def positionsFrom : Bool → Nat → List Char → List Nat
  | _, _, [] => []
  | true, n, '\'' :: '\'' :: cs => positionsFrom true (n + 2) cs
  | quoted, n, c :: cs =>
    if c = '\'' then positionsFrom (!quoted) (n + 1) cs
    else if c = '?' ∧ quoted = false then n :: positionsFrom quoted (n + 1) cs
    else positionsFrom quoted (n + 1) cs

def positions (sql : String) : List Nat :=
  positionsFrom false 0 sql.toList

def quotedAfter (quoted : Bool) (cs : List Char) : Bool :=
  cs.foldl (fun q c ↦ if c = '\'' then !q else q) quoted

/-- The same positions, found by a reader for whom every quote begins or ends quoted text. -/
def marksFrom : Bool → Nat → List Char → List Nat
  | _, _, [] => []
  | quoted, n, c :: cs =>
    (if c = '?' ∧ quoted = false then [n] else []) ++
      marksFrom (if c = '\'' then !quoted else quoted) (n + 1) cs

theorem positionsFrom_eq_marksFrom (quoted : Bool) (n : Nat) (cs : List Char) :
    positionsFrom quoted n cs = marksFrom quoted n cs := by
  fun_induction positionsFrom quoted n cs with
  | case1 => rfl
  | case2 n cs ih => simpa [marksFrom] using ih
  | case3 quoted n cs _ ih => simpa [marksFrom] using ih
  | case4 quoted n c cs _ _ hm ih =>
    obtain ⟨rfl, rfl⟩ := hm
    simpa [marksFrom] using ih
  | case5 quoted n c cs _ hc hm ih => simp [marksFrom, hc, hm, ← ih]

theorem marksFrom_append (quoted : Bool) (n : Nat) (as bs : List Char) :
    marksFrom quoted n (as ++ bs) =
      marksFrom quoted n as ++ marksFrom (quotedAfter quoted as) (n + as.length) bs := by
  induction as generalizing quoted n with
  | nil => rfl
  | cons a as ih =>
    rw [List.cons_append, marksFrom, ih, marksFrom, List.append_assoc, List.length_cons,
      Nat.add_assoc, Nat.add_comm 1 as.length]
    rfl

theorem quotedAfter_append (quoted : Bool) (as bs : List Char) :
    quotedAfter quoted (as ++ bs) = quotedAfter (quotedAfter quoted as) bs :=
  List.foldl_append

/-- Text without placeholders that ends every quoted stretch that it begins. -/
def Inert (cs : List Char) : Prop :=
  (∀ n, marksFrom false n cs = []) ∧ quotedAfter false cs = false

def PlainChar (c : Char) : Prop := c ≠ '?' ∧ c ≠ '\''

instance : DecidablePred PlainChar := fun _ ↦ inferInstanceAs (Decidable (_ ∧ _))

def Plain (s : String) : Prop := ∀ c ∈ s.toList, PlainChar c

instance : DecidablePred Plain := fun s ↦ List.decidableBAll PlainChar s.toList

theorem inert_of_plainChars {cs : List Char} (h : ∀ c ∈ cs, PlainChar c) : Inert cs := by
  induction cs with
  | nil => exact ⟨fun _ ↦ rfl, rfl⟩
  | cons c cs ih =>
    obtain ⟨hq, hc⟩ := h c (by simp)
    obtain ⟨hm, ha⟩ := ih fun d hd ↦ h d (by simp [hd])
    refine ⟨fun n ↦ ?_, ?_⟩
    · simp only [marksFrom, hq, hc, false_and, if_false, List.nil_append, hm]
    · simpa only [quotedAfter, List.foldl_cons, if_neg hc] using ha

theorem Plain.inert {s : String} (h : Plain s) : Inert s.toList :=
  inert_of_plainChars h

theorem Plain.append {s t : String} (hs : Plain s) (ht : Plain t) : Plain (s ++ t) := by
  intro c hc
  rw [String.toList_append] at hc
  exact (List.mem_append.mp hc).elim (hs c) (ht c)

theorem plain_intercalate {separator : String} (h : Plain separator) {ss : List String}
    (hs : ∀ s ∈ ss, Plain s) : Plain (String.intercalate separator ss) := by
  induction ss with
  | nil => simp [Plain]
  | cons s ss ih =>
    have ih := ih fun t ht ↦ hs t (by simp [ht])
    cases ss with
    | nil => simpa using hs s (by simp)
    | cons t ss =>
      rw [String.intercalate_cons_cons]
      exact ((hs s (by simp)).append h).append ih

/-- Inside quoted text nothing is a placeholder, and doubled quotes do not end it. -/
theorem marksFrom_double (n : Nat) (cs : List Char) :
    marksFrom true n (Text.double '\'' cs) = [] ∧
      quotedAfter true (Text.double '\'' cs) = true := by
  induction cs generalizing n with
  | nil => exact ⟨rfl, rfl⟩
  | cons c cs ih =>
    have hd : Text.double '\'' (c :: cs) =
        (if c = '\'' then [c, c] else [c]) ++ Text.double '\'' cs := rfl
    rw [hd, marksFrom_append, quotedAfter_append]
    by_cases hc : c = '\''
    · subst hc
      exact ⟨(ih _).1, (ih n).2⟩
    · rw [if_neg hc]
      have ha : quotedAfter true [c] = true := by simp [quotedAfter, hc]
      rw [ha]
      exact ⟨by simpa [marksFrom, hc] using (ih _).1, (ih n).2⟩

theorem inert_quoted (s : String) : Inert (Literal.quoted s).toList := by
  rw [Literal.quoted, String.toList_ofList]
  refine ⟨fun n ↦ ?_, ?_⟩
  · have hd := marksFrom_double (n + 1) s.toList
    rw [List.cons_append, marksFrom, marksFrom_append]
    simp only [if_true, Bool.not_false, hd.1, hd.2]
    simp [marksFrom]
  · have hd := (marksFrom_double 0 s.toList).2
    rw [List.cons_append, quotedAfter, List.foldl_cons, ← quotedAfter, quotedAfter_append]
    simp only [if_true, Bool.not_false, hd]
    rfl

/-- The placeholders that a fragment writes, when its text begins at position `n`, with the values
that they carry. -/
def slotsFrom : Nat → Fragment → List (Nat × Value)
  | _, [] => []
  | n, .text s :: f => slotsFrom (n + s.length) f
  | n, .slot v :: f => (n, v) :: slotsFrom (n + 1) f

def slots (f : Fragment) : List (Nat × Value) :=
  slotsFrom 0 f

theorem slotsFrom_snd (n : Nat) (f : Fragment) : (slotsFrom n f).map Prod.snd = f.binds := by
  fun_induction slotsFrom n f with
  | case1 => rfl
  | case2 n s f ih => exact ih
  | case3 n v f ih => rw [List.map_cons, ih, Fragment.binds_slot]

def InertPieces (f : Fragment) : Prop :=
  ∀ s, Piece.text s ∈ f → Inert s.toList

theorem inertPieces_nil : InertPieces [] := fun _ hs ↦ nomatch hs

theorem InertPieces.append {f g : Fragment} (hf : InertPieces f) (hg : InertPieces g) :
    InertPieces (f ++ g) := fun s hs ↦
  (List.mem_append.mp hs).elim (hf s) (hg s)

theorem InertPieces.text {s : String} {f : Fragment} (hs : Inert s.toList) (hf : InertPieces f) :
    InertPieces (.text s :: f) := by
  intro t ht
  rcases List.mem_cons.mp ht with h | h
  · rwa [Piece.text.inj h]
  · exact hf t h

theorem inertPieces_ofText {s : String} (hs : Inert s.toList) : InertPieces (.ofText s) :=
  .text hs inertPieces_nil

theorem inertPieces_slot (v : Value) : InertPieces [.slot v] := fun s hs ↦ by
  simp at hs

theorem inertPieces_join {separator : String} (h : Plain separator) {fs : List Fragment}
    (hs : ∀ f ∈ fs, InertPieces f) : InertPieces (Fragment.join separator fs) := by
  fun_induction Fragment.join separator fs with
  | case1 => exact inertPieces_nil
  | case2 f => exact hs f (by simp)
  | case3 f fs _ ih =>
    exact (hs f (by simp)).append (.text h.inert (ih fun g hg ↦ hs g (by simp [hg])))

theorem inertPieces_lines {fs : List Fragment} (hs : ∀ f ∈ fs, InertPieces f) :
    InertPieces (.lines fs) :=
  inertPieces_join (by decide) hs

/-- A reader of the text finds the placeholders exactly where the fragment has written them. -/
theorem marksFrom_sql {f : Fragment} (hf : InertPieces f) (n : Nat) :
    marksFrom false n f.sql.toList = (slotsFrom n f).map Prod.fst := by
  induction f generalizing n with
  | nil => simp [marksFrom, slotsFrom]
  | cons p f ih =>
    have ih := ih fun s hs ↦ hf s (by simp [hs])
    cases p with
    | text s =>
      obtain ⟨hm, ha⟩ := hf s (by simp)
      rw [Fragment.sql_text, String.toList_append, marksFrom_append, hm, ha, ih,
        List.nil_append, String.length_toList, slotsFrom]
    | slot v =>
      rw [Fragment.sql_slot, String.toList_append, marksFrom_append]
      exact congrArg (n :: ·) (ih (n + 1))

theorem positions_sql {f : Fragment} (hf : InertPieces f) :
    positions f.sql = (slots f).map Prod.fst := by
  rw [positions, positionsFrom_eq_marksFrom, marksFrom_sql hf 0, slots]

end RelMapper.Placeholders
