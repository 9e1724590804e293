import RelMapper.Proofs.Session.Composition
import RelMapper.Proofs.Session.Log
import RelMapper.Session.Operation
namespace RelMapper

open Session Log

variable {σ α β : Type} {C : DatabaseCall → Prop}

def Told (l : Log) : Except Fault α → Prop
  | .ok _ => l.Succeeds
  | .error e => Reports l e

theorem Told.prepend {l l' : Log} {r : Except Fault α} (h : Told l' r) (hl : l.Succeeds) :
    Told (l ++ l') r := by
  cases r with
  | ok a => exact succeeds_append hl h
  | error e => exact Reports.prepend h hl

/-- Wherever it starts, `x` makes only calls that satisfy `C`, stops at the first one that fails,
and tells of it. -/
def Traced (C : DatabaseCall → Prop) (x : SessionM (Recorded σ) α) : Prop :=
  ∀ s, ∃ l : Log, (x.run s).2.database.history = s.database.history ++ l ∧
    (∀ c ∈ l, C c.1) ∧ Told l (x.run s).1

section

variable {x : SessionM (Recorded σ) α}

theorem traced_of_no_calls (h : ∀ s, (x.run s).2.database = s.database) : Traced C x := by
  intro s
  refine ⟨[], ?_, ?_, ?_⟩
  · rw [h s, List.append_nil]
  · exact fun c hc ↦ nomatch hc
  · cases hr : (x.run s).1 with
    | ok a => exact succeeds_nil
    | error e => exact .own succeeds_nil e

theorem traced_pure (a : α) : Traced C (pure a : SessionM (Recorded σ) α) :=
  traced_of_no_calls fun _ ↦ rfl

theorem traced_throw (e : Fault) : Traced C (throw e : SessionM (Recorded σ) α) :=
  traced_of_no_calls fun _ ↦ rfl

theorem traced_lift (r : Except Fault α) : Traced C (liftM r : SessionM (Recorded σ) α) :=
  traced_of_no_calls fun _ ↦ rfl

theorem traced_get : Traced C (get : SessionM (Recorded σ) (Session (Recorded σ))) :=
  traced_of_no_calls fun _ ↦ rfl

theorem exists_log_bind {f : α → SessionM (Recorded σ) β} {s : Session (Recorded σ)}
    (P : Log → Except Fault α → Prop) (Q : Log → Except Fault β → Prop)
    (hx : ∃ l : Log, (x.run s).2.database.history = s.database.history ++ l ∧ P l (x.run s).1)
    (hf : ∀ a t, ∃ l : Log, ((f a).run t).2.database.history = t.database.history ++ l ∧
      Q l ((f a).run t).1)
    (herror : ∀ l e, P l (.error e) → Q l (.error e))
    (hok : ∀ l a l' r, P l (.ok a) → Q l' r → Q (l ++ l') r) :
    ∃ l : Log, ((x >>= f).run s).2.database.history = s.database.history ++ l ∧
      Q l ((x >>= f).run s).1 := by
  obtain ⟨l, hl, hp⟩ := hx
  rw [run_bind]
  rcases hrun : x.run s with ⟨e | a, t⟩
  · rw [hrun] at hl hp
    exact ⟨l, hl, herror l e hp⟩
  · rw [hrun] at hl hp
    obtain ⟨l', hl', hq⟩ := hf a t
    have hts : t.database.history = s.database.history ++ l := hl
    refine ⟨l ++ l', ?_, hok l a l' _ hp hq⟩
    rw [← List.append_assoc, ← hts]
    exact hl'

theorem Traced.bind {f : α → SessionM (Recorded σ) β} (hx : Traced C x)
    (hf : ∀ a, Traced C (f a)) : Traced C (x >>= f) := by
  intro s
  refine exists_log_bind (fun l r ↦ (∀ c ∈ l, C c.1) ∧ Told l r)
    (fun l r ↦ (∀ c ∈ l, C c.1) ∧ Told l r) (hx s) hf (fun l e h ↦ h) fun l a l' r h h' ↦ ?_
  exact ⟨List.forall_mem_append.mpr ⟨h.1, h'.1⟩, h'.2.prepend h.2⟩

theorem Traced.map (h : Traced C x) (f : α → β) : Traced C (f <$> x) := by
  rw [← bind_pure_comp]
  exact h.bind fun a ↦ traced_pure (f a)

end

theorem composes_traced : Composes fun α (x : SessionM (Recorded σ) α) ↦ Traced C x where
  lift _ := traced_lift _
  get := traced_get
  bind := Traced.bind

/-- The state after a call that has ended in `fault` or, without one, in success. -/
def Logged (s t : Session (Recorded σ)) (call : DatabaseCall) (fault : Option Fault) : Prop :=
  t.database.history = s.database.history ++ [(call, fault)]

theorem Logged.trans {s t u : Session (Recorded σ)} {c c' : DatabaseCall} {f f' : Option Fault}
    (h : Logged s t c f) (h' : Logged t u c' f') :
    u.database.history = s.database.history ++ [(c, f), (c', f')] := by
  rw [h', h, List.append_assoc]
  rfl

theorem run_onDatabase_record (call : DatabaseCall) (x : DatabaseM σ α)
    (s : Session (Recorded σ)) :
    (∃ a t, (onDatabase (Recorded.record call x)).run s = (.ok a, t) ∧ Logged s t call none) ∨
    ∃ f t, (onDatabase (Recorded.record call x)).run s = (.error f, t) ∧
      Logged s t call (some f) := by
  rw [run_onDatabase]
  rcases hx : x.run s.database.database with ⟨f | a, d⟩
  · have hrun : (Recorded.record call x).run s.database =
        (.error f, ⟨d, s.database.history ++ [(call, some f)]⟩) := by
      simp only [Recorded.record, ExceptT.run_mk]
      rw [hx]
    rw [hrun]
    exact .inr ⟨f, _, rfl, rfl⟩
  · have hrun : (Recorded.record call x).run s.database =
        (.ok a, ⟨d, s.database.history ++ [(call, none)]⟩) := by
      simp only [Recorded.record, ExceptT.run_mk]
      rw [hx]
    rw [hrun]
    exact .inl ⟨a, _, rfl, rfl⟩

theorem run_onStatement_record (sql : String) (binds : List Value) (call : DatabaseCall)
    (x : DatabaseM σ α) (s : Session (Recorded σ)) :
    (∃ a t, (onStatement sql binds (Recorded.record call x)).run s = (.ok a, t) ∧
      Logged s t call none) ∨
    ∃ f t, (onStatement sql binds (Recorded.record call x)).run s =
      (.error (.ofStatement sql binds f), t) ∧ Logged s t call (some f) := by
  have hrun : (onStatement sql binds (Recorded.record call x)).run s =
      (((onDatabase (Recorded.record call x)).run s).1.mapError (.ofStatement sql binds),
        ((onDatabase (Recorded.record call x)).run s).2) := rfl
  rw [hrun]
  rcases run_onDatabase_record call x s with ⟨a, t, hr, hl⟩ | ⟨f, t, hr, hl⟩
  · rw [hr]
    exact .inl ⟨a, t, rfl, hl⟩
  · rw [hr]
    exact .inr ⟨f, t, rfl, hl⟩

variable [Database σ] {sql : String} {binds : List Value}

theorem run_run (s : Session (Recorded σ)) :
    (∃ t, (Session.run sql binds).run s = (.ok (), t) ∧ Logged s t (.execute sql binds) none) ∨
    ∃ f t, (Session.run sql binds).run s = (.error (.ofStatement sql binds f), t) ∧
      Logged s t (.execute sql binds) (some f) := by
  let s' : Session (Recorded σ) := { s with lastSql := some sql }
  have hrun : (Session.run sql binds).run s =
      (onStatement sql binds (Database.execute sql binds)).run s' := by
    rw [Session.run, run_bind]
    rfl
  rw [hrun]
  rcases run_onStatement_record sql binds (.execute sql binds) (Database.execute sql binds) s' with
    ⟨⟨⟩, t, hr, hl⟩ | ⟨f, t, hr, hl⟩
  · exact .inl ⟨t, hr, hl⟩
  · exact .inr ⟨f, t, hr, hl⟩

theorem traced_run (h : C (.execute sql binds)) :
    Traced C (Session.run sql binds : SessionM (Recorded σ) Unit) := by
  intro s
  rcases run_run s with ⟨t, hr, hl⟩ | ⟨f, t, hr, hl⟩
  · rw [hr]
    refine ⟨_, hl, ?_, ?_⟩
    · exact fun c hc ↦ List.mem_singleton.mp hc ▸ h
    · exact fun c hc ↦ List.mem_singleton.mp hc ▸ rfl
  · rw [hr]
    refine ⟨_, hl, ?_, .execute succeeds_nil sql binds f⟩
    exact fun c hc ↦ List.mem_singleton.mp hc ▸ h

theorem traced_run_fetch {fetch : DatabaseCall} {x : DatabaseM σ α} (h : C (.execute sql binds))
    (hf : C fetch)
    (ht : ∀ f, Reports [(.execute sql binds, none), (fetch, some f)] (.ofStatement sql binds f)) :
    Traced C (do Session.run sql binds; onStatement sql binds (Recorded.record fetch x)) := by
  intro s
  rw [run_bind]
  rcases run_run s with ⟨t, hr, hl⟩ | ⟨f, t, hr, hl⟩
  · rw [hr]
    have hc (r : Option Fault) : ∀ c ∈ [(.execute sql binds, none), (fetch, r)], C c.1 := by
      simp only [List.forall_mem_cons]
      exact ⟨h, hf, by simp⟩
    rcases run_onStatement_record sql binds fetch x t with ⟨a, u, hr', hl'⟩ | ⟨f, u, hr', hl'⟩
    · simp only [hr']
      refine ⟨_, hl.trans hl', hc none, ?_⟩
      simp [Told, Succeeds]
    · simp only [hr']
      exact ⟨_, hl.trans hl', hc (some f), ht f⟩
  · rw [hr]
    refine ⟨_, hl, ?_, .execute succeeds_nil sql binds f⟩
    exact fun c hc ↦ List.mem_singleton.mp hc ▸ h

theorem traced_execute {st : Statement} (h : C (.execute st.sql st.binds)) :
    Traced C (Session.execute st : SessionM (Recorded σ) Unit) :=
  traced_run h

theorem traced_fetchOne {st : Statement} (h : C (.execute st.sql st.binds)) (hf : C .fetchOne) :
    Traced C (Session.fetchOne st : SessionM (Recorded σ) (Option Row)) :=
  traced_run_fetch h hf (.fetchOne succeeds_nil st.sql st.binds)

theorem traced_fetchAll {st : Statement} (h : C (.execute st.sql st.binds)) (hf : C .fetchAll) :
    Traced C (Session.fetchAll st : SessionM (Recorded σ) (List Row)) :=
  traced_run_fetch h hf (.fetchAll succeeds_nil st.sql st.binds)

theorem rolledBack_logged (s : Session (Recorded σ)) :
    ∃ r, Logged s (rolledBack s) .rollback r := by
  rcases run_onDatabase_record .rollback (Database.rollback : DatabaseM σ Unit) s with
    ⟨a, t, hr, hl⟩ | ⟨f, t, hr, hl⟩
  · have ht : rolledBack s = t := congrArg Prod.snd hr
    exact ⟨none, ht ▸ hl⟩
  · have ht : rolledBack s = t := congrArg Prod.snd hr
    exact ⟨some f, ht ▸ hl⟩

/-- What the body of a transaction ends in, the calls that are made then, and what the transaction
ends in. -/
inductive Closing : Except Fault α → Log → Except Fault α → Prop
  | committed (a : α) : Closing (.ok a) [(.commit, none)] (.ok a)
  | uncommitted (a : α) (f : Fault) (r : Option Fault) :
    Closing (.ok a) [(.commit, some f), (.rollback, r)] (.error f)
  | undone (e : Fault) (r : Option Fault) : Closing (.error e) [(.rollback, r)] (.error e)

theorem closing_transaction (x : SessionM (Recorded σ) α) (s : Session (Recorded σ)) :
    ∃ c, ((transaction x).run s).2.database.history = (x.run s).2.database.history ++ c ∧
      Closing (x.run s).1 c ((transaction x).run s).1 := by
  rw [run_transaction]
  rcases x.run s with ⟨e | a, t⟩
  · obtain ⟨r, hr⟩ := rolledBack_logged t
    exact ⟨[(.rollback, r)], hr, .undone e r⟩
  · rcases run_onDatabase_record .commit (Database.commit : DatabaseM σ Unit) t with
      ⟨⟨⟩, u, hr, hl⟩ | ⟨f, u, hr, hl⟩
    · have hcommit : (onDatabase Database.commit).run t = (.ok (), u) := hr
      simp only [hcommit]
      exact ⟨[(.commit, none)], hl, .committed a⟩
    · have hcommit : (onDatabase Database.commit).run t = (.error f, u) := hr
      simp only [hcommit]
      obtain ⟨r, hu⟩ := rolledBack_logged u
      exact ⟨[(.commit, some f), (.rollback, r)], hl.trans hu, .uncommitted a f r⟩

def Log.issued (l : Log) : List (String × List Value) :=
  l.filterMap fun
    | (.execute sql binds, _) => some (sql, binds)
    | _ => none

theorem Log.issued_append (l l' : Log) : issued (l ++ l') = l.issued ++ l'.issued :=
  List.filterMap_append

theorem Closing.issued_eq_nil {c : Log} {r r' : Except Fault α} (h : Closing r c r') :
    c.issued = [] := by
  cases h <;> rfl

/-- The log of a computation that gives the statements `ss` to a database until one fails, and all
of them if it ends in success. -/
def Issues (ss : List Statement) (l : Log) (r : Except Fault α) : Prop :=
  ∃ done, done <+: ss ∧ l.issued = done.map (fun st ↦ (st.sql, st.binds)) ∧
    ∀ a, r = .ok a → done = ss

theorem run_execute (st : Statement) (s : Session (Recorded σ)) :
    (∃ t, (execute st).run s = (.ok (), t) ∧ Logged s t (.execute st.sql st.binds) none) ∨
    ∃ f t, (execute st).run s = (.error (.ofStatement st.sql st.binds f), t) ∧
      Logged s t (.execute st.sql st.binds) (some f) :=
  run_run s

theorem issues_forM (ss : List Statement) (s : Session (Recorded σ)) :
    ∃ l : Log, ((ss.forM execute).run s).2.database.history = s.database.history ++ l ∧
      Issues ss l ((ss.forM execute).run s).1 := by
  induction ss generalizing s with
  | nil => exact ⟨[], (List.append_nil _).symm, [], List.prefix_rfl, rfl, fun _ _ ↦ rfl⟩
  | cons st ss ih =>
    have hcons : ((st :: ss).forM execute : SessionM (Recorded σ) Unit) =
        execute st >>= fun _ ↦ ss.forM execute := rfl
    rw [hcons, run_bind]
    obtain ⟨t, hst, hl⟩ | ⟨f, t, hst, hl⟩ := run_execute st s
    · rw [hst]
      obtain ⟨l, hlog, done, hdone, hissued, hall⟩ := ih t
      refine ⟨(.execute st.sql st.binds, none) :: l, ?_, st :: done,
        List.cons_prefix_cons.mpr ⟨rfl, hdone⟩, congrArg (_ :: ·) hissued,
        fun a ha ↦ congrArg (st :: ·) (hall a ha)⟩
      rw [hlog, hl, List.append_assoc, List.singleton_append]
    · rw [hst]
      exact ⟨_, hl, [st], List.cons_prefix_cons.mpr ⟨rfl, List.nil_prefix⟩, rfl, nofun⟩

theorem issues_executeAll (ss : List Statement) (s : Session (Recorded σ)) :
    ∃ l : Log, ((executeAll ss).run s).2.database.history = s.database.history ++ l ∧
      Issues ss l ((executeAll ss).run s).1 := by
  obtain ⟨l, hlog, done, hdone, hissued, hall⟩ := issues_forM ss s
  obtain ⟨c, hc, hclosing⟩ := closing_transaction (ss.forM execute) s
  refine ⟨l ++ c, ?_, done, hdone, ?_, fun a ha ↦ ?_⟩
  · rw [← List.append_assoc, ← hlog]
    exact hc
  · rw [Log.issued_append, hissued, hclosing.issued_eq_nil, List.append_nil]
  · rw [executeAll] at ha
    rw [ha] at hclosing
    generalize ((ss.forM execute).run s).1 = r at hall hclosing
    cases hclosing with
    | committed => exact hall a rfl

end RelMapper
