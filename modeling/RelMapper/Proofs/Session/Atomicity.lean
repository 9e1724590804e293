import RelMapper.Proofs.Session.Trace
namespace RelMapper

open Session Log

variable {σ : Type}

def DatabaseCall.IsRead (c : DatabaseCall) : Prop :=
  c.isEnd = false ∧ c.writes = false

def DatabaseCall.IsInner (c : DatabaseCall) : Prop :=
  c.isEnd = false

open DatabaseCall

theorem isRead_select (q : Query) :
    IsRead (.execute (Statement.select q).sql (Statement.select q).binds) :=
  ⟨rfl, (Statement.select q).isWriteText_sql⟩

variable [Database σ]

theorem composesReads_traced :
    ComposesReads fun α (x : SessionM (Recorded σ) α) ↦ Traced IsRead x where
  toComposes := composes_traced
  fetchOne q := traced_fetchOne (isRead_select q) ⟨rfl, rfl⟩
  fetchAll q := traced_fetchAll (isRead_select q) ⟨rfl, rfl⟩

theorem traced_plan (w : Write) :
    Traced IsRead (w.plan : SessionM (Recorded σ) (Option Work)) :=
  composesReads_traced.plan w

theorem traced_inner (st : Statement) :
    Traced IsInner (execute st : SessionM (Recorded σ) Unit) := by
  have h : IsInner (.execute st.sql st.binds) := rfl
  exact traced_execute h

theorem composesWrites_traced :
    ComposesWrites fun α (x : SessionM (Recorded σ) α) ↦ Traced IsInner x where
  toComposes := composes_traced
  execute := traced_inner

theorem traced_fetchInsertId :
    Traced IsInner (fetchInsertId : SessionM (Recorded σ) Value) := by
  rw [fetchInsertId]
  refine traced_get.bind fun s ↦ ?_
  have h : IsInner (.execute s.config.lastInsertIdSql []) := rfl
  have hf : IsInner .fetchOne := rfl
  rw [← bind_assoc]
  refine Traced.bind ?_ fun row ↦ ?_
  · exact traced_run_fetch h hf (.fetchOne succeeds_nil s.config.lastInsertIdSql [])
  · split
    · exact traced_throw _
    · exact traced_throw _
    · exact traced_of_no_calls fun _ ↦ rfl

theorem traced_work (w : Work) : Traced IsInner (w.run : SessionM (Recorded σ) (Option Value)) :=
  composesWrites_traced.work traced_fetchInsertId w

def Bracket {α : Type} (l : Log) (r : Except Fault α) : Prop :=
  ∃ b c r', l = b ++ c ∧ Open b ∧ Told b r' ∧ Closing r' c r

namespace Bracket

variable {α : Type} {l : Log}

theorem commit_last {a : α} (h : Bracket l (.ok a)) : ∃ b, l = b ++ [(.commit, none)] ∧ Open b := by
  obtain ⟨b, c, r, rfl, ho, ht, hc⟩ := h
  cases hc with
  | committed => exact ⟨b, rfl, ho⟩

theorem rollback_last {e : Fault} (h : Bracket l (.error e : Except Fault α)) :
    ∃ b r, l = b ++ [(.rollback, r)] ∧ (∀ c ∈ b, c.1 ≠ .rollback) ∧ (.commit, none) ∉ b ∧
      Reports b e := by
  obtain ⟨b, c, r, rfl, ho, ht, hc⟩ := h
  cases hc with
  | undone e r => exact ⟨b, r, rfl, fun c hc ↦ ho.ne rfl hc, fun hc ↦ ho.ne rfl hc rfl, ht⟩
  | uncommitted a f r =>
    refine ⟨b ++ [(.commit, some e)], r, by rw [List.append_assoc]; rfl, ?_, ?_, .commit ht e⟩
    · refine List.forall_mem_append.mpr ⟨fun c hc ↦ ho.ne rfl hc, fun c hc ↦ ?_⟩
      rw [List.mem_singleton.mp hc]
      exact nofun
    · intro hc
      rcases List.mem_append.mp hc with hc | hc
      · exact ho.ne rfl hc rfl
      · cases List.mem_singleton.mp hc

end Bracket

theorem bracket_transaction {α : Type} {x : SessionM (Recorded σ) α} (h : Traced IsInner x)
    (s : Session (Recorded σ)) :
    ∃ l : Log, ((transaction x).run s).2.database.history = s.database.history ++ l ∧
      Bracket l ((transaction x).run s).1 := by
  obtain ⟨b, hb, ho, ht⟩ := h s
  obtain ⟨c, hc, hclosing⟩ := closing_transaction x s
  refine ⟨b ++ c, ?_, b, c, _, rfl, ho, ht, hclosing⟩
  rw [hc, hb, List.append_assoc]

/-- The write has something to do, and begins a transaction for it. -/
def Write.Begins (w : Write) (s : Session (Recorded σ)) : Prop :=
  ∃ work, ((w.plan : SessionM (Recorded σ) (Option Work)).run s).1 = .ok (some work)

theorem log_write (w : Write) (s : Session (Recorded σ)) :
    (∃ l : Log, (w.run.run s).2.database.history = s.database.history ++ l ∧
      (∀ c ∈ l, IsRead c.1) ∧ Told l (w.run.run s).1 ∧ ¬ w.Begins s) ∨
    ∃ reads bracket : Log, (w.run.run s).2.database.history =
        s.database.history ++ (reads ++ bracket) ∧
      (∀ c ∈ reads, IsRead c.1) ∧ reads.Succeeds ∧ Bracket bracket (w.run.run s).1 ∧
      w.Begins s := by
  obtain ⟨l, hl, hc, ht⟩ := traced_plan w s
  rw [w.run_eq, run_bind]
  rcases hp : w.plan.run s with ⟨e | work, t⟩
  · rw [hp] at hl ht
    refine .inl ⟨l, hl, hc, ht, ?_⟩
    rintro ⟨work, hw⟩
    rw [hp] at hw
    cases hw
  · rw [hp] at hl ht
    cases work with
    | none =>
      refine .inl ⟨l, hl, hc, ht, ?_⟩
      rintro ⟨work, hw⟩
      rw [hp] at hw
      cases hw
    | some work =>
      obtain ⟨bracket, hb, hbr⟩ := bracket_transaction (traced_work work) t
      refine .inr ⟨l, bracket, ?_, hc, ht, hbr, work, by rw [hp]⟩
      rw [← List.append_assoc, ← hl]
      exact hb

/-- What a write that has ended in `r` may have done to a database, given the log of its calls and
whether it has begun a transaction. -/
structure Atomic {α : Type} (began : Prop) (l : Log) (r : Except Fault α) : Prop where
  commits : ∀ a, r = .ok a → l.Writes → ∃ b, l = b ++ [(.commit, none)] ∧ Open b
  leaves : ∀ e, r = .error e → ¬l.Writes → ¬began → l.Open ∧ Reports l e
  undoes : ∀ e, r = .error e → l.Writes ∨ began → ∃ b f, l = b ++ [(.rollback, f)] ∧
    (∀ c ∈ b, c.1 ≠ .rollback) ∧ (.commit, none) ∉ b ∧ Reports b e
  brackets : ∃ reads bracket : Log, l = reads ++ bracket ∧ reads.Open ∧ ¬reads.Writes ∧
    (bracket = [] ∨ Bracket bracket r)
  keeps : ∀ e, r = .error e → ∀ k : Ledger, (k.after l).committed = k.committed

theorem open_of_reads {l : Log} (h : ∀ c ∈ l, IsRead c.1) : l.Open :=
  fun c hc ↦ (h c hc).1

theorem not_writes_of_reads {l : Log} (h : ∀ c ∈ l, IsRead c.1) : ¬l.Writes := by
  rintro ⟨c, hc, hw⟩
  rw [(h c hc).2] at hw
  cases hw

/-- A write leaves in a database either all that it does or nothing: it commits once and at the end
if it succeeds, it is undone if it fails, and it tells of the first failure. -/
theorem write_atomic (w : Write) (s : Session (Recorded σ)) :
    ∃ l : Log, (w.run.run s).2.database.history = s.database.history ++ l ∧
      Atomic (w.Begins s) l (w.run.run s).1 := by
  rcases log_write w s with ⟨l, hl, hc, ht, hb⟩ | ⟨reads, bracket, hl, hc, hs, hbr, hb⟩
  · have hopen := open_of_reads hc
    have hreads := not_writes_of_reads hc
    refine ⟨l, hl, ⟨fun a hr hw ↦ absurd hw hreads, ?_, ?_, ?_, ?_⟩⟩
    · intro e hr _ _
      rw [hr] at ht
      exact ⟨hopen, ht⟩
    · intro e hr h
      exact (h.elim hreads hb).elim
    · exact ⟨l, [], (List.append_nil l).symm, hopen, hreads, .inl rfl⟩
    · intro e hr k
      exact Ledger.committed_after (fun hm ↦ hopen.ne rfl hm rfl) k
  · have hopen := open_of_reads hc
    have hundone : ∀ e, (w.run.run s).1 = .error e →
        ∃ b f, reads ++ bracket = b ++ [(.rollback, f)] ∧ (∀ c ∈ b, c.1 ≠ .rollback) ∧
          (.commit, none) ∉ b ∧ Reports b e := by
      intro e hr
      rw [hr] at hbr
      obtain ⟨b, f, rfl, hne, hcommit, he⟩ := hbr.rollback_last
      refine ⟨reads ++ b, f, (List.append_assoc ..).symm, ?_, ?_, he.prepend hs⟩
      · exact List.forall_mem_append.mpr ⟨fun c hm ↦ hopen.ne rfl hm, hne⟩
      · intro hm
        exact (List.mem_append.mp hm).elim (fun hm ↦ hopen.ne rfl hm rfl) hcommit
    refine ⟨reads ++ bracket, hl, ⟨?_, ?_, fun e hr _ ↦ hundone e hr, ?_, ?_⟩⟩
    · intro a hr _
      rw [hr] at hbr
      obtain ⟨b, rfl, ho⟩ := hbr.commit_last
      exact ⟨reads ++ b, (List.append_assoc ..).symm, List.forall_mem_append.mpr ⟨hopen, ho⟩⟩
    · intro e hr _ h
      exact absurd hb h
    · exact ⟨reads, bracket, rfl, hopen, not_writes_of_reads hc, .inr hbr⟩
    · intro e hr k
      obtain ⟨b, f, hlog, hne, hcommit, he⟩ := hundone e hr
      rw [hlog]
      refine Ledger.committed_after (fun hm ↦ ?_) k
      rcases List.mem_append.mp hm with hm | hm
      · exact hcommit hm
      · cases List.mem_singleton.mp hm

end RelMapper
